import SourceRename.Proofs.Template.Instance

/-!
# What a match is turned into

`Template.Instantiates` says what one expects of a match: the node becomes the statement that
replaces it, in which each use of a parameter is replaced by what was captured for this parameter.
This holds where the parameters captured, in the order of the file, are those that the replacement
uses, in its order.  Captured expressions stay where they are and only the text around them is
written, so with the parameters in another order the texts end up at each other's uses:

    x - y  ↦  y - x    turns    a - b    into    a - b

Reading a template only compares how often both sides use parameters.
-/

namespace SourceRename.Template

variable {t : Template} {before after file : SourceFile} {site method replacement : Site}

/-! ### Reading -/

/-- What a template that was read consists of. -/
structure ReadFrom (t : Template) (after : SourceFile) (method replacement root newRoot : Site) :
    Prop where
  statement : Template.statement method = .ok root
  newStatement : Template.statement replacement = .ok newRoot
  tree : t.tree = .node root.kind root.children
  fragments : fragments? after.text.toList newRoot.span.start newRoot.span.stop
    ((holes t.parameters newRoot).map Site.span) = some t.replacement

theorem readFrom_of_ofMethods (h : ofMethods before method after replacement = .ok t) :
    ∃ root newRoot, t.ReadFrom after method replacement root newRoot ∧
      (holes t.parameters root).length = (holes t.parameters newRoot).length := by
  rw [ofMethods] at h
  obtain ⟨parameters, hparameters, h⟩ := bind_eq_ok_iff.1 h
  obtain ⟨root, hroot, h⟩ := bind_eq_ok_iff.1 h
  obtain ⟨newRoot, hnew, h⟩ := bind_eq_ok_iff.1 h
  rw [mapError_eq_ok_iff] at hroot hnew
  dsimp only at h
  split at h
  · simp [throw, throwThe, MonadExceptOf.throw, bind, Except.bind] at h
  · next hcount =>
    split at h
    · simp [throw, throwThe, MonadExceptOf.throw] at h
    · next fragments hfragments =>
      obtain rfl := Except.ok.inj h
      exact ⟨root, newRoot, ⟨hroot, hnew, rfl, hfragments⟩, Decidable.of_not_not hcount⟩

theorem exists_ofMethods {mark : String} {templates : List Template}
    (h : readAll before after mark = .ok templates) (ht : t ∈ templates) :
    ∃ method ∈ methodsOf before, ∃ replacement ∈ methodsOf after,
      replacement.methodName?.map (·.text) = method.methodName?.map (·.text) ∧
        ofMethods before method after replacement = .ok t := by
  obtain ⟨read, hread, h⟩ := bind_eq_ok_iff.1 h
  obtain rfl := Except.ok.inj h
  obtain ⟨t?, ht?, h⟩ := List.mem_filterMap.1 ht
  obtain rfl : t? = some t := h
  obtain ⟨method, hmethod, h⟩ := mem_of_mapM_eq_ok hread ht?
  rw [readMethod] at h
  split at h
  · split at h
    · simp [pure, Except.pure] at h
    · next name hname =>
      split at h
      · simp [throw, throwThe, MonadExceptOf.throw] at h
      · next replacement hfind =>
        rw [map_eq_ok_iff] at h
        obtain ⟨u, hu, hut⟩ := h
        obtain rfl := Option.some.inj hut
        refine ⟨method, hmethod, replacement, List.mem_of_find?_eq_some hfind, ?_, hu⟩
        have hsame := List.find?_some hfind
        cases hother : replacement.methodName? with
        | none => simp [hother] at hsame
        | some other => simpa [hother, hname] using hsame
  · simp [pure, Except.pure] at h

theorem exists_of_mem_readAll {mark : String} {templates : List Template}
    (h : readAll before after mark = .ok templates) (ht : t ∈ templates) :
    ∃ method ∈ methodsOf before, ∃ replacement ∈ methodsOf after,
      replacement.methodName?.map (·.text) = method.methodName?.map (·.text) ∧
        ∃ root newRoot, t.ReadFrom after method replacement root newRoot := by
  obtain ⟨method, hmethod, replacement, hreplacement, hname, hread⟩ := exists_ofMethods h ht
  obtain ⟨root, newRoot, hfrom, -⟩ := readFrom_of_ofMethods hread
  exact ⟨method, hmethod, replacement, hreplacement, hname, root, newRoot, hfrom⟩

theorem standsIn_of_statement {text : List Char} {root : Site} (hmethod : method.StandsIn text)
    (h : statement method = .ok root) : root.StandsIn text := by
  unfold statement at h
  split at h
  · simp at h
  · next body hbody =>
    have hbody := hmethod.node (Site.mem_nodes_of_child? hbody)
    split at h
    · next s hs =>
      have hs : s.StandsIn text := hbody.node (Site.mem_nodes_of_statements (hs ▸ by simp))
      split at h
      · split at h
        · next value hvalue =>
          obtain rfl := Except.ok.inj h
          exact hs.node (Site.mem_nodes_of_firstExpression? hvalue)
        · simp at h
      · obtain rfl := Except.ok.inj h
        exact hs
    · simp at h

/-! ### One text for one parameter -/

theorem slice?_of_consistent {text : List Char} {earlier captures : List Capture}
    (h : consistent text earlier captures = true) {c d : Capture} (hc : c ∈ captures)
    (hsingle : c.extent = .single)
    (hd : (earlier ++ captures).find? (·.parameter == c.parameter) = some d) :
    slice? text d.span = slice? text c.span := by
  rw [consistent_iff] at h
  induction captures generalizing earlier with
  | nil => simp at hc
  | cons x xs ih =>
    obtain ⟨hx, hxs⟩ := allAlike_cons_eq_true_iff.1 h
    rcases List.mem_cons.1 hc with rfl | hc
    · rw [List.find?_append] at hd
      cases hfirst : earlier.find? (·.parameter == c.parameter) with
      | none =>
        -- nothing was captured for the parameter before
        rw [hfirst, Option.none_or, List.find?_cons_of_pos (by simp)] at hd
        rw [Option.some.inj hd]
      | some first =>
        rw [hfirst, Option.some_or] at hd
        obtain rfl := Option.some.inj hd
        obtain ⟨part, hearlier, hlater⟩ := alike_eq_true_iff.1 hx hsingle _ hfirst
        rw [hearlier, hlater]
    · refine ih hxs hc ?_
      rwa [List.append_assoc, List.singleton_append]

/-- **All that is captured for one parameter reads alike**, if the parameter is not variadic. -/
theorem slice?_eq_of_parameter_eq {t : Template} {text : List Char} {captures : List Capture}
    (h : consistent text [] captures = true) (hsound : ∀ c ∈ captures, c.Sound t site)
    {c d : Capture} (hc : c ∈ captures) (hd : d ∈ captures) (heq : c.parameter = d.parameter)
    (hfixed : t.isVariadic c.parameter = false) : slice? text c.span = slice? text d.span := by
  have hsingle : ∀ e ∈ captures, e.parameter = c.parameter → e.extent = .single := by
    intro e he hparameter
    apply (hsound e he).extent.resolve_right
    intro hv
    rw [hparameter, hfixed] at hv
    exact absurd hv (by decide)
  obtain ⟨first, hfirst⟩ : ∃ e, captures.find? (·.parameter == c.parameter) = some e :=
    Option.isSome_iff_exists.1 (List.find?_isSome.2 ⟨c, hc, by simp⟩)
  rw [← slice?_of_consistent h hc (hsingle c hc rfl) (by simpa using hfirst)]
  exact slice?_of_consistent h hd (hsingle d hd heq.symm) (by simpa [← heq] using hfirst)

/-! ### Instances -/

/-- The text is that of the node `newRoot`, in which each use of a parameter is replaced by the text
that the match captured for this parameter. -/
def Instantiates (t : Template) (newRoot : Site) (file : SourceFile) (m : Match)
    (text : List Char) : Prop :=
  ∃ texts : List (List Char), texts.length = (holes t.parameters newRoot).length ∧
    (∀ x ∈ (holes t.parameters newRoot).zip texts,
      (∃ c ∈ m.captures, parameterAt? t.parameters x.1 = some c.parameter ∧
        slice? file.text.toList c.span = some x.2) ∧
      ∀ c ∈ m.captures, parameterAt? t.parameters x.1 = some c.parameter →
        t.isVariadic c.parameter = false → slice? file.text.toList c.span = some x.2) ∧
    Spliced newRoot.start (Tree.textAll newRoot.children)
      (editsOf ((holes t.parameters newRoot).map Site.span) texts) text

/-- The parameters captured, in the order of the file, are those that the node uses, in its
order. -/
def SameOrder (t : Template) (newRoot : Site) (m : Match) : Prop :=
  (m.captures.mergeSort comesBefore).map (fun c => some c.parameter) =
    (holes t.parameters newRoot).map (parameterAt? t.parameters)

/-- What stands at one place of three rows, the first of which agrees with the others. -/
theorem exists_of_mem_zip {α β γ δ ε : Type} {f : α → γ} {g : β → γ} {k : α → ε} {l : δ → ε}
    {xs : List α} {ys : List β} {zs : List δ} (hy : xs.map f = ys.map g)
    (hz : xs.map k = zs.map l) {y : β} {z : δ} (h : (y, z) ∈ ys.zip zs) :
    ∃ x ∈ xs, f x = g y ∧ k x = l z := by
  induction xs generalizing ys zs with
  | nil =>
    obtain rfl := List.map_eq_nil_iff.1 hy.symm
    simp at h
  | cons x xs ih =>
    obtain ⟨y', ys, rfl, hxy, hys⟩ := List.map_eq_cons_iff.1 hy.symm
    obtain ⟨z', zs, rfl, hxz, hzs⟩ := List.map_eq_cons_iff.1 hz.symm
    rw [List.zip_cons_cons, List.mem_cons] at h
    rcases h with h | h
    · obtain ⟨rfl, rfl⟩ := Prod.mk.inj h
      exact ⟨x, by simp, hxy.symm, hxz.symm⟩
    · obtain ⟨w, hw, hwy, hwz⟩ := ih hys.symm hzs.symm h
      exact ⟨w, by simp [hw], hwy, hwz⟩

section

variable {t : Template} {newRoot : Site} {m : Match}

/-- The `i`-th use of a parameter gets the `i`-th captured text. -/
theorem exists_texts (hsite : site.StandsIn file.text.toList)
    (hnew : newRoot.StandsIn after.text.toList)
    (hfragments : fragments? after.text.toList newRoot.span.start newRoot.span.stop
      ((holes t.parameters newRoot).map Site.span) = some t.replacement)
    (hm : t.find? file site = some m) (hkept : ∀ c ∈ m.captures, c.extent ≠ .omitted)
    (hcount : m.captures.length = (holes t.parameters newRoot).length) :
    ∃ texts text result,
      (m.captures.mergeSort comesBefore).map (fun c => slice? file.text.toList c.span) =
        texts.map some ∧
      Spliced newRoot.start (Tree.textAll newRoot.children)
        (editsOf ((holes t.parameters newRoot).map Site.span) texts) text ∧
      (Edits.ofCalls (t.changes m)).applyTo? file.text = some (result, []) ∧
      Spliced 0 file.text.toList [⟨site.span, String.ofList text⟩] result.toList := by
  have hparted := parted_of_fragments? hfragments
  have hlen := hparted.length_eq
  rw [List.length_map, List.length_map] at hlen
  obtain ⟨texts, result, htexts, hresult, hput⟩ :=
    exists_instance hsite hm hkept (by rw [hlen, hcount])
  have hlength : texts.length = ((holes t.parameters newRoot).map Site.span).length := by
    have := congrArg List.length htexts
    rw [List.length_map, List.length_map, List.length_mergeSort] at this
    rw [List.length_map]
    omega
  exact ⟨texts, _, result, htexts, hparted.spliced_site hnew hlength, hresult, hput⟩

theorem instantiates_of_sameOrder {texts : List (List Char)} {text : List Char}
    (hm : t.find? file site = some m) (hkept : ∀ c ∈ m.captures, c.extent ≠ .omitted)
    (htexts : (m.captures.mergeSort comesBefore).map
      (fun c => slice? file.text.toList c.span) = texts.map some)
    (hspliced : Spliced newRoot.start (Tree.textAll newRoot.children)
      (editsOf ((holes t.parameters newRoot).map Site.span) texts) text)
    (horder : t.SameOrder newRoot m) : t.Instantiates newRoot file m text := by
  refine ⟨texts, ?_, ?_, hspliced⟩
  · have h1 := congrArg List.length horder
    have h2 := congrArg List.length htexts
    rw [List.length_map, List.length_map] at h1 h2
    omega
  · intro x hx
    -- the capture at the place of this use was captured for the same parameter
    obtain ⟨c, hc, hparameter, hslice⟩ := exists_of_mem_zip horder htexts hx
    have hc := (List.mergeSort_perm m.captures comesBefore).mem_iff.1 hc
    refine ⟨⟨c, hc, hparameter.symm, hslice⟩, ?_⟩
    intro d hd hdx hfixed
    obtain ⟨hcollect, hconsistent, -⟩ := find?_eq_some hm
    have heq : d.parameter = c.parameter := Option.some.inj (hdx.symm.trans hparameter.symm)
    have hsound := (laid_of_collect hcollect).2
    rw [kept_of_forall hkept] at hsound
    rw [slice?_eq_of_parameter_eq hconsistent hsound hd hc heq hfixed, hslice]

end

/-- **What a match is turned into.**  If as many parameters are captured as the replacement uses,
the node becomes the replacement in which the `i`-th use of a parameter is replaced by the `i`-th
captured text, in the order of the file.  This is what was captured for the parameter itself if the
parameters captured are, in this order, those that the replacement uses. -/
theorem changes_instantiate {mark : String} {templates : List Template} {t : Template} {m : Match}
    (hafter : after.Lossless) (hfile : file.Lossless)
    (hread : readAll before after mark = .ok templates) (ht : t ∈ templates)
    (hsite : site ∈ file.sites) (hm : t.find? file site = some m)
    (hkept : ∀ c ∈ m.captures, c.extent ≠ .omitted) :
    ∃ method ∈ methodsOf before, ∃ replacement ∈ methodsOf after,
      replacement.methodName?.map (·.text) = method.methodName?.map (·.text) ∧
      ∃ root newRoot, statement method = .ok root ∧ t.tree = .node root.kind root.children ∧
        statement replacement = .ok newRoot ∧
        (m.captures.length = (holes t.parameters newRoot).length →
          ∃ texts text result,
            (m.captures.mergeSort comesBefore).map (fun c => slice? file.text.toList c.span) =
              texts.map some ∧
            Spliced newRoot.start (Tree.textAll newRoot.children)
              (editsOf ((holes t.parameters newRoot).map Site.span) texts) text ∧
            (Edits.ofCalls (t.changes m)).applyTo? file.text = some (result, []) ∧
            Spliced 0 file.text.toList [⟨site.span, String.ofList text⟩] result.toList ∧
            (t.SameOrder newRoot m → t.Instantiates newRoot file m text)) := by
  obtain ⟨method, hmethod, replacement, hreplacement, hname, root, newRoot, hfrom⟩ :=
    exists_of_mem_readAll hread ht
  refine ⟨method, hmethod, replacement, hreplacement, hname, root, newRoot, hfrom.statement,
    hfrom.tree, hfrom.newStatement, ?_⟩
  intro hcount
  have hnew : newRoot.StandsIn after.text.toList :=
    standsIn_of_statement (hafter.standsIn (List.mem_filter.1 hreplacement).1) hfrom.newStatement
  have hstands := hfile.standsIn hsite
  obtain ⟨texts, text, result, htexts, hspliced, hresult, hput⟩ :=
    exists_texts hstands hnew hfrom.fragments hm hkept hcount
  exact ⟨texts, text, result, htexts, hspliced, hresult, hput,
    instantiates_of_sameOrder hm hkept htexts hspliced⟩

/-! ### Two operands -/

def loneName (name : String) : Tree := .node .referenceExpr [.token .ident name]

def operation (left : String) (sign : Tree) (right : String) : Tree :=
  .node .binaryExpr [loneName left, sign, loneName right]

def intParameter (name : String) : Tree :=
  .node .parameter [.token .ident "int", .token .whitespace " ", .token .ident name]

/-- The file `int m(int x,int y)\x7breturn value;\x7d`, with modifiers in front. -/
def fileReturning (modifiers : List Tree) (value : Tree) : SourceFile :=
  let children := [.node .methodDecl (modifiers ++ [.token .ident "int", .token .whitespace " ",
    .token .ident "m",
    .node .parameterList [.token .lParen "(", intParameter "x", .token .comma ",",
      intParameter "y", .token .rParen ")"],
    .node .block [.token .lBrace "\x7b",
      .node .returnStmt [.token .returnKw "return", .token .whitespace " ", value,
        .token .semicolon ";"],
      .token .rBrace "\x7d"]])]
  ⟨"", .java, String.ofList (Tree.textAll children), .node .sourceFile children, .empty, .empty,
    ⟨.empty, .empty⟩⟩

def differenceMarked : SourceFile :=
  fileReturning [.node .modifierList [.node .annotationUse [.token .at "@", .token .ident "M"]],
    .token .whitespace " "] (operation "x" (.token .minus "-") "y")

def differenceOfNames : SourceFile := fileReturning [] (operation "a" (.token .minus "-") "b")

def differenceSite : Site :=
  (differenceOfNames.sites.find? (·.kind == .binaryExpr)).getD differenceOfNames.root

def differenceMatch : Match := ⟨⟨26, 29, by decide⟩,
  [⟨0, ⟨26, 27, by decide⟩, .single⟩, ⟨1, ⟨28, 29, by decide⟩, .single⟩]⟩

/-- The template that turns `x - y` into something else. -/
def differenceTemplate (replacement : List String) : Template :=
  ⟨"m", [⟨"x", none⟩, ⟨"y", none⟩], false, operation "x" (.token .minus "-") "y", .empty,
    replacement⟩

theorem differenceSite_mem : differenceSite ∈ differenceOfNames.sites :=
  List.mem_of_find?_eq_some (p := (·.kind == .binaryExpr)) rfl

theorem find?_difference (symbols : Table (Kind × Span) Symbol) (replacement : List String) :
    (differenceTemplate replacement).find? { differenceOfNames with symbols } differenceSite =
      some differenceMatch := by
  have hcollect : (differenceTemplate replacement).collect { differenceOfNames with symbols } []
      (differenceTemplate replacement).root differenceSite = some differenceMatch.captures := by
    rw [collect_of_align rfl rfl]
    simp only [List.singleton_append, List.mapM_cons, List.mapM_nil]
    rw [collect_of_hole rfl, collect_of_hole rfl]
    rfl
  rw [find?_eq, hcollect]
  rfl

theorem mergeSort_difference :
    differenceMatch.captures.mergeSort comesBefore = differenceMatch.captures :=
  List.mergeSort_of_pairwise (by decide)

theorem changes_difference (fragments : List String) (hlen : fragments.length = 3) :
    (differenceTemplate fragments).changes differenceMatch = (editsOf
      [⟨26, 26, by decide⟩, ⟨27, 28, by decide⟩, ⟨29, 29, by decide⟩]
      (fragments.map String.toList)).filter fun e => !(e.span.isEmpty && e.text.isEmpty) := by
  have hfill : resize [] (gaps differenceMatch.root.start differenceMatch.root.stop
      differenceMatch.captures).length ((differenceTemplate fragments).replacement.map
        String.toList) = fragments.map String.toList :=
    resize_of_length ((List.length_map _).trans hlen)
  rw [changes, mergeSort_difference, dropSeparators_of_kept _ (by decide), hfill]
  rfl

theorem slice?_difference : ∀ c ∈ differenceMatch.captures,
    slice? differenceOfNames.text.toList c.span = some [if c.parameter = 0 then 'a' else 'b'] := by
  decide +kernel

def swappedFile : SourceFile := fileReturning [] (operation "y" (.token .minus "-") "x")

def swappedMethod : Site := (methodsOf swappedFile).headD swappedFile.root

def swappedSite : Site :=
  (swappedFile.sites.find? (·.kind == .binaryExpr)).getD swappedFile.root

theorem eq_of_instantiates_swapped {text : List Char}
    (h : (differenceTemplate ["", "-", ""]).Instantiates swappedSite differenceOfNames
      differenceMatch text) : text = "b-a".toList := by
  obtain ⟨texts, hlen, htexts, hspliced⟩ := h
  obtain ⟨y, x, hholes, hy, hx⟩ : ∃ y x,
      holes (differenceTemplate ["", "-", ""]).parameters swappedSite = [y, x] ∧
      parameterAt? (differenceTemplate ["", "-", ""]).parameters y = some 1 ∧
      parameterAt? (differenceTemplate ["", "-", ""]).parameters x = some 0 :=
    ⟨_, _, rfl, rfl, rfl⟩
  rw [hholes] at hlen htexts
  obtain ⟨ofY, ofX, rfl⟩ := List.length_eq_two.1 hlen
  -- each text is the one captured for the parameter
  obtain ⟨c, hc, hcy, hslice⟩ := (htexts (y, ofY) (by simp)).1
  obtain ⟨d, hd, hdx, hslice'⟩ := (htexts (x, ofX) (by simp)).1
  rw [slice?_difference c hc, ← Option.some.inj (hy.symm.trans hcy)] at hslice
  rw [slice?_difference d hd, ← Option.some.inj (hx.symm.trans hdx)] at hslice'
  obtain rfl := Option.some.inj hslice
  obtain rfl := Option.some.inj hslice'
  have heval : Edits.splice? swappedSite.start (Tree.textAll swappedSite.children)
      (editsOf ((holes (differenceTemplate ["", "-", ""]).parameters swappedSite).map Site.span)
        [['b'], ['a']]) = some "b-a".toList := by
    decide +kernel
  exact Option.some.inj (hspliced.splice?_eq.symm.trans heval)

/-- A template that mentions its parameters in another order than its replacement is read and
matches, but the match is not turned into an instance of the replacement: nothing changes. -/
theorem swapped_not_instantiated :
    swappedFile.Lossless ∧ differenceOfNames.Lossless ∧
    readAll differenceMarked swappedFile "M" = .ok [differenceTemplate ["", "-", ""]] ∧
    swappedMethod ∈ methodsOf swappedFile ∧ statement swappedMethod = .ok swappedSite ∧
    differenceSite ∈ differenceOfNames.sites ∧
    (differenceTemplate ["", "-", ""]).find? differenceOfNames differenceSite =
      some differenceMatch ∧
    (∀ c ∈ differenceMatch.captures, c.extent ≠ .omitted) ∧
    (Edits.ofCalls ((differenceTemplate ["", "-", ""]).changes differenceMatch)).applyTo?
      differenceOfNames.text = some (differenceOfNames.text, []) ∧
    ¬ ∃ text result, (differenceTemplate ["", "-", ""]).Instantiates swappedSite
        differenceOfNames differenceMatch text ∧
      (Edits.ofCalls ((differenceTemplate ["", "-", ""]).changes differenceMatch)).applyTo?
        differenceOfNames.text = some (result, []) ∧
      Spliced 0 differenceOfNames.text.toList [⟨differenceSite.span, String.ofList text⟩]
        result.toList := by
  have happly : (Edits.ofCalls ((differenceTemplate ["", "-", ""]).changes
      differenceMatch)).applyTo? differenceOfNames.text =
        some (differenceOfNames.text, []) := by
    rw [changes_difference _ rfl]
    decide +kernel
  refine ⟨⟨_, rfl, by decide +kernel⟩, ⟨_, rfl, by decide +kernel⟩, rfl, List.mem_singleton_self _,
    rfl, differenceSite_mem, find?_difference .empty _, by decide, happly, ?_⟩
  rintro ⟨text, result, hinstance, hresult, hput⟩
  obtain rfl := eq_of_instantiates_swapped hinstance
  rw [happly] at hresult
  obtain ⟨rfl, -⟩ := Prod.mk.inj (Option.some.inj hresult)
  have := hput.splice?_eq
  revert this
  decide +kernel

def sumFile : SourceFile := fileReturning [] (operation "x" (.token .plus "+") "y")

def sumMethod : Site := (methodsOf sumFile).headD sumFile.root

def sumSite : Site := (sumFile.sites.find? (·.kind == .binaryExpr)).getD sumFile.root

/-- With the parameters in one order on both sides the match is turned into an instance. -/
theorem sum_instantiated :
    sumFile.Lossless ∧ differenceOfNames.Lossless ∧
    readAll differenceMarked sumFile "M" = .ok [differenceTemplate ["", "+", ""]] ∧
    differenceSite ∈ differenceOfNames.sites ∧
    (differenceTemplate ["", "+", ""]).find? differenceOfNames differenceSite =
      some differenceMatch ∧
    (∀ c ∈ differenceMatch.captures, c.extent ≠ .omitted) ∧
    ∃ text result, (differenceTemplate ["", "+", ""]).Instantiates sumSite differenceOfNames
        differenceMatch text ∧
      (Edits.ofCalls ((differenceTemplate ["", "+", ""]).changes differenceMatch)).applyTo?
        differenceOfNames.text = some (result, []) ∧
      Spliced 0 differenceOfNames.text.toList [⟨differenceSite.span, String.ofList text⟩]
        result.toList := by
  have hsum : sumFile.Lossless := ⟨_, rfl, by decide +kernel⟩
  have hfile : differenceOfNames.Lossless := ⟨_, rfl, by decide +kernel⟩
  have hread : readAll differenceMarked sumFile "M" = .ok [differenceTemplate ["", "+", ""]] := rfl
  have hkept : ∀ c ∈ differenceMatch.captures, c.extent ≠ .omitted := by decide
  refine ⟨hsum, hfile, hread, differenceSite_mem, find?_difference .empty _, hkept, ?_⟩
  obtain ⟨-, -, replacement, hreplacement, -, -, newRoot, -, -, hnew, hrest⟩ :=
    changes_instantiate hsum hfile hread (List.mem_singleton_self _) differenceSite_mem
      (find?_difference .empty _) hkept
  have hmethods : methodsOf sumFile = [sumMethod] := rfl
  rw [hmethods, List.mem_singleton] at hreplacement
  subst hreplacement
  obtain rfl : sumSite = newRoot := Except.ok.inj hnew
  obtain ⟨-, text, result, -, -, hresult, hput, hinstance⟩ := hrest rfl
  refine ⟨text, result, hinstance ?_, hresult, hput⟩
  rw [SameOrder, mergeSort_difference]
  rfl

end SourceRename.Template
