import SourceRename.Proofs.Template.Points

/-!
# Captured arguments fit their parameters

An expression that is captured for a parameter has a known type that the parameter's type accepts.
Behind the fixed arguments of a call a variadic parameter stands for nothing, for one argument that
is accepted as the array itself, or for all arguments there, each of which is accepted as an
element:

    f(xs)    takes    f()    f(array)    f(a)    f(a, b)

The one argument is tried as the array first, and as an element only if it is none.
-/

namespace SourceRename.Template

variable {t : Template} {before after file : SourceFile} {site p e hole : Site}
  {around : List (Site × Site)} {bound : Bound} {a : Alignment} {c : Capture} {m : Match} {i : Nat}

def Assignable (file : SourceFile) (type : JavaType) (e : Site) : Prop :=
  ∃ actual, file.type? e = some actual ∧ type.accepts file.scope actual = true

def IsCall (kind : Kind) : Prop := kind = .methodCall ∨ kind = .newExpr

def fixedArguments (t : Template) (call : Site) : List Site :=
  match t.variadicHole? (arguments call) with
  | some _ => (arguments call).dropLast
  | none => arguments call

/-- What is captured for a variadic parameter where the call `e` has the arguments `tail` behind the
fixed ones. -/
inductive Takes (t : Template) (file : SourceFile) (e : Site) (fixed : List Site) (c : Capture) :
    List Site → Prop
  | nothing {list : Site} : e.child? .argList = some list → c.extent = .omitted →
      c.span = .empty (tailStart list fixed) → Takes t file e fixed c []
  | array {argument : Site} : c.extent = .single → argument.kind.isExpression = true →
      c.span = argument.span →
      (∀ type, t.type? c.parameter = some type → Assignable file type argument) →
      Takes t file e fixed c [argument]
  | elements {first : Site} {rest : List Site} : c.extent = .run →
      c.span.start = first.span.start → c.span.stop = (rest.getLastD first).span.stop →
      (∀ type, t.type? c.parameter = some type → ∃ element, type.component? = some element ∧
        ∀ argument ∈ first :: rest, Assignable file element argument) →
      Takes t file e fixed c (first :: rest)

/-! ### Types -/

theorem fits_iff : t.fits file i e = true ↔
    ∀ type, t.type? i = some type → Assignable file type e := by
  unfold fits
  split
  · next hnone => exact ⟨fun _ type h => (by simp [hnone] at h), fun _ => rfl⟩
  · next type htype =>
    rw [Option.any_eq_true, htype]
    exact ⟨fun h _ heq => Option.some.inj heq ▸ h, fun h => h type rfl⟩

theorem fitsElement_iff : t.fitsElement file i e = true ↔
    ∀ element, (t.type? i).bind JavaType.component? = some element → Assignable file element e := by
  unfold fitsElement
  split
  · next hnone => exact ⟨fun _ element h => (by simp [hnone] at h), fun _ => rfl⟩
  · next element helement =>
    rw [Option.any_eq_true, helement]
    exact ⟨fun h _ heq => Option.some.inj heq ▸ h, fun h => h element rfl⟩

/-! ### Calls that are laid over each other -/

theorem align_call (hcall : IsCall p.kind) (h : t.align file bound p e = some a) :
    ∃ heads args, (∀ x ∈ heads, x.1 ∈ p.nodes) ∧ a.pairs = heads ++ args ∧
      t.alignArguments file (p.child? .argList) (e.child? .argList) = some (args, a.captures) := by
  have hopen : ∀ {heads? : Option (List (Site × Site))},
      (∀ heads, heads? = some heads → ∀ x ∈ heads, x.1 ∈ p.nodes) →
      t.alignCall file bound p e heads? = some a →
      ∃ heads args, (∀ x ∈ heads, x.1 ∈ p.nodes) ∧ a.pairs = heads ++ args ∧
        t.alignArguments file (p.child? .argList) (e.child? .argList) =
          some (args, a.captures) := by
    intro heads? hheads h
    unfold alignCall at h
    split at h
    · next heads args captures hargs =>
      obtain rfl := Option.some.inj h
      exact ⟨heads, args, hheads heads rfl, rfl, hargs⟩
    · simp at h
  unfold align at h
  split at h
  case isFalse => simp at h
  rcases hcall with hk | hk
  · simp only [hk] at h
    refine hopen (fun heads hheads x hx => ?_) h
    exact Site.mem_nodes_of_child? (Alignment.mem_of_required hheads hx).1
  · simp only [hk] at h
    split at h
    · refine hopen (fun heads hheads x hx => ?_) h
      exact Site.mem_nodes_of_outerInstance? (Alignment.mem_of_optional hheads hx).1
    · simp at h

/-- The fixed arguments are paired one by one; what is left is laid under the variadic parameter. -/
structure ArgumentsAligned (t : Template) (file : SourceFile) (p e : Site) (fixed tail : List Site)
    (pairs : List (Site × Site)) (captures : List Capture) : Prop where
  split : arguments e = fixed ++ tail
  length : (t.fixedArguments p).length = fixed.length
  none : t.variadicHole? (arguments p) = none →
    tail = [] ∧ pairs = (t.fixedArguments p).zip fixed ∧ captures = []
  some : ∀ hole i, t.variadicHole? (arguments p) = some (hole, i) →
    ∃ list more, e.child? .argList = some list ∧
      pairs = (t.fixedArguments p).zip fixed ++ more ∧
      t.alignTail file hole i list fixed tail = some (more, captures)

theorem argumentsAligned {pairs : List (Site × Site)} {captures : List Capture}
    (h : t.alignArguments file (p.child? .argList) (e.child? .argList) = some (pairs, captures)) :
    ∃ fixed tail, t.ArgumentsAligned file p e fixed tail pairs captures := by
  unfold alignArguments at h
  split at h
  · next hp he =>
    obtain ⟨rfl, rfl⟩ := Prod.mk.inj (Option.some.inj h)
    have hnone := arguments_of_none hp
    have hfixed : t.fixedArguments p = [] := by
      rw [fixedArguments, hnone]
      rfl
    refine ⟨[], [], arguments_of_none he, by rw [hfixed], fun _ => ⟨rfl, ?_, rfl⟩, ?_⟩
    · rw [hfixed]
      rfl
    · intro hole i hv
      rw [hnone] at hv
      exact absurd hv (by simp [variadicHole?])
  · next ps es hp he =>
    unfold alignLists at h
    rw [← arguments_of_some hp, ← arguments_of_some he] at h
    split at h
    · next hv =>
      obtain ⟨qs, hq, h⟩ := Option.map_eq_some_iff.1 h
      obtain ⟨rfl, rfl⟩ := Prod.mk.inj h
      have hfixed : t.fixedArguments p = arguments p := by rw [fixedArguments, hv]
      unfold Alignment.rows at hq
      split at hq
      · next hlength =>
        obtain rfl := Option.some.inj hq
        refine ⟨arguments e, [], (List.append_nil _).symm, by rw [hfixed, hlength],
          fun _ => ⟨rfl, by rw [hfixed], rfl⟩, ?_⟩
        intro hole i hsome
        rw [hv] at hsome
        exact absurd hsome (by simp)
      · simp at hq
    · next hole i hv =>
      simp only at h
      split at h
      · simp at h
      · next hlong =>
        obtain ⟨⟨more, ds⟩, hq, h⟩ := Option.map_eq_some_iff.1 h
        obtain ⟨rfl, rfl⟩ := Prod.mk.inj h
        have hfixed : t.fixedArguments p =
            (arguments p).take ((arguments p).length - 1) := by
          rw [fixedArguments, hv]
          exact List.dropLast_eq_take
        refine ⟨_, _, (List.take_append_drop ((arguments p).length - 1) _).symm, ?_, ?_, ?_⟩
        · rw [hfixed, List.length_take, List.length_take]
          omega
        · intro hnone
          rw [hv] at hnone
          exact absurd hnone (by simp)
        · intro other j hsome
          obtain ⟨rfl, rfl⟩ := Prod.mk.inj (Option.some.inj (hv.symm.trans hsome))
          exact ⟨es, more, he, by rw [hfixed], hq⟩
  · simp at h

/-! ### Where arguments are captured -/

theorem variadicHole_not_mem {text : List Char} (hstands : p.StandsIn text)
    (hv : t.variadicHole? (arguments p) = some (hole, i)) :
    hole ∉ p.nodes ∧ hole ∉ t.fixedArguments p := by
  obtain ⟨hlast, hhole, -⟩ := variadicHole?_eq_some hv
  cases hlist : p.child? .argList with
  | none =>
    rw [arguments_of_none hlist] at hlast
    exact absurd hlast (by simp)
  | some list =>
    have hargs := arguments_of_some hlist
    have hmem := Site.mem_nodes_of_child? hlist
    rw [hargs] at hlast
    have hin := Site.mem_nodes_of_expressions (List.mem_of_getLast? hlast)
    constructor
    · intro hnode
      -- the places around a child of the list and around a child of the call are not the same
      have habove := Site.above_of_mem_nodes hin
      rw [Site.ancestors, Site.above_of_mem_nodes hmem, Site.above_of_mem_nodes hnode] at habove
      exact List.cons_ne_self _ _ habove.symm
    · intro hfixed
      rw [fixedArguments, hv, hargs] at hfixed
      have hpair := list.pairwise_nodes.sublist (List.filter_sublist (p := (·.kind.isExpression)))
      rw [← Site.expressions, ← List.dropLast_append_getLast? hole hlast] at hpair
      have hbefore := (List.pairwise_append.1 hpair).2.2 hole hfixed hole (List.mem_singleton_self _)
      have hwide := start_lt_stop_of_hole ((hstands.node hmem).node hin)
        (Option.isSome_iff_exists.2 ⟨i, hhole⟩)
      omega

/-- Arguments that are gathered are none, or all of them are accepted as elements. -/
theorem takes_of_alignTail {fixed tail : List Site} {list : Site} {pairs : List (Site × Site)}
    (harray : ∀ type, t.type? i = some type → ∃ element, type.component? = some element)
    (hlist : e.child? .argList = some list) (hsub : (fixed ++ tail).Sublist list.nodes)
    (h : t.alignTail file hole i list fixed tail = some (pairs, [c])) :
    c.parameter = i ∧ t.Takes file e fixed c tail := by
  unfold alignTail at h
  split at h
  · obtain ⟨-, hc⟩ := Prod.mk.inj (Option.some.inj h)
    obtain rfl := (List.cons.inj hc).1
    exact ⟨rfl, .nothing hlist rfl rfl⟩
  · next first rest =>
    split at h
    · exact absurd (Prod.mk.inj (Option.some.inj h)).2 (by simp)
    · split at h
      · next hall =>
        obtain ⟨-, hc⟩ := Prod.mk.inj (Option.some.inj h)
        obtain rfl := (List.cons.inj hc).1
        have hstop : (hull first (rest.getLastD first)).stop = (rest.getLastD first).span.stop :=
          hull_stop ((List.sublist_append_right _ _).trans hsub)
        refine ⟨rfl, .elements rfl rfl hstop fun type htype => ?_⟩
        obtain ⟨element, helement⟩ := harray type htype
        have hbind : (t.type? i).bind JavaType.component? = some element := by
          rw [htype]
          exact helement
        refine ⟨element, helement, fun argument hargument => ?_⟩
        exact fitsElement_iff.1 (List.all_eq_true.1 hall argument hargument) element hbind
      · simp at h

/-- One argument under the variadic parameter is an expression that is accepted as the array. -/
theorem takes_of_capture? {fixed : List Site} {argument : Site}
    (h : t.capture? file bound c.parameter argument = some c) :
    t.Takes file e fixed c [argument] := by
  obtain ⟨-, hspan, hsingle, hexpression, hfits, -⟩ := capture?_eq_some h
  exact .array hsingle hexpression hspan (fits_iff.1 hfits)

theorem mem_tail_of_align {text : List Char} {fixed : List Site}
    {heads more : List (Site × Site)} (hstands : p.StandsIn text)
    (hv : t.variadicHole? (arguments p) = some (hole, i)) (hheads : ∀ x ∈ heads, x.1 ∈ p.nodes)
    (hpairs : a.pairs = heads ++ ((t.fixedArguments p).zip fixed ++ more)) {x : Site × Site}
    (hx : x ∈ a.pairs) (heq : x.1 = hole) : x ∈ more := by
  obtain ⟨hnode, hfixed⟩ := variadicHole_not_mem hstands hv
  rw [hpairs, List.mem_append, List.mem_append] at hx
  rcases hx with hx | hx | hx
  · exact absurd (heq ▸ hheads x hx) hnode
  · exact absurd (heq ▸ (List.of_mem_zip (show (x.1, x.2) ∈ _ from hx)).1) hfixed
  · exact hx

/-- **The arguments of a call that is met** are met one by one, and those behind the fixed ones are
all taken by the variadic parameter. -/
theorem arguments_taken {text : List Char} (hstands : t.root.StandsIn text)
    (harray : ∀ i type, t.isVariadic i = true → t.type? i = some type →
      ∃ element, type.component? = some element)
    (hm : t.find? file site = some m) (hmeets : t.Meets file site around p e)
    (hcall : IsCall p.kind) :
    ∃ fixed tail, arguments e = fixed ++ tail ∧
      List.Forall₂ (t.Meets file site ((p, e) :: around)) (t.fixedArguments p) fixed ∧
      (t.variadicHole? (arguments p) = none → tail = []) ∧
      ∀ hole i, t.variadicHole? (arguments p) = some (hole, i) →
        (∃ c ∈ m.captures, t.MadeAt file site c ((p, e) :: around) hole) ∧
        ∀ c, t.MadeAt file site c ((p, e) :: around) hole →
          c.parameter = i ∧ t.Takes file e fixed c tail := by
  obtain ⟨hcollect, -, -⟩ := find?_eq_some hm
  have hplain : t.hole? p = none :=
    hole?_of_kind_ne (by rcases hcall with h | h <;> simp [h])
  obtain ⟨captures, hcs, -⟩ := collect_of_meets hcollect hmeets
  obtain ⟨a, -, halign, -⟩ := (collect_eq_some_iff hplain).1 hcs
  obtain ⟨heads, args, hheads, hpairs, hargs⟩ := align_call hcall halign
  obtain ⟨fixed, tail, haligned⟩ := argumentsAligned hargs
  have hpart : ∀ {x : Site × Site}, x ∈ a.pairs →
      t.Meets file site ((p, e) :: around) x.1 x.2 := fun hx => .part hmeets hplain halign hx
  have hfixed : ∀ x ∈ (t.fixedArguments p).zip fixed, x ∈ a.pairs := by
    intro x hx
    rw [hpairs]
    refine List.mem_append_right _ ?_
    cases hv : t.variadicHole? (arguments p) with
    | none => rwa [(haligned.none hv).2.1]
    | some found =>
      obtain ⟨list, more, -, hargs, -⟩ := haligned.some found.1 found.2 hv
      rw [hargs]
      exact List.mem_append_left _ hx
  refine ⟨fixed, tail, haligned.split, ?_, fun hv => (haligned.none hv).1, ?_⟩
  · exact List.forall₂_iff_zip.2 ⟨haligned.length, fun {x y} hxy => hpart (hfixed (x, y) hxy)⟩
  · intro hole i hv
    obtain ⟨list, more, hlist, hmore, htail⟩ := haligned.some hole i hv
    obtain ⟨-, hhole, hvariadic⟩ := variadicHole?_eq_some hv
    constructor
    · rcases alignTail_cases htail with ⟨first, -, rfl, -⟩ | ⟨-, c, hc, hparameter, -⟩
      · have hmet := hpart (x := (hole, first)) (by rw [hpairs, hmore]; simp)
        obtain ⟨cs, hcs, -⟩ := collect_of_meets hcollect hmet
        rw [collect_of_hole hhole] at hcs
        obtain ⟨c, hcapture, -⟩ := Option.map_eq_some_iff.1 hcs
        obtain rfl := (capture?_eq_some hcapture).1
        have hmade := MadeAt.expression hmet hhole hcapture
        exact ⟨c, hmade.mem hcollect, hmade⟩
      · -- arguments are gathered at the last argument, which is this one
        rcases (covers_of_align halign).2.parts with ⟨hnone, -⟩ | ⟨last, d, hone, -, hgathers⟩
        · rw [hnone] at hc
          exact absurd hc (by simp)
        · obtain rfl : c = d := (List.cons.inj (hc.symm.trans hone)).1
          obtain rfl : last = hole := by
            obtain ⟨ps, -, hps, -, hlast, -⟩ := hgathers
            rw [arguments_of_some hps] at hv
            exact (Prod.mk.inj (Option.some.inj (hlast.symm.trans hv))).1
          have hmade := MadeAt.arguments hmeets hplain halign hone hgathers
          exact ⟨c, hmade.mem hcollect, hmade⟩
    · intro c hmade
      cases hmade with
      | @expression _ _ argument hmet hof hcapture =>
        obtain rfl : c.parameter = i := Option.some.inj (hof.symm.trans hhole)
        refine ⟨rfl, ?_⟩
        cases hmet with
        | @part _ _ _ b x _ _ halign' hx =>
          obtain rfl := Option.some.inj (halign.symm.trans halign')
          rw [hmore] at hpairs
          have hin := mem_tail_of_align (hstands.preorder hmeets.mem_root) hv hheads hpairs hx rfl
          rcases alignTail_cases htail with ⟨first, rfl, rfl, -⟩ | ⟨rfl, -⟩
          · rw [List.mem_singleton.1 hin] at hcapture
            exact takes_of_capture? hcapture
          · exact absurd hin List.not_mem_nil
      | arguments _ _ halign' hone _ =>
        obtain rfl := Option.some.inj (halign.symm.trans halign')
        have hsub : (fixed ++ tail).Sublist list.nodes := by
          rw [← haligned.split, arguments, hlist]
          exact List.filter_sublist
        exact takes_of_alignTail (fun type => harray i type hvariadic) hlist hsub (hone ▸ htail)

/-- **Captured arguments fit.**  What is captured for an ordinary parameter is one expression of a
known type that the parameter's type accepts.  Of a call that is met, the fixed arguments are met
one by one, and all that stand behind them are taken by the variadic parameter: none of them, one
that is accepted as the array, or a row of them, each of which is accepted as an element. -/
theorem captures_fit {mark : String} {templates : List Template} (hbefore : before.Lossless)
    (hread : readAll before after mark = .ok templates) (ht : t ∈ templates)
    (harray : ∀ i type, t.isVariadic i = true → t.type? i = some type →
      ∃ element, type.component? = some element)
    (hm : t.find? file site = some m) :
    (∀ c ∈ m.captures, ∃ around hole, t.MadeAt file site c around hole) ∧
    (∀ c ∈ m.captures, t.isVariadic c.parameter = false → c.extent = .single ∧
      ∃ e ∈ site.preorder, e.kind.isExpression = true ∧ c.span = e.span ∧
        ∀ type, t.type? c.parameter = some type → Assignable file type e) ∧
    ∀ around p e, t.Meets file site around p e → IsCall p.kind →
      ∃ fixed tail, arguments e = fixed ++ tail ∧
        List.Forall₂ (t.Meets file site ((p, e) :: around)) (t.fixedArguments p) fixed ∧
        (t.variadicHole? (arguments p) = none → tail = []) ∧
        ∀ hole i, t.variadicHole? (arguments p) = some (hole, i) →
          (∃ c ∈ m.captures, t.MadeAt file site c ((p, e) :: around) hole) ∧
          ∀ c, t.MadeAt file site c ((p, e) :: around) hole →
            c.parameter = i ∧ t.Takes file e fixed c tail := by
  obtain ⟨hcollect, -, -⟩ := find?_eq_some hm
  refine ⟨fun c hc => (mem_captures_iff hcollect).1 hc, ?_, ?_⟩
  · intro c hc hfixed
    obtain ⟨around, hole, hmade⟩ := (mem_captures_iff hcollect).1 hc
    cases hmade with
    | expression hmeets _ hcapture =>
      obtain ⟨-, hspan, hsingle, hexpression, hfits, -⟩ := capture?_eq_some hcapture
      exact ⟨hsingle, _, hmeets.mem_preorder, hexpression, hspan, fits_iff.1 hfits⟩
    | arguments _ _ _ _ hgathers =>
      rw [isVariadic_of_gathers hgathers] at hfixed
      exact absurd hfixed (by decide)
  · obtain ⟨text, hstands⟩ := exists_standsIn_root hbefore hread ht
    exact fun around p e hmeets hcall => arguments_taken hstands harray hm hmeets hcall

/-! ### Two arguments of different types -/

/-- The file `int m(int... xs)\x7breturn f(xs);\x7d` that is looked for, with the type of `xs`. -/
def typedMarked : SourceFile :=
  { gathering marked (callOf "f" [loneName "xs"]) with
    types := .ofList [((.parameter, .ofWidth 9 9), .array (.primitive .int))] }

/-- The template that turns `f(xs)` into `g(xs)`, for integers. -/
def typedTemplate : Template :=
  ⟨"m", [⟨"xs", some (.array (.primitive .int))⟩], true, callOf "f" [loneName "xs"], .empty,
    ["g(", ")"]⟩

def pairCall : Tree := callOf "f" [loneName "a", .token .comma ",", loneName "b"]

def pairFile : SourceFile :=
  { expressionFile pairCall with
    types := .ofList [((.referenceExpr, .ofWidth 2 1), .primitive .int),
      ((.referenceExpr, .ofWidth 4 1), .primitive .byte)] }

def pairSite : Site := (pairFile.sites[1]?).getD pairFile.root

def pairMatch : Match := ⟨.ofWidth 0 6, [⟨0, .ofWidth 2 3, .run⟩]⟩

/-- The call `f(a,b)` is matched, and both arguments are integers. -/
theorem pair_accepted :
    typedMarked.Lossless ∧
    readAll typedMarked (gathering [] (callOf "g" [loneName "xs"])) "M" = .ok [typedTemplate] ∧
    (∀ i type, typedTemplate.isVariadic i = true → typedTemplate.type? i = some type →
      ∃ element, type.component? = some element) ∧
    typedTemplate.find? pairFile pairSite = some pairMatch ∧
    ∃ first second, arguments pairSite = [first, second] ∧
      Assignable pairFile (.primitive .int) first ∧ Assignable pairFile (.primitive .int) second := by
  have hbefore : typedMarked.Lossless := ⟨_, rfl, by decide +kernel⟩
  have hread : readAll typedMarked (gathering [] (callOf "g" [loneName "xs"])) "M" =
      .ok [typedTemplate] := rfl
  have harray : ∀ i type, typedTemplate.isVariadic i = true →
      typedTemplate.type? i = some type → ∃ element, type.component? = some element := by
    intro i type hvariadic htype
    obtain rfl : i = 0 := by simpa [Template.isVariadic, typedTemplate] using hvariadic
    obtain rfl := Option.some.inj htype
    exact ⟨_, rfl⟩
  have hcollect : typedTemplate.collect pairFile [] typedTemplate.root pairSite =
      some pairMatch.captures := by
    refine collect_of_rows [[]] rfl rfl (.cons ?_ .nil) rfl
    exact collect_of_rows [] rfl rfl .nil rfl
  have hm : typedTemplate.find? pairFile pairSite = some pairMatch := by
    rw [find?_eq, hcollect]
    rfl
  refine ⟨hbefore, hread, harray, hm, _, _, rfl, ?_⟩
  obtain ⟨fixed, tail, hsplit, hfixed, -, htail⟩ :=
    (captures_fit hbefore hread (List.mem_singleton_self _) harray hm).2.2 [] _ _ .root (.inl rfl)
  obtain rfl : fixed = [] := List.length_eq_zero_iff.1 hfixed.length_eq.symm
  obtain rfl : arguments pairSite = tail := hsplit
  obtain ⟨⟨c, -, hmade⟩, htaken⟩ := htail _ 0 rfl
  obtain ⟨hparameter, htakes⟩ := htaken c hmade
  cases htakes with
  | elements _ _ _ hall =>
    rw [hparameter] at hall
    obtain ⟨element, helement, hall⟩ := hall _ rfl
    obtain rfl := Option.some.inj helement
    exact ⟨hall _ List.mem_cons_self, hall _ (List.mem_cons_of_mem _ List.mem_cons_self)⟩

end SourceRename.Template
