import SourceRename.Proofs.Template.Commas
import SourceRename.Proofs.Template.Scope
import SourceRename.Proofs.Template.Tiling

/-!
# Arguments that are left out

Where no arguments are captured for a variadic parameter, the use of the parameter goes from the
replacement, and a comma next to it should go as well.  `Template.changes` looks for it in the
fragments around the use, and only in the form of a comma and one blank.  So what goes is the use
alone or the use with these two characters in front of it or behind it (`Template.cuts`), and of the
argument list there remains a list of the other arguments only if one of the two is there
(`exists_left_out`):

    g(a, xs)  is left as  g(a)        g(a,xs)  is left as  g(a,)

-/

namespace SourceRename.Template

/-! ### Separators -/

theorem dropSeparatorEnd?_eq_some_iff {f rest : List Char} :
    dropSeparatorEnd? f = some rest ↔ f = rest ++ separator := by
  rw [dropSeparatorEnd?, Option.map_eq_some_iff]
  constructor
  · rintro ⟨back, hback, rfl⟩
    have := congrArg List.reverse (Naming.dropStart?_eq_some_iff.1 hback)
    rwa [List.reverse_reverse, List.reverse_append, List.reverse_reverse] at this
  · rintro rfl
    exact ⟨rest.reverse, Naming.dropStart?_eq_some_iff.2 List.reverse_append,
      List.reverse_reverse rest⟩

/-! ### What is cut out of the replacement -/

def withFront (hole : Span) : Span :=
  ⟨hole.start - 2, hole.stop, Nat.le_trans (Nat.sub_le _ _) hole.start_le_stop⟩

def withBehind (hole : Span) : Span :=
  ⟨hole.start, hole.stop + 2, Nat.le_trans hole.start_le_stop (Nat.le_add_right _ _)⟩

/-- What is cut out of the replacement for each capture: the use of the parameter, and with a
capture of no arguments the separator that is dropped. -/
def cuts : List Capture → List (List Char) → List Span → List Span
  | c :: cs, f :: g :: fs, hole :: holes =>
    if c.extent = .omitted then
      match dropSeparatorEnd? f with
      | some _ => withFront hole :: cuts cs (g :: fs) holes
      | none =>
        match Naming.dropStart? separator g with
        | some g => withBehind hole :: cuts cs (g :: fs) holes
        | none => hole :: cuts cs (g :: fs) holes
    else hole :: cuts cs (g :: fs) holes
  | _, _, holes => holes

/-- What is cut out for a capture between the fragments `f` and `g`, and what is left of the two. -/
inductive CutFor (c : Capture) (hole : Span) :
    List Char → List Char → Span → List Char → List Char → Prop
  | alone {f g : List Char} : (c.extent = .omitted → ¬ separator <:+ f ∧ ¬ separator <+: g) →
      CutFor c hole f g hole f g
  | front {f g : List Char} : c.extent = .omitted →
      CutFor c hole (f ++ separator) g (withFront hole) f g
  | behind {f g : List Char} : c.extent = .omitted →
      CutFor c hole f (separator ++ g) (withBehind hole) f g

section

variable {text : List Char} {start stop : Nat} {captures : List Capture} {holes : List Span}
  {fragments : List (List Char)} {c : Capture} {hole cut : Span} {f g f' g' : List Char}
  {fs : List (List Char)}

theorem cuts_cons (c : Capture) (cs : List Capture) (f g : List Char) (fs : List (List Char))
    (hole : Span) (holes : List Span) :
    ∃ cut f' g', CutFor c hole f g cut f' g' ∧
      cuts (c :: cs) (f :: g :: fs) (hole :: holes) = cut :: cuts cs (g' :: fs) holes ∧
      dropSeparators (c :: cs) (f :: g :: fs) = f' :: dropSeparators cs (g' :: fs) := by
  rw [cuts, dropSeparators]
  by_cases homitted : c.extent = .omitted
  · rw [if_pos homitted, if_pos homitted]
    cases hfront : dropSeparatorEnd? f with
    | some f' =>
      obtain rfl := dropSeparatorEnd?_eq_some_iff.1 hfront
      exact ⟨_, f', g, .front homitted, rfl, rfl⟩
    | none =>
      have hnone : ¬ separator <:+ f := by
        rintro ⟨rest, hrest⟩
        rw [dropSeparatorEnd?_eq_some_iff.2 hrest.symm] at hfront
        exact absurd hfront (by simp)
      cases hbehind : Naming.dropStart? separator g with
      | some g' =>
        obtain rfl := Naming.dropStart?_eq_some_iff.1 hbehind
        exact ⟨_, f, g', .behind homitted, rfl, rfl⟩
      | none =>
        refine ⟨hole, f, g, .alone fun _ => ⟨hnone, ?_⟩, rfl, rfl⟩
        rintro ⟨rest, hrest⟩
        rw [Naming.dropStart?_eq_some_iff.2 hrest.symm] at hbehind
        exact absurd hbehind (by simp)
  · rw [if_neg homitted, if_neg homitted]
    exact ⟨hole, f, g, .alone fun h => absurd h homitted, rfl, rfl⟩

theorem byteLength_separator : byteLength separator = 2 := rfl

theorem Parted.head {spans : List Span} (h : Parted text stop start spans (g :: fs)) :
    PartAt text start g := by
  cases h with
  | last hpart => exact hpart
  | cons hpart => exact hpart

theorem Parted.drop {spans : List Span} (h : Parted text stop start spans ((f ++ g) :: fs)) :
    Parted text stop (start + byteLength f) spans (g :: fs) := by
  cases h with
  | last hpart hstop =>
    refine .last hpart.append.2 ?_
    rwa [Nat.add_assoc, ← byteLength_append]
  | cons hpart hstop hrest =>
    refine .cons hpart.append.2 ?_ hrest
    rwa [Nat.add_assoc, ← byteLength_append]

section

variable (h : CutFor c hole f g cut f' g') (hpart : PartAt text start f)
  (hstart : start + byteLength f = hole.start) (hrest : Parted text stop hole.stop holes (g :: fs))

include h hpart hstart hrest

theorem CutFor.parted : PartAt text start f' ∧ start + byteLength f' = cut.start ∧
    Parted text stop cut.stop holes (g' :: fs) := by
  cases h with
  | alone => exact ⟨hpart, hstart, hrest⟩
  | front =>
    rw [byteLength_append, byteLength_separator] at hstart
    refine ⟨hpart.append.1, ?_, hrest⟩
    show start + byteLength f' = hole.start - 2
    omega
  | behind => exact ⟨hpart, hstart, hrest.drop⟩

theorem CutFor.cutAt : CutAt text hole cut := by
  cases h with
  | alone => exact .alone rfl
  | front =>
    rw [byteLength_append, byteLength_separator] at hstart
    have hfront : (withFront hole).start = start + byteLength f' := by
      show hole.start - 2 = start + byteLength f'
      omega
    refine .front ?_ rfl (hfront ▸ hpart.append.2)
    rw [hfront]
    omega
  | behind => exact .behind rfl rfl hrest.head.append.1

/-- A separator goes if it stands in front of the use or behind it. -/
theorem CutFor.ne_iff (homitted : c.extent = .omitted) :
    cut ≠ hole ↔ separator <:+ f ∨ separator <+: g := by
  cases h with
  | alone hnone =>
    exact iff_of_false (fun hne => hne rfl) (not_or.2 (hnone homitted))
  | front =>
    rw [byteLength_append, byteLength_separator] at hstart
    refine iff_of_true (fun heq => ?_) (.inl (List.suffix_append _ _))
    have : hole.start - 2 = hole.start := congrArg Span.start heq
    omega
  | behind =>
    refine iff_of_true (fun heq => ?_) (.inr (List.prefix_append _ _))
    have : hole.stop + 2 = hole.stop := congrArg Span.stop heq
    omega

end

theorem CutFor.kept (h : CutFor c hole f g cut f' g') (hkept : c.extent ≠ .omitted) :
    cut = hole ∧ f' = f ∧ g' = g := by
  cases h with
  | alone => exact ⟨rfl, rfl, rfl⟩
  | front homitted => exact absurd homitted hkept
  | behind homitted => exact absurd homitted hkept

/-- **The replacement parted by what is cut out of it** leaves the fragments without the separators
that are dropped. -/
theorem Parted.cuts (h : Parted text stop start holes fragments)
    (hlen : captures.length = holes.length) :
    Parted text stop start (cuts captures fragments holes) (dropSeparators captures fragments) := by
  induction captures generalizing start holes fragments with
  | nil =>
    rw [Template.cuts.eq_def, dropSeparators.eq_def]
    exact h
  | cons c cs ih =>
    cases h with
    | last => exact absurd hlen (by simp)
    | @cons _ f hole holes parts hpart hstart hrest =>
      obtain ⟨g, fs, rfl⟩ := List.exists_cons_of_length_eq_add_one hrest.length_eq
      obtain ⟨cut, f', g', hcut, hcuts, hdrop⟩ := cuts_cons c cs f g fs hole holes
      obtain ⟨hpart', hstart', hrest'⟩ := hcut.parted hpart hstart hrest
      rw [hcuts, hdrop]
      exact .cons hpart' hstart' (ih hrest' (Nat.succ.inj hlen))

/-- What is cut out for the `i`-th capture `c` at the `i`-th hole. -/
structure CutOut (text : List Char) (captures : List Capture) (fragments : List (List Char)) (i : Nat)
    (c : Capture) (hole cut : Span) : Prop where
  cutAt : CutAt text hole cut
  kept : c.extent ≠ .omitted → cut = hole
  /-- With the first capture of no arguments a separator goes if it stands next to the hole. -/
  omitted : c.extent = .omitted → (∀ d ∈ captures.take i, d.extent ≠ .omitted) →
    ∃ f g, fragments[i]? = some f ∧ fragments[i + 1]? = some g ∧
      (cut ≠ hole ↔ separator <:+ f ∨ separator <+: g)

theorem Parted.exists_cutOut (h : Parted text stop start holes fragments)
    (hlen : captures.length = holes.length) {i : Nat} (hc : captures[i]? = some c)
    (hhole : holes[i]? = some hole) : ∃ cut,
      (Template.cuts captures fragments holes)[i]? = some cut ∧
        CutOut text captures fragments i c hole cut := by
  induction captures generalizing start holes fragments i with
  | nil => exact absurd hc (by simp)
  | cons d cs ih =>
    cases h with
    | last => exact absurd hlen (by simp)
    | @cons _ f first holes parts hpart hstart hrest =>
      obtain ⟨g, fs, rfl⟩ := List.exists_cons_of_length_eq_add_one hrest.length_eq
      obtain ⟨cut, f', g', hcut, hcuts, -⟩ := cuts_cons d cs f g fs first holes
      rw [hcuts]
      cases i with
      | zero =>
        obtain rfl := Option.some.inj hc
        obtain rfl := Option.some.inj hhole
        exact ⟨cut, rfl, hcut.cutAt hpart hstart hrest, fun hkept => (hcut.kept hkept).1,
          fun homitted _ => ⟨f, g, rfl, rfl, hcut.ne_iff hpart hstart hrest homitted⟩⟩
      | succ i =>
        obtain ⟨-, -, hrest'⟩ := hcut.parted hpart hstart hrest
        obtain ⟨later, hlater, hout⟩ := ih hrest' (Nat.succ.inj hlen) hc hhole
        refine ⟨later, hlater, hout.cutAt, hout.kept, fun homitted hfirst => ?_⟩
        -- nothing was dropped before
        obtain ⟨hd, hcs⟩ := List.forall_mem_cons.1 hfirst
        obtain ⟨-, -, rfl⟩ := hcut.kept hd
        exact hout.omitted homitted hcs

end

/-! ### Matches -/

variable {t : Template} {m : Match} {before after file : SourceFile} {site newRoot : Site}

theorem cut_of_collect {bound : Bound} {p e : Site} {text : List Char} {captures : List Capture}
    (hopen : e.Opened) (he : e.StandsIn text) (h : t.collect file bound p e = some captures) :
    ∀ c ∈ captures, Cut text c.span.start ∧ Cut text c.span.stop := by
  intro c hc
  by_cases homitted : c.extent = .omitted
  · obtain ⟨args, hargs, hkind, hspan⟩ := omitted_of_collect h hc homitted
    have hmem : args ∈ e.preorder := List.mem_cons_of_mem e hargs
    have hstands := he.preorder hmem
    have hcut : Cut text (tailStart args args.expressions) := by
      rcases tailStart_cases args with ⟨last, hlast, hplace⟩ | ⟨paren, hparen, hplace⟩ |
        ⟨hnone, hno, -⟩
      · exact hplace ▸ (hstands.node hlast).cut_stop
      · exact hplace ▸ (hstands.cut_token hparen).2
      · have := hopen args hmem hkind hnone
        rw [hno] at this
        exact absurd this (by simp)
    rw [hspan]
    exact ⟨hcut, hcut⟩
  · exact ((laid_of_collect h).2 c (mem_kept_iff.2 ⟨hc, homitted⟩)).cut he

def cutsOf (t : Template) (newRoot : Site) (m : Match) : List Span :=
  cuts (m.captures.mergeSort comesBefore) (t.replacement.map String.toList)
    ((holes t.parameters newRoot).map Site.span)

theorem length_sorted (h : m.captures.length = (holes t.parameters newRoot).length) :
    (m.captures.mergeSort comesBefore).length =
      ((holes t.parameters newRoot).map Site.span).length := by
  rw [List.length_mergeSort, List.length_map, h]

/-- The node becomes the replacement in which each use of a parameter gives way to what was captured
at its place, or goes with a separator next to it if that is nothing. -/
theorem exists_texts_cut (hsite : site.StandsIn file.text.toList) (hopen : site.Opened)
    (hnew : newRoot.StandsIn after.text.toList)
    (hparted : Parted after.text.toList newRoot.span.stop newRoot.span.start
      ((holes t.parameters newRoot).map Site.span) (t.replacement.map String.toList))
    (hm : t.find? file site = some m)
    (hcount : m.captures.length = (holes t.parameters newRoot).length) :
    ∃ texts text result,
      (m.captures.mergeSort comesBefore).map (fun c => slice? file.text.toList c.span) =
        texts.map some ∧
      Spliced newRoot.start (Tree.textAll newRoot.children)
        (editsOf (t.cutsOf newRoot m) texts) text ∧
      (Edits.ofCalls (t.changes m)).applyTo? file.text = some (result, []) ∧
      Spliced 0 file.text.toList [⟨site.span, String.ofList text⟩] result.toList := by
  have hcollect := (find?_eq_some hm).1
  have hfragments : t.replacement.length = m.captures.length + 1 := by
    have := hparted.length_eq
    rwa [List.length_map, List.length_map, ← hcount] at this
  obtain ⟨texts, result, htexts, hresult, hput⟩ :=
    exists_instance_of_laid hsite hm (laid_of_opened hcollect hopen)
      (cut_of_collect hopen hsite hcollect) hfragments
  have hleft : Parted after.text.toList newRoot.span.stop newRoot.span.start
      (t.cutsOf newRoot m) _ := hparted.cuts (length_sorted hcount)
  have hlength : texts.length = (t.cutsOf newRoot m).length := by
    have h1 := congrArg List.length htexts
    have h2 := hleft.length_eq
    rw [List.length_map, List.length_map, List.length_mergeSort] at h1
    rw [length_dropSeparators, List.length_map, hfragments] at h2
    omega
  exact ⟨texts, _, result, htexts, hleft.spliced_site hnew hlength, hresult, hput⟩

/-- **What is left where arguments are omitted.**  The node becomes the replacement in which each
use of a parameter gives way to what was captured at its place.  That is nothing where arguments
were omitted, and a comma next to the use may go with it.  If the use is an argument of a list
written as usual, a list of the other arguments is left, in which no comma dangles, if and only if a
comma goes or there are no other arguments.  With the first use that is left empty a comma goes if
and only if the fragment in front of it ends with a comma and one blank, or the one behind it begins
so. -/
theorem changes_leave_out {mark : String} {templates : List Template} (hafter : after.Lossless)
    (hfile : file.Lossless) (hread : readAll before after mark = .ok templates)
    (ht : t ∈ templates) (hsite : site ∈ file.sites) (hopen : site.Opened)
    (hm : t.find? file site = some m) :
    ∃ method ∈ methodsOf before, ∃ replacement ∈ methodsOf after,
      replacement.methodName?.map (·.text) = method.methodName?.map (·.text) ∧
      ∃ root newRoot, statement method = .ok root ∧ t.tree = .node root.kind root.children ∧
        statement replacement = .ok newRoot ∧
        (m.captures.length = (holes t.parameters newRoot).length →
          ∃ texts text result,
            (m.captures.mergeSort comesBefore).map (fun c => slice? file.text.toList c.span) =
              texts.map some ∧
            Spliced newRoot.start (Tree.textAll newRoot.children)
              (editsOf (t.cutsOf newRoot m) texts) text ∧
            (Edits.ofCalls (t.changes m)).applyTo? file.text = some (result, []) ∧
            Spliced 0 file.text.toList [⟨site.span, String.ofList text⟩] result.toList ∧
            ∀ i c hole, (m.captures.mergeSort comesBefore)[i]? = some c →
              (holes t.parameters newRoot)[i]? = some hole →
              ∃ cut, (t.cutsOf newRoot m)[i]? = some cut ∧
                CutOut after.text.toList (m.captures.mergeSort comesBefore)
                  (t.replacement.map String.toList) i c hole.span cut ∧
                (c.extent = .omitted → texts[i]? = some [] ∧
                  ∀ list ∈ newRoot.preorder, ∀ front behind,
                    list.Written (front ++ hole :: behind) →
                      (Enclosed (front ++ behind) (list.outside cut) ↔
                        cut ≠ hole.span ∨ front ++ behind = []) ∧
                      (Tidy (list.outside cut) ↔ cut ≠ hole.span ∨ front ++ behind = []))) := by
  obtain ⟨method, hmethod, replacement, hreplacement, hname, root, newRoot, hfrom⟩ :=
    exists_of_mem_readAll hread ht
  refine ⟨method, hmethod, replacement, hreplacement, hname, root, newRoot, hfrom.statement,
    hfrom.tree, hfrom.newStatement, ?_⟩
  intro hcount
  have hnew : newRoot.StandsIn after.text.toList :=
    standsIn_of_statement (hafter.standsIn (List.mem_filter.1 hreplacement).1) hfrom.newStatement
  have hparted := parted_of_fragments? hfrom.fragments
  obtain ⟨texts, text, result, htexts, hspliced, hresult, hput⟩ :=
    exists_texts_cut (hfile.standsIn hsite) hopen hnew hparted hm hcount
  refine ⟨texts, text, result, htexts, hspliced, hresult, hput, ?_⟩
  intro i c hole hc hhole
  obtain ⟨cut, hcut, hout⟩ :=
    hparted.exists_cutOut (length_sorted hcount) hc (by rw [List.getElem?_map, hhole]; rfl)
  refine ⟨cut, hcut, hout, fun homitted => ⟨?_, fun list hlist front behind hwritten =>
    hwritten.outside_iff (hnew.preorder hlist) hout.cutAt⟩⟩
  -- an empty place was captured
  have hmem : c ∈ m.captures :=
    (List.mergeSort_perm m.captures comesBefore).mem_iff.1 (List.mem_of_getElem? hc)
  obtain ⟨args, -, -, hspan⟩ := omitted_of_collect (find?_eq_some hm).1 hmem homitted
  have hat := congrArg (·[i]?) htexts
  simp only [List.getElem?_map, hc, Option.map_some] at hat
  obtain ⟨part, hpart, hslice⟩ := Option.map_eq_some_iff.1 hat.symm
  obtain ⟨-, -, -, -, hwidth⟩ := slice?_eq_some_iff.1 hslice.symm
  rw [hspan] at hwidth
  have hnil : part = [] := byteLength_eq_zero.1 (hwidth.trans (Nat.sub_self _))
  rw [hpart, hnil]

/-! ### An argument behind another one -/

/-- The call `g(a,xs)`, with blanks behind the comma. -/
def behindOther (blanks : List Tree) : Tree :=
  callOf "g" ([loneName "a", .token .comma ","] ++ blanks ++ [loneName "xs"])

def oneBlank : List Tree := [.token .whitespace " "]

/-- The template that turns `f(xs)` into it. -/
def behindTemplate (front : String) : Template :=
  ⟨"m", [⟨"xs", none⟩], true, callOf "f" [loneName "xs"], .empty, [front, ")"]⟩

def emptyCall : Tree := callOf "f" []

def emptyMatch : Match := ⟨.ofWidth 0 3, [⟨0, .empty 2, .omitted⟩]⟩

theorem find?_emptyCall (front : String) :
    (behindTemplate front).find? (expressionFile emptyCall) (expressionSite emptyCall) =
      some emptyMatch := by
  have hcollect : (behindTemplate front).collect (expressionFile emptyCall) []
      (behindTemplate front).root (expressionSite emptyCall) = some emptyMatch.captures := by
    refine collect_of_rows [[]] rfl rfl (.cons ?_ .nil) rfl
    exact collect_of_rows [] rfl rfl .nil rfl
  rw [find?_eq, hcollect]
  rfl

def behindSite (blanks : List Tree) : Site :=
  ((gathering [] (behindOther blanks)).sites.find? (·.kind == .methodCall)).getD
    (gathering [] (behindOther blanks)).root

def behindMethod (blanks : List Tree) : Site :=
  (methodsOf (gathering [] (behindOther blanks))).headD (gathering [] (behindOther blanks)).root

def behindList (blanks : List Tree) : Site :=
  ((behindSite blanks).child? .argList).getD (behindSite blanks)

theorem written_behindList (blanks : List Tree) (h : blanks = [] ∨ blanks = oneBlank) :
    behindList blanks ∈ (behindSite blanks).preorder ∧ ∃ a hole,
      holes [⟨"xs", none⟩] (behindSite blanks) = [hole] ∧
        (behindList blanks).Written [a, hole] := by
  rcases h with rfl | rfl
  all_goals
    refine ⟨List.mem_cons_of_mem _ (List.mem_cons_of_mem _ List.mem_cons_self), _, _, rfl,
      ⟨⟨_, _, _, rfl, rfl, rfl, rfl, rfl, .more _ _ ⟨rfl, rfl⟩ (.one _)⟩, ?_, ?_, ?_⟩⟩
    · decide +kernel
    · decide +kernel
    · intro a ha
      simp only [List.mem_cons, List.not_mem_nil, or_false] at ha
      rcases ha with rfl | rfl
      · exact ⟨_, _, rfl, by decide⟩
      · exact ⟨_, _, rfl, by decide⟩

/-- **A comma dangles.**  Without a blank behind the comma `f()` is turned into `g(a,)`. -/
theorem comma_dangles :
    (gathering marked (callOf "f" [loneName "xs"])).Lossless ∧
    (gathering [] (behindOther [])).Lossless ∧ (expressionFile emptyCall).Lossless ∧
    readAll (gathering marked (callOf "f" [loneName "xs"])) (gathering [] (behindOther [])) "M" =
      .ok [behindTemplate "g(a,"] ∧
    expressionSite emptyCall ∈ (expressionFile emptyCall).sites ∧
    (behindTemplate "g(a,").find? (expressionFile emptyCall) (expressionSite emptyCall) =
      some emptyMatch ∧
    (∃ c ∈ emptyMatch.captures, c.extent = .omitted) ∧
    (∃ list ∈ (behindSite []).preorder, ∃ a hole,
      holes (behindTemplate "g(a,").parameters (behindSite []) = [hole] ∧
        list.Written [a, hole] ∧
        (behindTemplate "g(a,").cutsOf (behindSite []) emptyMatch = [hole.span] ∧
        ¬ Tidy (list.outside hole.span)) ∧
    (Edits.ofCalls ((behindTemplate "g(a,").changes emptyMatch)).applyTo?
      (expressionFile emptyCall).text = some ("g(a,)", []) := by
  have hsorted : emptyMatch.captures.mergeSort comesBefore = emptyMatch.captures :=
    List.mergeSort_singleton _
  obtain ⟨hlist, a, hole, hhole, hwritten⟩ := written_behindList [] (.inl rfl)
  have hafter : (gathering [] (behindOther [])).Lossless := ⟨_, rfl, by decide +kernel⟩
  have hnew : behindSite [] ∈ (gathering [] (behindOther [])).sites :=
    List.mem_of_find?_eq_some (p := (·.kind == .methodCall)) rfl
  refine ⟨⟨_, rfl, by decide +kernel⟩, hafter, ⟨_, rfl, by decide +kernel⟩, rfl,
    List.mem_cons_of_mem _ List.mem_cons_self, find?_emptyCall _, by decide,
    ⟨_, hlist, a, hole, hhole, hwritten, ?_, ?_⟩, ?_⟩
  · rw [cutsOf, hsorted, show (behindTemplate "g(a,").parameters = [⟨"xs", none⟩] from rfl, hhole]
    rfl
  · have hrow : (behindList []).Written ([a] ++ hole :: []) := hwritten
    rw [(hrow.outside_iff ((hafter.standsIn hnew).preorder hlist) (.alone rfl)).2]
    exact not_or_intro (fun hne => hne rfl) (List.cons_ne_nil _ _)
  · rw [changes, hsorted]
    decide +kernel

/-- With a blank behind the comma it is turned into `g(a)`. -/
theorem comma_left_out :
    (gathering [] (behindOther oneBlank)).Lossless ∧ (expressionFile emptyCall).Lossless ∧
    readAll (gathering marked (callOf "f" [loneName "xs"])) (gathering [] (behindOther oneBlank))
      "M" = .ok [behindTemplate "g(a, "] ∧
    expressionSite emptyCall ∈ (expressionFile emptyCall).sites ∧
    (expressionSite emptyCall).Opened ∧
    (behindTemplate "g(a, ").find? (expressionFile emptyCall) (expressionSite emptyCall) =
      some emptyMatch ∧
    (∃ list ∈ (behindSite oneBlank).preorder, ∃ a hole cut,
      holes (behindTemplate "g(a, ").parameters (behindSite oneBlank) = [hole] ∧
      list.Written [a, hole] ∧
      ((behindTemplate "g(a, ").cutsOf (behindSite oneBlank) emptyMatch)[0]? = some cut ∧
      Enclosed [a] (list.outside cut) ∧ Tidy (list.outside cut)) ∧
    (Edits.ofCalls ((behindTemplate "g(a, ").changes emptyMatch)).applyTo?
      (expressionFile emptyCall).text = some ("g(a)", []) := by
  have hafter : (gathering [] (behindOther oneBlank)).Lossless := ⟨_, rfl, by decide +kernel⟩
  have hfile : (expressionFile emptyCall).Lossless := ⟨_, rfl, by decide +kernel⟩
  have hread : readAll (gathering marked (callOf "f" [loneName "xs"]))
      (gathering [] (behindOther oneBlank)) "M" = .ok [behindTemplate "g(a, "] := rfl
  have hsite : expressionSite emptyCall ∈ (expressionFile emptyCall).sites :=
    List.mem_cons_of_mem _ List.mem_cons_self
  have hopen : (expressionSite emptyCall).Opened := by
    rw [Site.Opened]
    decide +kernel
  have hsorted : emptyMatch.captures.mergeSort comesBefore = emptyMatch.captures :=
    List.mergeSort_singleton _
  have hm := find?_emptyCall "g(a, "
  refine ⟨hafter, hfile, hread, hsite, hopen, hm, ?_, ?_⟩
  · obtain ⟨hlist, a, hole, hhole, hwritten⟩ := written_behindList oneBlank (.inr rfl)
    obtain ⟨-, -, replacement, hreplacement, -, -, newRoot, -, -, hnew, hrest⟩ :=
      changes_leave_out hafter hfile hread (List.mem_singleton_self _) hsite hopen hm
    have hmethods : methodsOf (gathering [] (behindOther oneBlank)) = [behindMethod oneBlank] := rfl
    rw [hmethods, List.mem_singleton] at hreplacement
    subst hreplacement
    obtain rfl : behindSite oneBlank = newRoot := Except.ok.inj hnew
    obtain ⟨texts, -, -, -, -, -, -, hleft⟩ := hrest rfl
    have hholes : holes (behindTemplate "g(a, ").parameters (behindSite oneBlank) =
        [hole] := hhole
    obtain ⟨cut, hcut, hout, homitted⟩ := hleft 0 _ hole (by rw [hsorted]; rfl) (by rw [hholes]; rfl)
    -- the fragment in front of the use ends with a comma and a blank
    obtain ⟨f, g, hf, hg, hiff⟩ := hout.omitted rfl (by simp)
    obtain rfl := Option.some.inj hf
    have hgone : cut ≠ hole.span := hiff.2 (.inl ⟨"g(a".toList, rfl⟩)
    obtain ⟨henclosed, htidy⟩ := (homitted rfl).2 _ hlist [a] [] hwritten
    exact ⟨_, hlist, a, hole, cut, hholes, hwritten, hcut, henclosed.2 (.inl hgone),
      htidy.2 (.inl hgone)⟩
  · rw [changes, hsorted]
    decide +kernel

end SourceRename.Template
