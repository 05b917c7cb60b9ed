import SourceRename.Proofs.Template.Fitting

/-!
# Lambda expressions match up to the names of their parameters

A name in the template that is a parameter of a lambda expression is matched by the parameter at the
same position of the lambda expression that is laid under that one, whatever it is called there:

    r(q -> f(q, x))    matches    r(s -> f(s, t))    but not    r(s -> f(t, t))

Which lambda expression a name belongs to is counted from the name outwards (`BoundAt`), so that
both sides are compared by the same two numbers.  In the template an inner parameter may hide an
outer one. In the file it may not: the names there are looked up without regard to where they were
declared.

The names may also be kept on one stack, which a lambda expression extends and cuts back
(`collectOnStack`).
-/

namespace SourceRename

/-- A name is the parameter number `k` of the lambda expression number `j` around it, counted from
the name outwards, and no lambda expression further in has a parameter of that name. -/
def Site.BoundAt (s : Site) (j k : Nat) : Prop :=
  s.isQualified = false ∧ ∃ ident lambda, s.lastIdent? = some ident ∧
    (Template.lambdas s.enclosing)[j]? = some lambda ∧
    (lambda.lambdaParameters[k]?).map (·.text) = some ident.text ∧
    ∀ i < j, ∀ inner, (Template.lambdas s.enclosing)[i]? = some inner →
      inner.binds ident.text = false

def DistinctParameters (sites : List Site) : Prop :=
  ∀ lambda ∈ Template.lambdas sites, (lambda.lambdaParameters.map (·.text)).Nodup

/-- No lambda expression declares a parameter of the name of a parameter around it. -/
def HidesNothing (sites : List Site) : Prop :=
  ∀ inner ∈ Template.lambdas sites, ∀ outer ∈ Template.lambdas inner.enclosing, ∀ name,
    ¬ (inner.binds name = true ∧ outer.binds name = true)

namespace Template

variable {t : Template} {file : SourceFile} {site p e : Site} {around : List (Site × Site)}
  {captures : List Capture} {bound : Bound} {a : Alignment} {m : Match}

/-- The lambda expressions that are laid over each other. -/
def lambdaPairs (around : List (Site × Site)) : List (Site × Site) :=
  around.filter (·.1.kind == .lambdaExpr)

/-- The names of the parameters of two lambda expressions, position by position. -/
def namesOf (x : Site × Site) : Bound :=
  (x.1.lambdaParameters.zip x.2.lambdaParameters).map fun y => (y.1.text, y.2.text)

/-! ### Names that are kept on a stack -/

/-- Runs one step after the other until one fails.  Each leaves a stack to the next one. -/
def runOnStack : List (Bound → Option (List Capture) × Bound) → Bound →
    Option (List (List Capture)) × Bound
  | [], names => (some [], names)
  | step :: steps, names =>
    match step names with
    | (none, left) => (none, left)
    | (some row, left) =>
      match runOnStack steps left with
      | (none, left) => (none, left)
      | (some rows, left) => (some (row :: rows), left)

/-- The captures of a node of the template laid over a node of a file, with the names of lambda
parameters on a stack, innermost last.  A lambda expression pushes its parameters, and when its body
has been tried the stack is cut back to where it ended before. -/
def collectOnStack (t : Template) (file : SourceFile) (p e : Site) (names : Bound) :
    Option (List Capture) × Bound :=
  match t.hole? p with
  | some parameter => ((t.capture? file names.reverse parameter e).map ([·]), names)
  | none =>
    match _h : t.align file names.reverse p e with
    | none => (none, names)
    | some a =>
      let steps := a.pairs.attach.map fun x => t.collectOnStack file x.1.1 x.1.2
      if p.kind = .lambdaExpr then
        let (rows, left) := runOnStack steps (names ++ namesOf (p, e))
        (rows.map (·.flatten ++ a.captures), left.take names.length)
      else
        let (rows, left) := runOnStack steps names
        (rows.map (·.flatten ++ a.captures), left)
termination_by p.size
decreasing_by exact size_lt_of_align _h x.2

theorem mapM_attach {α β : Type} (xs : List α) (f : α → Option β) :
    (xs.attach.mapM fun x => f x.1) = xs.mapM f := by
  have : (xs.attach.map Subtype.val).mapM f = xs.attach.mapM (f ∘ Subtype.val) := List.mapM_map
  rw [List.attach_map_subtype_val] at this
  exact this.symm

theorem runOnStack_of_restores {α : Type} {names : Bound} {xs : List α}
    {step : α → Bound → Option (List Capture) × Bound} {row : α → Option (List Capture)}
    (h : ∀ x ∈ xs, step x names = (row x, names)) :
    runOnStack (xs.map step) names = (xs.mapM row, names) := by
  induction xs with
  | nil => rfl
  | cons x xs ih =>
    have hrest := ih fun y hy => h y (List.mem_cons_of_mem x hy)
    rw [List.map_cons, runOnStack, h x List.mem_cons_self, List.mapM_cons]
    cases row x with
    | none => rfl
    | some cs =>
      simp only [hrest]
      cases xs.mapM row <;> rfl

theorem bindParameters_eq (bound : Bound) (p e : Site) :
    bindParameters bound p e = (namesOf (p, e)).reverse ++ bound :=
  List.foldl_flip_cons_eq_append

/-- **The stack is left as it was**, whether a node matches or not, and what is captured is what is
captured with the names handed down. -/
theorem collectOnStack_eq (p e : Site) (names : Bound) :
    t.collectOnStack file p e names = (t.collect file names.reverse p e, names) := by
  induction hsize : p.size using Nat.strongRecOn generalizing p e names with
  | ind size ih =>
    subst hsize
    rw [collectOnStack]
    cases hhole : t.hole? p with
    | some parameter => simp only [collect_of_hole hhole]
    | none =>
      simp only
      split
      · next halign => rw [collect_of_not_align hhole halign]
      · next a halign =>
        rw [collect_of_align hhole halign]
        have hstep : ∀ inner : Bound, ∀ x ∈ a.pairs.attach,
            t.collectOnStack file x.1.1 x.1.2 inner =
              (t.collect file inner.reverse x.1.1 x.1.2, inner) :=
          fun inner x _ => ih _ (size_lt_of_align halign x.2) x.1.1 x.1.2 inner rfl
        have hbound := (covers_of_align halign).2.bound
        split
        · next hkind =>
          rw [seenBy, if_pos hkind, bindParameters_eq, ← List.reverse_append] at hbound
          rw [runOnStack_of_restores (hstep _), List.take_left, ← hbound,
            mapM_attach a.pairs fun x => t.collect file a.bound x.1 x.2]
        · next hkind =>
          rw [seenBy, if_neg hkind] at hbound
          rw [runOnStack_of_restores (hstep _), ← hbound,
            mapM_attach a.pairs fun x => t.collect file a.bound x.1 x.2]

/-! ### Lambda expressions around a name -/

theorem snd_mem_arguments {pairs : List (Site × Site)} {x : Site × Site}
    (h : t.alignArguments file (p.child? .argList) (e.child? .argList) = some (pairs, captures))
    (hx : x ∈ pairs) : x.2 ∈ arguments e := by
  obtain ⟨fixed, tail, haligned⟩ := argumentsAligned h
  rw [haligned.split, List.mem_append]
  have hfixed : ∀ {x : Site × Site}, x ∈ (t.fixedArguments p).zip fixed → x.2 ∈ fixed :=
    fun {x} hx => (List.of_mem_zip (show (x.1, x.2) ∈ _ from hx)).2
  cases hv : t.variadicHole? (arguments p) with
  | none =>
    rw [(haligned.none hv).2.1] at hx
    exact .inl (hfixed hx)
  | some found =>
    obtain ⟨list, more, -, rfl, htail⟩ := haligned.some found.1 found.2 hv
    rcases List.mem_append.1 hx with hx | hx
    · exact .inl (hfixed hx)
    · rcases alignTail_cases htail with ⟨first, rfl, rfl, -⟩ | ⟨rfl, -⟩
      · rw [List.mem_singleton.1 hx]
        exact .inr (List.mem_singleton_self _)
      · exact absurd hx List.not_mem_nil

theorem snd_mem_parts {x : Site × Site} (h : t.align file bound p e = some a) (hx : x ∈ a.pairs) :
    x.2 ∈ parts e := by
  have hmem : ∀ {p? e? : Option Site} {pairs : List (Site × Site)},
      Alignment.optional p? e? = some pairs → x ∈ pairs → x.2 ∈ e?.toList :=
    fun hpairs hx => map_snd_optional hpairs ▸ List.mem_map_of_mem hx
  have hone : ∀ {inner : Bound} {p? e? : Option Site},
      Alignment.ofOptional inner p? e? = some a → x.2 ∈ e?.toList := by
    intro inner p? e? h
    obtain ⟨pairs, hpairs, rfl⟩ := Option.map_eq_some_iff.1 h
    exact hmem hpairs hx
  have hoperation : alignOperation bound p e = some a →
      x.2 ∈ e.firstExpression?.toList ++ e.secondExpression?.toList := by
    intro h
    unfold alignOperation at h
    split at h
    · obtain ⟨left, hleft, h⟩ := Option.bind_eq_some_iff.1 h
      obtain ⟨right, hright, h⟩ := Option.bind_eq_some_iff.1 h
      obtain rfl := Option.some.inj h
      exact List.mem_append.2 ((List.mem_append.1 hx).imp (hmem hleft) (hmem hright))
    · simp at h
  have hcall : ∀ {heads : Option (List (Site × Site))} {head? : Option Site},
      (∀ hs, heads = some hs → hs.map Prod.snd = head?.toList) →
      t.alignCall file bound p e heads = some a → x.2 ∈ head?.toList ++ arguments e := by
    intro heads head? hheads h
    unfold alignCall at h
    split at h
    · next hs args cs hargs =>
      obtain rfl := Option.some.inj h
      refine List.mem_append.2 ((List.mem_append.1 hx).imp (fun hx => ?_) (snd_mem_arguments hargs))
      exact hheads hs rfl ▸ List.mem_map_of_mem hx
    · simp at h
  have hkind := (covers_of_align h).1
  unfold align at h
  rw [if_pos hkind] at h
  rw [parts, ← hkind]
  split at h <;> rename_i hk
  case h_14 => simp at h
  all_goals simp only [hk]
  case h_1 | h_2 => exact hoperation h
  case h_3 =>
    obtain ⟨pairs, hpairs, rfl⟩ := Option.map_eq_some_iff.1 h
    exact map_snd_required hpairs ▸ List.mem_map_of_mem hx
  case h_4 =>
    obtain ⟨pairs, hpairs, rfl⟩ := Option.map_eq_some_iff.1 h
    exact (map_snd_rows hpairs).subset (List.mem_map_of_mem hx)
  case h_5 | h_6 | h_7 | h_8 => exact hone h
  case h_9 =>
    unfold alignReference at h
    split at h
    · split at h
      · obtain rfl := Option.some.inj h
        exact absurd hx List.not_mem_nil
      · simp at h
    · split at h
      · exact hone h
      · simp at h
  case h_10 =>
    unfold alignLambda at h
    split at h
    · exact hone h
    · simp at h
  case h_11 => exact hcall (fun hs => map_snd_required) h
  case h_12 =>
    split at h
    · exact hcall (fun hs => map_snd_optional) h
    · simp at h
  case h_13 =>
    split at h
    · obtain rfl := Option.some.inj h
      exact absurd hx List.not_mem_nil
    · simp at h

/-- **The lambda expressions around a node of the file** are those that are met on the way, and
those around the matched node. -/
theorem lambdas_of_meets_file (h : t.Meets file site around p e) :
    lambdas e.enclosing = lambdas (around.map Prod.snd) ++ lambdas site.enclosing := by
  induction h with
  | root => rfl
  | @part around p e a x _ _ halign hx ih =>
    have hkind := (lambdas_enclosing_of_mem_parts (snd_mem_parts halign hx))
    rw [hkind, lambdas, List.filter_cons, ← lambdas, ih, List.map_cons]
    have hcons : lambdas (e :: around.map Prod.snd) = if e.kind == .lambdaExpr then
        e :: lambdas (around.map Prod.snd) else lambdas (around.map Prod.snd) := List.filter_cons
    rw [hcons]
    split <;> rfl

theorem fst_lambdaPairs (around : List (Site × Site)) :
    (lambdaPairs around).map Prod.fst = lambdas (around.map Prod.fst) := by
  rw [lambdas, List.filter_map]
  rfl

theorem snd_lambdaPairs (h : t.Aligned file around) :
    (lambdaPairs around).map Prod.snd = lambdas (around.map Prod.snd) := by
  rw [lambdas, List.filter_map, lambdaPairs]
  refine congrArg _ (List.filter_congr fun x hx => ?_)
  obtain ⟨bound, a, halign⟩ := h x hx
  rw [(covers_of_align halign).1]
  rfl

theorem mem_lambdaPairs {x : Site × Site} (h : t.Aligned file around) (hx : x ∈ lambdaPairs around) :
    x.1.lambdaParameters.length = x.2.lambdaParameters.length := by
  obtain ⟨hmem, hkind⟩ := List.mem_filter.1 hx
  obtain ⟨bound, a, halign⟩ := h x hmem
  exact length_lambdaParameters halign (beq_iff_eq.1 hkind)

theorem pairwise_enclosing (s : Site) :
    (lambdas s.enclosing).Pairwise fun inner outer => outer ∈ lambdas inner.enclosing := by
  have hplaces : ∀ ps : List Place,
      (Site.ofPlaces ps).Pairwise fun inner outer => outer ∈ inner.enclosing := by
    intro ps
    induction ps with
    | nil => exact .nil
    | cons p ps ih => exact .cons (fun _ h => h) ih
  refine ((hplaces s.above).filter (·.kind == .lambdaExpr)).imp_of_mem ?_
  intro inner outer _ houter h
  exact List.mem_filter.2 ⟨h, (List.mem_filter.1 houter).2⟩

/-! ### Which parameter a name is -/

theorem binds_of_getElem? {lambda : Site} {k : Nat} {name : String}
    (h : (lambda.lambdaParameters[k]?).map (·.text) = some name) : lambda.binds name = true := by
  obtain ⟨parameter, hparameter, rfl⟩ := Option.map_eq_some_iff.1 h
  exact List.any_eq_true.2 ⟨parameter, List.mem_of_getElem? hparameter, beq_self_eq_true _⟩

/-- **A name is one parameter** of one lambda expression. -/
theorem boundAt_unique {s : Site} {j k j' k' : Nat} (hdistinct : DistinctParameters s.enclosing)
    (h : s.BoundAt j k) (h' : s.BoundAt j' k') : j = j' ∧ k = k' := by
  obtain ⟨-, ident, lambda, hident, hlambda, hname, hinner⟩ := h
  obtain ⟨-, ident', lambda', hident', hlambda', hname', hinner'⟩ := h'
  obtain rfl : ident = ident' := Option.some.inj (hident.symm.trans hident')
  have hj : j = j' := by
    by_contra hne
    rcases Nat.lt_or_gt_of_ne hne with hlt | hlt
    · exact absurd (binds_of_getElem? hname) (by simp [hinner' j hlt lambda hlambda])
    · exact absurd (binds_of_getElem? hname') (by simp [hinner j' hlt lambda' hlambda'])
  subst hj
  obtain rfl : lambda = lambda' := Option.some.inj (hlambda.symm.trans hlambda')
  refine ⟨rfl, ?_⟩
  have hnodup := hdistinct lambda (List.mem_of_getElem? hlambda)
  rw [← List.getElem?_map] at hname hname'
  obtain ⟨hk, -⟩ := List.getElem?_eq_some_iff.1 hname
  exact (List.getElem?_inj hk hnodup).1 (hname.trans hname'.symm)

theorem scopeOf_eq (around : List (Site × Site)) :
    scopeOf around = (lambdaPairs around).flatMap fun x => (namesOf x).reverse := by
  induction around with
  | nil => rfl
  | cons x around ih =>
    rw [scopeOf, seenBy, lambdaPairs, List.filter_cons, ← lambdaPairs]
    by_cases hkind : x.1.kind = .lambdaExpr
    · rw [if_pos hkind, if_pos (beq_iff_eq.2 hkind), bindParameters_eq, ih, List.flatMap_cons]
    · rw [if_neg hkind, if_neg (by simpa using hkind), ih]

theorem binds_of_namesOf {name : String} {x : Site × Site}
    (hlength : x.1.lambdaParameters.length = x.2.lambdaParameters.length)
    (h : (namesOf x).reverse.find? (·.1 == name) = none) : x.1.binds name = false := by
  have hnames : x.1.lambdaParameters.map (·.text) = (namesOf x).map Prod.fst := by
    rw [namesOf, List.map_map]
    conv_lhs => rw [← List.map_fst_zip (Nat.le_of_eq hlength), List.map_map]
    rfl
  have hbinds : x.1.binds name = (x.1.lambdaParameters.map (·.text)).any (· == name) := by
    rw [List.any_map]
    rfl
  rw [hbinds, hnames, List.any_map, List.any_eq_false]
  intro y hy
  exact List.find?_eq_none.1 h y (List.mem_reverse.2 hy)

/-- A name that is looked up belongs to the innermost lambda expression of the template that has a
parameter of this name. -/
theorem exists_of_find?_scopeOf {name : String} {found : String × String}
    (haround : t.Aligned file around) (h : (scopeOf around).find? (·.1 == name) = some found) :
    ∃ (j k : Nat) (x : Site × Site), (lambdaPairs around)[j]? = some x ∧
      (x.1.lambdaParameters[k]?).map (·.text) = some name ∧
      (x.2.lambdaParameters[k]?).map (·.text) = some found.2 ∧
      ∀ i < j, ∀ y, (lambdaPairs around)[i]? = some y → y.1.binds name = false := by
  rw [scopeOf_eq, List.find?_flatMap, List.findSome?_eq_some_iff] at h
  obtain ⟨inner, x, outer, hpairs, hfound, hinner⟩ := h
  have hname : found.1 = name := by simpa using List.find?_some hfound
  obtain ⟨k, hk⟩ := List.getElem?_of_mem (List.mem_reverse.1 (List.mem_of_find?_eq_some hfound))
  rw [namesOf, List.getElem?_map, Option.map_eq_some_iff] at hk
  obtain ⟨parameters, hk, rfl⟩ := hk
  obtain ⟨hp, he⟩ := List.getElem?_zip_eq_some.1 hk
  refine ⟨inner.length, k, x, ?_, ?_, ?_, ?_⟩
  · rw [hpairs, List.getElem?_append_right (Nat.le_refl _), Nat.sub_self]
    rfl
  · rw [hp]
    exact congrArg some hname
  · rw [he]
    rfl
  · intro i hi y hy
    have hmem : y ∈ inner := by
      rw [hpairs, List.getElem?_append_left hi] at hy
      exact List.mem_of_getElem? hy
    exact binds_of_namesOf (mem_lambdaPairs haround (hpairs ▸ List.mem_append_left _ hmem))
      (hinner y hmem)

theorem binds_of_find?_eq_none {name : String} (haround : t.Aligned file around)
    (h : (scopeOf around).find? (·.1 == name) = none) {x : Site × Site}
    (hx : x ∈ lambdaPairs around) : x.1.binds name = false := by
  rw [scopeOf_eq, List.find?_flatMap, List.findSome?_eq_none_iff] at h
  exact binds_of_namesOf (mem_lambdaPairs haround hx) (h x hx)

/-! ### Names that meet -/

/-- Two names that meet are one parameter, or none of them is a parameter of lambda expressions that
are laid over each other and they are the same. -/
theorem reference_cases (h : t.align file bound p e = some a) (hkind : p.kind = .referenceExpr)
    (hplain : p.isQualified = false) :
    (∃ ident found image, p.lastIdent? = some ident ∧ bound.find? (·.1 == ident.text) = some found ∧
      e.isQualified = false ∧ e.lastIdent? = some image ∧ image.text = found.2) ∨
    e.lastIdent?.map (·.text) = p.lastIdent?.map (·.text) ∧ isBound bound e = false ∧
      ∀ ident, p.lastIdent? = some ident → bound.find? (·.1 == ident.text) = none := by
  unfold align at h
  rw [if_pos (covers_of_align h).1] at h
  simp only [hkind] at h
  unfold alignReference at h
  rw [expectedName?, hplain] at h
  split at h
  · next expected hexpected =>
    obtain ⟨ident, hident, hexpected⟩ := Option.bind_eq_some_iff.1 hexpected
    obtain ⟨found, hfound, rfl⟩ := Option.map_eq_some_iff.1 hexpected
    split at h
    · next hsame =>
      obtain ⟨hunqualified, hlast⟩ := Bool.and_eq_true_iff.1 hsame
      rw [Option.any_eq_true] at hlast
      obtain ⟨image, himage, htext⟩ := hlast
      exact .inl ⟨ident, found, image, hident, hfound, by simpa using hunqualified, himage,
        beq_iff_eq.1 htext⟩
    · simp at h
  · next hnone =>
    split at h
    · next hsame =>
      obtain ⟨hfree, htext⟩ := Bool.and_eq_true_iff.1 hsame
      refine .inr ⟨(beq_iff_eq.1 htext).symm, by simpa using hfree, fun ident hident => ?_⟩
      rw [if_neg (by simp), hident, Option.bind_some, Option.map_eq_none_iff] at hnone
      exact hnone
    · simp at h

/-- In a file where no parameter is hidden, a parameter of a lambda expression around a name is what
the name stands for. -/
theorem boundAt_of_hidesNothing {ident : Token} {lambda : Site} {j k : Nat} (he : e ∈ file.sites)
    (hfile : HidesNothing file.sites) (hplain : e.isQualified = false)
    (hident : e.lastIdent? = some ident) (hlambda : (lambdas e.enclosing)[j]? = some lambda)
    (hname : (lambda.lambdaParameters[k]?).map (·.text) = some ident.text) : e.BoundAt j k := by
  refine ⟨hplain, ident, lambda, hident, hlambda, hname, fun i hi inner hinner => ?_⟩
  have hmem := List.mem_of_getElem? hinner
  obtain ⟨henclosing, hkind⟩ := List.mem_filter.1 hmem
  have houter : lambda ∈ lambdas inner.enclosing := by
    obtain ⟨hjlt, rfl⟩ := List.getElem?_eq_some_iff.1 hlambda
    obtain ⟨hilt, rfl⟩ := List.getElem?_eq_some_iff.1 hinner
    exact List.pairwise_iff_getElem.1 (pairwise_enclosing e) i j hilt hjlt hi
  have hsites : inner ∈ lambdas file.sites :=
    List.mem_filter.2 ⟨file.mem_of_enclosing he henclosing, hkind⟩
  exact Bool.eq_false_iff.2 fun hbinds =>
    hfile inner hsites lambda houter ident.text ⟨hbinds, binds_of_getElem? hname⟩

theorem mem_lambdas_of_mem_lambdaPairs {x : Site × Site} (h : t.Meets file site around p e)
    (hx : x ∈ lambdaPairs around) : x.1 ∈ lambdas t.root.preorder := by
  have haround : ∀ x ∈ around, x.1 ∈ t.root.preorder := by
    clear hx
    induction h with
    | root => exact fun x hx => absurd hx List.not_mem_nil
    | part hmeets _ _ _ ih => exact List.forall_mem_cons.2 ⟨hmeets.mem_root, ih⟩
  obtain ⟨hmem, hkind⟩ := List.mem_filter.1 hx
  exact List.mem_filter.2 ⟨haround x hmem, hkind⟩

/-- **Names that meet** are the same parameter of lambda expressions that are laid over each other.
-/
theorem boundAt_iff (hsite : site ∈ file.sites) (hleft : DistinctParameters t.root.preorder)
    (hright : DistinctParameters file.sites) (hfile : HidesNothing file.sites)
    (hcollect : t.collect file [] t.root site = some captures)
    (hmeets : t.Meets file site around p e) (hhole : t.hole? p = none)
    (hkind : p.kind = .referenceExpr) (hplain : p.isQualified = false) :
    (∀ j k, p.BoundAt j k ↔ j < (lambdaPairs around).length ∧ e.BoundAt j k) ∧
    ((∀ j k, ¬ p.BoundAt j k) → e.lastIdent?.map (·.text) = p.lastIdent?.map (·.text)) := by
  obtain ⟨cs, hcs, -⟩ := collect_of_meets hcollect hmeets
  obtain ⟨a, -, halign, -⟩ := (collect_eq_some_iff hhole).1 hcs
  have haround := hmeets.aligned
  have he : e ∈ file.sites := Site.preorder_trans hsite hmeets.mem_preorder
  have hp : lambdas p.enclosing = (lambdaPairs around).map Prod.fst :=
    (lambdas_of_meets hmeets).trans (fst_lambdaPairs around).symm
  have hf : lambdas e.enclosing = (lambdaPairs around).map Prod.snd ++ lambdas site.enclosing :=
    (lambdas_of_meets_file hmeets).trans (by rw [snd_lambdaPairs haround])
  have hdistinctLeft : DistinctParameters p.enclosing := by
    intro lambda hlambda
    rw [hp] at hlambda
    obtain ⟨x, hx, rfl⟩ := List.mem_map.1 hlambda
    exact hleft _ (mem_lambdas_of_mem_lambdaPairs hmeets hx)
  have hdistinctRight : DistinctParameters e.enclosing := fun lambda hlambda =>
    hright _ (List.mem_filter.2 ⟨file.mem_of_enclosing he (List.mem_filter.1 hlambda).1,
      (List.mem_filter.1 hlambda).2⟩)
  rcases reference_cases halign hkind hplain with
    ⟨ident, found, image, hident, hfound, hunqualified, himage, htext⟩ | ⟨hsame, hfree, hnone⟩
  · obtain ⟨j, k, x, hx, hname, hnamed, hinner⟩ := exists_of_find?_scopeOf haround hfound
    have hlt := (List.getElem?_eq_some_iff.1 hx).1
    have hbound : p.BoundAt j k := by
      refine ⟨hplain, ident, x.1, hident, ?_, hname, fun i hi inner hget => ?_⟩
      · rw [hp, List.getElem?_map, hx]
        rfl
      · rw [hp, List.getElem?_map] at hget
        obtain ⟨y, hy, rfl⟩ := Option.map_eq_some_iff.1 hget
        exact hinner i hi y hy
    have himageBound : e.BoundAt j k := by
      refine boundAt_of_hidesNothing he hfile hunqualified himage ?_ (hnamed.trans (htext ▸ rfl))
      rw [hf, List.getElem?_append_left (by rwa [List.length_map]), List.getElem?_map, hx]
      rfl
    refine ⟨fun i n => ⟨fun h => ?_, fun h => ?_⟩, fun h => absurd hbound (h j k)⟩
    · obtain ⟨rfl, rfl⟩ := boundAt_unique hdistinctLeft hbound h
      exact ⟨hlt, himageBound⟩
    · obtain ⟨rfl, rfl⟩ := boundAt_unique hdistinctRight himageBound h.2
      exact hbound
  · have hnot : ∀ j k, ¬ p.BoundAt j k := by
      rintro j k ⟨-, ident, lambda, hident, hlambda, hname, -⟩
      rw [hp, List.getElem?_map] at hlambda
      obtain ⟨x, hx, rfl⟩ := Option.map_eq_some_iff.1 hlambda
      have hbinds := binds_of_find?_eq_none haround (hnone ident hident) (List.mem_of_getElem? hx)
      rw [binds_of_getElem? hname] at hbinds
      exact absurd hbinds (by decide)
    refine ⟨fun j k => ⟨fun h => absurd h (hnot j k), ?_⟩, fun _ => hsame⟩
    rintro ⟨hlt, hunqualified, image, lambda, himage, hlambda, hname, -⟩
    rw [hf, List.getElem?_append_left (by rwa [List.length_map]), List.getElem?_map] at hlambda
    obtain ⟨x, hx, rfl⟩ := Option.map_eq_some_iff.1 hlambda
    obtain ⟨hmem, hlambdaKind⟩ := List.mem_filter.1 (List.mem_of_getElem? hx)
    have hfound := any_scopeOf haround image.text
    rw [isBound, hunqualified, himage] at hfree
    simp only [Bool.not_false, Bool.true_and, Option.any_some] at hfree
    rw [hfree] at hfound
    have hbinds := List.any_eq_false.1 hfound.symm x hmem
    rw [hlambdaKind, binds_of_getElem? hname] at hbinds
    exact absurd rfl hbinds

/-- **Lambda expressions match up to the names of their parameters.**  Every node of the template
that is visited is met, unless it stands for a parameter.  A plain name that is met is the parameter
number `k` of the lambda expression number `j` around it if and only if its image is, and the first
lambda expressions around the image are those that are laid under the ones of the template.  A name
that is no such parameter is met by the same name only, which is none either.  A stack of the names
is as it was before, whenever a node has been tried. -/
theorem binders_correspond (hsite : site ∈ file.sites)
    (hleft : DistinctParameters t.root.preorder) (hright : DistinctParameters file.sites)
    (hfile : HidesNothing file.sites) (hm : t.find? file site = some m) :
    (∀ p, t.Visited p → t.hole? p = none → ∃ around e, t.Meets file site around p e) ∧
    (∀ around p e, t.Meets file site around p e → t.hole? p = none → p.kind = .referenceExpr →
      p.isQualified = false → e.kind = .referenceExpr ∧
        lambdas p.enclosing = (lambdaPairs around).map Prod.fst ∧
        lambdas e.enclosing = (lambdaPairs around).map Prod.snd ++ lambdas site.enclosing ∧
        (∀ j k, p.BoundAt j k ↔ j < (lambdaPairs around).length ∧ e.BoundAt j k) ∧
        ((∀ j k, ¬ p.BoundAt j k) → e.lastIdent?.map (·.text) = p.lastIdent?.map (·.text) ∧
          ∀ j k, j < (lambdaPairs around).length → ¬ e.BoundAt j k)) ∧
    ∀ p e names, t.collectOnStack file p e names = (t.collect file names.reverse p e, names) := by
  obtain ⟨hcollect, -, -⟩ := find?_eq_some hm
  refine ⟨fun p hp hhole => hp.exists_meets hhole hcollect, ?_, collectOnStack_eq⟩
  intro around p e hmeets hhole hkind hplain
  obtain ⟨cs, hcs, -⟩ := collect_of_meets hcollect hmeets
  obtain ⟨a, -, halign, -⟩ := (collect_eq_some_iff hhole).1 hcs
  obtain ⟨hbound, hfree⟩ :=
    boundAt_iff hsite hleft hright hfile hcollect hmeets hhole hkind hplain
  refine ⟨(covers_of_align halign).1.symm.trans hkind, ?_, ?_, hbound, fun hnone => ?_⟩
  · exact (lambdas_of_meets hmeets).trans (fst_lambdaPairs around).symm
  · rw [lambdas_of_meets_file hmeets, snd_lambdaPairs hmeets.aligned]
  · exact ⟨hfree hnone, fun j k hlt he => hnone j k ((hbound j k).2 ⟨hlt, he⟩)⟩

/-! ### A parameter that is called something else -/

/-- The template that turns `r(q->f(q,x))` into `g(x)`. -/
def renamedTemplate : Template :=
  ⟨"m", [⟨"x", none⟩, ⟨"y", none⟩], false,
    delayed "q" [loneName "q", .token .comma ",", loneName "x"], .empty, ["g(", ")"]⟩

def renamedMatch : Match := ⟨.ofWidth 0 12, [⟨0, .ofWidth 9 1, .single⟩]⟩

/-- Nodes of the template and of the file, by their place in preorder: the outer call is listed
first, the lambda expression fourth, the inner call fifth and its first argument eighth. -/
def renamedPair (i : Nat) : Site × Site :=
  (renamedTemplate.root.preorder.getD i renamedTemplate.root,
    (expressionSite (delayedCall "s" "t")).preorder.getD i (expressionSite (delayedCall "s" "t")))

/-- The name `q` in `r(q->f(q,x))` is met by `s` in `r(s->f(s,t))`, and both are the only parameter
of the only lambda expression. -/
theorem renamed_parameter :
    readAll (fileReturning marked (delayed "q" [loneName "q", .token .comma ",", loneName "x"]))
      (fileReturning [] (callOf "g" [loneName "x"])) "M" = .ok [renamedTemplate] ∧
    expressionSite (delayedCall "s" "t") ∈ (expressionFile (delayedCall "s" "t")).sites ∧
    DistinctParameters renamedTemplate.root.preorder ∧
    DistinctParameters (expressionFile (delayedCall "s" "t")).sites ∧
    HidesNothing (expressionFile (delayedCall "s" "t")).sites ∧
    renamedTemplate.find? (expressionFile (delayedCall "s" "t"))
      (expressionSite (delayedCall "s" "t")) = some renamedMatch ∧
    (renamedPair 7).1.BoundAt 0 0 ∧ (renamedPair 7).2.BoundAt 0 0 := by
  have hsite : expressionSite (delayedCall "s" "t") ∈
      (expressionFile (delayedCall "s" "t")).sites := List.mem_cons_of_mem _ List.mem_cons_self
  have hleft : DistinctParameters renamedTemplate.root.preorder := by
    unfold DistinctParameters
    decide +kernel
  have hright : DistinctParameters (expressionFile (delayedCall "s" "t")).sites := by
    unfold DistinctParameters
    decide +kernel
  have hfile : HidesNothing (expressionFile (delayedCall "s" "t")).sites := by
    intro inner hinner outer houter
    have halone : ∀ inner ∈ lambdas (expressionFile (delayedCall "s" "t")).sites,
        (lambdas inner.enclosing).isEmpty = true := by
      decide +kernel
    rw [List.isEmpty_iff.1 (halone inner hinner)] at houter
    exact absurd houter List.not_mem_nil
  have hcollect : renamedTemplate.collect (expressionFile (delayedCall "s" "t")) []
      renamedTemplate.root (expressionSite (delayedCall "s" "t")) = some renamedMatch.captures := by
    refine collect_of_rows [[], renamedMatch.captures] rfl rfl (.cons ?_ (.cons ?_ .nil)) rfl
    · exact collect_of_rows [] rfl rfl .nil rfl
    · refine collect_of_rows [renamedMatch.captures] rfl rfl (.cons ?_ .nil) rfl
      refine collect_of_rows [[], [], renamedMatch.captures] rfl rfl
        (.cons ?_ (.cons ?_ (.cons ?_ .nil))) rfl
      · exact collect_of_rows [] rfl rfl .nil rfl
      · exact collect_of_rows [] rfl rfl .nil rfl
      · rw [collect_of_hole rfl]
        rfl
  have hm : renamedTemplate.find? (expressionFile (delayedCall "s" "t"))
      (expressionSite (delayedCall "s" "t")) = some renamedMatch := by
    rw [find?_eq, hcollect]
    rfl
  have hlambda : renamedTemplate.Meets (expressionFile (delayedCall "s" "t"))
      (expressionSite (delayedCall "s" "t")) [renamedPair 0] (renamedPair 3).1 (renamedPair 3).2 :=
    .part .root rfl rfl (List.mem_cons_of_mem _ List.mem_cons_self)
  have hcall : renamedTemplate.Meets (expressionFile (delayedCall "s" "t"))
      (expressionSite (delayedCall "s" "t")) ([3, 0].map renamedPair)
      (renamedPair 4).1 (renamedPair 4).2 :=
    .part hlambda rfl rfl List.mem_cons_self
  have hname : renamedTemplate.Meets (expressionFile (delayedCall "s" "t"))
      (expressionSite (delayedCall "s" "t")) ([4, 3, 0].map renamedPair)
      (renamedPair 7).1 (renamedPair 7).2 :=
    .part hcall rfl rfl (List.mem_cons_of_mem _ List.mem_cons_self)
  obtain ⟨-, -, -, hbound, -⟩ :=
    (binders_correspond hsite hleft hright hfile hm).2.1 _ _ _ hname rfl rfl rfl
  have hq : (renamedPair 7).1.BoundAt 0 0 :=
    ⟨rfl, _, _, rfl, rfl, rfl, fun i hi => absurd hi (Nat.not_lt_zero i)⟩
  exact ⟨rfl, hsite, hleft, hright, hfile, hm, hq, ((hbound 0 0).1 hq).2⟩

end Template

end SourceRename
