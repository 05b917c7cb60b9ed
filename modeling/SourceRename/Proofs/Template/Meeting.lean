import SourceRename.Proofs.Template.Captures

/-!
# Which nodes meet in a match

A match lays nodes of the template over nodes of the file, from the two roots on down.
`Template.Meets` says which nodes meet, with the pairs that meet around them, and `Template.MadeAt`
at which node of the template a capture is made.  A match has just the captures that are made
somewhere (`mem_captures_iff`).

The lambda expressions around a node of the template are those that meet one on the way to it
(`lambdas_of_meets`), and the names that are compared there are their parameters
(`any_scopeOf`).
-/

namespace SourceRename.Template

variable {t : Template} {file : SourceFile} {site p e : Site} {around : List (Site × Site)}
  {captures : List Capture} {c : Capture} {bound : Bound}

/-- The names of lambda parameters that two nodes see, from the pairs that meet around them. -/
def scopeOf : List (Site × Site) → Bound
  | [] => []
  | (p, e) :: around => seenBy (scopeOf around) p e

/-- In matching a template at a node of a file, the node `p` of the template is laid over the node
`e` of the file; `around` are the pairs on the way to them, innermost first. -/
inductive Meets (t : Template) (file : SourceFile) (site : Site) :
    List (Site × Site) → Site → Site → Prop
  | root : Meets t file site [] t.root site
  | part {around : List (Site × Site)} {p e : Site} {a : Alignment} {x : Site × Site} :
      Meets t file site around p e → t.hole? p = none →
      t.align file (scopeOf around) p e = some a → x ∈ a.pairs →
      Meets t file site ((p, e) :: around) x.1 x.2

/-- The nodes of a template that are laid over something in a match, from the root on down to the
nodes that stand for a parameter. -/
inductive Visited (t : Template) : Site → Prop
  | root : Visited t t.root
  | part {p q : Site} : Visited t p → t.hole? p = none → q ∈ parts p → Visited t q

/-- A capture is made at a node of the template that stands for its parameter: one expression that
the node meets, or the arguments behind the fixed ones where the node is the last argument of a
call. -/
inductive MadeAt (t : Template) (file : SourceFile) (site : Site) (c : Capture) :
    List (Site × Site) → Site → Prop
  | expression {around : List (Site × Site)} {hole e : Site} :
      t.Meets file site around hole e → t.hole? hole = some c.parameter →
      t.capture? file (scopeOf around) c.parameter e = some c → MadeAt t file site c around hole
  | arguments {around : List (Site × Site)} {p e hole : Site} {a : Alignment} :
      t.Meets file site around p e → t.hole? p = none →
      t.align file (scopeOf around) p e = some a → a.captures = [c] →
      t.Gathers file p e hole c → MadeAt t file site c ((p, e) :: around) hole

/-! ### Captures -/

/-- Captures part by part. -/
theorem collect_of_rows {a : Alignment} {captures : List Capture}
    (rows : List (List Capture)) (hhole : t.hole? p = none)
    (halign : t.align file bound p e = some a)
    (hrows : List.Forall₂ (fun x cs => t.collect file a.bound x.1 x.2 = some cs) a.pairs rows)
    (hall : rows.flatten ++ a.captures = captures) :
    t.collect file bound p e = some captures := by
  have hmap : ∀ {pairs : List (Site × Site)} {rows : List (List Capture)},
      List.Forall₂ (fun x cs => t.collect file a.bound x.1 x.2 = some cs) pairs rows →
        (pairs.mapM fun x => t.collect file a.bound x.1 x.2) = some rows := by
    intro pairs rows h
    induction h with
    | nil => rfl
    | cons hx _ ih =>
      rw [List.mapM_cons, hx, ih]
      rfl
  exact (collect_eq_some_iff hhole).2 ⟨a, rows, halign, hmap hrows, hall⟩

theorem collect_of_meets (h : t.collect file [] t.root site = some captures)
    (hm : t.Meets file site around p e) :
    ∃ cs, t.collect file (scopeOf around) p e = some cs ∧ cs ⊆ captures := by
  induction hm with
  | root => exact ⟨captures, h, List.Subset.refl _⟩
  | @part around p e a x _ hhole halign hx ih =>
    obtain ⟨cs, hcs, hsub⟩ := ih
    rw [collect_of_align hhole halign] at hcs
    obtain ⟨rows, hrows, rfl⟩ := Option.map_eq_some_iff.1 hcs
    obtain ⟨row, hrow, hcollect⟩ := exists_of_mapM_eq_some hrows hx
    refine ⟨row, ?_, fun c hc => hsub (List.mem_append_left _ (List.mem_flatten_of_mem hrow hc))⟩
    rwa [(covers_of_align halign).2.bound] at hcollect

theorem MadeAt.mem (h : t.collect file [] t.root site = some captures) {hole : Site}
    (hc : t.MadeAt file site c around hole) : c ∈ captures := by
  cases hc with
  | expression hm hhole hcapture =>
    obtain ⟨cs, hcs, hsub⟩ := collect_of_meets h hm
    rw [collect_of_hole hhole, hcapture] at hcs
    exact hsub (Option.some.inj hcs ▸ List.mem_singleton_self c)
  | arguments hm hhole halign hcaptures _ =>
    obtain ⟨cs, hcs, hsub⟩ := collect_of_meets h hm
    rw [collect_of_align hhole halign] at hcs
    obtain ⟨rows, -, rfl⟩ := Option.map_eq_some_iff.1 hcs
    exact hsub (List.mem_append_right _ (hcaptures ▸ List.mem_singleton_self c))

/-- Each capture of two nodes that meet is made at a node of the template below. -/
theorem exists_madeAt (hm : t.Meets file site around p e)
    (h : t.collect file (scopeOf around) p e = some captures) (hc : c ∈ captures) :
    ∃ inner hole, t.MadeAt file site c inner hole := by
  generalize hbound : scopeOf around = bound at h
  induction h using collect_induction generalizing around with
  | @expression _ p _ _ _ hhole hcapture =>
    obtain rfl := List.mem_singleton.1 hc
    exact ⟨around, p, .expression hm hhole (hbound ▸ hcapture)⟩
  | parts _ hhole halign hrows ih =>
    subst hbound
    obtain ⟨hbound, hparts⟩ := (covers_of_align halign).2
    rcases List.mem_append.1 hc with hc | hc
    · obtain ⟨x, hx, cs, -, hcs, hc⟩ := mem_flatten_cases hrows hc
      exact ih x hx cs hcs (.part hm hhole halign hx) hc hbound.symm
    · rcases hparts with ⟨hnone, -⟩ | ⟨hole, d, hcaptures, -, hgathers⟩
      · rw [hnone] at hc
        exact absurd hc List.not_mem_nil
      · obtain rfl : c = d := List.mem_singleton.1 (hcaptures ▸ hc)
        exact ⟨_, hole, .arguments hm hhole halign hcaptures hgathers⟩

/-- **A match has the captures that are made** at nodes of the template. -/
theorem mem_captures_iff (h : t.collect file [] t.root site = some captures) :
    c ∈ captures ↔ ∃ around hole, t.MadeAt file site c around hole := by
  constructor
  · exact exists_madeAt .root h
  · rintro ⟨around, hole, hc⟩
    exact hc.mem h

theorem MadeAt.hole? {hole : Site} (h : t.MadeAt file site c around hole) :
    t.hole? hole = some c.parameter := by
  cases h with
  | expression _ hhole _ => exact hhole
  | arguments _ _ _ _ hgathers =>
    obtain ⟨ps, es, -, -, hv, -⟩ := hgathers
    exact (variadicHole?_eq_some hv).2.1

/-! ### What lies around -/

theorem Meets.mem_preorder (h : t.Meets file site around p e) : e ∈ site.preorder := by
  induction h with
  | root => exact List.mem_cons_self
  | part _ _ halign hx ih =>
    exact Site.preorder_trans ih (List.mem_cons_of_mem _ ((sound_of_align halign).parts _ hx))

theorem enclosing_of_mem_nodes {q : Site} (h : q ∈ p.nodes) : q.enclosing = p :: p.enclosing := by
  rw [Site.enclosing, Site.above_of_mem_nodes h]
  rfl

def lambdas (sites : List Site) : List Site := sites.filter (·.kind == .lambdaExpr)

theorem lambdas_enclosing_of_mem_list {args q : Site} (hargs : args ∈ p.nodes)
    (hkind : args.kind = .argList) (h : q ∈ args.nodes) :
    lambdas q.enclosing = lambdas (p :: p.enclosing) := by
  rw [enclosing_of_mem_nodes h, enclosing_of_mem_nodes hargs]
  exact List.filter_cons_of_neg (by simp [hkind])

theorem lambdas_enclosing_of_mem_parts {q : Site} (h : q ∈ parts p) :
    lambdas q.enclosing = lambdas (p :: p.enclosing) := by
  rcases mem_parts_cases h with h | ⟨args, hargs, hkind, h⟩
  · rw [enclosing_of_mem_nodes h]
  · exact lambdas_enclosing_of_mem_list hargs hkind h

theorem lambdas_enclosing_of_gathers {hole : Site} (h : t.Gathers file p e hole c) :
    lambdas hole.enclosing = lambdas (p :: p.enclosing) := by
  obtain ⟨ps, es, hp, -, hv, -⟩ := h
  have hlast := List.mem_of_getLast? (variadicHole?_eq_some hv).1
  exact lambdas_enclosing_of_mem_list (Site.mem_nodes_of_child? hp) (Site.kind_of_child? hp)
    (Site.mem_nodes_of_expressions hlast)

theorem mem_parts_of_mem_pairs {a : Alignment} {x : Site × Site}
    (h : t.align file bound p e = some a) (hx : x ∈ a.pairs) : x.1 ∈ parts p := by
  have hmem : x.1 ∈ a.pairs.map Prod.fst := List.mem_map_of_mem hx
  rcases (covers_of_align h).2.parts with ⟨-, hparts⟩ | ⟨hole, c, -, hparts, -⟩
  · exact hparts ▸ hmem
  · exact hparts ▸ List.mem_append_left _ hmem

theorem Meets.visited (h : t.Meets file site around p e) : t.Visited p := by
  induction h with
  | root => exact .root
  | part _ hhole halign hx ih => exact .part ih hhole (mem_parts_of_mem_pairs halign hx)

/-- **Every node that is visited is met** in a match, unless it stands for a parameter. -/
theorem Visited.exists_meets (h : t.Visited p) (hhole : t.hole? p = none)
    (hcollect : t.collect file [] t.root site = some captures) :
    ∃ around e, t.Meets file site around p e := by
  induction h with
  | root => exact ⟨[], site, .root⟩
  | @part p q _ hplain hq ih =>
    obtain ⟨around, e, hmeets⟩ := ih hplain
    obtain ⟨cs, hcs, -⟩ := collect_of_meets hcollect hmeets
    obtain ⟨a, -, halign, -⟩ := (collect_eq_some_iff hplain).1 hcs
    have hpair : q ∈ a.pairs.map Prod.fst := by
      rcases (covers_of_align halign).2.parts with ⟨-, hparts⟩ | ⟨hole, c, -, hparts, hgathers⟩
      · rwa [hparts]
      · rw [← hparts, List.mem_append, List.mem_singleton] at hq
        refine hq.resolve_right ?_
        -- the variadic argument stands for its parameter
        rintro rfl
        obtain ⟨ps, es, -, -, hv, -⟩ := hgathers
        rw [(variadicHole?_eq_some hv).2.1] at hhole
        exact absurd hhole nofun
    obtain ⟨x, hx, rfl⟩ := List.mem_map.1 hpair
    exact ⟨_, x.2, .part hmeets hplain halign hx⟩

theorem mem_below_of_mem_parts {q : Site} (h : q ∈ parts p) : q ∈ p.below := by
  rcases mem_parts_cases h with h | ⟨args, hargs, -, h⟩
  · exact Site.mem_below_of_mem_nodes h
  · exact Site.below_trans (Site.mem_below_of_mem_nodes hargs) (Site.mem_below_of_mem_nodes h)

theorem Visited.mem_root (h : t.Visited p) : p ∈ t.root.preorder := by
  induction h with
  | root => exact List.mem_cons_self
  | part _ _ hq ih => exact Site.preorder_trans ih (List.mem_cons_of_mem _ (mem_below_of_mem_parts hq))

theorem Meets.mem_root (h : t.Meets file site around p e) : p ∈ t.root.preorder :=
  h.visited.mem_root

theorem lambdas_cons_congr {q : Site} {xs ys : List Site} (h : lambdas xs = lambdas ys) :
    lambdas (q :: xs) = lambdas (q :: ys) := by
  have hcons : ∀ zs, lambdas (q :: zs) =
      if q.kind == .lambdaExpr then q :: lambdas zs else lambdas zs := fun _ => List.filter_cons
  rw [hcons, hcons, h]

/-- **The lambda expressions around a node of the template** are those that meet one on the way. -/
theorem lambdas_of_meets (h : t.Meets file site around p e) :
    lambdas p.enclosing = lambdas (around.map Prod.fst) := by
  induction h with
  | root =>
    rw [root, Site.root.eq_def]
    split <;> rfl
  | part _ _ halign hx ih =>
    exact (lambdas_enclosing_of_mem_parts (mem_parts_of_mem_pairs halign hx)).trans
      (lambdas_cons_congr ih)

theorem MadeAt.lambdas_eq {hole : Site} (h : t.MadeAt file site c around hole) :
    lambdas hole.enclosing = lambdas (around.map Prod.fst) := by
  cases h with
  | expression hm _ _ => exact lambdas_of_meets hm
  | arguments hm _ _ _ hgathers =>
    exact (lambdas_enclosing_of_gathers hgathers).trans (lambdas_cons_congr (lambdas_of_meets hm))

/-! ### Names of lambda parameters -/

/-- The nodes on the way are laid over each other. -/
def Aligned (t : Template) (file : SourceFile) (around : List (Site × Site)) : Prop :=
  ∀ x ∈ around, ∃ bound a, t.align file bound x.1 x.2 = some a

theorem Aligned.cons {a : Alignment} (h : t.Aligned file around)
    (halign : t.align file bound p e = some a) : t.Aligned file ((p, e) :: around) := by
  intro x hx
  rcases List.mem_cons.1 hx with rfl | hx
  · exact ⟨bound, a, halign⟩
  · exact h x hx

theorem Meets.aligned (h : t.Meets file site around p e) : t.Aligned file around := by
  induction h with
  | root => exact fun _ hx => absurd hx List.not_mem_nil
  | part _ _ halign _ ih => exact ih.cons halign

theorem MadeAt.aligned {hole : Site} (h : t.MadeAt file site c around hole) :
    t.Aligned file around := by
  cases h with
  | expression hm _ _ => exact hm.aligned
  | arguments hm _ halign _ _ => exact hm.aligned.cons halign

theorem length_lambdaParameters {a : Alignment} (h : t.align file bound p e = some a)
    (hkind : p.kind = .lambdaExpr) : p.lambdaParameters.length = e.lambdaParameters.length := by
  unfold align at h
  split at h
  case isFalse => simp at h
  simp only [hkind] at h
  unfold alignLambda at h
  split at h
  · next hlength => exact hlength
  · simp at h

theorem any_bindParameters (name : String)
    (h : p.lambdaParameters.length = e.lambdaParameters.length) :
    (bindParameters bound p e).any (·.2 == name) = (e.binds name || bound.any (·.2 == name)) := by
  have hnames : (p.lambdaParameters.zip e.lambdaParameters).any (fun x => x.2.text == name) =
      e.binds name := by
    rw [Site.binds]
    conv_rhs => rw [← List.map_snd_zip (Nat.le_of_eq h.symm), List.any_map]
    rfl
  rw [bindParameters, List.foldl_flip_cons_eq_append, List.any_append, List.any_reverse,
    List.any_map, ← hnames]
  rfl

/-- The names of the file that two nodes see are the parameters of the lambda expressions around
them. -/
theorem any_scopeOf (h : t.Aligned file around) (name : String) :
    (scopeOf around).any (·.2 == name) =
      around.any fun x => x.1.kind == .lambdaExpr && x.2.binds name := by
  induction around with
  | nil => rfl
  | cons x around ih =>
    have hrest := ih fun y hy => h y (List.mem_cons_of_mem x hy)
    obtain ⟨bound, a, halign⟩ := h x List.mem_cons_self
    rw [scopeOf, seenBy, List.any_cons, ← hrest]
    split
    · next hkind => simp [any_bindParameters name (length_lambdaParameters halign hkind), hkind]
    · next hkind => simp [hkind]

end SourceRename.Template
