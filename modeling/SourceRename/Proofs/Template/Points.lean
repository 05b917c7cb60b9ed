import Mathlib.Data.List.Flatten
import Mathlib.Data.List.Perm.Subperm
import SourceRename.Proofs.Syntax.Shape
import SourceRename.Proofs.Template.Scope

/-!
# The points where a template captures

A match captures once at each node that stands for a parameter and is reached part by part
(`Template.points`).  Reading a template counts all uses of parameters below the statement, in the
file it is taken from.  The two agree if every use is reached; the body of a class behind `new` is
not, and

    new T(x) { int f() { return y; } }  ↦  g(x, y)    turns    new T(a) { .. }    into    g(a,

since the fragment behind the last capture is cut off.  They also differ where the method stands in
a lambda expression that has a parameter of the same name, because the tree is taken out of it.

`captures_fill_iff` says when a match has as many captures as the replacement has gaps.
-/

namespace SourceRename.Template

variable {t : Template} {before after file : SourceFile} {site p e root : Site}
  {around : List (Site × Site)} {captures : List Capture} {bound : Bound} {m : Match}
  {parameters : List Parameter}

/-- The nodes at which a template captures: those that stand for parameters and are reached part by
part. -/
def points (t : Template) (p : Site) : List Site :=
  if (t.hole? p).isSome then [p] else (parts p).attach.flatMap fun q => t.points q.1
termination_by p.size
decreasing_by exact size_lt_of_mem_parts q.2

theorem points_of_hole (h : (t.hole? p).isSome = true) : t.points p = [p] := by
  rw [points, if_pos h]

theorem points_of_none (h : t.hole? p = none) : t.points p = (parts p).flatMap t.points := by
  rw [points, if_neg (by simp [h])]
  conv_rhs => rw [← List.attach_map_subtype_val (parts p), List.flatMap_map]

/-! ### Captures and points -/

theorem parameters_of_rows {pairs : List (Site × Site)} {rows : List (List Capture)}
    (hrows : (pairs.mapM fun x => t.collect file bound x.1 x.2) = some rows)
    (h : ∀ x ∈ pairs, ∀ cs, t.collect file bound x.1 x.2 = some cs →
      cs.map (fun c => some c.parameter) = (t.points x.1).map t.hole?) :
    rows.flatten.map (fun c => some c.parameter) =
      ((pairs.map Prod.fst).flatMap t.points).map t.hole? := by
  induction pairs generalizing rows with
  | nil =>
    obtain rfl := Option.some.inj hrows
    rfl
  | cons x xs ih =>
    obtain ⟨cs, rest, hcs, hrest, rfl⟩ := mapM_cons_eq_some hrows
    rw [List.flatten_cons, List.map_append, List.map_cons, List.flatMap_cons, List.map_append,
      h x List.mem_cons_self cs hcs, ih hrest fun y hy => h y (List.mem_cons_of_mem x hy)]

/-- **A match captures once at each point**, for the parameter that the point stands for. -/
theorem parameters_of_collect (h : t.collect file bound p e = some captures) :
    captures.map (fun c => some c.parameter) = (t.points p).map t.hole? := by
  induction h using collect_induction with
  | expression _ hhole _ =>
    rw [points_of_hole (by simp [hhole]), List.map_singleton, List.map_singleton, hhole]
  | parts _ hhole halign hrows ih =>
    rw [points_of_none hhole, List.map_append, parameters_of_rows hrows ih]
    rcases (covers_of_align halign).2.parts with ⟨hnone, hparts⟩ | ⟨hole, c, hone, hparts, hg⟩
    · rw [hnone, hparts, List.map_nil, List.append_nil]
    · -- the last argument is a point where arguments are gathered
      obtain ⟨ps, es, -, -, hv, -⟩ := hg
      have hpoint : t.hole? hole = some c.parameter := (variadicHole?_eq_some hv).2.1
      rw [hone, ← hparts, List.flatMap_append, List.map_append, List.flatMap_singleton,
        points_of_hole (by simp [hpoint]), List.map_singleton, List.map_singleton, hpoint]

theorem isSome_of_mem_points {q : Site} (h : q ∈ t.points p) : (t.hole? q).isSome = true := by
  induction p using points.induct t with
  | case1 p hhole =>
    rw [points_of_hole hhole] at h
    rwa [List.mem_singleton.1 h]
  | case2 p hhole ih =>
    rw [points_of_none (by simpa using hhole)] at h
    obtain ⟨part, hpart, hq⟩ := List.mem_flatMap.1 h
    exact ih ⟨part, hpart⟩ hq

/-! ### Points and uses -/

theorem flatMap_subperm {α β : Type} {f g : α → List β} {xs : List α}
    (h : ∀ x ∈ xs, (f x).Subperm (g x)) : (xs.flatMap f).Subperm (xs.flatMap g) := by
  induction xs with
  | nil => exact List.Subperm.refl _
  | cons x xs ih =>
    rw [List.flatMap_cons, List.flatMap_cons]
    exact (h x List.mem_cons_self).append (ih fun y hy => h y (List.mem_cons_of_mem x hy))

theorem preorder_subperm {cs : List Site} (h : cs.Subperm p.nodes) :
    (cs.flatMap Site.preorder).Subperm p.below := by
  obtain ⟨row, hperm, hsub⟩ := h
  rw [Site.below_eq]
  exact ⟨row.flatMap Site.preorder, hperm.flatMap_right _, hsub.flatMap _⟩

theorem preorder_subperm_of_option {c? : Option Site} (h : ∀ c, c? = some c → c ∈ p.nodes) :
    (c?.toList.flatMap Site.preorder).Subperm p.below :=
  preorder_subperm (sublist_of_option h).subperm

theorem call_subperm {head? : Option Site}
    (hhead : ∀ c, head? = some c → c ∈ p.nodes ∧ c.kind ≠ .argList) :
    ((head?.toList ++ arguments p).flatMap Site.preorder).Subperm p.below := by
  cases hargs : p.child? .argList with
  | none =>
    rw [arguments, hargs]
    refine (List.append_nil head?.toList).symm ▸ preorder_subperm_of_option ?_
    exact fun c hc => (hhead c hc).1
  | some args =>
    have hmem := Site.mem_nodes_of_child? hargs
    have hkind : args.kind = .argList := Site.kind_of_child? hargs
    have hlist : (args.expressions.flatMap Site.preorder).Subperm args.preorder :=
      (preorder_subperm List.filter_sublist.subperm).trans (List.sublist_cons_self _ _).subperm
    have hnodup : (head?.toList ++ [args]).Nodup := by
      cases head? with
      | none => exact List.nodup_singleton _
      | some head =>
        refine List.nodup_cons.2 ⟨?_, List.nodup_singleton _⟩
        intro h
        obtain rfl := List.mem_singleton.1 h
        exact (hhead _ rfl).2 hkind
    have hsubset : head?.toList ++ [args] ⊆ p.nodes := by
      intro c hc
      rcases List.mem_append.1 hc with hc | hc
      · exact (hhead c (Option.mem_toList.1 hc)).1
      · exact List.mem_singleton.1 hc ▸ hmem
    have hrow := preorder_subperm (hnodup.subperm hsubset)
    rw [List.flatMap_append, List.flatMap_singleton] at hrow
    rw [arguments, hargs, List.flatMap_append]
    exact ((List.Subperm.refl _).append hlist).trans hrow

theorem parts_subperm (p : Site) : ((parts p).flatMap Site.preorder).Subperm p.below := by
  unfold parts
  split
  · exact preorder_subperm p.operands_sublist.subperm
  · exact preorder_subperm p.operands_sublist.subperm
  · exact preorder_subperm_of_option fun _ => Site.mem_nodes_of_child?
  · exact preorder_subperm List.filter_sublist.subperm
  · exact preorder_subperm_of_option fun _ => Site.mem_nodes_of_firstExpression?
  · exact preorder_subperm_of_option fun _ => Site.mem_nodes_of_firstExpression?
  · exact preorder_subperm_of_option fun _ => Site.mem_nodes_of_firstExpression?
  · exact preorder_subperm_of_option fun _ => Site.mem_nodes_of_lastExpression?
  · exact preorder_subperm_of_option fun _ => Site.mem_nodes_of_qualifier?
  · exact preorder_subperm_of_option fun _ => Site.mem_nodes_of_lambdaBody?
  · exact call_subperm fun _ => Site.callee_cases
  · exact call_subperm fun _ => Site.outerInstance_cases
  · exact List.nil_subperm

/-- Points are different nodes of the tree, and stand for parameters. -/
theorem points_subperm (t : Template) (p : Site) : (t.points p).Subperm (holes t.parameters p) := by
  have hpoints : (t.points p).Subperm p.preorder := by
    induction p using points.induct t with
    | case1 p hhole =>
      rw [points_of_hole hhole]
      exact List.singleton_subperm_iff.2 List.mem_cons_self
    | case2 p hhole ih =>
      rw [points_of_none (by simpa using hhole)]
      refine (flatMap_subperm fun q hq => ih ⟨q, hq⟩).trans ?_
      exact (parts_subperm p).trans (List.sublist_cons_self _ _).subperm
  have hself : (t.points p).filter (fun q => (parameterAt? t.parameters q).isSome) =
      t.points p := List.filter_eq_self.2 fun q hq => isSome_of_mem_points hq
  rw [← hself]
  exact hpoints.filter _

theorem start_lt_stop_of_hole {text : List Char} {s : Site} (h : s.StandsIn text)
    (hhole : (parameterAt? parameters s).isSome = true) : s.span.start < s.span.stop := by
  obtain ⟨ident, hident⟩ : ∃ ident, s.lastIdent? = some ident := by
    cases hident : s.lastIdent? with
    | some ident => exact ⟨ident, rfl⟩
    | none => simp [parameterAt?, hident] at hhole
  have htoken := Site.mem_directTokens_of_mem_idents (List.mem_of_getLast? hident)
  have hwide := h.token_nonempty htoken
  have hin := Site.within_of_mem_directTokens htoken
  omega

theorem nodup_holes {text : List Char} (h : root.StandsIn text) :
    (holes parameters root).Nodup := by
  have hpair := root.pairwise_preorder.filter fun q => (parameterAt? parameters q).isSome
  refine hpair.imp_of_mem fun {a b} ha _ hab => ?_
  rintro rfl
  obtain ⟨hmem, hhole⟩ := List.mem_filter.1 ha
  have hwide := start_lt_stop_of_hole (h.preorder hmem) hhole
  rcases hab with hbelow | hbehind
  · exact absurd (Site.size_lt_of_mem_below hbelow) (Nat.lt_irrefl _)
  · omega

/-- There are as many points as uses if and only if every use is a point. -/
theorem length_points_iff {text : List Char} (h : t.root.StandsIn text) :
    (t.points t.root).length = (holes t.parameters t.root).length ↔
      ∀ hole ∈ holes t.parameters t.root, hole ∈ t.points t.root := by
  have hsub := t.points_subperm t.root
  constructor
  · intro hlength hole hhole
    exact (hsub.perm_of_length_le (Nat.le_of_eq hlength.symm)).mem_iff.2 hhole
  · intro hall
    exact Nat.le_antisymm hsub.length_le ((nodup_holes h).subperm hall).length_le

/-! ### Uses in the file and in the tree -/

/-- No lambda expression around a node has a parameter that is called like one of the template. -/
def Unshadowed (parameters : List Parameter) (root : Site) : Prop :=
  ∀ s ∈ root.enclosing, s.kind = .lambdaExpr → ∀ p ∈ parameters, s.binds p.name = false

theorem any_binds_congr {s q : Site} (name : String)
    (habove : s.above.map Place.tree = q.above.map Place.tree ++ root.above.map Place.tree) :
    (s.enclosing.any fun x => x.kind == .lambdaExpr && x.binds name) =
      ((q.enclosing.any fun x => x.kind == .lambdaExpr && x.binds name) ||
        root.enclosing.any fun x => x.kind == .lambdaExpr && x.binds name) := by
  have hasked : ∀ x y : Site, x.tree = y.tree →
      (x.kind == .lambdaExpr && x.binds name) = (y.kind == .lambdaExpr && y.binds name) := by
    intro x y hxy
    rw [Site.kind_congr hxy, Site.binds_congr hxy]
  rw [Site.any_enclosing hasked, Site.any_enclosing hasked, Site.any_enclosing hasked, habove,
    List.any_append]

theorem parameterAt?_congr {s q : Site} (h : s.tree = q.tree)
    (habove : s.above.map Place.tree = q.above.map Place.tree ++ root.above.map Place.tree)
    (hfree : Unshadowed parameters root) : parameterAt? parameters s = parameterAt? parameters q := by
  have hname := Site.lastIdent?_congr h
  rw [parameterAt?, parameterAt?, Site.kind_congr h, Site.isQualified_congr h]
  split
  case isFalse => rfl
  cases hs : s.lastIdent? with
  | none =>
    rw [hs] at hname
    rw [Option.map_eq_none_iff.1 hname.symm]
  | some ident =>
    rw [hs] at hname
    obtain ⟨other, hother, htext⟩ := Option.map_eq_some_iff.1 hname.symm
    rw [hother]
    simp only [htext]
    rw [any_binds_congr ident.text habove]
    cases hroot : root.enclosing.any fun x => x.kind == .lambdaExpr && x.binds ident.text with
    | false => rw [Bool.or_false]
    | true =>
      -- the name is none of the template's parameters
      obtain ⟨x, hx, hlambda⟩ := List.any_eq_true.1 hroot
      rw [Bool.and_eq_true, beq_iff_eq] at hlambda
      have hnone : parameters.findIdx? (·.name == ident.text) = none := by
        refine List.findIdx?_eq_none_iff.2 fun p hp => beq_eq_false_iff_ne.2 fun hpname => ?_
        have := hfree x hx hlambda.1 p hp
        rw [hpname, hlambda.2] at this
        exact absurd this (by decide)
      rw [hnone, ite_self, ite_self]

theorem countP_eq_of_map_eq {α β γ : Type} {f : α → γ} {g : β → γ} {p : α → Bool} {q : β → Bool}
    {xs : List α} {ys : List β} (h : xs.map f = ys.map g) (hpq : ∀ x y, f x = g y → p x = q y) :
    xs.countP p = ys.countP q := by
  induction xs generalizing ys with
  | nil =>
    obtain rfl := List.map_eq_nil_iff.1 h.symm
    rfl
  | cons x xs ih =>
    obtain ⟨y, ys, rfl, hxy, hys⟩ := List.map_eq_cons_iff.1 h.symm
    rw [List.countP_cons, List.countP_cons, ih hys.symm, hpq x y hxy.symm]

/-- **A tree that is taken out of a file** has the uses of parameters that it had there. -/
theorem length_holes_taken (htree : t.tree = .node root.kind root.children)
    (hfree : Unshadowed parameters root) :
    (holes parameters root).length = (holes parameters t.root).length := by
  have hroot : t.root = ⟨⟨root.kind, root.children, 0⟩, []⟩ := by rw [Template.root, htree]; rfl
  have hplaced : root.preorder.map (fun q => (q.tree, q.above.map Place.tree)) =
      t.root.preorder.map fun q => (q.tree, q.above.map Place.tree ++ root.above.map Place.tree) := by
    have htaken := Site.map_placed t.root
    have hadded := Tree.placed_append [] (root.above.map Place.tree) root.tree
    rw [Site.map_placed root, ← List.nil_append (root.above.map Place.tree), hadded]
    have hsame : t.root.tree.placed (t.root.above.map Place.tree) = root.tree.placed [] := by
      rw [hroot]
      rfl
    rw [← hsame, ← htaken, List.map_map]
    rfl
  rw [holes, holes, ← List.countP_eq_length_filter, ← List.countP_eq_length_filter]
  refine countP_eq_of_map_eq hplaced fun s q hsq => ?_
  obtain ⟨htree, habove⟩ := Prod.mk.inj hsq
  rw [parameterAt?_congr htree habove hfree]

theorem standsIn_taken {text : List Char} (htree : t.tree = .node root.kind root.children)
    (h : root.StandsIn text) : t.root.StandsIn (Tree.textAll root.children) := by
  have hroot : t.root = ⟨⟨root.kind, root.children, 0⟩, []⟩ := by rw [Template.root, htree]; rfl
  have hsame : t.root.tree = root.tree := by rw [hroot]; rfl
  refine ⟨?_, fun u hu => ?_⟩
  · rw [hroot]
    exact PartAt.self _
  · obtain ⟨v, hv, huv⟩ := List.mem_map.1
      (Site.map_leaf_tokens_congr hsame ▸ List.mem_map_of_mem (f := Token.leaf) hu)
    have htext : v.text = u.text := congrArg Prod.snd huv
    exact htext ▸ h.solid v hv

theorem exists_standsIn_root {mark : String} {templates : List Template} (hbefore : before.Lossless)
    (hread : readAll before after mark = .ok templates) (ht : t ∈ templates) :
    ∃ text, t.root.StandsIn text := by
  obtain ⟨method, hmethod, replacement, -, -, root, newRoot, hfrom⟩ :=
    exists_of_mem_readAll hread ht
  have hroot := standsIn_of_statement (hbefore.standsIn (List.mem_filter.1 hmethod).1)
    hfrom.statement
  exact ⟨_, standsIn_taken hfrom.tree hroot⟩

/-! ### Fragments -/

theorem resize_eq_self_iff {α : Type} {filling : α} {length : Nat} {xs : List α} :
    resize filling length xs = xs ↔ xs.length = length := by
  refine ⟨fun h => ?_, resize_of_length⟩
  have hlength := congrArg List.length h
  rw [resize, List.length_append, List.length_take, List.length_replicate] at hlength
  omega

/-- **Captures and gaps.**  The replacement has one more fragment than the statement that the
template is read from uses parameters, in its file.  A match captures once at each point of the
template.  So fragments are neither cut off nor filled up if and only if there are as many points as
uses: if no lambda expression around the statement has a parameter of the same name, if every use is
a point. -/
theorem captures_fill_iff {mark : String} {templates : List Template} (hbefore : before.Lossless)
    (hread : readAll before after mark = .ok templates) (ht : t ∈ templates)
    (hm : t.find? file site = some m) :
    ∃ method ∈ methodsOf before, ∃ root, statement method = .ok root ∧
      t.tree = .node root.kind root.children ∧
      t.replacement.length = (holes t.parameters root).length + 1 ∧
      m.captures.map (fun c => some c.parameter) = (t.points t.root).map t.hole? ∧
      (resize [] (gaps m.root.start m.root.stop (m.captures.mergeSort comesBefore)).length
          (t.replacement.map String.toList) = t.replacement.map String.toList ↔
        t.replacement.length = m.captures.length + 1) ∧
      (Unshadowed t.parameters root → (t.replacement.length = m.captures.length + 1 ↔
        ∀ hole ∈ holes t.parameters t.root, hole ∈ t.points t.root)) := by
  obtain ⟨method, hmethod, replacement, -, -, hof⟩ := exists_ofMethods hread ht
  obtain ⟨root, newRoot, hfrom, hcount⟩ := readFrom_of_ofMethods hof
  have hlength : t.replacement.length = (holes t.parameters root).length + 1 := by
    have hfragments := (parted_of_fragments? hfrom.fragments).length_eq
    rw [List.length_map, List.length_map] at hfragments
    rw [hfragments, hcount]
  have hpoints := parameters_of_collect (find?_eq_some hm).1
  have hcaptures : m.captures.length = (t.points t.root).length := by
    have := congrArg List.length hpoints
    rwa [List.length_map, List.length_map] at this
  refine ⟨method, hmethod, root, hfrom.statement, hfrom.tree, hlength, hpoints, ?_, ?_⟩
  · rw [resize_eq_self_iff, List.length_map, length_gaps, List.length_mergeSort]
  · intro hfree
    have hroot := standsIn_of_statement (hbefore.standsIn (List.mem_filter.1 hmethod).1)
      hfrom.statement
    rw [← length_points_iff (standsIn_taken hfrom.tree hroot), hlength, hcaptures,
      length_holes_taken hfrom.tree hfree]
    omega

/-! ### A use in the body of a class -/

/-- The expression `new T(argument)\x7bint f()\x7breturn value;\x7d\x7d`. -/
def instanceOf (argument value : String) : Tree :=
  .node .newExpr [.token .newKw "new", .token .whitespace " ", .node .typeUse [.token .ident "T"],
    .node .argList [.token .lParen "(", loneName argument, .token .rParen ")"],
    .node .classDecl [.token .lBrace "\x7b",
      .node .methodDecl [.token .ident "int", .token .whitespace " ", .token .ident "f",
        .node .parameterList [.token .lParen "(", .token .rParen ")"],
        .node .block [.token .lBrace "\x7b",
          .node .returnStmt [.token .returnKw "return", .token .whitespace " ", loneName value,
            .token .semicolon ";"],
          .token .rBrace "\x7d"]],
      .token .rBrace "\x7d"]]

def constructorOfT : Method := ⟨.ofBinary "T", "<init>", "(I)V", false, true, []⟩

def makingAt (offset : Nat) (f : SourceFile) : SourceFile :=
  { f with symbols := .ofList [((.newExpr, .ofWidth offset 28), .method constructorOfT)] }

def instanceMarked : SourceFile := makingAt 29 (fileReturning marked (instanceOf "x" "y"))

def instanceReplaced : SourceFile :=
  fileReturning [] (callOf "g" [loneName "x", .token .comma ",", loneName "y"])

/-- The template that turns an instance into `g(x,y)`. -/
def instanceTemplate : Template :=
  ⟨"m", [⟨"x", none⟩, ⟨"y", none⟩], false, instanceOf "x" "y",
    .ofList [(.ofWidth 0 28, constructorOfT)], ["g(", ",", ")"]⟩

def instanceFile : SourceFile := makingAt 0 (expressionFile (instanceOf "a" "b"))

def instanceSite : Site := (instanceFile.sites[1]?).getD instanceFile.root

def instanceMatch : Match := ⟨.ofWidth 0 28, [⟨0, .ofWidth 6 1, .single⟩]⟩

theorem find?_instance : instanceTemplate.find? instanceFile instanceSite = some instanceMatch := by
  have hcollect : instanceTemplate.collect instanceFile [] instanceTemplate.root instanceSite =
      some instanceMatch.captures := by
    refine collect_of_rows [instanceMatch.captures] rfl rfl (.cons ?_ .nil) rfl
    rw [collect_of_hole rfl]
    rfl
  rw [find?_eq, hcollect]
  rfl

/-- **A use that is not reached.**  What stands for `y` is not captured, and the replacement is cut
off behind its place. -/
theorem instance_cut_off :
    instanceMarked.Lossless ∧ instanceReplaced.Lossless ∧ instanceFile.Lossless ∧
    readAll instanceMarked instanceReplaced "M" = .ok [instanceTemplate] ∧
    instanceSite ∈ instanceFile.sites ∧
    instanceTemplate.find? instanceFile instanceSite = some instanceMatch ∧
    instanceTemplate.replacement.length ≠ instanceMatch.captures.length + 1 ∧
    (Edits.ofCalls (instanceTemplate.changes instanceMatch)).applyTo? instanceFile.text =
      some ("g(a,", []) := by
  refine ⟨⟨_, rfl, by decide +kernel⟩, ⟨_, rfl, by decide +kernel⟩, ⟨_, rfl, by decide +kernel⟩, rfl,
    List.mem_cons_of_mem _ List.mem_cons_self, find?_instance, by decide, ?_⟩
  have hsorted : instanceMatch.captures.mergeSort comesBefore = instanceMatch.captures :=
    List.mergeSort_singleton _
  rw [changes, hsorted]
  decide +kernel

theorem points_difference (replacement : List String) :
    ∀ hole ∈ holes (differenceTemplate replacement).parameters (differenceTemplate replacement).root,
      hole ∈ (differenceTemplate replacement).points (differenceTemplate replacement).root := by
  obtain ⟨x, y, hparts, hx, hy, hholes⟩ : ∃ x y,
      parts (differenceTemplate replacement).root = [x, y] ∧
      ((differenceTemplate replacement).hole? x).isSome = true ∧
      ((differenceTemplate replacement).hole? y).isSome = true ∧
      holes (differenceTemplate replacement).parameters (differenceTemplate replacement).root =
        [x, y] :=
    ⟨_, _, rfl, rfl, rfl, rfl⟩
  rw [points_of_none rfl, hparts, List.flatMap_cons, List.flatMap_singleton, points_of_hole hx,
    points_of_hole hy, hholes]
  exact fun hole h => h

/-- Both operands of `x-y` are points, and the replacement `x+y` has a gap for each of them. -/
theorem sum_filled :
    differenceMarked.Lossless ∧
    readAll differenceMarked sumFile "M" = .ok [differenceTemplate ["", "+", ""]] ∧
    (differenceTemplate ["", "+", ""]).find? differenceOfNames differenceSite =
      some differenceMatch ∧
    (differenceTemplate ["", "+", ""]).replacement.length = differenceMatch.captures.length + 1 := by
  have hbefore : differenceMarked.Lossless := ⟨_, rfl, by decide +kernel⟩
  have hread : readAll differenceMarked sumFile "M" = .ok [differenceTemplate ["", "+", ""]] := rfl
  have hm := find?_difference .empty ["", "+", ""]
  refine ⟨hbefore, hread, hm, ?_⟩
  obtain ⟨method, hmethod, root, hroot, -, -, -, -, hiff⟩ :=
    captures_fill_iff hbefore hread (List.mem_singleton_self _) hm
  refine (hiff ?_).2 (points_difference _)
  -- no lambda expression stands around the method
  have hplain : ∀ method ∈ methodsOf differenceMarked, ∀ root, statement method = .ok root →
      ∀ s ∈ root.enclosing, s.kind ≠ .lambdaExpr := by
    intro method hmethod root hroot
    have hmethods : methodsOf differenceMarked =
        [(methodsOf differenceMarked).headD differenceMarked.root] := rfl
    rw [hmethods, List.mem_singleton] at hmethod
    subst hmethod
    obtain rfl := Except.ok.inj hroot
    decide
  exact fun s hs hlambda => absurd hlambda (hplain method hmethod root hroot s hs)

end SourceRename.Template
