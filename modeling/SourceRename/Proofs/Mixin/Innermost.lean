import SourceRename.Proofs.Edit.Draft
import SourceRename.Proofs.Mixin.Steps
import SourceRename.Proofs.Syntax.Distinct
import SourceRename.Run.Basic

/-!
# Members of nested mixin classes

A member of a mixin class should be worked on once, and for the target of the innermost mixin class
around it (`Context.MembersOnce`).  The pass takes all methods below a mixin class, those of nested
mixin classes included.  So a member is worked on once for each mixin class around it that has a
target with names for it, outer classes first (`Context.mem_memberWork_iff`), and
`Context.membersOnce_iff` says that it should not be nested in two of these.

What is done at a time is little: at most one problem is reported and at most one replacement is
queued (`MemberTask.run_touches`).  The replacement for an accessor is queued whether or not there
is one for its span, so two of them are put side by side (`nested_twice`). -/

namespace SourceRename

/-! ### What is done at a time -/

/-- At most one problem of the given code is reported and at most one replacement queued, that of
the given span. -/
structure Draft.Touches (span? : Option Span) (code : String) (d e : Draft) : Prop where
  text : e.text = d.text
  conflicts : e.conflicts = d.conflicts
  diagnostics : ∃ problem? : Option Diagnostic, e.diagnostics = d.diagnostics ++ problem?.toList ∧
    ∀ p ∈ problem?, p.code = some code
  edits : e.edits = d.edits ∨ ∃ span text, span? = some span ∧ e.edits = d.edits.queue span text

namespace Draft.Touches

variable {d e : Draft} {span : Span} {span? : Option Span} {code : String}

theorem refl (d : Draft) : d.Touches span? code d :=
  ⟨rfl, rfl, ⟨none, (List.append_nil _).symm, nofun⟩, .inl rfl⟩

theorem report (d : Draft) (offset : Nat) {problem : Problem} (h : problem.code = code) :
    d.Touches span? code (d.report offset problem) := by
  refine ⟨rfl, rfl, ⟨some (problem.locate d.text offset), rfl, ?_⟩, .inl rfl⟩
  rintro p hp
  obtain rfl := Option.some.inj hp
  exact congrArg some h

theorem queue (h : d.Touches none code e) (text : String) :
    d.Touches (some span) code (e.queue span text) := by
  refine ⟨h.text, h.conflicts, h.diagnostics, .inr ⟨span, text, rfl, ?_⟩⟩
  rcases h.edits with hedits | ⟨span, text, hspan, -⟩
  · rw [← hedits]
    rfl
  · exact absurd hspan (by simp)

theorem weaken (h : d.Touches none code e) : d.Touches span? code e :=
  ⟨h.text, h.conflicts, h.diagnostics, h.edits.imp_right fun ⟨_, _, hspan, _⟩ => nomatch hspan⟩

theorem replace (h : d.Touches none code e) (text : String) :
    d.Touches (some span) code (e.replace span text) := by
  rw [Draft.replace]
  split
  · exact h.weaken
  · exact h.queue text

theorem replaceLiteral (h : d.Touches none code e) (old new : String) :
    d.Touches (some span) code (e.replaceLiteral span old new) := by
  rw [Draft.replaceLiteral]
  split
  · exact h.weaken
  · rw [replaceFree]
    split
    · exact h.replace _
    · exact h.weaken

end Draft.Touches

namespace MemberTask

def use : MemberTask → Site
  | .access _ use _ => use
  | .inject _ use _ _ => use

def code : MemberTask → String
  | .access _ _ _ => "E0003"
  | .inject _ _ _ _ => "E0001"

/-- What can be replaced: the arguments of the annotation, or the string that a value stands for. -/
def span? (cx : Context) : MemberTask → Option Span
  | .access _ use _ => some (Context.argumentSpan use)
  | .inject _ _ _ value => (cx.injectedLiteral? value).map Site.span

/-- **Each time a member is worked on**, at most one problem is reported and at most one replacement
is queued. -/
theorem run_touches (cx : Context) (target : MixinTarget) (d : Draft) (task : MemberTask) :
    d.Touches (task.span? cx) task.code (task.run cx target d) := by
  cases task with
  | access method use kind =>
    rw [run, Context.renameAccess]
    split
    · exact .report d _ rfl
    · split
      · exact .refl d
      · split
        · exact .refl d
        · split
          · exact .replace (.refl d) _
          · exact .replace (.refl d) _
  | inject method use attr value =>
    rw [run, span?]
    cases target.decl? with
    | none => exact .refl d
    | some decl =>
      dsimp only
      rw [Context.renameInjected]
      cases cx.injectedLiteral? value with
      | none => exact .refl d
      | some literal =>
        dsimp only
        split
        · exact .refl d
        · refine .replaceLiteral ?_ _ _
          split
          · exact .report d _ rfl
          · exact .refl d

end MemberTask

/-! ### Which members are worked on -/

/-- What comes from different elements is different if one can tell which it comes from. -/
theorem nodup_flatMap_of_owner {α β : Type} {xs : List α} {f : α → List β} (owner : β → α)
    (hxs : xs.Nodup) (hf : ∀ x ∈ xs, (f x).Nodup) (howner : ∀ x ∈ xs, ∀ y ∈ f x, owner y = x) :
    (xs.flatMap f).Nodup := by
  refine List.nodup_flatMap.2 ⟨hf, ?_⟩
  have hpair := List.pairwise_of_forall_mem_list (r := fun a b => a ∈ xs ∧ b ∈ xs)
    fun a ha b hb => ⟨ha, hb⟩
  refine (hxs.and hpair).imp fun {a b} ⟨hne, ha, hb⟩ y hya hyb => hne ?_
  rw [← howner a ha y hya, howner b hb y hyb]

namespace Context

variable {cx : Context} {task : MemberTask} {site : Site}

def Declares (cx : Context) : MemberTask → Prop
  | .access method use kind => method.kind = .methodDecl ∧ use ∈ method.annotations ∧
      cx.accessKind? use = some kind
  | .inject method use attr value => method.kind = .methodDecl ∧ use ∈ method.annotations ∧
      (attr, value) ∈ cx.injectedValues use

def isMixin (cx : Context) (site : Site) : Bool :=
  site.kind == .classDecl && (cx.mixinUse? site).isSome

def innermostMixin? (cx : Context) (site : Site) : Option Site := site.enclosing.find? cx.isMixin

theorem Declares.kind_method (h : cx.Declares task) : task.method.kind = .methodDecl := by
  cases task with
  | access method use kind => exact h.1
  | inject method use attr value => exact h.1

theorem mem_tasks_iff :
    task ∈ cx.tasks site ↔ task.method ∈ site.preorder ∧ cx.Declares task := by
  rw [tasks, List.mem_append, List.mem_flatMap, List.mem_flatMap]
  simp only [accessTasks, injectTasks, List.mem_filter, List.mem_filterMap, List.mem_flatMap,
    List.mem_map, Option.map_eq_some_iff, beq_iff_eq]
  constructor
  · rintro (⟨method, ⟨hmethod, hkind⟩, use, huse, kind, haccess, rfl⟩ |
      ⟨method, ⟨hmethod, hkind⟩, use, huse, v, hv, rfl⟩)
    · exact ⟨hmethod, hkind, huse, haccess⟩
    · exact ⟨hmethod, hkind, huse, hv⟩
  · cases task with
    | access method use kind =>
      rintro ⟨hmethod, hkind, huse, haccess⟩
      exact .inl ⟨method, ⟨hmethod, hkind⟩, use, huse, kind, haccess, rfl⟩
    | inject method use attr value =>
      rintro ⟨hmethod, hkind, huse, hv⟩
      exact .inr ⟨method, ⟨hmethod, hkind⟩, use, huse, (attr, value), hv, rfl⟩

theorem mem_workFor_iff {w : MemberWork} : w ∈ cx.workFor site ↔
    w.mixin = site ∧ (cx.registration? site).map Prod.snd = some w.target ∧
      w.task ∈ cx.tasksFor site w.target := by
  rw [workFor]
  cases cx.registration? site with
  | none => simp
  | some registered =>
    simp only [List.mem_map, Option.map_some, Option.some.injEq]
    constructor
    · rintro ⟨task, htask, rfl⟩
      exact ⟨rfl, rfl, htask⟩
    · rintro ⟨rfl, htarget, htask⟩
      exact ⟨w.task, htarget ▸ htask, by rw [htarget]⟩

/-- **Which members are worked on**, and for which mixin classes: for all around them that have a
target with names for them. -/
theorem mem_memberWork_iff {w : MemberWork} : w ∈ cx.memberWork ↔
    w.task.method ∈ cx.file.sites ∧ cx.Declares w.task ∧
      w.mixin ∈ w.task.method.enclosing ∧ w.mixin.kind = .classDecl ∧
      (cx.registration? w.mixin).map Prod.snd = some w.target ∧
      w.task.concerns w.target = true := by
  rw [memberWork, List.mem_flatMap]
  simp only [mem_workFor_iff, classSites, tasksFor, List.mem_filter, beq_iff_eq, mem_tasks_iff]
  constructor
  · rintro ⟨site, ⟨hsite, hkind⟩, rfl, htarget, ⟨hmethod, hdeclares⟩, hconcerns⟩
    have hmem : w.task.method ∈ cx.file.sites := Site.preorder_trans hsite hmethod
    refine ⟨hmem, hdeclares, ?_, hkind, htarget, hconcerns⟩
    rw [Site.mem_enclosing_iff hsite hmem]
    refine (List.mem_cons.1 hmethod).resolve_left fun heq => ?_
    -- a method is no class
    have hmethod := hdeclares.kind_method
    rw [heq, hkind] at hmethod
    exact absurd hmethod (by decide)
  · rintro ⟨hmethod, hdeclares, haround, hkind, htarget, hconcerns⟩
    have hsite : w.mixin ∈ cx.file.sites := SourceFile.mem_of_enclosing hmethod haround
    have hbelow := (Site.mem_enclosing_iff hsite hmethod).1 haround
    exact ⟨w.mixin, ⟨hsite, hkind⟩, rfl, htarget,
      ⟨List.mem_cons_of_mem w.mixin hbelow, hdeclares⟩, hconcerns⟩

/-! ### Each member once for a class -/

theorem method_of_mem_accessTasks {method : Site} (h : task ∈ cx.accessTasks method) :
    task.method = method := by
  obtain ⟨use, -, h⟩ := List.mem_filterMap.1 h
  obtain ⟨kind, -, rfl⟩ := Option.map_eq_some_iff.1 h
  rfl

theorem method_of_mem_injectTasks {method : Site} (h : task ∈ cx.injectTasks method) :
    task.method = method := by
  obtain ⟨use, -, h⟩ := List.mem_flatMap.1 h
  obtain ⟨v, -, rfl⟩ := List.mem_map.1 h
  rfl

section

variable (hsites : cx.file.sites.Nodup)
include hsites

theorem nodup_annotations {method : Site} (h : method ∈ cx.file.sites) :
    method.annotations.Nodup := by
  rw [Site.annotations]
  cases hlist : method.modifiers? with
  | none => exact List.nodup_nil
  | some list =>
    have hmem := SourceFile.mem_of_nodes h (Site.mem_nodes_of_child? hlist)
    exact (Site.nodup_nodes hsites hmem).filter _

theorem nodup_injectedValues {use : Site} (h : use ∈ cx.file.sites) :
    (cx.injectedValues use).Nodup := by
  rw [injectedValues]
  split
  · cases hattr : use.attribute? "method" with
    | none => exact List.nodup_nil
    | some attr =>
      dsimp only
      cases hvalue : attr.lastExpression? with
      | none => exact List.nodup_nil
      | some value =>
        refine List.Nodup.map (fun a b hab => (Prod.mk.inj hab).2) ?_
        rw [Site.listed]
        split
        · refine List.Nodup.filter _ (Site.nodup_nodes hsites ?_)
          have hmem := SourceFile.mem_of_attributes h (List.mem_of_find?_eq_some hattr)
          exact SourceFile.mem_of_nodes hmem (Site.mem_nodes_of_lastExpression? hvalue)
        · exact List.nodup_singleton value
  · exact List.nodup_nil

theorem nodup_accessTasks {method : Site} (h : method ∈ cx.file.sites) :
    (cx.accessTasks method).Nodup := by
  refine (nodup_annotations hsites h).filterMap fun use use' task huse huse' => ?_
  obtain ⟨kind, -, rfl⟩ := Option.map_eq_some_iff.1 huse
  obtain ⟨kind', -, htask⟩ := Option.map_eq_some_iff.1 huse'
  injection htask with _ heq
  exact heq.symm

theorem nodup_injectTasks {method : Site} (h : method ∈ cx.file.sites) :
    (cx.injectTasks method).Nodup := by
  refine nodup_flatMap_of_owner MemberTask.use (nodup_annotations hsites h) (fun use huse => ?_)
    fun use _ task htask => ?_
  · have huse := SourceFile.mem_of_annotations h huse
    refine (nodup_injectedValues hsites huse).map fun v v' hv => ?_
    injection hv with _ _ hattr hvalue
    exact Prod.ext hattr hvalue
  · obtain ⟨v, -, rfl⟩ := List.mem_map.1 htask
    rfl

theorem nodup_tasks (h : site ∈ cx.file.sites) : (cx.tasks site).Nodup := by
  have hmethods : (site.preorder.filter (·.kind == .methodDecl)).Nodup :=
    (Site.nodup_preorder hsites h).filter _
  have hmem : ∀ m ∈ site.preorder.filter (·.kind == .methodDecl), m ∈ cx.file.sites :=
    fun m hm => Site.preorder_trans h (List.mem_filter.1 hm).1
  refine List.nodup_append.2 ⟨?_, ?_, ?_⟩
  · exact nodup_flatMap_of_owner MemberTask.method hmethods
      (fun m hm => nodup_accessTasks hsites (hmem m hm)) fun m _ _ => method_of_mem_accessTasks
  · exact nodup_flatMap_of_owner MemberTask.method hmethods
      (fun m hm => nodup_injectTasks hsites (hmem m hm)) fun m _ _ => method_of_mem_injectTasks
  · -- an access is no injection
    rintro a ha b hb rfl
    obtain ⟨m, -, ha⟩ := List.mem_flatMap.1 ha
    obtain ⟨m', -, hb⟩ := List.mem_flatMap.1 hb
    obtain ⟨use, -, ha⟩ := List.mem_filterMap.1 ha
    obtain ⟨use', -, hb⟩ := List.mem_flatMap.1 hb
    obtain ⟨kind, -, rfl⟩ := Option.map_eq_some_iff.1 ha
    obtain ⟨v, -, hv⟩ := List.mem_map.1 hb
    exact nomatch hv

theorem nodup_memberWork : cx.memberWork.Nodup := by
  refine nodup_flatMap_of_owner MemberWork.mixin (hsites.filter _) (fun site hsite => ?_)
    fun site _ w hw => (mem_workFor_iff.1 hw).1
  rw [workFor]
  cases cx.registration? site with
  | none => exact List.nodup_nil
  | some registered =>
    refine List.Nodup.map (fun task task' h => ?_)
      ((nodup_tasks hsites (List.mem_filter.1 hsite).1).filter _)
    injection h

end

/-! ### The innermost mixin class -/

theorem pairwise_enclosing (site : Site) :
    site.enclosing.Pairwise fun p q => q ∈ p.enclosing := by
  rw [Site.enclosing]
  induction site.above with
  | nil => exact .nil
  | cons p ps ih => exact .cons (fun q hq => hq) ih

theorem of_innermostMixin? {c : Site} (hsite : site ∈ cx.file.sites)
    (h : cx.innermostMixin? site = some c) : c ∈ site.enclosing ∧ cx.isMixin c = true ∧
      ∀ b ∈ site.enclosing, cx.isMixin b = true → b ∉ c.below := by
  obtain ⟨hmixin, inside, outside, henclosing, hinside⟩ := List.find?_eq_some_iff_append.1 h
  have hc : c ∈ site.enclosing := List.mem_of_find?_eq_some h
  refine ⟨hc, hmixin, fun b hb hbmixin hbelow => ?_⟩
  have hsites : ∀ p ∈ site.enclosing, p ∈ cx.file.sites := fun p hp =>
    SourceFile.mem_of_enclosing hsite hp
  have hpair := pairwise_enclosing site
  have hmem := hb
  rw [henclosing] at hmem hpair
  rcases List.mem_append.1 hmem with hmem | hmem
  · have hnot := hinside b hmem
    rw [hbmixin] at hnot
    exact absurd hnot (by decide)
  · rcases List.mem_cons.1 hmem with rfl | hmem
    · exact Nat.lt_irrefl _ (Site.size_lt_of_mem_below hbelow)
    · have haround := (List.pairwise_cons.1 (List.pairwise_append.1 hpair).2.1).1 b hmem
      have hback := (Site.mem_enclosing_iff (hsites b hb) (hsites c hc)).1 haround
      exact Nat.lt_asymm (Site.size_lt_of_mem_below hbelow) (Site.size_lt_of_mem_below hback)

/-- The innermost mixin class is the one that none around the node lies in. -/
theorem innermostMixin?_eq_some_iff {c : Site} (hsite : site ∈ cx.file.sites) :
    cx.innermostMixin? site = some c ↔ c ∈ site.enclosing ∧ cx.isMixin c = true ∧
      ∀ b ∈ site.enclosing, cx.isMixin b = true → b ∉ c.below := by
  refine ⟨of_innermostMixin? hsite, fun ⟨hc, hmixin, hleast⟩ => ?_⟩
  obtain ⟨d, hd⟩ : ∃ d, cx.innermostMixin? site = some d :=
    Option.isSome_iff_exists.1 (List.find?_isSome.2 ⟨c, hc, hmixin⟩)
  obtain ⟨hdmem, hdmixin, hdleast⟩ := of_innermostMixin? hsite hd
  have hsites : ∀ p ∈ site.enclosing, p ∈ cx.file.sites := fun p hp =>
    SourceFile.mem_of_enclosing hsite hp
  by_cases heq : d = c
  · rw [hd, heq]
  · -- of two classes around a node, one lies in the other
    rcases rel_or_rel_of_pairwise (pairwise_enclosing site) hdmem hc heq with haround | haround
    · rw [Site.mem_enclosing_iff (hsites c hc) (hsites d hdmem)] at haround
      exact absurd haround (hleast d hdmem hdmixin)
    · rw [Site.mem_enclosing_iff (hsites d hdmem) (hsites c hc)] at haround
      exact absurd haround (hdleast c hc hmixin)

/-- Members are worked on for the innermost mixin class around them alone, and once at most. -/
structure MembersOnce (cx : Context) : Prop where
  innermost : ∀ w ∈ cx.memberWork, cx.innermostMixin? w.task.method = some w.mixin
  once : (cx.memberWork.map (·.task)).Nodup

theorem isMixin_of_mem_memberWork {w : MemberWork} (h : w ∈ cx.memberWork) :
    cx.isMixin w.mixin = true := by
  obtain ⟨-, -, -, hkind, htarget, -⟩ := mem_memberWork_iff.1 h
  rw [isMixin, hkind]
  cases huse : cx.mixinUse? w.mixin with
  | some use => rfl
  | none =>
    rw [registration?, huse] at htarget
    exact absurd htarget (by simp)

/-- Members are worked on once if no mixin class that is around them lies in one they are worked on
for. -/
theorem membersOnce_iff (hsites : cx.file.sites.Nodup) : cx.MembersOnce ↔
    ∀ w ∈ cx.memberWork, ∀ c ∈ w.mixin.below, cx.isMixin c = true →
      w.task.method ∉ c.below := by
  constructor
  · intro h w hw c hc hmixin hmethod
    obtain ⟨hmem, -, haround, -⟩ := mem_memberWork_iff.1 hw
    have hmixinSite := SourceFile.mem_of_enclosing hmem haround
    have hcsite : c ∈ cx.file.sites :=
      Site.preorder_trans hmixinSite (List.mem_cons_of_mem w.mixin hc)
    refine (of_innermostMixin? hmem (h.innermost w hw)).2.2 c ?_ hmixin hc
    exact (Site.mem_enclosing_iff hcsite hmem).2 hmethod
  · intro h
    have hinnermost : ∀ w ∈ cx.memberWork, cx.innermostMixin? w.task.method = some w.mixin := by
      intro w hw
      obtain ⟨hmem, -, haround, -⟩ := mem_memberWork_iff.1 hw
      refine (innermostMixin?_eq_some_iff hmem).2 ⟨haround, isMixin_of_mem_memberWork hw, ?_⟩
      intro b hb hbmixin hbelow
      have hbsite := SourceFile.mem_of_enclosing hmem hb
      exact h w hw b hbelow hbmixin ((Site.mem_enclosing_iff hbsite hmem).1 hb)
    refine ⟨hinnermost, List.Nodup.map_on (fun w hw v hv htask => ?_) (nodup_memberWork hsites)⟩
    -- the task tells the mixin class, and the class tells its target
    have hmixin : w.mixin = v.mixin := by
      refine Option.some.inj ?_
      rw [← hinnermost w hw, ← hinnermost v hv, htask]
    obtain ⟨-, -, -, -, htarget, -⟩ := mem_memberWork_iff.1 hw
    obtain ⟨-, -, -, -, htarget', -⟩ := mem_memberWork_iff.1 hv
    rw [hmixin, htarget'] at htarget
    exact MemberWork.ext hmixin (Option.some.inj htarget).symm htask

/-- **What the mixin pass does with members** of a file that lists each node once, as every resolved
file does (`nodup_keys_of_resolve`).  It takes its steps one after the other, and those that are
taken with members are the work listed for them: a member is worked on once for each mixin class
around it that has a target with names for it.  Each time at most one problem is reported and at
most one replacement queued.  So each member is worked on once at most, and for the innermost mixin
class around it alone, if and only if no member is worked on for a mixin class in which it lies in
another one. -/
theorem members_of_renameMixins (hsites : cx.file.sites.Nodup) (d : Draft) :
    (cx.renameMixins d).2 = cx.mixinSteps.foldl MixinStep.run d ∧
      cx.mixinSteps.filterMap MixinStep.work? = cx.memberWork ∧
      (∀ w, w ∈ cx.memberWork ↔ w.task.method ∈ cx.file.sites ∧ cx.Declares w.task ∧
        w.mixin ∈ w.task.method.enclosing ∧ w.mixin.kind = .classDecl ∧
        (cx.registration? w.mixin).map Prod.snd = some w.target ∧
        w.task.concerns w.target = true) ∧
      cx.memberWork.Nodup ∧
      (∀ (cx' : Context) (target : MixinTarget) (d' : Draft) (task : MemberTask),
        d'.Touches (task.span? cx') task.code (task.run cx' target d')) ∧
      (cx.MembersOnce ↔ ∀ w ∈ cx.memberWork, ∀ c ∈ w.mixin.below, cx.isMixin c = true →
        w.task.method ∉ c.below) :=
  ⟨cx.renameMixins_eq d, cx.work_mixinSteps, fun _ => mem_memberWork_iff, nodup_memberWork hsites,
    MemberTask.run_touches, membersOnce_iff hsites⟩

end Context

/-! ### An accessor in two mixin classes -/

namespace Mixin

/-- The modifiers `@Mixin(A.class)`, for a class of the given name. -/
def targeting (name : String) : Tree :=
  .node .modifierList [.node .annotationUse [.token .at "@", .token .ident "Mixin",
    .node .annotationArgs [.token .lParen "(",
      .node .annotationAttr [.node .classLiteral [.node .reference [.token .ident name],
        .token .dot ".", .token .classKw "class"]],
      .token .rParen ")"]]]

/-- The method `@Accessor("a")int a();`. -/
def accessorMethod : Tree :=
  .node .methodDecl [
    .node .modifierList [.node .annotationUse [.token .at "@", .token .ident "Accessor",
      .node .annotationArgs [.token .lParen "(",
        .node .annotationAttr [.node .literal [.token .string "\"a\""]], .token .rParen ")"]]],
    .token .ident "int", .token .whitespace " ", .token .ident "a", .token .lParen "(",
    .token .rParen ")", .token .semicolon ";"]

def classWith (modifiers : Tree) (name : String) (member : Tree) : Tree :=
  .node .classDecl [modifiers, .token .classKw "class", .token .whitespace " ", .token .ident name,
    .token .lBrace "\x7b", member, .token .rBrace "\x7d"]

/-- The class `M` with the target `A`, in it the class `N` with the target `B`, and in that an
accessor for a field `a`. -/
def nested : SourceFile where
  name := "M.java"
  language := .java
  text := "@Mixin(A.class)class M\x7b@Mixin(B.class)class N\x7b@Accessor(\"a\")int a();\x7d\x7d"
  tree := .node .sourceFile
    [classWith (targeting "A") "M" (classWith (targeting "B") "N" accessorMethod)]
  symbols := .ofList [((.classDecl, .ofWidth 0 70), .classType (.ofBinary "M")),
    ((.reference, .ofWidth 7 1), .classType (.ofBinary "A")),
    ((.classDecl, .ofWidth 23 46), .classType (.ofBinary "N")),
    ((.reference, .ofWidth 30 1), .classType (.ofBinary "B"))]
  types := .empty
  scope := ⟨.empty, .empty⟩

def innerRun : Run where
  renames := Renames.empty.declare "B" "B" fun c => c.addField "a" "c"
  templates := []
  settings := {}

def bothRun : Run where
  renames := innerRun.renames.declare "A" "A" fun c => c.addField "a" "b"
  templates := []
  settings := {}

theorem nodup_sites_nested : nested.sites.Nodup := by
  have hdeclared : (nested.sites.map Site.declaration).Nodup := by decide +kernel
  exact hdeclared.of_map

/-- As long as `A` has no new names, the accessor is worked on for `N` alone. -/
theorem nested_once :
    let cx := Context.ofFile nested innerRun.renames innerRun.settings.forbidImplicit
    nested.sites.Nodup ∧ cx.MembersOnce ∧ cx.memberWork.length = 1 ∧
      innerRun.report nested =
        .ok ⟨"@Mixin(A.class)class M\x7b@Mixin(B.class)class N\x7b@Accessor(\"c\")int a();\x7d\x7d",
          [], []⟩ := by
  intro cx
  have hlone : ∀ w ∈ cx.memberWork, ∀ c ∈ w.mixin.below, cx.isMixin c = false := by
    decide +kernel
  refine ⟨nodup_sites_nested, ?_, by decide +kernel, by decide +kernel⟩
  obtain ⟨-, -, -, -, -, hiff⟩ : _ ∧ _ ∧ _ ∧ _ ∧ _ ∧ (cx.MembersOnce ↔ _) :=
    Context.members_of_renameMixins nodup_sites_nested (.ofText nested.text)
  refine hiff.2 fun w hw c hc hmixin => ?_
  rw [hlone w hw c hc] at hmixin
  exact absurd hmixin (by decide)

/-- **An accessor that is changed twice.**  If both targets have new names, the accessor is worked
on for `M`, too, though `N` is the innermost mixin class around it, and both new names are written.
-/
theorem nested_twice :
    let cx := Context.ofFile nested bothRun.renames bothRun.settings.forbidImplicit
    ¬ cx.MembersOnce ∧ cx.memberWork.length = 2 ∧
      bothRun.report nested = .ok
        ⟨"@Mixin(A.class)class M\x7b@Mixin(B.class)class N\x7b@Accessor(\"b\")(\"c\")int a();\x7d\x7d",
          [], []⟩ := by
  intro cx
  have hspans : ¬ ∀ w ∈ cx.memberWork,
      (cx.innermostMixin? w.task.method).map Site.declaration = some w.mixin.declaration := by
    decide +kernel
  refine ⟨fun h => hspans fun w hw => ?_, by decide +kernel, by decide +kernel⟩
  rw [h.innermost w hw, Option.map_some]

end Mixin

end SourceRename
