import Mathlib.Data.List.Basic
import SourceRename.Mixin.Members

/-!
# The mixin pass, step by step

Which steps the mixin pass takes in a file depends on the file and the renames alone, and not on
what has been gathered before.  `Context.mixinSteps` lists them, and `Context.renameMixins_eq` says
that the pass takes just these steps, one after the other.

For each mixin class there are the injection points of the whole file, then the string that names
the target, and then the members below the class (`MemberTask`): one step for each accessor and
invoker, and one for each value of an injector.  The latter are what `Context.memberWork` lists for
the whole file, each with its mixin class and the target of that. -/

namespace SourceRename

/-! ### Members -/

/-- What there is to do with an annotation of a method. -/
inductive MemberTask
  /-- The annotation makes the method an accessor or invoker. -/
  | access (method use : Site) (kind : AccessKind)
  /-- The annotation is an injector, and `value` one of the values of its attribute `attr`. -/
  | inject (method use attr value : Site)

namespace MemberTask

def method : MemberTask → Site
  | .access method _ _ => method
  | .inject method _ _ _ => method

/-- Whether a target has names that the task may need. -/
def concerns (target : MixinTarget) : MemberTask → Bool
  | .access _ _ _ => target.renames.hasFields || target.renames.hasMethods
  | .inject _ _ _ _ => target.decl?.isSome && target.renames.hasMethods

def run (cx : Context) (target : MixinTarget) (d : Draft) : MemberTask → Draft
  | .access method use kind => Context.renameAccess target.renames method use kind d
  | .inject _ _ attr value =>
    match target.decl? with
    | some decl => cx.renameInjected target.renames decl attr d value
    | none => d

end MemberTask

/-- A member, and a mixin class for which it is worked on. -/
@[ext] structure MemberWork where
  mixin : Site
  target : MixinTarget
  task : MemberTask

inductive MixinStep
  /-- An injection point is renamed. -/
  | point (cx : Context) (use : Site)
  /-- The string that names a target is renamed. -/
  | spell (span : Span) (new : String)
  /-- A member is worked on. -/
  | member (cx : Context) (work : MemberWork)

namespace MixinStep

def run (d : Draft) : MixinStep → Draft
  | .point cx use => cx.visitPoint d use
  | .spell span new => d.replaceFree span (Quoted.literal new)
  | .member cx work => work.task.run cx work.target d

def work? : MixinStep → Option MemberWork
  | .member _ work => some work
  | _ => none

end MixinStep

namespace Context

variable {cx : Context}

def accessTasks (cx : Context) (method : Site) : List MemberTask :=
  method.annotations.filterMap fun use => (cx.accessKind? use).map (.access method use)

/-- The values of the attribute in which an injector names methods, each with the attribute. -/
def injectedValues (cx : Context) (use : Site) : List (Site × Site) :=
  if Mixin.injectors.any (cx.file.denotes use) then
    match use.attribute? "method" with
    | none => []
    | some attr =>
      match attr.lastExpression? with
      | none => []
      | some value => value.listed.map (attr, ·)
  else []

def injectTasks (cx : Context) (method : Site) : List MemberTask :=
  method.annotations.flatMap fun use =>
    (cx.injectedValues use).map fun v => .inject method use v.1 v.2

def tasks (cx : Context) (site : Site) : List MemberTask :=
  let methods := site.preorder.filter (·.kind == .methodDecl)
  methods.flatMap cx.accessTasks ++ methods.flatMap cx.injectTasks

theorem foldl_accessTasks (cx : Context) (target : MixinTarget) (method : Site) (d : Draft) :
    (cx.accessTasks method).foldl (MemberTask.run cx target) d =
      method.annotations.foldl (fun d use => cx.visitAccess target.renames d method use) d := by
  rw [accessTasks, List.foldl_filterMap]
  refine List.foldl_ext _ _ _ fun d use _ => ?_
  rw [visitAccess]
  cases cx.accessKind? use <;> rfl

theorem foldl_injectTasks (cx : Context) {target : MixinTarget} {decl : ClassDecl}
    (hdecl : target.decl? = some decl) (method : Site) (d : Draft) :
    (cx.injectTasks method).foldl (MemberTask.run cx target) d =
      method.annotations.foldl (cx.visitInjector target.renames decl) d := by
  rw [injectTasks, List.foldl_flatMap]
  refine List.foldl_ext _ _ _ fun d use _ => ?_
  have hrun (v : Site × Site) (d : Draft) : MemberTask.run cx target d (.inject method use v.1 v.2) =
      cx.renameInjected target.renames decl v.1 d v.2 := by
    rw [MemberTask.run, hdecl]
  rw [List.foldl_map, injectedValues, visitInjector]
  simp only [hrun]
  by_cases hinjector : Mixin.injectors.any (cx.file.denotes use) = true
  · rw [if_pos hinjector, if_pos hinjector]
    cases use.attribute? "method" with
    | none => rfl
    | some attr =>
      cases hvalue : attr.lastExpression? with
      | none => simp only [hvalue, List.foldl_nil]
      | some value => simp only [hvalue, List.foldl_map]
  · rw [if_neg hinjector, if_neg hinjector, List.foldl_nil]

def tasksFor (cx : Context) (site : Site) (target : MixinTarget) : List MemberTask :=
  (cx.tasks site).filter (·.concerns target)

theorem concerns_of_mem_accessTasks {task : MemberTask} {methods : List Site}
    (h : task ∈ methods.flatMap cx.accessTasks) (target : MixinTarget) :
    task.concerns target = (target.renames.hasFields || target.renames.hasMethods) := by
  obtain ⟨method, -, h⟩ := List.mem_flatMap.1 h
  obtain ⟨use, -, h⟩ := List.mem_filterMap.1 h
  obtain ⟨kind, -, rfl⟩ := Option.map_eq_some_iff.1 h
  rfl

theorem concerns_of_mem_injectTasks {task : MemberTask} {methods : List Site}
    (h : task ∈ methods.flatMap cx.injectTasks) (target : MixinTarget) :
    task.concerns target = (target.decl?.isSome && target.renames.hasMethods) := by
  obtain ⟨method, -, h⟩ := List.mem_flatMap.1 h
  obtain ⟨use, -, h⟩ := List.mem_flatMap.1 h
  obtain ⟨value, -, rfl⟩ := List.mem_map.1 h
  rfl

theorem renameMixinMembers_eq (cx : Context) (site : Site) (target : MixinTarget) (d : Draft) :
    cx.renameMixinMembers site target d =
      (cx.tasksFor site target).foldl (MemberTask.run cx target) d := by
  -- all accessors and invokers are of concern, or none, and so are all values of injectors
  have hfilter {ts : List MemberTask} {b : Bool} (h : ∀ t ∈ ts, t.concerns target = b) :
      ts.filter (·.concerns target) = if b then ts else [] := by
    cases b with
    | true => exact List.filter_eq_self.2 h
    | false => exact List.filter_eq_nil_iff.2 fun t ht => by rw [h t ht]; exact Bool.false_ne_true
  rw [tasksFor, tasks, List.filter_append, List.foldl_append,
    hfilter fun t ht => concerns_of_mem_accessTasks ht target,
    hfilter fun t ht => concerns_of_mem_injectTasks ht target]
  have haccesses : (if target.renames.hasFields || target.renames.hasMethods then
        cx.renameAccesses site target.renames d else d) =
      (if target.renames.hasFields || target.renames.hasMethods then
        (site.preorder.filter (·.kind == .methodDecl)).flatMap cx.accessTasks else []).foldl
          (MemberTask.run cx target) d := by
    split
    · rw [renameAccesses, List.foldl_flatMap]
      exact List.foldl_ext _ _ _ fun d method _ => (cx.foldl_accessTasks target method d).symm
    · rfl
  rw [← haccesses, renameMixinMembers]
  generalize (if target.renames.hasFields || target.renames.hasMethods then
    cx.renameAccesses site target.renames d else d) = d
  cases hdecl : target.decl? with
  | none => rfl
  | some decl =>
    simp only [Option.isSome_some, Bool.true_and]
    split
    · rw [renameInjectors, List.foldl_flatMap]
      exact List.foldl_ext _ _ _ fun d method _ => (cx.foldl_injectTasks hdecl method d).symm
    · rfl

/-! ### Classes -/

/-- The name and the target under which a mixin class is registered. -/
def registration? (cx : Context) (site : Site) : Option (String × MixinTarget) :=
  match cx.mixinUse? site with
  | none => none
  | some use =>
    match cx.declaredName? site, cx.target? use with
    | some name, some target => some (name, target)
    | _, _ => none

def register (cx : Context) (site : Site) : Context :=
  match cx.registration? site with
  | some (name, target) => { cx with mixins := cx.mixins.insert name target.renames }
  | none => cx

def pointSteps (cx : Context) : List MixinStep :=
  (cx.file.sites.filter fun use =>
    use.kind == .annotationUse && cx.file.denotes use Mixin.injectionPoint).map (.point cx)

def classSteps (cx : Context) (site : Site) : List MixinStep :=
  if (cx.mixinUse? site).isNone then []
  else
    cx.pointSteps ++
      match cx.registration? site with
      | none => []
      | some (_, target) =>
        (target.spelled?.map fun s => .spell s.1 s.2).toList ++
          (cx.tasksFor site target).map fun task =>
            .member (cx.register site) ⟨site, target, task⟩

def stepsFrom (cx : Context) : List Site → List MixinStep
  | [] => []
  | site :: sites => cx.classSteps site ++ (cx.register site).stepsFrom sites

def classSites (cx : Context) : List Site := cx.file.sites.filter (·.kind == .classDecl)

def mixinSteps (cx : Context) : List MixinStep := cx.stepsFrom cx.classSites

theorem foldl_pointSteps (cx : Context) (d : Draft) :
    cx.pointSteps.foldl MixinStep.run d = cx.renamePoints d := by
  rw [pointSteps, List.foldl_map]
  rfl

theorem foldl_spelled (target : MixinTarget) (d : Draft) :
    (target.spelled?.map fun s => MixinStep.spell s.1 s.2).toList.foldl MixinStep.run d =
      match target.spelled? with
      | some (span, new) => d.replaceFree span (Quoted.literal new)
      | none => d := by
  cases target.spelled? with
  | none => rfl
  | some spelled => rfl

theorem visitClass_eq (cx : Context) (site : Site) (d : Draft) :
    cx.visitClass site d = (cx.register site, (cx.classSteps site).foldl MixinStep.run d) := by
  rw [visitClass, classSteps, register, registration?]
  cases cx.mixinUse? site with
  | none => rfl
  | some use =>
    rw [if_neg (by simp), List.foldl_append, foldl_pointSteps]
    dsimp only
    cases cx.declaredName? site with
    | none => rfl
    | some name =>
      cases cx.target? use with
      | none => rfl
      | some target =>
        dsimp only
        rw [List.foldl_append, List.foldl_map, foldl_spelled, renameMixinMembers_eq]
        rfl

/-- **The pass takes its steps** one after the other. -/
theorem renameMixins_eq (cx : Context) (d : Draft) :
    (cx.renameMixins d).2 = cx.mixinSteps.foldl MixinStep.run d := by
  have hrow (sites : List Site) (cx : Context) (d : Draft) :
      (sites.foldl (fun state site => state.1.visitClass site state.2) (cx, d)).2 =
        (cx.stepsFrom sites).foldl MixinStep.run d := by
    induction sites generalizing cx d with
    | nil => rfl
    | cons site sites ih =>
      rw [List.foldl_cons, visitClass_eq, ih, stepsFrom, List.foldl_append]
  exact hrow cx.classSites cx d

/-- **The pass registers the classes** one after the other, whatever has been gathered. -/
theorem fst_renameMixins (cx : Context) (d : Draft) :
    (cx.renameMixins d).1 = cx.classSites.foldl register cx := by
  have hrow (sites : List Site) (cx : Context) (d : Draft) :
      (sites.foldl (fun state site => state.1.visitClass site state.2) (cx, d)).1 =
        sites.foldl register cx := by
    induction sites generalizing cx d with
    | nil => rfl
    | cons site sites ih => rw [List.foldl_cons, visitClass_eq, ih, List.foldl_cons]
  exact hrow cx.classSites cx d

theorem foldl_register_eq (cx : Context) (sites : List Site) :
    sites.foldl register cx = { cx with mixins := (sites.foldl register cx).mixins } := by
  induction sites generalizing cx with
  | nil => rfl
  | cons site sites ih =>
    have hsite : cx.register site = { cx with mixins := (cx.register site).mixins } := by
      rw [register]
      split
      · rfl
      · rfl
    rw [List.foldl_cons, ih, hsite]

/-! ### The work on members -/

def workFor (cx : Context) (site : Site) : List MemberWork :=
  match cx.registration? site with
  | none => []
  | some (_, target) => (cx.tasksFor site target).map (⟨site, target, ·⟩)

def memberWork (cx : Context) : List MemberWork := cx.classSites.flatMap cx.workFor

theorem workFor_register (cx : Context) (site other : Site) :
    (cx.register site).workFor other = cx.workFor other := by
  rw [register]
  split
  · rfl
  · rfl

theorem work_classSteps (cx : Context) (site : Site) :
    (cx.classSteps site).filterMap MixinStep.work? = cx.workFor site := by
  have hpoints : cx.pointSteps.filterMap MixinStep.work? = [] := by
    rw [pointSteps, List.filterMap_map]
    exact List.filterMap_eq_nil_iff.2 fun _ _ => rfl
  rw [classSteps, workFor]
  cases hreg : cx.registration? site with
  | none =>
    split
    · rfl
    · rw [List.filterMap_append, hpoints]
      rfl
  | some registered =>
    have huse : ¬ (cx.mixinUse? site).isNone = true := by
      intro hnone
      rw [registration?, Option.isNone_iff_eq_none.1 hnone] at hreg
      exact absurd hreg (by simp)
    have hspelled : (registered.2.spelled?.map fun s => MixinStep.spell s.1 s.2).toList.filterMap
        MixinStep.work? = [] := by
      cases registered.2.spelled? <;> rfl
    rw [if_neg huse, List.filterMap_append, hpoints, List.nil_append]
    dsimp only
    rw [List.filterMap_append, hspelled, List.nil_append, List.filterMap_map]
    exact congrFun List.filterMap_eq_map _

theorem work_mixinSteps (cx : Context) : cx.mixinSteps.filterMap MixinStep.work? = cx.memberWork := by
  have hrow (sites : List Site) (cx' : Context) (h : ∀ site, cx'.workFor site = cx.workFor site) :
      (cx'.stepsFrom sites).filterMap MixinStep.work? = sites.flatMap cx.workFor := by
    induction sites generalizing cx' with
    | nil => rfl
    | cons site sites ih =>
      rw [stepsFrom, List.filterMap_append, work_classSteps, h, List.flatMap_cons]
      rw [ih _ fun other => (cx'.workFor_register site other).trans (h other)]
  exact hrow cx.classSites cx fun _ => rfl

end Context

end SourceRename
