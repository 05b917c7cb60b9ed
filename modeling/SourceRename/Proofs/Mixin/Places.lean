import SourceRename.Proofs.Mixin.Innermost

/-!
# Where the mixin pass writes

What the pass replaces are whole nodes of the file, the literals that name something and the
arguments of accessors.  An accessor without arguments gets them behind its annotation
(`SourceFile.AtNode`). So this is said of each step on its own (`MixinStep.run_extends`), whatever
has been gathered before, and then of the pass, which takes one step after the other
(`Context.extends_renameMixins`). -/

namespace SourceRename

/-- The span is that of a node of the file, or the empty one behind it. -/
def SourceFile.AtNode (f : SourceFile) (s : Span) : Prop :=
  ∃ site ∈ f.sites, s = site.span ∨ s = .empty site.span.stop

namespace Draft

variable {d : Draft} {span : Span} {P : Edits → Span → Prop}

theorem extends_replaceFree (text : String) (h : P d.edits span) :
    d.Extends P (d.replaceFree span text) := by
  rw [replaceFree]
  split
  · exact .replace text h
  · exact .refl d

theorem extends_replaceLiteral (old new : String) (h : P d.edits span) :
    d.Extends P (d.replaceLiteral span old new) := by
  rw [replaceLiteral]
  split
  · exact .refl d
  · exact extends_replaceFree _ h

theorem Touches.extends {e : Draft} {span? : Option Span} {code : String}
    (h : d.Touches span? code e) : d.Extends (fun _ s => span? = some s) e := by
  refine ⟨h.text, ?_⟩
  rcases h.edits with hsame | ⟨span, text, hspan, hqueued⟩
  · rw [hsame]
    exact .refl _
  · rw [hqueued]
    exact .queue text (.refl _) hspan

end Draft

/-! ### Steps -/

namespace Context

def pointLiteral? (use : Site) : Option Site :=
  ((use.attribute? "target").bind Site.lastExpression?).bind Site.literal?

end Context

namespace MixinStep

def span? : MixinStep → Option Span
  | .point _ use => (Context.pointLiteral? use).map Site.span
  | .spell span _ => some span
  | .member cx work => work.task.span? cx

theorem run_extends (d : Draft) (step : MixinStep) :
    d.Extends (fun _ s => step.span? = some s) (step.run d) := by
  cases step with
  | point cx use =>
    rw [run, Context.visitPoint, span?, Context.pointLiteral?]
    split
    · exact .refl d
    · next literal hliteral =>
      split
      · exact .refl d
      · exact Draft.extends_replaceLiteral _ _ (by rw [hliteral]; rfl)
  | spell span new => exact Draft.extends_replaceFree _ rfl
  | member cx work => exact (work.task.run_touches cx work.target d).extends

end MixinStep

/-! ### Literals of a file -/

theorem Site.eq_of_literal? {value literal : Site} (h : value.literal? = some literal) :
    literal = value := by
  rw [literal?] at h
  split at h
  · exact (Option.some.inj h).symm
  · exact absurd h (by simp)

namespace SourceFile

variable {f : SourceFile} {site use value literal : Site}

theorem mem_of_attribute? {attr : Site} {name : String} (huse : use ∈ f.sites)
    (hattr : use.attribute? name = some attr) (h : attr.lastExpression? = some value) :
    value ∈ f.sites := by
  have hmem := mem_of_attributes huse (List.mem_of_find?_eq_some hattr)
  exact mem_of_nodes hmem (Site.mem_nodes_of_lastExpression? h)

theorem mem_of_listed (hsite : site ∈ f.sites) (h : value ∈ site.listed) : value ∈ f.sites := by
  rw [Site.listed] at h
  split at h
  · exact mem_of_nodes hsite (Site.mem_nodes_of_expressions h)
  · rwa [List.mem_singleton.1 h]

theorem mem_of_firstValue? (hsite : site ∈ f.sites) (h : site.firstValue? = some value) :
    value ∈ f.sites := by
  obtain ⟨expression, hexpression, h⟩ := Option.bind_eq_some_iff.1 h
  have hmem := mem_of_nodes hsite (Site.mem_nodes_of_lastExpression? hexpression)
  exact mem_of_listed hmem (List.mem_of_head? h)

theorem mem_of_pointLiteral? (huse : use ∈ f.sites)
    (h : Context.pointLiteral? use = some literal) : literal ∈ f.sites := by
  obtain ⟨value, h, hliteral⟩ := Option.bind_eq_some_iff.1 h
  obtain ⟨attr, hattr, hvalue⟩ := Option.bind_eq_some_iff.1 h
  rw [Site.eq_of_literal? hliteral]
  exact mem_of_attribute? huse hattr hvalue

end SourceFile

namespace Context

open SourceFile (mem_of_nodes mem_of_attributes mem_of_annotations mem_of_attribute? mem_of_listed
  mem_of_firstValue? mem_of_pointLiteral?)

variable {cx : Context} {site use value literal : Site} {target : MixinTarget} {step : MixinStep}
  {span : Span}

theorem mem_of_injectedLiteral? (hvalue : value ∈ cx.file.sites)
    (h : cx.injectedLiteral? value = some literal) : literal ∈ cx.file.sites := by
  rw [injectedLiteral?] at h
  split at h
  · obtain rfl := Option.some.inj h
    exact hvalue
  · split at h
    · split at h
      · obtain ⟨start, h, hliteral⟩ := Option.bind_eq_some_iff.1 h
        obtain ⟨field, hfield, hstart⟩ := Option.bind_eq_some_iff.1 h
        have hdeclared := List.mem_of_find?_eq_some (Option.filter_eq_some_iff.1 hfield).1
        rw [Site.eq_of_literal? hliteral]
        exact mem_of_nodes (List.mem_filter.1 hdeclared).1
          (Site.mem_nodes_of_lastExpression? hstart)
      · exact absurd h (by simp)
    · exact absurd h (by simp)

theorem target_of_registration? {name : String} (h : cx.registration? site = some (name, target)) :
    ∃ use, cx.mixinUse? site = some use ∧ cx.target? use = some target := by
  rw [registration?] at h
  split at h
  · exact absurd h (by simp)
  · next use huse =>
    split at h
    · next htarget =>
      obtain ⟨-, rfl⟩ := Prod.mk.inj (Option.some.inj h)
      exact ⟨use, huse, htarget⟩
    · exact absurd h (by simp)

theorem mem_of_spelled {new : String} (huse : use ∈ cx.file.sites)
    (htarget : cx.target? use = some target) (h : target.spelled? = some (span, new)) :
    ∃ literal ∈ cx.file.sites, span = literal.span := by
  rw [target?] at htarget
  split at htarget
  · rw [targetOfLiteral?] at htarget
    split at htarget
    · obtain ⟨r, -, rfl⟩ := Option.map_eq_some_iff.1 htarget
      exact absurd h (by simp)
    · exact absurd htarget (by simp)
  · obtain ⟨literal, hliteral, htarget⟩ := Option.bind_eq_some_iff.1 htarget
    obtain ⟨value, hvalue, hliteral⟩ := Option.bind_eq_some_iff.1 hliteral
    obtain ⟨attr, hattr, hvalue⟩ := Option.bind_eq_some_iff.1 hvalue
    obtain ⟨old, -, htarget⟩ := Option.bind_eq_some_iff.1 htarget
    obtain ⟨r, -, htarget⟩ := Option.bind_eq_some_iff.1 htarget
    obtain rfl := Option.some.inj htarget
    dsimp only at h
    split at h
    · exact absurd h (by simp)
    · obtain ⟨rfl, -⟩ := Prod.mk.inj (Option.some.inj h)
      have hmem := mem_of_attributes huse (List.mem_of_find?_eq_some hattr)
      exact ⟨literal, Site.eq_of_literal? hliteral ▸ mem_of_firstValue? hmem hvalue, rfl⟩

/-! ### The steps of the pass -/

theorem file_register (cx : Context) (site : Site) : (cx.register site).file = cx.file := by
  rw [register]
  split
  · rfl
  · rfl

theorem mem_of_injectedValues {attr : Site} (huse : use ∈ cx.file.sites)
    (h : (attr, value) ∈ cx.injectedValues use) : value ∈ cx.file.sites := by
  rw [injectedValues] at h
  split at h
  · split at h
    · exact absurd h List.not_mem_nil
    · next found hfound =>
      split at h
      · exact absurd h List.not_mem_nil
      · next expression hexpression =>
        obtain ⟨v, hv, heq⟩ := List.mem_map.1 h
        obtain ⟨-, rfl⟩ := Prod.mk.inj heq
        exact mem_of_listed (mem_of_attribute? huse hfound hexpression) hv
  · exact absurd h List.not_mem_nil

theorem atNode_of_mem_tasks {cx' : Context} {task : MemberTask} (hfile : cx'.file = cx.file)
    (hsite : site ∈ cx.file.sites) (htask : task ∈ cx.tasks site)
    (h : task.span? cx' = some span) : cx.file.AtNode span := by
  obtain ⟨hmethod, hdeclares⟩ := mem_tasks_iff.1 htask
  have hmethod := Site.preorder_trans hsite hmethod
  cases task with
  | access method use kind =>
    obtain ⟨-, huse, -⟩ := hdeclares
    have huse := mem_of_annotations hmethod huse
    obtain rfl := Option.some.inj h
    rw [argumentSpan]
    split
    · next args hargs =>
      exact ⟨args, mem_of_nodes huse (Site.mem_nodes_of_child? hargs), .inl rfl⟩
    · exact ⟨use, huse, .inr rfl⟩
  | inject method use attr value =>
    obtain ⟨-, huse, hvalue⟩ := hdeclares
    have huse := mem_of_annotations hmethod huse
    have hvalue : value ∈ cx'.file.sites := hfile ▸ mem_of_injectedValues huse hvalue
    obtain ⟨literal, hliteral, rfl⟩ := Option.map_eq_some_iff.1 h
    exact ⟨literal, hfile ▸ mem_of_injectedLiteral? hvalue hliteral, .inl rfl⟩

theorem atNode_of_mem_classSteps (hsite : site ∈ cx.file.sites) (hstep : step ∈ cx.classSteps site)
    (h : step.span? = some span) : cx.file.AtNode span := by
  rw [classSteps] at hstep
  split at hstep
  · exact absurd hstep List.not_mem_nil
  · rcases List.mem_append.1 hstep with hstep | hstep
    · obtain ⟨use, huse, rfl⟩ := List.mem_map.1 hstep
      obtain ⟨literal, hliteral, rfl⟩ := Option.map_eq_some_iff.1 h
      exact ⟨literal, mem_of_pointLiteral? (List.mem_filter.1 huse).1 hliteral, .inl rfl⟩
    · split at hstep
      · exact absurd hstep List.not_mem_nil
      · next name target hregistration =>
        rcases List.mem_append.1 hstep with hstep | hstep
        · obtain ⟨⟨spelled, new⟩, hspelled, rfl⟩ :=
            Option.map_eq_some_iff.1 (Option.mem_toList.1 hstep)
          obtain rfl := Option.some.inj h
          obtain ⟨use, hfound, htarget⟩ := target_of_registration? hregistration
          have huse := mem_of_annotations hsite (List.mem_of_find?_eq_some hfound)
          obtain ⟨literal, hliteral, hspan⟩ := mem_of_spelled huse htarget hspelled
          exact ⟨literal, hliteral, .inl hspan⟩
        · obtain ⟨task, htask, rfl⟩ := List.mem_map.1 hstep
          exact atNode_of_mem_tasks (cx.file_register site) hsite (List.mem_filter.1 htask).1 h

theorem atNode_of_mem_stepsFrom {sites : List Site} (hsites : ∀ s ∈ sites, s ∈ cx.file.sites)
    (hstep : step ∈ cx.stepsFrom sites) (h : step.span? = some span) : cx.file.AtNode span := by
  induction sites generalizing cx with
  | nil => exact absurd hstep List.not_mem_nil
  | cons site sites ih =>
    obtain ⟨hsite, hsites⟩ := List.forall_mem_cons.1 hsites
    rcases List.mem_append.1 hstep with hstep | hstep
    · exact atNode_of_mem_classSteps hsite hstep h
    · rw [← cx.file_register site] at hsites ⊢
      exact ih hsites hstep

/-- **Mixin classes keep the file and what is queued**, and replace nodes of the file. -/
theorem extends_renameMixins (cx : Context) (d : Draft) :
    (cx.renameMixins d).1.file = cx.file ∧
      d.Extends (fun _ s => cx.file.AtNode s) (cx.renameMixins d).2 := by
  constructor
  · rw [fst_renameMixins, foldl_register_eq]
  · rw [renameMixins_eq]
    refine .foldl (fun d step hstep => (step.run_extends d).mono fun _ s hs => ?_) d
    exact atNode_of_mem_stepsFrom (fun s hs => (List.mem_filter.1 hs).1) hstep hs

end Context

end SourceRename
