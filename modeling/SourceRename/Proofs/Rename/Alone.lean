import SourceRename.Proofs.Rename.Visit

/-!
# What a node does by itself

`Context.alone cx site` is the draft in which nothing but one node has been renamed.  It lists one
replacement or none, and the problems of this node.  Renaming the node in any other draft of the
file adds just these, as long as the span of the replacement is free there and not listed
(`Context.renameSite_eq`).

The problems need an argument of their own because of symbols that are known by what they override:
which of the overridden symbols are tried, and so which problems are reported, depends on whether a
replacement was added (`Reports.orElse`).
-/

namespace SourceRename

/-- The span of the replacement, if there is one, is free and not listed. -/
def Draft.Awaits (d : Draft) (w : Option Edit) : Prop :=
  ∀ e, w = some e → d.isFree e.span = true ∧ d.edits.hasSpan e.span = false

/-- The step `f`, which queues the replacement `w`, reports the problems `ds` and refuses nothing,
wherever it can queue `w`. -/
structure Reports (text : String) (f : Draft → Draft) (w : Option Edit) (ds : List Diagnostic) :
    Prop where
  diagnostics : ∀ d, d.text = text → d.Awaits w → (f d).diagnostics = d.diagnostics ++ ds
  conflicts : ∀ d, (f d).conflicts = d.conflicts

def Quiet (f : Draft → Draft) : Prop :=
  ∀ d, (f d).diagnostics = d.diagnostics ∧ (f d).conflicts = d.conflicts

variable {site : Site} {text : String} {f g : Draft → Draft} {w v : Option Edit}
  {ds es : List Diagnostic}

theorem Quiet.reports (h : Quiet f) : Reports text f w [] where
  diagnostics d _ _ := by rw [(h d).1, List.append_nil]
  conflicts d := (h d).2

/-- One step after the other, the second one only where the first one adds no entry. -/
theorem Reports.orElse (hf : Queues site text f w) (hfr : Reports text f w ds)
    (hgr : Reports text g v es) :
    Reports text (fun d => if (f d).edits.size = d.edits.size then g (f d) else f d) (w.or v)
      (ds ++ if w.isSome then [] else es) where
  diagnostics d hd hwait := by
    cases w with
    | none =>
      have hedits := hf.nothing rfl d hd
      have hwait' : (f d).Awaits v := by
        intro e he
        rw [Draft.isFree, hedits]
        exact hwait e he
      have hnext := hgr.diagnostics (f d) ((hf.text_eq d).trans hd) hwait'
      simp only [hedits, if_pos]
      have hnone : d.Awaits none := fun e he => absurd he (by simp)
      rw [hnext, hfr.diagnostics d hd hnone, List.append_assoc]
      rfl
    | some e =>
      -- the first step adds an entry, so it is the last one
      obtain ⟨hfree, hnew⟩ := hwait e rfl
      have hsize : (f d).edits.size ≠ d.edits.size := by
        rw [hf.fresh e rfl d hd hfree hnew, Edits.size_queue_of_not_hasSpan hnew]
        omega
      rw [if_neg hsize, hfr.diagnostics d hd hwait]
      simp
  conflicts d := by
    split
    · rw [hgr.conflicts, hfr.conflicts]
    · exact hfr.conflicts d

namespace Context

variable {cx : Context}

/-! ### Problems of one symbol -/

theorem quiet_replace (span : Span) (new : String) : Quiet fun d => d.replace span new := by
  intro d
  simp only [Draft.replace]
  split
  · exact ⟨rfl, rfl⟩
  · exact ⟨rfl, rfl⟩

theorem quiet_id : Quiet fun d => d := fun _ => ⟨rfl, rfl⟩

theorem quiet_replaceName (site : Site) (old new : String) : Quiet (replaceName site old new) := by
  unfold replaceName
  cases nameToken? site old with
  | none => exact quiet_id
  | some token => exact quiet_replace token.span new

theorem quiet_renameQualified (cx : Context) (site : Site) (qualified lookup : String) :
    Quiet (cx.renameQualified site qualified lookup) := by
  unfold renameQualified
  cases cx.renames.find? lookup with
  | none => exact quiet_id
  | some c =>
    intro d
    dsimp only
    split
    · exact quiet_replace site.span _ d
    · split
      · split
        · exact quiet_replace _ _ d
        · exact ⟨rfl, rfl⟩
      · exact quiet_replaceName site _ _ d

theorem quiet_renameMethod (cx : Context) (site : Site) (m : Method) :
    Quiet (cx.renameMethod site m) := by
  intro d
  unfold renameMethod
  split
  · split
    · exact quiet_renameQualified cx site _ _ d
    · exact ⟨rfl, rfl⟩
  · split
    · exact ⟨rfl, rfl⟩
    · split
      · exact ⟨rfl, rfl⟩
      · split
        · exact quiet_replaceName site _ _ d
        · split
          · exact quiet_replace _ _ d
          · exact quiet_replaceName site _ _ d

theorem quiet_renameProperty (cx : Context) (site : Site) (getter : Method) :
    Quiet (cx.renameProperty site getter) := by
  intro d
  unfold renameProperty
  split
  · exact ⟨rfl, rfl⟩
  · split
    · exact ⟨rfl, rfl⟩
    · split
      · exact ⟨rfl, rfl⟩
      · exact quiet_replace _ _ d

/-- The problem with a field whose new name differs: it is used without a qualifier, where that is
forbidden. -/
def fieldProblems (cx : Context) (site : Site) (field : Field) (text : String) :
    List Diagnostic :=
  if (cx.fieldName? field).any (· ≠ field.name) && (cx.isImplicitUse site && cx.forbidImplicit) then
    [(Problem.implicitField field.name).locate text site.span.start]
  else []

theorem diagnostics_renameField (cx : Context) (site : Site) (field : Field) (d : Draft) :
    (cx.renameField site field d).diagnostics =
        d.diagnostics ++ cx.fieldProblems site field d.text ∧
      (cx.renameField site field d).conflicts = d.conflicts := by
  rw [renameField, fieldProblems]
  cases cx.fieldName? field with
  | none => simp
  | some new =>
    dsimp only
    by_cases hsame : new = field.name
    · simp [hsame]
    · obtain ⟨hdiagnostics, hconflicts⟩ := quiet_replaceName site field.name new d
      obtain ⟨w, hw⟩ := queues_replaceName site d.text field.name new
      rw [if_neg hsame]
      split
      · next hforbid => simp [Draft.report, hsame, hforbid, hdiagnostics, hconflicts, hw.text_eq]
      · next hforbid => simp [hsame, hforbid, hdiagnostics, hconflicts]

mutual

/-- **Renaming a node queues one replacement and reports the same problems everywhere.** -/
theorem exists_reports (hjava : cx.file.isKotlin = false) (site : Site) (text : String) :
    (symbol : Symbol) → ∃ w ds, Queues site text (cx.rename site symbol) w ∧
      Reports text (cx.rename site symbol) w ds
  | .field field => by
    obtain ⟨w, hw⟩ := exists_queues hjava site text (.field field)
    refine ⟨w, cx.fieldProblems site field text, hw, fun d hd _ => ?_, fun d => ?_⟩
    · rw [rename, (diagnostics_renameField cx site field d).1, hd]
    · rw [rename, (diagnostics_renameField cx site field d).2]
  | .method m => by
    obtain ⟨w, hw⟩ := exists_queues hjava site text (.method m)
    simp only [rename] at hw ⊢
    exact ⟨w, [], hw, (quiet_renameMethod cx site m).reports⟩
  | .function m => by
    obtain ⟨w, hw⟩ := exists_queues hjava site text (.function m)
    simp only [rename] at hw ⊢
    exact ⟨w, [], hw, (quiet_renameMethod cx site m).reports⟩
  | .classType name => by
    obtain ⟨w, hw⟩ := exists_queues hjava site text (.classType name)
    simp only [rename, renameClass] at hw ⊢
    exact ⟨w, [], hw, (quiet_renameQualified cx site _ _).reports⟩
  | .package name => by
    obtain ⟨w, hw⟩ := exists_queues hjava site text (.package name)
    simp only [rename] at hw ⊢
    exact ⟨w, [], hw, (quiet_renameQualified cx site _ _).reports⟩
  | .property getter => by
    obtain ⟨w, hw⟩ := exists_queues hjava site text (.property getter)
    simp only [rename] at hw ⊢
    exact ⟨w, [], hw, (quiet_renameProperty cx site getter).reports⟩
  | .compiled overridden => by
    simp only [rename]
    exact exists_reports_first hjava site text overridden

theorem exists_reports_first (hjava : cx.file.isKotlin = false) (site : Site) (text : String) :
    (symbols : List Symbol) → ∃ w ds, Queues site text (cx.renameFirst site symbols) w ∧
      Reports text (cx.renameFirst site symbols) w ds
  | [] => by
    have hnil : cx.renameFirst site [] = fun d => d := by
      funext d
      rw [renameFirst]
    obtain ⟨w, hw⟩ : ∃ w, Queues site text (fun d => d) w := queues_id
    rw [hnil]
    exact ⟨w, [], hw, quiet_id.reports⟩
  | symbol :: symbols => by
    obtain ⟨w, ds, hw, hr⟩ := exists_reports hjava site text symbol
    obtain ⟨v, es, hv, hs⟩ := exists_reports_first hjava site text symbols
    have hcons : cx.renameFirst site (symbol :: symbols) = fun d =>
        if (cx.rename site symbol d).edits.size = d.edits.size then
          cx.renameFirst site symbols (cx.rename site symbol d)
        else cx.rename site symbol d := by
      funext d
      rw [renameFirst]
    rw [hcons]
    exact ⟨_, _, hw.orElse hv, hr.orElse hw hs⟩

end

/-! ### A node by itself -/

/-- The draft in which nothing but one node has been renamed. -/
def alone (cx : Context) (site : Site) : Draft := cx.renameSite site (.ofText cx.file.text)

theorem alone_of_no_symbol (h : cx.file.symbol? site = none) :
    cx.alone site = .ofText cx.file.text := by
  rw [alone, renameSite, h]

theorem diagnostics_alone_field {field : Field} (h : cx.file.symbol? site = some (.field field)) :
    (cx.alone site).diagnostics = cx.fieldProblems site field cx.file.text := by
  rw [alone, renameSite, h]
  simp only [rename]
  exact (diagnostics_renameField cx site field _).1

/-- **A node does everywhere what it does by itself**, as long as the replacement can be queued. -/
theorem renameSite_eq (hjava : cx.file.isKotlin = false) (site : Site) : ∃ w : Option Edit,
    (cx.alone site).edits.toList = w.toList ∧ (∀ e, w = some e → site.Target e.span) ∧
    ∀ d, d.text = cx.file.text → d.Awaits w →
      (cx.renameSite site d).text = d.text ∧
      (cx.renameSite site d).edits.toList.Perm (w.toList ++ d.edits.toList) ∧
      (cx.renameSite site d).diagnostics = d.diagnostics ++ (cx.alone site).diagnostics ∧
      (cx.renameSite site d).conflicts = d.conflicts := by
  cases hsymbol : cx.file.symbol? site with
  | none =>
    rw [alone_of_no_symbol hsymbol]
    refine ⟨none, rfl, nofun, fun d _ _ => ?_⟩
    rw [renameSite, hsymbol]
    exact ⟨rfl, .refl _, (List.append_nil _).symm, rfl⟩
  | some symbol =>
    obtain ⟨w, ds, hw, hr⟩ := exists_reports hjava site cx.file.text symbol
    have hempty : (Draft.ofText cx.file.text).Awaits w := fun _ _ => ⟨Edits.isFree_empty _, rfl⟩
    have hedits : ∀ d, d.text = cx.file.text → d.Awaits w →
        (cx.rename site symbol d).edits.toList.Perm (w.toList ++ d.edits.toList) := by
      intro d hd hwait
      cases w with
      | none =>
        rw [hw.nothing rfl d hd]
        exact .refl _
      | some e =>
        obtain ⟨hfree, hnew⟩ := hwait e rfl
        rw [hw.fresh e rfl d hd hfree hnew]
        exact Edits.perm_queue hnew
    have hdiagnostics : (cx.alone site).diagnostics = ds := by
      rw [alone, renameSite, hsymbol]
      exact hr.diagnostics _ rfl hempty
    refine ⟨w, ?_, hw.target, fun d hd hwait => ?_⟩
    · rw [alone, renameSite, hsymbol]
      have hone := hedits (.ofText cx.file.text) rfl hempty
      rw [show (Draft.ofText cx.file.text).edits.toList = [] from rfl, List.append_nil] at hone
      cases w with
      | none => exact hone.eq_nil
      | some e => exact List.perm_singleton.1 hone
    · rw [renameSite, hsymbol, hdiagnostics]
      exact ⟨hw.text_eq d, hedits d hd hwait, hr.diagnostics d hd hwait, hr.conflicts d⟩

end Context

end SourceRename
