import Mathlib.Data.List.Induction
import SourceRename.Table

/-!
# Reading tables back

A table has a value under a key exactly if it lists the two together (`get?_eq_some_iff`).
Inserting under keys that are new and different lists the entries in the order of insertion
(`entries_foldl_insert`), so a table is rebuilt by inserting its own entries.  Where a key comes in
again, it keeps the place it first had (`keys_ofList`) and has the value it last had
(`get?_ofList`). -/

namespace SourceRename.Table

variable {κ ν : Type}

theorem eq_of_entries {s t : Table κ ν} (h : s.entries = t.entries) : s = t := by
  cases s
  cases t
  obtain rfl := h
  rfl

/-! ### Looking up -/

variable [DecidableEq κ] {key : κ} {value : ν}

theorem lookup_eq_none_iff {es : List (κ × ν)} :
    lookup key es = none ↔ key ∉ es.map Prod.fst := by
  induction es with
  | nil => simp [lookup]
  | cons e es ih =>
    rw [lookup, List.map_cons, List.mem_cons, not_or, ← ih]
    by_cases h : e.1 = key
    · simp [h]
    · simp [h, Ne.symm h]

theorem lookup_eq_some_iff {es : List (κ × ν)} (hnodup : (es.map Prod.fst).Nodup) :
    lookup key es = some value ↔ (key, value) ∈ es := by
  induction es with
  | nil => simp [lookup]
  | cons e es ih =>
    rw [List.map_cons, List.nodup_cons] at hnodup
    rw [lookup, List.mem_cons]
    by_cases h : e.1 = key
    · -- the key is not listed a second time
      have hrest : (key, value) ∉ es := fun hmem =>
        hnodup.1 (h ▸ List.mem_map_of_mem (f := Prod.fst) hmem)
      simp only [h, if_true, hrest, or_false, Option.some.injEq, Prod.ext_iff, true_and]
      exact eq_comm
    · have hne : (key, value) ≠ e := fun he => h (he ▸ rfl)
      simp only [h, if_false, hne, false_or, ih hnodup.2]

theorem get?_eq_some_iff {t : Table κ ν} : t.get? key = some value ↔ (key, value) ∈ t.entries :=
  lookup_eq_some_iff t.keys_nodup

theorem get?_eq_none_iff {t : Table κ ν} : t.get? key = none ↔ key ∉ t.keys :=
  lookup_eq_none_iff

/-! ### Inserting what is new -/

theorem mem_entries_insertEntry {es : List (κ × ν)} {e : κ × ν} (h : e ∈ insertEntry key value es) :
    e ∈ es ∨ e = (key, value) := by
  induction es with
  | nil => exact .inr (List.mem_singleton.1 h)
  | cons f es ih =>
    rw [insertEntry] at h
    split at h
    · rcases List.mem_cons.1 h with h | h
      · exact .inr h
      · exact .inl (List.mem_cons_of_mem f h)
    · rcases List.mem_cons.1 h with rfl | h
      · exact .inl List.mem_cons_self
      · exact (ih h).imp_left (List.mem_cons_of_mem f)

theorem mem_entries_insert {t : Table κ ν} {e : κ × ν} (h : e ∈ (t.insert key value).entries) :
    e ∈ t.entries ∨ e = (key, value) := mem_entries_insertEntry h

theorem insertEntry_of_fresh {es : List (κ × ν)} (h : key ∉ es.map Prod.fst) :
    insertEntry key value es = es ++ [(key, value)] := by
  induction es with
  | nil => rfl
  | cons e es ih =>
    rw [List.map_cons, List.mem_cons, not_or] at h
    rw [insertEntry, if_neg (Ne.symm h.1), ih h.2, List.cons_append]

theorem entries_insert_of_fresh {t : Table κ ν} (h : key ∉ t.keys) :
    (t.insert key value).entries = t.entries ++ [(key, value)] :=
  insertEntry_of_fresh h

variable {α : Type} {keyOf : α → κ} {valueOf : α → ν}

theorem entries_foldl_insert_of_fresh {t : Table κ ν} {xs : List α}
    (hnodup : (xs.map keyOf).Nodup) (hfresh : ∀ x ∈ xs, keyOf x ∉ t.keys) :
    (xs.foldl (fun t x => t.insert (keyOf x) (valueOf x)) t).entries =
      t.entries ++ xs.map fun x => (keyOf x, valueOf x) := by
  induction xs generalizing t with
  | nil => simp
  | cons x xs ih =>
    rw [List.map_cons, List.nodup_cons] at hnodup
    have hinsert : (t.insert (keyOf x) (valueOf x)).entries = t.entries ++ [(keyOf x, valueOf x)] :=
      entries_insert_of_fresh (hfresh x List.mem_cons_self)
    rw [List.foldl_cons, ih hnodup.2, hinsert, List.append_assoc, List.map_cons,
      List.singleton_append]
    intro y hy hmem
    rw [keys, hinsert, List.map_append, List.mem_append] at hmem
    rcases hmem with hmem | hmem
    · exact hfresh y (List.mem_cons_of_mem x hy) hmem
    · exact hnodup.1 (List.mem_map.2 ⟨y, hy, List.mem_singleton.1 hmem⟩)

theorem entries_foldl_insert {xs : List α} (hnodup : (xs.map keyOf).Nodup) :
    (xs.foldl (fun t x => t.insert (keyOf x) (valueOf x)) (empty : Table κ ν)).entries =
      xs.map fun x => (keyOf x, valueOf x) := by
  rw [entries_foldl_insert_of_fresh hnodup fun _ _ => List.not_mem_nil]
  rfl

/-! ### Inserting again -/

theorem keys_insertEntry_of_mem {es : List (κ × ν)} (h : key ∈ es.map Prod.fst) :
    (insertEntry key value es).map Prod.fst = es.map Prod.fst := by
  induction es with
  | nil => exact absurd h List.not_mem_nil
  | cons e es ih =>
    rw [insertEntry]
    by_cases he : e.1 = key
    · rw [if_pos he, List.map_cons, List.map_cons, he]
    · rw [if_neg he, List.map_cons, List.map_cons]
      rw [List.map_cons, List.mem_cons] at h
      rw [ih (h.resolve_left (Ne.symm he))]

/-- A key that is there keeps its place, and any other comes last. -/
theorem keys_insert (t : Table κ ν) (key : κ) (value : ν) :
    (t.insert key value).keys = if key ∈ t.keys then t.keys else t.keys ++ [key] := by
  by_cases h : key ∈ t.keys
  · rw [if_pos h]
    exact keys_insertEntry_of_mem h
  · rw [if_neg h, keys, entries_insert_of_fresh h, List.map_append]
    rfl

variable {es before behind : List (κ × ν)} {e : κ × ν}

theorem ofList_append_singleton (es : List (κ × ν)) (e : κ × ν) :
    ofList (es ++ [e]) = (ofList es).insert e.1 e.2 := by
  rw [ofList, insertAll, List.foldl_append]
  rfl

theorem keys_ofList (es : List (κ × ν)) : (ofList es).keys = (es.map Prod.fst).eraseDups := by
  induction es using List.reverseRecOn with
  | nil => rfl
  | append_singleton es e ih =>
    rw [ofList_append_singleton, keys_insert, ih, List.map_append, List.map_cons, List.map_nil,
      List.eraseDups_append]
    by_cases h : e.1 ∈ es.map Prod.fst
    · have hold : [e.1].removeAll (es.map Prod.fst) = [] := by simp [List.removeAll, h]
      rw [if_pos (List.mem_eraseDups.2 h), hold, List.eraseDups_nil, List.append_nil]
    · have hnew : [e.1].removeAll (es.map Prod.fst) = [e.1] := by simp [List.removeAll, h]
      rw [if_neg (fun hmem => h (List.mem_eraseDups.1 hmem)), hnew]
      rfl

theorem mem_of_mem_entries_ofList (h : e ∈ (ofList es).entries) : e ∈ es := by
  induction es using List.reverseRecOn with
  | nil => exact h
  | append_singleton es f ih =>
    rw [ofList_append_singleton] at h
    rcases mem_entries_insert h with h | h
    · exact List.mem_append_left [f] (ih h)
    · exact List.mem_append_right es (List.mem_singleton.2 h)

theorem entries_ofList (hnodup : (es.map Prod.fst).Nodup) : (ofList es).entries = es := by
  have hentries : (ofList es).entries = es.map fun e => (e.1, e.2) := entries_foldl_insert hnodup
  rw [hentries]
  exact List.map_id es

theorem exists_get?_ofList (h : (key, value) ∈ es) :
    ∃ found, (ofList es).get? key = some found ∧ (key, found) ∈ es := by
  have hkey : key ∈ (ofList es).keys := by
    rw [keys_ofList, List.mem_eraseDups]
    exact List.mem_map_of_mem h
  cases hfound : (ofList es).get? key with
  | none => exact absurd hkey (get?_eq_none_iff.1 hfound)
  | some found => exact ⟨found, rfl, mem_of_mem_entries_ofList (get?_eq_some_iff.1 hfound)⟩

/-- Of the values that come in under a key the last one stays. -/
theorem get?_ofList (es : List (κ × ν)) (key : κ) :
    (ofList es).get? key = ((es.filter (·.1 = key)).map Prod.snd).getLast? := by
  induction es using List.reverseRecOn with
  | nil => rfl
  | append_singleton es e ih =>
    rw [ofList_append_singleton, get?_insert, ih, List.filter_append, List.map_append]
    by_cases h : e.1 = key
    · simp [h]
    · simp [h, Ne.symm h]

theorem get?_ofList_of_last (h : key ∉ behind.map Prod.fst) :
    (ofList (before ++ (key, value) :: behind)).get? key = some value := by
  have hbehind : behind.filter (·.1 = key) = [] :=
    List.filter_eq_nil_iff.2 fun e he hkey => h (List.mem_map.2 ⟨e, he, of_decide_eq_true hkey⟩)
  simp [get?_ofList, List.filter_append, hbehind]

end SourceRename.Table
