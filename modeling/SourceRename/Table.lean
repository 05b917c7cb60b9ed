/-!
# Tables that remember the order of insertion

A `Table` maps keys to values and lists its entries in the order in which the keys first came in.
Inserting a key again keeps its place and replaces the value.
-/

namespace SourceRename

/-- Entries with distinct keys, oldest first. -/
structure Table (κ : Type) (ν : Type) where
  entries : List (κ × ν)
  keys_nodup : (entries.map Prod.fst).Nodup

namespace Table

variable {κ ν : Type} [DecidableEq κ]

def empty : Table κ ν := ⟨[], List.nodup_nil⟩

instance : Inhabited (Table κ ν) := ⟨empty⟩

def size (t : Table κ ν) : Nat := t.entries.length

def isEmpty (t : Table κ ν) : Bool := t.entries.isEmpty

def keys (t : Table κ ν) : List κ := t.entries.map Prod.fst

def values (t : Table κ ν) : List ν := t.entries.map Prod.snd

/-- Puts a value under a key, in the place of the key if it is there, else at the end. -/
def insertEntry (key : κ) (value : ν) : List (κ × ν) → List (κ × ν)
  | [] => [(key, value)]
  | entry :: rest =>
    if entry.1 = key then (key, value) :: rest else entry :: insertEntry key value rest

def lookup (key : κ) : List (κ × ν) → Option ν
  | [] => none
  | entry :: rest => if entry.1 = key then some entry.2 else lookup key rest

theorem mem_keys_insertEntry {key k : κ} {value : ν} {es : List (κ × ν)} :
    k ∈ (insertEntry key value es).map Prod.fst ↔ k = key ∨ k ∈ es.map Prod.fst := by
  induction es with
  | nil => simp [insertEntry]
  | cons e es ih =>
    simp only [insertEntry]
    split
    · next h => subst h; simp
    · simp only [List.map_cons, List.mem_cons, ih]
      grind

theorem nodup_insertEntry {key : κ} {value : ν} {es : List (κ × ν)}
    (h : (es.map Prod.fst).Nodup) : ((insertEntry key value es).map Prod.fst).Nodup := by
  induction es with
  | nil => simp [insertEntry]
  | cons e es ih =>
    simp only [List.map_cons, List.nodup_cons] at h
    simp only [insertEntry]
    split
    · next he => subst he; simpa using h
    · next he =>
      simp only [List.map_cons, List.nodup_cons, mem_keys_insertEntry]
      exact ⟨fun hk => hk.elim he h.1, ih h.2⟩

def insert (t : Table κ ν) (key : κ) (value : ν) : Table κ ν :=
  ⟨insertEntry key value t.entries, nodup_insertEntry t.keys_nodup⟩

def get? (t : Table κ ν) (key : κ) : Option ν := lookup key t.entries

def contains (t : Table κ ν) (key : κ) : Bool := (t.get? key).isSome

def insertAll (t : Table κ ν) (es : List (κ × ν)) : Table κ ν :=
  es.foldl (fun t e => t.insert e.1 e.2) t

def ofList (es : List (κ × ν)) : Table κ ν := empty.insertAll es

/-- Both tables have the same keys with equal values, in whatever order. -/
def sameEntries (eq : ν → ν → Bool) (s t : Table κ ν) : Bool :=
  s.size == t.size && s.entries.all fun e => (t.get? e.1).any (eq e.2)

/-! ### Looking up what was inserted -/

theorem lookup_insertEntry {key k : κ} {value : ν} {es : List (κ × ν)} :
    lookup k (insertEntry key value es) = if k = key then some value else lookup k es := by
  induction es with
  | nil => simp only [insertEntry, lookup]; grind
  | cons e es ih =>
    simp only [insertEntry]
    split
    · next h => subst h; simp only [lookup]; grind
    · next h => simp only [lookup, ih]; grind

@[simp] theorem get?_empty (key : κ) : (empty : Table κ ν).get? key = none := rfl

theorem get?_insert (t : Table κ ν) (key k : κ) (value : ν) :
    (t.insert key value).get? k = if k = key then some value else t.get? k :=
  lookup_insertEntry

end Table

end SourceRename
