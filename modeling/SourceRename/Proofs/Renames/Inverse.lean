import Mathlib.Data.List.Nodup
import SourceRename.Proofs.Renames.MethodType
import SourceRename.Proofs.Table
import SourceRename.Renames.Inverse

/-!
# Exchanging names twice

Exchanging old and new names twice gives the renames one began with, entry by entry, if nothing is
lost on the way (`Renames.inverse_inverse`).  Nothing is lost if new names are apart, and if a class
without a new name does not bear, in a descriptor, the new name of another (`Renames.Invertible`).
Chains are allowed, `a` to `b` and `b` to `c`.

The proof has two halves.  Where new names are apart, `inverse` lists the classes in their order,
each with its entries exchanged (`Renames.entries_inverse`).  And the exchanged class names turn the
descriptors back that the class names have changed (`Invertible.turnedBack`).
-/

namespace SourceRename

theorem Naming.internalName_eq_self {name : String} (h : '.' ∉ name.toList) :
    internalName name = name :=
  (replaceChar_eq_self_iff (by decide)).2 h

/-! ### One class -/

attribute [ext] ClassRename

namespace ClassRename

variable {r s : Renames} {c : ClassRename}

def exchange (r : Renames) (c : ClassRename) : ClassRename := c.addInverse r (.ofNames c.new c.old)

def exchangedKey (r : Renames) (e : MethodKey × String) : MethodKey :=
  ⟨e.2, e.1.descriptor.map r.renameDescriptor⟩

theorem foldl_addField (es : List (String × String)) (c : ClassRename) :
    es.foldl (fun t e => t.addField e.2 e.1) c =
      { c with fields := es.foldl (fun t e => t.insert e.2 e.1) c.fields } := by
  induction es generalizing c with
  | nil => rfl
  | cons e es ih => exact ih _

theorem foldl_addMethod (es : List (MethodKey × String)) (c : ClassRename) :
    es.foldl (fun t e => t.addMethod (exchangedKey r e) e.1.name) c =
      { c with methods := es.foldl (fun t e => t.insert (exchangedKey r e) e.1.name) c.methods } := by
  induction es generalizing c with
  | nil => rfl
  | cons e es ih => exact ih _

theorem exchange_eq (r : Renames) (c : ClassRename) : c.exchange r =
    ⟨Naming.internalName c.new, Naming.internalName c.old,
      c.fields.entries.foldl (fun t e => t.insert e.2 e.1) .empty,
      c.methods.entries.foldl (fun t e => t.insert (exchangedKey r e) e.1.name) .empty⟩ := by
  rw [exchange, addInverse, foldl_addField]
  exact foldl_addMethod c.methods.entries _

theorem old_exchange : (c.exchange r).old = Naming.internalName c.new := by rw [exchange_eq]

theorem new_exchange : (c.exchange r).new = Naming.internalName c.old := by rw [exchange_eq]

theorem entries_fields_exchange (h : c.fields.values.Nodup) :
    (c.exchange r).fields.entries = c.fields.entries.map fun e => (e.2, e.1) := by
  rw [exchange_eq]
  exact Table.entries_foldl_insert h

theorem entries_methods_exchange (h : (c.methods.entries.map (exchangedKey r)).Nodup) :
    (c.exchange r).methods.entries =
      c.methods.entries.map fun e => (exchangedKey r e, e.1.name) := by
  rw [exchange_eq]
  exact Table.entries_foldl_insert h

/-- The new names of fields are apart, and so are those of methods for one descriptor, and those of
methods without one. -/
structure Apart (c : ClassRename) : Prop where
  fields : c.fields.values.Nodup
  methods : (c.methods.entries.map fun e => MethodKey.mk e.2 e.1.descriptor).Nodup

/-- The second renames turn the descriptors of a class back that the first ones have changed. -/
def TurnedBack (r s : Renames) (c : ClassRename) : Prop :=
  ∀ e ∈ c.methods.entries, ∀ d, e.1.descriptor = some d →
    s.renameDescriptor (r.renameDescriptor d) = d

theorem TurnedBack.map_map (h : TurnedBack r s c) {e : MethodKey × String}
    (he : e ∈ c.methods.entries) :
    (e.1.descriptor.map r.renameDescriptor).map s.renameDescriptor = e.1.descriptor := by
  cases hd : e.1.descriptor with
  | none => rfl
  | some d => rw [Option.map_some, Option.map_some, h e he d hd]

theorem Apart.nodup_exchangedKey (hapart : c.Apart) (hback : TurnedBack r s c) :
    (c.methods.entries.map (exchangedKey r)).Nodup := by
  have hturned : (c.methods.entries.map (exchangedKey r)).map
      (fun k => MethodKey.mk k.name (k.descriptor.map s.renameDescriptor)) =
        c.methods.entries.map fun e => MethodKey.mk e.2 e.1.descriptor := by
    rw [List.map_map]
    refine List.map_congr_left fun e he => ?_
    show MethodKey.mk e.2 ((e.1.descriptor.map r.renameDescriptor).map s.renameDescriptor) = _
    rw [hback.map_map he]
  exact List.Nodup.of_map _ (hturned ▸ hapart.methods)

/-- **A class whose names are exchanged twice** is what it was. -/
theorem exchange_exchange (hapart : c.Apart) (hback : TurnedBack r s c)
    (hold : '.' ∉ c.old.toList) (hnew : '.' ∉ c.new.toList) : (c.exchange r).exchange s = c := by
  have hfields : (c.exchange r).fields.entries = c.fields.entries.map fun e => (e.2, e.1) :=
    entries_fields_exchange hapart.fields
  have hmethods := entries_methods_exchange (hapart.nodup_exchangedKey hback)
  -- exchanged again, the keys are those of the tables
  have hvalues : (c.exchange r).fields.values = c.fields.keys := by
    rw [Table.values, hfields, List.map_map]
    rfl
  have hkey : ∀ e ∈ c.methods.entries, exchangedKey s (exchangedKey r e, e.1.name) = e.1 :=
    fun e he => by rw [exchangedKey, exchangedKey, hback.map_map he]
  have hkeys : (c.exchange r).methods.entries.map (exchangedKey s) = c.methods.keys := by
    rw [hmethods, List.map_map]
    exact List.map_congr_left hkey
  have hfields' : ((c.exchange r).exchange s).fields = c.fields := by
    refine Table.eq_of_entries ?_
    rw [entries_fields_exchange (hvalues ▸ c.fields.keys_nodup), hfields, List.map_map]
    exact List.map_id _
  have hmethods' : ((c.exchange r).exchange s).methods = c.methods := by
    refine Table.eq_of_entries ?_
    rw [entries_methods_exchange (hkeys ▸ c.methods.keys_nodup), hmethods, List.map_map]
    refine (List.map_congr_left fun e he => ?_).trans (List.map_id _)
    exact Prod.ext (hkey e he) rfl
  have hold' : ((c.exchange r).exchange s).old = c.old := by
    rw [old_exchange, new_exchange, Naming.internalName_eq_self hold,
      Naming.internalName_eq_self hold]
  have hnew' : ((c.exchange r).exchange s).new = c.new := by
    rw [new_exchange, old_exchange, Naming.internalName_eq_self hnew,
      Naming.internalName_eq_self hnew]
  exact ClassRename.ext hold' hnew' hfields' hmethods'

end ClassRename

namespace Renames

variable {r s : Renames} {c : ClassRename}

/-! ### Tables of classes -/

def Keyed (r : Renames) : Prop := ∀ e ∈ r.classes.entries, e.1 = e.2.old

theorem keyed_empty : Keyed .empty := fun _ h => absurd h List.not_mem_nil

theorem find?_eq_some_iff (h : r.Keyed) {name : String} :
    r.find? name = some c ↔ c ∈ r.classes.values ∧ c.old = Naming.internalName name := by
  rw [find?, Table.get?_eq_some_iff, Table.values, List.mem_map]
  constructor
  · intro hmem
    exact ⟨⟨_, hmem, rfl⟩, (h _ hmem).symm⟩
  · rintro ⟨⟨e, he, rfl⟩, hname⟩
    rw [← hname, ← h e he]
    exact he

theorem Keyed.map_old (h : r.Keyed) : r.classes.values.map (·.old) = r.classes.keys := by
  rw [Table.values, Table.keys, List.map_map]
  exact List.map_congr_left fun e he => (h e he).symm

theorem Keyed.declare (h : r.Keyed) (old new : String) {edit : ClassRename → ClassRename}
    (hedit : ∀ c, (edit c).old = c.old) : (r.declare old new edit).Keyed := by
  have hentry : ((r.find? old).getD (.ofNames old new)).old = Naming.internalName old := by
    cases hclass : r.find? old with
    | none => rfl
    | some c => exact ((find?_eq_some_iff h).1 hclass).2
  intro e he
  rcases Table.mem_entries_insert he with he | he
  · exact h e he
  · rw [he]
    exact ((hedit { (r.find? old).getD (.ofNames old new) with
      new := Naming.internalName new }).trans hentry).symm

theorem find?_eq_none_of_fresh {name : String} (h : Naming.internalName name ∉ r.classes.keys) :
    r.find? name = none := Table.get?_eq_none_iff.2 h

theorem declare_of_fresh {old new : String} (edit : ClassRename → ClassRename)
    (h : Naming.internalName old ∉ r.classes.keys) : r.declare old new edit =
      ⟨r.classes.insert (Naming.internalName old) (edit (.ofNames old new))⟩ := by
  rw [declare, find?_eq_none_of_fresh h]
  rfl

/-- Where new names are apart, exchanging lists the classes in their order. -/
theorem entries_inverse (h : (r.classes.values.map fun c => Naming.internalName c.new).Nodup) :
    r.inverse.classes.entries =
      r.classes.values.map fun c => (Naming.internalName c.new, c.exchange r) := by
  have hrow (cs : List ClassRename) (s : Renames)
      (hnodup : (cs.map fun c => Naming.internalName c.new).Nodup)
      (hfresh : ∀ c ∈ cs, Naming.internalName c.new ∉ s.classes.keys) :
      (cs.foldl (fun s c => s.declare c.new c.old (c.addInverse r)) s).classes =
        cs.foldl (fun t c => t.insert (Naming.internalName c.new) (c.exchange r)) s.classes := by
    induction cs generalizing s with
    | nil => rfl
    | cons c cs ih =>
      rw [List.map_cons, List.nodup_cons] at hnodup
      rw [List.foldl_cons, declare_of_fresh _ (hfresh c List.mem_cons_self)]
      refine ih _ hnodup.2 fun d hd hmem => ?_
      rcases Table.mem_keys_insertEntry.1 hmem with hmem | hmem
      · exact hnodup.1 (List.mem_map.2 ⟨d, hd, hmem⟩)
      · exact hfresh d (List.mem_cons_of_mem c hd) hmem
  rw [inverse, hrow _ _ h fun _ _ => List.not_mem_nil]
  exact Table.entries_foldl_insert h

/-! ### Renames that can be exchanged -/

/-- The name has no dot, and none of the signs that end a class name or an argument list. -/
structure Plain (name : String) : Prop where
  no_dot : '.' ∉ name.toList
  no_end : ';' ∉ name.toList
  no_close : ')' ∉ name.toList

/-- Renames that lose nothing when they are exchanged. -/
structure Invertible (r : Renames) : Prop where
  keyed : r.Keyed
  old_plain : ∀ c ∈ r.classes.values, Plain c.old
  new_plain : ∀ c ∈ r.classes.values, Plain c.new
  classes_apart : (r.classes.values.map (·.new)).Nodup
  members_apart : ∀ c ∈ r.classes.values, c.Apart
  /-- Descriptors are well-formed, and a class in them that has no new name does not bear that of
  another. -/
  descriptors : ∀ c ∈ r.classes.values, ∀ e ∈ c.methods.entries, ∀ d, e.1.descriptor = some d →
    ∃ t : MethodType, t.text = d ∧
      ∀ name ∈ t.classNames, r.find? name = none → ∀ b ∈ r.classes.values, b.new ≠ name

namespace Invertible

variable (h : r.Invertible)
include h

theorem internal_old (hc : c ∈ r.classes.values) : Naming.internalName c.old = c.old :=
  Naming.internalName_eq_self (h.old_plain c hc).no_dot

theorem internal_new (hc : c ∈ r.classes.values) : Naming.internalName c.new = c.new :=
  Naming.internalName_eq_self (h.new_plain c hc).no_dot

theorem entries_inverse : r.inverse.classes.entries =
    r.classes.values.map fun c => (c.new, c.exchange r) := by
  have hnew : r.classes.values.map (fun c => Naming.internalName c.new) =
      r.classes.values.map (·.new) := List.map_congr_left fun c hc => h.internal_new hc
  rw [Renames.entries_inverse (hnew ▸ h.classes_apart)]
  exact List.map_congr_left fun c hc => by rw [h.internal_new hc]

theorem values_inverse : r.inverse.classes.values = r.classes.values.map (·.exchange r) := by
  rw [Table.values, h.entries_inverse, List.map_map]
  rfl

theorem keyed_inverse : r.inverse.Keyed := by
  intro e he
  rw [h.entries_inverse] at he
  obtain ⟨c, hc, rfl⟩ := List.mem_map.1 he
  rw [ClassRename.old_exchange, h.internal_new hc]

theorem find?_inverse (hc : c ∈ r.classes.values) :
    r.inverse.find? c.new = some (c.exchange r) := by
  rw [find?_eq_some_iff h.keyed_inverse, h.values_inverse]
  exact ⟨List.mem_map_of_mem hc, ClassRename.old_exchange⟩

/-- The name of a class is turned back, unless the class has none and bears that of another. -/
theorem className_inverse {name : String} (hdot : '.' ∉ name.toList)
    (hfree : r.find? name = none → ∀ b ∈ r.classes.values, b.new ≠ name) :
    r.inverse.className (r.className name) = name := by
  cases hclass : r.find? name with
  | some c =>
    obtain ⟨hc, hold⟩ := (find?_eq_some_iff h.keyed).1 hclass
    rw [className, className, hclass, Option.map_some, Option.getD_some, h.find?_inverse hc,
      Option.map_some, Option.getD_some, ClassRename.new_exchange, h.internal_old hc, hold,
      Naming.internalName_eq_self hdot]
  | none =>
    have hunknown : r.inverse.find? name = none := by
      refine find?_eq_none_of_fresh fun hmem => ?_
      rw [Table.keys, h.entries_inverse, List.map_map, Naming.internalName_eq_self hdot] at hmem
      obtain ⟨b, hb, hname⟩ := List.mem_map.1 hmem
      exact hfree hclass b hb hname
    rw [className, className, hclass, Option.map_none, Option.getD_none, hunknown]
    rfl

/-- **The exchanged class names turn descriptors back.** -/
theorem turnedBack (hc : c ∈ r.classes.values) : c.TurnedBack r r.inverse := by
  intro e he d hd
  obtain ⟨t, rfl, hfree⟩ := h.descriptors c hc e he d hd
  refine renameDescriptor_restores (fun name b hb => ?_) fun name hname => ?_
  · have hplain := h.new_plain b ((find?_eq_some_iff h.keyed).1 hb).1
    exact ⟨hplain.no_end, hplain.no_close⟩
  · have hdot : '.' ∉ name.toList := fun hmem =>
      t.dot_notMem_text ((infix_of_namesRead hname).subset hmem)
    refine h.className_inverse hdot fun hnone b hb => ?_
    rcases MethodType.named_text hname with hclass | hend
    · exact hfree name hclass hnone b hb
    · -- no class is called so
      rintro rfl
      exact (h.new_plain b hb).no_end hend

end Invertible

/-- **Exchanging old and new names twice** gives the renames one began with, and once exchanged, a
method is found by its new name and its descriptor in new names. -/
theorem inverse_inverse (h : r.Invertible) :
    r.inverse.inverse = r ∧
      ∀ c ∈ r.classes.values, ∀ e ∈ c.methods.entries, ∀ d, e.1.descriptor = some d →
        (r.inverse.find? c.new).bind (·.method? e.2 (r.renameDescriptor d)) = some e.1.name := by
  refine ⟨congrArg Renames.mk (Table.eq_of_entries ?_), fun c hc e he d hd => ?_⟩
  · have hnew : r.inverse.classes.values.map (fun c => Naming.internalName c.new) =
        r.classes.keys := by
      rw [h.values_inverse, List.map_map, ← h.keyed.map_old]
      refine List.map_congr_left fun c hc => ?_
      show Naming.internalName (c.exchange r).new = c.old
      rw [ClassRename.new_exchange, h.internal_old hc, h.internal_old hc]
    have htwice : ∀ c ∈ r.classes.values, (c.exchange r).exchange r.inverse = c := fun c hc =>
      ClassRename.exchange_exchange (h.members_apart c hc) (h.turnedBack hc)
        (h.old_plain c hc).no_dot (h.new_plain c hc).no_dot
    calc r.inverse.inverse.classes.entries
        = r.inverse.classes.values.map fun c =>
            (Naming.internalName c.new, c.exchange r.inverse) :=
          Renames.entries_inverse (hnew ▸ r.classes.keys_nodup)
      _ = r.classes.values.map fun c => (c.old, c) := by
          rw [h.values_inverse, List.map_map]
          refine List.map_congr_left fun c hc => ?_
          show (Naming.internalName (c.exchange r).new, (c.exchange r).exchange r.inverse) = _
          rw [ClassRename.new_exchange, h.internal_old hc, h.internal_old hc, htwice c hc]
      _ = r.classes.entries := by
          have hentry : ∀ e ∈ r.classes.entries, (e.2.old, e.2) = e := fun e he =>
            Prod.ext (h.keyed e he).symm rfl
          rw [Table.values, List.map_map]
          exact (List.map_congr_left hentry).trans (List.map_id _)
  · have hentry : (⟨e.2, some (r.renameDescriptor d)⟩, e.1.name) ∈
        (c.exchange r).methods.entries := by
      rw [ClassRename.entries_methods_exchange
        ((h.members_apart c hc).nodup_exchangedKey (h.turnedBack hc))]
      refine List.mem_map.2 ⟨e, he, ?_⟩
      rw [ClassRename.exchangedKey, hd]
      rfl
    rw [h.find?_inverse hc, Option.bind_some, ClassRename.method?,
      Table.get?_eq_some_iff.2 hentry, Option.some_or]

/-! ### A chain -/

/-- The class `a` becomes `b`, and `b` becomes `c`, while `x` stays.  Two methods of `a` get one
name. -/
def chain : Renames :=
  (Renames.empty.declare "a" "b" fun c =>
      ((c.addField "f" "g").addMethod ⟨"m", some "(La;[Lb;Lx;I)La;"⟩ "n").addMethod
        ⟨"k", some "(La;)V"⟩ "n").declare "b" "c" fun c => c.addMethod ⟨"m", none⟩ "n"

def chainStart : FieldType := .ofClass ⟨"a", by decide, by decide⟩

theorem plain_of_letter {name : String} (h : name ∈ ["a", "b", "c"]) : Plain name := by
  have hsigns : ∀ name ∈ ["a", "b", "c"],
      '.' ∉ name.toList ∧ ';' ∉ name.toList ∧ ')' ∉ name.toList := by decide
  obtain ⟨hdot, hend, hclose⟩ := hsigns name h
  exact ⟨hdot, hend, hclose⟩

theorem chain_invertible : chain.Invertible where
  keyed := by
    rw [chain]
    refine .declare (.declare keyed_empty _ _ ?_) _ _ ?_
    · exact fun _ => rfl
    · exact fun _ => rfl
  old_plain := by
    have hletter : ∀ c ∈ chain.classes.values, c.old ∈ ["a", "b", "c"] := by decide
    exact fun c hc => plain_of_letter (hletter c hc)
  new_plain := by
    have hletter : ∀ c ∈ chain.classes.values, c.new ∈ ["a", "b", "c"] := by decide
    exact fun c hc => plain_of_letter (hletter c hc)
  classes_apart := by decide
  members_apart := by
    have hfields : ∀ c ∈ chain.classes.values, c.fields.values.Nodup := by decide
    have hmethods : ∀ c ∈ chain.classes.values,
        (c.methods.entries.map fun e => MethodKey.mk e.2 e.1.descriptor).Nodup := by decide
    exact fun c hc => ⟨hfields c hc, hmethods c hc⟩
  descriptors := by
    have hwritten : ∀ c ∈ chain.classes.values, ∀ e ∈ c.methods.entries,
        e.1.descriptor = none ∨ e.1.descriptor = some "(La;[Lb;Lx;I)La;" ∨
          e.1.descriptor = some "(La;)V" := by decide
    intro c hc e he d hd
    rcases hwritten c hc e he with hnone | hlong | hshort
    · exact absurd (hnone.symm.trans hd) (by simp)
    · obtain rfl := Option.some.inj (hlong.symm.trans hd)
      exact ⟨⟨[chainStart, .array (.ofClass ⟨"b", by decide, by decide⟩),
        .ofClass ⟨"x", by decide, by decide⟩, .primitive .int], some chainStart⟩, by decide,
        by decide⟩
    · obtain rfl := Option.some.inj (hshort.symm.trans hd)
      exact ⟨⟨[chainStart], none⟩, by decide, by decide⟩

theorem chain_inverse : chain.Invertible ∧ chain.inverse.inverse = chain ∧
    (chain.inverse.find? "b").bind (·.method? "n" "(Lb;[Lc;Lx;I)Lb;") = some "m" := by
  obtain ⟨htwice, hfound⟩ := inverse_inverse chain_invertible
  have hrenamed : chain.renameDescriptor "(La;[Lb;Lx;I)La;" = "(Lb;[Lc;Lx;I)Lb;" := by decide
  exact ⟨chain_invertible, htwice, hrenamed ▸ hfound _ (.head _) _ (.head _) _ rfl⟩

end Renames

end SourceRename
