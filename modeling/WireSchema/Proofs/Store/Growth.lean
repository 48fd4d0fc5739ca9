/-
# What is added to a store

Building and copying add slots behind those that there are and entries in front of
those of the index, and they give no ids.  So what an operation has added can be
taken away again without a trace: rolling back to the old size gives the old store,
but for what has been remembered about types.
-/

import WireSchema.Proofs.Store.Scaffold

namespace WireSchema

namespace Table

variable {κ υ : Type} {t t' : Table κ υ}

/-- A table is determined by its bindings. -/
theorem eq_of_bindings_eq (h : t.bindings = t'.bindings) : t = t' := by
  cases t
  cases t'
  cases h
  rfl

/-- A table without values is the empty one. -/
theorem eq_empty [DecidableEq κ] (h : ∀ key, t.get? key = none) : t = .empty := by
  apply eq_of_bindings_eq
  refine List.eq_nil_iff_forall_not_mem.2 fun binding hmem => ?_
  have hget := (mem_bindings_iff _ binding.1 binding.2).1 hmem
  rw [h] at hget
  cases hget

/-- A filter that every value satisfies changes nothing. -/
theorem retain_eq_self {keep : υ → Bool} (h : ∀ binding ∈ t.bindings, keep binding.2 = true) :
    t.retain keep = t :=
  eq_of_bindings_eq (List.filter_eq_self.2 h)

/-- What has no value in a table that has all of another has none in that one. -/
theorem get?_eq_none_of_imp [DecidableEq κ] {key : κ}
    (h : ∀ {value}, t.get? key = some value → t'.get? key = some value)
    (hnone : t'.get? key = none) : t.get? key = none :=
  Option.eq_none_iff_forall_ne_some.2 fun _ hget => by
    cases (h hget).symm.trans hnone

/-- A table that has all of another goes on to have it when a key is added that is new to the
other. -/
theorem get?_insert_of_imp [DecidableEq κ] {key other : κ} {value found : υ}
    (h : t.get? other = some found → t'.get? other = some found) (hnew : t.get? key = none)
    (hget : t.get? other = some found) : (t'.insert key value).get? other = some found := by
  refine (get?_insert_of_ne _ _ ?_).trans (h hget)
  rintro rfl
  cases hnew.symm.trans hget

/-- A new key comes first. -/
theorem bindings_insert [DecidableEq κ] {key : κ} (h : t.get? key = none) (value : υ) :
    (t.insert key value).bindings = (key, value) :: t.bindings :=
  congrArg (fun rest : Table κ υ => (key, value) :: rest.bindings) (erase_eq_self h)

end Table

namespace Store

/-- The later store is the earlier one with slots, entries of the index and built types
added. -/
structure Grows (before after : Store) : Prop where
  size_le : before.size ≤ after.size
  slots : ∀ {handle}, handle < before.size → after.slots[handle]? = before.slots[handle]?
  index : ∃ more, after.index.bindings = more ++ before.index.bindings ∧
    ∀ binding ∈ more, before.size ≤ binding.2
  built_of : ∀ {entry handle}, before.built.get? entry = some handle →
    after.built.get? entry = some handle
  ids : after.ids = before.ids
  nextId : after.nextId = before.nextId

variable {store before after : Store} {handle slot mark : Handle} {node : Node Name Handle}

namespace Grows

theorem refl (store : Store) : Grows store store :=
  ⟨Nat.le_refl _, fun _ => rfl, ⟨[], rfl, nofun⟩, fun h => h, rfl, rfl⟩

theorem node?_eq (h : Grows before after) (hlt : handle < before.size) :
    after.node? handle = before.node? handle :=
  congrArg (Option.bind · Slot.node?) (h.slots hlt)

/-- What is not known about a type later was not known before. -/
theorem built_eq_none (h : Grows before after) {entry : Direction × TypeDef}
    (hnone : after.built.get? entry = none) : before.built.get? entry = none :=
  Table.get?_eq_none_of_imp h.built_of hnone

theorem reserve (h : Grows before after) : Grows before after.reserve.2 := by
  refine { h with size_le := ?_, slots := fun {other} hlt => ?_ }
  · rw [size_reserve]
    exact h.size_le.trans (Nat.le_succ _)
  · refine (slots_push after ⟨none, none⟩ other).trans ?_
    rw [if_neg (Nat.ne_of_lt (hlt.trans_le h.size_le))]
    exact h.slots hlt

/-- An entry that is put into the index under a new key stands in front of the others. -/
theorem index_insert (h : Grows before after) {key : Node String Handle}
    (hnew : after.index.get? key = none) (hle : before.size ≤ handle) :
    ∃ more, (after.index.insert key handle).bindings = more ++ before.index.bindings ∧
      ∀ binding ∈ more, before.size ≤ binding.2 := by
  obtain ⟨more, hmore, hlarge⟩ := h.index
  refine ⟨(key, handle) :: more, ?_, List.forall_mem_cons.2 ⟨hle, hlarge⟩⟩
  rw [Table.bindings_insert hnew, hmore, List.cons_append]

theorem intern (h : Grows before after) (hregular : Regular after) (node : Node Name Handle) :
    Grows before (after.intern node).2 := by
  rcases intern_cases hregular node with ⟨stored, -, -, heq⟩ | ⟨hnew, -, heq⟩
  · rw [heq]
    exact h
  · rw [heq]
    refine ⟨(h.size_le.trans (Nat.le_succ _)).trans_eq (size_push after _).symm,
      fun {other} hlt => ?_, h.index_insert hnew h.size_le, h.built_of, h.ids, h.nextId⟩
    refine (slots_push after ⟨some node, none⟩ other).trans ?_
    rw [if_neg (Nat.ne_of_lt (hlt.trans_le h.size_le))]
    exact h.slots hlt

theorem fill (h : Grows before after) (hslot : before.size ≤ slot) (node : Node Name Handle) :
    Grows before (after.fill slot node) := by
  refine ⟨h.size_le.trans_eq (size_fill _ _ _).symm, fun {other} hlt => ?_, ?_, h.built_of,
    h.ids, h.nextId⟩
  · refine Eq.trans ?_ (h.slots hlt)
    rw [Store.fill, Array.getElem?_modify, if_neg (Nat.ne_of_gt (hlt.trans_le hslot))]
  · rw [Store.fill, Table.insertIfNew]
    split
    · exact h.index
    next hnew =>
      exact h.index_insert
        ((Table.contains_eq_false_iff _ _).1 (Bool.eq_false_of_not_eq_true hnew)) hslot

theorem remember (h : Grows before after) {direction : Direction} {type : TypeDef}
    (hnew : before.built.get? (direction, type) = none) (handle : Handle) :
    Grows before (after.remember direction type handle) :=
  { h with built_of := Table.get?_insert_of_imp h.built_of hnew }

/-- What is not in the earlier store can be dropped. -/
theorem rollback (h : Grows before after) (hbefore : Regular before) (hmark : before.size ≤ mark) :
    Grows before (after.rollback mark) := by
  by_cases hle : after.size ≤ mark
  · rw [Store.rollback, if_pos hle]
    exact h
  obtain ⟨more, hmore, hlarge⟩ := h.index
  have hindex : ∀ binding ∈ before.index.bindings, decide (binding.2 < mark) = true := by
    intro binding hbinding
    have hget := (Table.mem_bindings_iff _ binding.1 binding.2).1 hbinding
    exact decide_eq_true ((hbefore.index_lt hget).trans_le hmark)
  have hids : ∀ binding ∈ before.ids.bindings, decide (binding.2 < mark) = true := by
    intro binding hbinding
    have hget := (Table.mem_bindings_iff _ binding.1 binding.2).1 hbinding
    exact decide_eq_true ((hbefore.ids_lt hget).trans_le hmark)
  refine ⟨?_, fun {other} hother => ?_, ⟨more.filter fun binding => binding.2 < mark, ?_, ?_⟩,
    fun {entry other} hget => ?_, ?_, ?_⟩
  · exact (le_min hmark h.size_le).trans_eq (size_rollback after mark).symm
  · rw [slots_rollback, if_pos (hother.trans_le hmark)]
    exact h.slots hother
  · rw [Store.rollback, if_neg hle]
    change after.index.bindings.filter _ = _
    rw [hmore, List.filter_append, List.filter_eq_self.2 hindex]
  · exact fun binding hbinding => hlarge binding (List.mem_filter.1 hbinding).1
  · rw [Store.rollback, if_neg hle]
    refine (Table.get?_retain_eq_some_iff _ _ _ _).2 ⟨h.built_of hget, decide_eq_true ?_⟩
    exact (hbefore.built_lt hget).trans_le hmark
  · rw [Store.rollback, if_neg hle]
    have hretain : before.ids.retain (fun other => decide (other < mark)) = before.ids :=
      Table.retain_eq_self hids
    exact (congrArg (Table.retain · _) h.ids).trans hretain
  · rw [Store.rollback, if_neg hle]
    exact h.nextId

/-- A regular store that has grown has the ids that there were, and no others. -/
theorem id?_eq_of_regular (h : Grows before after) (hbefore : Regular before)
    (hafter : Regular after) (handle : Handle) : after.id? handle = before.id? handle := by
  refine Option.ext fun id => ?_
  rw [← hafter.id_iff, ← hbefore.id_iff, h.ids]

/-- A store that has grown by nothing but built types. -/
theorem eq_of_size_le (h : Grows before after) (hafter : Regular after)
    (hsize : after.size ≤ before.size) : after = { before with built := after.built } := by
  obtain ⟨more, hmore, hlarge⟩ := h.index
  have hslots : after.slots = before.slots := by
    refine Array.ext_getElem? fun handle => ?_
    rcases Nat.lt_or_ge handle before.size with hlt | hle
    · exact h.slots hlt
    · rw [Array.getElem?_eq_none hle, Array.getElem?_eq_none (hsize.trans hle)]
  have hindex : after.index = before.index := by
    have hnil : more = [] := by
      refine List.eq_nil_iff_forall_not_mem.2 fun binding hbinding => ?_
      have hmem : (binding.1, binding.2) ∈ after.index.bindings :=
        hmore ▸ List.mem_append_left _ hbinding
      have hlt := hafter.index_lt ((Table.mem_bindings_iff _ _ _).1 hmem)
      exact Nat.lt_irrefl _ ((hlt.trans_le hsize).trans_le (hlarge binding hbinding))
    apply Table.eq_of_bindings_eq
    rw [hmore, hnil, List.nil_append]
  have hids := h.ids
  have hnext := h.nextId
  cases after
  cases hslots
  cases hindex
  cases hids
  cases hnext
  rfl

/-- Rolling back leaves the earlier store with the built types that are about its nodes. -/
theorem rollback_eq (h : Grows before after) (hbefore : Regular before) (hafter : Regular after)
    (hextends : Extends before after) : after.rollback before.size =
      { before with built := (after.rollback before.size).built } :=
  (h.rollback hbefore (Nat.le_refl _)).eq_of_size_le (hafter.rollback hbefore hextends)
    hextends.size_rollback_eq.le

end Grows

/-- Constructions only ever add to the store that they begin with. -/
theorem maintains_grows (base : Store) : Maintains base.Grows where
  reserve h := h.reserve
  intern node hregular h := h.intern hregular node
  fill node hbefore hslot h _ _ _ := h.fill (hbefore.size_le.trans hslot) node

end Store

end WireSchema
