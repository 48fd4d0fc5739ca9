/-
# Stores under construction

Building a type, copying a graph and reading a document all work in the same way:
what is met again while it is open gets a slot at once, and the slot is filled
when what it is for is finished.  A scaffold is a store with the slots reserved so
far.  While it is valid, the slots without a node are exactly the reserved ones,
each for one open key, and a step only ever adds to it; that is what lets a part
of the construction be dropped again.
-/

import WireSchema.Proofs.Node.Recursion
import WireSchema.Proofs.Store.Grounded

namespace WireSchema.Store

/-- A store with the slots that are reserved for open keys. -/
structure Scaffold (κ : Type) where
  store : Store
  reserved : Table κ Handle

namespace Scaffold

variable {κ : Type} [DecidableEq κ]

/-- The slots without a node are reserved, each for one of the open keys. -/
structure Valid (opened : List κ) (scaffold : Scaffold κ) : Prop where
  regular : Regular scaffold.store
  is_open : ∀ {key slot}, scaffold.reserved.get? key = some slot → key ∈ opened
  lt_size : ∀ {key slot}, scaffold.reserved.get? key = some slot → slot < scaffold.store.size
  pending : ∀ {key slot}, scaffold.reserved.get? key = some slot →
    scaffold.store.node? slot = none
  covered : ∀ {slot}, slot < scaffold.store.size → scaffold.store.node? slot = none →
    ∃ key, scaffold.reserved.get? key = some slot
  injective : ∀ {key key' slot}, scaffold.reserved.get? key = some slot →
    scaffold.reserved.get? key' = some slot → key = key'

/-- What was there is still there, and what has been reserved since has a new slot. -/
structure Advances (before after : Scaffold κ) : Prop where
  grown : Extends before.store after.store
  kept : ∀ {key slot}, before.reserved.get? key = some slot →
    after.reserved.get? key = some slot
  fresh : ∀ {key slot}, after.reserved.get? key = some slot →
    before.reserved.get? key = some slot ∨ before.store.size ≤ slot

variable {opened : List κ} {key : κ} {slot : Handle} {node : Node Name Handle}
variable {before after scaffold : Scaffold κ}

namespace Advances

theorem refl (scaffold : Scaffold κ) : Advances scaffold scaffold :=
  ⟨Extends.refl _, fun h => h, .inl⟩

theorem trans {s t u : Scaffold κ} (h : Advances s t) (h' : Advances t u) : Advances s u where
  grown := h.grown.trans h'.grown
  kept hget := h'.kept (h.kept hget)
  fresh hget := by
    rcases h'.fresh hget with hget | hle
    · exact h.fresh hget
    · exact .inr (h.grown.size_le.trans hle)

/-- A step that touches the store alone. -/
theorem of_extends {store : Store} (h : Extends scaffold.store store) :
    Advances scaffold ⟨store, scaffold.reserved⟩ :=
  ⟨h, fun hget => hget, .inl⟩

/-- The slot of a key that was not reserved before is new. -/
theorem size_le_slot (h : Advances before after) (hbefore : before.reserved.get? key = none)
    (hslot : after.reserved.get? key = some slot) : before.store.size ≤ slot := by
  apply (h.fresh hslot).resolve_left
  intro hget
  rw [hbefore] at hget
  cases hget

end Advances

theorem Advances.reserve (hkey : scaffold.reserved.get? key = none) :
    Advances scaffold
      ⟨scaffold.store.reserve.2, scaffold.reserved.insert key scaffold.store.size⟩ where
  grown := extends_reserve _
  kept hget := by
    refine (Table.get?_insert_of_ne _ _ ?_).trans hget
    rintro rfl
    rw [hkey] at hget
    cases hget
  fresh hget := by
    rcases Table.get?_insert_eq_some_iff.1 hget with ⟨-, rfl⟩ | ⟨-, hget⟩
    · exact .inr (Nat.le_refl _)
    · exact .inl hget

namespace Valid

/-- Without open keys every slot has its node. -/
theorem exists_node? (h : Valid [] scaffold) (hlt : slot < scaffold.store.size) :
    ∃ node, scaffold.store.node? slot = some node := by
  cases hnode : scaffold.store.node? slot with
  | some node => exact ⟨node, rfl⟩
  | none =>
      obtain ⟨key, hkey⟩ := h.covered hlt hnode
      cases h.is_open hkey

/-- Without open keys nothing is reserved. -/
theorem get?_eq_none (h : Valid [] scaffold) (key : κ) : scaffold.reserved.get? key = none := by
  cases hget : scaffold.reserved.get? key with
  | none => rfl
  | some slot => cases h.is_open hget

theorem not_reserved (h : Valid opened scaffold) (hkey : key ∉ opened) :
    scaffold.reserved.get? key = none := by
  cases hget : scaffold.reserved.get? key with
  | none => rfl
  | some slot => exact absurd (h.is_open hget) hkey

/-- A sound store in which nothing is reserved. -/
theorem start (h : Sound scaffold.store)
    (hreserved : ∀ key, scaffold.reserved.get? key = none) : Valid opened scaffold where
  regular := h.toRegular
  is_open hget := by rw [hreserved] at hget; cases hget
  lt_size hget := by rw [hreserved] at hget; cases hget
  pending hget := by rw [hreserved] at hget; cases hget
  covered hlt hnone := by
    obtain ⟨node, hnode⟩ := h.filled hlt
    rw [hnone] at hnode
    cases hnode
  injective hget := by rw [hreserved] at hget; cases hget

theorem opening (h : Valid opened scaffold) (key : κ) : Valid (key :: opened) scaffold :=
  { h with is_open := fun hget => List.mem_cons_of_mem _ (h.is_open hget) }

/-- A key that has no slot can be closed. -/
theorem closing (h : Valid (key :: opened) scaffold) (hkey : scaffold.reserved.get? key = none) :
    Valid opened scaffold := by
  refine { h with is_open := fun {other slot} hget => ?_ }
  apply (List.mem_cons.1 (h.is_open hget)).resolve_left
  rintro rfl
  rw [hkey] at hget
  cases hget

/-- A step of the store that fills and reserves nothing. -/
theorem of_store {store : Store} (h : Valid opened scaffold) (hregular : Regular store)
    (hextends : Extends scaffold.store store)
    (hnone : ∀ slot, slot < store.size → store.node? slot = none →
      slot < scaffold.store.size ∧ scaffold.store.node? slot = none) :
    Valid opened ⟨store, scaffold.reserved⟩ where
  regular := hregular
  is_open := h.is_open
  lt_size hget := (h.lt_size hget).trans_le hextends.size_le
  pending hget := (hextends.node?_eq (h.lt_size hget)).trans (h.pending hget)
  covered hlt hnode := by
    obtain ⟨hlt', hnode'⟩ := hnone _ hlt hnode
    exact h.covered hlt' hnode'
  injective := h.injective

/-! ## Interning -/

theorem intern (h : Valid opened scaffold)
    (hchildren : ∀ child ∈ node.children, child < scaffold.store.size)
    (harranged : node.Arranged) :
    Valid opened ⟨(scaffold.store.intern node).2, scaffold.reserved⟩ :=
  h.of_store (h.regular.intern hchildren harranged) (extends_intern h.regular node)
    fun _ hlt hnone => node?_intern_eq_none h.regular hlt hnone

theorem remember (h : Valid opened scaffold) {handle : Handle}
    (hnode : scaffold.store.node? handle = some node) (direction : Direction) (type : TypeDef) :
    Valid opened ⟨scaffold.store.remember direction type handle, scaffold.reserved⟩ :=
  h.of_store (h.regular.remember hnode direction type) (extends_remember _ _ _ _)
    fun _ hlt hnone => ⟨hlt, hnone⟩

/-! ## Reserving -/

/-- The scaffold with a slot for the key. -/
theorem reserve (h : Valid opened scaffold) (hopen : key ∈ opened)
    (hkey : scaffold.reserved.get? key = none) :
    Valid opened ⟨scaffold.store.reserve.2, scaffold.reserved.insert key scaffold.store.size⟩ := by
  have hget : ∀ {other slot}, (scaffold.reserved.insert key scaffold.store.size).get? other =
      some slot → (other = key ∧ slot = scaffold.store.size) ∨
        (other ≠ key ∧ scaffold.reserved.get? other = some slot) :=
    Table.get?_insert_eq_some_iff.1
  refine ⟨h.regular.reserve, ?_, ?_, ?_, ?_, ?_⟩
  · intro other slot hslot
    rcases hget hslot with ⟨rfl, -⟩ | ⟨-, hslot⟩
    · exact hopen
    · exact h.is_open hslot
  · intro other slot hslot
    refine lt_of_lt_of_eq ?_ (size_reserve scaffold.store).symm
    rcases hget hslot with ⟨-, rfl⟩ | ⟨-, hslot⟩
    · exact Nat.lt_succ_self _
    · exact (h.lt_size hslot).trans (Nat.lt_succ_self _)
  · intro other slot hslot
    refine (node?_reserve scaffold.store slot).trans ?_
    rcases hget hslot with ⟨-, rfl⟩ | ⟨-, hslot⟩
    · exact node?_eq_none_of_le (Nat.le_refl _)
    · exact h.pending hslot
  · intro slot hlt hnone
    have hnone' : scaffold.store.node? slot = none :=
      (node?_reserve scaffold.store slot).symm.trans hnone
    have hle : slot < scaffold.store.size + 1 := hlt.trans_eq (size_reserve scaffold.store)
    rcases Nat.lt_or_eq_of_le (Nat.le_of_lt_succ hle) with hlt' | rfl
    · obtain ⟨other, hother⟩ := h.covered hlt' hnone'
      refine ⟨other, (Table.get?_insert_of_ne _ _ ?_).trans hother⟩
      rintro rfl
      rw [hkey] at hother
      cases hother
    · exact ⟨key, Table.get?_insert_self _ _ _⟩
  · intro other other' slot hslot hslot'
    rcases hget hslot with ⟨rfl, rfl⟩ | ⟨-, hslot⟩
    · rcases hget hslot' with ⟨rfl, -⟩ | ⟨-, hslot'⟩
      · rfl
      · exact absurd (h.lt_size hslot') (Nat.lt_irrefl _)
    · rcases hget hslot' with ⟨-, rfl⟩ | ⟨-, hslot'⟩
      · exact absurd (h.lt_size hslot) (Nat.lt_irrefl _)
      · exact h.injective hslot hslot'

/-! ## Filling -/

/-- A key whose slot is filled is closed. -/
theorem fill (h : Valid (key :: opened) scaffold) (hslot : scaffold.reserved.get? key = some slot)
    (hchildren : ∀ child ∈ node.children, child < scaffold.store.size)
    (harranged : node.Arranged) :
    Valid opened ⟨scaffold.store.fill slot node, scaffold.reserved.erase key⟩ := by
  have hlt := h.lt_size hslot
  have hget : ∀ {other other'}, (scaffold.reserved.erase key).get? other = some other' →
      other ≠ key ∧ scaffold.reserved.get? other = some other' :=
    Table.get?_erase_eq_some_iff.1
  refine ⟨h.regular.fill hlt (h.pending hslot) hchildren harranged, ?_, ?_, ?_, ?_, ?_⟩
  · intro other other' hother
    obtain ⟨hne, hother⟩ := hget hother
    exact (List.mem_cons.1 (h.is_open hother)).resolve_left hne
  · intro other other' hother
    exact (h.lt_size (hget hother).2).trans_eq (size_fill _ _ _).symm
  · intro other other' hother
    obtain ⟨hne, hold⟩ := hget hother
    refine (node?_fill hlt node other').trans ?_
    rw [if_neg, h.pending hold]
    rintro rfl
    exact hne (h.injective hold hslot)
  · intro other hother hnone
    have hnone' := (node?_fill hlt node other).symm.trans hnone
    split at hnone'
    · cases hnone'
    next hne =>
      obtain ⟨key', hkey'⟩ := h.covered (hother.trans_eq (size_fill _ _ _)) hnone'
      refine ⟨key', (Table.get?_erase_of_ne _ ?_).trans hkey'⟩
      rintro rfl
      rw [hslot] at hkey'
      exact hne (Option.some.inj hkey').symm
  · intro other other' slot' hother hother'
    exact h.injective (hget hother).2 (hget hother').2

end Valid

/-- Filling the slot of a key that was opened since is a step like any other. -/
theorem Advances.fill (h : Advances before after) (hafter : Valid opened after)
    (hbefore : before.reserved.get? key = none) (hslot : after.reserved.get? key = some slot)
    (node : Node Name Handle) :
    Advances before ⟨after.store.fill slot node, after.reserved.erase key⟩ where
  grown := h.grown.fill (h.size_le_slot hbefore hslot) (hafter.lt_size hslot) node
  kept hget := by
    refine (Table.get?_erase_of_ne _ ?_).trans (h.kept hget)
    rintro rfl
    rw [hbefore] at hget
    cases hget
  fresh hget := h.fresh (Table.get?_erase_eq_some_iff.1 hget).2

/-! ## Rolling back -/

theorem Advances.rollback (h : Advances before after) (hbefore : Valid opened before)
    (hafter : Valid opened after) :
    Advances before ⟨after.store.rollback before.store.size, after.reserved⟩ :=
  { h with grown := h.grown.rollback hbefore.regular hafter.regular }

/-- A part of the construction can be dropped if nothing is waiting for a slot in it. -/
theorem Valid.rollback (hafter : Valid opened after) (hbefore : Valid opened before)
    (h : Advances before after)
    (hold : ∀ {key slot}, after.reserved.get? key = some slot → slot < before.store.size) :
    Valid opened ⟨after.store.rollback before.store.size, after.reserved⟩ where
  regular := hafter.regular.rollback hbefore.regular h.grown
  is_open := hafter.is_open
  lt_size hget := (hold hget).trans_eq h.grown.size_rollback_eq.symm
  pending hget := by
    rw [node?_rollback, if_pos (hold hget)]
    exact hafter.pending hget
  covered {slot} hlt hnone := by
    have hlt' : slot < before.store.size := hlt.trans_eq h.grown.size_rollback_eq
    have hnone' := (h.grown.node?_rollback_eq slot).symm.trans hnone
    obtain ⟨key, hkey⟩ := hbefore.covered hlt' hnone'
    exact ⟨key, h.kept hkey⟩
  injective := hafter.injective

/-! ## What a handle stands for -/

section Depiction

variable {α : Type} {keys : α → κ → Prop} {f : Layering α} {a : α} {handle : Handle}

/-- The slot is reserved for a key of the point. -/
def Promised (keys : α → κ → Prop) (scaffold : Scaffold κ) (a : α) (slot : Handle) : Prop :=
  ∃ key, keys a key ∧ scaffold.reserved.get? key = some slot

/-- The handle leads to the graph of the point, as far as it has been built. -/
def Depicts (keys : α → κ → Prop) (f : Layering α) (scaffold : Scaffold κ) (a : α)
    (handle : Handle) : Prop :=
  Alike (Promised keys scaffold) f scaffold.store.node? a handle

theorem Depicts.lt_size (h : Depicts keys f scaffold a handle) (hvalid : Valid opened scaffold) :
    handle < scaffold.store.size := by
  rcases h.unfold with ⟨key, -, hget⟩ | ⟨x, y, -, hy, -⟩
  · exact hvalid.lt_size hget
  · exact lt_size_of_node? hy

/-- What a handle stands for does not change as the construction goes on. -/
theorem Depicts.advance (h : Depicts keys f before a handle) (hstep : Advances before after) :
    Depicts keys f after a handle :=
  h.mono (fun _ _ ⟨key, hkey, hget⟩ => ⟨key, hkey, hstep.kept hget⟩)
    fun _ _ hnode => hstep.grown.node?_of hnode

/-- What is added to a construction is not below what was there. -/
theorem Depicts.retreat (h : Depicts keys f after a handle) (hstep : Advances before after)
    (hregular : Regular before.store) (hlt : handle < before.store.size) :
    Depicts keys f before a handle := by
  apply h.restrict (P := (· < before.store.size)) hlt
  · rintro a slot hslot ⟨key, hkey, hget⟩
    exact ⟨key, hkey, (hstep.fresh hget).resolve_right (Nat.not_le_of_lt hslot)⟩
  · intro slot node hslot hnode
    have hnode' := (hstep.grown.node?_eq hslot).symm.trans hnode
    exact ⟨hnode', hregular.children_lt hnode'⟩

/-- Filling a slot with a node for its key keeps the promise. -/
theorem Depicts.fill (h : Depicts keys f scaffold a handle) (hvalid : Valid opened scaffold)
    (hslot : scaffold.reserved.get? key = some slot)
    (hnode : ∀ a, keys a key → ∃ x, f a = some x ∧ x.Similar (Depicts keys f scaffold) node) :
    Depicts keys f ⟨scaffold.store.fill slot node, scaffold.reserved.erase key⟩ a handle := by
  have hlt := hvalid.lt_size hslot
  apply Alike.keep h
  · rintro a other ⟨key', hkey, hget⟩
    by_cases heq : key' = key
    · subst heq
      cases hslot.symm.trans hget
      obtain ⟨x, hx, hsimilar⟩ := hnode a hkey
      exact .inr ⟨x, node, hx, node?_fill_self hlt node, hsimilar⟩
    · exact .inl ⟨key', hkey, (Table.get?_erase_of_ne _ heq).trans hget⟩
  · intro other found hfound
    exact node?_fill_of_eq_some hlt (hvalid.pending hslot) hfound node

/-- The children of a node for a point are in the store. -/
theorem lt_size_of_similar (hvalid : Valid opened scaffold) {x : Node Name α}
    (h : x.Similar (Depicts keys f scaffold) node) :
    ∀ child ∈ node.children, child < scaffold.store.size := by
  intro child hchild
  obtain ⟨a, -, ha⟩ := h.exists_left hchild
  exact ha.lt_size hvalid

/-- A handle for a point that is met again below itself leads to a graph that goes on for
ever, also while it is unfinished. -/
theorem Depicts.not_finite (h : Depicts keys f scaffold a handle) (hvalid : Valid opened scaffold)
    (hrecurs : f.Recurs a) : ¬ Layering.Finite scaffold.store.node? handle :=
  hrecurs.not_finite h fun _ _ ⟨_, _, hget⟩ => hvalid.pending hget

/-- The handle of an interned node for a point stands for the point. -/
theorem depicts_intern (hvalid : Valid opened scaffold) {x : Node Name α} (hx : f a = some x)
    (h : x.Similar (Depicts keys f scaffold) node) :
    Depicts keys f ⟨(scaffold.store.intern node).2, scaffold.reserved⟩ a
      (scaffold.store.intern node).1 := by
  obtain ⟨stored, hstored, hkey⟩ := exists_node?_intern hvalid.regular node
  have hstep : Advances scaffold ⟨(scaffold.store.intern node).2, scaffold.reserved⟩ :=
    Advances.of_extends (extends_intern hvalid.regular node)
  refine Alike.of_match ⟨x, stored, hx, hstored, ?_⟩
  exact (h.imp fun _ _ h => h.advance hstep).congr_key hkey

/-- When nothing is open, the whole graph is there. -/
theorem Depicts.agree (h : Depicts keys f scaffold a handle) (hvalid : Valid [] scaffold) :
    f.Agree scaffold.store.node? a handle := by
  refine h.mono ?_ fun _ _ hnode => hnode
  rintro a slot ⟨key, -, hget⟩
  rw [hvalid.get?_eq_none] at hget
  cases hget

end Depiction

end Scaffold

/-- The steps of every construction keep the property.  A slot is filled only with what is
met again below itself, and it is newer than the state in which the construction of its
node began. -/
structure Maintains (Keeps : Store → Prop) : Prop where
  reserve : ∀ {store : Store}, Keeps store → Keeps store.reserve.2
  intern : ∀ {store : Store} (node : Node Name Handle), store.Regular → Keeps store →
    Keeps (store.intern node).2
  fill : ∀ {before store : Store} {slot} (node : Node Name Handle), Keeps before →
    before.size ≤ slot → Keeps store → slot < store.size → store.node? slot = none →
      ¬ Layering.Finite (store.fill slot node).node? slot → Keeps (store.fill slot node)

theorem maintains_true : Maintains fun _ => True :=
  ⟨fun _ => trivial, fun _ _ _ => trivial, fun _ _ _ _ _ _ _ => trivial⟩

end WireSchema.Store
