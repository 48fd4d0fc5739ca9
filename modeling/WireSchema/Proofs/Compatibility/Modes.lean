/-
# Strict compatibility is lenient compatibility

Lenient mode takes other steps than strict mode: it skips fields, looks into nullable
readers, and leaves members of unions alone.  Each rule accepts under it whatever the
rule accepts in strict mode, and asks for no other pairs to do so, so the pairs that
strict mode visits carry the lenient verdict around every cycle.
-/

import WireSchema.Proofs.Catalog.Copy
import WireSchema.Proofs.Compatibility.Check

namespace WireSchema

namespace Compatibility

variable {R : Handle → Handle → Prop} {write : Handle}

/-- Fields that match exactly match where more is allowed. -/
theorem FieldsAccept.lenient {reads : List (Input Name Handle)} {writes : List (Member Name Handle)}
    (h : FieldsAccept true R reads writes) : FieldsAccept false R reads writes where
  shared := h.shared
  unwritten read hread hnone := absurd (h.unwritten read hread hnone).1 Bool.noConfusion
  known := nofun

/-- What strict mode accepts is accepted in lenient mode, for the same pairs below. -/
theorem Accepts.lenient {reader writer : Node Name Handle}
    (h : Accepts true R write reader writer) : Accepts false R write reader writer := by
  cases h with
  | primitive type => exact .primitive type
  | sameMembers hsame => exact .sameMembers hsame
  | empty => exact .empty
  | nullable hinner => exact .nullable hinner
  | list hitem => exact .list hitem
  | dictionary hkey hvalue => exact .dictionary hkey hvalue
  | record hfields => exact .record hfields.lenient
  | union hread _ => exact .union hread nofun
  -- What is left is accepted in lenient mode alone.
  | wider hlenient | moreMembers hlenient | emptyOfRecord hlenient | present hlenient
  | recordOfEmpty hlenient => cases hlenient

end Compatibility

namespace Store

open Compatibility

variable {store : Store} {R : Handle → Handle → Prop} {read write : Handle}

/-- A pair that passes in strict mode passes in lenient mode, by the same pairs. -/
theorem Passes.lenient (hregular : store.Regular) (h : store.Passes true R read write) :
    store.Passes false R read write := by
  rw [passes_iff hregular] at h ⊢
  obtain ⟨reader, writer, hreader, hwriter, haccepts⟩ := h
  exact ⟨reader, writer, hreader, hwriter, haccepts.lenient⟩

end Store

namespace Catalog

/-- What can be read in strict mode can be read in lenient mode. -/
theorem canRead_lenient {catalog : Catalog} {read write : Handle} (h : Reachable catalog)
    (hstrict : catalog.store.canRead true read write = true) :
    catalog.store.canRead false read write = true := by
  rw [Store.canRead_eq_true_iff] at hstrict ⊢
  obtain ⟨R, hR, hpair⟩ := hstrict
  exact ⟨R, fun read write hpair => (hR read write hpair).lenient h.sound.store.toRegular, hpair⟩

/-- A chain that refers to itself, read as it was written. -/
theorem canRead_lenient_chain : chainsCatalog.store.canRead true 2 0 = true ∧
    chainsCatalog.store.canRead false 2 0 = true := by
  have hstrict : chainsCatalog.store.canRead true 2 0 = true := by cbv
  exact ⟨hstrict, canRead_lenient reachable_chainsCatalog hstrict⟩

end Catalog

end WireSchema
