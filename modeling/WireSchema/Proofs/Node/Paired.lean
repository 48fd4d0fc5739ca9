/-
# Items in pairs

The parts of a node are in the order of their names, and what they stand for need not be.
So two lists are compared item by item in some order of one of them.
-/

import Mathlib.Data.List.Perm.Basic
import WireSchema.Proofs.Name.Order
import WireSchema.Proofs.Node.Lifting

namespace WireSchema

variable {α β γ : Type}

/-- The items correspond one to one, in some order. -/
def Paired (R : α → β → Prop) (xs : List α) (ys : List β) : Prop :=
  ∃ zs : List α, zs.Perm xs ∧ List.Forall₂ R zs ys

theorem Paired.exists_left {R : α → β → Prop} {xs : List α} {ys : List β} (h : Paired R xs ys)
    {y : β} (hy : y ∈ ys) : ∃ x ∈ xs, R x y := by
  obtain ⟨zs, hperm, hrel⟩ := h
  obtain ⟨x, hx, hR⟩ := Node.exists_left_of_forall₂ hrel hy
  exact ⟨x, hperm.mem_iff.1 hx, hR⟩

theorem Paired.exists_right {R : α → β → Prop} {xs : List α} {ys : List β} (h : Paired R xs ys)
    {x : α} (hx : x ∈ xs) : ∃ y ∈ ys, R x y := by
  obtain ⟨zs, hperm, hrel⟩ := h
  exact Node.exists_right_of_forall₂ hrel (hperm.mem_iff.2 hx)

/-- Items that correspond one by one are in pairs in whatever order. -/
theorem paired_of_perm {R : α → β → Prop} {xs xs' : List α} {ys ys' : List β}
    (h : List.Forall₂ R xs ys) (hxs : xs'.Perm xs) (hys : ys'.Perm ys) : Paired R xs' ys' := by
  obtain ⟨zs, hzs, hperm⟩ := List.perm_comp_forall₂ hys h.flip
  exact ⟨zs, hperm.trans hxs.symm, hzs.flip⟩

/-- Items in pairs correspond one by one when those on the other side are arranged. -/
theorem Paired.exists_perm {R : α → β → Prop} {xs : List α} {ys : List β} (h : Paired R xs ys) :
    ∃ zs, List.Forall₂ R xs zs ∧ zs.Perm ys := by
  obtain ⟨zs, hperm, hrel⟩ := h
  obtain ⟨ws, hws, hperm'⟩ := List.perm_comp_forall₂ hperm.symm hrel
  exact ⟨ws, hws, hperm'⟩

/-- What stands for items in pairs stands for the items that these are paired with. -/
theorem Paired.comp {P : α → γ → Prop} {Q : α → β → Prop} {as : List α} {bs : List β}
    {xs : List γ} (h : Paired P as xs) (hpairs : Paired Q as bs) :
    Paired (fun b x => ∃ a, Q a b ∧ P a x) bs xs := by
  obtain ⟨zs, hzs, hP⟩ := h
  obtain ⟨ws, hws, hQ⟩ := hpairs
  obtain ⟨vs, hvs, hperm⟩ := List.perm_comp_forall₂ (hzs.trans hws.symm) hQ
  exact ⟨vs, hperm, Node.forall₂_comp hvs.flip hP⟩

theorem Paired.imp {P Q : α → γ → Prop} {as : List α} {xs : List γ} (h : Paired P as xs)
    (himp : ∀ a x, P a x → Q a x) : Paired Q as xs := by
  obtain ⟨zs, hperm, hrel⟩ := h
  exact ⟨zs, hperm, hrel.imp himp⟩

/-- Sorting what stands for the items keeps the items paired. -/
theorem paired_of_sortBy {R : α → β → Prop} {S : γ → β → Prop} {nameOf : γ → Name}
    {f : α → γ} {xs : List α} {ys : List β}
    (h : List.Forall₂ S (Name.sortBy nameOf (xs.map f)) ys) (himp : ∀ x y, S (f x) y → R x y) :
    Paired R xs ys := by
  have hsort : (Name.sortBy (fun x => nameOf (f x)) xs).map f = Name.sortBy nameOf (xs.map f) :=
    Name.map_sortBy f (fun _ => rfl) xs
  rw [← hsort, List.forall₂_map_left_iff] at h
  exact ⟨_, Name.perm_sortBy _ xs, h.imp himp⟩

end WireSchema
