/-
# Components leave no vertex out

Whatever the edges are, every vertex comes in exactly one component: the first pass
finishes every vertex, and the second only ever moves vertices from those not met to the
component at hand.
-/

import Mathlib.Data.List.Perm.Subperm
import WireSchema.Components

namespace WireSchema.Components

variable {α : Type} [DecidableEq α] {next previous : α → List α} {v : α}
variable {unmet stack found finished order : List α}

/-- Every vertex that is on the stack gets finished. -/
theorem mem_finish (h : v ∈ stack ∨ v ∈ finished) : v ∈ finish next unmet stack finished := by
  fun_induction finish next unmet stack finished with
  | case1 => exact h.resolve_left List.not_mem_nil
  | case2 unmet finished u stack hmem unmet' ih =>
      refine ih (h.imp_left fun hstack => ?_)
      exact List.mem_append_right _ hstack
  | case3 unmet finished u stack hmem ih =>
      apply ih
      rcases h with h | h
      · rcases List.mem_cons.1 h with rfl | h
        · right
          split
          · assumption
          · exact List.mem_cons_self
        · exact .inl h
      · right
        split
        · exact h
        · exact List.mem_cons_of_mem _ h

/-- Vertices are taken from those not met, each once. -/
theorem perm_reach (next : α → List α) (unmet stack found : List α) :
    ((reach next unmet stack found).1 ++ (reach next unmet stack found).2).Perm
      (found ++ unmet) := by
  fun_induction reach next unmet stack found with
  | case1 => exact .refl _
  | case2 unmet found u stack hmem ih =>
      apply ih.trans
      have hmiddle : (found ++ u :: unmet.erase u).Perm (u :: (found ++ unmet.erase u)) :=
        List.perm_middle
      exact hmiddle.symm.trans ((List.perm_cons_erase hmem).symm.append_left found)
  | case3 unmet found u stack hmem ih => exact ih

theorem mem_reach_of_mem (h : v ∈ found) : v ∈ (reach next unmet stack found).1 := by
  fun_induction reach next unmet stack found with
  | case1 => exact h
  | case2 unmet found u stack hmem ih => exact ih (List.mem_cons_of_mem _ h)
  | case3 unmet found u stack hmem ih => exact ih h

/-- What a vertex leads to has the vertex in it. -/
theorem mem_reach (h : v ∈ unmet) : v ∈ (reach next unmet [v] []).1 := by
  rw [reach, if_pos h]
  exact mem_reach_of_mem List.mem_cons_self

/-- No vertex is collected twice. -/
theorem subperm_collect (next : α → List α) (unmet order : List α) :
    ((collect next unmet order).flatten).Subperm unmet := by
  induction order generalizing unmet with
  | nil => exact List.nil_subperm
  | cons u order ih =>
      rw [collect]
      split
      next hmem =>
        have hperm := perm_reach next unmet [u] []
        rw [List.flatten_cons]
        exact ((List.subperm_append_left _).2 (ih _)).trans hperm.subperm
      next => exact ih unmet

/-- Every vertex is collected when its turn comes. -/
theorem mem_collect (h : v ∈ order) (hunmet : v ∈ unmet) :
    v ∈ (collect next unmet order).flatten := by
  induction order generalizing unmet with
  | nil => cases h
  | cons u order ih =>
      rw [collect]
      split
      next hmem =>
        have hperm := perm_reach next unmet [u] []
        rw [List.flatten_cons, List.mem_append]
        rcases List.mem_append.1 (hperm.mem_iff.2 hunmet) with hreach | hleft
        · exact .inl hreach
        · rcases List.mem_cons.1 h with rfl | h
          · exact .inl (mem_reach hmem)
          · exact .inr (ih h hleft)
      next hmem =>
        rcases List.mem_cons.1 h with rfl | h
        · exact absurd hunmet hmem
        · exact ih h hunmet

/-- The components are a partition of the vertices. -/
theorem perm_components (next previous : α → List α) {vertices : List α} (hnodup : vertices.Nodup) :
    (components vertices next previous).flatten.Perm vertices := by
  have hsubperm := subperm_collect next vertices (finish previous vertices vertices [])
  refine hsubperm.antisymm (List.subperm_of_subset hnodup fun v hv => ?_)
  exact mem_collect (mem_finish (.inl hv)) hv

end WireSchema.Components
