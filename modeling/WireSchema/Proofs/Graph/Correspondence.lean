/-
# Graphs that correspond

Where the nodes of two stores correspond one to one, following references from corresponding
roots discovers corresponding nodes and edges in the same order.  The search for components looks
at nothing else, so the components correspond, in the same order.  Within a component, though, the
nodes come in the order of their handles, which is another for each store.
-/

import WireSchema.Proofs.Graph.Nodes
import WireSchema.Proofs.Node.Paired
import WireSchema.Proofs.Store.Rendering

namespace WireSchema

/-! ## Lists of partners -/

section Lists

variable {α β : Type} [DecidableEq α] [DecidableEq β] {R : α → β → Prop} {a : α} {b : β}
variable {items : List α} {items' : List β}

theorem forall₂_erase (hR : Relator.BiUnique R) (hab : R a b) (h : List.Forall₂ R items items') :
    List.Forall₂ R (items.erase a) (items'.erase b) := by
  induction h with
  | nil => exact .nil
  | @cons x y items items' hxy h ih =>
      have hsame : (x == a) = (y == b) := by
        rw [Bool.eq_iff_iff, beq_iff_eq, beq_iff_eq]
        exact Relator.rel_eq hR hxy hab
      rw [List.erase_cons, List.erase_cons, hsame]
      split
      · exact h
      · exact .cons hxy ih

theorem forall₂_eraseDups (hR : Relator.BiUnique R) {items : List α} {items' : List β} :
    List.Forall₂ R items items' → List.Forall₂ R items.eraseDups items'.eraseDups
  | .nil => .nil
  | @List.Forall₂.cons _ _ _ x _ items _ hxy h => by
      have hshorter := List.length_filter_le (fun other => !other == x) items
      rw [List.eraseDups_cons, List.eraseDups_cons]
      refine .cons hxy (forall₂_eraseDups hR (List.rel_filter (fun u v huv => ?_) h))
      simp only [Bool.not_eq_true', beq_eq_false_iff_ne, ne_eq]
      exact not_congr (Relator.rel_eq hR huv hxy)
termination_by items.length
decreasing_by exact Nat.lt_succ_of_le hshorter

end Lists

namespace Components

variable {α β : Type} [DecidableEq α] [DecidableEq β] {R : α → β → Prop}
variable {next previous : α → List α} {next' previous' : β → List β}
variable {unmet stack finished found order : List α}
variable {unmet' stack' finished' found' order' : List β}
variable (hR : Relator.BiUnique R) (hnext : ∀ {a b}, R a b → List.Forall₂ R (next a) (next' b))

include hR hnext

/-- Partners are finished in the same order. -/
theorem forall₂_finish (hunmet : List.Forall₂ R unmet unmet') (hstack : List.Forall₂ R stack stack')
    (hfinished : List.Forall₂ R finished finished') :
    List.Forall₂ R (finish next unmet stack finished) (finish next' unmet' stack' finished') := by
  fun_induction finish next unmet stack finished generalizing unmet' stack' finished' with
  | case1 unmet finished =>
      cases hstack
      rw [finish]
      exact hfinished
  | case2 unmet finished v stack hmem left =>
      obtain _ | ⟨hvw, hstack⟩ := hstack
      next ih w stack' =>
        have hleft : List.Forall₂ R left (unmet'.erase w) := forall₂_erase hR hvw hunmet
        have hfresh : List.Forall₂ R ((next v).filter (· ∈ left))
            ((next' w).filter (· ∈ unmet'.erase w)) := by
          refine List.rel_filter (fun x y hxy => ?_) (hnext hvw)
          simpa only [decide_eq_true_eq] using List.rel_mem hR hxy hleft
        rw [finish, if_pos ((List.rel_mem hR hvw hunmet).1 hmem)]
        exact ih hleft (List.rel_append (List.rel_reverse hfresh) (.cons hvw hstack)) hfinished
  | case3 unmet finished v stack hmem ih =>
      obtain _ | ⟨hvw, hstack⟩ := hstack
      rw [finish, if_neg (mt (List.rel_mem hR hvw hunmet).2 hmem)]
      refine ih hunmet hstack ?_
      have hknown := List.rel_mem hR hvw hfinished
      split
      next hv => rwa [if_pos (hknown.1 hv)]
      next hv =>
        rw [if_neg (mt hknown.2 hv)]
        exact .cons hvw hfinished

/-- Partners are reached in the same order, and the others are left. -/
theorem forall₂_reach (hunmet : List.Forall₂ R unmet unmet') (hstack : List.Forall₂ R stack stack')
    (hfound : List.Forall₂ R found found') :
    List.Forall₂ R (reach next unmet stack found).1 (reach next' unmet' stack' found').1 ∧
      List.Forall₂ R (reach next unmet stack found).2 (reach next' unmet' stack' found').2 := by
  fun_induction reach next unmet stack found generalizing unmet' stack' found' with
  | case1 unmet found =>
      cases hstack
      rw [reach]
      exact ⟨hfound, hunmet⟩
  | case2 unmet found v stack hmem ih =>
      obtain _ | ⟨hvw, hstack⟩ := hstack
      rw [reach, if_pos ((List.rel_mem hR hvw hunmet).1 hmem)]
      exact ih (forall₂_erase hR hvw hunmet) (List.rel_append (hnext hvw) hstack) (.cons hvw hfound)
  | case3 unmet found v stack hmem ih =>
      obtain _ | ⟨hvw, hstack⟩ := hstack
      rw [reach, if_neg (mt (List.rel_mem hR hvw hunmet).2 hmem)]
      exact ih hunmet hstack hfound

theorem forall₂_collect (hunmet : List.Forall₂ R unmet unmet')
    (horder : List.Forall₂ R order order') :
    List.Forall₂ (List.Forall₂ R) (collect next unmet order) (collect next' unmet' order') := by
  induction horder generalizing unmet unmet' with
  | nil => exact .nil
  | @cons v w order order' hvw _ ih =>
      rw [collect, collect]
      have hmem := List.rel_mem hR hvw hunmet
      by_cases hv : v ∈ unmet
      · obtain ⟨hcomponent, hleft⟩ := forall₂_reach hR hnext hunmet (.cons hvw .nil) .nil
        rw [if_pos hv, if_pos (hmem.1 hv)]
        exact .cons hcomponent (ih hleft)
      · rw [if_neg hv, if_neg (mt hmem.2 hv)]
        exact ih hunmet

/-- Partners are in components that are found in the same order. -/
theorem forall₂_components {vertices : List α} {vertices' : List β}
    (hprevious : ∀ {a b}, R a b → List.Forall₂ R (previous a) (previous' b))
    (hvertices : List.Forall₂ R vertices vertices') :
    List.Forall₂ (List.Forall₂ R) (components vertices next previous)
      (components vertices' next' previous') :=
  forall₂_collect hR hnext hvertices (forall₂_finish hR hprevious hvertices hvertices .nil)

end Components

namespace Graph

variable {R : Handle → Handle → Prop} {a b : Handle} {graph graph' : Graph}

/-- The ends of the edges are partners. -/
def EdgesAlike (R : Handle → Handle → Prop) (edges edges' : List (Handle × Handle)) : Prop :=
  List.Forall₂ (fun edge edge' => R edge.1 edge'.1 ∧ R edge.2 edge'.2) edges edges'

theorem forall₂_outgoing (hR : Relator.BiUnique R) (h : EdgesAlike R graph.edges graph'.edges)
    (hab : R a b) : List.Forall₂ R (graph.outgoing a) (graph'.outgoing b) := by
  refine List.rel_reverse (List.rel_map (fun _ _ h => h.2) (List.rel_filter ?_ h))
  rintro edge edge' ⟨hfrom, -⟩
  simpa only [decide_eq_true_eq] using Relator.rel_eq hR hfrom hab

theorem forall₂_incoming (hR : Relator.BiUnique R) (h : EdgesAlike R graph.edges graph'.edges)
    (hab : R a b) : List.Forall₂ R (graph.incoming a) (graph'.incoming b) := by
  refine List.rel_reverse (List.rel_map (fun _ _ h => h.1) (List.rel_filter ?_ h))
  rintro edge edge' ⟨-, hto⟩
  simpa only [decide_eq_true_eq] using Relator.rel_eq hR hto hab

/-- Components correspond in order, but their nodes are sorted by handle. -/
theorem forall₂_components (hR : Relator.BiUnique R)
    (hnodes : List.Forall₂ R graph.nodes graph'.nodes)
    (hedges : EdgesAlike R graph.edges graph'.edges) :
    List.Forall₂ (Paired R) graph.components graph'.components := by
  rw [components, components, List.forall₂_map_left_iff, List.forall₂_map_right_iff]
  refine (Components.forall₂_components hR (forall₂_outgoing hR hedges)
    (forall₂_incoming hR hedges) hnodes).imp fun group group' hgroups => ?_
  exact paired_of_perm hgroups (List.mergeSort_perm group _) (List.mergeSort_perm group' _)

end Graph

namespace Store.Corresponds

open WireSchema.Graph (targets explore ofRoot EdgesAlike)

variable {source target : Store} {M : Handle → Handle → Prop} {a b : Handle}
variable {nodes nodes' pending pending' found found' : List Handle}
variable {edges edges' : List (Handle × Handle)}

theorem biUnique (h : source.Corresponds target M) : Relator.BiUnique (source.Numbered M) :=
  ⟨fun _ _ _ hx hy => (h.unique hx.1 hy.1 hx.2 hy.2).2 rfl,
    fun _ _ _ hx hy => (h.unique hx.1 hy.1 hx.2 hy.2).1 rfl⟩

theorem forall₂_targets (h : source.Corresponds target M) (hab : M a b)
    (hfound : targets source a = .ok found) (hfound' : targets target b = .ok found') :
    List.Forall₂ (source.Numbered M) found found' := by
  simp only [targets, bind, Except.bind] at hfound hfound'
  split at hfound <;> cases hfound
  next successors hsuccessors =>
    split at hfound' <;> cases hfound'
    next successors' hsuccessors' =>
      exact forall₂_eraseDups h.biUnique (h.forall₂_successors hab hsuccessors hsuccessors')

/-- Corresponding nodes and edges are discovered in the same order. -/
theorem forall₂_explore (h : source.Corresponds target M) {result result' : List Handle ×
      List (Handle × Handle)}
    (hnodes : List.Forall₂ (source.Numbered M) nodes nodes')
    (hedges : EdgesAlike (source.Numbered M) edges edges')
    (hpending : List.Forall₂ (source.Numbered M) pending pending')
    (hresult : explore source nodes edges pending = .ok result)
    (hresult' : explore target nodes' edges' pending' = .ok result') :
    List.Forall₂ (source.Numbered M) result.1 result'.1 ∧
      EdgesAlike (source.Numbered M) result.2 result'.2 := by
  induction nodes, edges, pending using WireSchema.Graph.explore.induct source
    generalizing nodes' edges' pending' with
  | case1 nodes edges =>
      cases hpending
      rw [explore] at hresult hresult'
      cases hresult
      cases hresult'
      exact ⟨hnodes, hedges⟩
  | case2 nodes edges a pending error herror =>
      obtain ⟨found, hfound, -⟩ := Graph.exists_targets_of_explore hresult
      cases herror.symm.trans hfound
  | case3 nodes edges a pending found hfound ih =>
      obtain _ | ⟨hab, hpending⟩ := hpending
      next b pending' =>
        obtain ⟨found', hfound', hresult'⟩ := Graph.exists_targets_of_explore hresult'
        rw [Graph.explore_cons hfound] at hresult
        have htargets := h.forall₂_targets hab.1 hfound hfound'
        have hfresh : List.Forall₂ (source.Numbered M) (found.filter (· ∉ nodes))
            (found'.filter (· ∉ nodes')) := by
          refine List.rel_filter (fun x y hxy => ?_) htargets
          simpa only [decide_eq_true_eq] using not_congr (List.rel_mem h.biUnique hxy hnodes)
        have hnew : EdgesAlike (source.Numbered M) (found.map (a, ·)) (found'.map (b, ·)) :=
          List.rel_map (fun _ _ hxy => ⟨hab, hxy⟩) htargets
        exact ih (List.rel_append hnodes hfresh) (List.rel_append hedges hnew)
          (List.rel_append (List.rel_reverse hfresh) hpending) hresult hresult'

/-- The components under corresponding roots correspond in order. -/
theorem forall₂_components (h : source.Corresponds target M) (hab : M a b) {graph graph' : Graph}
    (hgraph : ofRoot source a = .ok graph) (hgraph' : ofRoot target b = .ok graph') :
    List.Forall₂ (Paired (source.Numbered M)) graph.components graph'.components := by
  obtain ⟨nearest, hnearest, hresult⟩ := Graph.exists_explore_of_ofRoot hgraph
  obtain ⟨nearest', hnearest', hresult'⟩ := Graph.exists_explore_of_ofRoot hgraph'
  have hentry := forall₂_eraseDups h.biUnique (h.forall₂_nearest hab hnearest hnearest')
  obtain ⟨hnodes, hedges⟩ := h.forall₂_explore hentry .nil (List.rel_reverse hentry) hresult
    hresult'
  exact Graph.forall₂_components h.biUnique hnodes hedges

end Store.Corresponds

end WireSchema
