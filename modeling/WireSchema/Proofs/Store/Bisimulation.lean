/-
# The comparison of graphs is right

The comparison keeps a list of pairs that it takes as equal.  When it ends without
a difference, those pairs and the ones that it was asked for unfold into each
other, so they describe the same graph; and where two nodes describe the same
graph, it finds no difference.
-/

import WireSchema.Proofs.Node.Alike
import WireSchema.Proofs.Store.Slots

namespace WireSchema.Store

variable {source target : Store} {a b : Handle}

/-- The nodes describe the same graph: kinds, names up to case, flags and edges
agree all the way down, around cycles too. -/
def Bisimilar (source : Store) (a : Handle) (target : Store) (b : Handle) : Prop :=
  Layering.Agree source.node? target.node? a b

/-- Nodes of one shape have their children in pairs. -/
theorem similar_of_zip {R : Handle → Handle → Prop} {x y : Node Name Handle}
    (hshape : x.key.shape = y.key.shape)
    (h : ∀ pair ∈ x.children.zip y.children, R pair.1 pair.2) : x.Similar R y := by
  refine ⟨hshape, ?_⟩
  rw [Node.children_key, Node.children_key, List.forall₂_iff_zip]
  refine ⟨?_, fun {a b} hmem => h (a, b) hmem⟩
  have hchildren := congrArg (fun node => node.children.length) hshape
  simpa [Node.shape, Node.children_mapChildren] using hchildren

theorem mem_zip_of_similar {R : Handle → Handle → Prop} {x y : Node Name Handle}
    (h : x.Similar R y) : ∀ pair ∈ x.children.zip y.children, R pair.1 pair.2 :=
  fun _ hmem => (List.forall₂_iff_zip.1 h.children).2 hmem

/-- A pair that has not been met is compared by its own nodes first. -/
theorem equivalentFrom_cons {assumed work : List (Handle × Handle)} {pair : Handle × Handle}
    {x y : Node Name Handle} (hseen : pair ∉ assumed) (hx : source.node? pair.1 = some x)
    (hy : target.node? pair.2 = some y) :
    equivalentFrom source target assumed (pair :: work) =
      if x.key.shape = y.key.shape then
        equivalentFrom source target (pair :: assumed) (x.children.zip y.children ++ work)
      else false := by
  rw [equivalentFrom, dif_neg hseen]
  split
  next x' y' hx' hy' =>
    cases hx.symm.trans hx'
    cases hy.symm.trans hy'
    rfl
  next hnone => exact (hnone x y hx hy).elim

/-- A pair that has not been met and lacks a node on one side is a difference. -/
theorem equivalentFrom_of_no_node {assumed work : List (Handle × Handle)}
    {pair : Handle × Handle} (hseen : pair ∉ assumed)
    (hnone : ∀ x y, source.node? pair.1 = some x → target.node? pair.2 ≠ some y) :
    equivalentFrom source target assumed (pair :: work) = false := by
  rw [equivalentFrom, dif_neg hseen]
  split
  next x y hx hy => exact (hnone x y hx hy).elim
  next => rfl

/-- When no difference is found, the pairs of the work list belong to a set that
unfolds into itself but for the pairs that were taken as equal before. -/
theorem closed_of_equivalentFrom {assumed work : List (Handle × Handle)}
    (h : equivalentFrom source target assumed work = true) :
    ∃ found : List (Handle × Handle),
      (∀ pair ∈ assumed, pair ∈ found) ∧ (∀ pair ∈ work, pair ∈ found) ∧
        ∀ pair ∈ found, pair ∉ assumed →
          Layering.Match source.node? target.node? (fun a b => (a, b) ∈ found) pair.1 pair.2 := by
  induction assumed, work using equivalentFrom.induct source target with
  | case1 assumed => exact ⟨assumed, fun _ h => h, nofun, fun _ h hnot => absurd h hnot⟩
  | case2 assumed pair work hseen ih =>
      rw [equivalentFrom, dif_pos hseen] at h
      obtain ⟨found, hassumed, hwork, hclosed⟩ := ih h
      refine ⟨found, hassumed, fun other hother => ?_, hclosed⟩
      rcases List.mem_cons.1 hother with rfl | hother
      · exact hassumed _ hseen
      · exact hwork _ hother
  | case3 assumed pair work hseen x y hx hy hshape ih =>
      rw [equivalentFrom_cons hseen hx hy, if_pos hshape] at h
      obtain ⟨found, hassumed, hwork, hclosed⟩ := ih h
      have hpair : pair ∈ found := hassumed _ List.mem_cons_self
      refine ⟨found, fun other hother => hassumed _ (List.mem_cons_of_mem _ hother),
        fun other hother => ?_, fun other hother hnot => ?_⟩
      · rcases List.mem_cons.1 hother with rfl | hother
        · exact hpair
        · exact hwork _ (List.mem_append_right _ hother)
      · by_cases heq : other = pair
        · subst heq
          refine ⟨x, y, hx, hy, similar_of_zip hshape fun child hchild => ?_⟩
          exact hwork _ (List.mem_append_left _ hchild)
        · exact hclosed other hother fun hmem => (List.mem_cons.1 hmem).elim heq hnot
  | case4 assumed pair work hseen x y hx hy hshape =>
      rw [equivalentFrom_cons hseen hx hy, if_neg hshape] at h
      cases h
  | case5 assumed pair work hseen hnone =>
      rw [equivalentFrom_of_no_node hseen hnone] at h
      cases h

/-- Nodes that describe the same graph show no difference. -/
theorem equivalentFrom_of_bisimilar {assumed work : List (Handle × Handle)}
    (h : ∀ pair ∈ work, Bisimilar source pair.1 target pair.2) :
    equivalentFrom source target assumed work = true := by
  induction assumed, work using equivalentFrom.induct source target with
  | case1 assumed => rw [equivalentFrom]
  | case2 assumed pair work hseen ih =>
      rw [equivalentFrom, dif_pos hseen]
      exact ih fun other hother => h other (List.mem_cons_of_mem _ hother)
  | case3 assumed pair work hseen x y hx hy hshape ih =>
      rw [equivalentFrom_cons hseen hx hy, if_pos hshape]
      apply ih
      intro other hother
      rcases List.mem_append.1 hother with hother | hother
      · obtain ⟨x', y', hx', hy', hsimilar⟩ := (h pair List.mem_cons_self).unfold
        cases hx.symm.trans hx'
        cases hy.symm.trans hy'
        exact mem_zip_of_similar hsimilar other hother
      · exact h other (List.mem_cons_of_mem _ hother)
  | case4 assumed pair work hseen x y hx hy hshape =>
      obtain ⟨x', y', hx', hy', hsimilar⟩ := (h pair List.mem_cons_self).unfold
      cases hx.symm.trans hx'
      cases hy.symm.trans hy'
      exact absurd hsimilar.shape_eq hshape
  | case5 assumed pair work hseen hnone =>
      obtain ⟨x, y, hx, hy, -⟩ := (h pair List.mem_cons_self).unfold
      exact (hnone x y hx hy).elim

/-- Two nodes are found equivalent exactly if they describe the same graph. -/
theorem equivalent_eq_true_iff :
    source.equivalent a target b = true ↔ Bisimilar source a target b := by
  constructor
  · intro h
    obtain ⟨found, -, hwork, hclosed⟩ := closed_of_equivalentFrom h
    refine Layering.Agree.of_closed (R := fun a b => (a, b) ∈ found) (fun a b hmem => ?_)
      (hwork (a, b) List.mem_cons_self)
    exact hclosed (a, b) hmem List.not_mem_nil
  · intro h
    apply equivalentFrom_of_bisimilar
    intro pair hpair
    cases List.mem_singleton.1 hpair
    exact h

/-- What a search for an equivalent node finds is one of the candidates and
describes the same graph. -/
theorem bisimilar_of_firstEquivalent? {candidates : List (Handle × Node Name Handle)}
    (h : source.firstEquivalent? a target candidates = some b) :
    (∃ node, (b, node) ∈ candidates) ∧ Bisimilar source a target b := by
  rw [firstEquivalent?] at h
  split at h
  · cases h
  · refine ⟨?_, equivalent_eq_true_iff.1 (List.find?_some h)⟩
    obtain ⟨candidate, hcandidate, rfl⟩ := List.mem_map.1 (List.mem_of_find?_eq_some h)
    exact ⟨candidate.2, (List.mem_filter.1 hcandidate).1⟩

end WireSchema.Store
