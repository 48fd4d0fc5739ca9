/-
# The comparison of graphs, call by call

Two nodes can be compared by a recursion that takes a pair as equal from the moment it meets it
and hands the pairs that it has met on from each child to the next.  Here its calls go no deeper
than a given depth.  A call that makes further calls has met a pair for the first time, so a depth
greater than the number of all pairs is never used up, and then the recursion has the answer of
the comparison that keeps a list of what is still to be done.
-/

import WireSchema.Proofs.Store.Bisimulation

namespace WireSchema.Store

/-- Compare a pair of nodes with no more than `depth` calls inside each other.  The state is the
list of the pairs that have been met; the first difference ends everything. -/
def equivalentWithin (source target : Store) :
    Nat → Handle × Handle → StateT (List (Handle × Handle)) Option Bool
  | 0, _ => failure
  | depth + 1, pair => do
    let assumed ← get
    if assumed.contains pair then return true
    else do
      set (pair :: assumed)
      match source.node? pair.1, target.node? pair.2 with
      | some x, some y =>
        if x.kind = y.kind ∧ x.key.shape = y.key.shape then
          (x.children.zip y.children).allM (equivalentWithin source target depth)
        else return false
      | _, _ => return false

variable {source target : Store} {depth : Nat} {assumed assumed' pairs : List (Handle × Handle)}
variable {pair : Handle × Handle} {a b : Handle}

/-! ## One call -/

theorem kind_eq_of_shape_eq {x y : Node Name Handle} (h : x.key.shape = y.key.shape) :
    x.kind = y.kind := by
  rw [← Node.kind_key x, ← Node.kind_key y, ← Node.kind_shape x.key, h, Node.kind_shape]

theorem equivalentWithin_of_mem (h : pair ∈ assumed) :
    equivalentWithin source target (depth + 1) pair assumed = some (true, assumed) := by
  change (equivalentWithin source target (depth + 1) pair).run assumed = _
  simp [equivalentWithin, h]

theorem equivalentWithin_of_shape_eq {x y : Node Name Handle} (hseen : pair ∉ assumed)
    (hx : source.node? pair.1 = some x) (hy : target.node? pair.2 = some y)
    (hshape : x.key.shape = y.key.shape) :
    equivalentWithin source target (depth + 1) pair assumed =
      (x.children.zip y.children).allM (equivalentWithin source target depth)
        (pair :: assumed) := by
  change (equivalentWithin source target (depth + 1) pair).run assumed = StateT.run _ _
  simp [equivalentWithin, hseen, hx, hy, hshape, kind_eq_of_shape_eq hshape]

theorem equivalentWithin_of_shape_ne {x y : Node Name Handle} (hseen : pair ∉ assumed)
    (hx : source.node? pair.1 = some x) (hy : target.node? pair.2 = some y)
    (hshape : x.key.shape ≠ y.key.shape) :
    equivalentWithin source target (depth + 1) pair assumed = some (false, pair :: assumed) := by
  change (equivalentWithin source target (depth + 1) pair).run assumed = _
  simp [equivalentWithin, hseen, hx, hy, hshape]

theorem equivalentWithin_of_no_node (hseen : pair ∉ assumed)
    (hnone : ∀ x y, source.node? pair.1 = some x → target.node? pair.2 ≠ some y) :
    equivalentWithin source target (depth + 1) pair assumed = some (false, pair :: assumed) := by
  change (equivalentWithin source target (depth + 1) pair).run assumed = _
  cases hx : source.node? pair.1 with
  | none => simp [equivalentWithin, hseen, hx]
  | some x =>
      cases hy : target.node? pair.2 with
      | none => simp [equivalentWithin, hseen, hx, hy]
      | some y => exact (hnone x y hx hy).elim

/-! ## The recursion and the work list -/

/-- A run answers for the pairs as a work list that starts with them does: after a difference
there is nothing to do, and otherwise the rest is compared with what the run has met. -/
def AnswersFor (source target : Store) (assumed pairs : List (Handle × Handle))
    (run : StateT (List (Handle × Handle)) Option Bool) : Prop :=
  ∃ same met, run assumed = some (same, met) ∧ (∀ pair ∈ assumed, pair ∈ met) ∧
    ∀ work, equivalentFrom source target assumed (pairs ++ work) =
      (same && equivalentFrom source target met work)

/-- The first pair is compared first, and the others unless it differs. -/
theorem allM_cons (run : Handle × Handle → StateT (List (Handle × Handle)) Option Bool) :
    (pair :: pairs).allM run assumed = (run pair assumed).bind fun result =>
      if result.1 then pairs.allM run result.2 else some (false, result.2) := by
  refine congrArg (run pair assumed).bind (funext fun result => ?_)
  obtain ⟨same, met⟩ := result
  cases same <;> rfl

/-- If the run for each of the pairs answers for it, all of them in a row do, because no run
forgets what has been met before. -/
theorem answersFor_allM {run : Handle × Handle → StateT (List (Handle × Handle)) Option Bool}
    (h : ∀ pair ∈ pairs, ∀ met, (∀ other ∈ assumed, other ∈ met) →
      AnswersFor source target met [pair] (run pair)) :
    AnswersFor source target assumed pairs (pairs.allM run) := by
  induction pairs generalizing assumed with
  | nil => exact ⟨true, assumed, rfl, fun _ hmem => hmem, fun _ => rfl⟩
  | cons pair pairs ih =>
      obtain ⟨same, met, hrun, hmet, hwork⟩ := h pair List.mem_cons_self assumed fun _ hmem => hmem
      cases same with
      | false =>
          refine ⟨false, met, ?_, hmet, fun work => hwork (pairs ++ work)⟩
          rw [allM_cons, hrun]
          rfl
      | true =>
          have hrest : ∀ other ∈ pairs, ∀ met', (∀ p ∈ met, p ∈ met') →
              AnswersFor source target met' [other] (run other) := fun other hother met' hsub =>
            h other (List.mem_cons_of_mem _ hother) met' fun p hp => hsub p (hmet p hp)
          obtain ⟨same, met', hruns, hmet', hworks⟩ := ih hrest
          refine ⟨same, met', ?_, fun p hp => hmet' p (hmet p hp), fun work => ?_⟩
          · rw [allM_cons, hrun]
            exact hruns
          · rw [← hworks work]
            exact hwork (pairs ++ work)

/-- The recursion answers for every pair, if it may go deeper than the number of the pairs that
have not been met. -/
theorem answersFor_equivalentWithin
    (hdepth : unseen (pairsBelow source.size target.size) assumed < depth) :
    AnswersFor source target assumed [pair] (equivalentWithin source target depth pair) := by
  induction depth generalizing assumed pair with
  | zero => exact absurd hdepth (Nat.not_lt_zero _)
  | succ depth ih =>
      have hmet : ∀ other ∈ assumed, other ∈ pair :: assumed := fun _ => List.mem_cons_of_mem _
      by_cases hseen : pair ∈ assumed
      · refine ⟨true, assumed, equivalentWithin_of_mem hseen, fun _ hmem => hmem, fun work => ?_⟩
        rw [List.singleton_append, equivalentFrom, dif_pos hseen, Bool.true_and]
      by_cases hnodes : ∃ x y, source.node? pair.1 = some x ∧ target.node? pair.2 = some y
      · obtain ⟨x, y, hx, hy⟩ := hnodes
        by_cases hshape : x.key.shape = y.key.shape
        · have hmem : pair ∈ pairsBelow source.size target.size :=
            mem_pairsBelow (lt_size_of_node? hx) (lt_size_of_node? hy)
          have hless := unseen_cons_lt hmem hseen
          have hchildren : ∀ child ∈ x.children.zip y.children, ∀ met,
              (∀ other ∈ pair :: assumed, other ∈ met) →
                AnswersFor source target met [child] (equivalentWithin source target depth child) :=
            fun child _ met hsub => ih ((unseen_mono hsub).trans_lt (by omega))
          obtain ⟨same, met, hrun, hsub, hwork⟩ := answersFor_allM hchildren
          refine ⟨same, met, ?_, fun other hother => hsub other (hmet other hother), fun work => ?_⟩
          · rw [equivalentWithin_of_shape_eq hseen hx hy hshape, hrun]
          · rw [List.singleton_append, equivalentFrom_cons hseen hx hy, if_pos hshape, hwork work]
        · refine ⟨false, pair :: assumed, equivalentWithin_of_shape_ne hseen hx hy hshape, hmet,
            fun work => ?_⟩
          rw [List.singleton_append, equivalentFrom_cons hseen hx hy, if_neg hshape, Bool.false_and]
      · have hnone : ∀ x y, source.node? pair.1 = some x → target.node? pair.2 ≠ some y :=
          fun x y hx hy => hnodes ⟨x, y, hx, hy⟩
        refine ⟨false, pair :: assumed, equivalentWithin_of_no_node hseen hnone, hmet,
          fun work => ?_⟩
        rw [List.singleton_append, equivalentFrom_of_no_node hseen hnone, Bool.false_and]

theorem unseen_pairsBelow_nil (m n : Nat) : unseen (pairsBelow m n) [] = m * n := by
  simp [unseen, pairsBelow]

/-- With a depth greater than the number of all pairs the recursion has an answer, and it is that
of the comparison. -/
theorem exists_equivalentWithin (hdepth : source.size * target.size < depth) (a b : Handle) :
    ∃ met, equivalentWithin source target depth (a, b) [] =
      some (source.equivalent a target b, met) := by
  rw [← unseen_pairsBelow_nil] at hdepth
  have hanswers : AnswersFor source target [] [(a, b)]
      (equivalentWithin source target depth (a, b)) :=
    answersFor_equivalentWithin hdepth
  obtain ⟨same, met, hrun, -, hwork⟩ := hanswers
  have hsame : source.equivalent a target b = same := by
    rw [equivalent, ← List.append_nil [(a, b)], hwork [], equivalentFrom, Bool.and_true]
  exact ⟨met, hsame ▸ hrun⟩

/-! ## Bisimulations -/

/-- Related nodes are there, have the same kind, names up to case, flags and scalar types, and
their children are related in order. -/
def IsBisimulation (source target : Store) (R : Handle → Handle → Prop) : Prop :=
  ∀ a b, R a b → ∃ x y, source.node? a = some x ∧ target.node? b = some y ∧
    x.kind = y.kind ∧ x.key.shape = y.key.shape ∧ List.Forall₂ R x.children y.children

/-- Nodes describe the same graph exactly if a bisimulation relates them. -/
theorem bisimilar_iff_exists_isBisimulation :
    source.Bisimilar a target b ↔ ∃ R, IsBisimulation source target R ∧ R a b := by
  constructor
  · intro h
    refine ⟨fun a b => source.Bisimilar a target b, fun a b h => ?_, h⟩
    obtain ⟨x, y, hx, hy, hsimilar⟩ := h.unfold
    exact ⟨x, y, hx, hy, hsimilar.kind_eq, hsimilar.shape_eq, hsimilar.children⟩
  · rintro ⟨R, hR, h⟩
    refine Layering.Agree.of_closed (R := R) (fun a b h => ?_) h
    obtain ⟨x, y, hx, hy, -, hshape, hchildren⟩ := hR a b h
    refine ⟨x, y, hx, hy, hshape, ?_⟩
    rwa [Node.children_key, Node.children_key]

end WireSchema.Store
