/-
# What a search has not seen

A search over a finite domain keeps a list of what it has seen and stops when
nothing new turns up.  The number of elements that it has not seen is the
measure by which it ends: seeing something new makes that number smaller, and
seeing more never makes it larger.
-/

namespace WireSchema

variable {α : Type} [DecidableEq α]

/-- How many entries of `domain` are not among those seen. -/
def unseen (domain seen : List α) : Nat :=
  domain.countP fun x => x ∉ seen

theorem unseen_cons (y : α) (ys seen : List α) :
    unseen (y :: ys) seen = unseen ys seen + if y ∈ seen then 0 else 1 := by
  by_cases h : y ∈ seen <;> simp [unseen, h]

theorem unseen_mono {domain seen seen' : List α} (hsub : ∀ x ∈ seen, x ∈ seen') :
    unseen domain seen' ≤ unseen domain seen := by
  refine List.countP_mono_left fun y _ hy => ?_
  simp only [decide_eq_true_eq] at hy ⊢
  exact fun h => hy (hsub y h)

theorem unseen_lt {domain seen seen' : List α} {x : α} (hmem : x ∈ domain)
    (hnew : x ∉ seen) (hx : x ∈ seen') (hsub : ∀ y ∈ seen, y ∈ seen') :
    unseen domain seen' < unseen domain seen := by
  induction domain with
  | nil => simp at hmem
  | cons y ys ih =>
    have hle : unseen ys seen' ≤ unseen ys seen := unseen_mono hsub
    rw [unseen_cons, unseen_cons]
    rcases List.mem_cons.1 hmem with rfl | hys
    · simp only [hnew, hx, if_true, if_false]
      omega
    · have hlt := ih hys
      by_cases hy : y ∈ seen
      · simp only [hy, hsub y hy, if_true]
        omega
      · simp only [hy, if_false]
        split <;> omega

theorem unseen_cons_le (domain seen : List α) (x : α) :
    unseen domain (x :: seen) ≤ unseen domain seen :=
  unseen_mono fun _ h => List.mem_cons_of_mem _ h

theorem unseen_cons_lt {domain seen : List α} {x : α} (hmem : x ∈ domain)
    (hnew : x ∉ seen) : unseen domain (x :: seen) < unseen domain seen :=
  unseen_lt hmem hnew List.mem_cons_self fun _ h => List.mem_cons_of_mem _ h

/-- All pairs of a number below `m` and a number below `n`. -/
def pairsBelow (m n : Nat) : List (Nat × Nat) :=
  (List.range m).flatMap fun a => (List.range n).map fun b => (a, b)

theorem mem_pairsBelow {m n a b : Nat} (ha : a < m) (hb : b < n) : (a, b) ∈ pairsBelow m n := by
  simp [pairsBelow, ha, hb]

end WireSchema
