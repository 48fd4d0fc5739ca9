/-
# Names in order

Arranging a node sorts its names by their lower-case forms and refuses a name
that comes twice.  What comes out is strictly increasing, and a list that is
strictly increasing already is left as it is.
-/

import Mathlib.Data.List.Forall2
import Mathlib.Data.List.Sort
import Mathlib.Data.String.Basic
import WireSchema.Node.Arrange

namespace WireSchema.Name

variable {α : Type}

/-- Every name comes before every later one. -/
def Increasing (names : List Name) : Prop :=
  names.Pairwise fun a b => a.folded < b.folded

theorem increasing_nil : Increasing [] :=
  List.Pairwise.nil

/-- No two names of an increasing list are the same. -/
theorem Increasing.nodup {names : List Name} (h : Increasing names) :
    (names.map folded).Nodup := by
  rw [List.nodup_iff_pairwise_ne, List.pairwise_map]
  exact h.imp fun hlt => ne_of_lt hlt

theorem Increasing.tail {name : Name} {names : List Name} (h : Increasing (name :: names)) :
    Increasing names :=
  (List.pairwise_cons.1 h).2

/-- In an increasing list a name is found once. -/
theorem Increasing.eq_of_folded_eq {items : List α} {nameOf : α → Name}
    (h : Increasing (items.map nameOf)) {x y : α} (hx : x ∈ items) (hy : y ∈ items)
    (heq : (nameOf x).folded = (nameOf y).folded) : x = y := by
  have hnodup := h.nodup
  rw [List.map_map] at hnodup
  exact List.inj_on_of_nodup_map hnodup hx hy heq

theorem lt_of_compare {a b : Name} (h : a.compare b = .lt) : a.folded < b.folded :=
  compareOfLessAndEq_eq_lt.1 h

theorem folded_eq_of_compare {a b : Name} (h : a.compare b = .eq) : a.folded = b.folded :=
  (compareOfLessAndEq_eq_eq le_refl not_le).1 h

theorem gt_of_compare {a b : Name} (h : a.compare b = .gt) : b.folded < a.folded :=
  (compareOfLessAndEq_eq_gt le_antisymm le_total not_le _ _).1 h

/-- Increasing lists of the same names are the same up to case. -/
theorem Increasing.map_folded_eq_iff {names names' : List Name} (h : Increasing names)
    (h' : Increasing names') : names.map folded = names'.map folded ↔
      ∀ name, name ∈ names.map folded ↔ name ∈ names'.map folded := by
  refine ⟨fun heq name => by rw [heq], fun hmem => ?_⟩
  exact List.Pairwise.eq_of_mem_iff (List.pairwise_map.2 h) (List.pairwise_map.2 h') hmem

/-- Items in order by name come in pairs when every item on one side has one of its name on
the other. -/
theorem Increasing.forall₂ {β : Type} {nameOf : α → Name} {nameOf' : β → Name}
    {R : α → β → Prop} {xs : List α} {ys : List β} (h : Increasing (xs.map nameOf))
    (h' : Increasing (ys.map nameOf'))
    (hname : ∀ x y, R x y → (nameOf x).folded = (nameOf' y).folded)
    (hleft : ∀ x ∈ xs, ∃ y ∈ ys, R x y) (hright : ∀ y ∈ ys, ∃ x ∈ xs, R x y) :
    List.Forall₂ R xs ys := by
  have hnames : (xs.map nameOf).map folded = (ys.map nameOf').map folded := by
    refine (h.map_folded_eq_iff h').2 fun name => ?_
    simp only [List.map_map, List.mem_map, Function.comp]
    constructor
    · rintro ⟨x, hx, rfl⟩
      obtain ⟨y, hy, hR⟩ := hleft x hx
      exact ⟨y, hy, (hname x y hR).symm⟩
    · rintro ⟨y, hy, rfl⟩
      obtain ⟨x, hx, hR⟩ := hright y hy
      exact ⟨x, hx, hname x y hR⟩
  have hpairs : List.Forall₂ (fun x y => (nameOf x).folded = (nameOf' y).folded) xs ys := by
    rw [List.map_map, List.map_map, ← List.forall₂_eq_eq_eq, List.forall₂_map_left_iff,
      List.forall₂_map_right_iff] at hnames
    exact hnames
  obtain ⟨hlength, hsame⟩ := List.forall₂_iff_zip.1 hpairs
  refine List.forall₂_iff_zip.2 ⟨hlength, fun {x y} hxy => ?_⟩
  obtain ⟨hx, hy⟩ := List.of_mem_zip hxy
  obtain ⟨y', hy', hR⟩ := hleft x hx
  -- The item of that name is the one that stands in the same place.
  rwa [h'.eq_of_folded_eq hy hy' ((hsame hxy).symm.trans (hname x y' hR))]

/-- The comparison by which names are sorted. -/
theorem le_trans_folded (nameOf : α → Name) (a b c : α) :
    (decide ((nameOf a).folded ≤ (nameOf b).folded)) = true →
      (decide ((nameOf b).folded ≤ (nameOf c).folded)) = true →
        (decide ((nameOf a).folded ≤ (nameOf c).folded)) = true := by
  simp only [decide_eq_true_eq]
  exact le_trans

theorem le_total_folded (nameOf : α → Name) (a b : α) :
    (decide ((nameOf a).folded ≤ (nameOf b).folded) ||
      decide ((nameOf b).folded ≤ (nameOf a).folded)) = true := by
  simp only [Bool.or_eq_true, decide_eq_true_eq]
  exact le_total _ _

/-- Sorting puts names in order, with repetitions side by side. -/
theorem pairwise_sortBy (nameOf : α → Name) (items : List α) :
    (sortBy nameOf items).Pairwise fun a b => (nameOf a).folded ≤ (nameOf b).folded := by
  have h := List.pairwise_mergeSort (le_trans_folded nameOf) (le_total_folded nameOf) items
  exact h.imp fun hle => of_decide_eq_true hle

theorem perm_sortBy (nameOf : α → Name) (items : List α) : (sortBy nameOf items).Perm items :=
  List.mergeSort_perm items _

/-- What is in order stays as it is. -/
theorem sortBy_eq_self (nameOf : α → Name) {items : List α}
    (h : Increasing (items.map nameOf)) : sortBy nameOf items = items := by
  apply List.mergeSort_of_pairwise
  rw [Increasing, List.pairwise_map] at h
  exact h.imp fun hlt => decide_eq_true (le_of_lt hlt)

/-- Sorting looks at the names alone. -/
theorem map_sortBy {β : Type} {nameOf : α → Name} {nameOf' : β → Name} (f : α → β)
    (hname : ∀ a, nameOf' (f a) = nameOf a) (items : List α) :
    (sortBy nameOf items).map f = sortBy nameOf' (items.map f) := by
  unfold sortBy
  apply List.map_mergeSort
  intro a _ b _
  rw [hname, hname]

/-- Names in order without two neighbours of one name are increasing. -/
theorem increasing_of_firstTwin? {names : List Name}
    (hsorted : names.Pairwise fun a b => a.folded ≤ b.folded)
    (htwin : firstTwin? names = none) : Increasing names := by
  induction names with
  | nil => exact increasing_nil
  | cons a rest ih =>
      cases rest with
      | nil => exact List.pairwise_singleton _ _
      | cons b rest =>
          rw [firstTwin?] at htwin
          split at htwin
          · cases htwin
          next hab =>
            obtain ⟨ha, hrest⟩ := List.pairwise_cons.1 hsorted
            have hincreasing := ih hrest htwin
            have hlt : a.folded < b.folded :=
              lt_of_le_of_ne (ha b List.mem_cons_self) fun heq => hab (decide_eq_true heq)
            refine List.pairwise_cons.2 ⟨fun c hc => ?_, hincreasing⟩
            rcases List.mem_cons.1 hc with rfl | hc
            · exact hlt
            · exact lt_trans hlt (List.rel_of_pairwise_cons hincreasing hc)

/-- An increasing list has no two neighbours of one name. -/
theorem firstTwin?_eq_none {names : List Name} (h : Increasing names) :
    firstTwin? names = none := by
  induction names with
  | nil => rfl
  | cons a rest ih =>
      cases rest with
      | nil => rfl
      | cons b rest =>
          obtain ⟨ha, hrest⟩ := List.pairwise_cons.1 h
          have hab : a.same b = false := decide_eq_false (ne_of_lt (ha b List.mem_cons_self))
          rw [firstTwin?, hab]
          exact ih hrest

/-- No name is repeated exactly if all are different from each other and from
those seen before. -/
theorem firstRepeat?_eq_none_iff {seen : List String} {names : List Name} :
    firstRepeat? seen names = none ↔
      (names.map folded).Nodup ∧ ∀ name ∈ names, name.folded ∉ seen := by
  induction names generalizing seen with
  | nil => simp [firstRepeat?]
  | cons a rest ih =>
      rw [firstRepeat?]
      by_cases ha : a.folded ∈ seen
      · simp [ha]
      · rw [if_neg ha, ih]
        simp only [List.map_cons, List.nodup_cons, List.mem_map, List.mem_cons, not_or,
          forall_eq_or_imp]
        constructor
        · rintro ⟨hnodup, hseen⟩
          exact ⟨⟨fun ⟨b, hb, heq⟩ => (hseen b hb).1 heq, hnodup⟩, ha,
            fun b hb => (hseen b hb).2⟩
        · rintro ⟨⟨hfresh, hnodup⟩, -, hseen⟩
          exact ⟨hnodup, fun b hb => ⟨fun heq => hfresh ⟨b, hb, heq⟩, hseen b hb⟩⟩

/-- Names in order of which none is repeated are increasing. -/
theorem increasing_of_nodup {names : List Name}
    (hsorted : names.Pairwise fun a b => a.folded ≤ b.folded)
    (hnodup : (names.map folded).Nodup) : Increasing names := by
  rw [List.nodup_iff_pairwise_ne, List.pairwise_map] at hnodup
  exact hsorted.imp₂ (fun _ _ hle hne => lt_of_le_of_ne hle hne) hnodup

theorem keepLast_eq_self {names : List Name} (h : Increasing names) : keepLast names = names := by
  induction names with
  | nil => rfl
  | cons a rest ih =>
      cases rest with
      | nil => rfl
      | cons b rest =>
          obtain ⟨ha, hrest⟩ := List.pairwise_cons.1 h
          have hab : a.same b = false := decide_eq_false (ne_of_lt (ha b List.mem_cons_self))
          rw [keepLast, hab, if_neg Bool.false_ne_true, ih hrest]

theorem mem_of_mem_keepLast {names : List Name} {name : Name} (h : name ∈ keepLast names) :
    name ∈ names := by
  induction names with
  | nil => exact h
  | cons a rest ih =>
      cases rest with
      | nil => exact h
      | cons b rest =>
          rw [keepLast] at h
          split at h
          · exact List.mem_cons_of_mem _ (ih h)
          · rcases List.mem_cons.1 h with rfl | h
            · exact List.mem_cons_self
            · exact List.mem_cons_of_mem _ (ih h)

theorem increasing_keepLast {names : List Name}
    (hsorted : names.Pairwise fun a b => a.folded ≤ b.folded) : Increasing (keepLast names) := by
  induction names with
  | nil => exact increasing_nil
  | cons a rest ih =>
      cases rest with
      | nil => exact List.pairwise_singleton _ _
      | cons b rest =>
          obtain ⟨ha, hrest⟩ := List.pairwise_cons.1 hsorted
          rw [keepLast]
          split
          · exact ih hrest
          next hab =>
            have hlt : a.folded < b.folded :=
              lt_of_le_of_ne (ha b List.mem_cons_self) fun heq => hab (decide_eq_true heq)
            refine List.pairwise_cons.2 ⟨fun c hc => ?_, ih hrest⟩
            rcases List.mem_cons.1 (mem_of_mem_keepLast hc) with rfl | hc
            · exact hlt
            · exact lt_of_lt_of_le hlt (List.rel_of_pairwise_cons hrest hc)

/-- Of every name one spelling is kept. -/
theorem mem_map_folded_keepLast {names : List Name} {text : String} :
    text ∈ (keepLast names).map folded ↔ text ∈ names.map folded := by
  induction names with
  | nil => exact Iff.rfl
  | cons a rest ih =>
      cases rest with
      | nil => exact Iff.rfl
      | cons b rest =>
          rw [keepLast]
          split
          next hsame =>
            have hfolded : a.folded = b.folded := of_decide_eq_true hsame
            rw [ih, List.map_cons, List.map_cons, hfolded]
            simp
          · rw [List.map_cons, List.mem_cons, ih, List.map_cons (a := a), List.mem_cons]

/-- A set of names has every name that is given, and no others. -/
theorem mem_map_folded_setOf {names : List Name} {text : String} :
    text ∈ (setOf names).map folded ↔ text ∈ names.map folded := by
  rw [setOf, mem_map_folded_keepLast]
  exact ((perm_sortBy id names).map folded).mem_iff

/-- A set of names is in order and has no name twice. -/
theorem increasing_setOf (names : List Name) : Increasing (setOf names) :=
  increasing_keepLast (pairwise_sortBy id names)

/-- A set of names that is given in order stays as it is. -/
theorem setOf_eq_self {names : List Name} (h : Increasing names) : setOf names = names := by
  rw [setOf, sortBy_eq_self id (by rwa [List.map_id]), keepLast_eq_self h]

end WireSchema.Name
