/-
# Finite maps

A table binds each of finitely many keys to one value.  The bindings are kept
in a list, the latest first, and no key occurs twice: writing to a key replaces
what it had.  The statements here say what each operation does to `get?`, which
is all that the rest of the library uses.
-/

namespace WireSchema

/-- A finite map from `κ` to `υ`. -/
structure Table (κ υ : Type) where
  bindings : List (κ × υ)
  nodup_keys : (bindings.map Prod.fst).Nodup

namespace Table

variable {κ υ : Type}

/-- The table without bindings. -/
def empty : Table κ υ where
  bindings := []
  nodup_keys := List.nodup_nil

instance : EmptyCollection (Table κ υ) := ⟨empty⟩

/-- The number of keys. -/
def size (t : Table κ υ) : Nat :=
  t.bindings.length

theorem nodup_filter (t : Table κ υ) (keep : κ × υ → Bool) :
    ((t.bindings.filter keep).map Prod.fst).Nodup :=
  t.nodup_keys.sublist ((List.filter_sublist).map _)

/-- The bindings that satisfy `keep`. -/
def filter (t : Table κ υ) (keep : κ × υ → Bool) : Table κ υ where
  bindings := t.bindings.filter keep
  nodup_keys := t.nodup_filter keep

/-- The bindings whose value satisfies `keep`. -/
def retain (t : Table κ υ) (keep : υ → Bool) : Table κ υ :=
  t.filter fun binding => keep binding.2

variable [DecidableEq κ]

/-- The value bound to a key. -/
def get? (t : Table κ υ) (key : κ) : Option υ :=
  (t.bindings.find? fun binding => binding.1 = key).map Prod.snd

/-- The key has a value. -/
def contains (t : Table κ υ) (key : κ) : Bool :=
  (t.get? key).isSome

/-- The table without the key. -/
def erase (t : Table κ υ) (key : κ) : Table κ υ :=
  t.filter fun binding => binding.1 ≠ key

/-- The table with the key bound to the value, whatever it had before. -/
def insert (t : Table κ υ) (key : κ) (value : υ) : Table κ υ where
  bindings := (key, value) :: (t.erase key).bindings
  nodup_keys := by
    rw [List.map_cons, List.nodup_cons]
    refine ⟨?_, (t.erase key).nodup_keys⟩
    simp [erase, filter]

/-- The table with the key bound to the value, unless it has one already. -/
def insertIfNew (t : Table κ υ) (key : κ) (value : υ) : Table κ υ :=
  if t.contains key then t else t.insert key value

theorem get?_insert_self (t : Table κ υ) (key : κ) (value : υ) :
    (t.insert key value).get? key = some value := by
  simp [get?, insert]

theorem get?_erase_self (t : Table κ υ) (key : κ) : (t.erase key).get? key = none := by
  simp [get?, erase, filter]

theorem get?_erase_of_ne (t : Table κ υ) {key other : κ} (h : other ≠ key) :
    (t.erase key).get? other = t.get? other := by
  simp only [get?, erase, filter, List.find?_filter]
  congr 2
  funext binding
  by_cases hb : binding.1 = other <;> simp [hb, h]

theorem get?_insert_of_ne (t : Table κ υ) {key other : κ} (value : υ) (h : other ≠ key) :
    (t.insert key value).get? other = t.get? other := by
  rw [← get?_erase_of_ne t h]
  simp [get?, insert, Ne.symm h]

theorem get?_insert (t : Table κ υ) (key other : κ) (value : υ) :
    (t.insert key value).get? other = if other = key then some value else t.get? other := by
  split
  next h => rw [h, get?_insert_self]
  next h => exact get?_insert_of_ne t value h

theorem get?_erase (t : Table κ υ) (key other : κ) :
    (t.erase key).get? other = if other = key then none else t.get? other := by
  split
  next h => rw [h, get?_erase_self]
  next h => exact get?_erase_of_ne t h

/-- What is found after writing was written or was there under another key. -/
theorem get?_insert_eq_some_iff {t : Table κ υ} {key other : κ} {value found : υ} :
    (t.insert key value).get? other = some found ↔
      other = key ∧ found = value ∨ other ≠ key ∧ t.get? other = some found := by
  rw [get?_insert]
  split
  next h => simp [h, eq_comm]
  next h => simp [h]

/-- What is found after erasing was there under another key. -/
theorem get?_erase_eq_some_iff {t : Table κ υ} {key other : κ} {found : υ} :
    (t.erase key).get? other = some found ↔ other ≠ key ∧ t.get? other = some found := by
  rw [get?_erase]
  split
  next h => simp [h]
  next h => simp [h]

theorem contains_eq_false_iff (t : Table κ υ) (key : κ) :
    t.contains key = false ↔ t.get? key = none := by
  rw [contains, Option.isSome_eq_false_iff, Option.isNone_iff_eq_none]

/-- A key that is bound stays bound to what it had. -/
theorem get?_insertIfNew (t : Table κ υ) (key other : κ) (value : υ) :
    (t.insertIfNew key value).get? other =
      if other = key then some ((t.get? key).getD value) else t.get? other := by
  cases hkey : t.get? key with
  | none =>
    rw [insertIfNew, (contains_eq_false_iff t key).2 hkey, if_neg Bool.false_ne_true, get?_insert]
    rfl
  | some old =>
    have hcontains : t.contains key = true := by rw [contains, hkey]; rfl
    rw [insertIfNew, hcontains, if_pos rfl]
    split
    next h => rw [h, hkey]; rfl
    next => rfl

theorem mem_bindings_iff (t : Table κ υ) (key : κ) (value : υ) :
    (key, value) ∈ t.bindings ↔ t.get? key = some value := by
  obtain ⟨bindings, hnodup⟩ := t
  induction bindings with
  | nil => simp [get?]
  | cons binding bindings ih =>
    obtain ⟨hfresh, htail⟩ := List.nodup_cons.1 (List.map_cons ▸ hnodup)
    obtain ⟨key', value'⟩ := binding
    by_cases h : key' = key
    · subst h
      have hrest : (key', value) ∉ bindings := fun hmem =>
        hfresh (List.mem_map.2 ⟨_, hmem, rfl⟩)
      simp [get?, hrest, eq_comm]
    · have hih := ih htail
      simp only [get?] at hih ⊢
      simp [h, Ne.symm h, hih]

/-- Erasing a key that is not bound changes nothing. -/
theorem erase_eq_self {t : Table κ υ} {key : κ} (h : t.get? key = none) : t.erase key = t := by
  have hbindings : (t.erase key).bindings = t.bindings := by
    refine List.filter_eq_self.2 fun binding hmem => decide_eq_true ?_
    rintro rfl
    rw [(mem_bindings_iff t binding.1 binding.2).1 hmem] at h
    cases h
  obtain ⟨bindings, hnodup⟩ := t
  simp only [erase, filter] at hbindings ⊢
  simp only [hbindings]

/-- A filtered table has the bindings that satisfy the filter. -/
theorem get?_retain_eq_some_iff (t : Table κ υ) (keep : υ → Bool) (key : κ) (value : υ) :
    (t.retain keep).get? key = some value ↔ t.get? key = some value ∧ keep value = true := by
  rw [← mem_bindings_iff, ← mem_bindings_iff]
  simp [retain, filter]

end Table

end WireSchema
