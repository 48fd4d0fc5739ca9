/-
# What an upper layer sets is what is read

Laying a source over a tree gives each key of the source its value, or, if that is a table, the
value laid over what the key had; all other keys keep what they had.  So a value that is not a
table comes through whatever was below it.
-/

import WireSchema.Proofs.Settings.Reader
import WireSchema.Settings.Load

namespace WireSchema.SettingValue

variable {old new : SettingValue} {entries source : List (String × SettingValue)}
variable {key other : String}

/-! ## Setting a key -/

theorem lookup?_put_self (entries : List (String × SettingValue)) (key : String)
    (new : SettingValue) : lookup? (put key new entries) key = some new := by
  induction entries with
  | nil => simp [put, lookup?]
  | cons entry entries ih =>
    obtain ⟨k, v⟩ := entry
    by_cases h : k = key
    · simp [put, lookup?, h]
    · simpa [put, lookup?, h] using ih

theorem lookup?_put_of_ne (h : key ≠ other) (entries : List (String × SettingValue))
    (new : SettingValue) : lookup? (put key new entries) other = lookup? entries other := by
  induction entries with
  | nil => simp [put, lookup?, h]
  | cons entry entries ih =>
    obtain ⟨k, v⟩ := entry
    by_cases hk : k = key
    · subst hk
      simp [put, lookup?, h]
    · by_cases hother : k = other
      · subst hother
        simp [put, lookup?, hk]
      · simpa [put, lookup?, hk, hother] using ih

@[simp]
theorem get?_set_self (value : SettingValue) (key : String) (new : SettingValue) :
    (value.set key new).get? key = some new :=
  lookup?_put_self value.entries key new

theorem get?_set_of_ne (h : key ≠ other) (value new : SettingValue) :
    (value.set key new).get? other = value.get? other :=
  lookup?_put_of_ne h value.entries new

/-! ## Laying entries over a tree -/

/-- The value is not a table. -/
def IsLeaf (value : SettingValue) : Prop :=
  ∀ entries, value ≠ table entries

theorem IsLeaf.laidOver_eq (h : new.IsLeaf) (old? : Option SettingValue) :
    laidOver new old? = new := by
  cases new with
  | table entries => exact absurd rfl (h entries)
  | _ => rw [laidOver]; exact h

theorem entriesOver_cons (entry : String × SettingValue) (entries : List (String × SettingValue))
    (old : SettingValue) :
    entriesOver (entry :: entries) old =
      entriesOver entries (old.set (Text.lowercase entry.1)
        (laidOver entry.2 (old.get? (Text.lowercase entry.1)))) := by
  rw [entriesOver]

/-- A key that no entry has keeps its value. -/
theorem get?_entriesOver_of_notMem (h : key ∉ entries.map fun entry => Text.lowercase entry.1)
    (old : SettingValue) : (entriesOver entries old).get? key = old.get? key := by
  induction entries generalizing old with
  | nil => rw [entriesOver]
  | cons entry entries ih =>
    rw [List.map_cons, List.mem_cons, not_or] at h
    rw [entriesOver_cons, ih h.2, get?_set_of_ne (Ne.symm h.1)]

/-- A key that one entry has gets the value of that entry, laid over what it had. -/
theorem get?_entriesOver_of_mem
    (hnodup : (entries.map fun entry => Text.lowercase entry.1).Nodup)
    (h : (key, new) ∈ entries) (old : SettingValue) :
    (entriesOver entries old).get? (Text.lowercase key) =
      some (laidOver new (old.get? (Text.lowercase key))) := by
  induction entries generalizing old with
  | nil => contradiction
  | cons entry entries ih =>
    rw [List.map_cons, List.nodup_cons] at hnodup
    rw [entriesOver_cons]
    rcases List.mem_cons.1 h with rfl | h
    · rw [get?_entriesOver_of_notMem hnodup.1, get?_set_self]
    · have hne : Text.lowercase key ≠ Text.lowercase entry.1 :=
        ne_of_mem_of_not_mem (List.mem_map.2 ⟨_, h, rfl⟩) hnodup.1
      rw [ih hnodup.2 h, get?_set_of_ne hne.symm]

/-- Entries make a table of whatever they are laid over. -/
theorem exists_entriesOver_eq_table (h : entries ≠ []) (old : SettingValue) :
    ∃ result, entriesOver entries old = table result := by
  induction entries generalizing old with
  | nil => contradiction
  | cons entry entries ih =>
    rw [entriesOver_cons]
    by_cases hnil : entries = []
    · exact ⟨_, by rw [hnil, entriesOver, set]⟩
    · exact ih hnil _

/-! ## Laying a source over a tree -/

theorem pathOf_word (h : Settings.IsWord key) : pathOf key = [.key key] := by
  have hchars : ∀ c ∈ key.toList, isPathChar c = true := by
    intro c hc
    have hkey := h.isKeyChar c hc
    simp only [Settings.isKeyChar, isPathChar, Bool.or_eq_true] at hkey ⊢
    exact .inl hkey
  have htake : key.toList.takeWhile isPathChar = key.toList := by
    simpa using Settings.takeWhile_of_stopsAt hchars (Settings.stopsAt_nil isPathChar)
  have hdrop : key.toList.dropWhile isPathChar = [] := by
    simpa using Settings.dropWhile_of_stopsAt hchars (Settings.stopsAt_nil isPathChar)
  have hsteps (n : Nat) : stepsOf (n + 2) ('.' :: key.toList) = some [.key key] := by
    rw [stepsOf]
    simp only [htake, hdrop, stepsOf]
    split
    next heq => exact absurd heq h.ne_nil
    next => simp
  rw [pathOf]
  simp only [hsteps]

@[simp]
theorem overlay_nil (old : SettingValue) : old.overlay [] = old := rfl

/-- A source whose keys are words is laid over a tree as a table is. -/
theorem overlay_eq_entriesOver (h : ∀ entry ∈ source, Settings.IsWord entry.1)
    (old : SettingValue) : old.overlay source = entriesOver source old := by
  induction source generalizing old with
  | nil => rw [entriesOver, overlay_nil]
  | cons entry source ih =>
    rw [entriesOver_cons, ← ih fun other hother => h other (List.mem_cons_of_mem _ hother)]
    simp only [overlay, List.foldl_cons, pathOf_word (h entry List.mem_cons_self), overAt]

/-! ## Plain keys -/

theorem lowerChar_eq_self {c : Char} (h : Settings.isKeyChar c = true)
    (hupper : c.isUpper = false) : Text.lowerChar c = [c] := by
  have hcode : c.toNat < 0x80 := by
    have := Settings.toNat_of_isKeyChar h
    omega
  have hlower : c.toLower = c := dif_neg (of_decide_eq_false hupper)
  simp [Text.lowerChar, hcode, hlower]

theorem lowerChars_eq_self (before : List Char) {cs : List Char}
    (h : ∀ c ∈ cs, Settings.isKeyChar c = true ∧ c.isUpper = false) :
    Text.lowerChars before cs = cs := by
  induction cs generalizing before with
  | nil => rfl
  | cons c cs ih =>
    obtain ⟨hc, hupper⟩ := h c List.mem_cons_self
    have hsigma : c.toNat ≠ 0x3A3 := by
      have := Settings.toNat_of_isKeyChar hc
      omega
    rw [Text.lowerChars, if_neg hsigma, lowerChar_eq_self hc hupper,
      ih _ fun d hd => h d (List.mem_cons_of_mem _ hd), List.singleton_append]

/-- The keys are different words without capitals, so they are taken as they are written. -/
structure ArePlainKeys (keys : List String) : Prop where
  isWord : ∀ key ∈ keys, Settings.IsWord key
  isUpper_eq_false : ∀ key ∈ keys, ∀ c ∈ key.toList, c.isUpper = false
  nodup : keys.Nodup

namespace ArePlainKeys

instance (keys : List String) : Decidable (ArePlainKeys keys) :=
  decidable_of_iff
    ((∀ key ∈ keys, Settings.IsWord key ∧ key.toList.all (!·.isUpper) = true) ∧ keys.Nodup)
    ⟨fun h => ⟨fun key hkey => (h.1 key hkey).1,
        fun key hkey c hc => by simpa using List.all_eq_true.1 (h.1 key hkey).2 c hc, h.2⟩,
      fun h => ⟨fun key hkey => ⟨h.isWord key hkey,
        List.all_eq_true.2 fun c hc => by simp [h.isUpper_eq_false key hkey c hc]⟩, h.nodup⟩⟩

theorem lowercase_eq {keys : List String} (h : ArePlainKeys keys) (hkey : key ∈ keys) :
    Text.lowercase key = key := by
  rw [Text.lowercase, lowerChars_eq_self [] fun c hc =>
    ⟨(h.isWord key hkey).isKeyChar c hc, h.isUpper_eq_false key hkey c hc⟩, String.ofList_toList]

theorem map_lowercase (h : ArePlainKeys (entries.map Prod.fst)) :
    (entries.map fun entry => Text.lowercase entry.1) = entries.map Prod.fst :=
  List.map_congr_left fun _ hentry => h.lowercase_eq (List.mem_map_of_mem hentry)

theorem get?_entriesOver (h : ArePlainKeys (entries.map Prod.fst)) (hentry : (key, new) ∈ entries)
    (old : SettingValue) :
    (entriesOver entries old).get? key = some (laidOver new (old.get? key)) := by
  have hkey : Text.lowercase key = key := h.lowercase_eq (List.mem_map_of_mem hentry)
  have hget := get?_entriesOver_of_mem (h.map_lowercase.symm ▸ h.nodup) hentry old
  rwa [hkey] at hget

theorem get?_overlay (h : ArePlainKeys (source.map Prod.fst)) (hentry : (key, new) ∈ source)
    (old : SettingValue) : (old.overlay source).get? key = some (laidOver new (old.get? key)) := by
  rw [overlay_eq_entriesOver fun entry hentry => h.isWord _ (List.mem_map_of_mem hentry)]
  exact h.get?_entriesOver hentry old

/-- A section of a source is a table afterwards, whatever was in its place, and each of its keys has
the value that the source gives it, unless that is a table again. -/
theorem exists_section (h : ArePlainKeys (source.map Prod.fst))
    (hsection : (key, table entries) ∈ source) (hentries : ArePlainKeys (entries.map Prod.fst))
    (hnil : entries ≠ []) (old : SettingValue) :
    ∃ result, (old.overlay source).get? key = some (table result) ∧
      ∀ name value, (name, value) ∈ entries → value.IsLeaf →
        (table result).get? name = some value := by
  obtain ⟨result, hresult⟩ := exists_entriesOver_eq_table hnil ((old.get? key).getD emptyTable)
  refine ⟨result, ?_, fun name value hmem hleaf => ?_⟩
  · rw [h.get?_overlay hsection, laidOver, hresult]
  · rw [← hresult, hentries.get?_entriesOver hmem, hleaf.laidOver_eq]

end ArePlainKeys

end WireSchema.SettingValue
