/-
# Strings are read back

A character of a string is written as itself or as an escape.  Reading takes each of these
for the character again, and a written character never looks like the quote that ends the
string, so the string is read back whatever follows it.
-/

import WireSchema.Json.Printer
import WireSchema.Json.Reader

namespace WireSchema.Json

open Text (hexDigit)

variable {c letter : Char} {rest after : List Char} {parts : List StringPart}

/-! ## One part of a string -/

theorem stringParts_quote (rest : List Char) : stringParts ('"' :: rest) = some ([], rest) := by
  rw [stringParts.eq_def]
  exact if_pos rfl

theorem stringParts_escaped (hletter : letter ≠ 'u') (h : escaped? letter = some c)
    (hrest : stringParts rest = some (parts, after)) :
    stringParts ('\\' :: letter :: rest) = some (.char c :: parts, after) := by
  rw [stringParts.eq_def]
  simp only [Char.reduceEq, if_false, if_true]
  split
  next heq =>
    injection heq with hhead
    exact absurd hhead hletter
  next heq =>
    cases heq
    rw [h, hrest]
    rfl
  next heq => cases heq

theorem stringParts_unit {n : Nat} {a b c d : Char} (h : unitValue? a b c d = some n)
    (hrest : stringParts rest = some (parts, after)) :
    stringParts ('\\' :: 'u' :: a :: b :: c :: d :: rest) = some (.unit n :: parts, after) := by
  rw [stringParts.eq_def]
  simp only [Char.reduceEq, if_false, if_true, h, hrest]
  rfl

theorem stringParts_plain (hquote : c ≠ '"') (hescape : c ≠ '\\') (hcontrol : ¬ c.toNat < 0x20)
    (hrest : stringParts rest = some (parts, after)) :
    stringParts (c :: rest) = some (.char c :: parts, after) := by
  rw [stringParts.eq_def]
  simp only [if_neg hquote, if_neg hescape, if_neg hcontrol, hrest]
  rfl

/-! ## Written characters -/

/-- The ways in which a character is written: by a letter, by its number, or as itself. -/
inductive Escape : Char → List Char → Prop
  | letter {letter c : Char} : letter ≠ 'u' → ¬ letter.toNat < 0x20 → escaped? letter = some c →
      Escape c ['\\', letter]
  | unit {c : Char} : c.toNat < 0x20 →
      Escape c ['\\', 'u', '0', '0', hexDigit (c.toNat / 16), hexDigit (c.toNat % 16)]
  | plain {c : Char} : c ≠ '"' → c ≠ '\\' → ¬ c.toNat < 0x20 → Escape c [c]

theorem eq_ofNat_of_toNat_eq {n : Nat} (h : c.toNat = n) : c = Char.ofNat n := by
  rw [← h, Char.ofNat_toNat]

theorem escape_escapeChar (c : Char) : Escape c (escapeChar c) := by
  unfold escapeChar
  split
  next h =>
    subst h
    exact .letter (by decide) (by decide) rfl
  split
  next h =>
    subst h
    exact .letter (by decide) (by decide) rfl
  split
  next h => exact .letter (by decide) (by decide) (eq_ofNat_of_toNat_eq h ▸ rfl)
  split
  next h => exact .letter (by decide) (by decide) (eq_ofNat_of_toNat_eq h ▸ rfl)
  split
  next h => exact .letter (by decide) (by decide) (eq_ofNat_of_toNat_eq h ▸ rfl)
  split
  next h => exact .letter (by decide) (by decide) (eq_ofNat_of_toNat_eq h ▸ rfl)
  split
  next h => exact .letter (by decide) (by decide) (eq_ofNat_of_toNat_eq h ▸ rfl)
  split
  next h => exact .unit h
  next hquote hescape _ _ _ _ _ hcontrol => exact .plain hquote hescape hcontrol

/-- What stands for the character in a text is read as the part, and the part is taken for the
character again. -/
structure StringPart.Conveys (part : StringPart) (written : List Char) (c : Char) : Prop where
  read : ∀ {rest parts after}, stringParts rest = some (parts, after) →
    stringParts (written ++ rest) = some (part :: parts, after)
  join : ∀ {parts cs}, joinParts parts = some cs → joinParts (part :: parts) = some (c :: cs)

theorem joinParts_char {cs : List Char} (h : joinParts parts = some cs) :
    joinParts (.char c :: parts) = some (c :: cs) := by
  rw [joinParts, h]
  rfl

theorem unitValue?_hexDigit : ∀ n < 0x20,
    unitValue? '0' '0' (hexDigit (n / 16)) (hexDigit (n % 16)) = some n := by
  decide

/-- A unit below the surrogate ranges stands for the character with its number. -/
theorem joinParts_unit {cs : List Char} (hcontrol : c.toNat < 0x20)
    (h : joinParts parts = some cs) : joinParts (.unit c.toNat :: parts) = some (c :: cs) := by
  rw [joinParts.eq_def]
  simp only [h, Char.ofNat_toNat]
  rw [if_neg (by omega), if_neg (by omega)]
  rfl

theorem Escape.exists_conveys {written : List Char} (h : Escape c written) :
    ∃ part : StringPart, part.Conveys written c := by
  cases h with
  | letter hletter _ hescaped => exact ⟨_, stringParts_escaped hletter hescaped, joinParts_char⟩
  | unit hcontrol =>
      exact ⟨_, stringParts_unit (unitValue?_hexDigit _ hcontrol), joinParts_unit hcontrol⟩
  | plain hquote hescape hcontrol =>
      exact ⟨_, stringParts_plain hquote hescape hcontrol, joinParts_char⟩

/-- The written characters of a text are read up to the quote after them. -/
theorem exists_stringParts (cs rest : List Char) : ∃ parts,
    stringParts (cs.flatMap escapeChar ++ '"' :: rest) = some (parts, rest) ∧
      joinParts parts = some cs := by
  induction cs with
  | nil => exact ⟨[], stringParts_quote rest, rfl⟩
  | cons c cs ih =>
      obtain ⟨parts, hread, hjoin⟩ := ih
      obtain ⟨part, hconveys⟩ := (escape_escapeChar c).exists_conveys
      refine ⟨part :: parts, ?_, hconveys.join hjoin⟩
      rw [List.flatMap_cons, List.append_assoc]
      exact hconveys.read hread

/-- A string is read back after its opening quote. -/
theorem stringBody_quote (text : String) (rest : List Char) :
    stringBody (text.toList.flatMap escapeChar ++ '"' :: rest) = some (some text, rest) := by
  obtain ⟨parts, hread, hjoin⟩ := exists_stringParts text.toList rest
  rw [stringBody, hread]
  simp only [bind, Option.bind, hjoin, Option.map_some, String.ofList_toList]
  rfl

/-! ## Control characters -/

theorem not_control_hexDigit : ∀ n < 0x10, ¬ (hexDigit n).toNat < 0x20 := by
  decide

/-- A character below U+0020 is never written as itself. -/
theorem Escape.not_control {written : List Char} (h : Escape c written) {d : Char}
    (hd : d ∈ written) : ¬ d.toNat < 0x20 := by
  cases h with
  | letter _ hletter _ =>
      simp only [List.mem_cons, List.not_mem_nil, or_false] at hd
      rcases hd with rfl | rfl
      · decide
      · exact hletter
  | unit hcontrol =>
      have hhigh := not_control_hexDigit (c.toNat / 16) (by omega)
      have hlow := not_control_hexDigit (c.toNat % 16) (by omega)
      simp only [List.mem_cons, List.not_mem_nil, or_false] at hd
      rcases hd with rfl | rfl | rfl | rfl | rfl | rfl
      · decide
      · decide
      · decide
      · decide
      · exact hhigh
      · exact hlow
  | plain _ _ hcontrol =>
      cases List.mem_singleton.1 hd
      exact hcontrol

theorem not_control_of_mem_quote {text : String} (h : c ∈ quote text) : ¬ c.toNat < 0x20 := by
  rw [quote, List.mem_append, List.mem_cons, List.mem_flatMap] at h
  rcases h with (rfl | ⟨d, -, hd⟩) | h
  · decide
  · exact (escape_escapeChar d).not_control hd
  · cases List.mem_singleton.1 h
    decide

end WireSchema.Json
