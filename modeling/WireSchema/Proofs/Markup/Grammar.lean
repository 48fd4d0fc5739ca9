/-
# The grammar of markup

A text is split into braces and words in one way only: white space stands for nothing, and a word is
a longest run of other characters.  A text is read as a markup exactly if it is split into the words
of the markup and its ids can be told from what stands around them.  So the text of a markup is read
back, and texts that are split alike are read alike, down to the fault.
-/

import Mathlib.Logic.ExistsUnique
import WireSchema.Proofs.Markup.Reader

namespace WireSchema.Markup

/-- The text consists of the tokens, with white space between them.  No character of a word follows
a word, so it is as long as can be. -/
inductive Splits : List Char → List Token → Prop
  | nil : Splits [] []
  | blank {c : Char} {cs : List Char} {tokens : List Token} :
      Text.isWhitespace c = true → Splits cs tokens → Splits (c :: cs) tokens
  | opening {cs : List Char} {tokens : List Token} :
      Splits cs tokens → Splits ('{' :: cs) (.opening :: tokens)
  | closing {cs : List Char} {tokens : List Token} :
      Splits cs tokens → Splits ('}' :: cs) (.closing :: tokens)
  | word {word rest : List Char} {tokens : List Token} :
      word ≠ [] → (∀ c ∈ word, WordChar c) → (∀ c ∈ rest.head?, ¬WordChar c) →
        Splits rest tokens → Splits (word ++ rest) (.word (String.ofList word) :: tokens)

variable {cs rest : List Char} {tokens : List Token}

/-- What has been gathered of a word is a word before text that does not go on with it. -/
theorem Splits.gathered {gathered : List Char} (h : Splits rest tokens)
    (hgathered : ∀ c ∈ gathered, WordChar c) (hrest : ∀ c ∈ rest.head?, ¬WordChar c) :
    Splits (gathered.reverse ++ rest) (Token.ofReversed gathered ++ tokens) := by
  cases gathered with
  | nil => exact h
  | cons c gathered =>
      refine .word ?_ (fun c hc => hgathered c (List.mem_reverse.1 hc)) hrest h
      exact List.reverse_ne_nil_iff.2 (List.cons_ne_nil _ _)

theorem splits_scan {gathered : List Char} (hgathered : ∀ c ∈ gathered, WordChar c) :
    Splits (gathered.reverse ++ cs) (Token.scan gathered cs) := by
  induction cs generalizing gathered with
  | nil =>
      have hsplits := Splits.nil.gathered hgathered nofun
      rw [List.append_nil (Token.ofReversed gathered)] at hsplits
      exact hsplits
  | cons c cs ih =>
      have hrest : Splits cs (Token.scan [] cs) := ih (List.forall_mem_nil _)
      rw [Token.scan]
      split
      next hopening =>
        subst hopening
        refine hrest.opening.gathered hgathered fun c hc hword => ?_
        cases hc
        exact hword.not_opening rfl
      split
      next hclosing =>
        subst hclosing
        refine hrest.closing.gathered hgathered fun c hc hword => ?_
        cases hc
        exact hword.not_closing rfl
      split
      next hblank =>
        refine (hrest.blank hblank).gathered hgathered fun c hc hword => ?_
        cases hc
        rw [hword.not_blank] at hblank
        cases hblank
      next hopening hclosing hblank =>
        have hword : WordChar c := ⟨hopening, hclosing, Bool.eq_false_iff.2 hblank⟩
        have hsplits := ih (List.forall_mem_cons.2 ⟨hword, hgathered⟩)
        rwa [List.reverse_cons, List.append_assoc] at hsplits

theorem Splits.scan_eq (h : Splits cs tokens) : Token.scan [] cs = tokens := by
  induction h with
  | nil => rfl
  | @blank c cs tokens hblank _ ih =>
      have hrest : ∀ d ∈ (c :: cs).head?, ¬WordChar d := by
        rintro d hd hword
        cases hd
        rw [hword.not_blank] at hblank
        cases hblank
      rw [Token.scan, if_neg, if_neg, if_pos hblank, ih]
      · rfl
      · rintro rfl
        exact absurd hblank (by decide)
      · rintro rfl
        exact absurd hblank (by decide)
  | opening _ ih =>
      rw [scan_opening, ih]
      rfl
  | closing _ ih =>
      rw [scan_closing, ih]
      rfl
  | word hnonempty hword hrest _ ih => rw [scan_run hword hnonempty hrest, ih]

/-- The tokens of a text are those that it is split into. -/
theorem tokens_eq_iff_splits {text : String} :
    Markup.tokens text = tokens ↔ Splits text.toList tokens := by
  refine ⟨?_, Splits.scan_eq⟩
  rintro rfl
  exact splits_scan (List.forall_mem_nil _)

/-- A text is split into tokens in exactly one way.  It is read as a markup if these are the words
of the markup, in which every id can be told from what stands around it, and as no other.  So every
such markup is read from its text and no other is ever read, and texts that are split into the same
tokens are read as the same markup or have the same fault. -/
theorem reads_words :
    (∀ text : String, ∃! tokens, Splits text.toList tokens) ∧
    (∀ text markup, read text = .ok markup ↔
      Splits text.toList markup.words ∧ markup.AllReferable) ∧
    (∀ markup : Markup String, markup.AllReferable → read markup.display = .ok markup) ∧
    (∀ text markup, read text = .ok markup → markup.AllReferable) ∧
    ∀ (text text' : String) (tokens : List Token), Splits text.toList tokens →
      Splits text'.toList tokens → parse text = parse text' := by
  have hread : ∀ text markup, read text = .ok markup ↔
      Splits text.toList markup.words ∧ markup.AllReferable := by
    intro text markup
    rw [read_eq_ok_iff_parse, parse_eq_ok_iff, tokens_eq_iff_splits]
  refine ⟨fun text => ?_, hread, fun markup => read_display, fun text markup h =>
    ((hread text markup).1 h).2, fun text text' tokens h h' => ?_⟩
  · exact ⟨Markup.tokens text, tokens_eq_iff_splits.1 rfl, fun tokens h => h.scan_eq.symm⟩
  · rw [parse, parse, tokens_eq_iff_splits.2 h, tokens_eq_iff_splits.2 h']

/-- Words need a blank, of whatever width, only where no brace parts them. -/
theorem reads_words_dictionary :
    let text := "\x7bdictionary\u3000i32\x7b list #T\x7d\x7d\n"
    let markup : Markup String := .dictionary (.primitive .i32) (.list (.ref "T"))
    Splits text.toList markup.words ∧ markup.AllReferable ∧ read text = .ok markup ∧
      read markup.display = .ok markup := by
  intro text markup
  have hsplits : Splits text.toList markup.words := tokens_eq_iff_splits.1 (by decide)
  have hids : markup.AllReferable := by
    intro id hid
    cases List.mem_singleton.1 hid
    exact ⟨by decide, wordChar_of_isWord (by decide)⟩
  obtain ⟨-, hread, hdisplay, -, -⟩ := reads_words
  exact ⟨hsplits, hids, (hread text markup).2 ⟨hsplits, hids⟩, hdisplay markup hids⟩

end WireSchema.Markup
