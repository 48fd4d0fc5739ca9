/-
# Markup text is read back

An id that is not empty and has no white space and no braces in it is one word after the
hash sign.  Markup whose references are all such ids can be written as text and read
back: the text is split into the words that were written, and the grammar takes them
together again.  No other ids can be referred to in a text.
-/

import WireSchema.Error
import WireSchema.Markup.Reader

namespace WireSchema

/-- The character does not end a word of markup. -/
structure Markup.WordChar (c : Char) : Prop where
  not_opening : c ≠ '{'
  not_closing : c ≠ '}'
  not_blank : Text.isWhitespace c = false

/-- The id can be told from what stands around it in markup. -/
structure Referable (id : String) : Prop where
  nonempty : id ≠ ""
  word : ∀ c ∈ id.toList, Markup.WordChar c

namespace Markup

/-- Every reference of the markup can be told from what stands around it. -/
def AllReferable (markup : Markup String) : Prop :=
  ∀ id ∈ markup.references, Referable id

/-- The tokens of the text of a markup. -/
def words : Markup String → List Token
  | ref id => [.word (String.ofList ('#' :: id.toList))]
  | primitive type => [.word type.name]
  | empty => [.opening, .word "empty", .closing]
  | nullable inner => .opening :: .word "nullable" :: (inner.words ++ [.closing])
  | list item => .opening :: .word "list" :: (item.words ++ [.closing])
  | dictionary key value =>
    .opening :: .word "dictionary" :: (key.words ++ (value.words ++ [.closing]))

/-! ## Splitting the text into words -/

section Scan

variable {word rest : List Char}

/-- A word is over before the text that follows. -/
inductive EndsWord : List Char → Prop
  | nil : EndsWord []
  | opening (rest : List Char) : EndsWord ('{' :: rest)
  | closing (rest : List Char) : EndsWord ('}' :: rest)
  | space (rest : List Char) : EndsWord (' ' :: rest)

theorem scan_opening (rest : List Char) :
    Token.scan word ('{' :: rest) = Token.ofReversed word ++ .opening :: Token.scan [] rest := rfl

theorem scan_closing (rest : List Char) :
    Token.scan word ('}' :: rest) = Token.ofReversed word ++ .closing :: Token.scan [] rest := rfl

theorem scan_space (rest : List Char) :
    Token.scan word (' ' :: rest) = Token.ofReversed word ++ Token.scan [] rest := rfl

/-- The characters of a word are gathered. -/
theorem scan_word (hword : ∀ c ∈ word, WordChar c) (gathered : List Char) :
    Token.scan gathered (word ++ rest) = Token.scan (word.reverse ++ gathered) rest := by
  induction word generalizing gathered with
  | nil => rfl
  | cons c word ih =>
      obtain ⟨hc, hword⟩ := List.forall_mem_cons.1 hword
      rw [List.cons_append, Token.scan, if_neg hc.not_opening, if_neg hc.not_closing,
        if_neg (by rw [hc.not_blank]; exact Bool.false_ne_true), ih hword, List.reverse_cons,
        List.append_assoc]
      rfl

theorem EndsWord.not_wordChar (h : EndsWord rest) : ∀ c ∈ rest.head?, ¬WordChar c := by
  intro c hc hword
  cases h with
  | nil => cases hc
  | opening =>
      cases hc
      exact hword.not_opening rfl
  | closing =>
      cases hc
      exact hword.not_closing rfl
  | space =>
      cases hc
      exact absurd hword.not_blank (by decide)

/-- What has been gathered is a token when no more characters of a word follow. -/
theorem scan_gathered (gathered : List Char) (hrest : ∀ c ∈ rest.head?, ¬WordChar c) :
    Token.scan gathered rest = Token.ofReversed gathered ++ Token.scan [] rest := by
  cases rest with
  | nil => exact (List.append_nil _).symm
  | cons c rest =>
      rw [Token.scan, Token.scan]
      split
      · rfl
      split
      · rfl
      split
      · rfl
      next hopening hclosing hblank =>
        exact (hrest c rfl ⟨hopening, hclosing, Bool.eq_false_iff.2 hblank⟩).elim

/-- A word becomes one token when it is over. -/
theorem scan_run (hword : ∀ c ∈ word, WordChar c) (hnonempty : word ≠ [])
    (hrest : ∀ c ∈ rest.head?, ¬WordChar c) :
    Token.scan [] (word ++ rest) = .word (String.ofList word) :: Token.scan [] rest := by
  rw [scan_word hword, List.append_nil, scan_gathered _ hrest, Token.ofReversed,
    if_neg (by simpa using hnonempty), List.reverse_reverse]
  rfl

end Scan

/-- The text is all of word characters. -/
def isWord (text : String) : Bool :=
  text.toList.all fun c => c ≠ '{' && c ≠ '}' && !Text.isWhitespace c

theorem wordChar_of_isWord {text : String} (h : isWord text = true) :
    ∀ c ∈ text.toList, WordChar c := by
  intro c hc
  have hplain := List.all_eq_true.1 h c hc
  simp only [ne_eq, Bool.and_eq_true, decide_eq_true_eq, Bool.not_eq_true'] at hplain
  exact ⟨hplain.1.1, hplain.1.2, hplain.2⟩

theorem isWord_primitive (type : Primitive) : isWord type.name = true := by
  cases type <;> decide

/-- A form opens with a brace and its name, and each part follows a blank. -/
theorem scan_formChars {form : String} (hform : isWord form = true) (hnonempty : form.toList ≠ [])
    (parts : List (List Char)) (rest : List Char) :
    Token.scan [] (formChars form parts ++ rest) =
      .opening :: .word form :: Token.scan [] (parts.flatMap (' ' :: ·) ++ '}' :: rest) := by
  have htext : formChars form parts ++ rest =
      '{' :: (form.toList ++ (parts.flatMap (' ' :: ·) ++ '}' :: rest)) := by
    simp [formChars]
  have hends : EndsWord (parts.flatMap (' ' :: ·) ++ '}' :: rest) := by
    cases parts with
    | nil => exact .closing rest
    | cons part parts => exact .space _
  rw [htext, scan_opening, scan_run (wordChar_of_isWord hform) hnonempty hends.not_wordChar,
    String.ofList_toList]
  rfl

/-- The text of a markup is split into the words of the markup. -/
theorem scan_chars {markup : Markup String} (hids : markup.AllReferable) {rest : List Char}
    (hrest : EndsWord rest) :
    Token.scan [] (markup.chars ++ rest) = markup.words ++ Token.scan [] rest := by
  induction markup generalizing rest with
  | ref id =>
      have hid := hids id (List.mem_singleton.2 rfl)
      refine scan_run (List.forall_mem_cons.2 ⟨⟨?_, ?_, ?_⟩, hid.word⟩)
        (List.cons_ne_nil _ _) hrest.not_wordChar <;> decide
  | primitive type =>
      have hname : type.name.toList ≠ [] := by cases type <;> decide
      have hscan := scan_run (wordChar_of_isWord (isWord_primitive type)) hname hrest.not_wordChar
      rwa [String.ofList_toList] at hscan
  | empty =>
      rw [chars, scan_formChars (by decide) (by decide)]
      rfl
  | nullable inner ih =>
      rw [chars, scan_formChars (by decide) (by decide)]
      simp only [List.flatMap_cons, List.flatMap_nil, List.append_nil, List.cons_append]
      rw [scan_space, ih hids (.closing rest), scan_closing]
      simp [words, Token.ofReversed]
  | list item ih =>
      rw [chars, scan_formChars (by decide) (by decide)]
      simp only [List.flatMap_cons, List.flatMap_nil, List.append_nil, List.cons_append]
      rw [scan_space, ih hids (.closing rest), scan_closing]
      simp [words, Token.ofReversed]
  | dictionary key value ihkey ihvalue =>
      obtain ⟨hkey, hvalue⟩ := List.forall_mem_append.1 hids
      rw [chars, scan_formChars (by decide) (by decide)]
      simp only [List.flatMap_cons, List.flatMap_nil, List.append_nil, List.cons_append,
        List.append_assoc]
      rw [scan_space, ihkey hkey (.space _), scan_space, ihvalue hvalue (.closing rest),
        scan_closing]
      simp [words, Token.ofReversed]

/-- The tokens of the text of a markup are its words. -/
theorem tokens_display {markup : Markup String} (hids : markup.AllReferable) :
    tokens markup.display = markup.words := by
  have hscan := scan_chars hids .nil
  rw [List.append_nil] at hscan
  rw [tokens, display, String.toList_ofList, hscan, Token.scan, Token.ofReversed]
  exact List.append_nil _

/-! ## Taking the words together -/

theorem ofWord_ref {id : String} (h : Referable id) :
    ofWord (String.ofList ('#' :: id.toList)) = .ok (.ref id) := by
  have hnonempty : id.toList.isEmpty = false := by
    rw [List.isEmpty_eq_false_iff]
    exact fun hnil => h.nonempty (String.toList_eq_nil_iff.1 hnil)
  rw [ofWord, String.toList_ofList]
  simp only [hnonempty, String.ofList_toList]
  rfl

theorem ofWord_primitive (type : Primitive) : ofWord type.name = .ok (.primitive type) := by
  cases type <;> rfl

theorem ofTokens_nullable (fuel : Nat) (rest : List Token) :
    ofTokens (fuel + 1) (.opening :: .word "nullable" :: rest) = (do
      let (inner, rest) ← ofTokens fuel rest
      closed (.nullable inner) rest) := rfl

theorem ofTokens_list (fuel : Nat) (rest : List Token) :
    ofTokens (fuel + 1) (.opening :: .word "list" :: rest) = (do
      let (item, rest) ← ofTokens fuel rest
      closed (.list item) rest) := rfl

theorem ofTokens_dictionary (fuel : Nat) (rest : List Token) :
    ofTokens (fuel + 1) (.opening :: .word "dictionary" :: rest) = (do
      let (key, rest) ← ofTokens fuel rest
      let (value, rest) ← ofTokens fuel rest
      closed (.dictionary key value) rest) := rfl

/-- There is fuel left where there are words left. -/
theorem exists_fuel {markup : Markup String} {fuel : Nat} (h : markup.words.length ≤ fuel) :
    ∃ less, fuel = less + 1 := by
  have hwords : 0 < markup.words.length := by cases markup <;> exact Nat.succ_pos _
  exact ⟨fuel - 1, (Nat.succ_pred_eq_of_pos (Nat.lt_of_lt_of_le hwords h)).symm⟩

/-- The words of a markup are read as the markup, whatever comes after them. -/
theorem ofTokens_words {markup : Markup String} (hids : markup.AllReferable) {fuel : Nat}
    (hfuel : markup.words.length ≤ fuel) (rest : List Token) :
    ofTokens fuel (markup.words ++ rest) = .ok (markup, rest) := by
  induction markup generalizing fuel rest with
  | ref id =>
      obtain ⟨fuel, rfl⟩ := exists_fuel hfuel
      change (do
        let markup ← ofWord (String.ofList ('#' :: id.toList))
        return (markup, rest) : Except Fault (Markup String × List Token)) = _
      rw [ofWord_ref (hids id (List.mem_singleton.2 rfl))]
      rfl
  | primitive type =>
      obtain ⟨fuel, rfl⟩ := exists_fuel hfuel
      change (do
        let markup ← ofWord type.name
        return (markup, rest) : Except Fault (Markup String × List Token)) = _
      rw [ofWord_primitive]
      rfl
  | empty =>
      obtain ⟨fuel, rfl⟩ := exists_fuel hfuel
      rfl
  | nullable inner ih =>
      obtain ⟨fuel, rfl⟩ := exists_fuel hfuel
      have hinner : inner.words.length ≤ fuel := by
        simp only [words, List.length_cons, List.length_append] at hfuel
        omega
      simp only [words, List.cons_append, List.append_assoc, ofTokens_nullable]
      rw [ih hids hinner]
      rfl
  | list item ih =>
      obtain ⟨fuel, rfl⟩ := exists_fuel hfuel
      have hitem : item.words.length ≤ fuel := by
        simp only [words, List.length_cons, List.length_append] at hfuel
        omega
      simp only [words, List.cons_append, List.append_assoc, ofTokens_list]
      rw [ih hids hitem]
      rfl
  | dictionary key value ihkey ihvalue =>
      obtain ⟨fuel, rfl⟩ := exists_fuel hfuel
      obtain ⟨hkey, hvalue⟩ := List.forall_mem_append.1 hids
      simp only [words, List.length_cons, List.length_append] at hfuel
      have hkeyfuel : key.words.length ≤ fuel := by omega
      have hvaluefuel : value.words.length ≤ fuel := by omega
      simp only [words, List.cons_append, List.append_assoc, ofTokens_dictionary]
      rw [ihkey hkey hkeyfuel]
      simp only [bind, Except.bind]
      rw [ihvalue hvalue hvaluefuel]
      rfl

/-! ## Only such references are read -/

/-- Words have no characters that end them. -/
theorem wordChar_of_mem_scan {word cs : List Char} {text : String}
    (hword : ∀ c ∈ word, WordChar c) (h : .word text ∈ Token.scan word cs) :
    ∀ c ∈ text.toList, WordChar c := by
  have hgathered : ∀ {word : List Char}, (∀ c ∈ word, WordChar c) →
      .word text ∈ Token.ofReversed word → ∀ c ∈ text.toList, WordChar c := by
    intro word hword h
    rw [Token.ofReversed] at h
    split at h
    · cases h
    · cases List.mem_singleton.1 h
      simpa using hword
  induction cs generalizing word with
  | nil => exact hgathered hword h
  | cons c cs ih =>
      rw [Token.scan] at h
      split at h
      · rcases List.mem_append.1 h with h | h
        · exact hgathered hword h
        · exact ih (List.forall_mem_nil _) ((List.mem_cons.1 h).resolve_left nofun)
      split at h
      · rcases List.mem_append.1 h with h | h
        · exact hgathered hword h
        · exact ih (List.forall_mem_nil _) ((List.mem_cons.1 h).resolve_left nofun)
      split at h
      · rcases List.mem_append.1 h with h | h
        · exact hgathered hword h
        · exact ih (List.forall_mem_nil _) h
      · next hopening hclosing hblank =>
          exact ih (List.forall_mem_cons.2
            ⟨⟨hopening, hclosing, Bool.eq_false_iff.2 hblank⟩, hword⟩) h

/-- A word that is read by itself is the word of what is read. -/
theorem words_of_ofWord {text : String} {markup : Markup String}
    (hword : ∀ c ∈ text.toList, WordChar c) (h : ofWord text = .ok markup) :
    markup.AllReferable ∧ markup.words = [.word text] := by
  unfold ofWord at h
  split at h
  next name htext =>
    split at h
    · cases h
    next hempty =>
      cases h
      refine ⟨fun id hid => ?_, ?_⟩
      · cases List.mem_singleton.1 hid
        refine ⟨fun heq => hempty ?_, fun c hc => hword c ?_⟩
        · rw [String.ofList_eq_empty_iff.1 heq]
          rfl
        · rw [htext]
          exact List.mem_cons_of_mem _ (by simpa using hc)
      · rw [words, String.toList_ofList, ← htext, String.ofList_toList]
  · split at h <;> cases h
    next type htype =>
      rw [Primitive.ofName?] at htype
      have hname : type.name = text := by simpa using List.find?_some htype
      exact ⟨nofun, by rw [words, hname]⟩

theorem closed_eq_ok_iff {markup result : Markup String} {tokens rest : List Token} :
    closed markup tokens = .ok (result, rest) ↔ markup = result ∧ tokens = .closing :: rest := by
  unfold closed
  split
  · simp
  next hnone =>
    refine ⟨nofun, ?_⟩
    rintro ⟨-, rfl⟩
    exact (hnone rest rfl).elim

/-- A form with one part left to read is read with the part and the brace after it. -/
theorem exists_of_closed {parsed : Except Fault (Markup String × List Token)}
    {form : Markup String → Markup String} {markup : Markup String} {rest : List Token}
    (h : (do
      let (part, rest) ← parsed
      closed (form part) rest) = .ok (markup, rest)) :
    ∃ part, parsed = .ok (part, .closing :: rest) ∧ markup = form part := by
  cases parsed with
  | error fault => cases h
  | ok result =>
      obtain ⟨rfl, hrest⟩ := closed_eq_ok_iff.1 h
      exact ⟨result.1, congrArg _ (Prod.ext rfl hrest), rfl⟩

/-- What is read at the start of tokens without such characters refers to such ids only, and the
tokens are its words with the rest after them. -/
theorem words_of_ofTokens {fuel : Nat} {tokens rest : List Token} {markup : Markup String}
    (hwords : ∀ text, .word text ∈ tokens → ∀ c ∈ text.toList, WordChar c)
    (h : ofTokens fuel tokens = .ok (markup, rest)) :
    markup.AllReferable ∧ tokens = markup.words ++ rest := by
  induction fuel generalizing tokens rest markup with
  | zero => cases h
  | succ fuel ih =>
      match tokens with
      | [] | .closing :: _ | [.opening] | .opening :: .opening :: _ | .opening :: .closing :: _ =>
        cases h
      | .word text :: tokens =>
        rw [ofTokens] at h
        cases hword : ofWord text with
        | error fault => rw [hword] at h; cases h
        | ok single =>
            rw [hword] at h
            cases h
            obtain ⟨hids, heq⟩ := words_of_ofWord (hwords text List.mem_cons_self) hword
            exact ⟨hids, by rw [heq]; rfl⟩
      | .opening :: .word form :: tokens =>
        have hparts : ∀ text, .word text ∈ tokens → ∀ c ∈ text.toList, WordChar c :=
          fun text htext => hwords text (List.mem_cons_of_mem _ (List.mem_cons_of_mem _ htext))
        rw [ofTokens] at h
        split at h
        next hform =>
          obtain ⟨rfl, rfl⟩ := closed_eq_ok_iff.1 h
          exact ⟨nofun, by rw [hform]; rfl⟩
        split at h
        next hform =>
          obtain ⟨inner, hinner, rfl⟩ := exists_of_closed h
          obtain ⟨hids, rfl⟩ := ih hparts hinner
          exact ⟨hids, by simp [words, hform]⟩
        split at h
        next hform =>
          obtain ⟨item, hitem, rfl⟩ := exists_of_closed h
          obtain ⟨hids, rfl⟩ := ih hparts hitem
          exact ⟨hids, by simp [words, hform]⟩
        split at h
        next hform =>
          cases hkey : ofTokens fuel tokens with
          | error fault => rw [hkey] at h; cases h
          | ok result =>
              obtain ⟨key, between⟩ := result
              rw [hkey] at h
              obtain ⟨value, hvalue, rfl⟩ := exists_of_closed h
              obtain ⟨hids, rfl⟩ := ih hparts hkey
              obtain ⟨hids', rfl⟩ :=
                ih (fun text htext => hparts text (List.mem_append_right _ htext)) hvalue
              exact ⟨List.forall_mem_append.2 ⟨hids, hids'⟩, by simp [words, hform]⟩
        · cases h

/-! ## The text as a whole -/

/-- A text is read as a markup exactly if its tokens are the words of the markup and every
reference can be told from what stands around it. -/
theorem parse_eq_ok_iff {text : String} {markup : Markup String} :
    parse text = .ok markup ↔ tokens text = markup.words ∧ markup.AllReferable := by
  constructor
  · intro h
    unfold parse at h
    simp only [bind, Except.bind] at h
    split at h
    · cases h
    next result htokens =>
      split at h
      next hrest =>
        cases h
        obtain ⟨hids, heq⟩ := words_of_ofTokens
          (fun text htext => wordChar_of_mem_scan (List.forall_mem_nil _) htext) htokens
        rw [hrest, List.append_nil] at heq
        exact ⟨heq, hids⟩
      · cases h
  · rintro ⟨htext, hids⟩
    have htokens := ofTokens_words hids (Nat.le_succ _) []
    rw [List.append_nil] at htokens
    rw [parse, htext]
    simp only [bind, Except.bind]
    rw [htokens]
    rfl

theorem read_eq_ok_iff_parse {text : String} {markup : Markup String} :
    read text = .ok markup ↔ parse text = .ok markup := by
  unfold read
  cases parse text with
  | error fault => exact iff_of_false nofun nofun
  | ok parsed => simp

/-- Reading the text of a markup gives the markup. -/
theorem read_display {markup : Markup String} (hids : markup.AllReferable) :
    read markup.display = .ok markup :=
  read_eq_ok_iff_parse.2 (parse_eq_ok_iff.2 ⟨tokens_display hids, hids⟩)

/-- The references of markup that is read from a text can be told from what stands around
them. -/
theorem allReferable_of_read {text : String} {markup : Markup String}
    (h : read text = .ok markup) : markup.AllReferable :=
  (parse_eq_ok_iff.1 (read_eq_ok_iff_parse.1 h)).2

theorem display_ref (id : String) : (Markup.ref id).display = "#" ++ id := by
  rw [display, chars, ← String.toList_inj, String.toList_ofList]
  simp

/-- A hash sign with an id after it is read as the reference to the id exactly if the id can
be told from what stands around it. -/
theorem read_hash_iff {id : String} : read ("#" ++ id) = .ok (.ref id) ↔ Referable id := by
  rw [← display_ref]
  constructor
  · exact fun h => allReferable_of_read h id (List.mem_singleton.2 rfl)
  · exact fun h => read_display fun other hother => List.mem_singleton.1 hother ▸ h

end Markup

end WireSchema
