/-
# Plain configuration text is read

What the reader makes of the plainest forms of each part of a configuration file: sections with
one name, keys of letters, digits, underscores and hyphens, truth values, strings without escapes,
and arrays of such strings on one line or on several.  Every statement leaves open what follows in
the text.
-/

import WireSchema.Settings.Reader

namespace WireSchema.Settings

variable {c : Char} {cs rest : List Char} {n room fuel : Nat}

/-! ## Blanks and line breaks -/

theorem ne_of_holds {p : Char → Bool} {d : Char} (h : p c = true) (hd : p d = false) : c ≠ d := by
  rintro rfl
  rw [hd] at h
  contradiction

/-- The character is not a blank and starts neither a comment nor a line break. -/
def startsToken (c : Char) : Bool :=
  !Text.isInlineBlank c && c ≠ '#' && c ≠ '\n' && c ≠ '\r'

theorem skipBlanks_blank (cs : List Char) : skipBlanks (' ' :: cs) = skipBlanks cs :=
  List.dropWhile_cons_of_pos (by decide)

theorem skipBlanks_cons (h : Text.isInlineBlank c = false) (cs : List Char) :
    skipBlanks (c :: cs) = c :: cs :=
  List.dropWhile_cons_of_neg (by simp [h])

theorem skipBlanks_token (h : startsToken c = true) (cs : List Char) :
    skipBlanks (c :: cs) = c :: cs := by
  refine skipBlanks_cons ?_ cs
  cases hblank : Text.isInlineBlank c
  · rfl
  · simp [startsToken, hblank] at h

theorem skipComment_token (h : startsToken c = true) (cs : List Char) :
    skipComment (c :: cs) = c :: cs := by
  have hhash : c ≠ '#' := ne_of_holds h rfl
  simp [skipComment, hhash]

theorem lineBreak?_token (h : startsToken c = true) (cs : List Char) :
    lineBreak? (c :: cs) = none := by
  have hline : c ≠ '\n' := ne_of_holds h rfl
  have hreturn : c ≠ '\r' := ne_of_holds h rfl
  simp [lineBreak?, hline, hreturn]

/-- Nothing is skipped in front of a token. -/
theorem skipLines_token (h : startsToken c = true) (n : Nat) (cs : List Char) :
    skipLines n (c :: cs) = c :: cs := by
  cases n with
  | zero => rfl
  | succ n => rw [skipLines, skipBlanks_token h, skipComment_token h, lineBreak?_token h]

theorem skipLines_blank (n : Nat) (cs : List Char) :
    skipLines (n + 1) (' ' :: cs) = skipLines (n + 1) cs := by
  rw [skipLines, skipLines, skipBlanks_blank]

/-- The end of an empty line is skipped. -/
theorem skipLines_break (n : Nat) (cs : List Char) :
    skipLines (n + 1) ('\n' :: cs) = skipLines n cs := by
  rw [skipLines, skipBlanks_cons (by decide)]
  rfl

theorem lineEnd?_break (cs : List Char) : lineEnd? ('\n' :: cs) = some cs := by
  rw [lineEnd?, skipBlanks_cons (by decide)]
  rfl

/-! ## Keys -/

/-- The text does not go on with a character that satisfies `p`. -/
def StopsAt (p : Char → Bool) (rest : List Char) : Prop :=
  ∀ c ∈ rest.head?, p c = false

theorem stopsAt_nil (p : Char → Bool) : StopsAt p [] := by
  simp [StopsAt]

theorem stopsAt_cons {p : Char → Bool} (h : p c = false) (cs : List Char) :
    StopsAt p (c :: cs) := by
  simp [StopsAt, h]

theorem takeWhile_of_stopsAt {p : Char → Bool} (hcs : ∀ c ∈ cs, p c = true)
    (h : StopsAt p rest) : (cs ++ rest).takeWhile p = cs := by
  rw [List.takeWhile_append_of_pos hcs]
  cases rest with
  | nil => simp
  | cons d rest => rw [List.takeWhile_cons_of_neg (by simp [h d rfl]), List.append_nil]

theorem dropWhile_of_stopsAt {p : Char → Bool} (hcs : ∀ c ∈ cs, p c = true)
    (h : StopsAt p rest) : (cs ++ rest).dropWhile p = rest := by
  rw [List.dropWhile_append_of_pos hcs]
  cases rest with
  | nil => rfl
  | cons d rest => exact List.dropWhile_cons_of_neg (by simp [h d rfl])

/-- A word is one or more letters, digits, underscores and hyphens.  It can stand as a key without
quotes, and in a string each of its characters stands for itself. -/
structure IsWord (name : String) : Prop where
  ne_nil : name.toList ≠ []
  isKeyChar : ∀ c ∈ name.toList, isKeyChar c = true

instance (name : String) : Decidable (IsWord name) :=
  decidable_of_iff (name.toList ≠ [] ∧ name.toList.all isKeyChar = true)
    ⟨fun h => ⟨h.1, List.all_eq_true.1 h.2⟩, fun h => ⟨h.1, List.all_eq_true.2 h.2⟩⟩

theorem IsWord.exists_cons {name : String} (h : IsWord name) :
    ∃ c cs, name.toList = c :: cs ∧ Settings.isKeyChar c = true := by
  obtain ⟨c, cs, hcs⟩ := List.exists_cons_of_ne_nil h.ne_nil
  exact ⟨c, cs, hcs, h.isKeyChar c (by rw [hcs]; exact List.mem_cons_self)⟩

/-- Key characters lie between the hyphen and the small z. -/
theorem toNat_of_isKeyChar (h : isKeyChar c = true) : 0x2D ≤ c.toNat ∧ c.toNat ≤ 0x7A := by
  simp only [isKeyChar, Bool.or_eq_true, decide_eq_true_eq] at h
  rcases h with (halphanum | rfl) | rfl
  · delta Char.isAlphanum Char.isAlpha Char.isUpper Char.isLower Char.isDigit at halphanum
    simp only [Bool.or_eq_true, Bool.and_eq_true, decide_eq_true_eq] at halphanum
    change ((65 ≤ c.toNat ∧ c.toNat ≤ 90) ∨ (97 ≤ c.toNat ∧ c.toNat ≤ 122)) ∨
      (48 ≤ c.toNat ∧ c.toNat ≤ 57) at halphanum
    omega
  · decide
  · decide

theorem isScalarChar_of_isKeyChar (h : isKeyChar c = true) : isScalarChar c = true := by
  simp only [isKeyChar, isScalarChar, Bool.or_eq_true] at h ⊢
  exact .inl (.inl h)

theorem startsToken_of_isScalarChar (h : isScalarChar c = true) : startsToken c = true := by
  have hne (d : Char) (hd : isScalarChar d = false) : c ≠ d := ne_of_holds h hd
  simp [startsToken, Text.isInlineBlank, hne ' ' rfl, hne '\t' rfl, hne '#' rfl, hne '\n' rfl,
    hne '\r' rfl]

theorem startsToken_of_isKeyChar (h : isKeyChar c = true) : startsToken c = true :=
  startsToken_of_isScalarChar (isScalarChar_of_isKeyChar h)

theorem lineString?_of_isKeyChar (h : isKeyChar c = true) (cs : List Char) :
    lineString? (c :: cs) = none := by
  have hdouble : c ≠ '"' := ne_of_holds h rfl
  have hsingle : c ≠ '\'' := ne_of_holds h rfl
  simp [lineString?, hdouble, hsingle]

theorem keyPart_word {name : String} (hname : IsWord name) (h : StopsAt isKeyChar rest) :
    keyPart (name.toList ++ rest) = some (name, rest) := by
  have htake := takeWhile_of_stopsAt hname.isKeyChar h
  have hdrop := dropWhile_of_stopsAt hname.isKeyChar h
  obtain ⟨c, cs, hcs, hc⟩ := hname.exists_cons
  have hstring : lineString? (name.toList ++ rest) = none := by
    rw [hcs, List.cons_append]
    exact lineString?_of_isKeyChar hc _
  rw [keyPart, hstring]
  simp only [htake, hdrop]
  split
  next heq => exact absurd heq hname.ne_nil
  next => rw [String.ofList_toList]

/-- A word is a key by itself if no point follows it. -/
theorem keyPath_word {name : String} (hname : IsWord name) (h : StopsAt isKeyChar rest)
    (hpoint : ∀ tail, skipBlanks rest ≠ '.' :: tail) :
    keyPath (room + 1) (name.toList ++ rest) = some ([name], skipBlanks rest) := by
  obtain ⟨c, cs, hcs, hc⟩ := hname.exists_cons
  have hblanks : skipBlanks (name.toList ++ rest) = name.toList ++ rest := by
    rw [hcs, List.cons_append]
    exact skipBlanks_token (startsToken_of_isKeyChar hc) _
  simp only [keyPath, hblanks, keyPart_word hname h, Option.bind_eq_bind, Option.bind_some]

/-! ## Values -/

theorem not_isControl_of_isKeyChar (h : isKeyChar c = true) : isControl c = false := by
  obtain ⟨hlow, hhigh⟩ := toNat_of_isKeyChar h
  have hspace : ¬ c.toNat < 0x20 := by omega
  have hdelete : c.toNat ≠ 0x7F := by omega
  simp [isControl, hspace, hdelete]

/-- A word is read up to the quote after it. -/
theorem body_word {text : List Char} (h : ∀ c ∈ text, isKeyChar c = true) (rest : List Char)
    (hfuel : text.length < fuel) :
    Quoting.body ⟨'"', true, false⟩ fuel (text ++ '"' :: rest) = some (text, rest) := by
  induction text generalizing fuel with
  | nil =>
    obtain ⟨fuel, rfl⟩ := Nat.exists_eq_add_of_lt hfuel
    simp [Quoting.body, Quoting.closing?]
  | cons c text ih =>
    obtain ⟨fuel, rfl⟩ : ∃ m, fuel = m + 1 := ⟨fuel - 1, by omega⟩
    have hc : isKeyChar c = true := h c List.mem_cons_self
    have hmark : c ≠ '"' := ne_of_holds hc (by decide)
    have hescape : c ≠ '\\' := ne_of_holds hc (by decide)
    have htext : Quoting.body ⟨'"', true, false⟩ fuel (text ++ '"' :: rest) = some (text, rest) :=
      ih (fun d hd => h d (List.mem_cons_of_mem _ hd)) (by simpa using hfuel)
    simp [Quoting.body, Quoting.closing?, Quoting.lineBreak?, hmark, hescape,
      not_isControl_of_isKeyChar hc, htext]

theorem string?_word {name : String} (hname : IsWord name) (rest : List Char) :
    string? ('"' :: (name.toList ++ '"' :: rest)) = some (some (name, rest)) := by
  obtain ⟨c, cs, hcs, hc⟩ := hname.exists_cons
  have hmark : c ≠ '"' := ne_of_holds hc (by decide)
  have hbody : Quoting.body ⟨'"', true, false⟩ ((name.toList ++ '"' :: rest).length + 1)
      (name.toList ++ '"' :: rest) = some (name.toList, rest) :=
    body_word hname.isKeyChar rest (by rw [List.length_append]; omega)
  unfold string?
  split
  next heq => simp [hcs, hmark] at heq
  next heq => simp at heq
  next =>
    simp only [lineString?, Quoting.read, Quoting.lineBreak?, Option.getD_none, hbody,
      Bool.false_eq_true, if_false, Option.bind_eq_bind, Option.bind_some, Option.pure_def,
      String.ofList_toList]

theorem scalar_word {name : String} (hname : IsWord name) (rest : List Char) :
    scalar ('"' :: (name.toList ++ '"' :: rest)) = some (.text name, rest) := by
  rw [scalar, string?_word hname]
  rfl

theorem fixedDigits_eq_none (h : Text.digitValue? 10 c = none) (n : Nat) (cs : List Char) :
    fixedDigits (n + 1) (c :: cs) = none := by
  simp [fixedDigits, Text.natural?, h]

/-- A date or time starts with a digit. -/
theorem moment?_eq_none (h : Text.digitValue? 10 c = none) (cs : List Char) :
    moment? (c :: cs) = none := by
  simp [moment?, date?, time?, clock?, fixedDigits_eq_none h]

theorem string?_eq_none (hdouble : c ≠ '"') (hsingle : c ≠ '\'') (cs : List Char) :
    string? (c :: cs) = none := by
  simp [string?, lineString?, hdouble, hsingle]

/-- A truth value or a number with a sign is read up to the first character that is not a part
of it. -/
theorem scalar_unquoted (hcs : (c :: cs).all isScalarChar = true)
    (hdigit : Text.digitValue? 10 c = none) (h : StopsAt isScalarChar rest) :
    scalar (c :: cs ++ rest) = (scalarOf (c :: cs)).map fun v => (v, rest) := by
  have hchars := List.all_eq_true.1 hcs
  have htake := takeWhile_of_stopsAt hchars h
  have hdrop := dropWhile_of_stopsAt hchars h
  have hc : isScalarChar c = true := hchars c List.mem_cons_self
  rw [List.cons_append] at htake hdrop ⊢
  rw [scalar, string?_eq_none (ne_of_holds hc rfl) (ne_of_holds hc rfl), moment?_eq_none hdigit,
    htake, hdrop]

theorem value_eq_scalar (harray : c ≠ '[') (htable : c ≠ '{') (cs : List Char) :
    value room (fuel + 1) (c :: cs) = scalar (c :: cs) := by
  simp [value, harray, htable]

/-- The text spells the value: it is read so whatever follows, if that does not go on with a
character of a number. -/
structure Spells (text : List Char) (new : SettingValue) : Prop where
  exists_cons : ∃ c cs, text = c :: cs ∧ startsToken c = true
  value_append : ∀ fuel rest, text.length ≤ fuel → StopsAt isScalarChar rest →
    value standardRoom fuel (text ++ rest) = some (new, rest)

theorem spells_unquoted {new : SettingValue} (hcs : (c :: cs).all isScalarChar = true)
    (hdigit : Text.digitValue? 10 c = none) (hnew : scalarOf (c :: cs) = some new) :
    Spells (c :: cs) new where
  exists_cons :=
    ⟨c, cs, rfl, startsToken_of_isScalarChar (List.all_eq_true.1 hcs c List.mem_cons_self)⟩
  value_append fuel rest hfuel h := by
    obtain ⟨fuel, rfl⟩ := Nat.exists_eq_succ_of_ne_zero (Nat.ne_zero_of_lt hfuel)
    have hc : isScalarChar c = true := List.all_eq_true.1 hcs c List.mem_cons_self
    have hscalar := scalar_unquoted hcs hdigit h
    rw [List.cons_append] at hscalar ⊢
    rw [value_eq_scalar (ne_of_holds hc rfl) (ne_of_holds hc rfl), hscalar, hnew]
    rfl

/-- A word in double quotes. -/
def inQuotes (name : String) : List Char :=
  '"' :: (name.toList ++ ['"'])

theorem value_inQuotes (room fuel : Nat) {name : String} (hname : IsWord name) (rest : List Char) :
    value room (fuel + 1) (inQuotes name ++ rest) = some (.text name, rest) := by
  simp only [inQuotes, List.cons_append, List.append_assoc, List.nil_append]
  rw [value_eq_scalar (by decide) (by decide)]
  exact scalar_word hname rest

theorem spells_inQuotes {name : String} (hname : IsWord name) :
    Spells (inQuotes name) (.text name) where
  exists_cons := ⟨'"', _, rfl, rfl⟩
  value_append fuel rest hfuel _ := by
    obtain ⟨fuel, rfl⟩ : ∃ m, fuel = m + 1 := ⟨fuel - 1, by simp [inQuotes] at hfuel; omega⟩
    exact value_inQuotes _ _ hname rest

/-! ### Arrays -/

theorem skipLines_inQuotes (n : Nat) (name : String) (rest : List Char) :
    skipLines n (inQuotes name ++ rest) = inQuotes name ++ rest :=
  skipLines_token (by decide) n _

/-- The end of an array. -/
theorem items_nil (rest : List Char) : items room (fuel + 1) (']' :: rest) = some ([], rest) := by
  rw [items]

/-- The last item of an array, with the bracket right after it. -/
theorem items_last {name : String} (hname : IsWord name) (rest : List Char) :
    items room (fuel + 2) (inQuotes name ++ ']' :: rest) = some ([.text name], rest) := by
  have hvalue := value_inQuotes room fuel hname (']' :: rest)
  rw [inQuotes, List.cons_append] at hvalue ⊢
  rw [items, hvalue]
  · simp only [Option.bind_eq_bind, Option.bind_some, skipLines_token (c := ']') (by decide),
      Option.pure_def]
  · simp

/-- An item of an array, with a comma after it. -/
theorem items_cons {name : String} (hname : IsWord name) {more : List SettingValue}
    {after : List Char}
    (h : items room (fuel + 1) (skipLines rest.length rest) = some (more, after)) :
    items room (fuel + 2) (inQuotes name ++ ',' :: rest) = some (.text name :: more, after) := by
  have hvalue := value_inQuotes room fuel hname (',' :: rest)
  rw [inQuotes, List.cons_append] at hvalue ⊢
  rw [items, hvalue]
  · simp only [Option.bind_eq_bind, Option.bind_some, skipLines_token (c := ',') (by decide), h,
      Option.pure_def]
  · simp

/-- The words as items of an array with a line for each: four blanks, the word in quotes and a
comma. -/
def itemLines (names : List String) : List Char :=
  names.flatMap fun name => [' ', ' ', ' ', ' '] ++ inQuotes name ++ [',', '\n']

theorem length_le_length_itemLines (names : List String) :
    names.length ≤ (itemLines names).length := by
  induction names with
  | nil => exact Nat.zero_le _
  | cons name names ih =>
    simp only [itemLines, List.flatMap_cons, List.length_append, List.length_cons] at ih ⊢
    omega

theorem items_itemLines {names : List String} (hnames : ∀ name ∈ names, IsWord name)
    (rest : List Char) (hn : 0 < n) (hfuel : names.length < fuel) :
    items room fuel (skipLines n (itemLines names ++ ']' :: rest)) =
      some (names.map .text, rest) := by
  -- After a comma the number of lines to skip is the length of the rest, so it is left free.
  induction names generalizing n fuel with
  | nil =>
    obtain ⟨fuel, rfl⟩ := Nat.exists_eq_succ_of_ne_zero (Nat.ne_zero_of_lt hfuel)
    simp [itemLines, skipLines_token (c := ']') (by decide), items_nil]
  | cons name names ih =>
    obtain ⟨n, rfl⟩ := Nat.exists_eq_succ_of_ne_zero (Nat.ne_of_gt hn)
    obtain ⟨fuel, rfl⟩ : ∃ m, fuel = m + 2 :=
      ⟨fuel - 2, by rw [List.length_cons] at hfuel; omega⟩
    have hskip : skipLines (n + 1) (itemLines (name :: names) ++ ']' :: rest) =
        inQuotes name ++ ',' :: '\n' :: (itemLines names ++ ']' :: rest) := by
      rw [itemLines, List.flatMap_cons, ← itemLines]
      simp only [List.append_assoc, List.cons_append, List.nil_append, skipLines_blank,
        skipLines_inQuotes]
    rw [hskip]
    refine items_cons (hnames name List.mem_cons_self) ?_
    rw [List.length_cons, skipLines_break]
    exact ih (fun other hother => hnames other (List.mem_cons_of_mem _ hother))
      (by rw [List.length_append, List.length_cons]; omega) (by simpa using hfuel)

theorem value_array {new : List SettingValue} {after : List Char}
    (h : items 78 fuel (skipLines rest.length rest) = some (new, after)) :
    value standardRoom (fuel + 1) ('[' :: rest) = some (.array new, after) := by
  simp [value, standardRoom, h]

/-- An array of words, on one line if there are no two of them. -/
def arrayText : List String → List Char
  | [] => ['[', ']']
  | [name] => '[' :: (inQuotes name ++ [']'])
  | names => '[' :: '\n' :: (itemLines names ++ [']'])

theorem spells_arrayText {names : List String} (hnames : ∀ name ∈ names, IsWord name) :
    Spells (arrayText names) (.array (names.map .text)) where
  exists_cons := by
    unfold arrayText
    split <;> exact ⟨'[', _, rfl, rfl⟩
  value_append fuel rest hfuel _ := by
    match names with
    | [] =>
      obtain ⟨fuel, rfl⟩ : ∃ m, fuel = m + 2 :=
        ⟨fuel - 2, by simp [arrayText] at hfuel; omega⟩
      simp only [arrayText, List.cons_append, List.nil_append]
      refine value_array ?_
      rw [skipLines_token (by decide)]
      exact items_nil rest
    | [name] =>
      obtain ⟨fuel, rfl⟩ : ∃ m, fuel = m + 3 :=
        ⟨fuel - 3, by simp [arrayText, inQuotes] at hfuel; omega⟩
      simp only [arrayText, List.cons_append, List.append_assoc, List.nil_append]
      refine value_array ?_
      rw [skipLines_inQuotes]
      exact items_last (hnames name List.mem_cons_self) rest
    | first :: second :: names =>
      have hlength := length_le_length_itemLines (first :: second :: names)
      simp only [arrayText, List.cons_append, List.append_assoc, List.nil_append,
        List.length_cons, List.length_append] at hfuel hlength ⊢
      obtain ⟨fuel, rfl⟩ := Nat.exists_eq_succ_of_ne_zero (n := fuel) (by omega)
      refine value_array ?_
      rw [List.length_cons, skipLines_break]
      refine items_itemLines hnames rest (by rw [List.length_append, List.length_cons]; omega) ?_
      simp only [List.length_cons]
      omega

/-! ## Lines -/

variable {text : List Char} {new : SettingValue} {ls : List Line}

theorem header_word {name : String} (hname : IsWord name) (cs : List Char) :
    header Header.table 1 (name.toList ++ ']' :: '\n' :: cs) =
      some (.header (.table [name]), cs) := by
  have hblanks : skipBlanks (']' :: '\n' :: cs) = ']' :: '\n' :: cs :=
    skipBlanks_token (by decide) _
  have hkey : keyPath standardRoom (name.toList ++ ']' :: '\n' :: cs) =
      some ([name], ']' :: '\n' :: cs) := by
    rw [standardRoom, keyPath_word hname (stopsAt_cons (by decide) _) (by simp [hblanks]), hblanks]
  simp [header, hkey, lineEnd?_break]

theorem assignment_word {name : String} (hname : IsWord name) (htext : Spells text new)
    (cs : List Char) :
    assignment (name.toList ++ ' ' :: '=' :: ' ' :: (text ++ '\n' :: cs)) =
      some (.assignment ⟨[name], new⟩, cs) := by
  have hblanks : skipBlanks (' ' :: '=' :: ' ' :: (text ++ '\n' :: cs)) =
      '=' :: ' ' :: (text ++ '\n' :: cs) :=
    (skipBlanks_blank _).trans (skipBlanks_token (by decide) _)
  have hkey : keyPath standardRoom (name.toList ++ ' ' :: '=' :: ' ' :: (text ++ '\n' :: cs)) =
      some ([name], '=' :: ' ' :: (text ++ '\n' :: cs)) := by
    rw [standardRoom, keyPath_word hname (stopsAt_cons (by decide) _) (by simp [hblanks]), hblanks]
  have hstart : skipBlanks (' ' :: (text ++ '\n' :: cs)) = text ++ '\n' :: cs := by
    obtain ⟨c, tail, rfl, hc⟩ := htext.exists_cons
    rw [List.cons_append]
    exact (skipBlanks_blank _).trans (skipBlanks_token hc _)
  have hvalue : value standardRoom (text ++ '\n' :: cs).length (text ++ '\n' :: cs) =
      some (new, '\n' :: cs) :=
    htext.value_append _ _ (by simp) (stopsAt_cons (by decide) _)
  simp only [assignment, hkey, after?, hstart, hvalue, lineEnd?_break, if_true,
    Option.bind_eq_bind, Option.bind_some, Option.pure_def]

/-- The text consists of these lines. -/
def HasLines (cs : List Char) (ls : List Line) : Prop :=
  ∀ fuel, cs.length < fuel → lines fuel cs = some ls

theorem hasLines_nil : HasLines [] [] := by
  intro fuel hfuel
  obtain ⟨fuel, rfl⟩ := Nat.exists_eq_succ_of_ne_zero (Nat.ne_zero_of_lt hfuel)
  simp [lines, skipLines]

theorem HasLines.empty_line (h : HasLines cs ls) : HasLines ('\n' :: cs) ls := by
  intro fuel hfuel
  rw [List.length_cons] at hfuel
  rw [← h fuel (by omega)]
  obtain ⟨fuel, rfl⟩ := Nat.exists_eq_succ_of_ne_zero (Nat.ne_zero_of_lt hfuel)
  rw [lines, lines, List.length_cons, skipLines_break]

theorem HasLines.header (h : HasLines cs ls) (name : String) (hname : IsWord name) :
    HasLines ('[' :: (name.toList ++ ']' :: '\n' :: cs)) (.header (.table [name]) :: ls) := by
  intro fuel hfuel
  obtain ⟨fuel, rfl⟩ := Nat.exists_eq_succ_of_ne_zero (Nat.ne_zero_of_lt hfuel)
  have hrest : lines fuel cs = some ls := h fuel (by simp at hfuel; omega)
  have hline := header_word hname cs
  -- A key starts with no bracket, so this is not the header of an item.
  obtain ⟨c, key, hkey, hc⟩ := hname.exists_cons
  have hbracket : c ≠ '[' := ne_of_holds hc (by decide)
  rw [lines, skipLines_token (by decide)]
  rw [hkey, List.cons_append] at hline ⊢
  simp [hbracket, hline, hrest]

theorem HasLines.assignment (h : HasLines cs ls) (name : String) (hname : IsWord name)
    (htext : Spells text new) :
    HasLines (name.toList ++ ' ' :: '=' :: ' ' :: (text ++ '\n' :: cs))
      (.assignment ⟨[name], new⟩ :: ls) := by
  intro fuel hfuel
  obtain ⟨fuel, rfl⟩ := Nat.exists_eq_succ_of_ne_zero (Nat.ne_zero_of_lt hfuel)
  have hrest : lines fuel cs = some ls := h fuel (by simp at hfuel; omega)
  have hline := assignment_word hname htext cs
  obtain ⟨c, key, hkey, hc⟩ := hname.exists_cons
  have hbracket : c ≠ '[' := ne_of_holds hc (by decide)
  rw [hkey, List.cons_append] at hline ⊢
  rw [lines, skipLines_token (startsToken_of_isKeyChar hc)]
  simp [hbracket, hline, hrest]

/-- A text without a byte order mark holds what its lines make. -/
theorem parse_of_hasLines {text : String} (hmark : text.toList.head? ≠ some '\uFEFF')
    (h : HasLines text.toList ls) : parse text = treeOf (sectionsOf ⟨.none, []⟩ ls) := by
  have hlines := h _ (Nat.lt_succ_self _)
  unfold parse
  split
  next cs heq => simp [heq] at hmark
  next => simp [hlines]

end WireSchema.Settings
