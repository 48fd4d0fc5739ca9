/-
# JSON text is read back

A value without numbers is read back from its text in both layouts, if there is room for
its arrays and objects.  So different values have different texts.  In the compact layout
such a text is one line.
-/

import WireSchema.Proofs.Json.Strings

namespace WireSchema.Json

variable {layout : Layout} {room fuel depth : Nat} {cs rest after blanks : List Char}

/-! ## Blanks -/

/-- What separates the parts of a container is blank, but for the colon after a key. -/
structure Layout.Readable (layout : Layout) : Prop where
  gap : ∀ depth, ∀ c ∈ layout.gap depth, isBlank c = true
  colon : ∃ blanks, layout.colon = ':' :: blanks ∧ ∀ c ∈ blanks, isBlank c = true

theorem readable_compact : Layout.compact.Readable :=
  ⟨fun _ => nofun, [], rfl, nofun⟩

theorem readable_pretty : Layout.pretty.Readable := by
  refine ⟨fun depth c hc => ?_, [' '], rfl, List.forall_mem_singleton.2 rfl⟩
  rcases List.mem_cons.1 hc with rfl | hc
  · decide
  · obtain ⟨-, rfl⟩ := List.mem_replicate.1 hc
    decide

theorem skipBlanks_append (h : ∀ c ∈ blanks, isBlank c = true) (cs : List Char) :
    skipBlanks (blanks ++ cs) = skipBlanks cs :=
  List.dropWhile_append_of_pos h

theorem skipBlanks_cons {c : Char} (h : isBlank c = false) (cs : List Char) :
    skipBlanks (c :: cs) = c :: cs := by
  rw [skipBlanks, List.dropWhile_cons_of_neg]
  rw [h]
  exact Bool.false_ne_true

theorem value_append (h : ∀ c ∈ blanks, isBlank c = true) (cs : List Char) :
    value room fuel (blanks ++ cs) = value room fuel cs := by
  cases fuel with
  | zero => rw [value, value]
  | succ fuel => rw [value, value, skipBlanks_append h]

theorem moreItems_append (h : ∀ c ∈ blanks, isBlank c = true) (cs : List Char) :
    moreItems room fuel (blanks ++ cs) = moreItems room fuel cs := by
  cases fuel with
  | zero => rw [moreItems, moreItems]
  | succ fuel => rw [moreItems, moreItems, skipBlanks_append h]

theorem moreMembers_append (h : ∀ c ∈ blanks, isBlank c = true) (cs : List Char) :
    moreMembers room fuel (blanks ++ cs) = moreMembers room fuel cs := by
  cases fuel with
  | zero => rw [moreMembers, moreMembers]
  | succ fuel => rw [moreMembers, moreMembers, skipBlanks_append h]

theorem key_append (h : ∀ c ∈ blanks, isBlank c = true) (cs : List Char) :
    key (blanks ++ cs) = key cs := by
  rw [key, key, skipBlanks_append h]

/-! ## One step of reading -/

theorem value_eq_scalar {c : Char} (hblank : isBlank c = false) (hbracket : c ≠ '[')
    (hbrace : c ≠ '{') (cs : List Char) :
    value room (fuel + 1) (c :: cs) = scalar (c :: cs) := by
  rw [value, skipBlanks_cons hblank]
  split
  next heq =>
    injection heq with hhead
    exact absurd hhead hbracket
  next heq =>
    injection heq with hhead
    exact absurd hhead hbrace
  next => rfl

theorem quote_append (text : String) (rest : List Char) :
    quote text ++ rest = '"' :: (text.toList.flatMap escapeChar ++ '"' :: rest) := by
  simp [quote]

theorem value_string (text : String) (rest : List Char) :
    value room (fuel + 1) (quote text ++ rest) = some (string text, rest) := by
  rw [quote_append, value_eq_scalar (by decide) (by decide) (by decide)]
  change (stringBody _).map _ = _
  rw [stringBody_quote]
  rfl

theorem value_array_nil (rest : List Char) :
    value room (fuel + 1) ('[' :: ']' :: rest) = some (ofItems room [], rest) := by
  rw [value, skipBlanks_cons (by decide)]
  simp only [skipBlanks_cons (show isBlank ']' = false by decide)]

theorem value_array_cons {item : Json} {items : List Json}
    (hopen : ∀ tail, skipBlanks cs ≠ ']' :: tail)
    (hitem : value (room - 1) fuel cs = some (item, rest))
    (hitems : moreItems (room - 1) fuel rest = some (items, after)) :
    value room (fuel + 1) ('[' :: cs) = some (ofItems room (item :: items), after) := by
  rw [value, skipBlanks_cons (by decide)]
  simp only [hitem, bind, Option.bind, hitems]
  rfl

theorem moreItems_nil (rest : List Char) :
    moreItems room (fuel + 1) (']' :: rest) = some ([], rest) := by
  rw [moreItems, skipBlanks_cons (by decide)]
  rfl

theorem moreItems_cons {item : Json} {items : List Json}
    (hitem : value room fuel cs = some (item, rest))
    (hitems : moreItems room fuel rest = some (items, after)) :
    moreItems room (fuel + 1) (',' :: cs) = some (item :: items, after) := by
  rw [moreItems, skipBlanks_cons (by decide)]
  simp only [hitem, bind, Option.bind, hitems]
  rfl

/-- A key is read back with the colon after it. -/
theorem key_quote (hlayout : layout.Readable) (text : String) (rest : List Char) :
    ∃ blanks, (∀ c ∈ blanks, isBlank c = true) ∧
      key (quote text ++ (layout.colon ++ rest)) = some (some text, blanks ++ rest) := by
  obtain ⟨blanks, hcolon, hblanks⟩ := hlayout.colon
  refine ⟨blanks, hblanks, ?_⟩
  rw [quote_append, hcolon, key, skipBlanks_cons (by decide)]
  simp only [stringBody_quote, bind, Option.bind, List.cons_append]
  rw [skipBlanks_cons (by decide)]
  rfl

theorem value_object_nil (rest : List Char) :
    value room (fuel + 1) ('{' :: '}' :: rest) = some (ofMembers room [], rest) := by
  rw [value, skipBlanks_cons (by decide)]
  simp only [skipBlanks_cons (show isBlank '}' = false by decide)]

theorem value_object_cons {name? : Option String} {first : Json} {between : List Char}
    {members : List (Option String × Json)} (hopen : ∀ tail, skipBlanks cs ≠ '}' :: tail)
    (hkey : key cs = some (name?, between))
    (hfirst : value (room - 1) fuel between = some (first, rest))
    (hmembers : moreMembers (room - 1) fuel rest = some (members, after)) :
    value room (fuel + 1) ('{' :: cs) =
      some (ofMembers room ((name?, first) :: members), after) := by
  rw [value, skipBlanks_cons (by decide)]
  simp only [hkey, hfirst, bind, Option.bind, hmembers]
  rfl

theorem moreMembers_nil (rest : List Char) :
    moreMembers room (fuel + 1) ('}' :: rest) = some ([], rest) := by
  rw [moreMembers, skipBlanks_cons (by decide)]
  rfl

theorem moreMembers_cons {name? : Option String} {first : Json} {between : List Char}
    {members : List (Option String × Json)} (hkey : key cs = some (name?, between))
    (hfirst : value room fuel between = some (first, rest))
    (hmembers : moreMembers room fuel rest = some (members, after)) :
    moreMembers room (fuel + 1) (',' :: cs) = some ((name?, first) :: members, after) := by
  rw [moreMembers, skipBlanks_cons (by decide)]
  simp only [hkey, hfirst, bind, Option.bind, hmembers]
  rfl

/-! ## Values without numbers -/

mutual

/-- The value is made of strings, truth values and null, and no more than `room` arrays and
objects stand within each other. -/
def fits (room : Nat) : Json → Bool
  | null | bool _ | string _ => true
  | number _ | unusable => false
  | array items => 0 < room && allFit (room - 1) items
  | object members => 0 < room && membersFit (room - 1) members

def allFit (room : Nat) : List Json → Bool
  | [] => true
  | item :: items => item.fits room && allFit room items

def membersFit (room : Nat) : List (String × Json) → Bool
  | [] => true
  | (_, value) :: members => value.fits room && membersFit room members

end

@[simp]
theorem fits_string (text : String) : (string text).fits room = true :=
  rfl

@[simp]
theorem fits_bool (value : Bool) : (bool value).fits room = true :=
  rfl

@[simp]
theorem membersFit_nil : membersFit room [] = true :=
  rfl

theorem fits_array_iff {items : List Json} :
    (array items).fits room = true ↔ 0 < room ∧ allFit (room - 1) items = true := by
  rw [fits, Bool.and_eq_true, decide_eq_true_iff]

theorem fits_object_iff {members : List (String × Json)} :
    (object members).fits room = true ↔ 0 < room ∧ membersFit (room - 1) members = true := by
  rw [fits, Bool.and_eq_true, decide_eq_true_iff]

theorem allFit_cons_iff {item : Json} {items : List Json} :
    allFit room (item :: items) = true ↔ item.fits room = true ∧ allFit room items = true := by
  rw [allFit, Bool.and_eq_true]

theorem membersFit_cons_iff {key : String} {value : Json} {members : List (String × Json)} :
    membersFit room ((key, value) :: members) = true ↔
      value.fits room = true ∧ membersFit room members = true := by
  rw [membersFit, Bool.and_eq_true]

mutual

/-- What fits fits where there is more room. -/
theorem fits_mono {room room' : Nat} (hle : room ≤ room') (json : Json)
    (h : json.fits room = true) : json.fits room' = true := by
  match json with
  | null | bool _ | string _ => rfl
  | number _ | unusable => cases h
  | array items =>
    obtain ⟨hroom, hitems⟩ := Bool.and_eq_true_iff.1 h
    have hroom := of_decide_eq_true hroom
    exact Bool.and_eq_true_iff.2 ⟨decide_eq_true (by omega), allFit_mono (by omega) items hitems⟩
  | object members =>
    obtain ⟨hroom, hmembers⟩ := Bool.and_eq_true_iff.1 h
    have hroom := of_decide_eq_true hroom
    exact Bool.and_eq_true_iff.2
      ⟨decide_eq_true (by omega), membersFit_mono (by omega) members hmembers⟩

theorem allFit_mono {room room' : Nat} (hle : room ≤ room') (items : List Json)
    (h : allFit room items = true) : allFit room' items = true := by
  match items with
  | [] => rfl
  | item :: items =>
    obtain ⟨hitem, hitems⟩ := Bool.and_eq_true_iff.1 h
    exact Bool.and_eq_true_iff.2 ⟨fits_mono hle item hitem, allFit_mono hle items hitems⟩

theorem membersFit_mono {room room' : Nat} (hle : room ≤ room') (members : List (String × Json))
    (h : membersFit room members = true) : membersFit room' members = true := by
  match members with
  | [] => rfl
  | (_, value) :: members =>
    obtain ⟨hvalue, hmembers⟩ := Bool.and_eq_true_iff.1 h
    exact Bool.and_eq_true_iff.2 ⟨fits_mono hle value hvalue, membersFit_mono hle members hmembers⟩

end

/-- The members of an object as they are read. -/
def keyed (members : List (String × Json)) : List (Option String × Json) :=
  members.map fun member => (some member.1, member.2)

theorem namedMembers_keyed (members : List (String × Json)) :
    namedMembers (keyed members) = some members := by
  induction members with
  | nil => rfl
  | cons member members ih =>
      change (do
        let members ← namedMembers (keyed members)
        return (member.1, member.2) :: members : Option (List (String × Json))) = _
      rw [ih]
      rfl

theorem ofMembers_keyed {members : List (String × Json)} (h : 0 < room) :
    ofMembers room (keyed members) = object members := by
  rw [ofMembers, if_neg (Nat.ne_of_gt h), namedMembers_keyed]

theorem ofItems_eq {items : List Json} (h : 0 < room) : ofItems room items = array items :=
  if_neg (Nat.ne_of_gt h)

/-- The text of a value starts with a character that is neither blank nor a closing bracket. -/
theorem exists_chars_cons (layout : Layout) (depth : Nat) {json : Json}
    (h : json.fits room = true) : ∃ c tail, json.chars layout depth = c :: tail ∧
      isBlank c = false ∧ c ≠ ']' := by
  cases json with
  | null => exact ⟨'n', _, rfl, by decide⟩
  | bool value => cases value <;> exact ⟨_, _, rfl, by decide⟩
  | string text => exact ⟨'"', _, rfl, by decide⟩
  | array items => cases items <;> exact ⟨'[', _, rfl, by decide⟩
  | object members => cases members <;> exact ⟨'{', _, rfl, by decide⟩
  | number | unusable => cases h

/-- An array with items does not close after the gap that follows its bracket. -/
theorem skipBlanks_gap_ne_closing (hlayout : layout.Readable) (depth : Nat) {json : Json}
    (h : json.fits room = true) (rest : List Char) (tail : List Char) :
    skipBlanks (layout.gap depth ++ (json.chars layout depth ++ rest)) ≠ ']' :: tail := by
  obtain ⟨c, chars, hchars, hblank, hopen⟩ := exists_chars_cons layout depth h
  rw [skipBlanks_append (hlayout.gap depth), hchars, List.cons_append, skipBlanks_cons hblank]
  exact fun heq => hopen (List.cons.inj heq).1

/-! ## Reading a whole value -/

theorem exists_fuel_of_lt {length : Nat} (h : length < fuel) :
    ∃ less, fuel = less + 1 ∧ length ≤ less :=
  ⟨fuel - 1, by omega, by omega⟩

mutual

/-- A value is read back from its text, whatever follows. -/
theorem value_chars (hlayout : layout.Readable) (depth : Nat) {room fuel : Nat} (json : Json)
    (hfits : json.fits room = true) (hfuel : (json.chars layout depth).length ≤ fuel)
    (rest : List Char) :
    value room fuel (json.chars layout depth ++ rest) = some (json, rest) := by
  obtain ⟨c, tail, hchars, -⟩ := exists_chars_cons layout depth hfits
  have hlength : tail.length < fuel := by
    rwa [hchars, List.length_cons] at hfuel
  obtain ⟨fuel, rfl, hless⟩ := exists_fuel_of_lt hlength
  match json with
  | null => rw [chars]; exact value_eq_scalar (by decide) (by decide) (by decide) _
  | bool true => rw [chars]; exact value_eq_scalar (by decide) (by decide) (by decide) _
  | bool false => rw [chars]; exact value_eq_scalar (by decide) (by decide) (by decide) _
  | string text => exact value_string text rest
  | number _ | unusable => cases hfits
  | array [] =>
    obtain ⟨hroom, -⟩ := Bool.and_eq_true_iff.1 hfits
    rw [chars, ← ofItems_eq (of_decide_eq_true hroom)]
    exact value_array_nil rest
  | array (item :: items) =>
    obtain ⟨hroom, hfits⟩ := Bool.and_eq_true_iff.1 hfits
    obtain ⟨hitem, hitems⟩ := Bool.and_eq_true_iff.1 hfits
    have htext : (array (item :: items)).chars layout depth ++ rest =
        '[' :: (layout.gap (depth + 1) ++ (item.chars layout (depth + 1) ++
          (itemChars layout (depth + 1) items ++ layout.gap depth ++ ']' :: rest))) := by
      simp [chars]
    simp only [chars, List.length_cons, List.length_append, Nat.succ_le_succ_iff] at hfuel
    rw [htext, ← ofItems_eq (of_decide_eq_true hroom)]
    refine value_array_cons (skipBlanks_gap_ne_closing hlayout _ hitem _) ?_
      (moreItems_chars hlayout (depth + 1) depth items hitems (by omega) rest)
    rw [value_append (hlayout.gap (depth + 1))]
    exact value_chars hlayout (depth + 1) item hitem (by omega) _
  | object [] =>
    obtain ⟨hroom, -⟩ := Bool.and_eq_true_iff.1 hfits
    rw [chars, ← ofMembers_keyed (of_decide_eq_true hroom)]
    exact value_object_nil rest
  | object ((name, first) :: members) =>
    obtain ⟨hroom, hfits⟩ := Bool.and_eq_true_iff.1 hfits
    obtain ⟨hfirst, hmembers⟩ := Bool.and_eq_true_iff.1 hfits
    have htext : (object ((name, first) :: members)).chars layout depth ++ rest =
        '{' :: (layout.gap (depth + 1) ++ (quote name ++ (layout.colon ++
          (first.chars layout (depth + 1) ++
            (memberChars layout (depth + 1) members ++ layout.gap depth ++ '}' :: rest))))) := by
      simp [chars]
    simp only [chars, List.length_cons, List.length_append, Nat.succ_le_succ_iff] at hfuel
    obtain ⟨blanks, hblanks, hkey⟩ := key_quote hlayout name (first.chars layout (depth + 1) ++
      (memberChars layout (depth + 1) members ++ layout.gap depth ++ '}' :: rest))
    rw [htext, ← ofMembers_keyed (of_decide_eq_true hroom)]
    refine value_object_cons (fun tail => ?_) ((key_append (hlayout.gap (depth + 1)) _).trans hkey)
      ?_ (moreMembers_chars hlayout (depth + 1) depth members hmembers (by omega) rest)
    · rw [skipBlanks_append (hlayout.gap (depth + 1)), quote_append, skipBlanks_cons (by decide)]
      exact fun heq => nomatch heq
    · rw [value_append hblanks]
      exact value_chars hlayout (depth + 1) first hfirst (by omega) _

theorem moreItems_chars (hlayout : layout.Readable) (depth outer : Nat) {room fuel : Nat}
    (items : List Json) (hfits : allFit room items = true)
    (hfuel : (itemChars layout depth items).length < fuel) (rest : List Char) :
    moreItems room fuel (itemChars layout depth items ++ layout.gap outer ++ ']' :: rest) =
      some (items, rest) := by
  obtain ⟨fuel, rfl, hless⟩ := exists_fuel_of_lt hfuel
  match items with
  | [] =>
    rw [itemChars, List.nil_append, moreItems_append (hlayout.gap outer)]
    exact moreItems_nil rest
  | item :: items =>
    obtain ⟨hitem, hitems⟩ := Bool.and_eq_true_iff.1 hfits
    have htext : itemChars layout depth (item :: items) ++ layout.gap outer ++ ']' :: rest =
        ',' :: (layout.gap depth ++ (item.chars layout depth ++
          (itemChars layout depth items ++ layout.gap outer ++ ']' :: rest))) := by
      simp [itemChars]
    simp only [itemChars, List.length_cons, List.length_append] at hless
    rw [htext]
    refine moreItems_cons ?_ (moreItems_chars hlayout depth outer items hitems (by omega) rest)
    rw [value_append (hlayout.gap depth)]
    exact value_chars hlayout depth item hitem (by omega) _

theorem moreMembers_chars (hlayout : layout.Readable) (depth outer : Nat) {room fuel : Nat}
    (members : List (String × Json)) (hfits : membersFit room members = true)
    (hfuel : (memberChars layout depth members).length < fuel) (rest : List Char) :
    moreMembers room fuel (memberChars layout depth members ++ layout.gap outer ++ '}' :: rest) =
      some (keyed members, rest) := by
  obtain ⟨fuel, rfl, hless⟩ := exists_fuel_of_lt hfuel
  match members with
  | [] =>
    rw [memberChars, List.nil_append, moreMembers_append (hlayout.gap outer)]
    exact moreMembers_nil rest
  | (name, first) :: members =>
    obtain ⟨hfirst, hmembers⟩ := Bool.and_eq_true_iff.1 hfits
    have htext : memberChars layout depth ((name, first) :: members) ++ layout.gap outer ++
        '}' :: rest = ',' :: (layout.gap depth ++ (quote name ++ (layout.colon ++
          (first.chars layout depth ++
            (memberChars layout depth members ++ layout.gap outer ++ '}' :: rest))))) := by
      simp [memberChars]
    simp only [memberChars, List.length_cons, List.length_append] at hless
    obtain ⟨blanks, hblanks, hkey⟩ := key_quote hlayout name (first.chars layout depth ++
      (memberChars layout depth members ++ layout.gap outer ++ '}' :: rest))
    rw [htext]
    refine moreMembers_cons ((key_append (hlayout.gap depth) _).trans hkey) ?_
      (moreMembers_chars hlayout depth outer members hmembers (by omega) rest)
    rw [value_append hblanks]
    exact value_chars hlayout depth first hfirst (by omega) _

end

/-- The text of a value is read back as the value. -/
theorem parseLoose_render (hlayout : layout.Readable) {json : Json}
    (hfits : json.fits room = true) : parseLoose room (json.render layout) = some json := by
  have hvalue := value_chars hlayout 0 json hfits (Nat.le_succ _) []
  rw [List.append_nil] at hvalue
  rw [parseLoose, render, String.toList_ofList]
  simp only [hvalue, bind, Option.bind]
  rfl

mutual

/-- What fits has no part that is marked as unusable. -/
theorem isWhole_of_fits {room : Nat} (json : Json) (h : json.fits room = true) :
    json.isWhole = true := by
  match json with
  | null | bool _ | string _ => rfl
  | number _ | unusable => cases h
  | array items => exact areWhole_of_allFit items (fits_array_iff.1 h).2
  | object members => exact membersAreWhole_of_membersFit members (fits_object_iff.1 h).2

theorem areWhole_of_allFit {room : Nat} (items : List Json) (h : allFit room items = true) :
    areWhole items = true := by
  match items with
  | [] => rfl
  | item :: items =>
    obtain ⟨hitem, hitems⟩ := allFit_cons_iff.1 h
    exact Bool.and_eq_true_iff.2 ⟨isWhole_of_fits item hitem, areWhole_of_allFit items hitems⟩

theorem membersAreWhole_of_membersFit {room : Nat} (members : List (String × Json))
    (h : membersFit room members = true) : membersAreWhole members = true := by
  match members with
  | [] => rfl
  | (_, value) :: members =>
    obtain ⟨hvalue, hmembers⟩ := membersFit_cons_iff.1 h
    exact Bool.and_eq_true_iff.2
      ⟨isWhole_of_fits value hvalue, membersAreWhole_of_membersFit members hmembers⟩

end

/-- The text of a value can be taken up as a whole. -/
theorem parse_render (hlayout : layout.Readable) {json : Json} (hfits : json.fits room = true) :
    parse room (json.render layout) = some json := by
  rw [parse, parseLoose_render hlayout hfits, Option.filter_some_pos (isWhole_of_fits json hfits)]

/-- Values with the same text are the same. -/
theorem eq_of_render_eq (hlayout : layout.Readable) {json json' : Json}
    (hfits : json.fits room = true) (hfits' : json'.fits room = true)
    (h : json.render layout = json'.render layout) : json = json' := by
  have hread := parseLoose_render hlayout hfits
  rw [h, parseLoose_render hlayout hfits'] at hread
  exact (Option.some.inj hread).symm

/-! ## Compact text is one line -/

/-- The characters can stand in one line. -/
def Inline (cs : List Char) : Prop :=
  ∀ c ∈ cs, ¬ c.toNat < 0x20

theorem inline_nil : Inline [] :=
  nofun

theorem inline_cons {c : Char} (hc : ¬ c.toNat < 0x20) (h : Inline cs) : Inline (c :: cs) :=
  List.forall_mem_cons.2 ⟨hc, h⟩

theorem inline_append {cs' : List Char} (h : Inline cs) (h' : Inline cs') : Inline (cs ++ cs') :=
  List.forall_mem_append.2 ⟨h, h'⟩

theorem inline_quote (text : String) : Inline (quote text) :=
  fun _ => not_control_of_mem_quote

mutual

theorem inline_chars {room : Nat} (depth : Nat) (json : Json) (hfits : json.fits room = true) :
    Inline (json.chars .compact depth) := by
  match json with
  | null | bool true | bool false => rw [chars, Inline]; simp
  | string text => exact inline_quote text
  | number _ | unusable => cases hfits
  | array [] | object [] => rw [chars, Inline]; simp
  | array (item :: items) =>
    obtain ⟨-, hfits⟩ := Bool.and_eq_true_iff.1 hfits
    obtain ⟨hitem, hitems⟩ := Bool.and_eq_true_iff.1 hfits
    rw [chars]
    refine inline_cons (by decide) (inline_append (inline_chars (depth + 1) item hitem) ?_)
    exact inline_append (inline_append (inline_itemChars (depth + 1) items hitems) inline_nil)
      (inline_cons (by decide) inline_nil)
  | object ((name, first) :: members) =>
    obtain ⟨-, hfits⟩ := Bool.and_eq_true_iff.1 hfits
    obtain ⟨hfirst, hmembers⟩ := Bool.and_eq_true_iff.1 hfits
    rw [chars]
    refine inline_cons (by decide) (inline_append (inline_append (inline_append (inline_quote name)
      (inline_cons (by decide) inline_nil)) (inline_chars (depth + 1) first hfirst)) ?_)
    exact inline_append (inline_append (inline_memberChars (depth + 1) members hmembers) inline_nil)
      (inline_cons (by decide) inline_nil)

theorem inline_itemChars {room : Nat} (depth : Nat) (items : List Json)
    (hfits : allFit room items = true) : Inline (itemChars .compact depth items) := by
  match items with
  | [] => exact inline_nil
  | item :: items =>
    obtain ⟨hitem, hitems⟩ := Bool.and_eq_true_iff.1 hfits
    rw [itemChars]
    exact inline_cons (by decide) (inline_append (inline_chars depth item hitem)
      (inline_itemChars depth items hitems))

theorem inline_memberChars {room : Nat} (depth : Nat) (members : List (String × Json))
    (hfits : membersFit room members = true) : Inline (memberChars .compact depth members) := by
  match members with
  | [] => exact inline_nil
  | (name, first) :: members =>
    obtain ⟨hfirst, hmembers⟩ := Bool.and_eq_true_iff.1 hfits
    rw [memberChars]
    exact inline_cons (by decide) (inline_append (inline_append (inline_append (inline_quote name)
      (inline_cons (by decide) inline_nil)) (inline_chars depth first hfirst))
      (inline_memberChars depth members hmembers))

end

end WireSchema.Json
