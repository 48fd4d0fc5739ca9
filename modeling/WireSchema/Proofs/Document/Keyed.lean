/-
# Texts stand for keyed elements

Whatever text is read as an element, the attributes of the element and of all within it come out
in the order of their keys, as those of every element that is made attribute by attribute do.
Such elements are exactly those that are read back from their own text, in either layout and with
any characters in them, where the text has enough room.
-/

import WireSchema.Proofs.Document.Text

namespace WireSchema.Element

/-! ## What is read is keyed -/

theorem pairwise_attributesOfMembers {found attributes : List (String × String)}
    {members : List (String × Json)}
    (hfound : found.Pairwise fun entry entry' => entry.1 < entry'.1)
    (h : attributesOfMembers found members = some attributes) :
    attributes.Pairwise fun entry entry' => entry.1 < entry'.1 := by
  induction members generalizing found with
  | nil =>
      cases h
      exact hfound
  | cons member members ih =>
      obtain ⟨text, -, hmembers⟩ := Option.bind_eq_some_iff.1 h
      exact ih (pairwise_setIn member.1 text hfound) hmembers

theorem pairwise_attributesOfJson {json : Json} {attributes : List (String × String)}
    (h : attributesOfJson json = some attributes) :
    attributes.Pairwise fun entry entry' => entry.1 < entry'.1 := by
  unfold attributesOfJson at h
  split at h
  · exact pairwise_attributesOfMembers .nil h
  · cases h

/-- The parts that have been found are parts of keyed elements. -/
structure Draft.Keyed (draft : Draft) : Prop where
  attributes : ∀ attributes ∈ draft.attributes?,
    attributes.Pairwise fun entry entry' => entry.1 < entry'.1
  children : ∀ children ∈ draft.children?, ∀ child ∈ children, child.Keyed

theorem Draft.Keyed.finish {draft : Draft} {element : Element} (h : draft.Keyed)
    (hfinish : draft.finish = some element) : element.Keyed := by
  obtain ⟨name, -, helement⟩ := Option.bind_eq_some_iff.1 hfinish
  cases helement
  refine .intro ?_ ?_
  · cases hattributes : draft.attributes? with
    | none => exact .nil
    | some attributes => exact h.attributes attributes hattributes
  · cases hchildren : draft.children? with
    | none => exact List.forall_mem_nil _
    | some children => exact h.children children hchildren

mutual

theorem keyed_of_ofJson (json : Json) (element : Element) (h : ofJson json = some element) :
    element.Keyed := by
  match json with
  | .null | .bool _ | .number _ | .string _ | .array _ | .unusable => cases h
  | .object members =>
    obtain ⟨draft, hdraft, hfinish⟩ := Option.bind_eq_some_iff.1 h
    exact (keyed_of_draftOf members draft hdraft).finish hfinish

theorem keyed_of_draftOf (members : List (String × Json)) (draft : Draft)
    (h : draftOf members = some draft) : draft.Keyed := by
  match members with
  | [] =>
    cases h
    exact ⟨nofun, nofun⟩
  | (key, value) :: members =>
    obtain ⟨found, hfound, h⟩ := Option.bind_eq_some_iff.1 h
    have hkeyed := keyed_of_draftOf members found hfound
    split at h
    · obtain ⟨text, -, h⟩ := Option.bind_eq_some_iff.1 h
      split at h
      · cases h
      · cases h
        exact ⟨hkeyed.attributes, hkeyed.children⟩
    split at h
    · obtain ⟨attributes, hattributes, h⟩ := Option.bind_eq_some_iff.1 h
      split at h
      · cases h
      · cases h
        refine ⟨?_, hkeyed.children⟩
        rintro _ ⟨⟩
        exact pairwise_attributesOfJson hattributes
    split at h
    · obtain ⟨children, hchildren, h⟩ := Option.bind_eq_some_iff.1 h
      split at h
      · cases h
      · cases h
        refine ⟨hkeyed.attributes, ?_⟩
        rintro _ ⟨⟩
        exact keyed_of_childrenOf value children hchildren
    · cases h
      exact hkeyed

theorem keyed_of_childrenOf (json : Json) (children : List Element)
    (h : childrenOf json = some children) : ∀ child ∈ children, child.Keyed := by
  match json with
  | .null | .bool _ | .number _ | .string _ | .object _ | .unusable => cases h
  | .array items => exact keyed_of_listOfJson items children h

theorem keyed_of_listOfJson (items : List Json) (elements : List Element)
    (h : listOfJson items = some elements) : ∀ element ∈ elements, element.Keyed := by
  match items with
  | [] =>
    cases h
    exact List.forall_mem_nil _
  | item :: items =>
    obtain ⟨first, hfirst, h⟩ := Option.bind_eq_some_iff.1 h
    obtain ⟨others, hothers, h⟩ := Option.bind_eq_some_iff.1 h
    cases h
    exact List.forall_mem_cons.2
      ⟨keyed_of_ofJson item first hfirst, keyed_of_listOfJson items others hothers⟩

end

/-- A text that is read as an element is read as a keyed one. -/
theorem keyed_of_readWithin {room : Nat} {text : String} {element : Element}
    (h : readWithin room text = .ok element) : element.Keyed := by
  unfold readWithin at h
  split at h
  next found hfound =>
    cases h
    obtain ⟨json, -, hjson⟩ := Option.bind_eq_some_iff.1 hfound
    exact keyed_of_ofJson json element hjson
  next => cases h

/-! ## Elements and their texts -/

theorem Keyed.withChild {element child : Element} (h : element.Keyed) (hchild : child.Keyed) :
    (element.withChild child).Keyed := by
  cases h with
  | intro hattributes hchildren =>
      refine .intro hattributes fun other hother => ?_
      rcases List.mem_append.1 hother with hother | hother
      · exact hchildren other hother
      · cases List.mem_singleton.1 hother
        exact hchild

/-- An element is read back from its own text exactly if it is keyed, in either layout and
wherever there is room for its depth. -/
theorem readWithin_render_iff (format : Format) (element : Element) {room : Nat}
    (hroom : element.depth ≤ room) :
    readWithin room (element.render format) = .ok element ↔ element.Keyed :=
  ⟨keyed_of_readWithin, fun hkeyed => readWithin_render_of_keyed format hkeyed hroom⟩

/-- An element with quotes, control characters and characters beyond ASCII. -/
def rareElement : Element :=
  (((new "a \"b\"\\").withAttribute "é" "\u2028/").withAttribute "" "\n\x00\x7f").withChild
    (((new "").withChild ((new "😀").withAttribute "k\r" "\x1f")).withChild (new "null"))

theorem keyed_rareElement : rareElement.Keyed :=
  (((Keyed.new _).withAttribute _ _).withAttribute _ _).withChild
    (((Keyed.new _).withChild ((Keyed.new _).withAttribute _ _)).withChild (.new _))

/-- The element is keyed and is read back from both of its texts. -/
theorem readWithin_render_rareElement : rareElement.depth ≤ 6 ∧ rareElement.Keyed ∧
    ∀ format, readWithin 6 (rareElement.render format) = .ok rareElement := by
  have hdepth : rareElement.depth ≤ 6 := by decide
  exact ⟨hdepth, keyed_rareElement, fun format =>
    (readWithin_render_iff format rareElement hdepth).2 keyed_rareElement⟩

end WireSchema.Element
