/-
# Graphs of the same form

Two graphs are isomorphic if the nodes of one that are referred to by id are taken one to
one to those of the other, and nothing that the nodes or the roots have is changed but the
case of names.  Graphs of one side have the same canonical text exactly if they are
isomorphic: the text numbers the nodes, and nodes with the same number are taken to each
other (`canonicalText_eq_iff`).
-/

import Mathlib.Data.Set.Function
import WireSchema.Proofs.Store.Rendering

namespace WireSchema

theorem Node.mapNames_spelling_mk (node : Node String Handle) :
    (node.mapNames Name.mk).mapNames Name.spelling = node := by
  cases node <;> simp [mapNames, Function.comp_def]

namespace Store

variable {source target : Store} {φ : Handle → Handle} {a b x y : Handle}

/-- The nodes at or below the root that are referred to by id. -/
def ReferredBelow (store : Store) (root : Handle) : Set Handle :=
  {handle | store.Below root handle ∧ store.Referred handle}

/-- The nodes are the same down to the nearest nodes that are referred to by id, which the map
takes to each other. -/
inductive SameInline (source target : Store) (φ : Handle → Handle) : Handle → Handle → Prop
  | reference {a : Handle} : source.Referred a → SameInline source target φ a (φ a)
  | primitive {a b : Handle} {type : Primitive} : source.node? a = some (.primitive type) →
      target.node? b = some (.primitive type) → SameInline source target φ a b
  | empty {a b : Handle} : source.node? a = some .empty → target.node? b = some .empty →
      SameInline source target φ a b
  | nullable {a b inner inner' : Handle} {direction : Direction} :
      source.node? a = some (.nullable direction inner) →
        target.node? b = some (.nullable direction inner') →
          SameInline source target φ inner inner' → SameInline source target φ a b
  | list {a b item item' : Handle} {direction : Direction} :
      source.node? a = some (.list direction item) →
        target.node? b = some (.list direction item') →
          SameInline source target φ item item' → SameInline source target φ a b
  | dictionary {a b key key' value value' : Handle} {direction : Direction} :
      source.node? a = some (.dictionary direction key value) →
        target.node? b = some (.dictionary direction key' value') →
          SameInline source target φ key key' → SameInline source target φ value value' →
            SameInline source target φ a b

/-- The map takes the nodes at or below one root that are referred to by id one to one to those
of the other, and keeps what the nodes and the roots are, up to the case of names. -/
structure Isomorphism (source : Store) (a : Handle) (target : Store) (b : Handle)
    (φ : Handle → Handle) : Prop where
  bijOn : Set.BijOn φ (source.ReferredBelow a) (target.ReferredBelow b)
  root : source.SameInline target φ a b
  node : ∀ handle ∈ source.ReferredBelow a,
    Layering.Match source.node? target.node? (source.SameInline target φ) handle (φ handle)

/-! ## Isomorphic graphs have the same text -/

theorem SameInline.eq_of_referred (h : source.SameInline target φ x y)
    (hreferred : source.Referred x) : y = φ x := by
  obtain ⟨node, hnode, hreference⟩ := hreferred
  cases h with
  | reference => rfl
  | primitive hnode' | empty hnode' | nullable hnode' | list hnode' | dictionary hnode' =>
      cases hnode.symm.trans hnode'
      cases hreference

/-- Nodes that are the same have layers that are the same. -/
theorem Isomorphism.match_of_sameInline (h : Isomorphism source a target b φ)
    (hbelow : source.Below a x) (hsame : source.SameInline target φ x y) :
    Layering.Match source.node? target.node? (source.SameInline target φ) x y := by
  cases hsame with
  | reference hreferred => exact h.node x ⟨hbelow, hreferred⟩
  | primitive hx hy | empty hx hy => exact ⟨_, _, hx, hy, rfl, .nil⟩
  | nullable hx hy hinner => exact ⟨_, _, hx, hy, rfl, .cons hinner .nil⟩
  | list hx hy hitem => exact ⟨_, _, hx, hy, rfl, .cons hitem .nil⟩
  | dictionary hx hy hkey hvalue => exact ⟨_, _, hx, hy, rfl, .cons hkey (.cons hvalue .nil)⟩

theorem Isomorphism.corresponds (h : Isomorphism source a target b φ) :
    source.Corresponds target fun x y => source.SameInline target φ x y ∧ source.Below a x where
  closed := by
    rintro x y ⟨hsame, hbelow⟩
    obtain ⟨node, node', hnode, hnode', hsimilar⟩ := h.match_of_sameInline hbelow hsame
    exact ⟨node, node', hnode, hnode',
      (hsimilar.symm.and_right (below_of_mem_children hbelow hnode)).symm⟩
  unique := by
    rintro x y x' y' ⟨hsame, hbelow⟩ ⟨hsame', hbelow'⟩ hreferred hreferred'
    rw [hsame.eq_of_referred hreferred, hsame'.eq_of_referred hreferred']
    exact (h.bijOn.injOn.eq_iff ⟨hbelow, hreferred⟩ ⟨hbelow', hreferred'⟩).symm

/-! ## Graphs with the same text are isomorphic -/

section SameForm

variable {order order' : List Handle} {direction : Direction}

/-- Lists of the same length without repetitions are taken to each other item by item. -/
theorem exists_bijOn {items items' : List Handle} (h : items.Nodup) (h' : items'.Nodup)
    (hlength : items.length = items'.length) : ∃ φ : Handle → Handle,
      Set.BijOn φ {x | x ∈ items} {y | y ∈ items'} ∧
        ∀ (number : Nat) (x : Handle), items[number]? = some x → items'[number]? = some (φ x) := by
  have hpartner : ∀ (number : Nat) (x : Handle), items[number]? = some x →
      items'[number]? = some (items'[items.idxOf x]?.getD x) := by
    intro number x hx
    obtain ⟨hlt, rfl⟩ := List.getElem?_eq_some_iff.1 hx
    rw [h.idxOf_getElem, List.getElem?_eq_getElem (hlength ▸ hlt), Option.getD_some]
  refine ⟨fun x => items'[items.idxOf x]?.getD x, ⟨?_, ?_, ?_⟩, hpartner⟩
  · intro x hx
    obtain ⟨number, hnumber⟩ := List.mem_iff_getElem?.1 hx
    exact List.mem_of_getElem? (hpartner number x hnumber)
  · intro x hx y hy heq
    obtain ⟨number, hnumber⟩ := List.mem_iff_getElem?.1 hx
    obtain ⟨number', hnumber'⟩ := List.mem_iff_getElem?.1 hy
    have hsame := hpartner number' y hnumber'
    rw [← show _ = items'[items.idxOf y]?.getD y from heq, ← hpartner number x hnumber] at hsame
    have hlt := (List.getElem?_eq_some_iff.1 hnumber).1
    rw [(List.getElem?_inj (hlength ▸ hlt) h').1 hsame.symm] at hnumber
    exact Option.some.inj (hnumber.symm.trans hnumber')
  · intro y hy
    obtain ⟨number, hnumber⟩ := List.mem_iff_getElem?.1 hy
    obtain ⟨hlt, -⟩ := List.getElem?_eq_some_iff.1 hnumber
    have hx : items[number]? = some items[number] := List.getElem?_eq_getElem _
    refine ⟨items[number], List.getElem_mem _, ?_⟩
    exact Option.some.inj ((hpartner number _ hx).symm.trans hnumber)

/-- What is written alike with numbers is the same inline, if nodes with the same number are
taken to each other. -/
theorem NumberedAs.sameInline {markup : Markup String}
    (h : source.NumberedAs order x markup) (h' : target.NumberedAs order' y markup)
    (hsided : source.OneSided direction a) (hsided' : target.OneSided direction b)
    (hbelow : source.Below a x) (hbelow' : target.Below b y)
    (hlabel : ∀ x y text, source.numberLabel order x = .ok text →
      target.numberLabel order' y = .ok text → y = φ x) : source.SameInline target φ x y := by
  have hdirection : ∀ {x y : Handle} {node node' : Node Name Handle} {side side' : Direction},
      source.Below a x → target.Below b y → source.node? x = some node →
        target.node? y = some node' → node.kind.direction? = some side →
          node'.kind.direction? = some side' → side = side' := by
    intro x y node node' side side' hbelow hbelow' hnode hnode' hside hside'
    have hserves := hsided.serves hbelow hnode
    have hserves' := hsided'.serves hbelow' hnode'
    rw [Kind.serves, hside] at hserves
    rw [Kind.serves, hside'] at hserves'
    exact (of_decide_eq_true hserves).trans (of_decide_eq_true hserves').symm
  induction h generalizing y with
  | ref hnode hreference htext =>
      cases h' with
      | ref _ _ htext' =>
          rw [hlabel _ _ _ htext htext']
          exact .reference ⟨_, hnode, hreference⟩
  | primitive hnode =>
      cases h' with
      | primitive hnode' => exact .primitive hnode hnode'
  | empty hnode =>
      cases h' with
      | empty hnode' => exact .empty hnode hnode'
  | nullable hnode _ ih =>
      cases h' with
      | nullable hnode' hinner =>
          obtain rfl := hdirection hbelow hbelow' hnode hnode' rfl rfl
          exact .nullable hnode hnode' (ih hinner (hbelow.tail ⟨_, hnode, List.mem_cons_self⟩)
            (hbelow'.tail ⟨_, hnode', List.mem_cons_self⟩))
  | list hnode _ ih =>
      cases h' with
      | list hnode' hitem =>
          obtain rfl := hdirection hbelow hbelow' hnode hnode' rfl rfl
          exact .list hnode hnode' (ih hitem (hbelow.tail ⟨_, hnode, List.mem_cons_self⟩)
            (hbelow'.tail ⟨_, hnode', List.mem_cons_self⟩))
  | dictionary hnode _ _ ihkey ihvalue =>
      cases h' with
      | dictionary hnode' hkey hvalue =>
          obtain rfl := hdirection hbelow hbelow' hnode hnode' rfl rfl
          refine .dictionary hnode hnode'
            (ihkey hkey (hbelow.tail ⟨_, hnode, List.mem_cons_self⟩)
              (hbelow'.tail ⟨_, hnode', List.mem_cons_self⟩))
            (ihvalue hvalue (hbelow.tail ⟨_, hnode, ?_⟩) (hbelow'.tail ⟨_, hnode', ?_⟩)) <;>
          exact List.mem_cons_of_mem _ List.mem_cons_self

/-- Nodes with the same layer are the same up to the case of names. -/
theorem HasLayer.match {layer : Node Name (Markup String)} (h : source.HasLayer order x layer)
    (h' : target.HasLayer order' y layer) (hsided : source.OneSided direction a)
    (hsided' : target.OneSided direction b) (hbelow : source.Below a x)
    (hbelow' : target.Below b y)
    (hlabel : ∀ x y text, source.numberLabel order x = .ok text →
      target.numberLabel order' y = .ok text → y = φ x) :
    Layering.Match source.node? target.node? (source.SameInline target φ) x y := by
  obtain ⟨node, hnode, -, hlift⟩ := h
  obtain ⟨node', hnode', -, hlift'⟩ := h'
  refine ⟨node, node', hnode, hnode', ?_⟩
  have hpairs := (hlift.symm.trans hlift').mapNames Name.spelling
  rw [Node.mapNames_mk_folded, Node.mapNames_mk_folded, Node.mapNames_spelling_mk,
    Node.mapNames_spelling_mk] at hpairs
  have hchildren := Node.Similar.and_right (P := target.Below b) hpairs
    (below_of_mem_children hbelow' hnode')
  have hchildren' := Node.Similar.and_right (P := source.Below a) hchildren.symm
    (below_of_mem_children hbelow hnode)
  refine hchildren'.symm.imp ?_
  rintro child child' ⟨⟨⟨markup, hmarkup, hmarkup'⟩, hchild'⟩, hchild⟩
  exact hmarkup.sameInline hmarkup' hsided hsided' hchild hchild' hlabel

theorem getElem?_of_idxOf? {number : Nat} (h : order.idxOf? x = some number) :
    order[number]? = some x := by
  obtain ⟨hlt, heq, -⟩ := List.idxOf?_eq_some_iff.1 h
  exact List.getElem?_eq_some_iff.2 ⟨hlt, heq⟩

/-- Related lists have related items in the same places. -/
theorem of_forall₂_getElem? {R : Handle → Handle → Prop} {items items' : List Handle}
    {number : Nat} (h : List.Forall₂ R items items') (hx : items[number]? = some x)
    (hy : items'[number]? = some y) : R x y := by
  obtain ⟨hlt, rfl⟩ := List.getElem?_eq_some_iff.1 hx
  obtain ⟨hlt', rfl⟩ := List.getElem?_eq_some_iff.1 hy
  exact h.get hlt hlt'

/-- Graphs of one side that have the same form are isomorphic. -/
theorem HasForm.exists_isomorphism {form : CanonicalForm} (horder : source.Enumerates a order)
    (horder' : target.Enumerates b order') (h : source.HasForm order a form)
    (h' : target.HasForm order' b form) (hsided : source.OneSided direction a)
    (hsided' : target.OneSided direction b) : ∃ φ, Isomorphism source a target b φ := by
  have hlength := h.layers.length_eq.trans h'.layers.length_eq.symm
  obtain ⟨φ, hbijOn, hpartner⟩ := exists_bijOn horder.nodup horder'.nodup hlength
  have hlabel : ∀ x y text, source.numberLabel order x = .ok text →
      target.numberLabel order' y = .ok text → y = φ x := by
    intro x y text hx hy
    obtain ⟨-, number, hnumber, rfl⟩ := numberLabel_eq_ok_iff.1 hx
    obtain ⟨-, number', hnumber', htext⟩ := numberLabel_eq_ok_iff.1 hy
    obtain rfl := toString_injective htext
    have hx' := hpartner number x (getElem?_of_idxOf? hnumber)
    exact Option.some.inj ((getElem?_of_idxOf? hnumber').symm.trans hx')
  have hset : source.ReferredBelow a = {x | x ∈ order} :=
    Set.ext fun x => (horder.mem_iff x).symm
  have hset' : target.ReferredBelow b = {y | y ∈ order'} :=
    Set.ext fun y => (horder'.mem_iff y).symm
  refine ⟨φ, ?_, h.root.sameInline h'.root hsided hsided' .refl .refl hlabel, fun x hx => ?_⟩
  · rw [hset, hset']
    exact hbijOn
  · obtain ⟨number, hnumber⟩ := List.mem_iff_getElem?.1 ((horder.mem_iff x).2 hx)
    have hpair := hpartner number x hnumber
    have hbelow' := ((horder'.mem_iff (φ x)).1 (List.mem_of_getElem? hpair)).1
    obtain ⟨layer, hlayer, hlayer'⟩ :=
      of_forall₂_getElem? (Node.forall₂_comp h.layers h'.layers.flip) hnumber hpair
    exact hlayer.match hlayer' hsided hsided' hx.1 hbelow' hlabel

end SameForm

/-- Graphs of one side have the same canonical text exactly if they are isomorphic. -/
theorem canonicalText_eq_iff {direction : Direction} (hsource : source.Sound)
    (htarget : target.Sound) (hlt : a < source.size) (hlt' : b < target.size)
    (hsided : source.OneSided direction a) (hsided' : target.OneSided direction b) :
    ∃ text text', source.canonicalText a = .ok text ∧ target.canonicalText b = .ok text' ∧
      (text = text' ↔ ∃ φ, Isomorphism source a target b φ) := by
  obtain ⟨order, form, horder, hform, htext⟩ := exists_form hsource hlt
  obtain ⟨order', form', horder', hform', htext'⟩ := exists_form htarget hlt'
  refine ⟨form.text, form'.text, htext, htext', fun heq => ?_, ?_⟩
  · obtain rfl := CanonicalForm.eq_of_text_eq hform.readable hform'.readable heq
    exact hform.exists_isomorphism horder horder' hform' hsided hsided'
  · rintro ⟨φ, hiso⟩
    have hsame := hiso.corresponds.canonicalText_eq hsource htarget ⟨hiso.root, .refl⟩
    rw [htext, htext'] at hsame
    exact Except.ok.inj hsame

end Store

end WireSchema
