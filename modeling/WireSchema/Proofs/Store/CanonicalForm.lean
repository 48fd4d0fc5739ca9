/-
# The form of the graph under a node

A visit lists every node at or below a root that is referred to by id, once.  With the
places in this list as ids everything at or below the root can be written, which gives the
form of the graph; the canonical text is the text of that form (`exists_form`).
-/

import WireSchema.Proofs.Document.CanonicalForm

namespace WireSchema

/-- A node in lower case depends on its key alone. -/
theorem Node.mapNames_mk_folded (node : Node Name Handle) :
    (node.mapNames fun name => Name.mk name.folded) = node.key.mapNames Name.mk := by
  cases node <;> simp [key, mapNames]

namespace Store

variable {store : Store} {handle root : Handle} {order visited pending handles : List Handle}
variable {markup : Markup String} {layer : Node Name (Markup String)} {form : CanonicalForm}

/-- The node is referred to by id. -/
def Referred (store : Store) (handle : Handle) : Prop :=
  ∃ node, store.node? handle = some node ∧ node.isByReference = true

theorem Referred.of_bisimilar {source target : Store} {a b : Handle} (h : source.Referred a)
    (hsame : source.Bisimilar a target b) : target.Referred b := by
  obtain ⟨x, hx, hreference⟩ := h
  obtain ⟨y, hy, hsimilar⟩ := hsame.unfold.exists_right hx
  exact ⟨y, hy, hsimilar.isByReference_eq.symm.trans hreference⟩

/-! ## The visit -/

/-- What a visit lists: what it begins with, all that this refers to, and nothing else. -/
structure Visited (store : Store) (visited pending order : List Handle) : Prop where
  kept : ∀ handle ∈ visited, handle ∈ order
  listed : ∀ handle ∈ pending, handle ∈ order
  closed : ∀ handle ∈ order, ∀ target, store.Refers handle target → target ∈ order
  reached : ∀ handle ∈ order, handle ∈ visited ∨
    ∃ start ∈ pending, Relation.ReflTransGen store.Refers start handle
  nodup : visited.Nodup → order.Nodup

theorem visited_of_visitOrder (h : store.visitOrder visited pending = .ok order)
    (hdone : ∀ handle ∈ visited, ∀ target, store.Refers handle target →
      target ∈ visited ∨ target ∈ pending) : store.Visited visited pending order := by
  induction visited, pending using visitOrder.induct store with
  | case1 visited =>
      rw [visitOrder] at h
      cases h
      exact ⟨fun _ h => h, List.forall_mem_nil _, fun handle hhandle target htarget =>
        (hdone handle hhandle target htarget).resolve_right List.not_mem_nil, fun _ => .inl, id⟩
  | case2 visited handle pending hseen ih =>
      rw [visitOrder, dif_pos hseen] at h
      have hrest := ih h fun other hother target htarget => by
        rcases hdone other hother target htarget with hmem | hmem
        · exact .inl hmem
        · rcases List.mem_cons.1 hmem with rfl | hmem
          · exact .inl hseen
          · exact .inr hmem
      refine ⟨hrest.kept, List.forall_mem_cons.2 ⟨hrest.kept _ hseen, hrest.listed⟩, hrest.closed,
        fun other hother => (hrest.reached other hother).imp_right ?_, hrest.nodup⟩
      rintro ⟨start, hstart, hpath⟩
      exact ⟨start, List.mem_cons_of_mem _ hstart, hpath⟩
  | case3 visited handle pending hseen error herror =>
      obtain ⟨targets, htargets, -⟩ := exists_successors_of_visitOrder hseen h
      cases herror.symm.trans htargets
  | case4 visited handle pending hseen targets htargets ih =>
      rw [visitOrder_cons hseen htargets] at h
      have hrest := ih h fun other hother target htarget => by
        rcases List.mem_append.1 hother with hother | hother
        · rcases hdone other hother target htarget with hmem | hmem
          · exact .inl (List.mem_append_left _ hmem)
          · rcases List.mem_cons.1 hmem with rfl | hmem
            · exact .inl (List.mem_append_right _ List.mem_cons_self)
            · exact .inr (List.mem_append_right _ hmem)
        · cases List.mem_singleton.1 hother
          exact .inr (List.mem_append_left _ ((mem_successors_iff htargets).2 htarget))
      have hkept := List.forall_mem_append.1 hrest.kept
      refine ⟨hkept.1, List.forall_mem_cons.2 ⟨List.forall_mem_singleton.1 hkept.2,
        (List.forall_mem_append.1 hrest.listed).2⟩, hrest.closed, fun other hother => ?_,
        fun hnodup => hrest.nodup ?_⟩
      · rcases hrest.reached other hother with hmem | ⟨start, hstart, hpath⟩
        · rcases List.mem_append.1 hmem with hmem | hmem
          · exact .inl hmem
          · cases List.mem_singleton.1 hmem
            exact .inr ⟨_, List.mem_cons_self, .refl⟩
        · rcases List.mem_append.1 hstart with hstart | hstart
          · exact .inr ⟨handle, List.mem_cons_self,
              .head ((mem_successors_iff htargets).1 hstart) hpath⟩
          · exact .inr ⟨start, List.mem_cons_of_mem _ hstart, hpath⟩
      · rw [List.nodup_append_comm]
        exact List.nodup_cons.2 ⟨hseen, hnodup⟩

/-- What is nearest to a node can be visited. -/
theorem exists_visitOrder_of_nearest (h : store.Sound) {nearest : List Handle}
    (hnearest : store.nearest root = .ok nearest) :
    ∃ order, store.visitOrder [] nearest = .ok order := by
  apply exists_visitOrder h
  intro target htarget
  obtain ⟨node, hnode⟩ := node?_of_mem_nearest hnearest htarget
  exact lt_size_of_node? hnode

/-- The list has every node at or below the root that is referred to by id, once. -/
structure Enumerates (store : Store) (root : Handle) (order : List Handle) : Prop where
  nodup : order.Nodup
  mem_iff : ∀ handle, handle ∈ order ↔ store.Below root handle ∧ store.Referred handle

theorem enumerates_of_visited {nearest : List Handle} (hnearest : store.nearest root = .ok nearest)
    (hvisited : store.Visited [] nearest order) : store.Enumerates root order where
  nodup := hvisited.nodup List.nodup_nil
  mem_iff handle := by
    constructor
    · intro hmem
      obtain ⟨start, hstart, hpath⟩ := (hvisited.reached handle hmem).resolve_left List.not_mem_nil
      exact ((mem_nearest_iff hnearest).1 hstart).toBelow_of_refers hpath
    · rintro ⟨hbelow, node, hnode, hreference⟩
      refine hbelow.nearest_mem (fun target htarget => ?_) hvisited.closed handle
        (.here hnode hreference)
      exact hvisited.listed target ((mem_nearest_iff hnearest).2 htarget)

theorem Enumerates.mem_of_nearest (h : store.Enumerates root order)
    (hbelow : store.Below root handle) {target : Handle} (hnearest : store.Nearest handle target) :
    target ∈ order :=
  (h.mem_iff target).2 ⟨hbelow.trans hnearest.toBelow, hnearest.exists_node⟩

/-! ## Writing with numbers -/

/-- The markup is what is written for the node with places in the list as ids. -/
abbrev NumberedAs (store : Store) (order : List Handle) (handle : Handle)
    (markup : Markup String) : Prop :=
  store.Written (fun handle text => store.numberLabel order handle = .ok text) handle markup

theorem numberLabel_eq_ok_iff {text : String} : store.numberLabel order handle = .ok text ↔
    (∃ node, store.node? handle = some node) ∧
      ∃ number, order.idxOf? handle = some number ∧ text = toString number := by
  constructor
  · intro h
    simp only [numberLabel, bind, Except.bind] at h
    split at h
    · cases h
    next node hnode =>
      split at h <;> cases h
      next number hnumber => exact ⟨⟨node, node_eq_ok_iff.1 hnode⟩, number, hnumber, rfl⟩
  · rintro ⟨⟨node, hnode⟩, number, hnumber, rfl⟩
    rw [numberLabel, node_eq_ok_iff.2 hnode]
    simp only [bind, Except.bind, hnumber]
    rfl

theorem referable_toString (number : Nat) : Referable (toString number) where
  nonempty hempty := by
    have hdigits := congrArg String.toList hempty
    rw [Nat.toString_eq_repr, Nat.toList_repr] at hdigits
    exact Nat.toDigits_ne_nil hdigits
  word c hc := by
    rw [Nat.toString_eq_repr, Nat.toList_repr] at hc
    exact Markup.wordChar_of_isDigit (Nat.isDigit_of_mem_toDigits (by decide) (by decide) hc)

theorem NumberedAs.allReferable (h : store.NumberedAs order handle markup) :
    markup.AllReferable := by
  intro id hid
  obtain ⟨nearest, -, hlabel⟩ := h.mem_references hid
  obtain ⟨-, number, -, rfl⟩ := numberLabel_eq_ok_iff.1 hlabel
  exact referable_toString number

theorem exists_numbered (h : store.Sound) (hlt : handle < store.size)
    (horder : ∀ target, store.Nearest handle target → target ∈ order) :
    ∃ markup, store.NumberedAs order handle markup := by
  refine exists_written h hlt fun target htarget => ?_
  obtain ⟨node, hnode, -⟩ := htarget.exists_node
  obtain ⟨number, hnumber⟩ :=
    Option.isSome_iff_exists.1 (List.isSome_idxOf?.2 (horder target htarget))
  exact ⟨_, numberLabel_eq_ok_iff.2 ⟨⟨node, hnode⟩, number, hnumber, rfl⟩⟩

theorem NumberedAs.numberedReference (h : store.Sound) (hlt : handle < store.size)
    (hmarkup : store.NumberedAs order handle markup) :
    store.numberedReference order handle = .ok markup.display := by
  rw [Store.numberedReference, markupWith_of_written h hlt hmarkup]
  rfl

/-! ## The layers -/

/-- The layer is the node in lower case, over what is written for the nodes below. -/
def HasLayer (store : Store) (order : List Handle) (handle : Handle)
    (layer : Node Name (Markup String)) : Prop :=
  ∃ node, store.node? handle = some node ∧ node.isByReference = true ∧
    layer.Lift (fun markup child => store.NumberedAs order child markup)
      (node.mapNames fun name => Name.mk name.folded)

theorem HasLayer.readable (h : store.HasLayer order handle layer) :
    CanonicalForm.ReadableLayer layer := by
  obtain ⟨node, -, hreference, hlift⟩ := h
  constructor
  · rw [hlift.isByReference_eq, Node.isByReference, Node.kind_mapNames]
    exact hreference
  · intro child hchild
    obtain ⟨target, -, hnumbered⟩ := Node.exists_right_of_forall₂ hlift.children hchild
    exact hnumbered.allReferable

theorem exists_hasLayer (h : store.Sound) (hroot : root < store.size)
    (horder : store.Enumerates root order) (hmem : handle ∈ order) :
    ∃ layer, store.HasLayer order handle layer := by
  obtain ⟨hbelow, node, hnode, hreference⟩ := (horder.mem_iff handle).1 hmem
  have : Nonempty (Markup String) := ⟨.empty⟩
  have hchildren : ∀ child ∈ (node.mapNames fun name => Name.mk name.folded).children,
      ∃ markup, store.NumberedAs order child markup := by
    intro child hchild
    rw [Node.children_mapNames] at hchild
    have hbelow' : store.Below root child := hbelow.tail ⟨node, hnode, hchild⟩
    exact exists_numbered h (hbelow'.lt_size h.toRegular hroot) fun target htarget =>
      horder.mem_of_nearest hbelow' htarget
  obtain ⟨layer, hlift⟩ := exists_lift hchildren
  exact ⟨layer, node, hnode, hreference, hlift⟩

/-- The line of a node is the text of the element of its layer. -/
theorem HasLayer.toElement? (h : store.Sound) (hlayer : store.HasLayer order handle layer)
    (id : String) : ∃ node, store.node? handle = some node ∧
      (node.mapNames fun name => Name.mk name.folded).toElement? (some id)
        (store.numberedReference order) = .ok (some (layer.encode id)) := by
  obtain ⟨node, hnode, hreference, hlift⟩ := hlayer
  refine ⟨node, hnode, Node.toElement?_eq_ok ⟨hlift.shape_eq, ?_⟩ ?_ id⟩
  · have hchildren := hlift.children
    rw [List.forall₂_iff_zip] at hchildren ⊢
    refine ⟨hchildren.1, fun {markup child} hmem => ?_⟩
    have hchild := (List.of_mem_zip hmem).2
    rw [Node.children_mapNames] at hchild
    exact (hchildren.2 hmem).numberedReference h (h.children_lt hnode child hchild)
  · rw [Node.isByReference, Node.kind_mapNames]
    exact hreference

theorem canonicalLines_of_layers (h : store.Sound) {layers : List (Node Name (Markup String))}
    (hlayers : List.Forall₂ (store.HasLayer order) handles layers) (number : Nat) :
    store.canonicalLines order number handles = .ok (CanonicalForm.lines number layers) := by
  induction hlayers generalizing number with
  | nil => rfl
  | cons hlayer _ ih =>
      obtain ⟨node, hnode, helement⟩ := hlayer.toElement? h (toString number)
      rw [canonicalLines, node_eq_ok_iff.2 hnode]
      simp only [bind, Except.bind, helement, ih]
      rfl

/-! ## The form -/

/-- The form has the markup of the root, and the layers of the nodes of the list. -/
structure HasForm (store : Store) (order : List Handle) (root : Handle)
    (form : CanonicalForm) : Prop where
  root : store.NumberedAs order root form.root
  layers : List.Forall₂ (store.HasLayer order) order form.layers

theorem HasForm.readable (h : store.HasForm order root form) : form.Readable where
  root := h.root.allReferable
  layer layer hlayer := by
    obtain ⟨handle, -, hhas⟩ := Node.exists_left_of_forall₂ h.layers hlayer
    exact hhas.readable

/-- The graph under every node has a form, whose text is the canonical text. -/
theorem exists_form (h : store.Sound) (hlt : root < store.size) : ∃ order form,
    store.Enumerates root order ∧ store.HasForm order root form ∧
      store.canonicalText root = .ok form.text := by
  obtain ⟨nearest, hnearest⟩ := exists_nearest h hlt
  obtain ⟨order, hvisit⟩ := exists_visitOrder_of_nearest h hnearest
  have horder := enumerates_of_visited hnearest (visited_of_visitOrder hvisit nofun)
  obtain ⟨markup, hmarkup⟩ := exists_numbered h hlt fun target => horder.mem_of_nearest .refl
  obtain ⟨layers, hlayers⟩ := exists_forall₂ fun handle => exists_hasLayer h hlt horder
  refine ⟨order, ⟨markup, layers⟩, horder, ⟨hmarkup, hlayers⟩, ?_⟩
  have hreference := hmarkup.numberedReference h hlt
  have hlines := canonicalLines_of_layers h hlayers 0
  rw [canonicalText, hnearest]
  simp only [bind, Except.bind, hvisit, hreference, hlines]
  rfl

/-- The graph under every node has a canonical text. -/
theorem exists_canonicalText (h : store.Sound) (hlt : root < store.size) :
    ∃ text, store.canonicalText root = .ok text := by
  obtain ⟨order, form, -, -, htext⟩ := exists_form h hlt
  exact ⟨_, htext⟩

end Store

end WireSchema
