/-
# The text that refers to a node

The text that refers to a node is put together node by node, and it is the text of a markup as well:
what is written for the node with the ids of the store.  There is such a text if every nearest node
that is referred to by id has one; if not, what is reported is the kind of a node that has none.
-/

import WireSchema.Proofs.Document.Export

namespace WireSchema

namespace Markup

theorem display_primitive (type : Primitive) : (Markup.primitive type).display = type.name := by
  rw [display, chars, String.ofList_toList]

theorem display_empty : Markup.empty.display = "\x7bempty\x7d" := by
  rw [display, chars, formChars, ← String.toList_inj]
  simp

theorem display_nullable (inner : Markup String) :
    (Markup.nullable inner).display = "\x7bnullable " ++ inner.display ++ "\x7d" := by
  rw [display, chars, formChars, ← String.toList_inj]
  simp [display]

theorem display_list (item : Markup String) :
    (Markup.list item).display = "\x7blist " ++ item.display ++ "\x7d" := by
  rw [display, chars, formChars, ← String.toList_inj]
  simp [display]

theorem display_dictionary (key value : Markup String) :
    (Markup.dictionary key value).display =
      "\x7bdictionary " ++ key.display ++ " " ++ value.display ++ "\x7d" := by
  rw [display, chars, formChars, ← String.toList_inj]
  simp [display]

end Markup

/-- The text that refers to a node, put together from the texts that refer to the nodes directly
below it.  A node that is referred to by id stands as its own id. -/
def Node.referenceText (own : Except Error String) (below : Handle → Except Error String) :
    Node Name Handle → Except Error String
  | primitive type => return type.name
  | empty => return "\x7bempty\x7d"
  | nullable _ inner => do
    let inner ← below inner
    return "\x7bnullable " ++ inner ++ "\x7d"
  | list _ item => do
    let item ← below item
    return "\x7blist " ++ item ++ "\x7d"
  | dictionary _ key value => do
    let key ← below key
    let value ← below value
    return "\x7bdictionary " ++ key ++ " " ++ value ++ "\x7d"
  | enumeration _ | recordWrite _ | recordRead _ | union .. => do
    let id ← own
    return "#" ++ id

namespace Store

variable {store : Store} {ρ σ : Type} {label : Handle → ρ → Prop} {handle target : Handle}
variable {node : Node Name Handle}

/-- The targets are the nearest nodes that are referred to by id, from left to right and with
repetitions. -/
inductive InOrder (store : Store) : Handle → List Handle → Prop
  | here {handle : Handle} {node : Node Name Handle} :
      store.node? handle = some node → node.isByReference = true → InOrder store handle [handle]
  | inline {handle : Handle} {node : Node Name Handle} {targets : List (List Handle)} :
      store.node? handle = some node → node.isByReference = false →
        List.Forall₂ (InOrder store) node.children targets → InOrder store handle targets.flatten

/-- What is written for a node has a reference for each nearest node that is referred to by id, in
their order. -/
theorem Written.exists_inOrder {markup : Markup ρ} (h : store.Written label handle markup) :
    ∃ targets, store.InOrder handle targets ∧ List.Forall₂ label targets markup.references := by
  induction h with
  | ref hnode hreference hlabel => exact ⟨_, .here hnode hreference, .cons hlabel .nil⟩
  | primitive hnode | empty hnode => exact ⟨[].flatten, .inline hnode rfl .nil, .nil⟩
  | nullable hnode _ ih | list hnode _ ih =>
      obtain ⟨targets, hbelow, hlabels⟩ := ih
      refine ⟨[targets].flatten, .inline hnode rfl (.cons hbelow .nil), ?_⟩
      rwa [List.flatten_singleton]
  | dictionary hnode _ _ ihkey ihvalue =>
      obtain ⟨targets, hbelow, hlabels⟩ := ihkey
      obtain ⟨targets', hbelow', hlabels'⟩ := ihvalue
      refine ⟨[targets, targets'].flatten,
        .inline hnode rfl (.cons hbelow (.cons hbelow' .nil)), ?_⟩
      rw [List.flatten_cons, List.flatten_singleton]
      exact List.rel_append hlabels hlabels'

/-! ## The tree under a node -/

/-- Where a node has one label only, one markup is written for it. -/
theorem Written.unique {markup markup' : Markup ρ}
    (hlabel : ∀ {handle a b}, label handle a → label handle b → a = b)
    (h : store.Written label handle markup) (h' : store.Written label handle markup') :
    markup = markup' := by
  induction h generalizing markup' with
  | ref hnode hreference htarget =>
      obtain ⟨_, rfl, htarget'⟩ := h'.exists_label hnode hreference
      rw [hlabel htarget htarget']
  | primitive hnode | empty hnode => exact (h'.writtenAs hnode).symm
  | nullable hnode _ ih | list hnode _ ih =>
      obtain ⟨_, rfl, hbelow⟩ := h'.writtenAs hnode
      rw [ih hbelow]
  | dictionary hnode _ _ ihkey ihvalue =>
      obtain ⟨_, _, rfl, hkey, hvalue⟩ := h'.writtenAs hnode
      rw [ihkey hkey, ihvalue hvalue]

/-- The tree under a node is what is written for it over handles. -/
theorem unfold_of_written (h : store.Sound) {tree : Markup Handle}
    (hwritten : store.Written (fun handle target => target = handle) handle tree)
    (hlt : handle < store.size) : store.unfold handle = .ok tree := by
  obtain ⟨found, hfound⟩ := exists_unfold h hlt
  rw [hfound, Written.unique (fun ha hb => ha.trans hb.symm) (written_of_unfoldWithin hfound)
    hwritten]

/-! ## The text -/

/-- The text that refers to a node is put together from those that refer to the nodes directly
below. -/
theorem reference_eq (h : store.Sound) (hnode : store.node? handle = some node) :
    store.reference handle =
      node.referenceText (store.assignedLabel handle) store.reference := by
  have hbelow : ∀ child ∈ node.children, ∃ tree, store.unfold child = .ok tree ∧
      store.Written (fun handle target => target = handle) child tree := by
    intro child hchild
    obtain ⟨tree, htree⟩ := exists_unfold h (h.children_lt hnode child hchild)
    exact ⟨tree, htree, written_of_unfoldWithin htree⟩
  have hunfold : ∀ {tree : Markup Handle},
      store.Written (fun handle target => target = handle) handle tree →
        store.unfold handle = .ok tree := fun hwritten =>
    unfold_of_written h hwritten (lt_size_of_node? hnode)
  cases node with
  | primitive type =>
      rw [reference, markupWith, hunfold (.primitive hnode)]
      exact congrArg Except.ok (Markup.display_primitive type)
  | empty =>
      rw [reference, markupWith, hunfold (.empty hnode)]
      exact congrArg Except.ok Markup.display_empty
  | enumeration | recordWrite | recordRead | union =>
      rw [reference, markupWith, hunfold (.ref hnode rfl rfl), Node.referenceText]
      simp only [bind, Except.bind, Markup.mapRefs]
      cases store.assignedLabel handle with
      | error error => rfl
      | ok id => exact congrArg Except.ok (Markup.display_ref id)
  | nullable direction inner =>
      obtain ⟨tree, htree, hwritten⟩ := hbelow inner List.mem_cons_self
      rw [Node.referenceText, reference, reference, markupWith, markupWith,
        hunfold (.nullable hnode hwritten), htree]
      simp only [bind, Except.bind, Markup.mapRefs]
      cases tree.mapRefs store.assignedLabel with
      | error error => rfl
      | ok markup => exact congrArg Except.ok (Markup.display_nullable markup)
  | list direction item =>
      obtain ⟨tree, htree, hwritten⟩ := hbelow item List.mem_cons_self
      rw [Node.referenceText, reference, reference, markupWith, markupWith,
        hunfold (.list hnode hwritten), htree]
      simp only [bind, Except.bind, Markup.mapRefs]
      cases tree.mapRefs store.assignedLabel with
      | error error => rfl
      | ok markup => exact congrArg Except.ok (Markup.display_list markup)
  | dictionary direction key value =>
      obtain ⟨tree, htree, hwritten⟩ := hbelow key List.mem_cons_self
      obtain ⟨tree', htree', hwritten'⟩ :=
        hbelow value (List.mem_cons_of_mem _ List.mem_cons_self)
      rw [Node.referenceText, reference, reference, reference, markupWith, markupWith, markupWith,
        hunfold (.dictionary hnode hwritten hwritten'), htree, htree']
      simp only [bind, Except.bind, Markup.mapRefs]
      cases tree.mapRefs store.assignedLabel with
      | error error => rfl
      | ok markup =>
          cases tree'.mapRefs store.assignedLabel with
          | error error => rfl
          | ok markup' => exact congrArg Except.ok (Markup.display_dictionary markup markup')

/-- Either every nearest node has an id and the text is that of what is written with these ids, or
the kind of a node that has none is reported. -/
theorem reference_cases (h : store.Sound) (hlt : handle < store.size) :
    (∃ tree, store.Spelled handle tree ∧ store.reference handle = .ok tree.display) ∨
      ∃ target node, store.Nearest handle target ∧ store.node? target = some node ∧
        store.id? target = none ∧ store.reference handle = .error (.missingId node.kind) := by
  induction handle using h.grounded.induction with
  | _ handle ih =>
      obtain ⟨node, hnode⟩ := h.filled hlt
      have hinlines : node.isByReference = false → ∀ child ∈ node.children,
          store.Inlines child handle := fun hinline child hchild => ⟨node, hnode, hinline, hchild⟩
      have hbelow := fun hinline child hchild =>
        ih child (hinlines hinline child hchild) (h.children_lt hnode child hchild)
      rw [reference_eq h hnode]
      cases node with
      | primitive type =>
          refine .inl ⟨_, .primitive hnode, ?_⟩
          rw [Markup.display_primitive]
          rfl
      | empty =>
          refine .inl ⟨_, .empty hnode, ?_⟩
          rw [Markup.display_empty]
          rfl
      | enumeration | recordWrite | recordRead | union =>
          rw [Node.referenceText, assignedLabel, node_eq_ok_iff.2 hnode]
          simp only [bind, Except.bind]
          cases hid : store.id? handle with
          | none => exact .inr ⟨handle, _, .here hnode rfl, hnode, hid, rfl⟩
          | some id =>
              refine .inl ⟨_, .ref hnode rfl hid, ?_⟩
              rw [Markup.display_ref]
              rfl
      | nullable direction inner =>
          rw [Node.referenceText]
          rcases hbelow rfl inner List.mem_cons_self with
            ⟨tree, hspelled, htext⟩ | ⟨target, x, hnearest, hx, hid, herror⟩
          · refine .inl ⟨_, .nullable hnode hspelled, ?_⟩
            rw [htext, Markup.display_nullable]
            rfl
          · refine .inr ⟨target, x, ?_, hx, hid, by rw [herror]; rfl⟩
            exact .inline (hinlines rfl inner List.mem_cons_self) hnearest
      | list direction item =>
          rw [Node.referenceText]
          rcases hbelow rfl item List.mem_cons_self with
            ⟨tree, hspelled, htext⟩ | ⟨target, x, hnearest, hx, hid, herror⟩
          · refine .inl ⟨_, .list hnode hspelled, ?_⟩
            rw [htext, Markup.display_list]
            rfl
          · refine .inr ⟨target, x, ?_, hx, hid, by rw [herror]; rfl⟩
            exact .inline (hinlines rfl item List.mem_cons_self) hnearest
      | dictionary direction key value =>
          have hvalue : value ∈ [key, value] := List.mem_cons_of_mem _ List.mem_cons_self
          rw [Node.referenceText]
          rcases hbelow rfl key List.mem_cons_self with
            ⟨tree, hspelled, htext⟩ | ⟨target, x, hnearest, hx, hid, herror⟩
          · rcases hbelow rfl value hvalue with
              ⟨tree', hspelled', htext'⟩ | ⟨target, x, hnearest, hx, hid, herror⟩
            · refine .inl ⟨_, .dictionary hnode hspelled hspelled', ?_⟩
              rw [htext, htext', Markup.display_dictionary]
              rfl
            · refine .inr ⟨target, x, .inline (hinlines rfl value hvalue) hnearest, hx, hid, ?_⟩
              rw [htext, herror]
              rfl
          · refine .inr ⟨target, x, ?_, hx, hid, by rw [herror]; rfl⟩
            exact .inline (hinlines rfl key List.mem_cons_self) hnearest

/-- The text that refers to a node is that of what is written for it with the ids of the store. -/
theorem reference_eq_ok_iff (h : store.Sound) (hlt : handle < store.size) {text : String} :
    store.reference handle = .ok text ↔
      ∃ tree, store.Spelled handle tree ∧ text = tree.display := by
  constructor
  · intro htext
    rcases reference_cases h hlt with ⟨tree, hspelled, hok⟩ | ⟨_, _, _, _, _, herror⟩
    · exact ⟨tree, hspelled, Except.ok.inj (htext.symm.trans hok)⟩
    · cases htext.symm.trans herror
  · rintro ⟨tree, hspelled, rfl⟩
    exact reference_of_written h hlt hspelled

/-- There is a text that refers to a node if every nearest node that is referred to by id has
one. -/
theorem exists_reference_iff (h : store.Sound) (hlt : handle < store.size) :
    (∃ text, store.reference handle = .ok text) ↔
      ∀ target, store.Nearest handle target → ∃ id, store.id? target = some id := by
  constructor
  · rintro ⟨text, htext⟩ target hnearest
    obtain ⟨tree, hspelled, -⟩ := (reference_eq_ok_iff h hlt).1 htext
    obtain ⟨id, -, hid⟩ := hnearest.exists_mem_references hspelled
    exact ⟨id, hid⟩
  · intro hids
    obtain ⟨tree, hspelled⟩ := exists_written h hlt hids
    exact ⟨tree.display, reference_of_written h hlt hspelled⟩

end Store

end WireSchema
