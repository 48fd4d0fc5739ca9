/-
# What is written for a node

Markup writes a node out down to the nearest nodes that are referred to by id, for which
it has labels.  `Written` says what that is, whatever the labels are; the trees over
handles and the markup over ids are two cases of it.
-/

import WireSchema.Proofs.Store.Unfold

namespace WireSchema.Store

variable {store : Store} {ρ σ : Type} {label : Handle → ρ → Prop} {handle target : Handle}

/-- The markup is what is written for the node, when nodes that are referred to by id stand
as `label` says. -/
inductive Written (store : Store) (label : Handle → ρ → Prop) : Handle → Markup ρ → Prop
  | ref {handle : Handle} {node : Node Name Handle} {target : ρ} :
      store.node? handle = some node → node.isByReference = true → label handle target →
        Written store label handle (.ref target)
  | primitive {handle : Handle} {type : Primitive} :
      store.node? handle = some (.primitive type) → Written store label handle (.primitive type)
  | empty {handle : Handle} :
      store.node? handle = some .empty → Written store label handle .empty
  | nullable {handle inner : Handle} {direction : Direction} {markup : Markup ρ} :
      store.node? handle = some (.nullable direction inner) → Written store label inner markup →
        Written store label handle (.nullable markup)
  | list {handle item : Handle} {direction : Direction} {markup : Markup ρ} :
      store.node? handle = some (.list direction item) → Written store label item markup →
        Written store label handle (.list markup)
  | dictionary {handle key value : Handle} {direction : Direction} {markup markup' : Markup ρ} :
      store.node? handle = some (.dictionary direction key value) →
        Written store label key markup → Written store label value markup' →
          Written store label handle (.dictionary markup markup')

/-- What is written for a node, in terms of what is written for the nodes directly below. -/
def WrittenAs (store : Store) (label : Handle → ρ → Prop) (handle : Handle) :
    Node Name Handle → Markup ρ → Prop
  | .primitive type, markup => markup = .primitive type
  | .empty, markup => markup = .empty
  | .nullable _ inner, markup => ∃ below, markup = .nullable below ∧ store.Written label inner below
  | .list _ item, markup => ∃ below, markup = .list below ∧ store.Written label item below
  | .dictionary _ key value, markup => ∃ below below', markup = .dictionary below below' ∧
      store.Written label key below ∧ store.Written label value below'
  | .enumeration _, markup | .recordWrite _, markup | .recordRead _, markup
  | .union .., markup => ∃ target, markup = .ref target ∧ label handle target

/-- The node decides what form the markup has. -/
theorem Written.writtenAs {markup : Markup ρ} {node : Node Name Handle}
    (h : store.Written label handle markup) (hnode : store.node? handle = some node) :
    store.WrittenAs label handle node markup := by
  cases h with
  | ref hnode' hreference hlabel =>
      cases hnode.symm.trans hnode'
      cases node with
      | enumeration | recordWrite | recordRead | union => exact ⟨_, rfl, hlabel⟩
      | primitive | empty | nullable | list | dictionary => cases hreference
  | primitive hnode' | empty hnode' =>
      cases hnode.symm.trans hnode'
      rfl
  | nullable hnode' hbelow | list hnode' hbelow =>
      cases hnode.symm.trans hnode'
      exact ⟨_, rfl, hbelow⟩
  | dictionary hnode' hkey hvalue =>
      cases hnode.symm.trans hnode'
      exact ⟨_, _, rfl, hkey, hvalue⟩

theorem Written.exists_label {markup : Markup ρ} {node : Node Name Handle}
    (h : store.Written label handle markup) (hnode : store.node? handle = some node)
    (hreference : node.isByReference = true) :
    ∃ target, markup = .ref target ∧ label handle target := by
  have hwritten := h.writtenAs hnode
  cases node with
  | enumeration | recordWrite | recordRead | union => exact hwritten
  | primitive | empty | nullable | list | dictionary => cases hreference

/-- The target is at the node or below it, with nothing that is referred to by id on the
way. -/
inductive Nearest (store : Store) : Handle → Handle → Prop
  | here {handle : Handle} {node : Node Name Handle} :
      store.node? handle = some node → node.isByReference = true → Nearest store handle handle
  | inline {parent child target : Handle} :
      store.Inlines child parent → Nearest store child target → Nearest store parent target

theorem Nearest.exists_node (h : store.Nearest handle target) :
    ∃ node, store.node? target = some node ∧ node.isByReference = true := by
  induction h with
  | here hnode hreference => exact ⟨_, hnode, hreference⟩
  | inline _ _ ih => exact ih

/-- The same is written when nodes have more labels. -/
theorem Written.imp {label' : Handle → ρ → Prop} {markup : Markup ρ}
    (h : store.Written label handle markup)
    (himp : ∀ handle node target, store.node? handle = some node → label handle target →
      label' handle target) : store.Written label' handle markup := by
  induction h with
  | ref hnode hreference hlabel => exact .ref hnode hreference (himp _ _ _ hnode hlabel)
  | primitive hnode => exact .primitive hnode
  | empty hnode => exact .empty hnode
  | nullable hnode _ ih => exact .nullable hnode ih
  | list hnode _ ih => exact .list hnode ih
  | dictionary hnode _ _ ihkey ihvalue => exact .dictionary hnode ihkey ihvalue

/-- What is written for a node stands for the nearest nodes that are referred to by id. -/
theorem Written.mem_references {markup : Markup ρ} (h : store.Written label handle markup)
    {target : ρ} (hmem : target ∈ markup.references) :
    ∃ nearest, store.Nearest handle nearest ∧ label nearest target := by
  induction h with
  | ref hnode hreference hlabel =>
      cases List.mem_singleton.1 hmem
      exact ⟨_, .here hnode hreference, hlabel⟩
  | primitive | empty => cases hmem
  | nullable hnode _ ih | list hnode _ ih =>
      obtain ⟨nearest, hnearest, hlabel⟩ := ih hmem
      exact ⟨nearest, .inline ⟨_, hnode, rfl, List.mem_cons_self⟩ hnearest, hlabel⟩
  | dictionary hnode _ _ ihkey ihvalue =>
      rcases List.mem_append.1 hmem with hmem | hmem
      · obtain ⟨nearest, hnearest, hlabel⟩ := ihkey hmem
        exact ⟨nearest, .inline ⟨_, hnode, rfl, List.mem_cons_self⟩ hnearest, hlabel⟩
      · obtain ⟨nearest, hnearest, hlabel⟩ := ihvalue hmem
        refine ⟨nearest, .inline ⟨_, hnode, rfl, ?_⟩ hnearest, hlabel⟩
        exact List.mem_cons_of_mem _ List.mem_cons_self

/-- Every nearest node that is referred to by id stands in what is written for a node. -/
theorem Nearest.exists_mem_references {markup : Markup ρ} (h : store.Nearest handle target)
    (hwritten : store.Written label handle markup) :
    ∃ reference ∈ markup.references, label target reference := by
  induction h generalizing markup with
  | here hnode hreference =>
      obtain ⟨reference, rfl, hlabel⟩ := hwritten.exists_label hnode hreference
      exact ⟨reference, List.mem_singleton.2 rfl, hlabel⟩
  | inline hinlines _ ih =>
      obtain ⟨node, hnode, hinline, hchild⟩ := hinlines
      have hform := hwritten.writtenAs hnode
      cases node with
      | primitive | empty => cases hchild
      | enumeration | recordWrite | recordRead | union => cases hinline
      | nullable | list =>
          obtain ⟨below, rfl, hbelow⟩ := hform
          cases List.mem_singleton.1 hchild
          obtain ⟨reference, hmem, hlabel⟩ := ih hbelow
          exact ⟨reference, hmem, hlabel⟩
      | dictionary =>
          obtain ⟨below, below', rfl, hkey, hvalue⟩ := hform
          rcases List.mem_cons.1 hchild with rfl | hchild
          · obtain ⟨reference, hmem, hlabel⟩ := ih hkey
            exact ⟨reference, List.mem_append_left _ hmem, hlabel⟩
          · cases List.mem_singleton.1 hchild
            obtain ⟨reference, hmem, hlabel⟩ := ih hvalue
            exact ⟨reference, List.mem_append_right _ hmem, hlabel⟩

/-- Where every nearest node has a label, the node can be written. -/
theorem exists_written (h : store.Sound) (hlt : handle < store.size)
    (hlabel : ∀ target, store.Nearest handle target → ∃ reference, label target reference) :
    ∃ markup, store.Written label handle markup := by
  induction handle using h.grounded.induction with
  | _ handle ih =>
      obtain ⟨node, hnode⟩ := h.filled hlt
      have hbelow : node.isByReference = false → ∀ child ∈ node.children,
          ∃ markup, store.Written label child markup := by
        intro hinline child hchild
        have hinlines : store.Inlines child handle := ⟨node, hnode, hinline, hchild⟩
        exact ih child hinlines (h.children_lt hnode child hchild)
          fun target htarget => hlabel target (.inline hinlines htarget)
      cases node with
      | primitive type => exact ⟨_, .primitive hnode⟩
      | empty => exact ⟨_, .empty hnode⟩
      | enumeration | recordWrite | recordRead | union =>
          obtain ⟨reference, hreference⟩ := hlabel handle (.here hnode rfl)
          exact ⟨_, .ref hnode rfl hreference⟩
      | nullable direction inner =>
          obtain ⟨markup, hmarkup⟩ := hbelow rfl inner List.mem_cons_self
          exact ⟨_, .nullable hnode hmarkup⟩
      | list direction item =>
          obtain ⟨markup, hmarkup⟩ := hbelow rfl item List.mem_cons_self
          exact ⟨_, .list hnode hmarkup⟩
      | dictionary direction key value =>
          obtain ⟨markup, hmarkup⟩ := hbelow rfl key List.mem_cons_self
          obtain ⟨markup', hmarkup'⟩ :=
            hbelow rfl value (List.mem_cons_of_mem _ List.mem_cons_self)
          exact ⟨_, .dictionary hnode hmarkup hmarkup'⟩

/-! ## The functions that write -/

/-- The tree under a node is what is written for it over handles. -/
theorem written_of_unfoldWithin {depth : Nat} {tree : Markup Handle}
    (h : store.unfoldWithin depth handle = .ok tree) :
    store.Written (fun handle target => target = handle) handle tree := by
  induction depth generalizing handle tree with
  | zero => cases h
  | succ depth ih =>
      rw [unfoldWithin] at h
      cases hnode : store.node handle with
      | error error => rw [hnode] at h; cases h
      | ok node =>
          rw [hnode] at h
          have hnode := node_eq_ok_iff.1 hnode
          cases node with
          | primitive type => cases h; exact .primitive hnode
          | empty => cases h; exact .empty hnode
          | enumeration | recordWrite | recordRead | union => cases h; exact .ref hnode rfl rfl
          | nullable direction inner =>
              simp only [bind, Except.bind] at h
              split at h <;> cases h
              next hinner => exact .nullable hnode (ih hinner)
          | list direction item =>
              simp only [bind, Except.bind] at h
              split at h <;> cases h
              next hitem => exact .list hnode (ih hitem)
          | dictionary direction key value =>
              simp only [bind, Except.bind] at h
              split at h
              · cases h
              next hkey =>
                split at h <;> cases h
                next hvalue => exact .dictionary hnode (ih hkey) (ih hvalue)

/-- Naming what the tree under a node refers to gives what is written for the node. -/
theorem Written.mapRefs {f : Handle → Except Error σ} {tree : Markup Handle} {markup : Markup σ}
    (h : store.Written (fun handle target => target = handle) handle tree)
    (h' : store.Written (fun handle target => f handle = .ok target) handle markup) :
    tree.mapRefs f = .ok markup := by
  induction h generalizing markup with
  | ref hnode hreference hlabel =>
      cases hlabel
      obtain ⟨target, rfl, htarget⟩ := h'.exists_label hnode hreference
      rw [Markup.mapRefs, htarget]
      rfl
  | primitive hnode =>
      obtain rfl := h'.writtenAs hnode
      rfl
  | empty hnode =>
      obtain rfl := h'.writtenAs hnode
      rfl
  | nullable hnode _ ih | list hnode _ ih =>
      obtain ⟨below, rfl, hbelow⟩ := h'.writtenAs hnode
      rw [Markup.mapRefs, ih hbelow]
      rfl
  | dictionary hnode _ _ ihkey ihvalue =>
      obtain ⟨below, below', rfl, hkey, hvalue⟩ := h'.writtenAs hnode
      rw [Markup.mapRefs, ihkey hkey, ihvalue hvalue]
      rfl

/-- The targets of a node are the nearest nodes that are referred to by id. -/
theorem mem_nearest_iff {targets : List Handle} (h : store.nearest handle = .ok targets) :
    target ∈ targets ↔ store.Nearest handle target := by
  obtain ⟨tree, htree, rfl⟩ := exists_unfold_of_nearest h
  have hwritten := written_of_unfoldWithin htree
  constructor
  · intro hmem
    obtain ⟨nearest, hnearest, rfl⟩ := hwritten.mem_references hmem
    exact hnearest
  · intro hnearest
    obtain ⟨reference, hmem, rfl⟩ := hnearest.exists_mem_references hwritten
    exact hmem

theorem mem_nearestAll_iff {handles targets : List Handle}
    (h : store.nearestAll handles = .ok targets) :
    target ∈ targets ↔ ∃ handle ∈ handles, store.Nearest handle target := by
  induction handles generalizing targets with
  | nil =>
      cases h
      exact iff_of_false List.not_mem_nil nofun
  | cons handle handles ih =>
      obtain ⟨first, more, hfirst, hmore, rfl⟩ := exists_of_nearestAll_cons h
      rw [List.mem_append, mem_nearest_iff hfirst, ih hmore]
      simp only [List.mem_cons, exists_eq_or_imp]

/-- What a node refers to are the nearest nodes to those directly below it. -/
theorem mem_successors_iff {targets : List Handle} (h : store.successors handle = .ok targets) :
    target ∈ targets ↔ ∃ child, store.IsChild handle child ∧ store.Nearest child target := by
  obtain ⟨node, hnode, hall⟩ := exists_node_of_successors h
  rw [mem_nearestAll_iff hall]
  constructor
  · rintro ⟨child, hchild, hnearest⟩
    exact ⟨child, ⟨node, hnode, hchild⟩, hnearest⟩
  · rintro ⟨child, ⟨node', hnode', hchild⟩, hnearest⟩
    cases hnode.symm.trans hnode'
    exact ⟨child, hchild, hnearest⟩

/-- What is written for a node with the names that a function gives is its markup. -/
theorem markupWith_of_written (h : store.Sound) (hlt : handle < store.size)
    {name : Handle → Except Error String} {markup : Markup String}
    (hwritten : store.Written (fun handle text => name handle = .ok text) handle markup) :
    store.markupWith name handle = .ok markup := by
  obtain ⟨tree, htree⟩ := exists_unfold h hlt
  rw [markupWith, htree]
  exact (written_of_unfoldWithin htree).mapRefs hwritten

/-- What is written for a node with its ids is the text that refers to the node. -/
theorem reference_of_written (h : store.Sound) (hlt : handle < store.size)
    {markup : Markup String}
    (hwritten : store.Written (fun handle id => store.id? handle = some id) handle markup) :
    store.reference handle = .ok markup.display := by
  have hassigned : store.Written (fun handle id => store.assignedLabel handle = .ok id)
      handle markup := by
    apply hwritten.imp
    intro handle node id hnode hid
    rw [assignedLabel, node_eq_ok_iff.2 hnode]
    simp only [bind, Except.bind, hid]
    rfl
  rw [reference, markupWith_of_written h hlt hassigned]
  rfl

end WireSchema.Store
