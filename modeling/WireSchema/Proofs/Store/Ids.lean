/-
# Generated ids are free

A generated id is the name of a kind with a number, and different numbers give
different ids.  One number more is tried than there are ids, so a free one is
among them, and giving it to a node keeps the store sound.
-/

import Mathlib.Data.List.Perm.Subperm
import WireSchema.Document.Export
import WireSchema.Proofs.Store.Copy

namespace WireSchema.Store

variable {store : Store} {handle : Handle}

theorem toString_injective {m n : Nat} (h : toString m = toString n) : m = n := by
  have hdigits : Nat.toDigits 10 m = Nat.toDigits 10 n := by
    rw [← Nat.toList_repr, ← Nat.toList_repr]
    exact congrArg String.toList h
  rw [← Nat.ofDigitChars_ten_toDigits (n := m), hdigits, Nat.ofDigitChars_ten_toDigits]

/-- Different numbers give different ids. -/
theorem generatedId_injective {kind : Kind} {m n : Nat}
    (h : generatedId kind m = generatedId kind n) : m = n :=
  toString_injective ((String.append_right_inj kind.name).1 h)

/-- One of the numbers that are tried is free, and the first of these is taken. -/
theorem find?_freshNumber (store : Store) (kind : Kind) :
    ((List.range (store.ids.size + 1)).map (store.nextId + ·)).find? (fun number =>
      !store.ids.contains (generatedId kind number)) = some (store.freshNumber kind) := by
  unfold freshNumber
  dsimp only
  cases hfind : ((List.range (store.ids.size + 1)).map (store.nextId + ·)).find? fun number =>
      !store.ids.contains (generatedId kind number) with
  | some number => rfl
  | none =>
      exfalso
      -- All the ids that are tried would be keys of a table with fewer keys.
      have htaken : ∀ number ∈ (List.range (store.ids.size + 1)).map (store.nextId + ·),
          generatedId kind number ∈ store.ids.bindings.map Prod.fst := by
        intro number hnumber
        have hcontains := List.find?_eq_none.1 hfind number hnumber
        simp only [Bool.not_eq_true', Bool.not_eq_false] at hcontains
        obtain ⟨owner, howner⟩ := Option.isSome_iff_exists.1 hcontains
        exact List.mem_map.2 ⟨_, (Table.mem_bindings_iff _ _ _).2 howner, rfl⟩
      have hnodup : (((List.range (store.ids.size + 1)).map (store.nextId + ·)).map
          (generatedId kind)).Nodup := by
        apply List.Nodup.map (fun _ _ h => generatedId_injective h)
        exact List.nodup_range.map fun _ _ h => Nat.add_left_cancel h
      have hsubset : ((List.range (store.ids.size + 1)).map (store.nextId + ·)).map
          (generatedId kind) ⊆ store.ids.bindings.map Prod.fst := by
        intro id hid
        obtain ⟨number, hnumber, rfl⟩ := List.mem_map.1 hid
        exact htaken number hnumber
      have hle := (List.subperm_of_subset hnodup hsubset).length_le
      simp only [List.length_map, List.length_range] at hle
      exact Nat.not_succ_le_self _ hle

/-- The id that is generated next is free. -/
theorem get?_generatedId (store : Store) (kind : Kind) :
    store.ids.get? (generatedId kind (store.freshNumber kind)) = none := by
  have hfree := List.find?_some (find?_freshNumber store kind)
  simp only [Bool.not_eq_true'] at hfree
  exact (Table.contains_eq_false_iff _ _).1 hfree

/-- Numbers are passed over only from the counter on, and only where their ids are taken. -/
theorem taken_of_lt_freshNumber (store : Store) (kind : Kind) :
    store.nextId ≤ store.freshNumber kind ∧ ∀ number, store.nextId ≤ number →
      number < store.freshNumber kind →
        ∃ owner, store.ids.get? (generatedId kind number) = some owner := by
  have hfind := find?_freshNumber store kind
  rw [List.find?_map, Option.map_eq_some_iff] at hfind
  obtain ⟨offset, hoffset, hnumber⟩ := hfind
  obtain ⟨-, -, htaken⟩ := List.find?_range_eq_some.1 hoffset
  rw [← hnumber]
  refine ⟨Nat.le_add_right _ _, fun number hle hlt => ?_⟩
  obtain ⟨earlier, rfl⟩ := Nat.exists_eq_add_of_le hle
  have hcontains := htaken earlier (Nat.lt_of_add_lt_add_left hlt)
  simp only [Function.comp_apply, Bool.not_not] at hcontains
  exact Option.isSome_iff_exists.1 hcontains

/-! ## Operations that give ids -/

/-- The second store differs from the first in that more nodes have ids, all of them nodes that
are referred to by id. -/
structure Labels (before after : Store) : Prop where
  size_eq : after.size = before.size
  node?_eq : ∀ handle, after.node? handle = before.node? handle
  built_eq : after.built = before.built
  id?_of : ∀ {handle id}, before.id? handle = some id → after.id? handle = some id
  referred : ∀ {handle id}, after.id? handle = some id → before.id? handle = some id ∨
    ∃ node, before.node? handle = some node ∧ node.isByReference = true

theorem Labels.refl (store : Store) : Labels store store :=
  ⟨rfl, fun _ => rfl, rfl, fun h => h, .inl⟩

theorem Labels.trans {s t u : Store} (h : Labels s t) (h' : Labels t u) : Labels s u where
  size_eq := h'.size_eq.trans h.size_eq
  node?_eq handle := (h'.node?_eq handle).trans (h.node?_eq handle)
  built_eq := h'.built_eq.trans h.built_eq
  id?_of hid := h'.id?_of (h.id?_of hid)
  referred hid := by
    rcases h'.referred hid with hid | ⟨node, hnode, hreference⟩
    · exact h.referred hid
    · exact .inr ⟨node, (h.node?_eq _).symm.trans hnode, hreference⟩

/-- Giving an id to a node that has none. -/
theorem labels_setId {node : Node Name Handle} (hnode : store.node? handle = some node)
    (hreference : node.isByReference = true) (hid : store.id? handle = none) (id : String) :
    Labels store (store.setId handle id) := by
  have hids := id?_setId (lt_size_of_node? hnode) id
  refine ⟨size_setId _ _ _, node?_setId _ _ _, rfl, fun {other _} hother => ?_,
    fun {other _} hother => ?_⟩
  · apply (hids other).trans
    rw [if_neg, hother]
    rintro rfl
    rw [hid] at hother
    cases hother
  · have hother' := (hids other).symm.trans hother
    split at hother'
    next heq => exact .inr ⟨node, heq ▸ hnode, hreference⟩
    next => exact .inl hother'

/-- The second store differs from the first in that more nodes have ids, all of them
generated. -/
structure Relabels (before after : Store) : Prop extends Labels before after where
  progress : Progress before after
  generated : ∀ {handle id}, after.id? handle = some id →
    before.id? handle = some id ∨ ∃ kind number, id = generatedId kind number

theorem Relabels.refl (h : store.Sound) : Relabels store store :=
  ⟨.refl store, .refl h, .inl⟩

theorem Relabels.trans {s t u : Store} (h : Relabels s t) (h' : Relabels t u) : Relabels s u where
  toLabels := h.toLabels.trans h'.toLabels
  progress := h.progress.trans h'.progress
  generated hid := (h'.generated hid).elim h.generated .inr

/-- Giving a generated id to a node that has none. -/
theorem relabels_setId (h : store.Sound) {node : Node Name Handle}
    (hnode : store.node? handle = some node) (hreference : node.isByReference = true)
    (hid : store.id? handle = none) (nextId : Nat) :
    Relabels store { store.setId handle
      (generatedId node.kind (store.freshNumber node.kind)) with nextId } := by
  have hregular := h.toRegular.setId hnode (get?_generatedId store node.kind) hid
  have hlabels := labels_setId hnode hreference hid
    (generatedId node.kind (store.freshNumber node.kind))
  have hgrown := extends_setId store handle
    (generatedId node.kind (store.freshNumber node.kind))
  refine ⟨⟨hlabels.size_eq, hlabels.node?_eq, rfl, hlabels.id?_of, hlabels.referred⟩,
    ⟨(h.of_node?_eq hregular hlabels.size_eq hlabels.node?_eq).withNextId _,
      ⟨hgrown.size_le, hgrown.node?_eq, hgrown.index_of⟩, fun hget => hget⟩, ?_⟩
  intro other id hother
  have hother' := (id?_setId (lt_size_of_node? hnode) _ other).symm.trans hother
  split at hother'
  · cases hother'
    exact .inr ⟨_, _, rfl⟩
  · exact .inl hother'

/-- A node that has an id is not given another. -/
theorem assignId_of_id?_eq_some {node : Node Name Handle} {id : String}
    (hnode : store.node? handle = some node) (hreference : node.isByReference = true)
    (hid : store.id? handle = some id) : assignId handle store = .ok (some id) store := by
  rw [assignId, node_eq_ok_iff.2 hnode]
  dsimp only
  rw [if_pos hreference, hid]

theorem assignId_of_id?_eq_none {node : Node Name Handle}
    (hnode : store.node? handle = some node) (hreference : node.isByReference = true)
    (hid : store.id? handle = none) :
    assignId handle store = .ok (some (generatedId node.kind (store.freshNumber node.kind)))
      { store.setId handle (generatedId node.kind (store.freshNumber node.kind)) with
        nextId := store.freshNumber node.kind + 1 } := by
  let counted : Store := { store with nextId := store.freshNumber node.kind + 1 }
  have hlt : handle < counted.size := lt_size_of_node? hnode
  have hclaim := claimId_of_free hlt hid (get?_generatedId store node.kind)
  rw [assignId, node_eq_ok_iff.2 hnode]
  dsimp only
  rw [if_pos hreference, hid]
  dsimp only
  rw [hclaim]
  rfl

/-- The second store differs from the first in ids of the given nodes alone.  Each of them that is
referred to by id has one, and where all had ids before, nothing is different. -/
structure Labelled (handles : List Handle) (before after : Store) : Prop
    extends Labels before after where
  index_eq : after.index = before.index
  nextId_le : before.nextId ≤ after.nextId
  given : ∀ handle ∈ handles, ∀ node, before.node? handle = some node →
    node.isByReference = true → ∃ id, after.id? handle = some id
  others : ∀ handle, handle ∉ handles → after.id? handle = before.id? handle
  unchanged : (∀ handle ∈ handles, ∃ id, before.id? handle = some id) → after = before

theorem Labelled.trans {handles more : List Handle} {s t u : Store} (h : Labelled handles s t)
    (h' : Labelled more t u) : Labelled (handles ++ more) s u where
  toLabels := h.toLabels.trans h'.toLabels
  index_eq := h'.index_eq.trans h.index_eq
  nextId_le := h.nextId_le.trans h'.nextId_le
  given handle hmem node hnode hreference := by
    rcases List.mem_append.1 hmem with hmem | hmem
    · exact (h.given handle hmem node hnode hreference).imp fun _ => h'.id?_of
    · exact h'.given handle hmem node ((h.node?_eq handle).trans hnode) hreference
  others handle hmem := by
    rw [List.mem_append, not_or] at hmem
    exact (h'.others handle hmem.2).trans (h.others handle hmem.1)
  unchanged hids := by
    obtain rfl := h.unchanged fun handle hmem => hids handle (List.mem_append_left _ hmem)
    exact h'.unchanged fun handle hmem => hids handle (List.mem_append_right _ hmem)

/-- A store in which the given nodes have ids, as far as they are referred to by id, is as it
should be. -/
theorem Labelled.refl {handles : List Handle} (h : ∀ handle ∈ handles, ∀ node,
    store.node? handle = some node → node.isByReference = true → ∃ id, store.id? handle = some id) :
    Labelled handles store store :=
  ⟨.refl store, rfl, Nat.le_refl _, h, fun _ _ => rfl, fun _ => rfl⟩

/-- Giving a generated id to a node that has none does nothing else. -/
theorem labelled_setId {node : Node Name Handle} (hnode : store.node? handle = some node)
    (hreference : node.isByReference = true) (hid : store.id? handle = none) :
    Labelled [handle] store
      { store.setId handle (generatedId node.kind (store.freshNumber node.kind)) with
        nextId := store.freshNumber node.kind + 1 } := by
  have hlabels := labels_setId hnode hreference hid
    (generatedId node.kind (store.freshNumber node.kind))
  have hids := id?_setId (lt_size_of_node? hnode)
    (generatedId node.kind (store.freshNumber node.kind))
  refine ⟨⟨hlabels.size_eq, hlabels.node?_eq, rfl, hlabels.id?_of, hlabels.referred⟩, rfl, ?_, ?_,
    fun other hother => ?_, fun hall => ?_⟩
  · exact (taken_of_lt_freshNumber store node.kind).1.trans (Nat.le_succ _)
  · exact List.forall_mem_singleton.2 fun _ _ _ => ⟨_, (hids handle).trans (if_pos rfl)⟩
  · exact (hids other).trans (if_neg fun heq => hother (List.mem_singleton.2 heq))
  · obtain ⟨id, hsome⟩ := hall handle List.mem_cons_self
    rw [hid] at hsome
    cases hsome

/-- A node that is referred to by id has one afterwards, and nothing else has changed. -/
theorem assignId_ends (h : store.Sound) (handle : Handle) :
    Ends (assignId handle store) (fun _ t => Relabels store t ∧ Labelled [handle] store t)
      fun _ t => t = store ∧ store.node? handle = none := by
  cases hnode : store.node? handle with
  | none =>
      rw [assignId, Store.node, hnode]
      exact ⟨rfl, rfl⟩
  | some node =>
      cases hreference : node.isByReference with
      | true =>
          cases hid : store.id? handle with
          | some id =>
              rw [assignId_of_id?_eq_some hnode hreference hid]
              exact ⟨.refl h, .refl (List.forall_mem_singleton.2 fun _ _ _ => ⟨id, hid⟩)⟩
          | none =>
              rw [assignId_of_id?_eq_none hnode hreference hid]
              exact ⟨relabels_setId h hnode hreference hid _,
                labelled_setId hnode hreference hid⟩
      | false =>
          rw [assignId, node_eq_ok_iff.2 hnode]
          dsimp only
          rw [if_neg (Bool.eq_false_iff.1 hreference)]
          refine ⟨.refl h, .refl (List.forall_mem_singleton.2 fun other hother hother' => ?_)⟩
          cases hnode.symm.trans hother
          rw [hreference] at hother'
          cases hother'

theorem assignIds_ends (h : store.Sound) (handles : List Handle) :
    Ends (assignIds handles store) (fun _ t => Relabels store t ∧ Labelled handles store t)
      fun _ t => Relabels store t ∧ ∃ handle ∈ handles, store.node? handle = none := by
  induction handles generalizing store with
  | nil => exact ⟨.refl h, .refl nofun⟩
  | cons handle handles ih =>
      refine ends_bind.2 (Ends.imp (assignId_ends h handle) ?_ ?_)
      · rintro _ t ⟨hfirst, hlabelled⟩
        apply Ends.imp (ih hfirst.progress.sound)
        · rintro _ u ⟨hrest, hothers⟩
          exact ⟨hfirst.trans hrest, hlabelled.trans hothers⟩
        · rintro _ u ⟨hrest, other, hother, hnone⟩
          exact ⟨hfirst.trans hrest, other, List.mem_cons_of_mem _ hother,
            (hfirst.node?_eq other).symm.trans hnone⟩
      · rintro _ t ⟨rfl, hnone⟩
        exact ⟨.refl h, handle, List.mem_cons_self, hnone⟩

theorem labelled_of_assignIds (h : store.Sound) {handles : List Handle} {after : Store}
    (hrun : assignIds handles store = .ok () after) : Labelled handles store after := by
  have hends := assignIds_ends h handles
  rw [hrun] at hends
  exact hends.2

/-- Nodes that have ids are not given others. -/
theorem assignIds_of_ids {handles : List Handle} (h : ∀ handle ∈ handles, ∃ node id,
    store.node? handle = some node ∧ node.isByReference = true ∧ store.id? handle = some id) :
    assignIds handles store = .ok () store := by
  induction handles with
  | nil => rfl
  | cons handle handles ih =>
      obtain ⟨⟨node, id, hnode, hreference, hid⟩, h⟩ := List.forall_mem_cons.1 h
      exact (run_bind_of_ok (assignId_of_id?_eq_some hnode hreference hid)).trans (ih h)

/-- Exporting succeeds where the graph under the root is found, its nodes are given ids, and the
document can be written with these. -/
theorem exportGraph_eq_ok_iff {root : Handle} {includeRoot : Bool} {document : Element}
    {after : Store} :
    exportGraph root includeRoot store = .ok document after ↔ ∃ graph,
      Graph.ofRoot store root = .ok graph ∧
      assignIds graph.emissionOrder store = .ok () after ∧
      after.document (if includeRoot then some root else none) graph.emissionOrder =
        .ok document := by
  unfold exportGraph
  rw [run_get_bind]
  constructor
  · intro hexport
    cases hgraph : Graph.ofRoot store root with
    | error error => rw [hgraph] at hexport; cases hexport
    | ok graph =>
        rw [hgraph] at hexport
        cases hrun : assignIds graph.emissionOrder store with
        | error error t => cases (run_bind_of_error hrun).symm.trans hexport
        | ok result t =>
            have hrest := (run_bind_of_ok hrun).symm.trans hexport
            rw [run_get_bind] at hrest
            cases hdocument : t.document (if includeRoot then some root else none)
                graph.emissionOrder with
            | error error => rw [hdocument] at hrest; cases hrest
            | ok written =>
                rw [hdocument] at hrest
                cases hrest
                exact ⟨graph, rfl, hrun, hdocument⟩
  · rintro ⟨graph, hgraph, hrun, hdocument⟩
    rw [hgraph]
    refine (run_bind_of_ok hrun).trans ?_
    rw [run_get_bind]
    simp only [hdocument]
    rfl

/-- Exporting gives ids and does nothing else to the store, whether it succeeds or not. -/
theorem exportGraph_ends (h : store.Sound) (root : Handle) (includeRoot : Bool) :
    Ends (exportGraph root includeRoot store) (fun _ t => Relabels store t)
      fun _ t => Relabels store t := by
  unfold exportGraph
  rw [run_get_bind]
  cases Graph.ofRoot store root with
  | error error => exact .refl h
  | ok graph =>
      refine ends_bind.2 (Ends.imp (assignIds_ends h graph.emissionOrder) ?_ fun _ _ h => h.1)
      rintro _ t ⟨hrelabels, -⟩
      rw [run_get_bind]
      cases t.document (if includeRoot then some root else none) graph.emissionOrder with
      | error error => exact hrelabels
      | ok document => exact hrelabels

/-- A node made by hand is stored if everything below it is there. -/
theorem internChecked_ends (h : store.Sound) {node : Node Name Handle}
    (harranged : node.Arranged) :
    Ends (internChecked node store) (fun _ t => Progress store t) fun _ t => t = store := by
  unfold internChecked
  cases hfind : node.children.find? fun child => store.size ≤ child with
  | some child => rfl
  | none =>
      have hchildren : ∀ child ∈ node.children, child < store.size := fun child hchild => by
        have hnot := List.find?_eq_none.1 hfind child hchild
        simpa using hnot
      refine ⟨h.intern hchildren harranged, extends_intern h.toRegular node, fun hget => ?_⟩
      exact (congrArg (Table.get? · _) (built_intern store node)).symm.trans hget

end WireSchema.Store
