/-
# A graph that is built again from its document

An exported document is imported into a store without nodes.  Where the nodes that are referred to
by id describe different graphs, each of them is there once afterwards, with its names as they are
spelled and with the id that it has in the document.

What an element is read to is copied once, so the copies are told apart by the ids of the document;
and every new node is a copy of what has been read, so it has the names of an element.
-/

import WireSchema.Proofs.Document.RoundTrip
import WireSchema.Proofs.Document.WellFormed
import WireSchema.Proofs.Store.Growth
import WireSchema.Proofs.Store.Isomorphism

namespace WireSchema.Store

variable {store source target base : Store} {root a b : Handle}

/-! ## Names are copied as they are spelled -/

namespace Copying

variable {s t : Copying} {handle copy : Handle}

/-- What has been added and is referred to by id is the copy of a node with the same names. -/
def Verbatim (source base : Store) (state : Copying) : Prop :=
  ∀ copy node, base.size ≤ copy → state.target.node? copy = some node →
    node.isByReference = true → ∃ original node', state.copied.get? original = some copy ∧
      source.node? original = some node' ∧ node'.shape = node.shape

/-- At most the copy that is remembered is new, and it has the names of its original. -/
theorem Verbatim.insert (h : Verbatim source base s) (hpending : s.copied.get? handle = none)
    (hcopied : t.copied = s.copied.insert handle copy)
    (hadded : ∀ other node, t.target.node? other = some node →
      s.target.node? other = some node ∨ other = copy ∧
        ∃ node', source.node? handle = some node' ∧ node'.shape = node.shape) :
    Verbatim source base t := by
  intro other node hle hnode hreference
  rw [hcopied]
  rcases hadded other node hnode with hold | ⟨rfl, node', hnode', hshape⟩
  · obtain ⟨original, node', hget, hnode', hshape⟩ := h other node hle hold hreference
    refine ⟨original, node', (Table.get?_insert_of_ne _ _ ?_).trans hget, hnode', hshape⟩
    rintro rfl
    rw [hpending] at hget
    cases hget
  · exact ⟨handle, node', Table.get?_insert_self _ _ _, hnode', hshape⟩

theorem maintains_verbatim (source base : Store) :
    Maintains source base (fun _ => True) (Verbatim source base) where
  child _ _ := trivial
  reserve _ _ h copy node hle hnode := h copy node hle ((node?_reserve _ _).symm.trans hnode)
  settle _ _ _ hpending h := h.insert hpending rfl fun _ _ hnode => .inl hnode
  intern hclosing hregular h := by
    refine h.insert hclosing.pending rfl fun other node hnode => ?_
    refine (old_or_new_of_node?_intern hregular hnode).imp_right ?_
    rintro ⟨rfl, rfl⟩
    obtain ⟨original, horiginal, hlift⟩ := hclosing.layer
    exact ⟨rfl, original, horiginal, hlift.shape_eq⟩
  fill hclosing _ _ h _ hlt _ _ := by
    refine h.insert hclosing.pending rfl fun other node hnode => ?_
    rcases eq_or_of_node?_fill hlt hnode with ⟨rfl, rfl⟩ | hold
    · obtain ⟨original, horiginal, hlift⟩ := hclosing.layer
      exact .inr ⟨rfl, original, horiginal, hlift.shape_eq⟩
    · exact .inl hold

theorem verbatim_start (source target : Store) : Verbatim source target (start target) :=
  fun _ _ hle hnode _ => absurd (lt_size_of_node? hnode) (Nat.not_lt_of_le hle)

end Copying

/-! ## Ids are taken over -/

section Adopting

variable {named : List (String × Handle)} {handle : Handle} {id : String}

/-- Taking over ids leaves the ids that there are. -/
theorem id?_adoptIds_of_eq_some (h : store.id? handle = some id)
    (hlt : ∀ entry ∈ named, entry.2 < store.size) :
    (store.adoptIds named).id? handle = some id := by
  induction named generalizing store with
  | nil => exact h
  | cons entry named ih =>
      obtain ⟨hentry, hlt⟩ := List.forall_mem_cons.1 hlt
      rw [adoptIds]
      split
      next hfree =>
        refine ih ?_ fun other hother => (size_setId _ _ _).symm ▸ hlt other hother
        rw [id?_setId hentry, if_neg, h]
        rintro rfl
        rw [h] at hfree
        cases hfree.1
      next => exact ih h hlt

/-- Different ids of different nodes are all taken over by a store that has no ids. -/
theorem id?_adoptIds (hfree : ∀ entry ∈ named, store.id? entry.2 = none ∧
      store.lookupId? entry.1 = none)
    (hlt : ∀ entry ∈ named, entry.2 < store.size)
    (hdistinct : named.Pairwise fun entry other => entry.1 ≠ other.1 ∧ entry.2 ≠ other.2) :
    ∀ entry ∈ named, (store.adoptIds named).id? entry.2 = some entry.1 := by
  induction named generalizing store with
  | nil => exact nofun
  | cons entry named ih =>
      obtain ⟨⟨hid, hlookup⟩, hfree⟩ := List.forall_mem_cons.1 hfree
      obtain ⟨hentry, hlt⟩ := List.forall_mem_cons.1 hlt
      obtain ⟨hfirst, hdistinct⟩ := List.pairwise_cons.1 hdistinct
      have hlt' : ∀ other ∈ named, other.2 < (store.setId entry.2 entry.1).size :=
        fun other hother => (size_setId _ _ _).symm ▸ hlt other hother
      have hfree' : ∀ other ∈ named, (store.setId entry.2 entry.1).id? other.2 = none ∧
          (store.setId entry.2 entry.1).lookupId? other.1 = none := by
        intro other hother
        obtain ⟨hkey, hhandle⟩ := hfirst other hother
        obtain ⟨hnone, hnone'⟩ := hfree other hother
        rw [id?_setId hentry, if_neg hhandle.symm]
        exact ⟨hnone, (Table.get?_insert_of_ne _ _ hkey.symm).trans hnone'⟩
      rw [adoptIds, if_pos (by rw [hid, hlookup]; exact ⟨rfl, rfl⟩)]
      refine List.forall_mem_cons.2 ⟨id?_adoptIds_of_eq_some ?_ hlt', ih hfree' hlt' hdistinct⟩
      rw [id?_setId hentry, if_pos rfl]

end Adopting

/-! ## What has been imported -/

/-- Nodes at or below the root that are referred to by id describe different graphs. -/
def Distinct (store : Store) (root : Handle) : Prop :=
  ∀ a ∈ store.ReferredBelow root, ∀ b ∈ store.ReferredBelow root, store.Bisimilar a store b → a = b

theorem referredBelow_congr (h : target.node? = store.node?) :
    target.ReferredBelow root = store.ReferredBelow root := by
  unfold ReferredBelow Below IsChild Referred
  rw [h]

theorem Distinct.congr (h : store.Distinct root) (hnodes : target.node? = store.node?) :
    target.Distinct root := by
  unfold Distinct Bisimilar
  rw [referredBelow_congr hnodes, hnodes]
  exact h

/-- The graph under the root is in the target node by node, with names as they are spelled and
with its ids. -/
structure Rebuilt (source : Store) (root : Handle) (target : Store) : Prop where
  corresponds : source.Corresponds target (source.BisimilarBelow root target)
  shape_eq : ∀ {a b x y}, source.BisimilarBelow root target a b → source.node? a = some x →
    x.isByReference = true → target.node? b = some y → x.shape = y.shape
  id?_of : ∀ {a b id}, source.BisimilarBelow root target a b → source.Referred a →
    source.id? a = some id → target.id? b = some id

/-- The graph under the root, of which no two nodes that are referred to by id describe the same,
has been read from a document that presents it and copied into a store without nodes. -/
structure Transferred (store : Store) (root : Handle) (document : DocumentSource)
    (state : Importing) (copying : Copying) : Prop where
  sound : store.Sound
  presents : store.Presents root document
  oneSided : store.OneSided document.direction root
  allReferable : store.AllReferable root
  distinct : store.Distinct root
  reading : Importing.Reading document [] state
  valid : Copying.Valid state.store .empty [] copying
  verbatim : Copying.Verbatim state.store .empty copying

namespace Transferred

variable {document : DocumentSource} {state : Importing} {copying : Copying}
variable {original : Handle} {id : String} {x y : Node Name Handle}
variable (h : store.Transferred root document state copying)

include h

/-- A copy describes what it was copied from. -/
theorem bisimilar_of_copied (hcopied : copying.copied.get? original = some b) :
    state.store.Bisimilar original copying.target b :=
  (h.valid.copied hcopied).agree h.valid.scaffold

/-- What has been read from the element of a node, and copied, describes the node. -/
theorem bisimilar_of_id? (ha : a ∈ store.ReferredBelow root) (hid : store.id? a = some id)
    (hread : document.layering.Agree state.store.node? (.ref id) original)
    (hcopied : copying.copied.get? original = some b) : store.Bisimilar a copying.target b := by
  obtain ⟨hbelow, node, hnode, hreference⟩ := ha
  have hspelled : store.SpelledBelow root (.ref id) a := ⟨.ref hnode hreference hid, hbelow⟩
  have hagree := h.presents.agree h.sound h.oneSided h.allReferable hspelled
  exact (hagree.symm.trans hread).trans (h.bisimilar_of_copied hcopied)

/-- Every element is that of a node below the root. -/
theorem exists_owner (hid : id ∈ document.ids) :
    ∃ a ∈ store.ReferredBelow root, store.id? a = some id := by
  obtain ⟨owner, element, hbelow, howner, node, layer, hnode, hreference, -⟩ :=
    h.presents.owner id hid
  exact ⟨owner, ⟨hbelow, node, hnode, hreference⟩, howner⟩

/-- A node that is described by what has been read from an element, and copied, has the id of the
element. -/
theorem id?_of_copied (hid : id ∈ document.ids)
    (hread : document.layering.Agree state.store.node? (.ref id) original)
    (hcopied : copying.copied.get? original = some b) (ha : a ∈ store.ReferredBelow root)
    (hsame : store.Bisimilar a copying.target b) : store.id? a = some id := by
  obtain ⟨owner, howner, hownerId⟩ := h.exists_owner hid
  have hown := h.bisimilar_of_id? howner hownerId hread hcopied
  obtain rfl : owner = a := h.distinct owner howner a ha (hown.trans hsame.symm)
  exact hownerId

/-- What describes a node of the graph has been copied from what was read from the element with
the id of the node, so it has its names. -/
theorem exists_origin (ha : a ∈ store.ReferredBelow root)
    (hsame : store.Bisimilar a copying.target b) (hx : store.node? a = some x)
    (hy : copying.target.node? b = some y) :
    x.shape = y.shape ∧ ∃ id original, store.id? a = some id ∧
      state.resolved.get? id = some original ∧ copying.copied.get? original = some b := by
  have ⟨hbelow, hreferred⟩ := ha
  have ⟨node, hnode, hreference⟩ := hreferred
  cases hx.symm.trans hnode
  obtain ⟨node, hnode, hreference'⟩ := hreferred.of_bisimilar hsame
  cases hy.symm.trans hnode
  obtain ⟨original, middle, hcopied, hmiddle, hshape⟩ :=
    h.verbatim b y (Nat.zero_le _) hy hreference'
  have hmiddleReference : middle.isByReference = true := by
    rw [Node.isByReference, ← Node.kind_shape, hshape, Node.kind_shape]
    exact hreference'
  obtain ⟨id, layer, hresolved, hlayer, hlift⟩ := h.reading.traced hmiddle hmiddleReference
  obtain ⟨element, helement, -⟩ := DocumentSource.exists_element_of_layering hlayer
  have hid : store.id? a = some id := h.id?_of_copied (DocumentSource.mem_ids_of_element? helement)
    ((h.reading.resolved hresolved).agree h.reading.scaffold) hcopied ha hsame
  obtain ⟨id', element, hentry, helement⟩ := h.presents.entry a x hbelow hx hreference
  obtain rfl : id = id' := Option.some.inj (hid.symm.trans hentry.1)
  obtain ⟨layer', hlayer', hspelled⟩ :=
    hentry.exists_layer h.sound h.oneSided h.allReferable hbelow hx helement
  cases hlayer.symm.trans hlayer'
  exact ⟨hspelled.shape_eq.symm.trans (hlift.shape_eq.trans hshape), id, original, hid, hresolved,
    hcopied⟩

/-- A node of the graph that is referred to by id is described once in the end. -/
theorem eq_of_bisimilar {b' : Handle} (ha : a ∈ store.ReferredBelow root)
    (hsame : store.Bisimilar a copying.target b) (hsame' : store.Bisimilar a copying.target b') :
    b = b' := by
  obtain ⟨x, y, hx, hy, -⟩ := hsame.unfold
  obtain ⟨-, y', -, hy', -⟩ := hsame'.unfold
  obtain ⟨-, id, original, hid, hresolved, hcopied⟩ := h.exists_origin ha hsame hx hy
  obtain ⟨-, id', original', hid', hresolved', hcopied'⟩ := h.exists_origin ha hsame' hx hy'
  cases hid.symm.trans hid'
  cases hresolved.symm.trans hresolved'
  exact Option.some.inj (hcopied.symm.trans hcopied')

/-- The nodes of the graph correspond to those that describe them in the end. -/
theorem corresponds :
    store.Corresponds copying.target (store.BisimilarBelow root copying.target) where
  closed := BisimilarBelow.unfold
  unique := by
    rintro a b a' b' ⟨hsame, hbelow⟩ ⟨hsame', hbelow'⟩ hreferred hreferred'
    constructor
    · rintro rfl
      exact h.eq_of_bisimilar ⟨hbelow, hreferred⟩ hsame hsame'
    · rintro rfl
      exact h.distinct a ⟨hbelow, hreferred⟩ a' ⟨hbelow', hreferred'⟩ (hsame.trans hsame'.symm)

section Copies

variable {copies : List (String × Handle)} {copy : String × Handle}
variable (hcopies : List.Forall₂ (fun id copy => copy.1 = id ∧ ∃ original,
  document.layering.Agree state.store.node? (.ref id) original ∧
    copying.copied.get? original = some copy.2) document.ids copies)

include hcopies

/-- Every copy is under an id of the document and describes the node with that id alone. -/
theorem exists_owner_of_copy (hcopy : copy ∈ copies) :
    ∃ owner ∈ store.ReferredBelow root, store.id? owner = some copy.1 ∧
      store.Bisimilar owner copying.target copy.2 ∧ ∀ a ∈ store.ReferredBelow root,
        store.Bisimilar a copying.target copy.2 → store.id? a = some copy.1 := by
  obtain ⟨id, hid, rfl, original, hread, hcopied⟩ := Node.exists_left_of_forall₂ hcopies hcopy
  obtain ⟨owner, howner, hownerId⟩ := h.exists_owner hid
  exact ⟨owner, howner, hownerId, h.bisimilar_of_id? howner hownerId hread hcopied,
    fun a ha => h.id?_of_copied hid hread hcopied ha⟩

theorem exists_node_of_copy (hcopy : copy ∈ copies) :
    ∃ node, copying.target.node? copy.2 = some node := by
  obtain ⟨owner, -, -, hsame, -⟩ := h.exists_owner_of_copy hcopies hcopy
  obtain ⟨x, node, -, hnode, -⟩ := hsame.unfold
  exact ⟨node, hnode⟩

/-- Copies under different ids are different nodes. -/
theorem pairwise_copies (hnodup : document.ids.Nodup) :
    copies.Pairwise fun copy other => copy.1 ≠ other.1 ∧ copy.2 ≠ other.2 := by
  have hids : copies.map Prod.fst = document.ids := by
    rw [← List.forall₂_eq_eq_eq, List.forall₂_map_left_iff]
    exact hcopies.flip.imp fun _ _ hcopy => hcopy.1
  rw [← hids, List.Nodup, List.pairwise_map] at hnodup
  refine hnodup.imp_of_mem fun {copy other} hcopy hother hne => ⟨hne, fun heq => hne ?_⟩
  obtain ⟨owner, howner, hid, hsame, -⟩ := h.exists_owner_of_copy hcopies hcopy
  obtain ⟨-, -, -, -, honly⟩ := h.exists_owner_of_copy hcopies hother
  exact Option.some.inj (hid.symm.trans (honly owner howner (heq ▸ hsame)))

/-- The copies take over the ids that they are under, so what describes a node of the graph gets
its id. -/
theorem id?_adoptIds (hnodup : document.ids.Nodup) (hgrows : Store.empty.Grows copying.target)
    (ha : a ∈ store.ReferredBelow root) (hid : store.id? a = some id)
    (hsame : store.Bisimilar a copying.target b) :
    (copying.target.adoptIds copies).id? b = some id := by
  have hnone : ∀ id, copying.target.lookupId? id = none := fun id => by
    rw [lookupId?, hgrows.ids]
    rfl
  have hfree : ∀ copy ∈ copies, copying.target.id? copy.2 = none ∧
      copying.target.lookupId? copy.1 = none := by
    refine fun copy _ => ⟨Option.eq_none_iff_forall_ne_some.2 fun id hid => ?_, hnone _⟩
    cases (hnone id).symm.trans (h.valid.scaffold.regular.id_iff.2 hid)
  have hlt : ∀ copy ∈ copies, copy.2 < copying.target.size := fun copy hcopy => by
    obtain ⟨node, hnode⟩ := h.exists_node_of_copy hcopies hcopy
    exact lt_size_of_node? hnode
  have ⟨hbelow, node, hnode, hreference⟩ := ha
  obtain ⟨id', element, hentry, helement⟩ := h.presents.entry a node hbelow hnode hreference
  obtain rfl : id = id' := Option.some.inj (hid.symm.trans hentry.1)
  obtain ⟨copy, hcopy, rfl, original, hread, hcopied⟩ := Node.exists_right_of_forall₂ hcopies
    (DocumentSource.mem_ids_of_element? helement)
  obtain rfl : b = copy.2 :=
    h.eq_of_bisimilar ha hsame (h.bisimilar_of_id? ha hid hread hcopied)
  exact Store.id?_adoptIds hfree hlt (h.pairwise_copies hcopies hnodup) copy hcopy

/-- With the ids taken over, the graph is there again. -/
theorem rebuilt (hnodup : document.ids.Nodup) (hgrows : Store.empty.Grows copying.target)
    (hnodes : (copying.target.adoptIds copies).node? = copying.target.node?) :
    store.Rebuilt root (copying.target.adoptIds copies) := by
  have hsame : store.BisimilarBelow root (copying.target.adoptIds copies) =
      store.BisimilarBelow root copying.target := bisimilarBelow_congr hnodes
  refine ⟨hsame ▸ h.corresponds.congr rfl hnodes, ?_, ?_⟩
  · rw [hsame, hnodes]
    rintro a b x y ⟨hab, hbelow⟩ hx hreference hy
    exact (h.exists_origin ⟨hbelow, x, hx, hreference⟩ hab hx hy).1
  · rw [hsame]
    rintro a b id ⟨hab, hbelow⟩ hreferred hid
    exact h.id?_adoptIds hcopies hnodup hgrows ⟨hbelow, hreferred⟩ hid hab

end Copies

end Transferred

/-- Importing a document that presents a graph of one side into a store without nodes rebuilds the
graph, if nodes that are referred to by id describe different graphs. -/
theorem Presents.exists_rebuilt {document : DocumentSource} (h : store.Sound)
    (hpresents : store.Presents root document) (hsided : store.OneSided document.direction root)
    (hids : store.AllReferable root) (hdistinct : store.Distinct root) {element : Element}
    (hdocument : DocumentSource.ofDocument document.direction element = .ok document) :
    ∃ copy imported, importDocument document.direction element .empty = .ok copy imported ∧
      imported.Sound ∧ store.Bisimilar root imported copy ∧ store.Rebuilt root imported := by
  rcases importDocument_cases Sound.empty document.direction element with
    ⟨source, state, named, top, hsource, hdone, himport⟩ | ⟨-, hfails⟩
  · cases hdocument.symm.trans hsource
    obtain ⟨copies, copy, copying, hadopt, hvalid, ⟨hgrows, hverbatim⟩, hcopies, hcopied⟩ :=
      exists_adopt hdone.sound Sound.empty
        ((Copying.maintains_of_store (maintains_grows .empty)).and
          (Copying.maintains_verbatim state.store .empty))
        ⟨.refl _, Copying.verbatim_start _ _⟩ (fun _ hentry => ⟨trivial, hdone.lt_size hentry⟩)
        trivial hdone.root_lt_size
    have htransferred : store.Transferred root document state copying :=
      ⟨h, hpresents, hsided, hids, hdistinct, hdone.reading, hvalid, hverbatim⟩
    have hids' : List.Forall₂ (fun id copy => copy.1 = id ∧ ∃ original,
        document.layering.Agree state.store.node? (.ref id) original ∧
          copying.copied.get? original = some copy.2) document.ids copies := by
      refine (Node.forall₂_comp hdone.named hcopies).imp ?_
      rintro id copy ⟨entry, ⟨hid, hread⟩, hid', hget⟩
      exact ⟨hid'.trans hid, entry.2, hread, hget⟩
    obtain ⟨hprogress, hsame⟩ := progress_adoptIds
      (hvalid.progress hdone.sound Sound.empty).sound
      fun _ hcopy => htransferred.exists_node_of_copy hids' hcopy
    have hnodes := funext hsame
    obtain ⟨-, -, -, -, hnodup, -⟩ := DocumentSource.ofDocument_eq_ok_iff.1 hdocument
    refine ⟨copy, _, himport.trans hadopt, hprogress.sound, ?_,
      htransferred.rebuilt hids' hnodup hgrows hnodes⟩
    rw [Bisimilar, hnodes]
    exact (hpresents.bisimilar_of_done h hsided hids hdone).trans
      (htransferred.bisimilar_of_copied hcopied)
  · exact absurd (hpresents.allReadable h hsided hids) (hfails document hdocument)

end WireSchema.Store
