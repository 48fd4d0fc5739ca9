/-
# Exported graphs are imported again

What a document presents is the graph under the root, when that graph is of one side and
its ids can be told apart in markup.  The document gives back every layer of the graph, so
it can be read whole, and importing it makes an equal graph in any sound store.
-/

import WireSchema.Proofs.Document.Export
import WireSchema.Proofs.Document.Import

namespace WireSchema

/-- Digits do not end a word. -/
theorem Markup.wordChar_of_isDigit {c : Char} (h : c.isDigit = true) : WordChar c where
  not_opening := by rintro rfl; cases h
  not_closing := by rintro rfl; cases h
  not_blank := by
    have hbounds : 48 ≤ c.toNat ∧ c.toNat ≤ 57 := by
      simpa [Char.isDigit, UInt32.le_iff_toNat_le] using h
    simp only [Text.isWhitespace, Bool.or_eq_false_iff, Bool.and_eq_false_iff, beq_eq_false_iff_ne,
      decide_eq_false_iff_not]
    omega

/-- An id that is generated can be told from what stands around it in markup. -/
theorem referable_generatedId (kind : Kind) (number : Nat) :
    Referable (Store.generatedId kind number) where
  nonempty hempty := by
    have hname := (String.append_eq_empty_iff.1 hempty).1
    cases kind <;> (try rename_i direction; cases direction) <;> revert hname <;> decide
  word := by
    intro c hc
    rw [Store.generatedId, String.toList_append, List.mem_append] at hc
    rcases hc with hc | hc
    · have hname : Markup.isWord kind.name = true := by
        cases kind <;> (try rename_i direction; cases direction) <;> decide
      exact Markup.wordChar_of_isWord hname c hc
    · have hdigits : c ∈ Nat.toDigits 10 number := by
        rw [← Nat.toList_repr]
        exact hc
      exact Markup.wordChar_of_isDigit (Nat.isDigit_of_mem_toDigits (by decide) (by decide) hdigits)

namespace Store

/-- All nodes below the root are of one side, and none is nullable twice. -/
structure OneSided (store : Store) (direction : Direction) (root : Handle) : Prop where
  serves : ∀ {handle node}, store.Below root handle → store.node? handle = some node →
    node.kind.serves direction = true
  single : ∀ {handle inner outer below target}, store.Below root handle →
    store.node? handle = some (.nullable outer inner) →
      store.node? inner ≠ some (.nullable below target)

/-- All ids below the root can be told from what stands around them in markup. -/
def AllReferable (store : Store) (root : Handle) : Prop :=
  ∀ handle node id, store.Below root handle → store.node? handle = some node →
    node.isByReference = true → store.id? handle = some id → Referable id

variable {store target : Store} {root handle : Handle} {source : DocumentSource}
variable {direction : Direction} {markup : Markup String}

/-- What is written below the root can be read back. -/
theorem AllReferable.of_spelled (h : store.AllReferable root) (hbelow : store.Below root handle)
    (hmarkup : store.Spelled handle markup) : markup.AllReferable := by
  intro id hid
  obtain ⟨nearest, hnearest, hnearestId⟩ := hmarkup.mem_references hid
  obtain ⟨node, hnode, hreference⟩ := hnearest.exists_node
  exact h nearest node id (hbelow.trans hnearest.toBelow) hnode hreference hnearestId

/-- The markup is written for the node, which is below the root. -/
def SpelledBelow (store : Store) (root : Handle) (markup : Markup String) (handle : Handle) :
    Prop :=
  store.Spelled handle markup ∧ store.Below root handle

theorem below_of_mem_children (hbelow : store.Below root handle) {node : Node Name Handle}
    (hnode : store.node? handle = some node) : ∀ child ∈ node.children, store.Below root child :=
  fun _ hchild => hbelow.tail ⟨node, hnode, hchild⟩

/-- The entry of a node below the root is read as the layer of the node. -/
theorem IsEntry.exists_layer (h : store.Sound) (hsided : store.OneSided source.direction root)
    (hids : store.AllReferable root) (hbelow : store.Below root handle)
    {node : Node Name Handle} (hnode : store.node? handle = some node) {id : String}
    {element : Element} (hentry : store.IsEntry handle (id, element))
    (helement : source.element? id = some element) :
    ∃ layer, source.layering (.ref id) = some layer ∧
      layer.Lift (store.SpelledBelow root) node := by
  obtain ⟨-, node', layer, hnode', hreference, hspelled, hencode⟩ := hentry
  cases hnode.symm.trans hnode'
  have hlift := hspelled.and_right (below_of_mem_children hbelow hnode)
  have hsimilar := Node.Similar.of_lift hlift
  have harranged : layer.Arranged := hsimilar.arranged_iff.2 (h.arranged hnode)
  have hlayerReference : layer.isByReference = true := hlift.isByReference_eq.trans hreference
  have hserves : layer.kind.serves source.direction = true := by
    rw [hlift.kind_eq]
    exact hsided.serves hbelow hnode
  have hlayerIds : ∀ child ∈ layer.children, child.AllReferable := by
    intro child hmem
    obtain ⟨target, htarget, hspelled, hbelow⟩ := hsimilar.exists_right hmem
    exact hids.of_spelled hbelow hspelled
  have hlayer := DocumentSource.elementLayer_encode harranged hlayerReference hserves hlayerIds id
  have hencoded : source.element? id = some (layer.encode id) :=
    helement.trans (congrArg some hencode)
  exact ⟨layer, DocumentSource.layering_ref_eq_some hencoded hlayer, hlift⟩

/-- What is written for a node stands in the document for the node. -/
theorem Presents.match_of_spelled (h : store.Sound) (hpresents : store.Presents root source)
    (hsided : store.OneSided source.direction root) (hids : store.AllReferable root)
    (hspelled : store.SpelledBelow root markup handle) :
    source.layering.Match store.node? (store.SpelledBelow root) markup handle := by
  obtain ⟨hmarkup, hbelow⟩ := hspelled
  cases hmarkup with
  | @ref _ node id hnode hreference hid =>
      obtain ⟨id', element, hentry, helement⟩ :=
        hpresents.entry handle node hbelow hnode hreference
      cases hid.symm.trans hentry.1
      obtain ⟨layer, hlayer, hlift⟩ := hentry.exists_layer h hsided hids hbelow hnode helement
      exact ⟨layer, node, hlayer, hnode, .of_lift hlift⟩
  | primitive hnode => exact ⟨_, _, rfl, hnode, rfl, .nil⟩
  | empty hnode => exact ⟨_, _, rfl, hnode, rfl, .nil⟩
  | @nullable _ inner side _ hnode hinner =>
      obtain rfl : side = source.direction := of_decide_eq_true (hsided.serves hbelow hnode)
      have hchild := below_of_mem_children hbelow hnode
      exact ⟨_, _, rfl, hnode, rfl, .cons ⟨hinner, hchild inner List.mem_cons_self⟩ .nil⟩
  | @list _ item side _ hnode hitem =>
      obtain rfl : side = source.direction := of_decide_eq_true (hsided.serves hbelow hnode)
      have hchild := below_of_mem_children hbelow hnode
      exact ⟨_, _, rfl, hnode, rfl, .cons ⟨hitem, hchild item List.mem_cons_self⟩ .nil⟩
  | @dictionary _ key value side _ _ hnode hkey hvalue =>
      obtain rfl : side = source.direction := of_decide_eq_true (hsided.serves hbelow hnode)
      have hchild := below_of_mem_children hbelow hnode
      have hbelowValue := hchild value (List.mem_cons_of_mem _ List.mem_cons_self)
      exact ⟨_, _, rfl, hnode, rfl,
        .cons ⟨hkey, hchild key List.mem_cons_self⟩ (.cons ⟨hvalue, hbelowValue⟩ .nil)⟩

/-- The document stands for the graph of the store. -/
theorem Presents.agree (h : store.Sound) (hpresents : store.Presents root source)
    (hsided : store.OneSided source.direction root) (hids : store.AllReferable root)
    (hspelled : store.SpelledBelow root markup handle) :
    source.layering.Agree store.node? markup handle :=
  Layering.Agree.of_closed
    (fun _ _ hspelled => hpresents.match_of_spelled h hsided hids hspelled) hspelled

/-- What is written for the nodes below the root can be read from the document. -/
theorem Presents.closed (h : store.Sound) (hpresents : store.Presents root source)
    (hsided : store.OneSided source.direction root) (hids : store.AllReferable root) :
    source.Closed fun markup => ∃ handle, store.SpelledBelow root markup handle where
  layer := by
    rintro markup ⟨handle, hspelled⟩
    obtain ⟨layer, node, hlayer, -, hsimilar⟩ :=
      hpresents.match_of_spelled h hsided hids hspelled
    refine ⟨layer, hlayer, fun child hchild => ?_⟩
    obtain ⟨below, -, hbelow⟩ := hsimilar.exists_right hchild
    exact ⟨below, hbelow⟩
  single := by
    rintro inner layer ⟨handle, hmarkup, hbelow⟩ hlayer side child rfl
    cases hmarkup with
    | @nullable _ target _ _ hnode htarget =>
        have hspelled : store.SpelledBelow root inner target :=
          ⟨htarget, hbelow.tail ⟨_, hnode, List.mem_cons_self⟩⟩
        obtain ⟨layer', node, hlayer', htargetNode, hsimilar⟩ :=
          hpresents.match_of_spelled h hsided hids hspelled
        cases hlayer.symm.trans hlayer'
        have hkind := hsimilar.kind_eq
        cases node with
        | nullable => exact hsided.single hbelow hnode htargetNode
        | _ => cases hkind

theorem Presents.allReadable (h : store.Sound) (hpresents : store.Presents root source)
    (hsided : store.OneSided source.direction root) (hids : store.AllReferable root) :
    source.AllReadable := by
  have hclosed := hpresents.closed h hsided hids
  refine ⟨fun id hid => ?_, ?_⟩
  · obtain ⟨handle, element, hbelow, hentry⟩ := hpresents.owner id hid
    obtain ⟨hid, node, layer, hnode, hreference, -⟩ := hentry
    exact ⟨_, hclosed, handle, .ref hnode hreference hid, hbelow⟩
  · obtain ⟨markup, hmarkup, hroot⟩ := hpresents.root
    refine ⟨markup, ?_, _, hclosed, root, hmarkup, .refl⟩
    rw [hroot]
    exact Markup.read_display (hids.of_spelled .refl hmarkup)

/-- The root of what has been read describes the graph. -/
theorem Presents.bisimilar_of_done (h : store.Sound) (hpresents : store.Presents root source)
    (hsided : store.OneSided source.direction root) (hids : store.AllReferable root)
    {state : Importing} {named : List (String × Handle)} {top : Handle}
    (hdone : Importing.Done source state named top) : store.Bisimilar root state.store top := by
  obtain ⟨markup, hmarkup, htop⟩ := hdone.root
  obtain ⟨spelled, hspelled, hroot⟩ := hpresents.root
  rw [hroot, Markup.read_display (hids.of_spelled .refl hspelled)] at hmarkup
  cases hmarkup
  exact (hpresents.agree h hsided hids ⟨hspelled, .refl⟩).symm.trans htop

/-- Giving generated ids keeps a graph of one side of one side. -/
theorem OneSided.relabel {after : Store} (h : store.OneSided direction root)
    (hrelabels : Relabels store after) : after.OneSided direction root where
  serves hbelow hnode := by
    rw [below_iff_of_node?_eq hrelabels.node?_eq] at hbelow
    rw [hrelabels.node?_eq] at hnode
    exact h.serves hbelow hnode
  single hbelow hnode := by
    rw [below_iff_of_node?_eq hrelabels.node?_eq] at hbelow
    rw [hrelabels.node?_eq] at hnode ⊢
    exact h.single hbelow hnode

theorem AllReferable.relabel {after : Store} (h : store.AllReferable root)
    (hrelabels : Relabels store after) : after.AllReferable root := by
  intro handle node id hbelow hnode hreference hid
  rw [below_iff_of_node?_eq hrelabels.node?_eq] at hbelow
  rw [hrelabels.node?_eq] at hnode
  rcases hrelabels.generated hid with hid | ⟨kind, number, rfl⟩
  · exact h handle node id hbelow hnode hreference hid
  · exact referable_generatedId kind number

/-- Importing a document that presents a graph of one side gives an equal graph. -/
theorem Presents.exists_importDocument (h : store.Sound) (hpresents : store.Presents root source)
    (hsided : store.OneSided source.direction root) (hids : store.AllReferable root)
    {document : Element}
    (hsource : DocumentSource.ofDocument source.direction document = .ok source)
    (htarget : target.Sound) : ∃ copy result,
      importDocument source.direction document target = .ok copy result ∧
        store.Bisimilar root result copy := by
  have himport := importDocument_ends htarget maintains_true trivial source.direction document
  cases hrun : importDocument source.direction document target with
  | error error state =>
      rw [hrun] at himport
      exact absurd (hpresents.allReadable h hsided hids) (himport.2 source hsource)
  | ok copy result =>
      rw [hrun] at himport
      obtain ⟨-, source', hsource', hholds⟩ := himport
      cases hsource.symm.trans hsource'
      obtain ⟨markup, hmarkup, hagree⟩ := hholds.root
      obtain ⟨spelled, hspelled, hroot⟩ := hpresents.root
      rw [hroot, Markup.read_display (hids.of_spelled .refl hspelled)] at hmarkup
      cases hmarkup
      have hstands := hpresents.agree h hsided hids ⟨hspelled, .refl⟩
      exact ⟨copy, result, rfl, hstands.symm.trans hagree⟩

/-- A graph of one side whose ids can be written is exported, and the document is imported
into any sound store as an equal graph. -/
theorem exists_roundTrip (h : store.Sound) (hroot : root < store.size)
    (hsided : store.OneSided direction root) (hids : store.AllReferable root) :
    ∃ document after, exportGraph root true store = .ok document after ∧
      ∀ target : Store, target.Sound → ∃ copy result,
        importDocument direction document target = .ok copy result ∧
          store.Bisimilar root result copy := by
  obtain ⟨document, after, hexport, hrelabels, hread⟩ := exists_exportGraph h hroot
  obtain ⟨source, hsource, rfl, hpresents⟩ := hread direction
  refine ⟨document, after, hexport, fun target htarget => ?_⟩
  obtain ⟨copy, result, himport, hsame⟩ := hpresents.exists_importDocument
    hrelabels.progress.sound (hsided.relabel hrelabels) (hids.relabel hrelabels) hsource htarget
  have hnodes : after.node? = store.node? := funext hrelabels.node?_eq
  rw [Bisimilar, hnodes] at hsame
  exact ⟨copy, result, himport, hsame⟩

end Store

end WireSchema
