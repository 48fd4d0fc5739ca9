/-
# Importing copies and labels

What importing adds to a store are copies, and ids of nodes that are referred to by id.  So it
keeps whatever the steps of copying and the giving of ids keep.
-/

import WireSchema.Proofs.Document.Import
import WireSchema.Proofs.Document.Layering
import WireSchema.Proofs.Store.Ids

namespace WireSchema.Store

variable {store : Store} {named : List (String × Handle)} {Keeps : Store → Prop}

/-- Taking over ids labels the nodes that have none. -/
theorem labels_adoptIds (hnamed : ∀ entry ∈ named, ∃ node, store.node? entry.2 = some node ∧
    node.isByReference = true) : store.Labels (store.adoptIds named) := by
  induction named generalizing store with
  | nil => exact .refl store
  | cons entry named ih =>
      obtain ⟨⟨node, hnode, hreference⟩, hnamed⟩ := List.forall_mem_cons.1 hnamed
      rw [adoptIds]
      split
      next hfree =>
        have hlabels := labels_setId hnode hreference (Option.isNone_iff_eq_none.1 hfree.1) entry.1
        refine hlabels.trans (ih fun other hother => ?_)
        obtain ⟨found, hfound, hreference⟩ := hnamed other hother
        exact ⟨found, (hlabels.node?_eq _).trans hfound, hreference⟩
      next => exact ih hnamed

/-- Importing keeps what copying keeps, if giving ids keeps it too. -/
theorem keeps_importDocument (hcopying : Maintains Keeps)
    (hlabels : ∀ {before after : Store}, Keeps before → before.Labels after → Keeps after)
    (hstore : store.Sound) (h : Keeps store) (direction : Direction) (document : Element) :
    Ends (importDocument direction document store) (fun _ after => Keeps after)
      fun _ after => Keeps after := by
  rcases importDocument_cases hstore direction document with
    ⟨source, state, named, root, -, hdone, himport⟩ | ⟨⟨error, himport⟩, -⟩
  · obtain ⟨copies, copy, copying, hadopt, hvalid, hkept, hcopies, -⟩ := exists_adopt hdone.sound
      hstore (Copying.maintains_of_store hcopying) h
      (fun entry hentry => ⟨trivial, hdone.lt_size hentry⟩) trivial hdone.root_lt_size
    rw [himport, hadopt]
    refine hlabels hkept (labels_adoptIds fun entry hentry => ?_)
    obtain ⟨original, horiginal, -, hget⟩ := Node.exists_left_of_forall₂ hcopies hentry
    -- What has an id in a document is an element, and elements are referred to by id.
    have hagree := (hdone.exists_id horiginal).2.trans
      ((hvalid.copied hget).agree hvalid.scaffold)
    obtain ⟨layer, node, hlayer, hnode, hsimilar⟩ := hagree.unfold
    obtain ⟨element, -, helement⟩ := DocumentSource.exists_element_of_layering hlayer
    exact ⟨node, hnode, hsimilar.isByReference_eq.symm.trans
      (DocumentSource.isByReference_of_elementLayer helement)⟩
  · rw [himport]
    exact h

end WireSchema.Store
