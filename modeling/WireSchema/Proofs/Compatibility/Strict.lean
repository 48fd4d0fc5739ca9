/-
# Strict compatibility is sameness of graphs

In strict mode a reader accepts a writer exactly if the writer has the shape that the
reader would have if it wrote.  Following both around their cycles, a handle that is read
is compatible with one that is written exactly if the graph under the first, seen from the
other side, is the graph under the second.
-/

import WireSchema.Proofs.Compatibility.Bisimulation
import WireSchema.Proofs.Document.RoundTrip
import WireSchema.Proofs.Node.Sides

namespace WireSchema

namespace Compatibility

variable {R : Handle → Handle → Prop} {write : Handle} {reader writer : Node Name Handle}

/-- In strict mode the fields of a reader are those of the writer, in the same order. -/
theorem fieldsAccept_strict_iff {reads : List (Input Name Handle)}
    {writes : List (Member Name Handle)} (hreads : Name.Increasing (reads.map (·.name)))
    (hwrites : Name.Increasing (writes.map (·.name))) :
    FieldsAccept true R reads writes ↔
      List.Forall₂ (fun read write => write.name.same read.name = true ∧
        R read.target write.target) reads writes := by
  constructor
  · intro h
    have hpair : ∀ read ∈ reads, ∀ write ∈ writes, read.name.folded = write.name.folded →
        write.name.same read.name = true ∧ R read.target write.target :=
      fun read hread write hwrite heq =>
        ⟨Node.same_iff_folded_eq.2 heq, h.shared read hread write hwrite heq⟩
    refine hreads.forall₂ hwrites (fun read write h => Node.same_iff_folded_eq.1 h.1) ?_ ?_
    · intro read hread
      by_contra hnone
      have hunwritten := h.unwritten read hread fun write hwrite heq =>
        hnone ⟨write, hwrite, hpair read hread write hwrite heq⟩
      cases hunwritten.1
    · intro write hwrite
      obtain ⟨read, hread, heq⟩ := h.known rfl write hwrite
      exact ⟨read, hread, hpair read hread write hwrite heq⟩
  · intro h
    refine ⟨fun read hread write hwrite heq => ?_, fun read hread hnone => ?_,
      fun _ write hwrite => ?_⟩
    · obtain ⟨write', hwrite', hsame, hR⟩ := Node.exists_right_of_forall₂ h hread
      rwa [hwrites.eq_of_folded_eq hwrite hwrite'
        (heq.symm.trans (Node.same_iff_folded_eq.1 hsame))]
    · obtain ⟨write, hwrite, hsame, -⟩ := Node.exists_right_of_forall₂ h hread
      exact absurd (Node.same_iff_folded_eq.1 hsame) (hnone write hwrite)
    · obtain ⟨read, hread, hsame, -⟩ := Node.exists_left_of_forall₂ h hwrite
      exact ⟨read, hread, Node.same_iff_folded_eq.1 hsame⟩

/-- What a reader accepts in strict mode is similar to the reader seen from the other
side. -/
theorem Accepts.similar (h : Accepts true R write reader writer) (hreader : reader.Arranged)
    (hwriter : writer.Arranged) : reader.written.Similar R writer := by
  cases h with
  | primitive | empty => exact ⟨rfl, .nil⟩
  | sameMembers hsame =>
      refine Node.similar_enumeration_iff.2 ?_
      have hnames := (Name.Increasing.map_folded_eq_iff hreader hwriter).2 hsame
      rw [← List.forall₂_eq_eq_eq, List.forall₂_map_left_iff, List.forall₂_map_right_iff] at hnames
      exact hnames.imp fun _ _ heq => Node.same_iff_folded_eq.2 heq
  | nullable hinner => exact ⟨rfl, .cons hinner .nil⟩
  | list hitem => exact ⟨rfl, .cons hitem .nil⟩
  | dictionary hkey hvalue => exact ⟨rfl, .cons hkey (.cons hvalue .nil)⟩
  | record hfields =>
      refine Node.similar_recordWrite_iff.2 (List.forall₂_map_left_iff.2 ?_)
      exact (fieldsAccept_strict_iff hreader hwriter).1 hfields
  | @union members members' hread hwritten =>
      refine Node.similar_union_iff.2 ⟨rfl, Name.Increasing.forall₂ hreader hwriter
        (fun _ _ h => Node.same_iff_folded_eq.1 h.1)
        (fun member hmember => ?_) fun write hwrite => ?_⟩
      · obtain ⟨write, hwrite, heq⟩ := hwritten rfl member hmember
        obtain ⟨other, hother, heq', hR⟩ := hread write hwrite
        obtain rfl := Name.Increasing.eq_of_folded_eq hreader hmember hother (heq.trans heq'.symm)
        exact ⟨write, hwrite, Node.same_iff_folded_eq.2 heq, hR⟩
      · obtain ⟨read, hread, heq, hR⟩ := hread write hwrite
        exact ⟨read, hread, Node.same_iff_folded_eq.2 heq, hR⟩
  -- What is left is accepted in lenient mode alone.
  | wider hlenient | moreMembers hlenient | emptyOfRecord hlenient | present hlenient
  | recordOfEmpty hlenient => cases hlenient

/-- A reader accepts in strict mode what is similar to it seen from the other side. -/
theorem accepts_of_similar (h : reader.written.Similar R writer) (hreader : reader.Arranged)
    (hread : reader.kind.serves .read = true) (hwrite : writer.kind.serves .write = true) :
    Accepts true R write reader writer := by
  have hwriter : writer.Arranged := h.arranged_iff.1 (Node.arranged_written_iff.2 hreader)
  have hshape := h.shape_eq
  have hchildren := h.children
  cases reader with
  | primitive type =>
      cases writer <;> cases hshape
      exact .primitive type
  | empty =>
      cases writer <;> cases hshape
      exact .empty
  | enumeration members =>
      obtain ⟨members', rfl, hsame⟩ := Node.exists_of_similar_enumeration h
      exact .sameMembers fun name => (mem_folded_iff hsame).symm
  | nullable direction inner =>
      obtain rfl : direction = .read := of_decide_eq_true hread
      cases writer <;> cases hshape
      exact .nullable (List.forall₂_cons.1 hchildren).1
  | list direction item =>
      obtain rfl : direction = .read := of_decide_eq_true hread
      cases writer <;> cases hshape
      exact .list (List.forall₂_cons.1 hchildren).1
  | dictionary direction key value =>
      obtain rfl : direction = .read := of_decide_eq_true hread
      cases writer <;> cases hshape
      obtain ⟨hkey, hvalue⟩ := List.forall₂_cons.1 hchildren
      exact .dictionary hkey (List.forall₂_cons.1 hvalue).1
  | recordWrite fields => cases hread
  | recordRead reads =>
      obtain ⟨writes, rfl, hfields⟩ := Node.exists_of_similar_recordWrite h
      refine .record ((fieldsAccept_strict_iff hreader hwriter).2 ?_)
      exact List.forall₂_map_left_iff.1 hfields
  | union direction members =>
      obtain rfl : direction = .read := of_decide_eq_true hread
      obtain ⟨members', rfl, hsame⟩ := Node.exists_of_similar_union h
      refine .union (fun write hwrite => ?_) fun _ read hread => ?_
      · obtain ⟨read, hread, hname, hR⟩ := Node.exists_left_of_forall₂ hsame hwrite
        exact ⟨read, hread, Node.same_iff_folded_eq.1 hname, hR⟩
      · obtain ⟨write, hwrite, hname, -⟩ := Node.exists_right_of_forall₂ hsame hread
        exact ⟨write, hwrite, Node.same_iff_folded_eq.1 hname⟩

end Compatibility

namespace Store

open Compatibility

variable {store : Store} {read write : Handle}

/-- The nodes of the store as they would be on the side that writes. -/
def written? (store : Store) : Layering Handle := fun handle =>
  (store.node? handle).map Node.written

theorem written?_eq_some_iff {handle : Handle} {layer : Node Name Handle} :
    store.written? handle = some layer ↔
      ∃ node, store.node? handle = some node ∧ node.written = layer :=
  Option.map_eq_some_iff

/-- What can be read in strict mode has the graph of the reader seen from the other side. -/
theorem agree_of_canRead_strict (h : store.Regular)
    (hread : store.canRead true read write = true) :
    Layering.Agree store.written? store.node? read write := by
  obtain ⟨R, hR, hpair⟩ := canRead_eq_true_iff.1 hread
  refine Layering.Agree.of_closed (R := R) (fun read write hpair => ?_) hpair
  obtain ⟨reader, writer, hreader, hwriter, haccepts⟩ := (passes_iff h).1 (hR read write hpair)
  exact ⟨reader.written, writer, written?_eq_some_iff.2 ⟨reader, hreader, rfl⟩, hwriter,
    haccepts.similar (h.arranged hreader) (h.arranged hwriter)⟩

/-- The graph of a reader seen from the other side can be read in strict mode. -/
theorem canRead_strict_of_agree (h : store.Regular) (hreads : store.OneSided .read read)
    (hwrites : store.OneSided .write write)
    (hagree : Layering.Agree store.written? store.node? read write) :
    store.canRead true read write = true := by
  refine canRead_eq_true_iff.2 ⟨fun r w => Layering.Agree store.written? store.node? r w ∧
    store.Below read r ∧ store.Below write w, ?_, hagree, .refl, .refl⟩
  rintro r w ⟨hagree, hr, hw⟩
  obtain ⟨layer, writer, hlayer, hwriter, hsimilar⟩ := hagree.unfold
  obtain ⟨reader, hreader, rfl⟩ := written?_eq_some_iff.1 hlayer
  -- The children are below the two roots again, so they are of the right side too.
  have hchildren := below_of_mem_children hr hreader
  rw [← Node.children_written] at hchildren
  have hpairs : reader.written.Similar (fun r w => Layering.Agree store.written? store.node? r w ∧
      store.Below read r ∧ store.Below write w) writer :=
    ((hsimilar.symm.and_right hchildren).symm.and_right (below_of_mem_children hw hwriter)).imp
      fun _ _ h => ⟨h.1.1, h.1.2, h.2⟩
  exact (passes_iff h).2 ⟨reader, writer, hreader, hwriter,
    accepts_of_similar hpairs (h.arranged hreader) (hreads.serves hr hreader)
      (hwrites.serves hw hwriter)⟩

/-- Strict compatibility of the two sides is sameness of the graphs. -/
theorem canRead_strict_iff (h : store.Regular) (hreads : store.OneSided .read read)
    (hwrites : store.OneSided .write write) :
    store.canRead true read write = true ↔
      Layering.Agree store.written? store.node? read write :=
  ⟨agree_of_canRead_strict h, canRead_strict_of_agree h hreads hwrites⟩

end Store

end WireSchema
