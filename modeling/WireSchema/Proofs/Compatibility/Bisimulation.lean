/-
# Compatibility of the same graphs

What a reader accepts depends on kinds, names, flags and what is below, and on nothing
else that a store knows.  Handles of the same graphs are therefore compatible in one
store exactly if they are in another, though the check meets other pairs there when
nodes have been merged or kept apart.
-/

import WireSchema.Proofs.Compatibility.Check

namespace WireSchema

namespace Compatibility

variable {strict : Bool} {R S P Q : Handle → Handle → Prop}

/-- Whether two names are of one form can be told from other spellings of them. -/
theorem folded_eq_iff_of_same {a a' b b' : Name} (ha : a'.same a = true) (hb : b'.same b = true) :
    a'.folded = b'.folded ↔ a.folded = b.folded := by
  rw [of_decide_eq_true ha, of_decide_eq_true hb]

/-- Fields are accepted under other handles of the same names and flags. -/
theorem FieldsAccept.transfer {reads reads' : List (Input Name Handle)}
    {writes writes' : List (Member Name Handle)} (h : FieldsAccept strict R reads writes)
    (hreads : List.Forall₂ (fun a b => b.name.same a.name = true ∧ P a.target b.target ∧
      b.required = a.required) reads reads')
    (hwrites : List.Forall₂ (fun a b => b.name.same a.name = true ∧ Q a.target b.target)
      writes writes')
    (hS : ∀ r w r' w', R r w → P r r' → Q w w' → S r' w') :
    FieldsAccept strict S reads' writes' where
  shared read' hread' write' hwrite' heq := by
    obtain ⟨read, hread, hname, hP, -⟩ := Node.exists_left_of_forall₂ hreads hread'
    obtain ⟨write, hwrite, hname', hQ⟩ := Node.exists_left_of_forall₂ hwrites hwrite'
    have hfolded := (folded_eq_iff_of_same hname hname').1 heq
    exact hS _ _ _ _ (h.shared read hread write hwrite hfolded) hP hQ
  unwritten read' hread' hnone := by
    obtain ⟨read, hread, hname, -, hflag⟩ := Node.exists_left_of_forall₂ hreads hread'
    rw [hflag]
    apply h.unwritten read hread
    intro write hwrite heq
    obtain ⟨write', hwrite', hname', -⟩ := Node.exists_right_of_forall₂ hwrites hwrite
    exact hnone write' hwrite' ((folded_eq_iff_of_same hname hname').2 heq)
  known hstrict write' hwrite' := by
    obtain ⟨write, hwrite, hname', -⟩ := Node.exists_left_of_forall₂ hwrites hwrite'
    obtain ⟨read, hread, heq⟩ := h.known hstrict write hwrite
    obtain ⟨read', hread', hname, -⟩ := Node.exists_right_of_forall₂ hreads hread
    exact ⟨read', hread', (folded_eq_iff_of_same hname hname').2 heq⟩

/-- The names of similar enumerations are the same up to case. -/
theorem mem_folded_iff {members members' : List Name} {name : String}
    (h : List.Forall₂ (fun a b => b.same a = true) members members') :
    name ∈ members'.map Name.folded ↔ name ∈ members.map Name.folded := by
  have hrel : List.Forall₂ (fun a b : Name => a.folded = b.folded) members members' :=
    h.imp fun _ _ hsame => (of_decide_eq_true hsame).symm
  have heq : List.Forall₂ (· = ·) (members.map Name.folded) (members'.map Name.folded) := by
    rwa [List.forall₂_map_left_iff, List.forall₂_map_right_iff]
  rw [List.forall₂_eq_eq_eq] at heq
  rw [heq]

/-- Similar nodes are accepted alike, when what is below them is related alike. -/
theorem Accepts.transfer {write write' : Handle} {reader reader' writer writer' : Node Name Handle}
    (h : Accepts strict R write reader writer) (hreader : reader.Similar P reader')
    (hwriter : writer.Similar Q writer') (hwrite : Q write write')
    (hS : ∀ r w r' w', R r w → P r r' → Q w w' → S r' w') :
    Accepts strict S write' reader' writer' := by
  have hkind := hwriter.kind_eq
  cases h with
  | primitive type =>
      cases reader' <;> cases hreader.shape_eq
      cases writer' <;> cases hwriter.shape_eq
      exact .primitive type
  | wider hlenient hwider =>
      cases reader' <;> cases hreader.shape_eq
      cases writer' <;> cases hwriter.shape_eq
      exact .wider hlenient hwider
  | sameMembers hsame =>
      obtain ⟨_, rfl, hreads⟩ := Node.exists_of_similar_enumeration hreader
      obtain ⟨_, rfl, hwrites⟩ := Node.exists_of_similar_enumeration hwriter
      refine .sameMembers fun name => ?_
      rw [mem_folded_iff hreads, mem_folded_iff hwrites]
      exact hsame name
  | moreMembers hlenient hmore =>
      obtain ⟨_, rfl, hreads⟩ := Node.exists_of_similar_enumeration hreader
      obtain ⟨_, rfl, hwrites⟩ := Node.exists_of_similar_enumeration hwriter
      refine .moreMembers hlenient fun name hname => ?_
      rw [mem_folded_iff hreads]
      exact hmore name ((mem_folded_iff hwrites).1 hname)
  | empty =>
      cases reader' <;> cases hreader.shape_eq
      cases writer' <;> cases hwriter.shape_eq
      exact .empty
  | emptyOfRecord hlenient =>
      cases reader' <;> cases hreader.shape_eq
      obtain ⟨_, rfl, -⟩ := Node.exists_of_similar_recordWrite hwriter
      exact .emptyOfRecord hlenient
  | nullable hinner =>
      have hread := hreader.children
      have hwritten := hwriter.children
      cases reader' <;> cases hreader.shape_eq
      cases writer' <;> cases hwriter.shape_eq
      exact .nullable (hS _ _ _ _ hinner (List.forall₂_cons.1 hread).1
        (List.forall₂_cons.1 hwritten).1)
  | present hlenient hne hinner =>
      have hread := hreader.children
      cases reader' <;> cases hreader.shape_eq
      exact .present hlenient (fun hkind' => hne (hkind.trans hkind'))
        (hS _ _ _ _ hinner (List.forall₂_cons.1 hread).1 hwrite)
  | list hitem =>
      have hread := hreader.children
      have hwritten := hwriter.children
      cases reader' <;> cases hreader.shape_eq
      cases writer' <;> cases hwriter.shape_eq
      exact .list (hS _ _ _ _ hitem (List.forall₂_cons.1 hread).1 (List.forall₂_cons.1 hwritten).1)
  | dictionary hkey hvalue =>
      have hread := hreader.children
      have hwritten := hwriter.children
      cases reader' <;> cases hreader.shape_eq
      cases writer' <;> cases hwriter.shape_eq
      obtain ⟨hreadKey, hread⟩ := List.forall₂_cons.1 hread
      obtain ⟨hwriteKey, hwritten⟩ := List.forall₂_cons.1 hwritten
      exact .dictionary (hS _ _ _ _ hkey hreadKey hwriteKey)
        (hS _ _ _ _ hvalue (List.forall₂_cons.1 hread).1 (List.forall₂_cons.1 hwritten).1)
  | record hfields =>
      obtain ⟨_, rfl, hreads⟩ := Node.exists_of_similar_recordRead hreader
      obtain ⟨_, rfl, hwrites⟩ := Node.exists_of_similar_recordWrite hwriter
      exact .record (hfields.transfer hreads hwrites hS)
  | recordOfEmpty hlenient hoptional =>
      obtain ⟨_, rfl, hreads⟩ := Node.exists_of_similar_recordRead hreader
      cases writer' <;> cases hwriter.shape_eq
      refine .recordOfEmpty hlenient fun read' hread' => ?_
      obtain ⟨read, hread, -, -, hflag⟩ := Node.exists_left_of_forall₂ hreads hread'
      exact hflag.trans (hoptional read hread)
  | union hread hwritten =>
      obtain ⟨_, rfl, hreads⟩ := Node.exists_of_similar_union hreader
      obtain ⟨_, rfl, hwrites⟩ := Node.exists_of_similar_union hwriter
      refine .union (fun member' hmember' => ?_) fun hstrict member' hmember' => ?_
      · obtain ⟨member, hmember, hname', hQ⟩ := Node.exists_left_of_forall₂ hwrites hmember'
        obtain ⟨other, hother, heq, hpair⟩ := hread member hmember
        obtain ⟨other', hother', hname, hP⟩ := Node.exists_right_of_forall₂ hreads hother
        exact ⟨other', hother', (folded_eq_iff_of_same hname hname').2 heq,
          hS _ _ _ _ hpair hP hQ⟩
      · obtain ⟨member, hmember, hname, -⟩ := Node.exists_left_of_forall₂ hreads hmember'
        obtain ⟨other, hother, heq⟩ := hwritten hstrict member hmember
        obtain ⟨other', hother', hname', -⟩ := Node.exists_right_of_forall₂ hwrites hother
        exact ⟨other', hother', (folded_eq_iff_of_same hname hname').2 heq⟩

end Compatibility

namespace Store

open Compatibility

variable {source target : Store} {strict : Bool} {read write read' write' : Handle}

/-- What can be read under handles of one store can be read under handles of the same graphs
in another. -/
theorem canRead_of_bisimilar (hsource : source.Regular) (htarget : target.Regular)
    (hread : source.Bisimilar read target read') (hwrite : source.Bisimilar write target write')
    (h : source.canRead strict read write = true) :
    target.canRead strict read' write' = true := by
  obtain ⟨R, hR, hpair⟩ := canRead_eq_true_iff.1 h
  refine canRead_eq_true_iff.2 ⟨fun r' w' => ∃ r w, R r w ∧ source.Bisimilar r target r' ∧
    source.Bisimilar w target w', ?_, read, write, hpair, hread, hwrite⟩
  rintro r' w' ⟨r, w, hrw, hr, hw⟩
  obtain ⟨reader, writer, hreader, hwriter, haccepts⟩ := (passes_iff hsource).1 (hR r w hrw)
  obtain ⟨reader', hreader', hsimilar⟩ := hr.unfold.exists_right hreader
  obtain ⟨writer', hwriter', hsimilar'⟩ := hw.unfold.exists_right hwriter
  refine (passes_iff htarget).2 ⟨reader', writer', hreader', hwriter', ?_⟩
  exact haccepts.transfer hsimilar hsimilar' hw fun r w r' w' hrw hr hw => ⟨r, w, hrw, hr, hw⟩

/-- Whether handles are compatible depends on their graphs alone. -/
theorem canRead_eq_of_bisimilar (hsource : source.Regular) (htarget : target.Regular)
    (hread : source.Bisimilar read target read') (hwrite : source.Bisimilar write target write') :
    target.canRead strict read' write' = source.canRead strict read write := by
  rw [Bool.eq_iff_iff]
  exact ⟨canRead_of_bisimilar htarget hsource hread.symm hwrite.symm,
    canRead_of_bisimilar hsource htarget hread hwrite⟩

end Store

end WireSchema
