/-
# Graphs that have the same text

The canonical text numbers the nodes that are referred to by id in the order of a
depth-first visit, and writes everything else out.  A relation that matches two graphs node
by node, and one to one where nodes are referred to by id, carries the visit, the numbers
and the lines of one to those of the other, so both have the same text
(`Corresponds.canonicalText_eq`).
-/

import WireSchema.Proofs.Store.CanonicalForm

namespace WireSchema

namespace Node

variable {refer refer' : Handle → Except Error String}

theorem memberElements_congr (label : String) {members members' : List (Member Name Handle)}
    (h : List.Forall₂ (SameMember fun a b => refer a = refer' b) members members') :
    memberElements label refer members = memberElements label refer' members' := by
  induction h with
  | nil => rfl
  | cons hmember _ ih =>
      rw [memberElements, memberElements, memberElement, memberElement, hmember.1, hmember.2, ih]

theorem inputElements_congr {inputs inputs' : List (Input Name Handle)}
    (h : List.Forall₂ (SameInput fun a b => refer a = refer' b) inputs inputs') :
    inputElements refer inputs = inputElements refer' inputs' := by
  induction h with
  | nil => rfl
  | cons hinput _ ih =>
      rw [inputElements, inputElements, memberElement, memberElement, hinput.1, hinput.2.1,
        hinput.2.2, ih]

/-- Corresponding nodes have the same element when what is below them is written alike. -/
theorem toElement?_congr {a b : Node Name Handle}
    (h : a.Lift (fun x y => refer x = refer' y) b) (id? : Option String) :
    a.toElement? id? refer = b.toElement? id? refer' := by
  have hparts : a.partElements refer = b.partElements refer' := by
    have hshape := h.shape_eq
    cases a <;> cases b <;> simp only [shape, mapChildren, reduceCtorEq] at hshape
    case enumeration.enumeration =>
      obtain rfl := enumeration.inj hshape
      rfl
    case recordWrite.recordWrite => exact memberElements_congr "Field" (lift_recordWrite_iff.1 h)
    case recordRead.recordRead => exact inputElements_congr (lift_recordRead_iff.1 h)
    case union.union => exact memberElements_congr "Member" (lift_union_iff.1 h).2
    all_goals rfl
  unfold toElement?
  rw [h.isByReference_eq, h.kind_eq, hparts]

end Node

namespace Store

variable {source target : Store} {M : Handle → Handle → Prop} {a b : Handle}

/-- The relation matches nodes of two stores with all that is below them, and is one to one
where they are referred to by id. -/
structure Corresponds (source target : Store) (M : Handle → Handle → Prop) : Prop where
  closed : ∀ {a b}, M a b → Layering.Match source.node? target.node? M a b
  unique : ∀ {a b a' b'}, M a b → M a' b' → source.Referred a → source.Referred a' →
    (a = a' ↔ b = b')

/-- The second node describes the graph of the first, which is at or below the root. -/
def BisimilarBelow (source : Store) (root : Handle) (target : Store) (a b : Handle) : Prop :=
  source.Bisimilar a target b ∧ source.Below root a

theorem BisimilarBelow.unfold {root : Handle} (h : source.BisimilarBelow root target a b) :
    Layering.Match source.node? target.node? (source.BisimilarBelow root target) a b := by
  obtain ⟨hsame, hbelow⟩ := h
  obtain ⟨x, y, hx, hy, hsimilar⟩ := hsame.unfold
  have hchildren : ∀ child ∈ x.children, source.Below root child := fun child hchild =>
    hbelow.tail ⟨x, hx, hchild⟩
  exact ⟨x, y, hx, hy, (hsimilar.symm.and_right hchildren).symm⟩

theorem bisimilarBelow_congr {root : Handle} {after : Store} (h : after.node? = target.node?) :
    source.BisimilarBelow root after = source.BisimilarBelow root target := by
  unfold BisimilarBelow Bisimilar
  rw [h]

/-- Only the nodes of the stores count. -/
theorem Corresponds.congr {source' target' : Store} (h : source.Corresponds target M)
    (hsource : source'.node? = source.node?) (htarget : target'.node? = target.node?) :
    source'.Corresponds target' M where
  closed := by
    rw [hsource, htarget]
    exact h.closed
  unique := by
    unfold Referred
    rw [hsource]
    exact h.unique

/-- The nodes are matched and referred to by id. -/
def Numbered (source : Store) (M : Handle → Handle → Prop) (a b : Handle) : Prop :=
  M a b ∧ source.Referred a

namespace Corresponds

variable {as bs order order' visited visited' pending pending' : List Handle}

/-- Matched nodes are written alike: what is referred to is matched, and naming matched nodes
alike gives the same. -/
theorem of_written (h : source.Corresponds target M) {tree tree' : Markup Handle}
    (htree : source.Written (fun handle target => target = handle) a tree)
    (htree' : target.Written (fun handle target => target = handle) b tree') (hab : M a b) :
    List.Forall₂ (source.Numbered M) tree.references tree'.references ∧
      ∀ name name' : Handle → Except Error String,
        (∀ x y, source.Numbered M x y → name x = name' y) →
          tree.mapRefs name = tree'.mapRefs name' := by
  induction htree generalizing b tree' with
  | @ref a node other hnode hreference hother =>
      subst hother
      obtain ⟨y, hy, hsimilar⟩ := (h.closed hab).exists_right hnode
      obtain ⟨_, rfl, rfl⟩ := htree'.exists_label hy
        (hsimilar.isByReference_eq.symm.trans hreference)
      have hnumbered : source.Numbered M _ _ := ⟨hab, _, hnode, hreference⟩
      refine ⟨.cons hnumbered .nil, fun name name' hname => ?_⟩
      rw [Markup.mapRefs, Markup.mapRefs, hname _ _ hnumbered]
  | primitive hnode | empty hnode =>
      obtain ⟨y, hy, hsimilar⟩ := (h.closed hab).exists_right hnode
      cases y <;> cases hsimilar.shape_eq
      obtain rfl := htree'.writtenAs hy
      exact ⟨.nil, fun _ _ _ => rfl⟩
  | nullable hnode _ ih | list hnode _ ih =>
      obtain ⟨y, hy, hsimilar⟩ := (h.closed hab).exists_right hnode
      have hchildren := hsimilar.children
      cases y <;> cases hsimilar.shape_eq
      obtain ⟨below, rfl, hbelow⟩ := htree'.writtenAs hy
      obtain ⟨hreferences, hmap⟩ := ih hbelow (List.forall₂_cons.1 hchildren).1
      refine ⟨hreferences, fun name name' hname => ?_⟩
      rw [Markup.mapRefs, Markup.mapRefs, hmap name name' hname]
  | dictionary hnode _ _ ihkey ihvalue =>
      obtain ⟨y, hy, hsimilar⟩ := (h.closed hab).exists_right hnode
      have hchildren := hsimilar.children
      cases y <;> cases hsimilar.shape_eq
      obtain ⟨below, below', rfl, hbelow, hbelow'⟩ := htree'.writtenAs hy
      obtain ⟨hkey, hrest⟩ := List.forall₂_cons.1 hchildren
      obtain ⟨hreferences, hmap⟩ := ihkey hbelow hkey
      obtain ⟨hreferences', hmap'⟩ := ihvalue hbelow' (List.forall₂_cons.1 hrest).1
      refine ⟨List.rel_append hreferences hreferences', fun name name' hname => ?_⟩
      rw [Markup.mapRefs, Markup.mapRefs, hmap name name' hname, hmap' name name' hname]

/-! ### The visit -/

theorem forall₂_nearest (h : source.Corresponds target M) (hab : M a b)
    (has : source.nearest a = .ok as) (hbs : target.nearest b = .ok bs) :
    List.Forall₂ (source.Numbered M) as bs := by
  obtain ⟨tree, htree, rfl⟩ := exists_unfold_of_nearest has
  obtain ⟨tree', htree', rfl⟩ := exists_unfold_of_nearest hbs
  exact (h.of_written (written_of_unfoldWithin htree) (written_of_unfoldWithin htree') hab).1

theorem forall₂_nearestAll (h : source.Corresponds target M) {handles handles' : List Handle}
    (hpairs : List.Forall₂ M handles handles') (has : source.nearestAll handles = .ok as)
    (hbs : target.nearestAll handles' = .ok bs) : List.Forall₂ (source.Numbered M) as bs := by
  induction hpairs generalizing as bs with
  | nil =>
      cases has
      cases hbs
      exact .nil
  | cons hpair _ ih =>
      obtain ⟨first, more, hfirst, hmore, rfl⟩ := exists_of_nearestAll_cons has
      obtain ⟨first', more', hfirst', hmore', rfl⟩ := exists_of_nearestAll_cons hbs
      exact List.rel_append (h.forall₂_nearest hpair hfirst hfirst') (ih hmore hmore')

theorem forall₂_successors (h : source.Corresponds target M) (hab : M a b)
    (has : source.successors a = .ok as) (hbs : target.successors b = .ok bs) :
    List.Forall₂ (source.Numbered M) as bs := by
  obtain ⟨x, y, hx, hy, hsimilar⟩ := h.closed hab
  obtain ⟨x', hx', has⟩ := exists_node_of_successors has
  obtain ⟨y', hy', hbs⟩ := exists_node_of_successors hbs
  cases hx.symm.trans hx'
  cases hy.symm.trans hy'
  exact h.forall₂_nearestAll hsimilar.children has hbs

theorem mem_iff (h : source.Corresponds target M) (hlists : List.Forall₂ (source.Numbered M) as bs)
    (hab : source.Numbered M a b) : a ∈ as ↔ b ∈ bs := by
  constructor
  · intro hmem
    obtain ⟨other, hother, hpair⟩ := Node.exists_right_of_forall₂ hlists hmem
    rwa [(h.unique hab.1 hpair.1 hab.2 hab.2).1 rfl]
  · intro hmem
    obtain ⟨other, hother, hpair⟩ := Node.exists_left_of_forall₂ hlists hmem
    rwa [(h.unique hab.1 hpair.1 hab.2 hpair.2).2 rfl]

/-- Matched nodes are visited in the same order. -/
theorem forall₂_visitOrder (h : source.Corresponds target M)
    (hvisited : List.Forall₂ (source.Numbered M) visited visited')
    (hpending : List.Forall₂ (source.Numbered M) pending pending')
    (horder : source.visitOrder visited pending = .ok order)
    (horder' : target.visitOrder visited' pending' = .ok order') :
    List.Forall₂ (source.Numbered M) order order' := by
  induction visited, pending using visitOrder.induct source generalizing visited' pending' with
  | case1 visited =>
      cases hpending
      rw [visitOrder] at horder horder'
      cases horder
      cases horder'
      exact hvisited
  | case2 visited a pending hseen ih =>
      obtain _ | ⟨hab, hpending⟩ := hpending
      rw [visitOrder, dif_pos hseen] at horder
      rw [visitOrder, dif_pos ((h.mem_iff hvisited hab).1 hseen)] at horder'
      exact ih hvisited hpending horder horder'
  | case3 visited a pending hseen error herror =>
      obtain ⟨targets, htargets, -⟩ := exists_successors_of_visitOrder hseen horder
      cases herror.symm.trans htargets
  | case4 visited a pending hseen targets htargets ih =>
      obtain _ | ⟨hab, hpending⟩ := hpending
      next b pending' =>
        have hseen' : b ∉ visited' := fun hmem => hseen ((h.mem_iff hvisited hab).2 hmem)
        obtain ⟨targets', htargets', horder'⟩ := exists_successors_of_visitOrder hseen' horder'
        rw [visitOrder_cons hseen htargets] at horder
        exact ih (List.rel_append hvisited (.cons hab .nil))
          (List.rel_append (h.forall₂_successors hab.1 htargets htargets') hpending)
          horder horder'

/-! ### The numbers and the lines -/

theorem idxOf?_eq (h : source.Corresponds target M)
    (horders : List.Forall₂ (source.Numbered M) order order') (hab : source.Numbered M a b) :
    order.idxOf? a = order'.idxOf? b := by
  induction horders with
  | nil => rfl
  | @cons x y order order' hpair _ ih =>
      have hsame : (x == a) = (y == b) := by
        rw [Bool.eq_iff_iff, beq_iff_eq, beq_iff_eq]
        exact h.unique hpair.1 hab.1 hpair.2 hab.2
      rw [List.idxOf?_cons, List.idxOf?_cons, hsame, ih]

theorem numberLabel_eq (h : source.Corresponds target M)
    (horders : List.Forall₂ (source.Numbered M) order order') (hab : source.Numbered M a b) :
    source.numberLabel order a = target.numberLabel order' b := by
  obtain ⟨x, y, hx, hy, hsimilar⟩ := h.closed hab.1
  rw [numberLabel, numberLabel, node_eq_ok_iff.2 hx, node_eq_ok_iff.2 hy,
    h.idxOf?_eq horders hab]
  simp only [bind, Except.bind, hsimilar.kind_eq]

theorem numberedReference_eq (h : source.Corresponds target M) (hsource : source.Sound)
    (htarget : target.Sound) (horders : List.Forall₂ (source.Numbered M) order order')
    (hab : M a b) : source.numberedReference order a = target.numberedReference order' b := by
  obtain ⟨x, y, hx, hy, -⟩ := h.closed hab
  obtain ⟨tree, htree⟩ := exists_unfold hsource (lt_size_of_node? hx)
  obtain ⟨tree', htree'⟩ := exists_unfold htarget (lt_size_of_node? hy)
  have hmap := (h.of_written (written_of_unfoldWithin htree) (written_of_unfoldWithin htree')
    hab).2 _ _ fun _ _ => h.numberLabel_eq horders
  rw [numberedReference, numberedReference, markupWith, markupWith, htree, htree']
  simp only [bind, Except.bind, hmap]

theorem canonicalLines_eq (h : source.Corresponds target M) (hsource : source.Sound)
    (htarget : target.Sound) (horders : List.Forall₂ (source.Numbered M) order order')
    (hlists : List.Forall₂ (source.Numbered M) as bs) (number : Nat) :
    source.canonicalLines order number as = target.canonicalLines order' number bs := by
  induction hlists generalizing number with
  | nil => rfl
  | cons hpair _ ih =>
      obtain ⟨x, y, hx, hy, hsimilar⟩ := h.closed hpair.1
      have hlift := (hsimilar.imp fun a b hab =>
        h.numberedReference_eq hsource htarget horders hab).mapNames Name.mk
      have helement := Node.toElement?_congr hlift (some (toString number))
      rw [canonicalLines, canonicalLines, node_eq_ok_iff.2 hx, node_eq_ok_iff.2 hy]
      simp only [bind, Except.bind, Node.mapNames_mk_folded, helement, ih]

/-- Matched nodes have the same canonical text. -/
theorem canonicalText_eq (h : source.Corresponds target M) (hsource : source.Sound)
    (htarget : target.Sound) (hab : M a b) :
    source.canonicalText a = target.canonicalText b := by
  obtain ⟨x, y, hx, hy, -⟩ := h.closed hab
  obtain ⟨as, has⟩ := exists_nearest hsource (lt_size_of_node? hx)
  obtain ⟨bs, hbs⟩ := exists_nearest htarget (lt_size_of_node? hy)
  obtain ⟨order, horder⟩ := exists_visitOrder_of_nearest hsource has
  obtain ⟨order', horder'⟩ := exists_visitOrder_of_nearest htarget hbs
  have horders := h.forall₂_visitOrder .nil (h.forall₂_nearest hab has hbs) horder horder'
  have hreference := h.numberedReference_eq hsource htarget horders hab
  have hlines := h.canonicalLines_eq hsource htarget horders horders 0
  rw [canonicalText, canonicalText, has, hbs]
  simp only [bind, Except.bind, horder, horder', hreference, hlines]

end Corresponds

end Store

end WireSchema
