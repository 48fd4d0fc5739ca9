/-
# Graphs that are found without copying

A node that is referred to by id is found if some node describes the same graph, and the
first that does is taken.  A node that is written inline is found if what is below it is,
and if the node over what has been found is in the index.  Copying a graph that is found
answers what was found and leaves the store as it is (`copyFrom_of_settled`).
-/

import WireSchema.Proofs.Store.Copy

namespace WireSchema.Store

variable {source target : Store} {R : Handle → Handle → Prop} {a b c handle : Handle}
variable {node : Node Name Handle}

/-! ## The first node of a graph -/

/-- The node is the first of the target that describes the same graph. -/
structure IsFirst (source : Store) (a : Handle) (target : Store) (b : Handle) : Prop where
  same : source.Bisimilar a target b
  le : ∀ other, source.Bisimilar a target other → b ≤ other

theorem IsFirst.unique (h : source.IsFirst a target b) (h' : source.IsFirst a target c) : b = c :=
  Nat.le_antisymm (h.le c h'.same) (h'.le b h.same)

/-- Where some node describes a graph, there is a first. -/
theorem exists_isFirst (h : source.Bisimilar a target b) :
    ∃ first, source.IsFirst a target first := by
  classical
  have hsome : ∃ other, source.Bisimilar a target other := ⟨b, h⟩
  exact ⟨Nat.find hsome, Nat.find_spec hsome, fun _ hother => Nat.find_min' hsome hother⟩

theorem pairwise_finished (store : Store) :
    store.finished.Pairwise fun entry other => entry.1 < other.1 := by
  rw [finished, List.pairwise_filterMap]
  refine List.pairwise_lt_range.imp fun {handle other} hlt entry hentry entry' hentry' => ?_
  obtain ⟨node, -, rfl⟩ := Option.map_eq_some_iff.1 hentry
  obtain ⟨node', -, rfl⟩ := Option.map_eq_some_iff.1 hentry'
  exact hlt

theorem mem_finished_iff {entry : Handle × Node Name Handle} :
    entry ∈ target.finished ↔ target.node? entry.1 = some entry.2 := by
  rw [finished, List.mem_filterMap]
  constructor
  · rintro ⟨handle, -, hentry⟩
    obtain ⟨node, hnode, rfl⟩ := Option.map_eq_some_iff.1 hentry
    exact hnode
  · intro hnode
    refine ⟨entry.1, List.mem_range.2 (lt_size_of_node? hnode), ?_⟩
    rw [hnode]
    rfl

/-- What is found in a list in order is the first that is right. -/
theorem le_of_find? {p : Handle → Bool} {handles : List Handle}
    (hsorted : handles.Pairwise (· < ·)) (hfound : handles.find? p = some b) (hmem : c ∈ handles)
    (hright : p c = true) : b ≤ c := by
  obtain ⟨-, before, behind, rfl, hbefore⟩ := List.find?_eq_some_iff_append.1 hfound
  rcases List.mem_append.1 hmem with hmem | hmem
  · have hwrong := hbefore c hmem
    rw [hright] at hwrong
    cases hwrong
  · rcases List.mem_cons.1 hmem with rfl | hmem
    · exact Nat.le_refl _
    · exact Nat.le_of_lt ((List.pairwise_cons.1 (List.pairwise_append.1 hsorted).2.1).1 c hmem)

/-- What is looked for among the nodes of a part is the first there that describes the same
graph. -/
theorem firstEquivalent?_eq_some_iff {candidates : List (Handle × Node Name Handle)}
    {P : Handle → Prop} (hnode : source.node? a = some node)
    (hsorted : candidates.Pairwise fun entry other => entry.1 < other.1)
    (hmem : ∀ entry, entry ∈ candidates ↔
      target.node? entry.1 = some entry.2 ∧ P entry.1) :
    source.firstEquivalent? a target candidates = some c ↔
      (P c ∧ source.Bisimilar a target c) ∧
        ∀ other, P other → source.Bisimilar a target other → c ≤ other := by
  have hsorted' : ((candidates.filter fun entry => entry.2.kind = node.kind).map
      Prod.fst).Pairwise (· < ·) := List.pairwise_map.2 (hsorted.filter _)
  have hright : ∀ b, P b → source.Bisimilar a target b →
      b ∈ (candidates.filter fun entry => entry.2.kind = node.kind).map Prod.fst := by
    intro b hwithin hsame
    obtain ⟨y, hy, hsimilar⟩ := hsame.unfold.exists_right hnode
    exact List.mem_map.2 ⟨(b, y), List.mem_filter.2
      ⟨(hmem _).2 ⟨hy, hwithin⟩, decide_eq_true hsimilar.kind_eq.symm⟩, rfl⟩
  have hwithin : ∀ b ∈ (candidates.filter fun entry => entry.2.kind = node.kind).map Prod.fst,
      P b := by
    intro b hb
    obtain ⟨entry, hentry, rfl⟩ := List.mem_map.1 hb
    exact ((hmem entry).1 (List.mem_filter.1 hentry).1).2
  rw [firstEquivalent?, hnode]
  dsimp only
  constructor
  · intro hfound
    refine ⟨⟨hwithin c (List.mem_of_find?_eq_some hfound),
      equivalent_eq_true_iff.1 (List.find?_some hfound)⟩, fun other hother hsame => ?_⟩
    exact le_of_find? hsorted' hfound (hright other hother hsame) (equivalent_eq_true_iff.2 hsame)
  · rintro ⟨⟨hc, hsame⟩, hle⟩
    obtain ⟨found, hfound⟩ := Option.isSome_iff_exists.1
      (List.find?_isSome.2 ⟨c, hright c hc hsame, equivalent_eq_true_iff.2 hsame⟩)
    have hle' := hle found (hwithin found (List.mem_of_find?_eq_some hfound))
      (equivalent_eq_true_iff.1 (List.find?_some hfound))
    have hge := le_of_find? hsorted' hfound (hright c hc hsame) (equivalent_eq_true_iff.2 hsame)
    rw [hfound, Nat.le_antisymm hge hle']

/-- The node that can stand for one that is referred to by id is the first of the same graph. -/
theorem existing?_eq_some_iff (hnode : source.node? handle = some node)
    (hreference : node.isByReference = true) :
    Copying.existing? source handle node target = some c ↔ source.IsFirst handle target c := by
  rw [Copying.existing?, if_pos hreference, firstEquivalent?_eq_some_iff (P := fun _ => True) hnode
    (pairwise_finished target) fun entry => mem_finished_iff.trans (and_true _).symm.to_iff]
  exact ⟨fun h => ⟨h.1.2, fun other => h.2 other trivial⟩,
    fun h => ⟨⟨trivial, h.same⟩, fun other _ => h.le other⟩⟩

/-! ## Graphs that are found -/

/-- The handle is found for the node, when those of the relation are found for what is below. -/
inductive Found (source target : Store) (R : Handle → Handle → Prop) (a b : Handle) : Prop
  | reference {node : Node Name Handle} : source.node? a = some node →
      node.isByReference = true → source.IsFirst a target b → Found source target R a b
  | inline {node copy : Node Name Handle} : source.node? a = some node →
      node.isByReference = false → node.Lift R copy → target.index.get? copy.key = some b →
        Found source target R a b

/-- Everything that the relation has is found. -/
def Settled (source target : Store) (R : Handle → Handle → Prop) : Prop :=
  ∀ a b, R a b → source.Found target R a b

/-- Nodes over what two relations relate to the same are the same. -/
theorem eq_of_lift {copy copy' : Node Name Handle} (h : node.Lift R copy)
    (h' : node.Lift R copy')
    (hunique : ∀ child ∈ node.children, ∀ b c, R child b → R child c → b = c) :
    copy = copy' := by
  have hpairs : copy.Lift (fun b c => b = c) copy' := by
    refine ⟨h.shape_eq.symm.trans h'.shape_eq, ?_⟩
    have hrel := h.children
    have hrel' := h'.children
    generalize node.children = children at hrel hrel' hunique
    generalize copy.children = bs at hrel ⊢
    generalize copy'.children = cs at hrel' ⊢
    induction hrel generalizing cs with
    | nil =>
        cases hrel'
        exact .nil
    | cons hb _ ih =>
        obtain _ | ⟨hc, hrel'⟩ := hrel'
        exact .cons (hunique _ List.mem_cons_self _ _ hb hc) (ih
          (fun child hchild => hunique child (List.mem_cons_of_mem _ hchild)) _ hrel')
  obtain ⟨pairs, rfl, rfl⟩ := Node.exists_span hpairs
  exact congrArg (fun f => pairs.mapChildren f) (funext fun pair => pair.2)

theorem Settled.unique (h : source.Settled target R) (hsource : source.Sound) (hb : R a b)
    (hc : R a c) : b = c := by
  induction a using hsource.grounded.induction generalizing b c with
  | _ a ih =>
    cases h a b hb with
    | reference hnode hreference hfirst =>
        cases h a c hc with
        | reference _ _ hfirst' => exact hfirst.unique hfirst'
        | inline hnode' hinline _ _ =>
            cases hnode.symm.trans hnode'
            cases hreference.symm.trans hinline
    | inline hnode hinline hlift hget =>
        cases h a c hc with
        | reference hnode' hreference _ =>
            cases hnode.symm.trans hnode'
            cases hreference.symm.trans hinline
        | inline hnode' _ hlift' hget' =>
            cases hnode.symm.trans hnode'
            rw [eq_of_lift hlift hlift' fun child hchild _ _ hb hc =>
              ih child ⟨_, hnode, hinline, hchild⟩ hb hc] at hget
            exact Option.some.inj (hget.symm.trans hget')

/-! ## Copying what is found -/

/-- Copying while nothing is added and only what has been found is remembered. -/
def foundSession (target : Store) (R : Handle → Handle → Prop) : Session Copying where
  Valid s := s.target = target ∧ s.reserved = .empty ∧
    ∀ {a b}, s.copied.get? a = some b → R a b
  Step _ _ := True
  Fails _ _ := False
  refl _ := trivial
  trans _ _ := trivial
  fails_of_step _ _ _ h := h

theorem settle_runs {s : Copying} (hs : (foundSession target R).Valid s) (hR : R a b) :
    (foundSession target R).Runs s (Copying.settle a b s) fun copy _ => copy = b := by
  obtain ⟨htarget, hreserved, hcopied⟩ := hs
  refine ⟨⟨htarget, hreserved, fun {other copy} hget => ?_⟩, trivial, rfl⟩
  rcases Table.get?_insert_eq_some_iff.1 hget with ⟨rfl, rfl⟩ | ⟨-, hget⟩
  · exact hR
  · exact hcopied hget

theorem close_runs_of_found {s : Copying} {copy : Node Name Handle}
    (hs : (foundSession target R).Valid s) (hR : R a b)
    (hget : target.index.get? copy.key = some b) :
    (foundSession target R).Runs s (Copying.close a copy s) fun copy _ => copy = b := by
  obtain ⟨rfl, hreserved, hcopied⟩ := hs
  have hnone : s.reserved.get? a = none := by
    rw [hreserved]
    rfl
  rw [Copying.close, hnone]
  dsimp only
  rw [intern_of_get?_eq_some hget]
  exact settle_runs ⟨rfl, hreserved, hcopied⟩ hR

/-- A node that is found gets what was found. -/
theorem copyNode_runs_of_settled (hsource : source.Sound) (hsettled : source.Settled target R)
    (opened : List Handle)
    (hopened : ∀ above ∈ opened, Relation.TransGen source.Inlines a above) (hR : R a b)
    {s : Copying} (hs : (foundSession target R).Valid s) :
    (foundSession target R).Runs s (source.copyNode opened a s) fun copy _ => copy = b := by
  induction a using hsource.grounded.induction generalizing opened b s with
  | _ a ih =>
    have htarget : s.target = target := hs.1
    have hclosed : a ∉ opened := fun hmem =>
      hsource.grounded.transGen.asymmetric a a (hopened a hmem) (hopened a hmem)
    have hsettle := hsettled a b hR
    refine ends_copyNode (fun copy hget => ?_) (fun _ hmem => absurd hmem hclosed)
      (fun hnone => ?_) (fun node copy _ _ hnode hexisting => ?_) fun node _ _ hnode hexisting => ?_
    · exact ⟨hs, trivial, hsettled.unique hsource (hs.2.2 hget) hR⟩
    · cases hsettle with
      | reference hnode | inline hnode => cases hnone.symm.trans hnode
    · cases hsettle with
      | reference hnode' hreference hfirst =>
          cases hnode.symm.trans hnode'
          cases hexisting.symm.trans
            ((existing?_eq_some_iff hnode hreference).2 (htarget.symm ▸ hfirst))
          exact settle_runs hs hR
      | inline hnode' hinline _ _ =>
          cases hnode.symm.trans hnode'
          rw [Copying.existing?, hinline] at hexisting
          cases hexisting
    · cases hsettle with
      | reference hnode' hreference hfirst =>
          cases hnode.symm.trans hnode'
          cases hexisting.symm.trans
            ((existing?_eq_some_iff hnode hreference).2 (htarget.symm ▸ hfirst))
      | @inline _ copy hnode' hinline hlift hindex =>
          cases hnode.symm.trans hnode'
          refine Ends.imp (Session.runs_traverse (S := foundSession target R)
            (R := fun child copy _ => R child copy)
            (fun _ _ _ _ _ _ _ h => h) (fun child hchild t ht => ?_) hs) ?_ fun _ _ h => h
          · have hbelow : source.Inlines child a := ⟨node, hnode, hinline, hchild⟩
            obtain ⟨d, -, hd⟩ := Node.exists_right_of_forall₂ hlift.children hchild
            refine (ih child hbelow (a :: opened) (List.forall_mem_cons.2 ⟨.single hbelow,
              fun above habove => .head hbelow (hopened above habove)⟩) hd ht).imp ?_
            rintro _ _ - - rfl
            exact hd
          · rintro found t ⟨ht, -, hfound⟩
            rw [eq_of_lift hfound hlift fun child _ _ _ => hsettled.unique hsource]
            exact close_runs_of_found ht hR hindex

/-- Copying a graph that is found answers what was found and changes nothing. -/
theorem copyFrom_of_settled (hsource : source.Sound) (hsettled : source.Settled target R)
    (hR : R a b) : source.copyFrom a target = .ok b target := by
  have hruns := copyNode_runs_of_settled hsource hsettled [] nofun hR
    (s := Copying.start target) ⟨rfl, rfl, nofun⟩
  unfold copyFrom
  cases hrun : source.copyNode [] a (Copying.start target) with
  | error error state =>
      rw [hrun] at hruns
      exact hruns.elim
  | ok copy state =>
      rw [hrun] at hruns
      obtain ⟨⟨rfl, -, -⟩, -, rfl⟩ := hruns
      rfl

end WireSchema.Store
