/-
# What copying a graph does

A copy stands for the node that it was made of.  While copying goes on the
receiving store is a scaffold whose keys are the open nodes of the source; every
slot that has been added stands for some node of the source.  From a sound store
copying always succeeds (`copyNode_runs`), and the receiving store is sound
afterwards: what is written inline in the copy is written inline in the source.

Copying keeps whatever its steps keep (`Copying.Maintains`), and so whatever the steps of
every construction keep.
-/

import WireSchema.Proofs.Node.Session
import WireSchema.Proofs.Store.Bisimulation
import WireSchema.Proofs.Store.Scaffold
import WireSchema.Store.Copy

namespace WireSchema.Store

/-- How an operation that remembers no types moves a store on. -/
structure Progress (before after : Store) : Prop where
  sound : after.Sound
  grown : before.Extends after
  built : ∀ {entry handle}, after.built.get? entry = some handle →
    before.built.get? entry = some handle

theorem Progress.refl {store : Store} (h : store.Sound) : Progress store store :=
  ⟨h, .refl store, fun h => h⟩

theorem Progress.trans {s t u : Store} (h : Progress s t) (h' : Progress t u) : Progress s u :=
  ⟨h'.sound, h.grown.trans h'.grown, fun hget => h.built (h'.built hget)⟩

/-- What is written inline in a graph comes to an end if it does in another that
describes the same. -/
theorem acc_of_bisimilar {source target : Store} {a b : Handle} (hacc : Acc source.Inlines a)
    (h : source.Bisimilar a target b) : Acc target.Inlines b := by
  induction hacc generalizing b with
  | intro parent _ ih =>
      refine ⟨_, fun child hinlines => ?_⟩
      obtain ⟨y, hy, hinline, hchild⟩ := hinlines
      obtain ⟨x, hx, hsimilar⟩ := h.unfold.exists_left hy
      obtain ⟨below, hbelow, hagree⟩ := hsimilar.exists_left hchild
      exact ih below ⟨x, hx, hsimilar.isByReference_eq.trans hinline, hbelow⟩ hagree

/-- Older nodes describe the same graphs in a store that has been extended. -/
theorem Bisimilar.restrict {source base target : Store} {a b : Handle}
    (h : source.Bisimilar a target b) (hbase : base.Regular) (hextends : base.Extends target)
    (hlt : b < base.size) : source.Bisimilar a base b := by
  apply Alike.restrict (P := (· < base.size)) h hlt fun _ _ _ h => h
  intro handle node hlt hnode
  have hold : base.node? handle = some node := (hextends.node?_eq hlt).symm.trans hnode
  exact ⟨hold, hbase.children_lt hold⟩

/-- What describes a graph still does in a store that has been extended. -/
theorem Bisimilar.extend {source base target : Store} {a b : Handle}
    (h : source.Bisimilar a base b) (hextends : base.Extends target) :
    source.Bisimilar a target b :=
  h.mono (fun _ _ h => h) fun _ _ => hextends.node?_of

namespace Copying

variable {source base : Store} {opened : List Handle} {s t : Copying} {handle : Handle}

/-- The receiving store with its reserved slots. -/
def scaffold (state : Copying) : Scaffold Handle :=
  ⟨state.target, state.reserved⟩

/-- The handle is the copy of the node, or the slot that waits for it. -/
def Has (state : Copying) (original copy : Handle) : Prop :=
  state.copied.get? original = some copy ∨ state.reserved.get? original = some copy

/-- What there was is still there, and what had a copy or a slot has the same. -/
structure Advances (before after : Copying) : Prop where
  scaffold : before.scaffold.Advances after.scaffold
  has : ∀ {original copy}, before.Has original copy → after.Has original copy

theorem Advances.refl (state : Copying) : Advances state state :=
  ⟨.refl _, fun h => h⟩

theorem Advances.trans {u : Copying} (h : Advances s t) (h' : Advances t u) : Advances s u :=
  ⟨h.scaffold.trans h'.scaffold, fun hhas => h'.has (h.has hhas)⟩

/-- A node that has no copy yet can get one. -/
theorem Has.insert {target : Store} {reserved : Table Handle Handle} {original copy new : Handle}
    (h : s.Has original copy) (hpending : s.copied.get? handle = none)
    (hreserved : ∀ {slot}, s.reserved.get? original = some slot →
      reserved.get? original = some slot ∨ original = handle ∧ slot = new) :
    Has ⟨target, s.copied.insert handle new, reserved⟩ original copy := by
  rcases h with hget | hget
  · refine .inl ((Table.get?_insert_of_ne _ _ ?_).trans hget)
    rintro rfl
    rw [hpending] at hget
    cases hget
  · rcases hreserved hget with hkept | ⟨rfl, rfl⟩
    · exact .inr hkept
    · exact .inl (Table.get?_insert_self _ _ _)

/-- The handle stands for a node of the source, as far as it has been copied. -/
def Depicts (source : Store) (state : Scaffold Handle) (original copy : Handle) : Prop :=
  state.Depicts Eq source.node? original copy

/-- What holds while the nodes in `opened` are being copied from `source`, on top of what
`base` had. -/
structure Valid (source base : Store) (opened : List Handle) (state : Copying) : Prop where
  scaffold : state.scaffold.Valid opened
  grown : base.Extends state.target
  built : state.target.built = base.built
  copied : ∀ {original copy}, state.copied.get? original = some copy →
    Depicts source state.scaffold original copy
  /-- Slots are reserved for nodes that are met again below themselves. -/
  recurs : ∀ {original slot}, state.reserved.get? original = some slot →
    Layering.Recurs source.node? original
  /-- Every node that has been added stands for one of the source. -/
  rooted : ∀ {copy node}, base.size ≤ copy → state.target.node? copy = some node →
    ∃ original, Depicts source state.scaffold original copy
  /-- What is still being copied has no copy yet. -/
  pending : ∀ handle ∈ opened, state.copied.get? handle = none

/-! ## What copying keeps -/

/-- No node of the store describes the same graph. -/
def Unmatched (source base : Store) (handle : Handle) : Prop :=
  ∀ old, ¬ source.Bisimilar handle base old

/-- What leads to a node that nothing describes is described by nothing. -/
theorem Unmatched.of_below {above : Handle} (h : Unmatched source base handle)
    (hbelow : Relation.ReflTransGen (Layering.Below source.node?) handle above) :
    Unmatched source base above := by
  induction hbelow with
  | refl => exact h
  | tail _ hchild ih =>
      obtain ⟨node, hnode, hmem⟩ := hchild
      intro old hsame
      obtain ⟨y, -, hsimilar⟩ := hsame.unfold.exists_right hnode
      obtain ⟨other, -, hother⟩ := hsimilar.exists_right hmem
      exact ih other hother

/-- The node is about to be stored as the first copy of the original, over what its children
have become.  Nodes that are referred to by id are stored only where there was no equivalent
one. -/
structure Closing (source base : Store) (Within : Handle → Prop) (handle : Handle)
    (node : Node Name Handle) (state : Copying) : Prop where
  within : Within handle
  pending : state.copied.get? handle = none
  unmatched : node.isByReference = true → Unmatched source base handle
  layer : ∃ original, source.node? handle = some original ∧ original.Lift state.Has node

/-- The steps of copying keep the property, when everything that is copied lies within a part
of the source that is closed downwards. -/
structure Maintains (source base : Store) (Within : Handle → Prop) (Keeps : Copying → Prop) :
    Prop where
  child : ∀ {parent child}, Within parent → Layering.Below source.node? child parent →
    Within child
  reserve : ∀ {s handle}, Unmatched source base handle → s.reserved.get? handle = none →
    Keeps s → Keeps { s with
      target := s.target.reserve.2
      reserved := s.reserved.insert handle s.target.size }
  settle : ∀ {s handle original copy}, Within handle → source.node? handle = some original →
    existing? source handle original s.target = some copy → s.copied.get? handle = none →
      Keeps s → Keeps { s with copied := s.copied.insert handle copy }
  intern : ∀ {s handle node}, Closing source base Within handle node s → s.target.Regular →
    Keeps s → Keeps { s with
      target := (s.target.intern node).2
      copied := s.copied.insert handle (s.target.intern node).1 }
  fill : ∀ {before s handle slot node}, Closing source base Within handle node s →
    Keeps before → before.target.size ≤ slot → Keeps s →
      s.reserved.get? handle = some slot → slot < s.target.size → s.target.node? slot = none →
        ¬ Layering.Finite (s.target.fill slot node).node? slot → Keeps { s with
          target := s.target.fill slot node
          reserved := s.reserved.erase handle
          copied := s.copied.insert handle slot }

/-- Copying keeps what the steps of every construction keep. -/
theorem maintains_of_store {Keeps : Store → Prop} (h : Store.Maintains Keeps) :
    Maintains source base (fun _ => True) fun s => Keeps s.target where
  child _ _ := trivial
  reserve _ _ hkept := h.reserve hkept
  settle _ _ _ _ hkept := hkept
  intern _ hregular hkept := h.intern _ hregular hkept
  fill _ hbefore hle hkept _ hlt hempty hcycle := h.fill _ hbefore hle hkept hlt hempty hcycle

/-- What is kept each on its own is kept together. -/
theorem Maintains.and {Keeps Keeps' : Copying → Prop} {Within : Handle → Prop}
    (h : Maintains source base Within Keeps) (h' : Maintains source base Within Keeps') :
    Maintains source base Within fun s => Keeps s ∧ Keeps' s where
  child := h.child
  reserve hunmatched hnone hkept :=
    ⟨h.reserve hunmatched hnone hkept.1, h'.reserve hunmatched hnone hkept.2⟩
  settle hwithin hnode hexisting hpending hkept :=
    ⟨h.settle hwithin hnode hexisting hpending hkept.1,
      h'.settle hwithin hnode hexisting hpending hkept.2⟩
  intern hclosing hregular hkept :=
    ⟨h.intern hclosing hregular hkept.1, h'.intern hclosing hregular hkept.2⟩
  fill hclosing hbefore hle hkept hslot hlt hempty hcycle :=
    ⟨h.fill hclosing hbefore.1 hle hkept.1 hslot hlt hempty hcycle,
      h'.fill hclosing hbefore.2 hle hkept.2 hslot hlt hempty hcycle⟩

/-- Where no node can stand for the original without copying, no earlier node describes the
same graph. -/
theorem unmatched_of_existing?_eq_none {original : Node Name Handle}
    (h : existing? source handle original s.target = none) (hgrown : base.Extends s.target)
    (horiginal : source.node? handle = some original) (hreference : original.isByReference = true) :
    Unmatched source base handle := by
  intro old hsame
  obtain ⟨y, hy, hsimilar⟩ := hsame.unfold.exists_right horiginal
  have hsame' : source.Bisimilar handle s.target old := hsame.extend hgrown
  have hold := hgrown.node?_of hy
  have hcandidate : (old, y) ∈ s.target.finished := by
    refine List.mem_filterMap.2 ⟨old, List.mem_range.2 (lt_size_of_node? hold), ?_⟩
    rw [hold]
    rfl
  rw [existing?, if_pos hreference, firstEquivalent?, horiginal] at h
  refine List.find?_eq_none.1 h old (List.mem_map.2 ⟨(old, y), ?_, rfl⟩)
    (equivalent_eq_true_iff.2 hsame')
  exact List.mem_filter.2 ⟨hcandidate, decide_eq_true hsimilar.kind_eq.symm⟩

/-! ## The steps -/

variable {Within : Handle → Prop} {Keeps : Copying → Prop}

/-- Copying on top of `base` while the nodes in `opened` are open, with what its steps keep.
It cannot fail. -/
def session (source base : Store) (Keeps : Copying → Prop) (opened : List Handle) :
    Session Copying where
  Valid s := Valid source base opened s ∧ Keeps s
  Step := Advances
  Fails _ _ := False
  refl _ := .refl _
  trans h h' := h.trans h'
  fails_of_step _ _ _ h := h

theorem Valid.opening (h : Valid source base opened s) (hnone : s.copied.get? handle = none) :
    Valid source base (handle :: opened) s :=
  { h with
    scaffold := h.scaffold.opening handle
    pending := List.forall_mem_cons.2 ⟨hnone, h.pending⟩ }

theorem Valid.closing (h : Valid source base (handle :: opened) s)
    (hnone : s.reserved.get? handle = none) : Valid source base opened s :=
  { h with
    scaffold := h.scaffold.closing hnone
    pending := (List.forall_mem_cons.1 h.pending).2 }

/-- Remembering what a handle stands for. -/
theorem Valid.settle (h : Valid source base opened s) (hclosed : handle ∉ opened) {copy : Handle}
    (hdepicts : Depicts source s.scaffold handle copy) :
    Valid source base opened { s with copied := s.copied.insert handle copy } where
  scaffold := h.scaffold
  grown := h.grown
  built := h.built
  copied hget := by
    rcases Table.get?_insert_eq_some_iff.1 hget with ⟨rfl, rfl⟩ | ⟨-, hget⟩
    · exact hdepicts
    · exact h.copied hget
  recurs := h.recurs
  rooted := h.rooted
  pending other hother := by
    rw [Table.get?_insert_of_ne _ _ (ne_of_mem_of_not_mem hother hclosed)]
    exact h.pending other hother

/-- The node gets a slot. -/
theorem Valid.reserve (h : Valid source base opened s) (hopen : handle ∈ opened)
    (hnone : s.reserved.get? handle = none) (hrecurs : Layering.Recurs source.node? handle) :
    Valid source base opened { s with
      target := s.target.reserve.2
      reserved := s.reserved.insert handle s.target.size } := by
  have hstep : s.scaffold.Advances ⟨s.target.reserve.2,
      s.reserved.insert handle s.target.size⟩ := .reserve hnone
  refine ⟨h.scaffold.reserve hopen hnone, h.grown.trans hstep.grown, h.built, ?_, ?_, ?_,
    h.pending⟩
  · intro original copy hget
    exact (h.copied hget).advance hstep
  · intro original slot hget
    rcases Table.get?_insert_eq_some_iff.1 hget with ⟨rfl, -⟩ | ⟨-, hget⟩
    · exact hrecurs
    · exact h.recurs hget
  · intro copy node hle hnode
    obtain ⟨original, hdepicts⟩ := h.rooted hle ((node?_reserve s.target copy).symm.trans hnode)
    exact ⟨original, hdepicts.advance hstep⟩

/-- The copy of a node that has no slot is stored. -/
theorem Valid.intern (h : Valid source base (handle :: opened) s)
    (hnone : s.reserved.get? handle = none) {original node : Node Name Handle}
    (horiginal : source.node? handle = some original)
    (hsimilar : original.Similar (Depicts source s.scaffold) node) (harranged : node.Arranged) :
    Valid source base opened { s with target := (s.target.intern node).2 } := by
  have hstep : s.scaffold.Advances ⟨(s.target.intern node).2, s.reserved⟩ :=
    .of_extends (extends_intern h.scaffold.regular node)
  have hchildren := Scaffold.lt_size_of_similar h.scaffold hsimilar
  refine ⟨(h.closing hnone).scaffold.intern hchildren harranged, h.grown.trans hstep.grown,
    (built_intern s.target node).trans h.built, ?_, h.recurs, ?_,
    (List.forall_mem_cons.1 h.pending).2⟩
  · intro original copy hget
    exact (h.copied hget).advance hstep
  · intro copy found hle hfound
    rcases eq_or_of_node?_intern h.scaffold.regular hfound with rfl | hfound'
    · exact ⟨handle, Scaffold.depicts_intern h.scaffold horiginal hsimilar⟩
    · obtain ⟨original, horiginal⟩ := h.rooted hle hfound'
      exact ⟨original, horiginal.advance hstep⟩

/-- The copy of a node that has a slot is put there. -/
theorem Valid.fill (h : Valid source base (handle :: opened) s) {slot : Handle}
    (hslot : s.reserved.get? handle = some slot) (hbase : base.size ≤ slot)
    {original node : Node Name Handle} (horiginal : source.node? handle = some original)
    (hsimilar : original.Similar (Depicts source s.scaffold) node) (harranged : node.Arranged) :
    Valid source base opened { s with
      target := s.target.fill slot node
      reserved := s.reserved.erase handle } ∧
    Depicts source ⟨s.target.fill slot node, s.reserved.erase handle⟩ handle slot := by
  have hfill : ∀ {a b}, Depicts source s.scaffold a b →
      Depicts source ⟨s.target.fill slot node, s.reserved.erase handle⟩ a b := by
    intro a b hdepicts
    apply Scaffold.Depicts.fill hdepicts h.scaffold hslot
    rintro other rfl
    exact ⟨original, horiginal, hsimilar⟩
  have hdepicts := hfill (Alike.of_promised ⟨handle, rfl, hslot⟩)
  have hlt := h.scaffold.lt_size hslot
  have hchildren := Scaffold.lt_size_of_similar h.scaffold hsimilar
  refine ⟨⟨h.scaffold.fill hslot hchildren harranged, h.grown.fill hbase hlt node, h.built,
    ?_, ?_, ?_, (List.forall_mem_cons.1 h.pending).2⟩, hdepicts⟩
  · intro original copy hget
    exact hfill (h.copied hget)
  · intro original other hget
    exact h.recurs (Table.get?_erase_eq_some_iff.1 hget).2
  · intro copy found hle hfound
    rcases eq_or_of_node?_fill hlt hfound with ⟨rfl, -⟩ | hfound'
    · exact ⟨handle, hdepicts⟩
    · obtain ⟨original, horiginal⟩ := h.rooted hle hfound'
      exact ⟨original, hfill horiginal⟩

/-- A node that is met again gets the slot that is reserved for its copy. -/
theorem slotFor_runs (hkeeps : Maintains source base Within Keeps)
    (hs : Valid source base opened s) (hkept : Keeps s) (hopen : handle ∈ opened)
    (hrecurs : Layering.Recurs source.node? handle) (hunmatched : Unmatched source base handle) :
    (session source base Keeps opened).Runs s (slotFor handle s) fun copy t =>
      Depicts source t.scaffold handle copy ∧ t.Has handle copy := by
  unfold slotFor
  split
  next slot hslot =>
    exact ⟨⟨hs, hkept⟩, .refl _, Alike.of_promised ⟨handle, rfl, hslot⟩, .inr hslot⟩
  next hnone =>
    have hstep : s.scaffold.Advances ⟨s.target.reserve.2,
        s.reserved.insert handle s.target.size⟩ := .reserve hnone
    have hslot : (s.reserved.insert handle s.target.size).get? handle = some s.target.size :=
      Table.get?_insert_self _ _ _
    exact ⟨⟨hs.reserve hopen hnone hrecurs, hkeeps.reserve hunmatched hnone hkept⟩,
      ⟨hstep, fun hhas => hhas.imp_right hstep.kept⟩,
      Alike.of_promised ⟨handle, rfl, hslot⟩, .inr hslot⟩

/-- Closing a node whose children have been copied. -/
theorem close_runs {original node : Node Name Handle}
    (hkeeps : Maintains source base Within Keeps) (hwithin : Within handle)
    (hs : Valid source base opened s) (hkept : Keeps s)
    (ht : Valid source base (handle :: opened) t) (hkept' : Keeps t)
    (hstep : s.Advances t) (hclosed : handle ∉ opened)
    (horiginal : source.node? handle = some original) (harranged : original.Arranged)
    (hunmatched : original.isByReference = true → Unmatched source base handle)
    (hlift : original.Lift (Depicts source t.scaffold) node) (hlayer : original.Lift t.Has node) :
    Ends (close handle node t)
      (fun copy u => (Valid source base opened u ∧ Keeps u) ∧ s.Advances u ∧
        Depicts source u.scaffold handle copy ∧ u.Has handle copy)
      fun _ _ => False := by
  have hsimilar : original.Similar (Depicts source t.scaffold) node := .of_lift hlift
  have harranged' : node.Arranged := by
    rw [Node.Arranged, ← hlift.names_eq]
    exact harranged
  have hpending := (List.forall_mem_cons.1 ht.pending).1
  have hclosing : Closing source base Within handle node t :=
    ⟨hwithin, hpending, fun hreference => hunmatched (hlift.isByReference_eq.trans hreference),
      original, horiginal, hlayer⟩
  unfold close
  split
  next hnone =>
    have hintern : t.scaffold.Advances ⟨(t.target.intern node).2, t.reserved⟩ :=
      .of_extends (extends_intern ht.scaffold.regular node)
    have hdepicts : Depicts source ⟨(t.target.intern node).2, t.reserved⟩ handle
        (t.target.intern node).1 :=
      Scaffold.depicts_intern ht.scaffold horiginal hsimilar
    have hvalid := ht.intern hnone horiginal hsimilar harranged'
    exact ⟨⟨hvalid.settle hclosed hdepicts,
      hkeeps.intern hclosing ht.scaffold.regular hkept'⟩,
      ⟨hstep.scaffold.trans hintern, fun hhas => (hstep.has hhas).insert hpending .inl⟩,
      hdepicts, .inl (Table.get?_insert_self _ _ _)⟩
  next slot hslot =>
    have hnew := hs.scaffold.not_reserved hclosed
    have hbelow := hstep.scaffold.size_le_slot hnew hslot
    obtain ⟨hvalid, hdepicts⟩ := ht.fill hslot (hs.grown.size_le.trans hbelow) horiginal hsimilar
      harranged'
    have hkept'' := hkeeps.fill hclosing hkept hbelow hkept' hslot (ht.scaffold.lt_size hslot)
      (ht.scaffold.pending hslot) (hdepicts.not_finite hvalid.scaffold (ht.recurs hslot))
    refine ⟨⟨hvalid.settle hclosed hdepicts, hkept''⟩,
      ⟨hstep.scaffold.fill ht.scaffold hnew hslot node, fun {other _} hhas => ?_⟩, hdepicts,
      .inl (Table.get?_insert_self _ _ _)⟩
    refine (hstep.has hhas).insert hpending fun hget => ?_
    by_cases heq : other = handle
    · subst heq
      exact .inr ⟨rfl, Option.some.inj (hget.symm.trans hslot)⟩
    · exact .inl ((Table.get?_erase_of_ne _ heq).trans hget)

/-- What can stand for a node without copying describes the same graph. -/
theorem bisimilar_of_existing? {target : Store} {node : Node Name Handle} {copy : Handle}
    (h : existing? source handle node target = some copy) :
    source.Bisimilar handle target copy := by
  unfold existing? at h
  split at h
  · exact (bisimilar_of_firstEquivalent? h).2
  · cases h

/-- An open node leads to the one that is being copied.  Nothing older describes the open node,
or everything on the way is written inline. -/
structure Leads (source base : Store) (above handle : Handle) : Prop where
  below : Relation.TransGen (Layering.Below source.node?) handle above
  unmatched : Unmatched source base above ∨ Relation.TransGen source.Inlines handle above

theorem Leads.child {above child : Handle} {node : Node Name Handle}
    (h : Leads source base above handle) (hnode : source.node? handle = some node)
    (hunmatched : node.isByReference = true → Unmatched source base handle)
    (hchild : child ∈ node.children) : Leads source base above child where
  below := .head ⟨node, hnode, hchild⟩ h.below
  unmatched := by
    rcases h.unmatched with habove | hinline
    · exact .inl habove
    · cases hreference : node.isByReference with
      | true => exact .inl ((hunmatched hreference).of_below h.below.to_reflTransGen)
      | false => exact .inr (.head ⟨node, hnode, hreference, hchild⟩ hinline)

theorem leads_child {child : Handle} {node : Node Name Handle}
    (hnode : source.node? handle = some node)
    (hunmatched : node.isByReference = true → Unmatched source base handle)
    (hchild : child ∈ node.children) : Leads source base handle child where
  below := .single ⟨node, hnode, hchild⟩
  unmatched := by
    cases hreference : node.isByReference with
    | true => exact .inl (hunmatched hreference)
    | false => exact .inr (.single ⟨node, hnode, hreference, hchild⟩)

/-- Every way from a node back to itself passes through one that nothing older describes. -/
theorem Leads.unmatched_self (h : Leads source base handle handle) (hsource : source.Sound) :
    Unmatched source base handle :=
  h.unmatched.resolve_right fun hcycle =>
    hsource.grounded.transGen.asymmetric handle handle hcycle hcycle

end Copying

open Copying in
/-- What holds however copying a node ends, by the ways in which it goes. -/
theorem ends_copyNode {source : Store} {opened : List Handle} {handle : Handle} {s : Copying}
    {ok : Handle → Copying → Prop} {error : Error → Copying → Prop}
    (hcopied : ∀ copy, s.copied.get? handle = some copy → ok copy s)
    (hopen : s.copied.get? handle = none → handle ∈ opened → Ends (slotFor handle s) ok error)
    (hunknown : source.node? handle = none → error (.unknownNode handle) s)
    (hexisting : ∀ node copy, s.copied.get? handle = none → handle ∉ opened →
      source.node? handle = some node → existing? source handle node s.target = some copy →
        Ends (settle handle copy s) ok error)
    (hnode : ∀ node, s.copied.get? handle = none → handle ∉ opened →
      source.node? handle = some node → existing? source handle node s.target = none →
        Ends (node.traverse (fun child _ => source.copyNode (handle :: opened) child) s)
          (fun copy t => Ends (close handle copy t) ok error) error) :
    Ends (source.copyNode opened handle s) ok error := by
  generalize hcopy : source.copyNode opened handle = run
  rw [copyNode] at hcopy
  obtain ⟨next, hnext, hrun⟩ := exists_run_of_get hcopy s
  rw [hrun]
  cases hget : s.copied.get? handle with
  | some copy =>
      rw [hget] at hnext
      subst hnext
      exact hcopied copy hget
  | none =>
      rw [hget] at hnext
      by_cases hopened : handle ∈ opened
      · simp only [dif_pos hopened] at hnext
        subst hnext
        exact hopen hget hopened
      simp only [dif_neg hopened] at hnext
      split at hnext
      next hnone =>
        subst hnext
        exact hunknown hnone
      next node hsome =>
        split at hnext
        next copy hfound =>
          subst hnext
          exact hexisting node copy hget hopened hsome hfound
        next hnone =>
          subst hnext
          exact ends_bind.2 (hnode node hget hopened hsome hnone)

open Copying in
/-- Copying a node of a sound store succeeds, and the copy stands for the node.  What is
being copied already leads to the node, so a node that is met again lies below itself. -/
theorem copyNode_runs {source base : Store} {Within : Handle → Prop} {Keeps : Copying → Prop}
    (hsource : source.Sound) (hkeeps : Copying.Maintains source base Within Keeps)
    (opened : List Handle) (handle : Handle) (hwithin : Within handle) (hlt : handle < source.size)
    (hpath : ∀ above ∈ opened, Leads source base above handle)
    (s : Copying) (hs : Valid source base opened s ∧ Keeps s) :
    (session source base Keeps opened).Runs s (source.copyNode opened handle s) fun copy t =>
      Depicts source t.scaffold handle copy ∧ t.Has handle copy := by
  refine ends_copyNode (fun copy hcopied => ?_) (fun _ hopened => ?_) (fun hnone => ?_)
    (fun original copy hnew hopened horiginal hexisting => ?_)
    fun original hnew hopened horiginal hnone => ?_
  · exact ⟨hs, .refl _, hs.1.copied hcopied, .inl hcopied⟩
  · have hleads := hpath handle hopened
    exact slotFor_runs hkeeps hs.1 hs.2 hopened hleads.below (hleads.unmatched_self hsource)
  · obtain ⟨node, hnode⟩ := hsource.filled hlt
    cases hnone.symm.trans hnode
  · have hdepicts : Depicts source s.scaffold handle copy :=
      (bisimilar_of_existing? hexisting).alike
    exact ⟨⟨hs.1.settle hopened hdepicts, hkeeps.settle hwithin horiginal hexisting hnew hs.2⟩,
      ⟨.refl _, fun hhas => hhas.insert hnew .inl⟩, hdepicts, .inl (Table.get?_insert_self _ _ _)⟩
  · have hsmaller := unseen_cons_lt (List.mem_range.2 hlt) hopened
    have hunmatched := unmatched_of_existing?_eq_none hnone hs.1.grown horiginal
    refine Ends.imp (Session.runs_traverse (S := session source base Keeps (handle :: opened))
      (R := fun child copy t => Depicts source t.scaffold child copy ∧ t.Has child copy)
      (fun _ _ _ _ _ hstep _ hcopy => ⟨hcopy.1.advance hstep.scaffold, hstep.has hcopy.2⟩)
      (fun child hchild t ht => copyNode_runs hsource hkeeps (handle :: opened) child
        (hkeeps.child hwithin ⟨original, horiginal, hchild⟩)
        (hsource.children_lt horiginal child hchild)
        (List.forall_mem_cons.2 ⟨leads_child horiginal hunmatched hchild,
          fun above habove => (hpath above habove).child horiginal hunmatched hchild⟩) t ht)
      ⟨hs.1.opening hnew, hs.2⟩) ?_ fun _ _ hfails => hfails
    rintro node t ⟨⟨ht, hkept⟩, hstep, hlift⟩
    exact close_runs hkeeps hwithin hs.1 hs.2 ht hkept hstep hopened horiginal
      (hsource.arranged horiginal) hunmatched (hlift.imp fun _ _ => And.left)
      (hlift.imp fun _ _ => And.right)
termination_by unseen (List.range source.size) opened
decreasing_by exact hsmaller

namespace Copying

variable {source target : Store} {handle : Handle}

theorem valid_start (htarget : target.Sound) : Valid source target [] (start target) where
  scaffold := Scaffold.Valid.start htarget fun _ => rfl
  grown := .refl target
  built := rfl
  copied hget := by cases hget
  recurs hget := by cases hget
  rooted hle hnode := by
    rw [show (start target).target = target from rfl, node?_eq_none_of_le hle] at hnode
    cases hnode
  pending := nofun

/-- When nothing is open, the receiving store is sound. -/
theorem Valid.progress {state : Copying} (hsource : source.Sound) (htarget : target.Sound)
    (h : Valid source target [] state) : Progress target state.target where
  sound := by
    refine ⟨h.scaffold.regular, fun hlt => h.scaffold.exists_node? hlt, ⟨fun copy => ?_⟩⟩
    by_cases hlt : copy < target.size
    · exact acc_of_extends htarget.toRegular h.grown (htarget.grounded.apply copy) hlt
    · cases hnode : state.target.node? copy with
      | none =>
          refine ⟨_, fun child hinlines => ?_⟩
          obtain ⟨node, hnode', -⟩ := hinlines
          rw [hnode] at hnode'
          cases hnode'
      | some node =>
          obtain ⟨original, hdepicts⟩ := h.rooted (Nat.le_of_not_lt hlt) hnode
          exact acc_of_bisimilar (hsource.grounded.apply original) (hdepicts.agree h.scaffold)
  grown := h.grown
  built hget := by
    rw [h.built] at hget
    exact hget

end Copying

section CopyFrom

variable {source target : Store} {handle : Handle}

/-- A graph of a sound store is copied into a sound store, with what the steps keep. -/
theorem exists_copyFrom {Within : Handle → Prop} {Keeps : Copying → Prop}
    (hsource : source.Sound) (htarget : target.Sound)
    (hkeeps : Copying.Maintains source target Within Keeps) (hstart : Keeps (.start target))
    (hwithin : Within handle) (hlt : handle < source.size) :
    ∃ copy state, source.copyFrom handle target = .ok copy state.target ∧
      Copying.Valid source target [] state ∧ Keeps state ∧
        state.copied.get? handle = some copy ∧ source.Bisimilar handle state.target copy := by
  have hruns := copyNode_runs hsource hkeeps [] handle hwithin hlt nofun (Copying.start target)
    ⟨Copying.valid_start htarget, hstart⟩
  unfold copyFrom
  cases hcopy : source.copyNode [] handle (Copying.start target) with
  | error error state =>
      rw [hcopy] at hruns
      exact hruns.elim
  | ok copy state =>
      rw [hcopy] at hruns
      obtain ⟨⟨hvalid, hkept⟩, -, hdepicts, hhas⟩ := hruns
      have hcopied : state.copied.get? handle = some copy := hhas.resolve_right fun hget => by
        cases (hvalid.scaffold.get?_eq_none handle).symm.trans hget
      exact ⟨copy, state, rfl, hvalid, hkept, hcopied, hdepicts.agree hvalid.scaffold⟩

/-- Where there is no node there is nothing to copy, and nothing changes. -/
theorem copyFrom_of_size_le (hle : source.size ≤ handle) :
    source.copyFrom handle target = .error (.unknownNode handle) target := by
  have hnode : ∀ node, source.node? handle ≠ some node := by
    intro node hnode
    cases (node?_eq_none_of_le hle).symm.trans hnode
  have hends : Ends (source.copyNode [] handle (Copying.start target)) (fun _ _ => False)
      fun error state => error = .unknownNode handle ∧ state = .start target :=
    ends_copyNode (fun _ => nofun) (fun _ => nofun) (fun _ => ⟨rfl, rfl⟩)
      (fun node _ _ _ hsome _ => absurd hsome (hnode node))
      fun node _ _ hsome _ => absurd hsome (hnode node)
  unfold copyFrom
  cases hcopy : source.copyNode [] handle (Copying.start target) with
  | ok copy state =>
      rw [hcopy] at hends
      exact hends.elim
  | error error state =>
      rw [hcopy] at hends
      obtain ⟨rfl, rfl⟩ := hends
      exact congrArg _ (if_pos (Nat.le_refl _))

/-- Copying from a sound store fails only if there is no node to copy. -/
theorem copyFrom_ends (hsource : source.Sound) (htarget : target.Sound) (handle : Handle) :
    Ends (source.copyFrom handle target)
      (fun copy t => Progress target t ∧ source.Bisimilar handle t copy)
      fun error t => t = target ∧ source.size ≤ handle ∧ error = .unknownNode handle := by
  rcases Nat.lt_or_ge handle source.size with hlt | hle
  · obtain ⟨copy, state, hcopy, hvalid, -, -, hsame⟩ := exists_copyFrom hsource htarget
      (Copying.maintains_of_store maintains_true) trivial trivial hlt
    rw [hcopy]
    exact ⟨hvalid.progress hsource htarget, hsame⟩
  · rw [copyFrom_of_size_le hle]
    exact ⟨rfl, hle, rfl⟩

end CopyFrom

end WireSchema.Store
