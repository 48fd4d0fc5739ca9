/-
# Copying a graph again

The copies of a graph are found when the graph is copied again, if nodes that had no
counterpart before describe different graphs (`copyFrom_again`).  That is so when the graph
was there before, so copying changes nothing from the second time on.
-/

import WireSchema.Proofs.Store.FindsItself

namespace WireSchema.Store

variable {source base target : Store} {root a b c : Handle}

/-- Nodes at or below the root that go on for ever and that the target does not describe yet
describe different graphs. -/
def NewOnce (source : Store) (root : Handle) (target : Store) : Prop :=
  ∀ a b, source.Below root a → source.Below root b → ¬ Layering.Finite source.node? a →
    Copying.Unmatched source target a → source.Bisimilar a source b → a = b

theorem NewOnce.eq (h : source.NewOnce root target) (hfrugal : source.Frugal)
    (ha : source.Below root a) (hb : source.Below root b)
    (hunmatched : Copying.Unmatched source target a) (hsame : source.Bisimilar a source b) :
    a = b := by
  by_cases hfinite : Layering.Finite source.node? a
  · exact hfrugal.eq_of_bisimilar hfinite hsame
  · exact h a b ha hb hfinite hunmatched hsame

/-- Where a graph is described already, all of it is. -/
theorem newOnce_of_bisimilar (h : source.Bisimilar root target b) : source.NewOnce root target := by
  intro a _ ha _ _ hunmatched
  exact absurd h (hunmatched.of_below ha.swap b)

theorem newOnce_of_finite (h : Layering.Finite source.node? root) (target : Store) :
    source.NewOnce root target :=
  fun _ _ ha _ hendless => absurd (ha.finite h) hendless

theorem IsFirst.restrict (h : source.IsFirst a target b) (hbase : base.Regular)
    (hextends : base.Extends target) (hmatched : ¬ Copying.Unmatched source base a) :
    source.IsFirst a base b := by
  obtain ⟨old, hold⟩ := not_forall_not.1 hmatched
  obtain ⟨x, y, -, hy, -⟩ := hold.unfold
  have hlt := Nat.lt_of_le_of_lt (h.le old (hold.extend hextends)) (lt_size_of_node? hy)
  exact ⟨h.same.restrict hbase hextends hlt,
    fun other hother => h.le other (hother.extend hextends)⟩

theorem IsFirst.extend (h : source.IsFirst a base b) (hbase : base.Regular)
    (hextends : base.Extends target) : source.IsFirst a target b where
  same := h.same.extend hextends
  le other hother := by
    obtain ⟨x, y, -, hy, -⟩ := h.same.unfold
    rcases Nat.lt_or_ge other base.size with hlt | hle
    · exact h.le other (hother.restrict hbase hextends hlt)
    · exact Nat.le_of_lt (Nat.lt_of_lt_of_le (lt_size_of_node? hy) hle)

namespace Copying

/-- Where the copies have come from.  Nodes that are referred to by id were copied only if
nothing described them, and got the first node of the same graph otherwise; a node that is
written inline is in the index, unless a slot was reserved for it. -/
structure Tracked (source base : Store) (Within : Handle → Prop) (s : Copying) : Prop where
  grown : base.Extends s.target
  unmatched : ∀ {a slot}, s.reserved.get? a = some slot → Unmatched source base a
  within : ∀ {a c}, s.copied.get? a = some c → Within a
  origin : ∀ {c node}, base.size ≤ c → s.target.node? c = some node →
    ∃ a, s.copied.get? a = some c
  first : ∀ {a c}, s.copied.get? a = some c → source.Referred a →
    Unmatched source base a ∨ source.IsFirst a base c
  layer : ∀ {a c node}, s.copied.get? a = some c → source.node? a = some node →
    node.isByReference = false → ∃ copy, node.Lift s.Has copy ∧
      (s.target.index.get? copy.key = some c ∨ Unmatched source base a ∧
        ∃ stored, s.target.node? c = some stored ∧ stored.key = copy.key)

variable {Within : Handle → Prop} {s : Copying} {handle slot copy : Handle}
variable {node : Node Name Handle}

theorem tracked_start (source target : Store) (Within : Handle → Prop) :
    Tracked source target Within (start target) where
  grown := .refl target
  unmatched := nofun
  within := nofun
  origin hle hnode := absurd (lt_size_of_node? hnode) (Nat.not_lt_of_le hle)
  first := nofun
  layer := nofun

theorem Tracked.reserve (h : Tracked source base Within s)
    (hunmatched : Unmatched source base handle) (hnone : s.reserved.get? handle = none) :
    Tracked source base Within { s with
      target := s.target.reserve.2
      reserved := s.reserved.insert handle s.target.size } where
  grown := h.grown.trans (extends_reserve _)
  unmatched hget := by
    rcases Table.get?_insert_eq_some_iff.1 hget with ⟨rfl, -⟩ | ⟨-, hget⟩
    · exact hunmatched
    · exact h.unmatched hget
  within := h.within
  origin hle hnode := h.origin hle ((node?_reserve _ _).symm.trans hnode)
  first := h.first
  layer hget hnode hinline := by
    have hstep : s.scaffold.Advances ⟨s.target.reserve.2,
        s.reserved.insert handle s.target.size⟩ := .reserve hnone
    obtain ⟨copy, hlift, hstored⟩ := h.layer hget hnode hinline
    refine ⟨copy, hlift.imp fun _ _ hhas => hhas.imp_right hstep.kept, hstored.imp_right ?_⟩
    rintro ⟨hnew, stored, hstored, hkey⟩
    exact ⟨hnew, stored, (node?_reserve _ _).trans hstored, hkey⟩

/-- The parts of `Tracked` about what is remembered, when one more copy is. -/
theorem Tracked.insert {after : Store} {reserved : Table Handle Handle}
    (h : Tracked source base Within s) (hwithin : Within handle)
    (hpending : s.copied.get? handle = none) (hgrown : base.Extends after)
    (hreserved : ∀ {a slot}, reserved.get? a = some slot → s.reserved.get? a = some slot)
    (hkept : ∀ {a slot}, s.reserved.get? a = some slot →
      reserved.get? a = some slot ∨ a = handle ∧ slot = copy)
    (hindex : ∀ {key c}, s.target.index.get? key = some c → after.index.get? key = some c)
    (hnode : ∀ {c node}, s.target.node? c = some node → after.node? c = some node)
    (horigin : ∀ {c node}, after.node? c = some node → c = copy ∨ s.target.node? c = some node)
    (hfirst : source.Referred handle → Unmatched source base handle ∨
      source.IsFirst handle base copy)
    (hlayer : ∀ {node}, source.node? handle = some node → node.isByReference = false →
      ∃ layer, node.Lift s.Has layer ∧ (after.index.get? layer.key = some copy ∨
        Unmatched source base handle ∧
          ∃ stored, after.node? copy = some stored ∧ stored.key = layer.key)) :
    Tracked source base Within ⟨after, s.copied.insert handle copy, reserved⟩ where
  grown := hgrown
  unmatched hget := h.unmatched (hreserved hget)
  within hget := by
    rcases Table.get?_insert_eq_some_iff.1 hget with ⟨rfl, -⟩ | ⟨-, hget⟩
    · exact hwithin
    · exact h.within hget
  origin hle hstored := by
    rcases horigin hstored with rfl | hold
    · exact ⟨handle, Table.get?_insert_self _ _ _⟩
    · obtain ⟨a, hget⟩ := h.origin hle hold
      refine ⟨a, (Table.get?_insert_of_ne _ _ ?_).trans hget⟩
      rintro rfl
      rw [hpending] at hget
      cases hget
  first hget hreferred := by
    rcases Table.get?_insert_eq_some_iff.1 hget with ⟨rfl, rfl⟩ | ⟨-, hget⟩
    · exact hfirst hreferred
    · exact h.first hget hreferred
  layer hget hsource hinline := by
    have hhas : ∀ {original copy}, s.Has original copy →
        Has ⟨after, s.copied.insert handle _, reserved⟩ original copy := fun hhas =>
      hhas.insert hpending hkept
    rcases Table.get?_insert_eq_some_iff.1 hget with ⟨rfl, rfl⟩ | ⟨-, hget⟩
    · obtain ⟨layer, hlift, hstored⟩ := hlayer hsource hinline
      exact ⟨layer, hlift.imp fun _ _ => hhas, hstored⟩
    · obtain ⟨layer, hlift, hstored⟩ := h.layer hget hsource hinline
      refine ⟨layer, hlift.imp fun _ _ => hhas, hstored.imp hindex ?_⟩
      rintro ⟨hnew, stored, hstored, hkey⟩
      exact ⟨hnew, stored, hnode hstored, hkey⟩

/-- A node that is closed was described by nothing if it is referred to by id. -/
theorem Closing.first (h : Closing source base Within handle node s)
    (hreferred : source.Referred handle) :
    Unmatched source base handle := by
  obtain ⟨original, horiginal, hlift⟩ := h.layer
  obtain ⟨node', hnode', hreference⟩ := hreferred
  cases horiginal.symm.trans hnode'
  exact h.unmatched (hlift.isByReference_eq.symm.trans hreference)

theorem maintains_tracked (hbase : base.Regular)
    (hchild : ∀ {parent child}, Within parent → source.IsChild parent child → Within child) :
    Maintains source base Within (Tracked source base Within) where
  child := hchild
  reserve hunmatched hnone h := h.reserve hunmatched hnone
  settle {s handle original copy} hwithin horiginal hexisting hpending h := by
    have hreference : original.isByReference = true := by
      by_contra hinline
      rw [existing?, if_neg hinline] at hexisting
      cases hexisting
    refine h.insert hwithin hpending h.grown id .inl id id .inr (fun _ => ?_)
      fun hnode hinline => ?_
    · by_cases hmatched : Unmatched source base handle
      · exact .inl hmatched
      · exact .inr (((existing?_eq_some_iff horiginal hreference).1 hexisting).restrict hbase
          h.grown hmatched)
    · cases horiginal.symm.trans hnode
      cases hreference.symm.trans hinline
  intern {s handle node} hclosing hregular h := by
    have hextends := extends_intern hregular node
    refine h.insert hclosing.within hclosing.pending (h.grown.trans hextends) id .inl
      hextends.index_of hextends.node?_of (eq_or_of_node?_intern hregular)
      (fun hreferred => .inl (hclosing.first hreferred)) fun hnode _ => ?_
    obtain ⟨original, horiginal, hlift⟩ := hclosing.layer
    cases horiginal.symm.trans hnode
    exact ⟨node, hlift, .inl (index_intern s.target node)⟩
  fill {before s handle slot node} hclosing hbefore hle h hslot hlt hempty _ := by
    have hgrown := h.grown.fill (hbefore.grown.size_le.trans hle) hlt node
    refine h.insert hclosing.within hclosing.pending hgrown
      (fun hget => (Table.get?_erase_eq_some_iff.1 hget).2) (fun {a found} hget => ?_)
      (fun {key found} hget => ?_) (fun hnode => node?_fill_of_eq_some hlt hempty hnode node)
      (fun hnode => (eq_or_of_node?_fill hlt hnode).imp_left And.left)
      (fun hreferred => .inl (hclosing.first hreferred)) fun hnode _ => ?_
    · by_cases heq : a = handle
      · subst heq
        exact .inr ⟨rfl, Option.some.inj (hget.symm.trans hslot)⟩
      · exact .inl ((Table.get?_erase_of_ne _ heq).trans hget)
    · refine (Table.get?_insertIfNew _ _ _ _).trans ?_
      split
      next heq =>
        rw [← heq, hget]
        rfl
      next => exact hget
    · obtain ⟨original, horiginal, hlift⟩ := hclosing.layer
      cases horiginal.symm.trans hnode
      exact ⟨node, hlift, .inr ⟨h.unmatched hslot, node, node?_fill_self hlt node, rfl⟩⟩

section Settled

variable {state : Copying}

/-- What describes a node that nothing described before is what the node has been copied to. -/
theorem Tracked.eq_of_bisimilar (h : Tracked source base (source.Below root) state)
    (hvalid : Valid source base [] state) (hbase : base.Regular) (hfrugal : source.Frugal)
    (hnew : source.NewOnce root base) (hget : state.copied.get? a = some c)
    (hunmatched : Unmatched source base a)
    (hsame : source.Bisimilar a state.target b) : b = c := by
  have hle : base.size ≤ b :=
    Nat.le_of_not_lt fun hlt => hunmatched b (hsame.restrict hbase h.grown hlt)
  obtain ⟨x, y, -, hy, -⟩ := hsame.unfold
  obtain ⟨original, horiginal⟩ := h.origin hle hy
  have hsame' : source.Bisimilar original state.target b :=
    (hvalid.copied horiginal).agree hvalid.scaffold
  obtain rfl : a = original :=
    hnew.eq hfrugal (h.within hget) (h.within horiginal) hunmatched (hsame.trans hsame'.symm)
  exact Option.some.inj (horiginal.symm.trans hget)

/-- In the end every copy is found for the node that it was made of. -/
theorem Tracked.settled (h : Tracked source base (source.Below root) state)
    (hvalid : Valid source base [] state) (hbase : base.Regular) (hfrugal : source.Frugal)
    (hnew : source.NewOnce root base) :
    source.Settled state.target fun a c => state.copied.get? a = some c := by
  intro a c hget
  have hsame : source.Bisimilar a state.target c := (hvalid.copied hget).agree hvalid.scaffold
  obtain ⟨node, stored, hnode, hstored, hsimilar⟩ := hsame.unfold
  cases hreference : node.isByReference with
  | true =>
      refine .reference hnode hreference ?_
      rcases h.first hget ⟨node, hnode, hreference⟩ with hunmatched | hfirst
      · refine ⟨hsame, fun other hother => Nat.le_of_eq ?_⟩
        exact (h.eq_of_bisimilar hvalid hbase hfrugal hnew hget hunmatched hother).symm
      · exact hfirst.extend hbase h.grown
  | false =>
      obtain ⟨layer, hlift, hplace⟩ := h.layer hget hnode hreference
      have hcopied : node.Lift (fun child copy => state.copied.get? child = some copy) layer :=
        hlift.imp fun child copy hhas => hhas.resolve_right fun hslot => by
          cases (hvalid.scaffold.get?_eq_none child).symm.trans hslot
      refine .inline hnode hreference hcopied ?_
      rcases hplace with hindex | ⟨hunmatched, stored', hstored', hkey⟩
      · exact hindex
      · -- An equal node that is in the index describes the node too, so it is the copy.
        cases hstored.symm.trans hstored'
        obtain ⟨found, hfound⟩ := hvalid.scaffold.regular.index_complete hstored
        obtain ⟨other, hother, hkey'⟩ := hvalid.scaffold.regular.index_sound hfound
        have hsame' : source.Bisimilar a state.target found :=
          Alike.of_match ⟨node, other, hnode, hother, hsimilar.congr_key hkey'⟩
        obtain rfl := h.eq_of_bisimilar hvalid hbase hfrugal hnew hget hunmatched hsame'
        rw [← hkey]
        exact hfound

/-- Copies that were there before find themselves. -/
theorem Tracked.findsItself (h : Tracked source state.target Within state)
    (hvalid : Valid source state.target [] state) (hget : state.copied.get? a = some c) :
    state.target.FindsItself c := by
  have hcopied : ∀ {a c}, state.copied.get? a = some c → source.Bisimilar a state.target c :=
    fun hget => (hvalid.copied hget).agree hvalid.scaffold
  have hplace : ∀ {a c y}, state.copied.get? a = some c → state.target.node? c = some y →
      y.isByReference = false → state.target.index.get? y.key = some c ∧
        ∀ child ∈ y.children, ∃ original, state.copied.get? original = some child := by
    intro a c y hget hy hinline
    obtain ⟨x, hx, hsimilar⟩ := (hcopied hget).unfold.exists_left hy
    obtain ⟨copy, hlift, hindex | ⟨hnew, -⟩⟩ :=
      h.layer hget hx (hsimilar.isByReference_eq.trans hinline)
    · obtain ⟨stored, hstored, hkey⟩ := hvalid.scaffold.regular.index_sound hindex
      cases hy.symm.trans hstored
      refine ⟨hkey ▸ hindex, fun child hchild => ?_⟩
      rw [← Node.children_key, hkey, Node.children_key] at hchild
      obtain ⟨original, -, hhas⟩ := Node.exists_left_of_forall₂ hlift.children hchild
      exact ⟨original, hhas.resolve_right fun hslot => by
        cases (hvalid.scaffold.get?_eq_none original).symm.trans hslot⟩
    · exact absurd (hcopied hget) (hnew c)
  -- Everything that is written for the copy has been copied from somewhere.
  have hspanned : ∀ {b}, state.target.Spans c b →
      ∃ original, state.copied.get? original = some b := by
    intro b hspans
    induction hspans with
    | refl => exact ⟨a, hget⟩
    | tail _ hinlines ih =>
        obtain ⟨original, horiginal⟩ := ih
        obtain ⟨y, hy, hinline, hchild⟩ := hinlines
        exact (hplace horiginal hy hinline).2 _ hchild
  constructor
  · rintro b hspans ⟨y, hy, hreference⟩
    obtain ⟨original, horiginal⟩ := hspanned hspans
    obtain ⟨x, hx, hsimilar⟩ := (hcopied horiginal).unfold.exists_left hy
    rcases h.first horiginal ⟨x, hx, hsimilar.isByReference_eq.trans hreference⟩ with hnew | hfirst
    · exact absurd (hcopied horiginal) (hnew b)
    · exact hfirst.of_bisimilar (hcopied horiginal).symm
  · intro b y hspans hy hinline
    obtain ⟨original, horiginal⟩ := hspanned hspans
    exact (hplace horiginal hy hinline).1

end Settled

end Copying

/-! ## The second copy -/

/-- A node that is referred to by id gets the first node of the same graph, if there is one. -/
theorem copyFrom_of_isFirst (hsource : source.Sound) (hreferred : source.Referred a)
    (hfirst : source.IsFirst a target b) : source.copyFrom a target = .ok b target :=
  copyFrom_of_settled hsource (settled_isFirst source target) ⟨hreferred, hfirst⟩

/-- Copying a graph answers a node and changes nothing exactly if the node describes the graph
and finds itself. -/
theorem copyFrom_eq_iff (hsource : source.Sound) (htarget : target.Sound)
    (hsame : source.Bisimilar a target c) :
    source.copyFrom a target = .ok c target ↔ target.FindsItself c := by
  constructor
  · intro hcopy
    obtain ⟨node, -, hnode, -, -⟩ := hsame.unfold
    obtain ⟨copy, state, hcopy', hvalid, htracked, hget, -⟩ := exists_copyFrom hsource htarget
      (Copying.maintains_tracked htarget.toRegular fun {_ _} _ _ => trivial)
      (Copying.tracked_start source target fun _ => True) trivial (lt_size_of_node? hnode)
    obtain ⟨rfl, rfl⟩ := EStateM.Result.ok.inj (hcopy'.symm.trans hcopy)
    exact htracked.findsItself hvalid hget
  · intro hfinds
    exact copyFrom_of_settled hsource hfinds.settled (.inr ⟨.refl, hsame⟩)

/-- Copying a graph again gives the copy and changes nothing, if nodes that had no counterpart
describe different graphs. -/
theorem copyFrom_again (hsource : source.Sound) (htarget : target.Sound) {copy : Handle}
    {after : Store} (hfrugal : source.Frugal) (hnew : source.NewOnce root target)
    (hcopy : source.copyFrom root target = .ok copy after) :
    source.copyFrom root after = .ok copy after := by
  have hlt : root < source.size := by
    by_contra hle
    rw [copyFrom_of_size_le (Nat.le_of_not_lt hle)] at hcopy
    cases hcopy
  obtain ⟨copy', state, hcopy', hvalid, htracked, hget, -⟩ := exists_copyFrom hsource htarget
    (Copying.maintains_tracked htarget.toRegular fun {_ _} => .tail)
    (Copying.tracked_start source target (source.Below root)) .refl hlt
  cases hcopy'.symm.trans hcopy
  exact copyFrom_of_settled hsource
    (htracked.settled hvalid htarget.toRegular hfrugal hnew) hget

end WireSchema.Store
