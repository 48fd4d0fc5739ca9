/-
# What is built has providers

A build asks for a provider before it makes a node.  It does not ask for a type that is open or
has been built already, nor for the nodes below an older node that it falls back on.  Still, all
nodes at and below what a type was built as are of kinds that were asked for: a slot has nothing
below it until it is filled, and an older node that describes the same graph has the same kinds.
-/

import WireSchema.Proofs.Catalog.Reachable
import WireSchema.Proofs.Graph.Nodes

namespace WireSchema

namespace Store

variable {allowed : Kind → Prop} {store before after : Store} {handle slot : Handle}
variable {node : Node Name Handle}

/-- All nodes at and below the handle are of kinds that are allowed.  A slot without a node leads
to none. -/
def KindsAmong (allowed : Kind → Prop) (store : Store) (handle : Handle) : Prop :=
  ∀ part, store.Below handle part → ∀ node, store.node? part = some node → allowed node.kind

namespace KindsAmong

/-- What belongs to a part of the store that is closed downwards leads nowhere else. -/
theorem of_closed (within : Handle → Prop) (hclosed : ∀ part node, within part →
      store.node? part = some node → allowed node.kind ∧ ∀ child ∈ node.children, within child)
    (h : within handle) : store.KindsAmong allowed handle := by
  intro part hbelow
  have hwithin : within part := by
    induction hbelow with
    | refl => exact h
    | tail _ hchild ih =>
        obtain ⟨node, hnode, hmem⟩ := hchild
        exact (hclosed _ node ih hnode).2 _ hmem
  exact fun node hnode => (hclosed part node hwithin hnode).1

theorem kind (h : store.KindsAmong allowed handle) (hnode : store.node? handle = some node) :
    allowed node.kind :=
  h handle .refl node hnode

theorem child (h : store.KindsAmong allowed handle) (hnode : store.node? handle = some node) :
    ∀ child ∈ node.children, store.KindsAmong allowed child :=
  fun _ hchild part hbelow => h part (.head ⟨node, hnode, hchild⟩ hbelow)

theorem of_node (hnode : store.node? handle = some node) (hkind : allowed node.kind)
    (hchildren : ∀ child ∈ node.children, store.KindsAmong allowed child) :
    store.KindsAmong allowed handle := by
  intro part hbelow
  rcases hbelow.cases_head with rfl | ⟨child, ⟨parent, hparent, hchild⟩, hbelow⟩
  · intro found hfound
    cases hnode.symm.trans hfound
    exact hkind
  · cases hnode.symm.trans hparent
    exact hchildren child hchild part hbelow

theorem of_node?_eq_none (hnone : store.node? handle = none) :
    store.KindsAmong allowed handle := by
  intro part hbelow found hfound
  rcases hbelow.cases_head with rfl | ⟨child, ⟨parent, hparent, -⟩, -⟩
  · cases hnone.symm.trans hfound
  · cases hnone.symm.trans hparent

/-- What is added to a store does not get below what was there. -/
theorem extends_iff (hregular : before.Regular) (hextends : before.Extends after)
    (hlt : handle < before.size) :
    after.KindsAmong allowed handle ↔ before.KindsAmong allowed handle := by
  constructor
  · intro h
    refine of_closed (fun part => after.KindsAmong allowed part) (fun part node h hnode => ?_) h
    have hnode' := hextends.node?_of hnode
    exact ⟨h.kind hnode', h.child hnode'⟩
  · intro h
    refine of_closed (fun part => part < before.size ∧ before.KindsAmong allowed part) ?_ ⟨hlt, h⟩
    rintro part node ⟨hlt, h⟩ hnode
    have hnode' := (hextends.node?_eq hlt).symm.trans hnode
    exact ⟨h.kind hnode', fun child hchild =>
      ⟨hregular.children_lt hnode' child hchild, h.child hnode' child hchild⟩⟩

theorem rollback (h : after.KindsAmong allowed handle) (hbefore : before.Regular)
    (hafter : after.Regular) (hextends : before.Extends after) (hlt : handle < before.size) :
    (after.rollback before.size).KindsAmong allowed handle :=
  (extends_iff hbefore (hextends.rollback hbefore hafter) hlt).2
    ((extends_iff hbefore hextends hlt).1 h)

/-- A node that describes the same graph leads to the same kinds. -/
theorem of_bisimilar {a b : Handle} (h : store.KindsAmong allowed a)
    (hsame : store.Bisimilar a after b) : after.KindsAmong allowed b := by
  refine of_closed (fun b => ∃ a, store.KindsAmong allowed a ∧ store.Bisimilar a after b) ?_
    ⟨a, h, hsame⟩
  rintro b y ⟨a, h, hsame⟩ hy
  obtain ⟨x, y', hx, hy', hsimilar⟩ := hsame.unfold
  cases hy.symm.trans hy'
  refine ⟨hsimilar.kind_eq ▸ h.kind hx, fun child hchild => ?_⟩
  obtain ⟨part, hpart, hagree⟩ := hsimilar.exists_left hchild
  exact ⟨part, h.child hx part hpart, hagree⟩

theorem intern (hregular : store.Regular) (hkind : allowed node.kind)
    (hchildren : ∀ child ∈ node.children, child < store.size ∧ store.KindsAmong allowed child) :
    (store.intern node).2.KindsAmong allowed (store.intern node).1 := by
  obtain ⟨stored, hstored, hkey⟩ := exists_node?_intern hregular node
  have hkind' : stored.kind = node.kind := by
    rw [← Node.kind_key, hkey, Node.kind_key]
  have hsame : stored.children = node.children := by
    rw [← Node.children_key, hkey, Node.children_key]
  refine of_node hstored (hkind' ▸ hkind) fun child hchild => ?_
  obtain ⟨hlt, hamong⟩ := hchildren child (hsame ▸ hchild)
  exact (extends_iff hregular (extends_intern hregular node) hlt).2 hamong

/-- What led to the slot goes on to lead to allowed kinds. -/
theorem fill (h : store.KindsAmong allowed handle) (hslot : slot < store.size)
    (hkind : allowed node.kind)
    (hchildren : ∀ child ∈ node.children, store.KindsAmong allowed child) :
    (store.fill slot node).KindsAmong allowed handle := by
  refine of_closed (store.KindsAmong allowed) (fun part found h hfound => ?_) h
  rcases eq_or_of_node?_fill hslot hfound with ⟨-, rfl⟩ | hold
  · exact ⟨hkind, hchildren⟩
  · exact ⟨h.kind hold, h.child hold⟩

end KindsAmong

/-- All nodes at and below what types were built as are of kinds that are allowed. -/
def BuiltAmong (allowed : Kind → Prop) (store : Store) : Prop :=
  ∀ entry handle, store.built.get? entry = some handle → store.KindsAmong allowed handle

namespace BuiltAmong

theorem of_extends (h : before.BuiltAmong allowed) (hregular : before.Regular)
    (hextends : before.Extends after) (hbuilt : ∀ {entry handle},
      after.built.get? entry = some handle → before.built.get? entry = some handle) :
    after.BuiltAmong allowed := by
  intro entry handle hget
  have hget' := hbuilt hget
  exact (KindsAmong.extends_iff hregular hextends (hregular.built_lt hget')).2 (h _ _ hget')

theorem intern (h : store.BuiltAmong allowed) (hregular : store.Regular)
    (node : Node Name Handle) : (store.intern node).2.BuiltAmong allowed := by
  refine h.of_extends hregular (extends_intern hregular node) fun {entry handle} hget => ?_
  rwa [built_intern] at hget

theorem fill (h : store.BuiltAmong allowed) (hslot : slot < store.size) (hkind : allowed node.kind)
    (hchildren : ∀ child ∈ node.children, store.KindsAmong allowed child) :
    (store.fill slot node).BuiltAmong allowed :=
  fun entry handle hget => (h entry handle hget).fill hslot hkind hchildren

theorem remember (h : store.BuiltAmong allowed) (hhandle : store.KindsAmong allowed handle)
    (direction : Direction) (type : TypeDef) :
    (store.remember direction type handle).BuiltAmong allowed := by
  intro entry other hget
  rcases Table.get?_insert_eq_some_iff.1 hget with ⟨-, rfl⟩ | ⟨-, hget⟩
  · exact hhandle
  · exact h entry other hget

theorem rollback (h : after.BuiltAmong allowed) (hbefore : before.Regular)
    (hafter : after.Regular) (hextends : before.Extends after) :
    (after.rollback before.size).BuiltAmong allowed := by
  intro entry handle hget
  obtain ⟨hget, hlt⟩ := (built_rollback hafter.built_lt).1 hget
  exact (h entry handle hget).rollback hbefore hafter hextends hlt

end BuiltAmong

end Store

namespace Building

variable {allowed : Kind → Prop} {plan : Plan} {opened : List TypeDef} {s t : Building}
variable {type target : TypeDef} {layer : Node Name TypeDef} {node : Node Name Handle}

/-- A child that has been built leads to allowed kinds. -/
def Among (allowed : Kind → Prop) (state : Building) (handle : Handle) : Prop :=
  handle < state.store.size ∧ state.store.KindsAmong allowed handle

theorem Among.advance {handle : Handle} (h : s.Among allowed handle)
    (hregular : s.store.Regular) (hstep : s.scaffold.Advances t.scaffold) :
    t.Among allowed handle :=
  ⟨h.1.trans_le hstep.grown.size_le,
    (Store.KindsAmong.extends_iff hregular hstep.grown h.1).2 h.2⟩

theorem slotFor_among (hs : Records plan opened s) (hbuilt : s.store.BuiltAmong allowed) :
    Ends (slotFor target s) (fun handle t => t.store.BuiltAmong allowed ∧
      t.store.KindsAmong allowed handle) fun _ t => t.store.BuiltAmong allowed := by
  unfold slotFor
  split
  next slot hslot =>
    exact ⟨hbuilt, .of_node?_eq_none (hs.valid.scaffold.pending hslot)⟩
  next =>
    refine ⟨hbuilt.of_extends hs.valid.scaffold.regular (Store.extends_reserve _) id, ?_⟩
    refine .of_node?_eq_none ((Store.node?_reserve s.store _).trans ?_)
    exact Store.node?_eq_none_of_le (Nat.le_refl _)

/-- Closing a type of an allowed kind whose children lead to allowed kinds. -/
theorem close_among (hs : Records plan opened s) (ht : Valid plan (target :: opened) t.scaffold)
    (hstep : s.scaffold.Advances t.scaffold) (hnew : s.reserved.get? target = none)
    (hbuilt : t.store.BuiltAmong allowed) (hkind : allowed layer.kind)
    (hlift : layer.Lift (fun _ handle => t.Among allowed handle) node) :
    Ends (close plan.direction target s.store.size node t)
      (fun handle u => u.store.BuiltAmong allowed ∧ u.store.KindsAmong allowed handle)
      fun _ u => u.store.BuiltAmong allowed := by
  have hregular := ht.scaffold.regular
  unfold close
  split
  next => exact hbuilt
  next arranged harrange =>
    have harrange' := Node.arrangeFor_eq_ok_iff.1 harrange
    have hkind' : allowed arranged.kind := by
      rw [Node.kind_of_arrange harrange', ← hlift.kind_eq]
      exact hkind
    have hchildren : ∀ child ∈ arranged.children, t.Among allowed child := by
      intro child hchild
      have hmem := (Node.perm_children_of_arrange harrange').mem_iff.1 hchild
      obtain ⟨-, -, hamong⟩ := (Node.Similar.of_lift hlift).exists_left hmem
      exact hamong
    split
    next =>
      have hhandle := Store.KindsAmong.intern hregular hkind' hchildren
      exact ⟨(hbuilt.intern hregular arranged).remember hhandle _ _, hhandle⟩
    next slot hslot =>
      have hlt := ht.scaffold.lt_size hslot
      have hempty := ht.scaffold.pending hslot
      have hbelow : ∀ child ∈ arranged.children, t.store.KindsAmong allowed child :=
        fun child hchild => (hchildren child hchild).2
      have hbuilt' := hbuilt.fill hlt hkind' hbelow
      have hslot' : (t.store.fill slot arranged).KindsAmong allowed slot :=
        (Store.KindsAmong.of_node?_eq_none hempty).fill hlt hkind' hbelow
      dsimp only
      split
      next handle hsuper =>
        obtain ⟨-, hhandle, hsame⟩ := of_superseding? hsuper
        have hregular' := hregular.fill hlt hempty (fun child hchild => (hchildren child hchild).1)
          (Node.arranged_of_arrange harrange')
        have hextends := (hstep.fill ht.scaffold hnew hslot arranged).grown
        have hearlier := hs.valid.scaffold.regular
        have hback := (hslot'.of_bisimilar hsame).rollback hearlier hregular' hextends hhandle
        exact ⟨(hbuilt'.rollback hearlier hregular' hextends).remember hback _ _, hback⟩
      next => exact ⟨hbuilt'.remember hslot' _ _, hslot'⟩

/-- What is built is of kinds that are allowed, if providers accept types of these kinds only.
That the types below an open one have been built right comes from `build_runs`. -/
theorem build_among (plan : Plan) (allowed : Kind → Prop) (hallowed : ∀ target layer,
      plan.providers.any (·.accepts target) = true → target.layer plan.direction = .ok layer →
        allowed layer.kind)
    (opened : List TypeDef) (type : TypeDef)
    (hpath : ∀ target, plan.target type = .ok target → ∀ above ∈ opened,
      Relation.TransGen plan.Below target above)
    (s : Building) (hs : Records plan opened s ∧ s.store.BuiltAmong allowed) :
    (session plan (Store.BuiltAmong allowed) opened).Runs s (build plan opened type s)
      fun handle t => t.Among allowed handle := by
  have hruns := build_runs plan (maintains_true _) opened type hpath s ⟨hs.1, trivial⟩
  suffices h : Ends (build plan opened type s) (fun handle t => t.store.BuiltAmong allowed ∧
      t.store.KindsAmong allowed handle) fun _ t => t.store.BuiltAmong allowed by
    refine Ends.imp (hruns.and h) ?_ fun _ _ ⟨hleaves, hbuilt⟩ => ⟨hleaves.1, hbuilt⟩
    rintro handle t ⟨⟨ht, hstep, hdepicts⟩, hbuilt, hamong⟩
    exact ⟨⟨ht.1, hbuilt⟩, hstep, hdepicts.lt_size ht.1.valid.scaffold, hamong⟩
  refine ends_build (fun _ => hs.2) (fun target handle htarget hget => ?_)
    (fun target htarget _ _ => ?_) fun target layer htarget hbuilt hopened haccepts hlayer => ?_
  · exact ⟨hs.2, hs.2 _ _ hget⟩
  · exact slotFor_among hs.1 hs.2
  · have hself := Plan.target_target htarget
    have henter : Records plan (openedBelow opened target) (s.enter target) ∧
        (s.enter target).store.BuiltAmong allowed :=
      ⟨hs.1.enter target, (store_enter s target).symm ▸ hs.2⟩
    refine Ends.imp (Session.runs_traverse
      (S := session plan (Store.BuiltAmong allowed) (openedBelow opened target))
      (R := fun _ handle t => t.Among allowed handle)
      (fun _ _ _ _ hs hstep _ hamong => hamong.advance hs.1.valid.scaffold.regular hstep)
      (fun child hchild t ht =>
        have hsmaller := Plan.child_lt htarget hopened hlayer hchild
        runs_undoing (fails_rollback
          (fun hbefore _ hafter h hextends => h.rollback hbefore hafter hextends) ht) <|
          build_among plan allowed hallowed _ child (fun below hbelow => path_below
            ⟨target, layer, child, hself, hlayer, hchild, hbelow⟩ (hpath target htarget))
            t ht) henter) ?_ fun _ _ hleaves => hleaves.2
    rintro node t ⟨⟨ht, hbuilt'⟩, hstep, hlift⟩
    exact close_among hs.1 ht.valid_cons (scaffold_enter s target ▸ hstep)
      (hs.1.valid.scaffold.not_reserved hopened) hbuilt' (hallowed target layer haccepts hlayer)
      hlift
termination_by (unseen plan.types opened, sizeOf type)
decreasing_by exact hsmaller

end Building

/-- The provider that accepts a type is the one for the kind of its layer. -/
theorem TypeDef.accepts_iff_of_layer {provider : Provider} {direction : Direction} {type : TypeDef}
    {layer : Node Name TypeDef} (h : type.layer direction = .ok layer) :
    provider.accepts type = true ↔ provider = layer.kind.provider := by
  unfold TypeDef.layer at h
  split at h <;> (try split at h) <;> cases h <;> cases provider <;>
    simp [Provider.accepts, Node.kind, Kind.provider]

namespace Catalog

variable {catalog : Catalog}

/-- All nodes at and below what types were built as are of kinds that the catalog has providers
for. -/
def BuildsProvided (catalog : Catalog) : Prop :=
  catalog.store.BuiltAmong fun kind => kind.provider ∈ catalog.providers

/-- What is returned for a type leads to kinds that the catalog has providers for. -/
theorem getOrAdd_among (h : catalog.Sound) (hbuilt : catalog.BuildsProvided)
    (direction : Direction) (type : TypeDef) :
    Ends (getOrAdd direction type catalog)
      (fun handle t => t.BuildsProvided ∧
        t.store.KindsAmong (fun kind => kind.provider ∈ catalog.providers) handle)
      fun _ t => t.BuildsProvided := by
  have hallowed : ∀ target layer, catalog.providers.any (·.accepts target) = true →
      target.layer direction = .ok layer → layer.kind.provider ∈ catalog.providers := by
    intro target layer haccepts hlayer
    obtain ⟨provider, hprovider, haccepts⟩ := List.any_eq_true.1 haccepts
    exact (TypeDef.accepts_iff_of_layer hlayer).1 haccepts ▸ hprovider
  have hstart : Building.Records (catalog.plan direction) [] catalog.building :=
    ⟨valid_of_sound h direction, h.opened⟩
  have hruns := Building.build_among (catalog.plan direction)
    (fun kind => kind.provider ∈ catalog.providers) hallowed [] type (fun _ _ => nofun)
    catalog.building ⟨hstart, hbuilt⟩
  unfold getOrAdd Building.undoing
  rw [h.opened]
  cases hbuild : Building.build (catalog.plan direction) [] type catalog.building with
  | ok handle state =>
      rw [hbuild] at hruns
      exact ⟨hruns.1.2, hruns.2.2.2⟩
  | error error state =>
      rw [hbuild] at hruns
      exact Store.BuiltAmong.rollback hruns.2 h.store.toRegular hruns.1.fails.regular
        hruns.1.fails.grown

theorem Reachable.buildsProvided (h : Reachable catalog) : catalog.BuildsProvided := by
  suffices hboth : catalog.Sound ∧ catalog.BuildsProvided from hboth.2
  have hstore : ∀ {catalog : Catalog}, catalog.Sound → catalog.BuildsProvided →
      ∀ store, catalog.store.Progress store → Catalog.Sound { catalog with store } ∧
        BuildsProvided { catalog with store } := fun h hbuilt store hprogress =>
    ⟨(follows_of_progress h hprogress).sound,
      hbuilt.of_extends h.store.toRegular hprogress.grown hprogress.built⟩
  induction h with
  | start providers =>
      refine ⟨sound_withProviders providers, fun _ _ hget => ?_⟩
      cases hget
  | @step catalog operation _ ih =>
      refine apply_keeps (P := fun t => t.Sound ∧ t.BuildsProvided) ih.1 (hstore ih.1 ih.2)
        (fun direction type s hs => ?_) (fun type => ?_) operation
      · exact Ends.imp ((getOrAdd_ends hs.1 direction type).and
          (getOrAdd_among hs.1 hs.2 direction type)) (fun _ _ h => ⟨h.1.1.sound, h.2.1⟩)
          fun _ _ h => ⟨h.1.sound, h.2⟩
      · refine Ends.imp ((register_ends ih.1 type).and (register_changes type catalog)) ?_ ?_
        · rintro _ _ ⟨hfollows, definitions, rfl⟩
          exact ⟨hfollows.sound, ih.2⟩
        · rintro _ _ ⟨hfollows, definitions, rfl⟩
          exact ⟨hfollows.sound, ih.2⟩
  | copy handle hsource _ _ ih =>
      exact copy_keeps (P := fun t => t.Sound ∧ t.BuildsProvided) ih.1 (hstore ih.1 ih.2)
        hsource.sound handle

end Catalog

end WireSchema
