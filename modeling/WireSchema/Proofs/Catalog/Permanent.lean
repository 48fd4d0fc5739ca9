/-
# What stays for good

Operations only ever add to a catalog, also where they take something back: a finished cycle that
is dropped and a build that has failed are newer than what was there when the operation began.  So
a handle goes on to mean the same node with the same id, and a type that has been built has its
answer for good.
-/

import WireSchema.Proofs.Catalog.FailedBuild
import WireSchema.Proofs.Catalog.Kept

namespace WireSchema

namespace Store

/-- The second store has all that the first has: its nodes under the same handles, with their ids,
and what types were built as. -/
structure Retains (base store : Store) : Prop where
  size_le : base.size ≤ store.size
  node?_of : ∀ {handle node}, base.node? handle = some node → store.node? handle = some node
  id?_of : ∀ {handle id}, base.id? handle = some id → store.id? handle = some id
  built_of : ∀ {entry handle}, base.built.get? entry = some handle →
    store.built.get? entry = some handle

namespace Retains

variable {base before store : Store} {slot : Handle}

theorem refl (store : Store) : store.Retains store :=
  ⟨Nat.le_refl _, id, id, id⟩

theorem reserve (h : base.Retains store) : base.Retains store.reserve.2 where
  size_le := h.size_le.trans (extends_reserve store).size_le
  node?_of hnode := (extends_reserve store).node?_of (h.node?_of hnode)
  id?_of hid := (id?_reserve store _).trans (h.id?_of hid)
  built_of := h.built_of

theorem intern (h : base.Retains store) (hregular : store.Regular) (node : Node Name Handle) :
    base.Retains (store.intern node).2 where
  size_le := h.size_le.trans (extends_intern hregular node).size_le
  node?_of hnode := (extends_intern hregular node).node?_of (h.node?_of hnode)
  id?_of hid := (id?_intern hregular node _).trans (h.id?_of hid)
  built_of hget := (congrArg (Table.get? · _) (built_intern store node)).trans (h.built_of hget)

/-- A slot that is filled had no node before. -/
theorem fill (h : base.Retains store) (hslot : slot < store.size)
    (hempty : store.node? slot = none) (node : Node Name Handle) :
    base.Retains (store.fill slot node) where
  size_le := h.size_le.trans_eq (size_fill store slot node).symm
  node?_of hnode := node?_fill_of_eq_some hslot hempty (h.node?_of hnode) node
  id?_of hid := (id?_fill store slot node _).trans (h.id?_of hid)
  built_of := h.built_of

/-- Rolling back ends at an earlier store, which has all of the first store as well. -/
theorem rollback (h : base.Retains store) (hbefore : base.Retains before)
    (hearlier : before.Regular) (hregular : store.Regular) (hextends : before.Extends store) :
    base.Retains (store.rollback before.size) where
  size_le := hbefore.size_le.trans_eq hextends.size_rollback_eq.symm
  node?_of hnode := (hextends.node?_rollback_eq _).trans (hbefore.node?_of hnode)
  id?_of hid := by
    rw [id?_rollback, if_pos (lt_size_of_id? (hbefore.id?_of hid))]
    exact h.id?_of hid
  built_of hget := (built_rollback hregular.built_lt).2
    ⟨h.built_of hget, hearlier.built_lt (hbefore.built_of hget)⟩

theorem remember (h : base.Retains store) {direction : Direction} {type : TypeDef}
    (hnew : base.built.get? (direction, type) = none) (handle : Handle) :
    base.Retains (store.remember direction type handle) where
  size_le := h.size_le
  node?_of := h.node?_of
  id?_of := h.id?_of
  built_of := Table.get?_insert_of_imp h.built_of hnew

theorem labels {after : Store} (h : base.Retains store) (hlabels : store.Labels after) :
    base.Retains after where
  size_le := h.size_le.trans_eq hlabels.size_eq.symm
  node?_of hnode := (hlabels.node?_eq _).trans (h.node?_of hnode)
  id?_of hid := hlabels.id?_of (h.id?_of hid)
  built_of hget := (congrArg (Table.get? · _) hlabels.built_eq).trans (h.built_of hget)

end Retains

end Store

namespace Building

variable {plan : Plan} {direction : Direction} {type target : TypeDef} {mark : Nat}
variable {node : Node Name Handle} {s : Building}

/-- Building takes nothing away from a store that was there before. -/
theorem maintains_retains (direction : Direction) (base : Store) :
    Maintains direction base.Retains where
  reserve h := h.reserve
  intern node hregular h := h.intern hregular node
  fill node _ _ h hslot hempty _ := h.fill hslot hempty node
  rollback hearlier hbefore hregular h hextends := h.rollback hbefore hearlier hregular hextends
  remember handle hbefore hnew h :=
    h.remember (Table.get?_eq_none_of_imp hbefore.built_of hnew) handle

/-- Closing a type remembers the handle that it returns. -/
theorem close_remembers : Ends (close direction target mark node s)
    (fun handle t => t.store.built.get? (direction, target) = some handle) fun _ _ => True := by
  unfold close
  split
  · trivial
  · split
    · exact Table.get?_insert_self _ _ _
    · dsimp only
      split <;> exact Table.get?_insert_self _ _ _

/-- A build that no other build has begun remembers the handle that it returns. -/
theorem build_remembers : Ends (build plan [] type s)
    (fun handle t => ∃ target, plan.target type = .ok target ∧
      t.store.built.get? (plan.direction, target) = some handle) fun _ _ => True := by
  refine ends_build (fun _ => trivial) (fun target handle htarget hget => ⟨target, htarget, hget⟩)
    (fun _ _ _ => nofun) fun target layer htarget _ _ _ _ => ends_of_ok fun node t => ?_
  exact Ends.imp close_remembers (fun _ _ hget => ⟨target, htarget, hget⟩) fun _ _ h => h

end Building

namespace Catalog

variable {catalog built later : Catalog} {direction : Direction} {type : TypeDef} {handle : Handle}

theorem preserves_retains (base : Store) : Preserves (fun _ => True) base.Retains :=
  .of_labels (fun direction => Building.maintains_retains direction base) fun h => h.labels

theorem retains_of_later (h : catalog.Sound) (hlater : Later catalog later) :
    catalog.store.Retains later.store :=
  (preserves_retains catalog.store).later h (.refl _) hlater

/-- Whatever is done with a catalog, and whether it succeeds or fails, the store never gets
shorter, every node is found under its handle as it was, a node that has an id keeps it and is
found under it, and every definition stays as it was registered.  A graph is rendered from the
document that exporting it gives. -/
theorem kept_for_good (h : Reachable catalog) (hlater : Later catalog later) :
    catalog.store.size ≤ later.store.size ∧
    (∀ handle node, catalog.store.node? handle = some node →
      later.store.node? handle = some node) ∧
    (∀ handle id, catalog.store.id? handle = some id →
      later.store.id? handle = some id ∧ later.store.lookupId? id = some handle) ∧
    ∀ name definition, catalog.definition? name = some definition →
      later.definition? name = some definition := by
  have hretains := retains_of_later h.sound hlater
  have hfollows := hlater.follows h.sound
  refine ⟨hretains.size_le, fun _ _ => hretains.node?_of, fun handle id hid => ?_,
    fun _ _ => hfollows.keeps.definition?_of⟩
  have hid' := hretains.id?_of hid
  exact ⟨hid', hfollows.sound.store.toRegular.id_iff.2 hid'⟩

/-- A catalog in which the union at the head of the ring has an id. -/
def headCatalog : Catalog :=
  after (onStore (Store.assignId 0)) ringCatalog

/-- The union keeps its id after a build that has failed and another that has succeeded. -/
theorem kept_for_good_ring : headCatalog.store.id? 0 = some "UnionWrite0" ∧
    answer (getOrAdd .write halfType) headCatalog = none ∧
    (after (getOrAdd .write (.named "Q"))
      (after (getOrAdd .write halfType) headCatalog)).store.lookupId? "UnionWrite0" = some 0 := by
  have hid : headCatalog.store.id? 0 = some "UnionWrite0" := by cbv
  obtain ⟨-, -, hids, -⟩ := kept_for_good (.step (.assignId 0) reachable_ringCatalog)
    (.step (.getOrAdd .write (.named "Q")) (.step (.getOrAdd .write halfType) .refl))
  exact ⟨hid, by cbv, (hids 0 _ hid).2⟩

theorem exists_built_of_getOrAdd (h : catalog.Sound)
    (hbuild : getOrAdd direction type catalog = .ok handle built) :
    ∃ target, (catalog.plan direction).target type = .ok target ∧
      built.store.built.get? (direction, target) = some handle := by
  obtain ⟨state, hstate, rfl⟩ := exists_build_of_getOrAdd h hbuild
  have hends : Ends (Building.build (catalog.plan direction) [] type catalog.building)
    (fun handle t => ∃ target, (catalog.plan direction).target type = .ok target ∧
      t.store.built.get? (direction, target) = some handle) fun _ _ => True :=
    Building.build_remembers
  rw [hstate] at hends
  exact hends

/-- A type that has been built has its handle for good, and asking for it again changes nothing. -/
theorem getOrAdd_again (h : Reachable catalog)
    (hbuild : getOrAdd direction type catalog = .ok handle built) (hlater : Later built later) :
    getOrAdd direction type later = .ok handle later := by
  have hends := getOrAdd_ends h.sound direction type
  rw [hbuild] at hends
  obtain ⟨hfollows, -⟩ := hends
  obtain ⟨target, htarget, hget⟩ := exists_built_of_getOrAdd h.sound hbuild
  have htarget' := (hfollows.trans (hlater.follows hfollows.sound)).keeps.target_of htarget
  have hget' := (retains_of_later hfollows.sound hlater).built_of hget
  rw [getOrAdd, Building.undoing_eq_ok_iff.2 (Building.build_of_built htarget' hget')]
  rfl

/-- The ring has its handle after a build that has failed and another that has succeeded. -/
theorem getOrAdd_again_ring : ∃ later : Catalog,
    answer (getOrAdd .write halfType) ringCatalog = none ∧
    answer (getOrAdd .write (.named "Q")) (after (getOrAdd .write halfType) ringCatalog) =
      some 2 ∧
    later = after (getOrAdd .write (.named "Q")) (after (getOrAdd .write halfType) ringCatalog) ∧
    getOrAdd .write (.named "Ring") later = .ok 0 later := by
  refine ⟨_, by cbv, by cbv, rfl, ?_⟩
  exact getOrAdd_again (.step (.register ringType) (.start Provider.standard))
    (eq_ok_of_answer (by cbv)) (.step (.getOrAdd .write (.named "Q"))
      (.step (.getOrAdd .write halfType) (.step (.register loopType) .refl)))

end Catalog

end WireSchema
