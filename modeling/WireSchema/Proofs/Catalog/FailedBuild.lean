/-
# Builds that fail

A build that fails is taken back to the size that the store had.  Its nodes, ids and
index are then what they were.  One thing stays: where a type below the failed one was
found to describe the same graph as an older node, that is still known.  What is known is
true, but it can be seen: of several older nodes with the same graph, it may be another
one from which a later build goes on.
-/

import WireSchema.Proofs.Catalog.Reachable
import WireSchema.Proofs.Store.Growth

namespace WireSchema

namespace Building

/-- The store is the base with something added, and what is known about types is what was
known then or about the side. -/
structure AddsFor (direction : Direction) (base store : Store) : Prop where
  grows : base.Grows store
  built : ∀ {side type handle}, store.built.get? (side, type) = some handle →
    base.built.get? (side, type) = some handle ∨ side = direction

theorem AddsFor.refl (direction : Direction) (base : Store) : AddsFor direction base base :=
  ⟨.refl base, .inl⟩

theorem maintains_addsFor (direction : Direction) {base : Store} (hbase : base.Regular) :
    Maintains direction (AddsFor direction base) where
  reserve h := ⟨(Store.maintains_grows base).reserve h.grows, h.built⟩
  intern node hregular h := by
    refine ⟨(Store.maintains_grows base).intern node hregular h.grows,
      fun {side type handle} hget => h.built ?_⟩
    rwa [Store.built_intern] at hget
  fill node hbefore hslot h hlt hempty hendless :=
    ⟨(Store.maintains_grows base).fill node hbefore.grows hslot h.grows hlt hempty hendless,
      h.built⟩
  rollback _ hbefore hregular h _ := by
    refine ⟨h.grows.rollback hbase hbefore.grows.size_le, fun {side type handle} hget => ?_⟩
    exact h.built ((Store.built_rollback hregular.built_lt).1 hget).1
  remember {before store type} handle hbefore hnone h := by
    have hnew := hbefore.grows.built_eq_none hnone
    refine ⟨h.grows.remember hnew handle, fun {side type' other} hget => ?_⟩
    rcases Table.get?_insert_eq_some_iff.1 hget with ⟨heq, -⟩ | ⟨-, hget⟩
    · exact .inr (congrArg Prod.fst heq)
    · exact h.built hget

end Building

namespace Catalog

variable {catalog failed : Catalog} {direction side : Direction} {type : TypeDef} {error : Error}
variable {handle : Handle}

/-- The catalog with other knowledge of what types have been built as. -/
def withBuilt (catalog : Catalog) (built : Table (Direction × TypeDef) Handle) : Catalog :=
  { catalog with store := { catalog.store with built } }

/-- Sound catalogs that differ in what is under construction differ in their stores only. -/
theorem eq_with_store {after : Catalog} (h : catalog.Sound) (hafter : after.Sound)
    (heq : after = { catalog with
      store := after.store
      opened := after.opened
      reserved := after.reserved }) : after = { catalog with store := after.store } := by
  have hopened : after.opened = catalog.opened := hafter.opened.trans h.opened.symm
  have hreserved : after.reserved = catalog.reserved :=
    (Table.eq_empty hafter.reserved).trans (Table.eq_empty h.reserved).symm
  rwa [hopened, hreserved] at heq

/-- A build changes the store and what is under construction. -/
theorem eq_of_getOrAdd_eq_error (h : getOrAdd direction type catalog = .error error failed) :
    failed = { catalog with
      store := failed.store
      opened := failed.opened
      reserved := failed.reserved } := by
  unfold getOrAdd at h
  split at h <;> cases h
  rfl

theorem plan_of_getOrAdd_eq_ok (h : getOrAdd direction type catalog = .ok handle failed)
    (side : Direction) : failed.plan side = catalog.plan side := by
  unfold getOrAdd at h
  split at h <;> cases h
  rfl

/-- A build that fails leaves the catalog as it was, but for what is known about types.
What was known still is, and what is known besides is about the side that was built for:
an older node describes the graph of the type. -/
theorem eq_withBuilt_of_getOrAdd_eq_error (h : Reachable catalog)
    (hfails : getOrAdd direction type catalog = .error error failed) :
    failed = catalog.withBuilt failed.store.built ∧
    (∀ entry handle, catalog.store.built.get? entry = some handle →
      failed.store.built.get? entry = some handle) ∧
    ∀ side type handle, failed.store.built.get? (side, type) = some handle →
      catalog.store.built.get? (side, type) = some handle ∨
      (side = direction ∧ handle < catalog.store.size ∧
        catalog.Describes direction type handle) := by
  have hsound := h.sound
  have hregular := hsound.store.toRegular
  have hkeeps := Building.maintains_addsFor direction hregular
  have hends := getOrAdd_keeps hkeeps hsound (.refl direction catalog.store) type
  rw [hfails] at hends
  obtain ⟨hfollows, state, hstate, hextends, hadds, hback⟩ := hends
  have hstore : failed.store = { catalog.store with built := failed.store.built } := by
    rw [hback]
    exact hadds.grows.rollback_eq hregular hstate hextends
  have heq : failed = catalog.withBuilt failed.store.built :=
    (eq_with_store hsound hfollows.sound (eq_of_getOrAdd_eq_error hfails)).trans
      (congrArg (fun store => { catalog with store := store }) hstore)
  refine ⟨heq, fun entry handle hget => ?_, fun side type handle hget => ?_⟩
  · rw [hback]
    refine (Store.built_rollback hstate.built_lt).2 ⟨hadds.grows.built_of hget, ?_⟩
    exact hregular.built_lt hget
  · have hdescribes := hfollows.sound.built hget
    rw [hback] at hget
    obtain ⟨hget, hlt⟩ := (Store.built_rollback hstate.built_lt).1 hget
    refine (hadds.built hget).imp_right ?_
    rintro rfl
    rw [heq] at hdescribes
    exact ⟨rfl, hlt, hdescribes⟩

/-- A build that follows one that has failed leads to the graph that it leads to without. -/
theorem bisimilar_after_failure (h : Reachable catalog)
    (hfails : getOrAdd direction type catalog = .error error failed) {later later' : Catalog}
    {type' : TypeDef} {handle' : Handle} (hbuild : getOrAdd side type' catalog = .ok handle later)
    (hbuild' : getOrAdd side type' failed = .ok handle' later') :
    later.store.Bisimilar handle later'.store handle' := by
  have hfailed : Follows catalog failed := by
    have hends := getOrAdd_ends h.sound direction type
    rwa [hfails] at hends
  have hends := getOrAdd_ends h.sound side type'
  rw [hbuild] at hends
  have hends' := getOrAdd_ends hfailed.sound side type'
  rw [hbuild'] at hends'
  have hplan : later'.plan side = later.plan side := by
    rw [plan_of_getOrAdd_eq_ok hbuild, plan_of_getOrAdd_eq_ok hbuild',
      eq_of_getOrAdd_eq_error hfails]
    rfl
  have hdescribes := hends'.2
  rw [Describes, hplan] at hdescribes
  exact hends.2.symm.trans hdescribes

/-! ## A build that can be seen to have failed -/

/-- A record with one field of the type. -/
def fieldType (name : String) (type : TypeDef) : TypeDef :=
  .record name [⟨"q", type, false⟩]

/-- A union with one member of the type. -/
def memberType (name : String) (type : TypeDef) : TypeDef :=
  .union name [⟨"a", type⟩]

/-- A union that refers to itself through a record, a union and another record. -/
def ringType : TypeDef :=
  memberType "Ring" (fieldType "P2" (memberType "Q2" (fieldType "P1" (.named "Ring"))))

/-- A union that refers to itself through one record. -/
def loopType : TypeDef :=
  memberType "Q" (fieldType "P" (.named "Q"))

/-- A record of which the first field can be built and the second cannot. -/
def halfType : TypeDef :=
  .record "F" [⟨"p", fieldType "P" (.named "Q"), false⟩, ⟨"z", .foreign "Socket", false⟩]

/-- A catalog in which the longer cycle has been built and the shorter is registered. -/
def ringCatalog : Catalog :=
  after (register loopType) (after (getOrAdd .write (.named "Ring"))
    (after (register ringType) (withProviders Provider.standard)))

theorem reachable_ringCatalog : Reachable ringCatalog :=
  .step (.register loopType) (.step (.getOrAdd .write (.named "Ring"))
    (.step (.register ringType) (.start Provider.standard)))

/-- What is left of the failed record is that its first field is described by an older node. -/
theorem eq_withBuilt_ring : ∃ failed : Catalog,
    failed = ringCatalog.withBuilt failed.store.built ∧
      failed.store.built.get? (.write, fieldType "P" (.named "Q")) = some 1 ∧
        ringCatalog.Describes .write (fieldType "P" (.named "Q")) 1 := by
  have hanswer : answer (getOrAdd .write halfType) ringCatalog = none := by cbv
  obtain ⟨error, hfails⟩ := exists_error_of_answer_eq_none hanswer
  obtain ⟨heq, -, hbuilt⟩ := eq_withBuilt_of_getOrAdd_eq_error reachable_ringCatalog hfails
  have hnew : (after (getOrAdd .write halfType) ringCatalog).store.built.get?
      (.write, fieldType "P" (.named "Q")) = some 1 := by cbv
  have hold : ringCatalog.store.built.get? (.write, fieldType "P" (.named "Q")) = none := by cbv
  rcases hbuilt _ _ _ hnew with hget | ⟨-, -, hdescribes⟩
  · rw [hold] at hget
    cases hget
  · exact ⟨_, heq, hnew, hdescribes⟩

/-- Building the shorter cycle gives one node of the longer or another, depending on whether
the record has failed before. -/
theorem failure_seen_ring : Reachable ringCatalog ∧
    answer (getOrAdd .write halfType) ringCatalog = none ∧
      answer (getOrAdd .write (.named "Q")) ringCatalog = some 0 ∧
        answer (getOrAdd .write (.named "Q")) (after (getOrAdd .write halfType) ringCatalog) =
          some 2 :=
  ⟨reachable_ringCatalog, by cbv, by cbv, by cbv⟩

end Catalog

end WireSchema
