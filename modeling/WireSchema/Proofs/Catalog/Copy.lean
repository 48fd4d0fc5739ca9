/-
# Copying between catalogs

Copying takes a graph from one catalog into another.  It cannot fail where there is a
graph to take, and nothing that the other catalog had is touched.  The copy describes
the same graph, whether it is new or an older node that describes it already, so what
can be read before copying can be read after it.
-/

import WireSchema.Proofs.Catalog.Reachable
import WireSchema.Proofs.Compatibility.Bisimulation
import WireSchema.Proofs.Store.Growth

namespace WireSchema

namespace Store

variable {source target : Store} {handle : Handle}

theorem exists_grows_of_copyFrom (hsource : source.Sound) (htarget : target.Sound)
    (hlt : handle < source.size) :
    ∃ copy after, source.copyFrom handle target = .ok copy after ∧ target.Grows after ∧
      target.Progress after ∧ source.Bisimilar handle after copy ∧
        after.built = target.built := by
  obtain ⟨copy, state, hcopy, hvalid, hgrows, -, hsame⟩ := exists_copyFrom hsource htarget
    (Copying.maintains_of_store (maintains_grows target)) (.refl target) trivial hlt
  exact ⟨copy, state.target, hcopy, hgrows, hvalid.progress hsource htarget, hsame, hvalid.built⟩

end Store

namespace Catalog

/-- The second catalog is the first with nodes behind those that there were.  They have no
ids, and no type is known to have been built as one of them. -/
structure Adds (before after : Catalog) : Prop where
  size_le : before.store.size ≤ after.store.size
  node?_eq : ∀ handle < before.store.size, after.store.node? handle = before.store.node? handle
  index_of : ∀ key handle, before.store.index.get? key = some handle →
    after.store.index.get? key = some handle
  id?_eq : ∀ handle, after.store.id? handle = before.store.id? handle
  built_eq : after.store.built = before.store.built
  ids_eq : after.store.ids = before.store.ids
  nextId_eq : after.store.nextId = before.store.nextId
  /-- All but the store is the same. -/
  eq_with_store : after = { before with store := after.store }

variable {source target : Catalog} {handle read write : Handle}

/-- A graph of a reachable catalog can be copied into every other. -/
theorem exists_copy (hsource : Reachable source) (htarget : Reachable target)
    (hlt : handle < source.store.size) :
    ∃ copy after, onStore (source.store.copyFrom handle) target = .ok copy after ∧
      Reachable after ∧ source.store.Bisimilar handle after.store copy ∧ Adds target after := by
  obtain ⟨copy, store, hcopy, hgrows, hprogress, hsame, hbuilt⟩ :=
    Store.exists_grows_of_copyFrom hsource.sound.store htarget.sound.store hlt
  have hrun : onStore (source.store.copyFrom handle) target = .ok copy { target with store } :=
    onStore_eq_ok hcopy
  have hreachable : Reachable { target with store } := by
    have hafter := Reachable.copy handle hsource htarget
    rwa [after, hrun] at hafter
  refine ⟨copy, _, hrun, hreachable, hsame, ?_⟩
  exact
    { size_le := hgrows.size_le
      node?_eq := fun _ hlt => hgrows.node?_eq hlt
      index_of := fun _ _ hget => hprogress.grown.index_of hget
      id?_eq := hgrows.id?_eq_of_regular htarget.sound.store.toRegular hprogress.sound.toRegular
      built_eq := hbuilt
      ids_eq := hgrows.ids
      nextId_eq := hgrows.nextId
      eq_with_store := rfl }

/-- Copying ends with a node of the same graph and nothing else changed, or, where there is
no node to copy, with an error and nothing changed at all. -/
theorem copy_adds_or_unknown (hsource : Reachable source) (htarget : Reachable target)
    (handle : Handle) :
    ((∃ node, source.store.node? handle = some node) ∧
      ∃ copy after, onStore (source.store.copyFrom handle) target = .ok copy after ∧
        source.store.Bisimilar handle after.store copy ∧ Adds target after) ∨
    (source.store.node? handle = none ∧
      onStore (source.store.copyFrom handle) target = .error (.unknownNode handle) target) := by
  rcases Nat.lt_or_ge handle source.store.size with hlt | hle
  · obtain ⟨copy, after, hcopy, -, hsame, hadds⟩ := exists_copy hsource htarget hlt
    exact .inl ⟨hsource.sound.store.filled hlt, copy, after, hcopy, hsame, hadds⟩
  · exact .inr ⟨Store.node?_eq_none_of_le hle, onStore_eq_error (Store.copyFrom_of_size_le hle)⟩

/-- A chain is copied into a catalog that has none, with the way back that it has. -/
theorem copy_adds_or_unknown_chain : ∃ copy copied,
    onStore ((after (getOrAdd .write chainType) chainCatalog).store.copyFrom 0) chainCatalog =
      .ok copy copied ∧
    (after (getOrAdd .write chainType) chainCatalog).store.Bisimilar 0 copied.store copy ∧
      Adds chainCatalog copied := by
  have hsource : Reachable (after (getOrAdd .write chainType) chainCatalog) :=
    .step (.getOrAdd .write chainType) reachable_chainCatalog
  have hnode : (after (getOrAdd .write chainType) chainCatalog).store.node? 0 =
      some (.recordWrite [⟨⟨"next"⟩, 1⟩]) := by cbv
  rcases copy_adds_or_unknown hsource reachable_chainCatalog 0 with ⟨-, hcopied⟩ | ⟨hnone, -⟩
  · exact hcopied
  · rw [hnode] at hnone
    cases hnone

/-- Copies of two graphs, one taken after the other. -/
theorem exists_copies (hsource : Reachable source) (htarget : Reachable target)
    {first second : Handle} (hfirst : first < source.store.size)
    (hsecond : second < source.store.size) :
    ∃ first' between second' after,
      onStore (source.store.copyFrom first) target = .ok first' between ∧
      onStore (source.store.copyFrom second) between = .ok second' after ∧
      after.store.Regular ∧ source.store.Bisimilar first after.store first' ∧
        source.store.Bisimilar second after.store second' := by
  obtain ⟨first', between, hcopy, hbetween, hsame, -⟩ := exists_copy hsource htarget hfirst
  obtain ⟨second', after, hcopy', hafter, hsame', hadds⟩ := exists_copy hsource hbetween hsecond
  refine ⟨first', between, second', after, hcopy, hcopy', hafter.sound.store.toRegular, ?_, hsame'⟩
  refine hsame.mono (fun _ _ hnode => hnode) fun handle node hnode => ?_
  exact (hadds.node?_eq handle (Store.lt_size_of_node? hnode)).trans hnode

/-- What can be read survives copying both graphs into another catalog, whichever of them is
copied first and whatever the other catalog has. -/
theorem canRead_copies (hsource : Reachable source) (htarget : Reachable target)
    (hread : read < source.store.size) (hwrite : write < source.store.size) :
    (∃ write' between read' after,
      onStore (source.store.copyFrom write) target = .ok write' between ∧
      onStore (source.store.copyFrom read) between = .ok read' after ∧
      ∀ strict, after.store.canRead strict read' write' =
        source.store.canRead strict read write) ∧
    ∃ read' between write' after,
      onStore (source.store.copyFrom read) target = .ok read' between ∧
      onStore (source.store.copyFrom write) between = .ok write' after ∧
      ∀ strict, after.store.canRead strict read' write' =
        source.store.canRead strict read write := by
  have hregular := hsource.sound.store.toRegular
  constructor
  · obtain ⟨write', between, read', after, hcopy, hcopy', hafter, hsame, hsame'⟩ :=
      exists_copies hsource htarget hwrite hread
    exact ⟨write', between, read', after, hcopy, hcopy', fun strict =>
      Store.canRead_eq_of_bisimilar hregular hafter hsame' hsame⟩
  · obtain ⟨read', between, write', after, hcopy, hcopy', hafter, hsame, hsame'⟩ :=
      exists_copies hsource htarget hread hwrite
    exact ⟨read', between, write', after, hcopy, hcopy', fun strict =>
      Store.canRead_eq_of_bisimilar hregular hafter hsame hsame'⟩

/-- A catalog with the chain as it is read and as it is written. -/
def chainsCatalog : Catalog :=
  after (getOrAdd .read chainType) (after (getOrAdd .write chainType) chainCatalog)

theorem reachable_chainsCatalog : Reachable chainsCatalog :=
  .step (.getOrAdd .read chainType) (.step (.getOrAdd .write chainType) reachable_chainCatalog)

/-- Copies of the chain can be read as the chain can. -/
theorem canRead_copies_chain : ∃ write' between read' after,
    onStore (chainsCatalog.store.copyFrom 0) chainCatalog = .ok write' between ∧
      onStore (chainsCatalog.store.copyFrom 2) between = .ok read' after ∧
        ∀ strict, after.store.canRead strict read' write' = true := by
  have hsize : chainsCatalog.store.size = 4 := by cbv
  have hread : ∀ strict, chainsCatalog.store.canRead strict 2 0 = true := by
    rintro (_ | _) <;> cbv
  obtain ⟨⟨write', between, read', after, hwrite, hread', hsame⟩, -⟩ :=
    canRead_copies reachable_chainsCatalog reachable_chainCatalog
      (lt_of_lt_of_eq (by decide : 2 < 4) hsize.symm)
      (lt_of_lt_of_eq (by decide : 0 < 4) hsize.symm)
  exact ⟨write', between, read', after, hwrite, hread', fun strict =>
    (hsame strict).trans (hread strict)⟩

end Catalog

end WireSchema
