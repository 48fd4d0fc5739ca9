/-
# Equal nodes of a catalog

Whether a node is new is looked up in the index when the node is stored.  A node that
waits for its slot to be filled can miss an equal node that is stored meanwhile, and then
the catalog has both.  That happens to recursive types only: in a reachable catalog equal
nodes have one handle unless a cycle is at or below them.
-/

import Mathlib.Data.Fintype.EquivFin
import WireSchema.Proofs.Catalog.Kept
import WireSchema.Proofs.Graph.Nodes
import WireSchema.Proofs.Store.Frugal

namespace WireSchema

namespace Store

variable {store : Store} {handle root : Handle} {node : Node Name Handle}

/-- One part of a graph is below another. -/
def PartBelow (store : Store) (root : Handle)
    (child parent : {handle : Fin store.size // store.Below root handle}) : Prop :=
  Relation.TransGen store.IsChild parent.1 child.1

/-- A graph that does not come to an end has a cycle. -/
theorem exists_cycle_of_not_finite (h : store.Sound) (hlt : root < store.size)
    (hendless : ¬ Layering.Finite store.node? root) :
    ∃ handle, store.Below root handle ∧ Relation.TransGen store.IsChild handle handle := by
  by_contra hnone
  have htrans : IsTrans _ (store.PartBelow root) := ⟨fun _ _ _ h h' => h'.trans h⟩
  have hirrefl : Std.Irrefl (store.PartBelow root) :=
    ⟨fun part hcycle => hnone ⟨part.1, part.2, hcycle⟩⟩
  have hdescent := Finite.wellFounded_of_trans_of_irrefl (store.PartBelow root)
  have hfinite : ∀ part : {handle : Fin store.size // store.Below root handle},
      Layering.Finite store.node? part.1 := by
    intro part
    induction part using hdescent.induction with
    | _ part ih =>
      obtain ⟨node, hnode⟩ := h.filled part.1.2
      refine .intro hnode fun child hchild => ?_
      have hstep : store.IsChild part.1 child := ⟨node, hnode, hchild⟩
      exact ih ⟨⟨child, h.children_lt hnode child hchild⟩, part.2.tail hstep⟩ (.single hstep)
  exact hendless (hfinite ⟨⟨root, hlt⟩, .refl⟩)

/-- A node of a regular store is found when it is stored again, or one that is equal. -/
theorem exists_internChecked (h : store.Regular) (hnode : store.node? handle = some node) :
    ∃ found other, internChecked node store = .ok found store ∧
      store.node? found = some other ∧ other.key = node.key := by
  obtain ⟨found, hget⟩ := h.index_complete hnode
  obtain ⟨other, hother, hkey⟩ := h.index_sound hget
  have hfind : node.children.find? (fun child => store.size ≤ child) = none := by
    refine List.find?_eq_none.2 fun child hchild => ?_
    simpa using h.children_lt hnode child hchild
  refine ⟨found, other, ?_, hother, hkey⟩
  rw [internChecked, hfind, intern_of_get?_eq_some hget]

end Store

theorem Building.maintains_frugal (direction : Direction) :
    Building.Maintains direction Store.Frugal where
  toMaintains := Store.maintains_frugal
  rollback _ h _ _ hextends := h.of_node?_eq hextends.node?_rollback_eq
  remember _ _ _ h := h.of_node?_eq fun _ => rfl

namespace Catalog

variable {catalog : Catalog}

theorem maintains_frugal : Maintains (fun _ => True) Store.Frugal where
  empty := .empty
  building := Building.maintains_frugal
  relabels h hrelabels := h.of_node?_eq hrelabels.node?_eq
  imports {store} direction document _ hstore h := by
    refine Ends.imp (Store.importDocument_ends hstore Store.maintains_frugal h direction document)
      ?_ ?_
    · rintro _ after ⟨⟨-, other, hother, hnodes⟩, -⟩
      exact hother.of_node?_eq hnodes
    · rintro _ after ⟨rfl, -⟩
      exact h

theorem Reachable.frugal (h : Reachable catalog) : catalog.store.Frugal :=
  maintains_frugal.keeps h.importing

/-- Of two equal nodes with handles of their own each has a cycle at or below it.  A node of
the catalog that is stored again adds nothing; it is found under its own handle unless a
cycle is at or below it. -/
theorem cyclic_of_equal_nodes (h : Reachable catalog) :
    (∀ a b x y, catalog.store.node? a = some x → catalog.store.node? b = some y →
      x.key = y.key → a ≠ b →
        ∃ below, catalog.store.Below a below ∧
          Relation.TransGen catalog.store.IsChild below below) ∧
    ∀ handle node, catalog.store.node? handle = some node → ∃ found other,
      onStore (Store.internChecked node) catalog = .ok found catalog ∧
        catalog.store.node? found = some other ∧ other.key = node.key ∧
          (found ≠ handle → ∃ below, catalog.store.Below handle below ∧
            Relation.TransGen catalog.store.IsChild below below) := by
  have hstore := h.sound.store
  have hequal : ∀ a b x y, catalog.store.node? a = some x → catalog.store.node? b = some y →
      x.key = y.key → a ≠ b → ∃ below, catalog.store.Below a below ∧
        Relation.TransGen catalog.store.IsChild below below :=
    fun a b x y ha hb hkey hne => Store.exists_cycle_of_not_finite hstore
      (Store.lt_size_of_node? ha) fun hfinite => hne (h.frugal.eq_of_key ha hb hkey hfinite)
  refine ⟨hequal, fun handle node hnode => ?_⟩
  obtain ⟨found, other, hintern, hfound, hkey⟩ :=
    Store.exists_internChecked hstore.toRegular hnode
  exact ⟨found, other, onStore_eq_ok hintern, hfound, hkey, fun hne =>
    hequal handle found node other hnode hfound hkey.symm hne.symm⟩

/-! ## A union whose members have equal nodes -/

/-- A record with a field of the type that is registered under the name. -/
def wrapperType (name target : String) : TypeDef :=
  .record name [⟨"x", .named target, false⟩]

/-- A union that refers to itself through two records with the same fields. -/
def twinsType : TypeDef :=
  .union "Twins" [⟨"a", wrapperType "First" "Twins"⟩, ⟨"b", wrapperType "Second" "Twins"⟩]

/-- A new catalog in which the first of the records has been built. -/
def twinsCatalog : Catalog :=
  after (getOrAdd .write (wrapperType "First" "Twins"))
    (after (register twinsType) (withProviders Provider.standard))

/-- The node of the records. -/
def twinNode : Node Name Handle :=
  .recordWrite [⟨⟨"x"⟩, 1⟩]

theorem reachable_twinsCatalog : Reachable twinsCatalog :=
  .step (.getOrAdd .write (wrapperType "First" "Twins"))
    (.step (.register twinsType) (.start Provider.standard))

theorem node?_twinsCatalog : twinsCatalog.store.node? 0 = some twinNode ∧
    twinsCatalog.store.node? 2 = some twinNode :=
  ⟨by cbv, by cbv⟩

theorem cyclic_of_equal_nodes_twins : ∃ below, twinsCatalog.store.Below 0 below ∧
    Relation.TransGen twinsCatalog.store.IsChild below below :=
  (cyclic_of_equal_nodes reachable_twinsCatalog).1 0 2 twinNode twinNode node?_twinsCatalog.1
    node?_twinsCatalog.2 rfl (by decide)

/-- The first record waits for its slot while the second is built and stored.  Both nodes
stay, and only the second is found. -/
theorem intern_twins : Reachable twinsCatalog ∧
    twinsCatalog.store.node? 0 = some twinNode ∧ twinsCatalog.store.node? 2 = some twinNode ∧
      onStore (Store.internChecked twinNode) twinsCatalog = .ok 2 twinsCatalog := by
  have hfound : twinsCatalog.store.index.get? twinNode.key = some 2 := by cbv
  have hchildren : twinNode.children.find? (fun child => twinsCatalog.store.size ≤ child) =
      none := by cbv
  have hintern : Store.internChecked twinNode twinsCatalog.store = .ok 2 twinsCatalog.store := by
    rw [Store.internChecked, hchildren, Store.intern_of_get?_eq_some hfound]
  exact ⟨reachable_twinsCatalog, node?_twinsCatalog.1, node?_twinsCatalog.2, onStore_eq_ok hintern⟩

end Catalog

end WireSchema
