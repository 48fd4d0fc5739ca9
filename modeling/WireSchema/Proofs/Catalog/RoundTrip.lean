/-
# Types make the round trip

The graph of a type is of the side it was built for, and names stand for definitions that
are not nullable, so no node of it is nullable twice.  It keeps these properties whatever
the catalog does later, and can be exported and imported into every catalog.
-/

import WireSchema.Proofs.Catalog.Description
import WireSchema.Proofs.Document.RoundTrip

namespace WireSchema

/-- The layer of a type is of the side it is made for. -/
theorem TypeDef.serves_of_layer {direction : Direction} {type : TypeDef}
    {layer : Node Name TypeDef} (h : type.layer direction = .ok layer) :
    layer.kind.serves direction = true := by
  cases type with
  | primitive | unit => cases h; rfl
  | enumeration name members =>
      rw [TypeDef.layer] at h
      split at h <;> cases h
      rfl
  | nullable inner =>
      cases inner <;> cases h <;> exact decide_eq_true rfl
  | list | dictionary =>
      cases h
      exact decide_eq_true rfl
  | record name fields => cases direction <;> cases h <;> rfl
  | union name members =>
      rw [TypeDef.layer] at h
      split at h <;> cases h
      exact decide_eq_true rfl
  | named | foreign => cases h

/-- Only a type that is nullable once has a nullable layer. -/
theorem TypeDef.exists_inner_of_layer {direction side : Direction} {type : TypeDef}
    {layer : Node Name TypeDef} (h : type.layer direction = .ok layer)
    (hkind : layer.kind = .nullable side) : ∃ inner, type = .nullable inner ∧
      layer = .nullable direction inner ∧ ∀ below, inner ≠ .nullable below := by
  cases type with
  | nullable inner => cases inner <;> cases h <;> exact ⟨_, rfl, rfl, nofun⟩
  | primitive | unit | list | dictionary => cases h; cases hkind
  | enumeration | union =>
      rw [TypeDef.layer] at h
      split at h <;> cases h
      cases hkind
  | record => cases direction <;> cases h <;> cases hkind
  | named | foreign => cases h

/-- What a type stands for is nullable only if the type is. -/
theorem Plan.eq_of_target_nullable {plan : Plan} {type inner : TypeDef}
    (h : plan.target type = .ok (.nullable inner)) : type = .nullable inner := by
  rcases Plan.target_eq_or_mem h with rfl | ⟨-, hname⟩
  · rfl
  · cases hname

namespace Catalog

variable {catalog : Catalog} {direction : Direction} {type : TypeDef} {handle root : Handle}

/-- Everything below the node of a type is the node of a type. -/
theorem Describes.below (h : catalog.Describes direction type root)
    (hbelow : catalog.store.Below root handle) :
    ∃ type, catalog.Describes direction type handle := by
  induction hbelow with
  | refl => exact ⟨type, h⟩
  | tail _ hchild ih =>
      obtain ⟨parent, hparent⟩ := ih
      obtain ⟨node, hnode, hmem⟩ := hchild
      obtain ⟨layer, node', -, hnode', hsimilar⟩ := hparent.unfold
      cases hnode.symm.trans hnode'
      obtain ⟨child, -, hchild⟩ := hsimilar.exists_left hmem
      exact ⟨child, hchild⟩

theorem Describes.serves (h : catalog.Describes direction type handle) {node : Node Name Handle}
    (hnode : catalog.store.node? handle = some node) : node.kind.serves direction = true := by
  obtain ⟨arranged, node', hlayering, hnode', hsimilar⟩ := h.unfold
  cases hnode.symm.trans hnode'
  obtain ⟨target, layer, -, hlayer, harrange⟩ := Plan.layering_eq_some_iff.1 hlayering
  rw [← hsimilar.kind_eq, Node.kind_of_arrange harrange]
  exact TypeDef.serves_of_layer hlayer

/-- The node of a nullable type has the node of the type within below it. -/
theorem Describes.nullable (h : catalog.Describes direction type handle) {side : Direction}
    {inner : Handle} (hnode : catalog.store.node? handle = some (.nullable side inner)) :
    ∃ within, type = .nullable within ∧ (∀ below, within ≠ .nullable below) ∧
      catalog.Describes direction within inner := by
  obtain ⟨arranged, node, hlayering, hnode', hsimilar⟩ := h.unfold
  cases hnode.symm.trans hnode'
  obtain ⟨target, layer, htarget, hlayer, harrange⟩ := Plan.layering_eq_some_iff.1 hlayering
  have hkind : layer.kind = .nullable side :=
    (Node.kind_of_arrange harrange).symm.trans hsimilar.kind_eq
  obtain ⟨within, rfl, rfl, hsingle⟩ := TypeDef.exists_inner_of_layer hlayer hkind
  cases harrange
  obtain ⟨below, hbelow, hdescribes⟩ := hsimilar.exists_left List.mem_cons_self
  cases List.mem_singleton.1 hbelow
  exact ⟨within, Plan.eq_of_target_nullable htarget, hsingle, hdescribes⟩

/-- The graph of a type is of one side, and none of its nodes is nullable twice. -/
theorem Describes.oneSided (h : catalog.Describes direction type root) :
    catalog.store.OneSided direction root where
  serves hbelow hnode := by
    obtain ⟨type, htype⟩ := h.below hbelow
    exact htype.serves hnode
  single hbelow hnode hinner := by
    obtain ⟨type, htype⟩ := h.below hbelow
    obtain ⟨within, -, hsingle, hwithin⟩ := htype.nullable hnode
    obtain ⟨below, hbelow, -⟩ := hwithin.nullable hinner
    exact hsingle below hbelow

/-- The graph that was built for a type can be exported at any later time, and the document
can be imported into every catalog, which gives the same graph. -/
theorem exists_roundTrip_of_getOrAdd {earlier returned : Catalog} (h : Reachable earlier)
    (hbuild : getOrAdd direction type earlier = .ok handle returned)
    (hlater : Later returned catalog) (hids : catalog.store.AllReferable handle) :
    ∃ document exported,
      onStore (Store.exportGraph handle true) catalog = .ok document exported ∧
        ∀ target, Reachable target → ∃ copy imported,
          onStore (Store.importDocument direction document) target = .ok copy imported ∧
            catalog.store.Bisimilar handle imported.store copy := by
  have hends := getOrAdd_ends h.sound direction type
  rw [hbuild] at hends
  have hfollows := hlater.follows hends.1.sound
  have hdescribes := hfollows.keeps.describes hends.2
  obtain ⟨arranged, node, -, hnode, -⟩ := hdescribes.unfold
  obtain ⟨document, store, hexport, himport⟩ := Store.exists_roundTrip hfollows.sound.store
    (Store.lt_size_of_node? hnode) hdescribes.oneSided hids
  refine ⟨document, _, onStore_eq_ok hexport, fun target htarget => ?_⟩
  obtain ⟨copy, result, hrun, hsame⟩ := himport target.store htarget.sound.store
  exact ⟨copy, _, onStore_eq_ok hrun, hsame⟩

theorem id?_chainStore (handle : Handle) : chainStore.id? handle = none := by
  match handle with
  | 0 | 1 => rfl
  | handle + 2 => rfl

theorem exists_roundTrip_of_getOrAdd_chain : ∃ handle returned document exported,
    getOrAdd .write (.named "Node") chainCatalog = .ok handle returned ∧
      onStore (Store.exportGraph handle true) returned = .ok document exported ∧
        ∀ target, Reachable target → ∃ copy imported,
          onStore (Store.importDocument .write document) target = .ok copy imported ∧
            returned.store.Bisimilar handle imported.store copy := by
  have hids : chainStore.AllReferable 0 := fun handle node id _ _ _ hid => by
    rw [id?_chainStore] at hid
    cases hid
  obtain ⟨document, exported, hround⟩ :=
    exists_roundTrip_of_getOrAdd reachable_chainCatalog getOrAdd_chain .refl hids
  exact ⟨_, _, document, exported, getOrAdd_chain, hround⟩

end Catalog

end WireSchema
