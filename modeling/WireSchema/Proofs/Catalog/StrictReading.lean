/-
# Strict reading between types

A type that has been built for both sides has a graph by which it is read and one by which it
is written.  The first is the second seen from the other side, so a type reads another in
strict mode exactly if the two are written alike.  Reading in strict mode is therefore an
equivalence of types, and depends on nothing that the graphs do not show.
-/

import WireSchema.Proofs.Catalog.Resemblance
import WireSchema.Proofs.Catalog.RoundTrip
import WireSchema.Proofs.Compatibility.Looser
import WireSchema.Proofs.Compatibility.Strict

namespace WireSchema

/-- What describes a type to its readers describes it to its writers, seen from the other
side. -/
theorem TypeDef.Describes.written {D : TypeDef → Handle → Prop} {type : TypeDef}
    {node : Node Name Handle} (h : type.Describes .read D node) :
    type.Describes .write D node.written := by
  cases h with
  | primitive type => exact .primitive type
  | unit => exact .unit
  | enumeration hmembers => exact .enumeration hmembers
  | nullable hinner => exact .nullable hinner
  | list hitem => exact .list hitem
  | dictionary hkey hvalue => exact .dictionary hkey hvalue
  | recordWrite hdirection => cases hdirection
  | recordRead _ hfields =>
      obtain ⟨fields, hperm, hrel⟩ := hfields
      refine .recordWrite rfl ⟨fields, hperm, List.forall₂_map_right_iff.2 ?_⟩
      exact hrel.imp fun _ _ hread => ⟨hread.same_name, hread.target⟩
  | union hmembers => exact .union hmembers

namespace Catalog

variable {catalog : Catalog} {type : TypeDef} {read write handle : Handle} {direction : Direction}

/-- The two graphs of a type are the two sides of one graph. -/
theorem agree_written (hregular : catalog.store.Regular)
    (hread : catalog.Describes .read type read) (hwrite : catalog.Describes .write type write) :
    Layering.Agree catalog.store.written? catalog.store.node? read write := by
  refine Layering.Agree.of_closed (R := fun read write => ∃ type,
    catalog.Describes .read type read ∧ catalog.Describes .write type write) ?_
    ⟨type, hread, hwrite⟩
  rintro read write ⟨type, hread, hwrite⟩
  obtain ⟨target, reader, htarget, hreader, hdescribes⟩ := explains_describes type read hread
  obtain ⟨found, writer, hfound, hwriter, hdescribes'⟩ := explains_describes type write hwrite
  obtain rfl := htarget.unique hfound
  have hsimilar := hdescribes.written.similar hdescribes' (hdescribes.resembles_self .write)
    (Node.arranged_written_iff.2 (hregular.arranged hreader)) (hregular.arranged hwriter)
  refine ⟨reader.written, writer, Store.written?_eq_some_iff.2 ⟨reader, hreader, rfl⟩, hwriter,
    hsimilar.imp ?_⟩
  rintro r w ⟨a, _, rfl, hr, hw⟩
  exact ⟨a, hr, hw⟩

/-- The handle was returned for the type on one side, and the catalog has come from there. -/
def Returned (catalog : Catalog) (direction : Direction) (type : TypeDef) (handle : Handle) :
    Prop :=
  ∃ before returned, Reachable before ∧
    getOrAdd direction type before = .ok handle returned ∧ Later returned catalog

theorem returned_of_answer {before : Catalog} (h : Reachable before)
    (hanswer : answer (getOrAdd direction type) before = some handle)
    (hlater : Later (after (getOrAdd direction type) before) catalog) :
    catalog.Returned direction type handle :=
  ⟨before, _, h, eq_ok_of_answer hanswer, hlater⟩

theorem Returned.describes (h : catalog.Returned direction type handle) :
    catalog.Describes direction type handle := by
  obtain ⟨before, returned, hbefore, hbuild, hlater⟩ := h
  have hends := getOrAdd_ends hbefore.sound direction type
  rw [hbuild] at hends
  exact (hlater.follows hends.1.sound).keeps.describes hends.2

/-- A type that has been built for both sides, with the handles that were returned. -/
structure BuiltType (catalog : Catalog) where
  type : TypeDef
  read : Handle
  write : Handle
  read_returned : catalog.Returned .read type read
  write_returned : catalog.Returned .write type write

/-- The types are written alike. -/
def BuiltType.SameShape (a b : BuiltType catalog) : Prop :=
  catalog.store.Bisimilar a.write catalog.store b.write

theorem BuiltType.canRead_iff (h : Reachable catalog) (a b : BuiltType catalog) :
    catalog.store.canRead true a.read b.write = true ↔ a.SameShape b := by
  have hregular := h.sound.store.toRegular
  have hsides := agree_written hregular a.read_returned.describes a.write_returned.describes
  rw [Store.canRead_strict_iff hregular a.read_returned.describes.oneSided
    b.write_returned.describes.oneSided]
  exact ⟨fun hagree => hsides.symm.trans hagree, fun hsame => hsides.trans hsame⟩

theorem BuiltType.sameShape_equivalence (catalog : Catalog) :
    Equivalence fun a b : BuiltType catalog => a.SameShape b where
  refl a := a.write_returned.describes.symm.trans a.write_returned.describes
  symm h := h.symm
  trans h h' := h.trans h'

theorem BuiltType.sameShape_of_resemble (h : Reachable catalog) {a a' : BuiltType catalog}
    (hsame : catalog.Resemble .write a.type a'.type) : a.SameShape a' :=
  bisimilar_of_resemble h.sound.store.toRegular hsame a.write_returned.describes
    a'.write_returned.describes

/-- A type reads another in strict mode exactly if the comparison finds the two written alike.
This is an equivalence of types, and types of the same form, whose names, spellings and
defaults may differ, read and are read alike. -/
theorem canRead_strict_sameShape (h : Reachable catalog) :
    (∀ a b : BuiltType catalog, catalog.store.canRead true a.read b.write =
      catalog.store.equivalent a.write catalog.store b.write) ∧
    (Equivalence fun a b : BuiltType catalog =>
      catalog.store.canRead true a.read b.write = true) ∧
    ∀ a a' b : BuiltType catalog, catalog.Resemble .write a.type a'.type →
      catalog.store.canRead true a.read b.write = catalog.store.canRead true a'.read b.write ∧
      catalog.store.canRead true b.read a.write = catalog.store.canRead true b.read a'.write := by
  refine ⟨fun a b => ?_, ?_, fun a a' b hresemble => ?_⟩
  · rw [Bool.eq_iff_iff, BuiltType.canRead_iff h, Store.equivalent_eq_true_iff]
    rfl
  · simp only [BuiltType.canRead_iff h]
    exact BuiltType.sameShape_equivalence catalog
  · have hsame : a.SameShape a' := BuiltType.sameShape_of_resemble h hresemble
    constructor
    · rw [Bool.eq_iff_iff, BuiltType.canRead_iff h, BuiltType.canRead_iff h]
      exact ⟨hsame.symm.trans, hsame.trans⟩
    · rw [Bool.eq_iff_iff, BuiltType.canRead_iff h, BuiltType.canRead_iff h]
      exact ⟨fun hread => hread.trans hsame, fun hread => hread.trans hsame.symm⟩

/-- The catalog with both sides of both chains, of which one needs the next. -/
def alikeCatalog : Catalog :=
  after (getOrAdd .write itemType) itemCatalog

theorem reachable_alikeCatalog : Reachable alikeCatalog :=
  .step (.getOrAdd .write itemType) reachable_itemCatalog

theorem later_alikeCatalog : Later chainsCatalog alikeCatalog :=
  .step (.getOrAdd .write itemType)
    (.step (.getOrAdd .read itemType) (.step (.register itemType) .refl))

/-- The chain without need for the next, with the handles of both sides. -/
def builtChain : BuiltType alikeCatalog where
  type := chainType
  read := 2
  write := 0
  read_returned := returned_of_answer
    (.step (.getOrAdd .write chainType) reachable_chainCatalog) (by cbv) later_alikeCatalog
  write_returned := returned_of_answer reachable_chainCatalog (by cbv)
    (.step (.getOrAdd .write itemType) (.step (.getOrAdd .read itemType)
      (.step (.register itemType) (.step (.getOrAdd .read chainType) .refl))))

/-- The chain that needs the next, which is written by the same node. -/
def builtItem : BuiltType alikeCatalog where
  type := itemType
  read := 4
  write := 0
  read_returned := returned_of_answer (.step (.register itemType) reachable_chainsCatalog)
    (by cbv) (.step (.getOrAdd .write itemType) .refl)
  write_returned := returned_of_answer reachable_itemCatalog (by cbv) .refl

/-- The chains differ in their names and in the default of their field. -/
theorem resemble_alikeCatalog : alikeCatalog.Resemble .write chainType itemType := by
  have hnode : alikeCatalog.definition? "Node" = some ⟨chainType, "Node", rfl⟩ := by cbv
  have hitem : alikeCatalog.definition? "Item" = some ⟨itemType, "Item", rfl⟩ := by cbv
  refine ⟨fun a b => (a = chainType ∧ b = itemType) ∨ (a = .named "Node" ∧ b = .named "Item") ∨
    (a = .nullable (.named "Node") ∧ b = .nullable (.named "Item")), .inl ⟨rfl, rfl⟩, ?_⟩
  have hrecord : chainType.Resembles .write (fun a b => (a = chainType ∧ b = itemType) ∨
      (a = .named "Node" ∧ b = .named "Item") ∨
      (a = .nullable (.named "Node") ∧ b = .nullable (.named "Item"))) itemType :=
    .record ⟨_, .refl _, .cons ⟨decide_eq_true rfl, .inr (.inr ⟨rfl, rfl⟩), nofun⟩ .nil⟩
  rintro a b (⟨rfl, rfl⟩ | ⟨rfl, rfl⟩ | ⟨rfl, rfl⟩)
  · exact ⟨_, _, .itself nofun, .itself nofun, hrecord⟩
  · exact ⟨_, _, .name hnode, .name hitem, hrecord⟩
  · exact ⟨_, _, .itself nofun, .itself nofun, .nullable (.inr (.inl ⟨rfl, rfl⟩))⟩

/-- Each chain can be read as the other in strict mode. -/
theorem canRead_strict_sameShape_chain :
    alikeCatalog.store.canRead true builtChain.read builtItem.write = true ∧
      alikeCatalog.store.canRead true builtItem.read builtChain.write = true ∧
        alikeCatalog.store.equivalent builtChain.write alikeCatalog.store builtItem.write =
          true := by
  obtain ⟨hequivalent, hequivalence, hresemble⟩ := canRead_strict_sameShape reachable_alikeCatalog
  have hself := hequivalence.refl builtChain
  have halike := hresemble builtChain builtItem builtChain resemble_alikeCatalog
  have hread := halike.2.symm.trans hself
  exact ⟨hread, halike.1.symm.trans hself, (hequivalent builtChain builtItem).symm.trans hread⟩

end Catalog

end WireSchema
