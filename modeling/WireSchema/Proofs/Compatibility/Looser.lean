/-
# Readers that ask for less

One node is looser than another when it asks for less of what it reads, at every depth:
it has fewer fields, needs fewer of them, knows more members, or allows nothing where
something was asked for.  On cyclic graphs this is the largest relation that each node
justifies by the nodes below (`Store.isGreatest_looser`).  What a node reads in lenient
mode, every looser node reads too.
-/

import WireSchema.Proofs.Catalog.Copy
import WireSchema.Proofs.Compatibility.Check

namespace WireSchema

/-- The second node is of the kind of the first and asks for no more than the first, when
the pairs in `R` are of nodes of which the second is looser. -/
inductive Node.Loosens (R : Handle → Handle → Prop) :
    Node Name Handle → Node Name Handle → Prop
  | primitive (type : Primitive) : Loosens R (.primitive type) (.primitive type)
  | empty : Loosens R .empty .empty
  /-- No member is missing, up to case. -/
  | enumeration {members members' : List Name} :
      (∀ name ∈ members.map Name.folded, name ∈ members'.map Name.folded) →
        Loosens R (.enumeration members) (.enumeration members')
  | nullable {direction : Direction} {inner inner' : Handle} : R inner inner' →
      Loosens R (.nullable direction inner) (.nullable direction inner')
  | list {direction : Direction} {item item' : Handle} : R item item' →
      Loosens R (.list direction item) (.list direction item')
  | dictionary {direction : Direction} {key value key' value' : Handle} :
      R key key' → R value value' →
        Loosens R (.dictionary direction key value) (.dictionary direction key' value')
  | recordWrite {fields fields' : List (Member Name Handle)} :
      (∀ field' ∈ fields', ∃ field ∈ fields, field.name.folded = field'.name.folded ∧
        R field.target field'.target) →
        Loosens R (.recordWrite fields) (.recordWrite fields')
  /-- No field is new, and none that could be missing has to be there. -/
  | recordRead {fields fields' : List (Input Name Handle)} :
      (∀ field' ∈ fields', ∃ field ∈ fields, field.name.folded = field'.name.folded ∧
        (field'.required = true → field.required = true) ∧ R field.target field'.target) →
        Loosens R (.recordRead fields) (.recordRead fields')
  /-- No member is missing. -/
  | union {direction : Direction} {members members' : List (Member Name Handle)} :
      (∀ member ∈ members, ∃ member' ∈ members', member.name.folded = member'.name.folded ∧
        R member.target member'.target) →
        Loosens R (.union direction members) (.union direction members')

theorem Node.Loosens.imp {R S : Handle → Handle → Prop} {reader reader' : Node Name Handle}
    (h : reader.Loosens R reader') (himp : ∀ a b, R a b → S a b) : reader.Loosens S reader' := by
  cases h with
  | primitive type => exact .primitive type
  | empty => exact .empty
  | enumeration hmembers => exact .enumeration hmembers
  | nullable hinner => exact .nullable (himp _ _ hinner)
  | list hitem => exact .list (himp _ _ hitem)
  | dictionary hkey hvalue => exact .dictionary (himp _ _ hkey) (himp _ _ hvalue)
  | recordWrite hfields =>
      refine .recordWrite fun field' hfield' => ?_
      obtain ⟨field, hfield, hname, hR⟩ := hfields field' hfield'
      exact ⟨field, hfield, hname, himp _ _ hR⟩
  | recordRead hfields =>
      refine .recordRead fun field' hfield' => ?_
      obtain ⟨field, hfield, hname, hneeded, hR⟩ := hfields field' hfield'
      exact ⟨field, hfield, hname, hneeded, himp _ _ hR⟩
  | union hmembers =>
      refine .union fun member hmember => ?_
      obtain ⟨member', hmember', hname, hR⟩ := hmembers member hmember
      exact ⟨member', hmember', hname, himp _ _ hR⟩

namespace Store

variable {store : Store} {R : Handle → Handle → Prop} {read looser : Handle}

/-- In each related pair the second node allows null around something looser than the first, or
the two are of one kind and the second asks for no more. -/
def Loosening (store : Store) (R : Handle → Handle → Prop) : Prop :=
  ∀ read looser, R read looser → ∃ reader reader', store.node? read = some reader ∧
    store.node? looser = some reader' ∧
      ((reader.kind ≠ .nullable .read ∧
        ∃ inner, reader' = .nullable .read inner ∧ R read inner) ∨ reader.Loosens R reader')

/-- The second node asks for no more than the first, at every depth. -/
def Looser (store : Store) (read looser : Handle) : Prop :=
  ∃ R : Handle → Handle → Prop, store.Loosening R ∧ R read looser

theorem loosening_looser : store.Loosening store.Looser := by
  rintro read looser ⟨R, hR, hpair⟩
  have himp : ∀ a b, R a b → store.Looser a b := fun a b hab => ⟨R, hR, hab⟩
  obtain ⟨reader, reader', hreader, hreader', hcase⟩ := hR read looser hpair
  refine ⟨reader, reader', hreader, hreader', hcase.imp ?_ fun h => h.imp himp⟩
  rintro ⟨hkind, inner, heq, hinner⟩
  exact ⟨hkind, inner, heq, himp _ _ hinner⟩

/-- To be looser is the largest relation that each pair justifies by the nodes below. -/
theorem isGreatest_looser : IsGreatest {R | store.Loosening R} store.Looser :=
  ⟨loosening_looser, fun R hR _ _ hpair => ⟨R, hR, hpair⟩⟩

end Store

namespace Compatibility

variable {R L S : Handle → Handle → Prop} {write : Handle}

/-- Fields that may be missing in what is written may be missing for a looser reader. -/
theorem FieldsAccept.loosen {reads reads' : List (Input Name Handle)}
    {writes : List (Member Name Handle)} (h : FieldsAccept false R reads writes)
    (hfields : ∀ read' ∈ reads', ∃ read ∈ reads, read.name.folded = read'.name.folded ∧
      (read'.required = true → read.required = true) ∧ L read.target read'.target)
    (hS : ∀ r r' w, L r r' → R r w → S r' w) : FieldsAccept false S reads' writes where
  shared read' hread' write hwrite heq := by
    obtain ⟨read, hread, hname, -, hL⟩ := hfields read' hread'
    exact hS _ _ _ hL (h.shared read hread write hwrite (hname.trans heq))
  unwritten read' hread' hnone := by
    obtain ⟨read, hread, hname, hneeded, -⟩ := hfields read' hread'
    have hoptional := (h.unwritten read hread fun write hwrite heq =>
      hnone write hwrite (hname.symm.trans heq)).2
    refine ⟨rfl, Bool.eq_false_of_not_eq_true fun hrequired => ?_⟩
    rw [hneeded hrequired] at hoptional
    cases hoptional
  known := nofun

/-- Only a nullable reader accepts a nullable writer. -/
theorem Accepts.kind_ne {strict : Bool} {reader writer : Node Name Handle}
    (h : Accepts strict R write reader writer) (hkind : reader.kind ≠ .nullable .read) :
    writer.kind ≠ .nullable .write := by
  cases h <;> simp_all [Node.kind]

/-- What a reader accepts in lenient mode is accepted by one of its kind that asks for no
more. -/
theorem Accepts.loosen {reader reader' writer : Node Name Handle}
    (h : Accepts false R write reader writer) (hlooser : reader.Loosens L reader')
    (hS : ∀ r r' w, L r r' → R r w → S r' w) : Accepts false S write reader' writer := by
  cases hlooser with
  | primitive type =>
      cases h with
      | primitive => exact .primitive type
      | wider _ hwider => exact .wider rfl hwider
  | empty =>
      cases h with
      | empty => exact .empty
      | emptyOfRecord => exact .emptyOfRecord rfl
  | enumeration hmembers =>
      cases h with
      | sameMembers hsame =>
          exact .moreMembers rfl fun name hname => hmembers name ((hsame name).2 hname)
      | moreMembers _ hmore =>
          exact .moreMembers rfl fun name hname => hmembers name (hmore name hname)
  | nullable hinner =>
      cases h with
      | nullable hR => exact .nullable (hS _ _ _ hinner hR)
      | present _ hne hR => exact .present rfl hne (hS _ _ _ hinner hR)
  | list hitem =>
      cases h with
      | list hR => exact .list (hS _ _ _ hitem hR)
  | dictionary hkey hvalue =>
      cases h with
      | dictionary hR hR' => exact .dictionary (hS _ _ _ hkey hR) (hS _ _ _ hvalue hR')
  | recordWrite => cases h
  | recordRead hfields =>
      cases h with
      | record haccept => exact .record (haccept.loosen hfields hS)
      | recordOfEmpty _ hoptional =>
          refine .recordOfEmpty rfl fun read' hread' => ?_
          obtain ⟨read, hread, -, hneeded, -⟩ := hfields read' hread'
          refine Bool.eq_false_of_not_eq_true fun hrequired => ?_
          exact absurd (hoptional read hread) (by rw [hneeded hrequired]; exact Bool.noConfusion)
  | union hmembers =>
      cases h with
      | union hread _ =>
          refine .union (fun written hwritten => ?_) nofun
          obtain ⟨member, hmember, hname, hR⟩ := hread written hwritten
          obtain ⟨member', hmember', hname', hL⟩ := hmembers member hmember
          exact ⟨member', hmember', hname'.symm.trans hname, hS _ _ _ hL hR⟩

end Compatibility

namespace Catalog

open Compatibility

/-- What can be read in lenient mode can be read by a looser reader. -/
theorem canRead_of_looser {catalog : Catalog} {read looser write : Handle} (h : Reachable catalog)
    (hlooser : catalog.store.Looser read looser)
    (hread : catalog.store.canRead false read write = true) :
    catalog.store.canRead false looser write = true := by
  have hregular := h.sound.store.toRegular
  obtain ⟨R, hR, hpair⟩ := Store.canRead_eq_true_iff.1 hread
  refine Store.canRead_eq_true_iff.2
    ⟨fun looser write => ∃ read, catalog.store.Looser read looser ∧ R read write, ?_,
      read, hlooser, hpair⟩
  rintro looser write ⟨read, hlooser, hpair⟩
  obtain ⟨reader, writer, hreader, hwriter, haccepts⟩ :=
    (Store.passes_iff hregular).1 (hR read write hpair)
  obtain ⟨found, reader', hfound, hreader', hcase⟩ := Store.loosening_looser read looser hlooser
  cases hreader.symm.trans hfound
  refine (Store.passes_iff hregular).2 ⟨reader', writer, hreader', hwriter, ?_⟩
  rcases hcase with ⟨hkind, inner, rfl, hinner⟩ | hcase
  · -- The nullable reader passes the writer on to its inner node.
    exact .present rfl (haccepts.kind_ne hkind) ⟨read, hinner, hpair⟩
  · exact haccepts.loosen hcase fun r r' w hr hrw => ⟨r, hr, hrw⟩

/-- A chain whose items are read only with the next one. -/
def itemType : TypeDef :=
  .record "Item" [⟨"next", .nullable (.named "Item"), false⟩]

/-- A catalog in which a chain is written, and read with and without need for the next. -/
def itemCatalog : Catalog :=
  after (getOrAdd .read itemType) (after (register itemType) chainsCatalog)

theorem reachable_itemCatalog : Reachable itemCatalog :=
  .step (.getOrAdd .read itemType) (.step (.register itemType) reachable_chainsCatalog)

/-- To read nothing, or a chain without need for the next, is looser than to need the next. -/
theorem looser_itemCatalog : itemCatalog.store.Looser 4 3 := by
  have hitem : itemCatalog.store.node? 4 = some (.recordRead [⟨⟨"next"⟩, 5, true⟩]) := by cbv
  have hnext : itemCatalog.store.node? 5 = some (.nullable .read 4) := by cbv
  have hnode : itemCatalog.store.node? 2 = some (.recordRead [⟨⟨"next"⟩, 3, false⟩]) := by cbv
  have hnullable : itemCatalog.store.node? 3 = some (.nullable .read 2) := by cbv
  refine ⟨fun read looser => (read = 4 ∧ looser = 3) ∨ (read = 4 ∧ looser = 2) ∨
    (read = 5 ∧ looser = 3), ?_, .inl ⟨rfl, rfl⟩⟩
  rintro read looser (⟨rfl, rfl⟩ | ⟨rfl, rfl⟩ | ⟨rfl, rfl⟩)
  · exact ⟨_, _, hitem, hnullable, .inl ⟨by rintro ⟨⟩, 2, rfl, .inr (.inl ⟨rfl, rfl⟩)⟩⟩
  · refine ⟨_, _, hitem, hnode, .inr (.recordRead fun field' hfield' => ?_)⟩
    cases List.mem_singleton.1 hfield'
    exact ⟨_, List.mem_singleton_self _, rfl, by rintro ⟨⟩, .inr (.inr ⟨rfl, rfl⟩)⟩
  · exact ⟨_, _, hnext, hnullable, .inr (.nullable (.inr (.inl ⟨rfl, rfl⟩)))⟩

/-- The chain is read by the looser reader too. -/
theorem canRead_of_looser_item : itemCatalog.store.canRead false 4 0 = true ∧
    itemCatalog.store.canRead false 3 0 = true := by
  have hread : itemCatalog.store.canRead false 4 0 = true := by cbv
  exact ⟨hread, canRead_of_looser reachable_itemCatalog looser_itemCatalog hread⟩

end Catalog

end WireSchema
