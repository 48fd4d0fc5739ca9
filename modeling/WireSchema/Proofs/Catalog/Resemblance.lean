/-
# Types that say the same

Two types resemble each other on one side when they have the same form and are made of
types that resemble each other, whatever names they are registered under.  The names of the
types do not count, the names within count up to case and order, and whether a field has a
default counts on the side that reads.  Types that resemble each other lead to the same
graphs, however their definitions share or unroll what recurs.
-/

import WireSchema.Proofs.Catalog.Description

namespace WireSchema

/-- The fields have the same name up to case and related types, and a reader needs one if it
needs the other. -/
structure FieldDef.Resembles (direction : Direction) (R : TypeDef → TypeDef → Prop)
    (field field' : FieldDef TypeDef) : Prop where
  same_name : Name.same ⟨field'.name⟩ ⟨field.name⟩ = true
  type : R field.type field'.type
  hasDefault_eq : direction = .read → field'.hasDefault = field.hasDefault

/-- The alternatives have the same name up to case and related types. -/
structure MemberDef.Resembles (R : TypeDef → TypeDef → Prop)
    (member member' : MemberDef TypeDef) : Prop where
  same_name : Name.same ⟨member'.name⟩ ⟨member.name⟩ = true
  type : R member.type member'.type

/-- The definitions have the same form on one side, with related types within. -/
inductive TypeDef.Resembles (direction : Direction) (R : TypeDef → TypeDef → Prop) :
    TypeDef → TypeDef → Prop
  | primitive (type : Primitive) : Resembles direction R (.primitive type) (.primitive type)
  | unit : Resembles direction R .unit .unit
  | enumeration {name name' : String} {spellings spellings' : List String} :
      Paired (fun a b => Name.same ⟨b⟩ ⟨a⟩ = true) spellings spellings' →
        Resembles direction R (.enumeration name spellings) (.enumeration name' spellings')
  | nullable {inner inner' : TypeDef} : R inner inner' →
      Resembles direction R (.nullable inner) (.nullable inner')
  | list {item item' : TypeDef} : R item item' → Resembles direction R (.list item) (.list item')
  | dictionary {key value key' value' : TypeDef} : R key key' → R value value' →
      Resembles direction R (.dictionary key value) (.dictionary key' value')
  | record {name name' : String} {fields fields' : List (FieldDef TypeDef)} :
      Paired (FieldDef.Resembles direction R) fields fields' →
        Resembles direction R (.record name fields) (.record name' fields')
  | union {name name' : String} {members members' : List (MemberDef TypeDef)} :
      Paired (MemberDef.Resembles R) members members' →
        Resembles direction R (.union name members) (.union name' members')

section

variable {α β γ δ : Type} {P : α → γ → Prop} {Q : α → β → Prop} {P' : β → δ → Prop}
variable {S : γ → δ → Prop}

/-- What stands for items that come in pairs comes in pairs itself; in order by name the pairs
stand in the same places. -/
theorem forall₂_of_paired {as : List α} {bs : List β} {xs : List γ} {ys : List δ}
    (nameOf : γ → Name) (nameOf' : δ → Name) (h : Paired P as xs) (hpairs : Paired Q as bs)
    (h' : Paired P' bs ys) (hS : ∀ a b x y, P a x → Q a b → P' b y → S x y)
    (hname : ∀ x y, S x y → (nameOf x).folded = (nameOf' y).folded)
    (hxs : Name.Increasing (xs.map nameOf)) (hys : Name.Increasing (ys.map nameOf')) :
    List.Forall₂ S xs ys := by
  refine hxs.forall₂ hys hname (fun x hx => ?_) fun y hy => ?_
  · obtain ⟨a, ha, hax⟩ := h.exists_left hx
    obtain ⟨b, hb, hab⟩ := hpairs.exists_right ha
    obtain ⟨y, hy, hby⟩ := h'.exists_right hb
    exact ⟨y, hy, hS a b x y hax hab hby⟩
  · obtain ⟨b, hb, hby⟩ := h'.exists_left hy
    obtain ⟨a, ha, hab⟩ := hpairs.exists_left hb
    obtain ⟨x, hx, hax⟩ := h.exists_right ha
    exact ⟨x, hx, hS a b x y hax hab hby⟩

/-- Names that are spellings of two others are of one form if the others are. -/
theorem same_of_same {a b x y : Name} (hx : x.same a = true) (hab : b.same a = true)
    (hy : y.same b = true) : y.same x = true := by
  rw [Node.same_iff_folded_eq] at *
  exact hx.symm.trans (hab.trans hy)

end

variable {direction : Direction} {R : TypeDef → TypeDef → Prop} {D D' : TypeDef → Handle → Prop}
variable {type type' : TypeDef} {node node' : Node Name Handle}

/-- Nodes for types of the same form are similar. -/
theorem TypeDef.Describes.similar (h : type.Describes direction D node)
    (h' : type'.Describes direction D' node') (hsame : type.Resembles direction R type')
    (harranged : node.Arranged) (harranged' : node'.Arranged) :
    node.Similar (fun x y => ∃ a b, R a b ∧ D a x ∧ D' b y) node' := by
  cases hsame with
  | primitive =>
      cases h
      cases h'
      exact ⟨rfl, .nil⟩
  | unit =>
      cases h
      cases h'
      exact ⟨rfl, .nil⟩
  | enumeration hmembers =>
      cases h with | enumeration hnames => ?_
      cases h' with | enumeration hnames' => ?_
      refine Node.similar_enumeration_iff.2 (forall₂_of_paired id id hnames hmembers hnames'
        (fun a b x y hx hab hy => same_of_same hx hab hy)
        (fun x y hxy => Node.same_iff_folded_eq.1 hxy) ?_ ?_)
      · rwa [List.map_id]
      · rwa [List.map_id]
  | nullable hinner =>
      cases h with | nullable hD => ?_
      cases h' with | nullable hD' => ?_
      exact ⟨rfl, .cons ⟨_, _, hinner, hD, hD'⟩ .nil⟩
  | list hitem =>
      cases h with | list hD => ?_
      cases h' with | list hD' => ?_
      exact ⟨rfl, .cons ⟨_, _, hitem, hD, hD'⟩ .nil⟩
  | dictionary hkey hvalue =>
      cases h with | dictionary hD hE => ?_
      cases h' with | dictionary hD' hE' => ?_
      exact ⟨rfl, .cons ⟨_, _, hkey, hD, hD'⟩ (.cons ⟨_, _, hvalue, hE, hE'⟩ .nil)⟩
  | record hfields =>
      cases h with
      | recordWrite hdirection hmembers =>
          cases h' with
          | recordRead hdirection' => cases hdirection.symm.trans hdirection'
          | recordWrite _ hmembers' =>
              refine Node.similar_recordWrite_iff.2 (forall₂_of_paired _ _ hmembers hfields
                hmembers'
                (fun a b x y hx hab hy => ?_) (fun x y hxy => Node.same_iff_folded_eq.1 hxy.1)
                harranged harranged')
              exact ⟨same_of_same hx.same_name hab.same_name hy.same_name, a.type, b.type,
                hab.type, hx.target, hy.target⟩
      | recordRead hdirection hinputs =>
          cases h' with
          | recordWrite hdirection' => cases hdirection.symm.trans hdirection'
          | recordRead _ hinputs' =>
              refine Node.similar_recordRead_iff.2 (forall₂_of_paired _ _ hinputs hfields hinputs'
                (fun a b x y hx hab hy => ?_) (fun x y hxy => Node.same_iff_folded_eq.1 hxy.1)
                harranged harranged')
              refine ⟨same_of_same hx.same_name hab.same_name hy.same_name,
                ⟨a.type, b.type, hab.type, hx.target, hy.target⟩, ?_⟩
              rw [hy.required_eq, hx.required_eq, hab.hasDefault_eq hdirection]
  | union hmembers =>
      cases h with | union hnames => ?_
      cases h' with | union hnames' => ?_
      refine Node.similar_union_iff.2 ⟨rfl, forall₂_of_paired _ _ hnames hmembers hnames'
        (fun a b x y hx hab hy => ?_) (fun x y hxy => Node.same_iff_folded_eq.1 hxy.1)
        harranged harranged'⟩
      exact ⟨same_of_same hx.same_name hab.same_name hy.same_name, a.type, b.type, hab.type,
        hx.target, hy.target⟩

theorem Paired.refl {α : Type} {R : α → α → Prop} (h : ∀ x, R x x) (xs : List α) :
    Paired R xs xs :=
  ⟨xs, .refl xs, List.forall₂_same.2 fun x _ => h x⟩

/-- A type that has nodes is of its own form. -/
theorem TypeDef.Describes.resembles_self (h : type.Describes direction D node)
    (side : Direction) : type.Resembles side Eq type := by
  have hsame : ∀ name : Name, name.same name = true := fun _ => decide_eq_true rfl
  cases h with
  | primitive type => exact .primitive type
  | unit => exact .unit
  | enumeration => exact .enumeration (.refl (fun _ => hsame _) _)
  | nullable => exact .nullable rfl
  | list => exact .list rfl
  | dictionary => exact .dictionary rfl rfl
  | recordWrite | recordRead => exact .record (.refl (fun _ => ⟨hsame _, rfl, fun _ => rfl⟩) _)
  | union => exact .union (.refl (fun _ => ⟨hsame _, rfl⟩) _)

namespace Catalog

variable {catalog : Catalog} {handle handle' : Handle}

/-- The types have the same form on one side, at every depth and through every name. -/
def Resemble (catalog : Catalog) (direction : Direction) (type type' : TypeDef) : Prop :=
  ∃ R : TypeDef → TypeDef → Prop, R type type' ∧ ∀ a b, R a b → ∃ target target',
    catalog.StandsFor a target ∧ catalog.StandsFor b target' ∧
      target.Resembles direction R target'

theorem StandsFor.unique {target target' : TypeDef} (h : catalog.StandsFor type target)
    (h' : catalog.StandsFor type target') : target = target' := by
  cases h with
  | name hfind =>
      cases h' with
      | name hfind' => cases hfind.symm.trans hfind'; rfl
      | itself hnamed => exact absurd rfl (hnamed _)
  | itself hnamed =>
      cases h' with
      | name => exact absurd rfl (hnamed _)
      | itself => rfl

/-- Types of the same form lead to the same graphs. -/
theorem bisimilar_of_resemble (hregular : catalog.store.Regular)
    (hsame : catalog.Resemble direction type type') (h : catalog.Describes direction type handle)
    (h' : catalog.Describes direction type' handle') :
    catalog.store.Bisimilar handle catalog.store handle' := by
  obtain ⟨R, htypes, hclosed⟩ := hsame
  refine Layering.Agree.of_closed (R := fun x y => ∃ a b, R a b ∧
    catalog.Describes direction a x ∧ catalog.Describes direction b y) ?_ ⟨_, _, htypes, h, h'⟩
  rintro x y ⟨a, b, hab, hx, hy⟩
  obtain ⟨target, target', ha, hb, hform⟩ := hclosed a b hab
  obtain ⟨found, node, hfound, hnode, hdescribes⟩ := explains_describes a x hx
  obtain ⟨found', node', hfound', hnode', hdescribes'⟩ := explains_describes b y hy
  obtain rfl := ha.unique hfound
  obtain rfl := hb.unique hfound'
  exact ⟨node, node', hnode, hnode', hdescribes.similar hdescribes' hform
    (hregular.arranged hnode) (hregular.arranged hnode')⟩

end Catalog

end WireSchema
