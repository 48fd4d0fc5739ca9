/-
# Types of one form

What describes a type describes every type that resembles it.  So a type that resembles one
that has been built has distinct names at every depth, and it can be built if there are
providers for it.
-/

import WireSchema.Proofs.Catalog.Resemblance

namespace WireSchema

section

variable {α β γ : Type}

theorem Paired.isEmpty_eq {P : α → γ → Prop} {as : List α} {xs : List γ} (h : Paired P as xs) :
    xs.isEmpty = as.isEmpty := by
  obtain ⟨zs, hperm, hrel⟩ := h
  rw [← hperm.isEmpty_eq]
  cases hrel <;> rfl

variable {P : β → γ → Prop} {bs : List β} {ys : List γ} {nameOf : β → Name} {nameOf' : γ → Name}

/-- Items that are paired with items of distinct names have distinct names. -/
theorem Paired.nodup_names (h : Paired P bs ys)
    (hname : ∀ b y, P b y → (nameOf b).folded = (nameOf' y).folded)
    (hys : Name.Increasing (ys.map nameOf')) : ((bs.map nameOf).map Name.folded).Nodup := by
  obtain ⟨zs, hperm, hrel⟩ := h
  have hnames : (zs.map nameOf).map Name.folded = (ys.map nameOf').map Name.folded := by
    rw [List.map_map, List.map_map, ← List.forall₂_eq_eq_eq, List.forall₂_map_left_iff,
      List.forall₂_map_right_iff]
    exact hrel.imp hname
  exact ((hperm.map nameOf).map Name.folded).nodup_iff.1 (hnames ▸ hys.nodup)

/-- Items that are paired with others in order by name stand in pairs when they are sorted. -/
theorem Paired.forall₂_sortBy (h : Paired P bs ys)
    (hname : ∀ b y, P b y → (nameOf b).folded = (nameOf' y).folded)
    (hys : Name.Increasing (ys.map nameOf')) :
    List.Forall₂ P (Name.sortBy nameOf bs) ys := by
  have hmem : ∀ {b}, b ∈ Name.sortBy nameOf bs ↔ b ∈ bs := (Name.perm_sortBy nameOf bs).mem_iff
  refine (Node.increasing_sortBy nameOf (h.nodup_names hname hys)).forall₂ hys hname
    (fun b hb => h.exists_right (hmem.1 hb)) fun y hy => ?_
  obtain ⟨b, hb, hP⟩ := h.exists_left hy
  exact ⟨b, hmem.2 hb, hP⟩

theorem Paired.map_left {f : α → β} {zs : List α} (h : Paired (fun z y => P (f z) y) zs ys) :
    Paired P (zs.map f) ys := by
  obtain ⟨ws, hperm, hrel⟩ := h
  exact ⟨ws.map f, hperm.map f, List.forall₂_map_left_iff.2 hrel⟩

/-- What is made of items that are paired with others in order by name has distinct names, and
stands in pairs with these when it is sorted. -/
theorem Paired.arrange {f : α → β} {items : List α}
    (h : Paired (fun item y => P (f item) y) items ys)
    (hname : ∀ b y, P b y → (nameOf b).folded = (nameOf' y).folded)
    (hys : Name.Increasing (ys.map nameOf')) :
    (((items.map f).map nameOf).map Name.folded).Nodup ∧
      List.Forall₂ P (Name.sortBy nameOf (items.map f)) ys :=
  ⟨h.map_left.nodup_names hname hys, h.map_left.forall₂_sortBy hname hys⟩

end

/-- Two spellings of one name are of one form. -/
theorem same_of_same_right {a b x : Name} (hx : x.same a = true) (hb : b.same a = true) :
    x.same b = true := by
  rw [Node.same_iff_folded_eq] at *
  exact hb.symm.trans hx

variable {direction : Direction} {R : TypeDef → TypeDef → Prop} {D : TypeDef → Handle → Prop}
variable {type type' : TypeDef} {node : Node Name Handle} {layer : Node Name TypeDef}

/-- The members made of items that are paired with the members of an arranged node. -/
theorem Paired.arrange_members {ι : Type} {spelling : ι → String} {typeOf : ι → TypeDef}
    {S : TypeDef → Handle → Prop} {items : List ι} {members : List (Member Name Handle)}
    (h : Paired (fun item member => member.name.same ⟨spelling item⟩ = true ∧
      S (typeOf item) member.target) items members)
    (hmembers : Name.Increasing (members.map Member.name)) :
    (((items.map fun item => Member.mk ⟨spelling item⟩ (typeOf item)).map Member.name).map
        Name.folded).Nodup ∧
      List.Forall₂ (fun b member => member.name.same b.name = true ∧ S b.target member.target)
        (Name.sortBy Member.name (items.map fun item => Member.mk ⟨spelling item⟩ (typeOf item)))
        members :=
  Paired.arrange (P := fun (b : Member Name TypeDef) (member : Member Name Handle) =>
    member.name.same b.name = true ∧ S b.target member.target) h
    (fun _ _ hpair => Node.same_iff_folded_eq.1 hpair.1) hmembers

/-- A type of the form of one that is described can be arranged to what describes it. -/
theorem TypeDef.Describes.exists_layer (h : type.Describes direction D node)
    (hsame : type.Resembles direction R type') (harranged : node.Arranged)
    (hlayer : type.layer direction = .ok layer)
    (hnest : ∀ a b, R a b → (∀ below, a ≠ .nullable below) → ∀ below, b ≠ .nullable below) :
    ∃ layer' x, type'.layer direction = .ok layer' ∧ layer'.arrange = .ok x ∧
      x.Similar (fun b handle => ∃ a, R a b ∧ D a handle) node := by
  cases hsame with
  | primitive type =>
      cases h
      exact ⟨_, _, rfl, rfl, rfl, .nil⟩
  | unit =>
      cases h
      exact ⟨_, _, rfl, rfl, rfl, .nil⟩
  | @enumeration _ name' spellings spellings' hmembers =>
      cases h with | @enumeration _ _ members hnames => ?_
      have hpaired : Paired (fun spelling member : _ => member.same ⟨spelling⟩ = true)
          spellings' members :=
        (hnames.comp hmembers).imp fun _ _ ⟨_, hb, hmember⟩ => same_of_same_right hmember hb
      have hincreasing : Name.Increasing (members.map id) := by
        rw [List.map_id]
        exact harranged
      have hfolded : ∀ b member : Name, member.same b = true →
          (id b).folded = (id member).folded := fun _ _ => Node.same_iff_folded_eq.1
      obtain ⟨hnodup, hsorted⟩ := Paired.arrange (f := Name.mk) hpaired hfolded hincreasing
      rw [List.map_id] at hnodup
      refine ⟨_, _, ?_, Node.arrange_enumeration hnodup, Node.similar_enumeration_iff.2 hsorted⟩
      rw [TypeDef.layer] at hlayer ⊢
      rw [hmembers.isEmpty_eq]
      split at hlayer
      · cases hlayer
      next hempty => rw [if_neg hempty]
  | @nullable inner inner' hinner =>
      cases h with | nullable hD => ?_
      have hplain : ∀ below, inner ≠ .nullable below := by
        rintro below rfl
        cases hlayer
      have hlayer' :
          TypeDef.layer direction (.nullable inner') = .ok (.nullable direction inner') := by
        have hplain' := hnest inner inner' hinner hplain
        cases inner' with
        | nullable below => exact absurd rfl (hplain' below)
        | _ => rfl
      exact ⟨_, _, hlayer', rfl, rfl, .cons ⟨_, hinner, hD⟩ .nil⟩
  | list hitem =>
      cases h with | list hD => ?_
      exact ⟨_, _, rfl, rfl, rfl, .cons ⟨_, hitem, hD⟩ .nil⟩
  | dictionary hkey hvalue =>
      cases h with | dictionary hD hE => ?_
      exact ⟨_, _, rfl, rfl, rfl, .cons ⟨_, hkey, hD⟩ (.cons ⟨_, hvalue, hE⟩ .nil)⟩
  | @record _ name' fields fields' hfields =>
      cases h with
      | @recordWrite _ _ members hdirection hmembers =>
          subst hdirection
          have hpaired : Paired (fun (b : FieldDef TypeDef) (member : Member Name Handle) =>
              member.name.same ⟨b.name⟩ = true ∧ ∃ a, R a b.type ∧ D a member.target)
              fields' members := by
            refine (hmembers.comp hfields).imp ?_
            rintro b member ⟨a, hb, hmember⟩
            exact ⟨same_of_same_right hmember.same_name hb.same_name,
              a.type, hb.type, hmember.target⟩
          have hincreasing : Name.Increasing (members.map Member.name) := harranged
          obtain ⟨hnodup, hsorted⟩ :=
            Paired.arrange_members (S := fun b y => ∃ a, R a b ∧ D a y) hpaired hincreasing
          exact ⟨_, _, rfl, Node.arrange_recordWrite hnodup,
            Node.similar_recordWrite_iff.2 hsorted⟩
      | @recordRead _ _ inputs hdirection hinputs =>
          subst hdirection
          have hpaired : Paired (fun (b : FieldDef TypeDef) (input : Input Name Handle) =>
              input.name.same ⟨b.name⟩ = true ∧ (∃ a, R a b.type ∧ D a input.target) ∧
                input.required = !b.hasDefault) fields' inputs := by
            refine (hinputs.comp hfields).imp ?_
            rintro b input ⟨a, hb, hinput⟩
            refine ⟨same_of_same_right hinput.same_name hb.same_name,
              ⟨a.type, hb.type, hinput.target⟩, ?_⟩
            rw [hinput.required_eq, hb.hasDefault_eq rfl]
          have hincreasing : Name.Increasing (inputs.map Input.name) := harranged
          obtain ⟨hnodup, hsorted⟩ := Paired.arrange
            (f := fun b : FieldDef TypeDef => Input.mk ⟨b.name⟩ b.type !b.hasDefault)
            (P := fun (b : Input Name TypeDef) (input : Input Name Handle) =>
              input.name.same b.name = true ∧ (∃ a, R a b.target ∧ D a input.target) ∧
                input.required = b.required)
            hpaired (fun _ _ hpair => Node.same_iff_folded_eq.1 hpair.1) hincreasing
          exact ⟨_, _, rfl, Node.arrange_recordRead hnodup,
            Node.similar_recordRead_iff.2 hsorted⟩
  | @union _ name' alternatives alternatives' hmembers =>
      cases h with | @union _ _ members hknown => ?_
      have hpaired : Paired (fun (b : MemberDef TypeDef) (member : Member Name Handle) =>
          member.name.same ⟨b.name⟩ = true ∧ ∃ a, R a b.type ∧ D a member.target)
          alternatives' members := by
        refine (hknown.comp hmembers).imp ?_
        rintro b member ⟨a, hb, hmember⟩
        exact ⟨same_of_same_right hmember.same_name hb.same_name,
          a.type, hb.type, hmember.target⟩
      have hincreasing : Name.Increasing (members.map Member.name) := harranged
      obtain ⟨hnodup, hsorted⟩ :=
        Paired.arrange_members (S := fun b y => ∃ a, R a b ∧ D a y) hpaired hincreasing
      refine ⟨_, _, ?_, Node.arrange_union hnodup, Node.similar_union_iff.2 ⟨rfl, hsorted⟩⟩
      rw [TypeDef.layer] at hlayer ⊢
      rw [hmembers.isEmpty_eq]
      split at hlayer
      · cases hlayer
      next hempty => rw [if_neg hempty]

namespace Catalog

variable {catalog : Catalog} {held : Handle}

theorem StandsFor.target_eq {target : TypeDef} (h : catalog.StandsFor type target) :
    (catalog.plan direction).target type = .ok target := by
  cases h with
  | name hfind =>
      rw [definition?] at hfind
      rw [Plan.target, plan]
      dsimp only
      rw [hfind]
  | itself hnamed =>
      cases type with
      | named name => exact absurd rfl (hnamed name)
      | _ => rfl

/-- A name does not stand for a nullable. -/
theorem StandsFor.eq_of_nullable {inner : TypeDef} (h : catalog.StandsFor type (.nullable inner)) :
    type = .nullable inner := by
  generalize htarget : TypeDef.nullable inner = target at h
  cases h with
  | @name _ definition _ =>
      have hname := definition.definitionName_eq
      rw [← htarget] at hname
      cases hname
  | itself => rfl

/-- What describes a type describes the types that resemble it. -/
theorem describes_of_resemble (hregular : catalog.store.Regular)
    (hsame : catalog.Resemble direction type type') (h : catalog.Describes direction type held) :
    catalog.Describes direction type' held := by
  obtain ⟨R, htypes, hclosed⟩ := hsame
  refine Layering.Agree.of_closed (R := fun b handle => ∃ a, R a b ∧
    catalog.Describes direction a handle) ?_ ⟨type, htypes, h⟩
  rintro b handle ⟨a, hab, ha⟩
  obtain ⟨target, target', hstands, hstands', hform⟩ := hclosed a b hab
  obtain ⟨x, y, hx, hy, hsimilar⟩ := ha.unfold
  obtain ⟨found, layer, hfound, hlayer, harrange⟩ := Plan.layering_eq_some_iff.1 hx
  obtain rfl := hstands.unique (standsFor_of_target hfound)
  obtain ⟨layer', x', hlayer', harrange', hsimilar'⟩ :=
    (TypeDef.describes_of_layer hlayer harrange hsimilar).exists_layer hform
      (hregular.arranged hy) hlayer fun a b hab hplain below heq => by
        subst heq
        obtain ⟨inner, _, ha, hb, hform⟩ := hclosed a _ hab
        obtain rfl := hb.unique (.itself nofun)
        cases hform
        exact hplain _ ha.eq_of_nullable
  exact ⟨x', y, Plan.layering_eq_some hstands'.target_eq hlayer' harrange', hy, hsimilar'⟩

end Catalog

end WireSchema
