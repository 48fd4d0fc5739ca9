/-
# Types that share a handle

Types of the same structure lead to the same graph.  If every node of a graph that is held is
the only one that describes its own graph, a type that leads there is found under the handle
that is held, and nothing is added (`getOrAdd_shares`).  The build goes round the cycles of the
type on its own: a type that is met again is dropped for the first older node, and any other
type is found in the index once the types below have been found.
-/

import WireSchema.Proofs.Catalog.MetAgain
import WireSchema.Proofs.Catalog.SameForm
import WireSchema.Proofs.Catalog.SameText
import WireSchema.Proofs.Store.FindsItself

namespace WireSchema

namespace Store

variable {before after store : Store} {handle : Handle}

/-- The second store is the first, but more may be known about types. -/
structure Learns (before after : Store) : Prop where
  eq_with : after = { before with built := after.built }
  built_of : ∀ {entry handle}, before.built.get? entry = some handle →
    after.built.get? entry = some handle

namespace Learns

theorem refl (store : Store) : store.Learns store :=
  ⟨rfl, id⟩

theorem node?_eq (h : before.Learns after) : after.node? = before.node? := by
  rw [h.eq_with]
  rfl

theorem trans (h : before.Learns after) (h' : after.Learns store) : before.Learns store where
  eq_with := by
    rw [h'.eq_with, h.eq_with]
  built_of hget := h'.built_of (h.built_of hget)

theorem remember (h : before.Learns after) {direction : Direction} {type : TypeDef}
    (hnew : before.built.get? (direction, type) = none) (handle : Handle) :
    before.Learns (after.remember direction type handle) where
  eq_with := by
    rw [h.eq_with]
    rfl
  built_of := Table.get?_insert_of_imp h.built_of hnew

/-- What has been added is dropped again. -/
theorem of_rollback (h : before.Grows after) (hbefore : before.Regular) (hafter : after.Regular)
    (hextends : before.Extends after) : before.Learns (after.rollback before.size) :=
  ⟨h.rollback_eq hbefore hafter hextends, (h.rollback hbefore (Nat.le_refl _)).built_of⟩

/-- A type that is new later was new before. -/
theorem isNew (h : before.Learns after) {plan : Plan} {type : TypeDef}
    (hnew : plan.IsNew after type) : plan.IsNew before type :=
  Table.get?_eq_none_of_imp h.built_of hnew

end Learns

end Store

/-- There are providers for the type and for all that is below it. -/
def Plan.Provided (plan : Plan) (type : TypeDef) : Prop :=
  ∀ {target below}, plan.target type = .ok target → Relation.ReflTransGen plan.Below below target →
    plan.providers.any (·.accepts below) = true

/-- A type that has a layer is a type for some provider. -/
theorem TypeDef.exists_provider {direction : Direction} {type : TypeDef}
    {layer : Node Name TypeDef} (h : type.layer direction = .ok layer) :
    ∃ provider : Provider, provider.accepts type = true := by
  cases type with
  | primitive => exact ⟨.primitive, rfl⟩
  | unit => exact ⟨.empty, rfl⟩
  | enumeration => exact ⟨.enumeration, rfl⟩
  | nullable => exact ⟨.nullable, rfl⟩
  | list => exact ⟨.list, rfl⟩
  | dictionary => exact ⟨.dictionary, rfl⟩
  | record => exact ⟨.record, rfl⟩
  | union => exact ⟨.union, rfl⟩
  | named | foreign => cases h

/-- With all providers there is one for all that is below a type whose graph is described. -/
theorem Plan.provided_of_mem {plan : Plan} {store : Store} {type : TypeDef} {held : Handle}
    (hproviders : ∀ provider : Provider, provider ∈ plan.providers)
    (hdescribes : plan.layering.Agree store.node? type held) : plan.Provided type := by
  intro target below htarget hbelow
  suffices h : plan.target below = .ok below ∧
      ∃ part, plan.layering.Agree store.node? below part by
    obtain ⟨hself, part, hagree⟩ := h
    obtain ⟨x, -, hx, -⟩ := hagree.unfold
    obtain ⟨found, layer, hfound, hlayer, -⟩ := Plan.layering_eq_some_iff.1 hx
    cases hself.symm.trans hfound
    obtain ⟨provider, haccepts⟩ := TypeDef.exists_provider hlayer
    exact List.any_eq_true.2 ⟨provider, hproviders provider, haccepts⟩
  induction hbelow using Relation.ReflTransGen.head_induction_on with
  | refl =>
      exact ⟨Plan.target_target htarget, held,
        Alike.congr_left hdescribes (Plan.layering_eq_of_target htarget).symm id⟩
  | @head child parent hstep _ ih =>
      obtain ⟨-, part, hagree⟩ := ih
      obtain ⟨found, layer, type, hfound, hlayer, htype, hchild⟩ := hstep
      obtain ⟨x, y, hx, -, hsimilar⟩ := hagree.unfold
      obtain ⟨found', layer', hfound', hlayer', harrange⟩ := Plan.layering_eq_some_iff.1 hx
      cases hfound.symm.trans hfound'
      cases hlayer.symm.trans hlayer'
      obtain ⟨other, -, hother⟩ := hsimilar.exists_right
        ((Node.perm_children_of_arrange harrange).mem_iff.2 htype)
      exact ⟨Plan.target_target hchild, other,
        Alike.congr_left hother (Plan.layering_eq_of_target hchild).symm id⟩

namespace Building

open Store (Scaffold)

variable {plan : Plan} {type target : TypeDef} {opened : List TypeDef} {s t u : Building}
variable {base : Store} {root slot handle old first : Handle} {layer : Node Name TypeDef}
variable {node : Node Name Handle}

/-- Where no slots are waited for, a finished cycle is superseded by the first older node that
describes the same graph. -/
theorem superseding?_eq_some_iff {before store : Store} (hbefore : before.Regular)
    (hextends : before.Extends store) (hnode : store.node? slot = some node) :
    superseding? store .empty before.size slot = some handle ↔
      store.IsFirst slot before handle := by
  have hnone : ((Table.empty : Table TypeDef Handle).bindings.any fun binding =>
      before.size ≤ binding.2) = false := rfl
  have hlt : ∀ {other}, store.Bisimilar slot before other → other < before.size := by
    intro other hsame
    obtain ⟨x, y, -, hy, -⟩ := hsame.unfold
    exact Store.lt_size_of_node? hy
  rw [superseding?, hnone, if_neg Bool.false_ne_true,
    Store.firstEquivalent?_eq_some_iff (P := (· < before.size)) hnode
      ((Store.pairwise_finished store).filter _) fun entry => by
        rw [List.mem_filter, Store.mem_finished_iff, decide_eq_true_iff]]
  constructor
  · rintro ⟨⟨holder, hsame⟩, hle⟩
    exact ⟨hsame.restrict hbefore hextends holder, fun other hother =>
      hle other (hlt hother) (hother.extend hextends)⟩
  · intro h
    exact ⟨⟨hlt h.same, h.same.extend hextends⟩, fun other holder hother =>
      h.le other (hother.restrict hbefore hextends holder)⟩

/-! ## Types that are met again -/

/-- What is below a type has been built, and the node has handles for it. -/
structure BuiltBelow (plan : Plan) (opened : List TypeDef) (target : TypeDef)
    (layer : Node Name TypeDef) (s : Building) (node : Node Name Handle) (t : Building) :
    Prop where
  records : Records plan (openedBelow opened target) t
  adds : AddsFor plan.direction s.store t.store
  step : s.scaffold.Advances t.scaffold
  lift : layer.Lift (fun child handle => Depicts plan plan.direction t.scaffold child handle) node

/-- Building what is below a type that is met again along new types meets the type, but no
open type to which it does not lead. -/
theorem below_meets (hs : Records plan opened s) (hnone : ∀ key, ¬ Met key s)
    (hself : plan.target target = .ok target) (hrecur : target.mayRecur = true)
    (hlayer : target.layer plan.direction = .ok layer)
    (halong : plan.RecursAlong (plan.IsNew s.store) target)
    (hpath : ∀ above ∈ opened, Relation.TransGen plan.Below target above)
    (hnot : ∀ above ∈ opened,
      ¬ plan.Leads above (fun type => ¬ plan.IsNew s.store type) target) :
    Ends (layer.traverse (fun child _ => undoing (build plan (openedBelow opened target) child))
        (s.enter target))
      (fun node t => BuiltBelow plan opened target layer s node t ∧ Met target t ∧
        ∀ above ∈ opened, ¬ Met above t)
      fun _ _ => True := by
  obtain ⟨hnew, other, hbelow, hleads⟩ := halong.exists_child
  have hchildren : ∀ child ∈ layer.children, ∀ below, plan.target child = .ok below →
      plan.Below below target := fun child hchild below htarget =>
    ⟨target, layer, child, hself, hlayer, hchild, htarget⟩
  have hgoal : target ∈ openedBelow opened target := by
    rw [openedBelow, if_pos hrecur]
    exact List.mem_cons_self
  have hstart : (avoiding plan s.store opened opened).Valid s :=
    ⟨⟨hs, .refl _ _⟩, fun above _ => hnone above⟩
  -- What is below is built, and does not lead to what is open.
  have havoids : Ends (layer.traverse (fun child _ =>
        undoing (build plan (openedBelow opened target) child)) (s.enter target))
      (fun node t => BuiltBelow plan opened target layer s node t ∧ ∀ above ∈ opened,
        ¬ Met above t) fun _ _ => True := by
    refine Ends.imp (Session.runs_traverse
      (S := avoiding plan s.store opened (openedBelow opened target))
      (R := fun child handle t => Depicts plan plan.direction t.scaffold child handle)
      (fun _ _ _ _ _ hstep _ hdepicts => hdepicts.advance hstep)
      (fun child hchild t ht => runs_undoing (fun _ _ => trivial) <|
        build_avoids plan hs.valid.scaffold.regular opened _ child
          (fun below htarget => path_below (hchildren child hchild below htarget) hpath)
          (fun below htarget above habove hleads => hnot above habove
            (.step (not_not.2 hnew) (hchildren child hchild below htarget) hleads)) t ht)
      (avoiding_enter hstart target)) ?_ fun _ _ _ => trivial
    rintro node t ⟨⟨⟨hrecords, hadds⟩, hmet⟩, hstep, hlift⟩
    exact ⟨⟨hrecords, hadds, scaffold_enter s target ▸ hstep, hlift⟩, hmet⟩
  -- One of the children leads back to the type.
  have hmeets : Ends (layer.traverse (fun child _ =>
        undoing (build plan (openedBelow opened target) child)) (s.enter target))
      (fun _ t => Met target t) fun _ _ => True := by
    have hsearched : Searched plan target (fun type => ¬ plan.IsNew s.store type)
        (openedBelow opened target) (s.enter target) := by
      refine .inr fun {type handle} hget hleads => ?_
      rw [store_enter] at hget
      have hold : ¬ plan.IsNew s.store type := fun hnew => by cases hnew.symm.trans hget
      cases hleads with
      | here => exact hold hnew
      | step hopen _ _ => exact hopen (.inl hold)
    refine Ends.imp (Session.runs_traverse
      (S := searching plan target (fun type => ¬ plan.IsNew s.store type)
        (openedBelow opened target))
      (R := fun child _ t => Finds plan target (fun type => ¬ plan.IsNew s.store type)
        (openedBelow opened target) child t)
      (fun _ _ _ _ _ hstep _ hfinds => hfinds.imp_left hstep)
      (fun child _ t ht => runs_undoing (fun _ _ => trivial)
        (build_searches plan target _ _ hgoal child t ht)) hsearched)
      ?_ fun _ _ _ => trivial
    rintro node t ⟨-, -, hlift⟩
    obtain ⟨target', layer', child, htarget', hlayer', hchild, hother⟩ := id hbelow
    cases hself.symm.trans htarget'
    cases hlayer.symm.trans hlayer'
    obtain ⟨found, -, hfinds⟩ := Node.exists_right_of_forall₂ hlift.children hchild
    refine hfinds.resolve_right fun hnot' => hnot' other hother ?_
    have havoid := hleads.avoid_all fun above habove hleads' => hnot above habove
      (.step (not_not.2 hnew) hbelow (hleads'.mono fun _ => .inl))
    refine havoid.mono fun type hshut => hshut.elim (fun h => .inl (.inl h)) fun hmem => ?_
    exact (eq_or_mem_of_mem_openedBelow hmem).elim (fun h => .inl (.inr h)) .inr
  exact Ends.imp (havoids.and hmeets) (fun _ _ h => ⟨h.1.1, h.2, h.1.2⟩) fun _ _ _ => trivial

/-- Closing a type that has been met again gives the first older node of its graph. -/
theorem close_supersedes (hs : Records plan opened s) (hnone : ∀ key, ¬ Met key s)
    (hnew : plan.IsNew s.store target) (hself : plan.target target = .ok target)
    (hlayer : target.layer plan.direction = .ok layer) (hrecur : target.mayRecur = true)
    (ht : BuiltBelow plan opened target layer s node t) (hmet : Met target t)
    (hnot : ∀ above ∈ opened, ¬ Met above t)
    (hdescribes : plan.layering.Agree s.store.node? target old)
    (hfirst : s.store.IsFirst old s.store first) :
    Ends (close plan.direction target s.store.size node t)
      (fun found u => s.store.Learns u.store ∧ found = first) fun _ _ => True := by
  obtain ⟨slot, hslot⟩ := hmet
  have hregular := hs.valid.scaffold.regular
  unfold close
  split
  · trivial
  next arranged harrange =>
    have harrange' := Node.arrangeFor_eq_ok_iff.1 harrange
    obtain ⟨x, hx, hlift⟩ := ht.lift.symm.arrange harrange'
    have hlayering : plan.layering target = some x := Plan.layering_eq_some hself hlayer hx
    have hsimilar : x.Similar (Depicts plan plan.direction t.scaffold) arranged :=
      .of_lift hlift.symm
    have hreference : arranged.isByReference = true := by
      have hkind := (Node.kind_of_arrange harrange').trans ht.lift.kind_eq.symm
      rw [Node.isByReference, hkind]
      exact TypeDef.isByReference_of_mayRecur hrecur hlayer
    have hunmet : s.reserved.get? target = none :=
      Option.eq_none_iff_forall_ne_some.2 fun other hother => hnone target ⟨other, hother⟩
    have hdone := done_fill (maintains_addsFor plan.direction hregular) (.refl _ _)
      ht.records.valid_cons ht.adds ht.step hunmet hslot hself hlayering hsimilar
      (Node.arranged_of_arrange harrange') hreference
    -- No slot is left, so the graph of the type is there.
    have hempty : t.reserved.erase target = .empty := by
      refine Table.eq_empty fun key => Option.eq_none_iff_forall_ne_some.2 fun other hget => ?_
      obtain ⟨hne, hother⟩ := Table.get?_erase_eq_some_iff.1 hget
      have hopen := ht.records.valid.scaffold.is_open hother
      exact hnot key ((eq_or_mem_of_mem_openedBelow hopen).resolve_left hne) ⟨other, hother⟩
    have hagree : plan.layering.Agree (t.store.fill slot arranged).node? target slot := by
      refine hdone.depicts.mono ?_ fun _ _ hnode => hnode
      rintro other waiting ⟨key, -, hget⟩
      change (t.reserved.erase target).get? key = some waiting at hget
      rw [hempty] at hget
      cases hget
    obtain ⟨filled, hfilled⟩ := hdone.stored
    have hsuper : superseding? (t.store.fill slot arranged) .empty s.store.size slot =
        some first := (superseding?_eq_some_iff hregular hdone.step.grown hfilled).2
      (hfirst.of_bisimilar (hagree.symm.trans hdescribes))
    simp only [leave, hslot, hempty, hsuper]
    exact ⟨(Store.Learns.of_rollback hdone.kept.grows hregular hdone.valid.scaffold.regular
      hdone.step.grown).remember hnew first, rfl⟩

/-- A type that is met again along new types, and whose graph is held, gets the first node of
the graph. -/
theorem supersedes_of_recursAlong (hs : Records plan opened s) (hnone : ∀ key, ¬ Met key s)
    (hself : plan.target target = .ok target) (hrecur : target.mayRecur = true)
    (hlayer : target.layer plan.direction = .ok layer)
    (halong : plan.RecursAlong (plan.IsNew s.store) target)
    (hpath : ∀ above ∈ opened, Relation.TransGen plan.Below target above)
    (hnot : ∀ above ∈ opened,
      ¬ plan.Leads above (fun type => ¬ plan.IsNew s.store type) target)
    (hdescribes : plan.layering.Agree s.store.node? target old)
    (hfirst : s.store.IsFirst old s.store first) :
    Ends (layer.traverse (fun child _ => undoing (build plan (openedBelow opened target) child))
        (s.enter target))
      (fun node t => Ends (close plan.direction target s.store.size node t)
        (fun found u => s.store.Learns u.store ∧ found = first) fun _ _ => True)
      fun _ _ => True := by
  refine Ends.imp (below_meets hs hnone hself hrecur hlayer halong hpath hnot) ?_
    fun _ _ _ => trivial
  rintro node t ⟨ht, hmet, hnot⟩
  exact close_supersedes hs hnone halong.exists_child.1 hself hlayer hrecur ht hmet hnot
    hdescribes hfirst

/-- Closing a type for which all that is below has been found finds its node in the index. -/
theorem close_finds {mark : Handle} (hregular : t.store.Regular)
    (hnodes : t.store.node? = base.node?)
    (halone : ∀ a b, base.Below root a → base.Bisimilar a base b → a = b)
    (hself : plan.target target = .ok target) (hlayer : target.layer plan.direction = .ok layer)
    (hunmet : ¬ Met target t) (hdescribes : plan.layering.Agree base.node? target handle)
    (hbelow : base.Below root handle)
    (hlift : layer.Lift (fun child found =>
      plan.layering.Agree base.node? child found ∧ base.Below root found) node) :
    Ends (close plan.direction target mark node t)
      (fun found u => u.store = t.store.remember plan.direction target handle ∧ found = handle)
      fun _ _ => True := by
  unfold close
  split
  · trivial
  next arranged harrange =>
    have harrange' := Node.arrangeFor_eq_ok_iff.1 harrange
    obtain ⟨x, hx, hlift'⟩ := hlift.symm.arrange harrange'
    have hx' := Plan.layering_eq_some hself hlayer hx
    obtain ⟨y, hy, hsimilar⟩ := hdescribes.unfold.exists_right hx'
    -- The children are the only nodes of their graphs, so the node is that of the handle.
    have hkey : arranged.key = y.key := by
      refine Node.Similar.key_eq (((Node.Similar.of_lift hlift').trans hsimilar).imp ?_)
      rintro a b ⟨child, ⟨ha, hroot⟩, hb⟩
      exact halone a b hroot (ha.symm.trans hb)
    obtain ⟨found, hget⟩ := hregular.index_complete ((congrFun hnodes handle).trans hy)
    obtain ⟨stored, hstored, hkey'⟩ := hregular.index_sound hget
    obtain rfl : handle = found := by
      refine halone handle found hbelow (hdescribes.symm.trans ?_)
      refine Alike.of_match ⟨x, stored, hx', (congrFun hnodes found).symm.trans hstored, ?_⟩
      exact hsimilar.congr_key hkey'
    have hslot : t.reserved.get? target = none :=
      Option.eq_none_iff_forall_ne_some.2 fun other hother => hunmet ⟨other, hother⟩
    simp only [leave, hslot, Store.intern_of_get?_eq_some (hkey ▸ hget)]
    exact ⟨rfl, rfl⟩

/-! ## Types whose graph is held -/

/-- Builds by which nothing is added and no slot is reserved. -/
def learning (plan : Plan) (base : Store) (opened : List TypeDef) : Session Building where
  Valid t := Records plan opened t ∧ base.Learns t.store ∧ ∀ key, ¬ Met key t
  Step _ _ := True
  Fails _ _ := True
  refl _ := trivial
  trans _ _ := trivial
  fails_of_step _ _ _ _ := trivial

/-- What is below a type that is not met again along new types does not lead to what is open. -/
theorem not_leads_below {store : Store} {child : TypeDef} (hnew : plan.IsNew store target)
    (hopened : target ∉ opened)
    (hrecurs : ¬ (target.mayRecur = true ∧ plan.RecursAlong (plan.IsNew store) target))
    (hnot : ∀ above ∈ opened, ¬ plan.Leads above (fun type => ¬ plan.IsNew store type) target)
    (hbelow : plan.Below child target) :
    ∀ above ∈ openedBelow opened target,
      ¬ plan.Leads above (fun type => ¬ plan.IsNew store type) child := by
  intro above habove hleads
  by_cases hopen : above ∈ opened
  · exact hnot above hopen (.step (not_not.2 hnew) hbelow hleads)
  · obtain rfl := (eq_or_mem_of_mem_openedBelow habove).resolve_right hopen
    refine hrecurs ⟨?_, hleads.recursAlong hbelow hnew⟩
    by_contra hrecur
    rw [openedBelow, if_neg hrecur] at habove
    exact hopened habove

/-- A type that leads to a graph in which every node is the only one of its own graph is found
there, if it does not lead to an open type along new types. -/
theorem build_finds (plan : Plan)
    (halone : ∀ a b, base.Below root a → base.Bisimilar a base b → a = b)
    (opened : List TypeDef) (type : TypeDef) {held : Handle}
    (hpath : ∀ target, plan.target type = .ok target → ∀ above ∈ opened,
      Relation.TransGen plan.Below target above)
    (hdescribes : plan.layering.Agree base.node? type held) (hbelow : base.Below root held)
    (s : Building) (hs : (learning plan base opened).Valid s)
    (hnot : ∀ target, plan.target type = .ok target → ∀ above ∈ opened,
      ¬ plan.Leads above (fun type => ¬ plan.IsNew s.store type) target) :
    (learning plan s.store opened).Runs s (build plan opened type s) fun found _ =>
      found = held := by
  obtain ⟨hrecords, hlearns, hnone⟩ := hs
  have hregular := hrecords.valid.scaffold.regular
  have hruns := build_avoids plan hregular opened opened type hpath hnot s
    ⟨⟨hrecords, .refl _ _⟩, fun above _ => hnone above⟩
  suffices hfinds : Ends (build plan opened type s)
      (fun found u => s.store.Learns u.store ∧ found = held) fun _ _ => True by
    refine Ends.imp (hruns.and hfinds) ?_ fun _ _ _ => trivial
    rintro found u ⟨⟨⟨⟨hu, -⟩, hmet⟩, -, -⟩, hlearns, hfound⟩
    exact ⟨⟨hu, hlearns, fun key ⟨slot, hslot⟩ =>
      hmet key (hu.valid.scaffold.is_open hslot) ⟨slot, hslot⟩⟩, trivial, hfound⟩
  clear hruns
  refine ends_build (fun _ => trivial) (fun target found htarget hbuilt => ?_)
    (fun target htarget _ hopened => absurd .here (hnot target htarget target hopened))
    fun target layer htarget hbuilt hopened _ hlayer => ?_
  · have hdescribes : plan.layering.Agree base.node? target held :=
      Alike.congr_left hdescribes (Plan.layering_eq_of_target htarget).symm id
    have hagree : plan.layering.Agree base.node? target found := by
      refine (hrecords.valid.built hbuilt).mono ?_ fun other node hnode => ?_
      · rintro _ slot ⟨key, -, hget⟩
        exact hnone key ⟨slot, hget⟩
      · rw [← hlearns.node?_eq]
        exact hnode
    exact ⟨.refl _, (halone held found hbelow (hdescribes.symm.trans hagree)).symm⟩
  have hself := Plan.target_target htarget
  have hnot := hnot target htarget
  have hpath := hpath target htarget
  have hdescribes : plan.layering.Agree base.node? target held :=
    Alike.congr_left hdescribes (Plan.layering_eq_of_target htarget).symm id
  by_cases hrecurs : target.mayRecur = true ∧ plan.RecursAlong (plan.IsNew s.store) target
  · have hheld : plan.layering.Agree s.store.node? target held :=
      hlearns.node?_eq.symm ▸ hdescribes
    have hfirst : s.store.IsFirst held s.store held := by
      refine ⟨hheld.symm.trans hheld, fun other hsame => Nat.le_of_eq ?_⟩
      rw [Store.Bisimilar, hlearns.node?_eq] at hsame
      exact halone held other hbelow hsame
    exact supersedes_of_recursAlong hrecords hnone hself hrecurs.1 hlayer hrecurs.2 hpath
      hnot hheld hfirst
  · obtain ⟨x, y, hx, hy, hsimilar⟩ := hdescribes.unfold
    obtain ⟨target', layer', htarget', hlayer', harrange⟩ := Plan.layering_eq_some_iff.1 hx
    cases hself.symm.trans htarget'
    cases hlayer.symm.trans hlayer'
    refine Ends.imp (Session.runs_traverse
      (S := learning plan s.store (openedBelow opened target))
      (R := fun child found _ =>
        plan.layering.Agree base.node? child found ∧ base.Below root found)
      (fun _ _ _ _ _ _ _ h => h) (fun child hchild t ht => ?_)
      ⟨hrecords.enter target, (store_enter s target).symm ▸ .refl _,
        fun key hmet => hnone key (met_enter.1 hmet)⟩) ?_ fun _ _ _ => trivial
    · have hsmaller := Plan.child_lt htarget hopened hlayer hchild
      have hchildren : ∀ below, plan.target child = .ok below →
          plan.Below below target := fun below hchild' =>
        ⟨target, layer, child, hself, hlayer, hchild, hchild'⟩
      obtain ⟨found, hfound, hagree⟩ := hsimilar.exists_right
        ((Node.perm_children_of_arrange harrange).mem_iff.2 hchild)
      have hpart : base.Below root found := hbelow.tail ⟨y, hy, hfound⟩
      refine runs_undoing (fun _ _ => trivial) (Ends.imp (build_finds plan halone _ child
        (fun below hchild' => path_below (hchildren below hchild') hpath) hagree hpart t
        ⟨ht.1, hlearns.trans ht.2.1, ht.2.2⟩
        fun below hchild' above habove hleads => not_leads_below hbuilt hopened hrecurs
          hnot (hchildren below hchild') above habove
          (hleads.mono fun _ hold hnew => hold (ht.2.1.isNew hnew)))
        ?_ fun _ _ _ => trivial)
      rintro _ u ⟨⟨hu, hlearns', hnone'⟩, -, rfl⟩
      exact ⟨⟨hu, ht.2.1.trans hlearns', hnone'⟩, trivial, hagree, hpart⟩
    · rintro node t ⟨⟨ht, hlearns', hnone'⟩, -, hlift⟩
      refine Ends.imp (close_finds ht.valid.scaffold.regular
        (hlearns.trans hlearns').node?_eq halone hself hlayer (hnone' target) hdescribes
        hbelow hlift) ?_ fun _ _ _ => trivial
      rintro found u ⟨hstore, hfound⟩
      exact ⟨hstore ▸ hlearns'.remember hbuilt held, hfound⟩
termination_by (unseen plan.types opened, sizeOf type)
decreasing_by exact hsmaller

end Building

namespace Catalog

variable {catalog later : Catalog} {direction : Direction} {type type' : TypeDef}
variable {handle held : Handle}

theorem StandsFor.congr (h : catalog.StandsFor type type')
    (hdefinitions : later.definitions = catalog.definitions) : later.StandsFor type type' := by
  cases h with
  | name hfind =>
      refine .name (Eq.trans ?_ hfind)
      rw [definition?, hdefinitions]
      rfl
  | itself hnamed => exact .itself hnamed

theorem Resemble.congr (h : catalog.Resemble direction type type')
    (hdefinitions : later.definitions = catalog.definitions) :
    later.Resemble direction type type' := by
  obtain ⟨R, htypes, hclosed⟩ := h
  refine ⟨R, htypes, fun a b hab => ?_⟩
  obtain ⟨target, target', ha, hb, hform⟩ := hclosed a b hab
  exact ⟨target, target', ha.congr hdefinitions, hb.congr hdefinitions, hform⟩

theorem records_building (h : catalog.Sound) (direction : Direction) :
    Building.Records (catalog.plan direction) [] catalog.building :=
  ⟨valid_of_sound h direction, h.opened⟩

theorem not_met_building (h : catalog.Sound) (type : TypeDef) :
    ¬ Building.Met type catalog.building := by
  rintro ⟨slot, hslot⟩
  cases (h.reserved type).symm.trans hslot

/-- A type whose graph is held can be built, if there are providers for what is below it. -/
theorem exists_getOrAdd (hdescribes : catalog.Describes direction type held)
    (hprovided : (catalog.plan direction).Provided type) :
    ∃ handle later, getOrAdd direction type catalog = .ok handle later := by
  let plan := catalog.plan direction
  refine exists_getOrAdd_of_grants (fun part =>
    (∃ held, plan.layering.Agree catalog.store.node? part held) ∧ plan.Provided part) ?_
    ⟨⟨held, hdescribes⟩, hprovided⟩
  rintro part ⟨⟨held, hagree⟩, hprovided⟩
  obtain ⟨x, y, hx, -, hsimilar⟩ := hagree.unfold
  obtain ⟨target, layer, htarget, hlayer, harrange⟩ := Plan.layering_eq_some_iff.1 hx
  have hself := Plan.target_target htarget
  refine ⟨target, layer, x, htarget, hprovided htarget .refl, hlayer, harrange,
    fun child hchild => ⟨?_, fun htarget' hbelow => hprovided htarget
      (hbelow.tail ⟨target, layer, child, hself, hlayer, hchild, htarget'⟩)⟩⟩
  obtain ⟨below, -, hbelow⟩ := hsimilar.exists_right
    ((Node.perm_children_of_arrange harrange).mem_iff.2 hchild)
  exact ⟨below, hbelow⟩

/-- A catalog whose store has learned about types is the same but for that. -/
theorem eq_withBuilt_of_learns (h : catalog.Sound)
    (hbuild : getOrAdd direction type catalog = .ok handle later)
    (hlearns : catalog.store.Learns later.store) :
    later = catalog.withBuilt later.store.built := by
  have hends := getOrAdd_ends h direction type
  rw [hbuild] at hends
  obtain ⟨state, -, heq⟩ := exists_build_of_getOrAdd h hbuild
  have hstore : later = { catalog with store := later.store } :=
    eq_with_store h hends.1.sound (by rw [heq])
  exact hstore.trans (congrArg (fun store => { catalog with store := store }) hlearns.eq_with)

section Held

variable (h : catalog.Sound) (hdescribes : catalog.Describes direction type held)
variable (hbuild : getOrAdd direction type catalog = .ok handle later)

include h hdescribes hbuild

theorem bisimilar_of_getOrAdd : later.store.Bisimilar held later.store handle := by
  have hends := getOrAdd_ends h direction type
  rw [hbuild] at hends
  obtain ⟨hfollows, hanswer⟩ := hends
  have hheld := hfollows.keeps.describes hdescribes
  exact hheld.symm.trans hanswer

/-- A graph in which every node is the only one of its own graph is found. -/
theorem found_of_alone (hfrugal : catalog.store.Frugal)
    (halone : ∀ part, catalog.store.Below held part → catalog.store.HeldAlone part) :
    handle = held ∧ later = catalog.withBuilt later.store.built := by
  obtain ⟨state, hstate, heq⟩ := exists_build_of_getOrAdd h hbuild
  have hunique : ∀ a b, catalog.store.Below held a →
      catalog.store.Bisimilar a catalog.store b → a = b := by
    intro a b hbelow hsame
    by_cases hfinite : Layering.Finite catalog.store.node? a
    · exact hfrugal.eq_of_bisimilar hfinite hsame
    · exact halone a hbelow a b .refl hfinite hsame
  have hruns := Building.build_finds (catalog.plan direction) hunique [] type nofun hdescribes
    .refl catalog.building ⟨records_building h direction, .refl _, not_met_building h⟩ nofun
  rw [hstate] at hruns
  obtain ⟨⟨-, hlearns, -⟩, -, hfound⟩ := hruns
  refine ⟨hfound, eq_withBuilt_of_learns h hbuild ?_⟩
  rw [heq]
  exact hlearns

/-- A type that is met again along new types gets the first node of its graph. -/
theorem found_of_recursAlong {target : TypeDef} (htarget : catalog.StandsFor type target)
    (hrecur : target.mayRecur = true)
    (halong : (catalog.plan direction).RecursAlong
      ((catalog.plan direction).IsNew catalog.store) target) :
    catalog.store.IsFirst held catalog.store handle ∧
      later = catalog.withBuilt later.store.built := by
  obtain ⟨state, hstate, heq⟩ := exists_build_of_getOrAdd h hbuild
  obtain ⟨first, hfirst⟩ := Store.exists_isFirst (hdescribes.symm.trans hdescribes)
  have hfinds : Ends (Building.build (catalog.plan direction) [] type catalog.building)
      (fun found u => catalog.store.Learns u.store ∧ found = first) fun _ _ => True := by
    refine Building.ends_build (fun _ => trivial) (fun other found hother hbuilt => ?_)
      (fun _ _ _ => nofun) fun other layer hother _ _ _ hlayer => ?_
    · cases htarget.target_eq.symm.trans hother
      cases halong.exists_child.1.symm.trans hbuilt
    · cases htarget.target_eq.symm.trans hother
      exact Building.supersedes_of_recursAlong (records_building h direction)
        (not_met_building h) (Plan.target_target hother) hrecur hlayer halong nofun nofun
        (Alike.congr_left hdescribes (Plan.layering_eq_of_target hother).symm id) hfirst
  rw [hstate] at hfinds
  obtain ⟨hlearns, rfl⟩ := hfinds
  refine ⟨hfirst, eq_withBuilt_of_learns h hbuild ?_⟩
  rw [heq]
  exact hlearns

end Held

/-- A type that resembles one whose handle was returned leads to the same graph, and it can be
built if there are providers for it.  It shares the handle, and nothing is added, if nothing
else in the catalog describes what is at or below the handle.  If it is met again along types
that are new, it gets the first node of the graph in any case. -/
theorem getOrAdd_shares (h : catalog.Returned direction type held)
    (hsame : catalog.Resemble direction type type') :
    ((catalog.plan direction).Provided type' →
      ∃ handle later, getOrAdd direction type' catalog = .ok handle later) ∧
    ∀ handle later, getOrAdd direction type' catalog = .ok handle later →
      later.store.Bisimilar held later.store handle ∧
      ((∀ part, catalog.store.Below held part → catalog.store.HeldAlone part) →
        handle = held ∧ later = catalog.withBuilt later.store.built) ∧
      ∀ target, catalog.StandsFor type' target → target.mayRecur = true →
        (catalog.plan direction).RecursAlong
          ((catalog.plan direction).IsNew catalog.store) target →
            catalog.store.IsFirst held catalog.store handle ∧
              later = catalog.withBuilt later.store.built := by
  have hsound := h.reachable.sound
  have hdescribes : catalog.Describes direction type' held :=
    describes_of_resemble hsound.store.toRegular hsame h.describes
  refine ⟨exists_getOrAdd hdescribes, fun handle later hbuild => ?_⟩
  exact ⟨bisimilar_of_getOrAdd hsound hdescribes hbuild,
    found_of_alone hsound hdescribes hbuild h.reachable.frugal,
    fun target => found_of_recursAlong hsound hdescribes hbuild⟩

/-- Types that resemble each other share a handle if their graph has no cycles. -/
theorem shares_of_finite (h : catalog.Returned direction type held)
    (hsame : catalog.Resemble direction type type')
    (hfinite : Layering.Finite catalog.store.node? held)
    (hbuild : getOrAdd direction type' catalog = .ok handle later) :
    handle = held ∧ later = catalog.withBuilt later.store.built := by
  have hsound := h.reachable.sound
  exact found_of_alone hsound (describes_of_resemble hsound.store.toRegular hsame h.describes)
    hbuild h.reachable.frugal fun _ hbelow => Store.heldAlone_of_finite (hbelow.finite hfinite)

/-! ## Two chains -/

/-- A catalog in which one chain has been built and the other is registered. -/
def secondCatalog : Catalog :=
  after (register itemType) writtenCatalog

theorem returned_secondCatalog : secondCatalog.Returned .write chainType 0 :=
  returned_of_answer reachable_chainCatalog (by cbv) (.step (.register itemType) .refl)

theorem resemble_secondCatalog : secondCatalog.Resemble .write chainType itemType :=
  resemble_alikeCatalog.congr (by cbv)

/-- The second chain gets the handle of the first, and nothing is added. -/
theorem getOrAdd_shares_chain : ∃ after,
    getOrAdd .write itemType secondCatalog = .ok 0 after ∧
      after = secondCatalog.withBuilt after.store.built := by
  obtain ⟨hexists, hshares⟩ := getOrAdd_shares returned_secondCatalog resemble_secondCatalog
  have hdescribes := describes_of_resemble returned_secondCatalog.reachable.sound.store.toRegular
    resemble_secondCatalog returned_secondCatalog.describes
  have hproviders : (secondCatalog.plan .write).providers = Provider.standard := by cbv
  obtain ⟨handle, later, hbuild⟩ := hexists (Plan.provided_of_mem
    (hproviders ▸ Provider.mem_standard) hdescribes)
  obtain ⟨-, halone, -⟩ := hshares handle later hbuild
  have hstore : secondCatalog.store = writtenCatalog.store := store_after_register _ _
  obtain ⟨rfl, hlater⟩ := halone fun _ _ _ _ _ _ hsame =>
    eq_of_bisimilar_writtenCatalog (hstore ▸ hsame)
  exact ⟨later, hbuild, hlater⟩

/-! ## A cycle that goes round twice -/

theorem resembles_fieldType {direction : Direction} {R : TypeDef → TypeDef → Prop}
    {name name' : String} {type type' : TypeDef} (h : R type type') :
    (fieldType name type).Resembles direction R (fieldType name' type') :=
  .record ⟨_, .refl _, .cons ⟨decide_eq_true rfl, h, fun _ => rfl⟩ .nil⟩

/-- Both records of the longer cycle describe the same graph. -/
theorem resemble_twiceCatalog :
    twiceCatalog.Resemble .write (.named "A") (fieldType "B" (.named "A")) := by
  have hfind : twiceCatalog.definition? "A" = some ⟨twiceType, "A", rfl⟩ := by cbv
  have hitself : twiceCatalog.StandsFor (fieldType "B" (.named "A"))
      (fieldType "B" (.named "A")) := .itself fun _ h => TypeDef.noConfusion h
  refine ⟨fun a b => (a = .named "A" ∧ b = fieldType "B" (.named "A")) ∨
    (a = fieldType "B" (.named "A") ∧ b = .named "A"), .inl ⟨rfl, rfl⟩, ?_⟩
  rintro a b (⟨rfl, rfl⟩ | ⟨rfl, rfl⟩)
  · exact ⟨_, _, .name hfind, hitself, resembles_fieldType (.inr ⟨rfl, rfl⟩)⟩
  · exact ⟨_, _, hitself, .name hfind, resembles_fieldType (.inl ⟨rfl, rfl⟩)⟩

/-- The records are two nodes, so the types have two handles. -/
theorem getOrAdd_differs_twice : twiceCatalog.Returned .write (.named "A") 0 ∧
    twiceCatalog.Resemble .write (.named "A") (fieldType "B" (.named "A")) ∧
      ∃ after, getOrAdd .write (fieldType "B" (.named "A")) twiceCatalog = .ok 1 after :=
  ⟨returned_of_answer (.step (.register twiceType) (.start Provider.standard)) (by cbv) .refl,
    resemble_twiceCatalog, _, eq_ok_of_answer (by cbv)⟩

end Catalog

end WireSchema
