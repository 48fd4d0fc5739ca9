/-
# Types that are met again

A type gets a slot when it is met again while it is being built.  Building goes depth first
and does not go into types that have been built, so a type need not be met again although it
lies below itself.  It is met again if it lies below itself along types that are new.  What is
closed before that leads to it through types that are still open, at most; and once these are
closed as well, there is no way left.  Where there is no way from the start, nothing is met.
-/

import WireSchema.Proofs.Catalog.FailedBuild

namespace WireSchema

namespace Plan

variable {plan : Plan} {goal type : TypeDef} {Shut Shut' : TypeDef → Prop}

/-- There is a way down from the type to the goal that leaves only types that are not shut. -/
inductive Leads (plan : Plan) (goal : TypeDef) (Shut : TypeDef → Prop) : TypeDef → Prop
  | here : Leads plan goal Shut goal
  | step {parent child : TypeDef} : ¬ Shut parent → plan.Below child parent →
      Leads plan goal Shut child → Leads plan goal Shut parent

theorem Leads.mono (h : plan.Leads goal Shut type) (hsub : ∀ type, Shut' type → Shut type) :
    plan.Leads goal Shut' type := by
  induction h with
  | here => exact .here
  | step hopen hbelow _ ih => exact .step (fun hshut => hopen (hsub _ hshut)) hbelow ih

/-- A way down either avoids a type, or from there on goes on without coming back to it. -/
theorem Leads.avoid (h : plan.Leads goal Shut type) (other : TypeDef) :
    plan.Leads goal (fun type => Shut type ∨ type = other) type ∨
      ∃ child, plan.Below child other ∧
        plan.Leads goal (fun type => Shut type ∨ type = other) child := by
  induction h with
  | here => exact .inl .here
  | @step parent child hopen hbelow _ ih =>
      rcases ih with hleads | hother
      · by_cases heq : parent = other
        · subst heq
          exact .inr ⟨child, hbelow, hleads⟩
        · exact .inl (.step (fun hshut => hshut.elim hopen heq) hbelow hleads)
      · exact .inr hother

/-- A way down avoids all types to which there is no way down. -/
theorem Leads.avoid_all (h : plan.Leads goal Shut type) {types : List TypeDef}
    (hnot : ∀ other ∈ types, ¬ plan.Leads other Shut type) :
    plan.Leads goal (fun type => Shut type ∨ type ∈ types) type := by
  induction h with
  | here => exact .here
  | step hopen hbelow _ ih =>
      refine .step (fun hshut => hshut.elim hopen fun hmem => hnot _ hmem .here) hbelow ?_
      exact ih fun other hmem hleads => hnot other hmem (.step hopen hbelow hleads)

/-- The type is met again below itself along types that are not shut. -/
def RecursAlong (plan : Plan) (Open : TypeDef → Prop) (type : TypeDef) : Prop :=
  Relation.TransGen (fun child parent => plan.Below child parent ∧ Open parent) type type

/-- A type that is met again leads to itself by way of a type directly below it. -/
theorem RecursAlong.exists_child {Open : TypeDef → Prop} (h : plan.RecursAlong Open type) :
    Open type ∧ ∃ child, plan.Below child type ∧
      plan.Leads type (fun other => ¬ Open other ∨ other = type) child := by
  obtain ⟨child, hpath, hbelow, hopen⟩ := Relation.TransGen.tail'_iff.1 h
  have hleads : ∀ {other}, Relation.ReflTransGen
      (fun child parent => plan.Below child parent ∧ Open parent) type other →
        plan.Leads type (fun other => ¬ Open other ∨ other = type) other := by
    intro other hpath
    induction hpath with
    | refl => exact .here
    | @tail _ parent _ hstep ih =>
        by_cases heq : parent = type
        · subst heq
          exact .here
        · exact .step (fun hshut => hshut.elim (fun hnew => hnew hstep.2) heq) hstep.1 ih
  exact ⟨hopen, child, hbelow, hleads hpath⟩

/-- What leads back to a type that it is directly below makes it a type that is met again. -/
theorem Leads.recursAlong {Open : TypeDef → Prop} {child : TypeDef}
    (h : plan.Leads type (fun other => ¬ Open other) child) (hbelow : plan.Below child type)
    (hopen : Open type) : plan.RecursAlong Open type := by
  have hpath : Relation.ReflTransGen
      (fun child parent => plan.Below child parent ∧ Open parent) type child := by
    clear hbelow
    induction h with
    | here => exact .refl
    | step hshut hstep _ ih => exact ih.tail ⟨hstep, not_not.1 hshut⟩
  exact Relation.TransGen.tail' hpath ⟨hbelow, hopen⟩

/-- The store does not know what the type has been built as. -/
def IsNew (plan : Plan) (store : Store) (type : TypeDef) : Prop :=
  store.built.get? (plan.direction, type) = none

end Plan

namespace Building

variable {plan : Plan} {goal type target : TypeDef} {Shut : TypeDef → Prop}
variable {opened : List TypeDef} {s t u : Building} {slot handle : Handle}

/-- The type has been met again. -/
def Met (goal : TypeDef) (state : Building) : Prop :=
  ∃ slot, state.reserved.get? goal = some slot

/-- The goal has been met again, or what has been built leads there only through types that are
shut or still open. -/
def Searched (plan : Plan) (goal : TypeDef) (Shut : TypeDef → Prop) (opened : List TypeDef)
    (state : Building) : Prop :=
  Met goal state ∨ ∀ {type handle}, state.store.built.get? (plan.direction, type) = some handle →
    ¬ plan.Leads goal (fun type => Shut type ∨ type ∈ opened) type

/-- Builds while an open type is waited for. -/
def searching (plan : Plan) (goal : TypeDef) (Shut : TypeDef → Prop) (opened : List TypeDef) :
    Session Building where
  Valid := Searched plan goal Shut opened
  Step s t := Met goal s → Met goal t
  Fails _ _ := True
  refl _ h := h
  trans h h' hmet := h' (h hmet)
  fails_of_step _ _ _ _ := trivial

/-- What a build comes to: the goal has been met again, or the type does not lead there. -/
def Finds (plan : Plan) (goal : TypeDef) (Shut : TypeDef → Prop) (opened : List TypeDef)
    (type : TypeDef) (state : Building) : Prop :=
  Met goal state ∨ ∀ target, plan.target type = .ok target →
    ¬ plan.Leads goal (fun type => Shut type ∨ type ∈ opened) target

theorem met_slotFor (hmet : Met goal s) (target : TypeDef) :
    Met goal { s with
      store := s.store.reserve.2
      reserved := s.reserved.insert target s.store.size } := by
  obtain ⟨slot, hslot⟩ := hmet
  by_cases heq : goal = target
  · subst heq
    exact ⟨_, Table.get?_insert_self _ _ _⟩
  · exact ⟨slot, (Table.get?_insert_of_ne _ _ heq).trans hslot⟩

theorem met_enter : Met goal (s.enter target) ↔ Met goal s := by
  rw [Met, Met, enter]
  split <;> rfl

theorem mem_openedBelow (h : type ∈ opened) : type ∈ openedBelow opened target := by
  rw [openedBelow]
  split
  · exact List.mem_cons_of_mem _ h
  · exact h

theorem Searched.enter (h : Searched plan goal Shut opened s) (target : TypeDef) :
    Searched plan goal Shut (openedBelow opened target) (s.enter target) := by
  refine h.imp met_enter.2 fun hnot {type handle} hget hleads => ?_
  rw [store_enter] at hget
  exact hnot hget (hleads.mono fun type hshut => hshut.imp_right mem_openedBelow)

/-- A type that is open is the goal, or no way leads on from it. -/
theorem slotFor_searches (hs : Searched plan goal Shut opened s) (hopen : target ∈ opened)
    (htarget : plan.target type = .ok target) :
    (searching plan goal Shut opened).Runs s (slotFor target s) fun _ t =>
      Finds plan goal Shut opened type t := by
  have hfinds : ∀ t, (target = goal → Met goal t) → Finds plan goal Shut opened type t := by
    intro t hmet
    by_cases heq : target = goal
    · exact .inl (hmet heq)
    · refine .inr fun other hother hleads => ?_
      cases htarget.symm.trans hother
      cases hleads with
      | here => exact heq rfl
      | step hnot _ _ => exact hnot (.inr hopen)
  unfold slotFor
  split
  next slot hslot =>
    refine ⟨hs, id, hfinds s ?_⟩
    rintro rfl
    exact ⟨slot, hslot⟩
  next =>
    refine ⟨hs.imp (fun hmet => met_slotFor hmet target) id, fun hmet => met_slotFor hmet target,
      hfinds _ ?_⟩
    rintro rfl
    exact ⟨_, Table.get?_insert_self _ _ _⟩

theorem built_of_rollback {store : Store} {mark : Nat} {entry : Direction × TypeDef}
    (h : (store.rollback mark).built.get? entry = some handle) :
    store.built.get? entry = some handle := by
  rw [Store.rollback] at h
  split at h
  · exact h
  · exact ((Table.get?_retain_eq_some_iff _ _ _ _).1 h).1

/-- Closing a type gives back its slot and remembers the type and no other. -/
theorem close_tables (direction : Direction) (target : TypeDef) (mark : Nat)
    (node : Node Name Handle) (t : Building) :
    Ends (close direction target mark node t)
      (fun _ u => u.reserved = t.reserved.erase target ∧ ∀ {type handle},
        u.store.built.get? (direction, type) = some handle → type = target ∨
          t.store.built.get? (direction, type) = some handle)
      fun _ _ => True := by
  have hremember : ∀ {store : Store} {new type handle},
      (∀ {handle}, store.built.get? (direction, type) = some handle →
        t.store.built.get? (direction, type) = some handle) →
      (store.remember direction target new).built.get? (direction, type) = some handle →
        type = target ∨ t.store.built.get? (direction, type) = some handle := by
    intro store new type handle hstore hget
    rcases Table.get?_insert_eq_some_iff.1 hget with ⟨heq, -⟩ | ⟨-, hget⟩
    · exact .inl (congrArg Prod.snd heq)
    · exact .inr (hstore hget)
  unfold close
  split
  · trivial
  next arranged _ =>
    dsimp only
    split
    · refine ⟨rfl, hremember fun hget => ?_⟩
      rwa [Store.built_intern] at hget
    · split
      · exact ⟨rfl, hremember built_of_rollback⟩
      · exact ⟨rfl, hremember id⟩

/-- When all that is below a type has been searched, so has the type. -/
theorem searched_of_close (hgoal : goal ∈ opened) (hopened : target ∉ opened)
    (ht : Searched plan goal Shut (openedBelow opened target) t)
    (hchildren : ∀ child, plan.Below child target → Met goal t ∨
      ¬ plan.Leads goal (fun type => Shut type ∨ type ∈ openedBelow opened target) child)
    (hreserved : u.reserved = t.reserved.erase target)
    (hbuilt : ∀ {type handle}, u.store.built.get? (plan.direction, type) = some handle →
      type = target ∨ t.store.built.get? (plan.direction, type) = some handle) :
    (Met goal t → Met goal u) ∧ Searched plan goal Shut opened u ∧
      (Met goal u ∨ ¬ plan.Leads goal (fun type => Shut type ∨ type ∈ opened) target) := by
  have hne : goal ≠ target := by
    rintro rfl
    exact hopened hgoal
  have hmet : Met goal t → Met goal u := by
    rintro ⟨slot, hslot⟩
    refine ⟨slot, ?_⟩
    rw [hreserved]
    exact (Table.get?_erase_of_ne _ hne).trans hslot
  by_cases hyet : Met goal t
  · exact ⟨hmet, .inl (hmet hyet), .inl (hmet hyet)⟩
  have hwider : ∀ {other}, plan.Leads goal
      (fun type => (Shut type ∨ type ∈ opened) ∨ type = target) other →
        plan.Leads goal (fun type => Shut type ∨ type ∈ openedBelow opened target) other := by
    intro other hleads
    refine hleads.mono fun type hshut => hshut.elim (fun h => .inl (.inl h)) fun hmem => ?_
    exact (eq_or_mem_of_mem_openedBelow hmem).elim .inr fun h => .inl (.inr h)
  -- A way from anywhere that comes through the type would go on from one of its children.
  have havoid : ∀ {other}, plan.Leads goal (fun type => Shut type ∨ type ∈ opened) other →
      plan.Leads goal (fun type => (Shut type ∨ type ∈ opened) ∨ type = target) other :=
    fun hleads => (hleads.avoid target).resolve_right fun ⟨child, hbelow, hchild⟩ =>
      (hchildren child hbelow).elim hyet fun hnot => hnot (hwider hchild)
  have htarget : ¬ plan.Leads goal (fun type => Shut type ∨ type ∈ opened) target := by
    intro hleads
    cases havoid hleads with
    | here => exact hne rfl
    | step hnot _ _ => exact hnot (.inr rfl)
  refine ⟨hmet, .inr fun {type handle} hget hleads => ?_, .inr htarget⟩
  rcases hbuilt hget with rfl | hold
  · exact htarget hleads
  · exact ht.elim hyet (fun hnot => hnot hold (hwider (havoid hleads)))

/-- Building a type meets the goal, if the type leads there along types that are neither shut
nor open. -/
theorem build_searches (plan : Plan) (goal : TypeDef) (Shut : TypeDef → Prop)
    (opened : List TypeDef) (hgoal : goal ∈ opened) (type : TypeDef) (s : Building)
    (hs : Searched plan goal Shut opened s) :
    (searching plan goal Shut opened).Runs s (build plan opened type s) fun _ t =>
      Finds plan goal Shut opened type t := by
  refine ends_build (fun _ => trivial) (fun target handle htarget hbuilt => ?_)
    (fun target htarget _ hopened => slotFor_searches hs hopened htarget)
    fun target layer htarget _ hopened _ hlayer => ?_
  · refine ⟨hs, id, hs.imp_right fun hnot other hother => ?_⟩
    cases htarget.symm.trans hother
    exact hnot hbuilt
  · have hself := Plan.target_target htarget
    have hgoal' : goal ∈ openedBelow opened target := mem_openedBelow hgoal
    refine Ends.imp (Session.runs_traverse
      (S := searching plan goal Shut (openedBelow opened target))
      (R := fun child _ t => Finds plan goal Shut (openedBelow opened target) child t)
      (fun _ _ _ _ _ hstep _ hfinds => hfinds.imp_left hstep)
      (fun child hchild t ht =>
        have hsmaller := Plan.child_lt htarget hopened hlayer hchild
        runs_undoing (fun _ _ => trivial)
          (build_searches plan goal Shut _ hgoal' child t ht)) (hs.enter target))
      ?_ fun _ _ _ => trivial
    rintro node t ⟨ht, hstep, hlift⟩
    have hchildren : ∀ child, plan.Below child target → Met goal t ∨
        ¬ plan.Leads goal (fun type => Shut type ∨ type ∈ openedBelow opened target) child := by
      rintro child ⟨target', layer', below, htarget', hlayer', hmem, hchild⟩
      cases hself.symm.trans htarget'
      cases hlayer.symm.trans hlayer'
      obtain ⟨found, -, hfinds⟩ := Node.exists_right_of_forall₂ hlift.children hmem
      exact hfinds.imp_right fun hnot => hnot child hchild
    refine Ends.imp (close_tables plan.direction target s.store.size node t) ?_
      fun _ _ _ => trivial
    rintro handle u ⟨hreserved, hbuilt⟩
    obtain ⟨hmet, hsearched, hfinds⟩ :=
      searched_of_close hgoal hopened ht hchildren hreserved hbuilt
    refine ⟨hsearched, fun hyet => hmet (hstep (met_enter.2 hyet)), hfinds.imp_right
      fun hnot other hother => ?_⟩
    cases htarget.symm.trans hother
    exact hnot
termination_by (unseen plan.types opened, sizeOf type)
decreasing_by exact hsmaller

/-! ## Types that are not met -/

theorem advances_refl (s : Building) : s.scaffold.Advances s.scaffold :=
  .refl _

theorem advances_trans (h : s.scaffold.Advances t.scaffold)
    (h' : t.scaffold.Advances u.scaffold) : s.scaffold.Advances u.scaffold :=
  h.trans h'

/-- Builds that add to the base while none of the goals has been met again. -/
def avoiding (plan : Plan) (base : Store) (goals opened : List TypeDef) : Session Building where
  Valid t := (Records plan opened t ∧ AddsFor plan.direction base t.store) ∧
    ∀ goal ∈ goals, ¬ Met goal t
  Step s t := s.scaffold.Advances t.scaffold
  Fails _ _ := True
  refl := advances_refl
  trans := advances_trans
  fails_of_step _ _ _ _ := trivial

theorem avoiding_enter {base : Store} {goals : List TypeDef}
    (hs : (avoiding plan base goals opened).Valid s) (target : TypeDef) :
    (avoiding plan base goals (openedBelow opened target)).Valid (s.enter target) :=
  ⟨⟨hs.1.1.enter target, (store_enter s target).symm ▸ hs.1.2⟩,
    fun goal hgoal hmet => hs.2 goal hgoal (met_enter.1 hmet)⟩

theorem slotFor_avoids {goals : List TypeDef} (hmet : ∀ goal ∈ goals, ¬ Met goal s)
    (htarget : target ∉ goals) :
    Ends (slotFor target s) (fun _ t => ∀ goal ∈ goals, ¬ Met goal t) fun _ _ => True := by
  unfold slotFor
  split
  · exact hmet
  · rintro goal hgoal ⟨slot, hslot⟩
    have hne : goal ≠ target := fun heq => htarget (heq ▸ hgoal)
    exact hmet goal hgoal ⟨slot, (Table.get?_insert_of_ne _ _ hne).symm.trans hslot⟩

/-- Building a type does not meet what it does not lead to along new types. -/
theorem build_avoids (plan : Plan) {base : Store} (hbase : base.Regular) (goals : List TypeDef)
    (opened : List TypeDef) (type : TypeDef)
    (hpath : ∀ target, plan.target type = .ok target → ∀ above ∈ opened,
      Relation.TransGen plan.Below target above)
    (hnot : ∀ target, plan.target type = .ok target → ∀ goal ∈ goals,
      ¬ plan.Leads goal (fun type => ¬ plan.IsNew base type) target)
    (s : Building) (hs : (avoiding plan base goals opened).Valid s) :
    (avoiding plan base goals opened).Runs s (build plan opened type s) fun handle t =>
      Depicts plan plan.direction t.scaffold type handle := by
  have hruns := build_runs plan (maintains_addsFor plan.direction hbase) opened type hpath s hs.1
  suffices hmet : Ends (build plan opened type s) (fun _ t => ∀ goal ∈ goals, ¬ Met goal t)
      fun _ _ => True by
    refine Ends.imp (hruns.and hmet) ?_ fun _ _ _ => trivial
    rintro handle t ⟨⟨ht, hstep, hdepicts⟩, hmet⟩
    exact ⟨⟨ht, hmet⟩, hstep, hdepicts⟩
  clear hruns
  refine ends_build (fun _ => trivial) (fun _ _ _ _ => hs.2)
    (fun target htarget _ _ =>
      slotFor_avoids hs.2 fun hgoal => hnot target htarget target hgoal .here)
    fun target layer htarget hbuilt hopened _ hlayer => ?_
  have hself := Plan.target_target htarget
  have hnew : plan.IsNew base target := hs.1.2.grows.built_eq_none hbuilt
  refine Ends.imp (Session.runs_traverse
    (S := avoiding plan base goals (openedBelow opened target))
    (R := fun child handle t => Depicts plan plan.direction t.scaffold child handle)
    (fun _ _ _ _ _ hstep _ hdepicts => hdepicts.advance hstep)
    (fun child hchild t ht =>
      have hsmaller := Plan.child_lt htarget hopened hlayer hchild
      have hbelow : ∀ below, plan.target child = .ok below → plan.Below below target :=
        fun below hbelow => ⟨target, layer, child, hself, hlayer, hchild, hbelow⟩
      runs_undoing (fun _ _ => trivial) <| build_avoids plan hbase goals _ child
        (fun below htarget' => path_below (hbelow below htarget') (hpath target htarget))
        (fun below htarget' goal hgoal hleads => hnot target htarget goal hgoal
          (.step (not_not.2 hnew) (hbelow below htarget') hleads)) t ht)
    (avoiding_enter hs target)) ?_ fun _ _ _ => trivial
  rintro node t ⟨⟨-, hmet⟩, -, -⟩
  refine Ends.imp (close_tables plan.direction target s.store.size node t) ?_
    fun _ _ _ => trivial
  rintro handle u ⟨hreserved, -⟩ goal hgoal ⟨slot, hslot⟩
  rw [hreserved] at hslot
  exact hmet goal hgoal ⟨slot, (Table.get?_erase_eq_some_iff.1 hslot).2⟩
termination_by (unseen plan.types opened, sizeOf type)
decreasing_by exact hsmaller

end Building

end WireSchema
