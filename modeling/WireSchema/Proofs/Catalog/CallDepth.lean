/-
# How deep the calls of a build go

The build calls itself for what a name stands for and for what is below a type.  Here the
same calls are made up to a given depth only, with nothing but the state to tell which types
are open, and a build that would have to go deeper has no result.  Since no open type is
built again, a depth that is known beforehand is enough for every build of a catalog.
-/

import WireSchema.Proofs.Catalog.Build
import WireSchema.Proofs.Catalog.Reachable

namespace WireSchema

/-! ## Runs of limited depth -/

section Completes

variable {ε σ α β : Type}

/-- From `s` a run that may have no result comes to the same end as one that always has one,
and `P` holds of the state if they succeed. -/
def Completes (P : σ → Prop) (s : σ) (limited : OptionT (EStateM ε σ) α)
    (run : EStateM ε σ α) : Prop :=
  Ends (run s) (fun a t => limited.run s = .ok (some a) t ∧ P t)
    fun e t => limited.run s = .error e t

variable {P Q : σ → Prop} {s : σ}

theorem Completes.run_eq {limited : OptionT (EStateM ε σ) α} {run : EStateM ε σ α}
    (h : Completes P s limited run) : limited.run s = (some <$> run) s := by
  rw [Completes] at h
  cases hrun : run s with
  | ok a t =>
      rw [hrun] at h
      exact h.1.trans (run_map_of_ok some hrun).symm
  | error e t =>
      rw [hrun] at h
      exact Eq.trans h (run_map_of_error some hrun).symm

theorem completes_lift {run : EStateM ε σ α} (h : Ends (run s) (fun _ t => P t) fun _ _ => True) :
    Completes P s (liftM run) run := by
  have hlift : (liftM run : OptionT (EStateM ε σ) α).run s =
    (run >>= fun a => pure (some a)) s := rfl
  rw [Completes, hlift]
  cases hrun : run s with
  | ok a t =>
      rw [hrun] at h
      exact ⟨run_bind_of_ok hrun, h⟩
  | error e t => exact run_bind_of_error hrun

theorem completes_pure (hs : P s) (a : α) :
    Completes P s (pure a : OptionT (EStateM ε σ) α) (pure a) :=
  ⟨rfl, hs⟩

theorem Completes.bind {limited : OptionT (EStateM ε σ) α} {run : EStateM ε σ α}
    {limited' : α → OptionT (EStateM ε σ) β} {run' : α → EStateM ε σ β}
    (h : Completes Q s limited run) (h' : ∀ a t, Q t → Completes P t (limited' a) (run' a)) :
    Completes P s (limited >>= limited') (run >>= run') := by
  refine ends_bind.2 (Ends.imp h (fun a t ⟨hrun, ht⟩ => ?_) fun e t hrun => ?_)
  · have hnext : (limited >>= limited').run s = (limited' a).run t := run_bind_of_ok hrun
    rw [hnext]
    exact h' a t ht
  · exact run_bind_of_error hrun

section Traversal

variable {ν κ κ' : Type}

theorem completes_visitAll {items : List α}
    {limited : (item : α) → item ∈ items → OptionT (EStateM ε σ) β}
    {run : (item : α) → item ∈ items → EStateM ε σ β}
    (h : ∀ item hitem s, P s → Completes P s (limited item hitem) (run item hitem)) (hs : P s) :
    Completes P s (Node.visitAll items limited) (Node.visitAll items run) := by
  induction items generalizing s with
  | nil => exact completes_pure hs []
  | cons item items ih =>
      refine (h item _ s hs).bind fun result t ht => ?_
      refine (ih (fun item hitem s hs => h item _ s hs) ht).bind fun results u hu => ?_
      exact completes_pure hu _

/-- If the runs for the children of a node come to the same end, so do those for the node. -/
theorem completes_traverse {node : Node ν κ}
    {limited : (child : κ) → child ∈ node.children → OptionT (EStateM ε σ) κ'}
    {run : (child : κ) → child ∈ node.children → EStateM ε σ κ'}
    (h : ∀ child hchild s, P s → Completes P s (limited child hchild) (run child hchild))
    (hs : P s) : Completes P s (node.traverse limited) (node.traverse run) := by
  cases node with
  | primitive | empty | enumeration => exact completes_pure hs _
  | nullable | list => exact (h _ _ s hs).bind fun child t ht => completes_pure ht _
  | dictionary direction key value =>
      refine (h key _ s hs).bind fun key' t ht => ?_
      exact (h value _ t ht).bind fun value' u hu => completes_pure hu _
  | recordWrite | recordRead | union =>
      refine (completes_visitAll (fun item hitem s hs => ?_) hs).bind fun items t ht =>
        completes_pure ht _
      exact (h _ _ s hs).bind fun child t ht => completes_pure ht _

end Traversal

end Completes

/-! ## Builds of limited depth -/

namespace Building

variable {plan : Plan} {opened : List TypeDef} {type target : TypeDef} {s : Building}

/-- Build a type with no more than `depth` calls inside each other, that for the type itself
and those for what it stands for included.  Which types are open is read off the state. -/
def buildWithin (plan : Plan) : Nat → TypeDef → OptionT (EStateM Error Building) Handle
  | 0, _ => failure
  | depth + 1, .named name =>
    match plan.definitions.find? fun definition => definition.name = name with
    | some definition => buildWithin plan depth definition.type
    | none => throwThe Error (.unknownType name)
  | depth + 1, type => do
    let state ← get
    match state.store.built.get? (plan.direction, type) with
    | some handle => return handle
    | none =>
      if type ∈ state.opened then slotFor type
      else if plan.providers.any (·.accepts type) then
        match type.layer plan.direction with
        | .error error => throwThe Error error
        | .ok layer => do
          let node ← OptionT.mk <| below type <| OptionT.run <|
            layer.traverse fun child _ => OptionT.mk (undoing (buildWithin plan depth child).run)
          close plan.direction type state.store.size node
      else throwThe Error (.unsupportedType type)

/-- A bound for how deep the calls for a type go while the types in `opened` are open.  A
registered type adds nothing of its own, since it is opened. -/
noncomputable def callDepth (plan : Plan) (opened : List TypeDef) (type : TypeDef) : Nat :=
  unseen plan.types opened * sizeOf plan.types + if type ∈ plan.types then 0 else sizeOf type

/-- What is below a type takes calls that are less deep. -/
theorem callDepth_lt {child : TypeDef} {layer : Node Name TypeDef} (hopened : type ∉ opened)
    (hlayer : type.layer plan.direction = .ok layer) (hchild : child ∈ layer.children) :
    callDepth plan (openedBelow opened type) child < callDepth plan opened type := by
  have hsize := TypeDef.sizeOf_lt_of_mem_layer hlayer hchild
  have hchild' : (if child ∈ plan.types then 0 else sizeOf child) ≤ sizeOf child := by
    split
    · exact Nat.zero_le _
    · exact Nat.le_refl _
  rw [callDepth, callDepth]
  by_cases hmem : type ∈ plan.types
  · have hrecur := TypeDef.mayRecur_of_layer (Plan.definitionName_of_mem_types hmem) hlayer hchild
    have hunseen := unseen_cons_lt hmem hopened
    have hlt := List.sizeOf_lt_of_mem hmem
    rw [openedBelow, if_pos hrecur, if_pos hmem]
    calc unseen plan.types (type :: opened) * sizeOf plan.types +
          (if child ∈ plan.types then 0 else sizeOf child)
        < unseen plan.types (type :: opened) * sizeOf plan.types + sizeOf plan.types := by omega
      _ = (unseen plan.types (type :: opened) + 1) * sizeOf plan.types := (Nat.succ_mul _ _).symm
      _ ≤ unseen plan.types opened * sizeOf plan.types := Nat.mul_le_mul_right _ hunseen
  · have hunseen : unseen plan.types (openedBelow opened type) ≤ unseen plan.types opened := by
      rw [openedBelow]
      split
      · exact unseen_cons_le ..
      · exact Nat.le_refl _
    have hmul := Nat.mul_le_mul_right (sizeOf plan.types) hunseen
    rw [if_neg hmem]
    omega

/-- What is registered under a name takes calls that are less deep than the name. -/
theorem callDepth_registered_lt {definition : Definition} {name : String}
    (hmem : definition ∈ plan.definitions) :
    callDepth plan opened definition.type < callDepth plan opened (.named name) := by
  have hregistered : definition.type ∈ plan.types := List.mem_map_of_mem hmem
  have hname : TypeDef.named name ∉ plan.types := fun h =>
    Bool.false_ne_true (Plan.definitionName_of_mem_types h)
  rw [callDepth, callDepth, if_pos hregistered, if_neg hname, TypeDef.named.sizeOf_spec]
  omega

/-- No call is deeper than the registered types together can make it, each of them open once. -/
theorem callDepth_le : callDepth plan opened type ≤
    plan.definitions.length * sizeOf plan.types + sizeOf type := by
  have hunseen : unseen plan.types opened ≤ plan.definitions.length :=
    List.countP_le_length.trans_eq (List.length_map _)
  have hmul := Nat.mul_le_mul_right (sizeOf plan.types) hunseen
  rw [callDepth]
  split <;> omega

/-- The types that are under construction are those in the list. -/
def HasOpened (opened : List TypeDef) (state : Building) : Prop :=
  state.opened = opened

theorem completes_throw {α : Type} {P : Building → Prop} (error : Error) :
    Completes P s (throwThe Error error : OptionT (EStateM Error Building) α) (throw error) :=
  rfl

theorem completes_below {α : Type} {limited : OptionT (EStateM Error Building) α}
    {run : EStateM Error Building α} {P : Building → Prop}
    (h : Completes P (s.enter type) limited run) :
    Completes P s (OptionT.mk (below type limited.run)) (below type run) := by
  have hrun : (OptionT.mk (below type limited.run)).run s = below type limited.run s := rfl
  refine ends_below.2 (Ends.imp h (fun a t ⟨heq, ht⟩ => ⟨?_, ht⟩) fun e t heq => ?_)
  all_goals rw [hrun, below, heq]

theorem completes_undoing {α : Type} {limited : OptionT (EStateM Error Building) α}
    {run : EStateM Error Building α} {P : Building → Prop} (h : Completes P s limited run) :
    Completes P s (OptionT.mk (undoing limited.run)) (undoing run) := by
  have hrun : (OptionT.mk (undoing limited.run)).run s = undoing limited.run s := rfl
  refine ends_undoing.2 (Ends.imp h (fun a t ⟨heq, ht⟩ => ⟨?_, ht⟩) fun e t heq => ?_)
  all_goals rw [hrun, undoing, heq]

theorem completes_get {α : Type} {limited : Building → OptionT (EStateM Error Building) α}
    {run : Building → EStateM Error Building α} {P : Building → Prop}
    (h : Completes P s (limited s) (run s)) :
    Completes P s (get >>= limited) (get >>= run) :=
  h

theorem hasOpened_slotFor (hs : HasOpened opened s) :
    Ends (slotFor type s) (fun _ t => HasOpened opened t) fun _ _ => True := by
  unfold slotFor
  split <;> exact hs

theorem hasOpened_close {direction : Direction} {mark : Nat} {node : Node Name Handle}
    (hs : HasOpened (openedBelow opened type) s) (hopened : type ∉ opened) :
    Ends (close direction type mark node s) (fun _ t => HasOpened opened t) fun _ _ => True := by
  have hleave : s.opened.erase type = opened :=
    (congrArg (List.erase · type) hs).trans (erase_openedBelow hopened)
  unfold close
  split
  next => trivial
  next =>
    dsimp only
    split
    · exact hleave
    · split <;> exact hleave

/-- The build from a layer gets to its end if the builds of what is below do. -/
theorem completes_layer {depth : Nat} {layer : Node Name TypeDef} (hopened : type ∉ opened)
    (hs : HasOpened opened s)
    (hchildren : ∀ child ∈ layer.children, ∀ t, HasOpened (openedBelow opened type) t →
      Completes (HasOpened (openedBelow opened type)) t (buildWithin plan depth child)
        (build plan (openedBelow opened type) child)) :
    Completes (HasOpened opened) s
      (do
        let node ← OptionT.mk <| below type <| OptionT.run <|
          layer.traverse fun child _ => OptionT.mk (undoing (buildWithin plan depth child).run)
        close plan.direction type s.store.size node)
      (do
        let node ← below type (layer.traverse fun child _ =>
          undoing (build plan (openedBelow opened type) child))
        close plan.direction type s.store.size node) := by
  have henter : HasOpened (openedBelow opened type) (s.enter type) := by
    rw [HasOpened, opened_enter, hs]
  have hbelow := completes_below (completes_traverse
    (fun child hchild t ht => completes_undoing (hchildren child hchild t ht)) henter)
  exact hbelow.bind fun node t ht => completes_lift (hasOpened_close ht hopened)

/-- A name that is registered is built as what it stands for. -/
theorem completes_named {depth : Nat} {name : String}
    (h : ∀ definition ∈ plan.definitions, Completes (HasOpened opened) s
      (buildWithin plan depth definition.type) (build plan opened definition.type)) :
    Completes (HasOpened opened) s (buildWithin plan (depth + 1) (.named name))
      (build plan opened (.named name)) := by
  rw [buildWithin]
  cases hfind : plan.definitions.find? fun definition => definition.name = name with
  | none =>
      have htarget : plan.target (.named name) = .error (.unknownType name) := by
        rw [Plan.target, hfind]
      rw [build_of_unknown htarget]
      exact completes_throw _
  | some definition =>
      have htarget : plan.target (.named name) = .ok definition.type := by
        rw [Plan.target, hfind]
      rw [build_eq htarget, ← build_eq (Plan.target_target htarget)]
      exact h definition (List.mem_of_find?_eq_some hfind)

/-- The build of a type that is not a name gets to its end if the builds of what is below it do. -/
theorem completes_unnamed {depth : Nat} (hnamed : ∀ name, type ≠ .named name)
    (hs : HasOpened opened s)
    (h : ∀ layer, type ∉ opened → type.layer plan.direction = .ok layer →
      ∀ child ∈ layer.children, ∀ t, HasOpened (openedBelow opened type) t →
        Completes (HasOpened (openedBelow opened type)) t (buildWithin plan depth child)
          (build plan (openedBelow opened type) child)) :
    Completes (HasOpened opened) s (buildWithin plan (depth + 1) type)
      (build plan opened type) := by
  rw [buildWithin, build_eq (Plan.target_of_ne_named hnamed)]
  swap
  · exact hnamed
  refine completes_get ?_
  rw [hs]
  cases s.store.built.get? (plan.direction, type) with
  | some handle => exact completes_pure hs handle
  | none =>
      by_cases hopened : type ∈ opened
      · simp only [if_pos hopened]
        exact completes_lift (hasOpened_slotFor hs)
      simp only [if_neg hopened]
      split
      next haccepts =>
        cases hlayer : type.layer plan.direction with
        | error error => exact completes_throw error
        | ok layer => exact completes_layer hopened hs (h layer hopened hlayer)
      next => exact completes_throw _

/-- A build gets to its end within its depth of calls, and afterwards the same types are open
as before. -/
theorem completes_build {depth : Nat} (hdepth : callDepth plan opened type < depth)
    (hs : HasOpened opened s) :
    Completes (HasOpened opened) s (buildWithin plan depth type) (build plan opened type) := by
  induction depth generalizing opened type s with
  | zero => exact absurd hdepth (Nat.not_lt_zero _)
  | succ depth ih =>
      have hle := Nat.le_of_lt_succ hdepth
      by_cases hnamed : ∃ name, type = .named name
      · obtain ⟨name, rfl⟩ := hnamed
        exact completes_named fun definition hmem =>
          ih ((callDepth_registered_lt hmem).trans_le hle) hs
      · refine completes_unnamed (fun name h => hnamed ⟨name, h⟩) hs ?_
        intro layer hopened hlayer child hchild t ht
        exact ih ((callDepth_lt hopened hlayer hchild).trans_le hle) ht

end Building

namespace Catalog

/-- The build of a catalog with no more than `depth` calls inside each other. -/
def getOrAddWithin (depth : Nat) (direction : Direction) (type : TypeDef) :
    OptionT (EStateM Error Catalog) Handle := fun catalog =>
  match Building.undoing (Building.buildWithin (catalog.plan direction) depth type).run
      catalog.building with
  | .ok handle? state =>
    .ok handle?
      { catalog with store := state.store, opened := state.opened, reserved := state.reserved }
  | .error error state =>
    .error error
      { catalog with store := state.store, opened := state.opened, reserved := state.reserved }

/-- The build of a catalog gets to its end if the build of the type does. -/
theorem completes_getOrAdd {catalog : Catalog} {direction : Direction} {type : TypeDef}
    {depth : Nat} {P : Building → Prop}
    (h : Completes P catalog.building (Building.buildWithin (catalog.plan direction) depth type)
      (Building.build (catalog.plan direction) catalog.opened type)) :
    Completes (fun _ => True) catalog (getOrAddWithin depth direction type)
      (getOrAdd direction type) := by
  have hundoing := Building.completes_undoing h
  rw [Completes, getOrAdd]
  rw [Completes] at hundoing
  cases hbuild : Building.undoing
      (Building.build (catalog.plan direction) catalog.opened type) catalog.building with
  | ok handle state =>
      rw [hbuild] at hundoing
      have hrun : Building.undoing (Building.buildWithin (catalog.plan direction) depth type).run
        catalog.building = .ok (some handle) state := hundoing.1
      refine ⟨?_, trivial⟩
      rw [OptionT.run, getOrAddWithin, hrun]
  | error error state =>
      rw [hbuild] at hundoing
      have hrun : Building.undoing (Building.buildWithin (catalog.plan direction) depth type).run
        catalog.building = .error error state := hundoing
      change (getOrAddWithin depth direction type).run catalog = _
      rw [OptionT.run, getOrAddWithin, hrun]

/-- No build of a catalog makes calls inside each other beyond what the registered types and the
type itself allow: up to that depth it comes to the same end, and leaves the same catalog, as
without a limit.  Each call makes one for what a name stands for, or one for each type directly
below, so their number is finite too. -/
theorem getOrAddWithin_eq (catalog : Catalog) (direction : Direction) (type : TypeDef)
    {depth : Nat} (hdepth : catalog.definitions.length *
      sizeOf (catalog.definitions.map Definition.type) + sizeOf type < depth) :
    (getOrAddWithin depth direction type).run catalog =
      (some <$> getOrAdd direction type) catalog := by
  have hopened : Building.HasOpened catalog.opened catalog.building := rfl
  have hlt : Building.callDepth (catalog.plan direction) catalog.opened type < depth :=
    Building.callDepth_le.trans_lt hdepth
  exact (completes_getOrAdd (Building.completes_build hlt hopened)).run_eq

/-- A branch has leaves, a leaf may hang on a branch. -/
def branchCatalog : Catalog :=
  after (register (.record "L" [⟨"b", .nullable (.named "B"), false⟩]))
    (after (register (.record "B" [⟨"l", .list (.named "L"), false⟩]))
      (withProviders Provider.standard))

theorem reachable_branchCatalog : Reachable branchCatalog :=
  .step (.register (.record "L" [⟨"b", .nullable (.named "B"), false⟩]))
    (.step (.register (.record "B" [⟨"l", .list (.named "L"), false⟩]))
      (.start Provider.standard))

/-- The build of a branch and its leaves comes to an end, and so does one that fails for want of
a definition. -/
theorem getOrAddWithin_eq_branch : Reachable branchCatalog ∧
    (∃ depth later,
      (getOrAddWithin depth .read (.named "B")).run branchCatalog = .ok (some 0) later) ∧
    ∃ depth error later,
      (getOrAddWithin depth .write (.list (.named "R"))).run branchCatalog =
        .error error later := by
  have hbuilt : answer (getOrAdd .read (.named "B")) branchCatalog = some 0 := by cbv
  have hfailed : answer (getOrAdd .write (.list (.named "R"))) branchCatalog = none := by cbv
  obtain ⟨error, herror⟩ := exists_error_of_answer_eq_none hfailed
  have hrun := getOrAddWithin_eq branchCatalog .read (.named "B") (Nat.lt_succ_self _)
  have hrun' := getOrAddWithin_eq branchCatalog .write (.list (.named "R")) (Nat.lt_succ_self _)
  exact ⟨reachable_branchCatalog,
    ⟨_, _, hrun.trans (run_map_of_ok some (eq_ok_of_answer hbuilt))⟩,
    _, _, _, hrun'.trans (run_map_of_error some herror)⟩

end Catalog

end WireSchema
