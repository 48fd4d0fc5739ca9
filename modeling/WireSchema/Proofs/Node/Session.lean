/-
# Sessions

A session is a run of stateful operations that keep an invariant and only ever
move the state forward; what is known after one of them stays known.  Translating
the children of a node one after the other is such a run: if every child is
translated within the session, so is the node (`Session.runs_traverse`).
-/

import WireSchema.Proofs.Node.Lifting

namespace WireSchema

variable {ε σ α β : Type}

/-- How a run ends: `ok` holds of its result and last state, or `error` of its error
and last state. -/
def Ends (outcome : EStateM.Result ε σ α) (ok : α → σ → Prop) (error : ε → σ → Prop) : Prop :=
  match outcome with
  | .ok result state => ok result state
  | .error problem state => error problem state

theorem Ends.imp {outcome : EStateM.Result ε σ α} {ok ok' : α → σ → Prop}
    {error error' : ε → σ → Prop} (h : Ends outcome ok error)
    (hok : ∀ a s, ok a s → ok' a s) (herror : ∀ e s, error e s → error' e s) :
    Ends outcome ok' error' := by
  cases outcome with
  | ok a s => exact hok a s h
  | error e s => exact herror e s h

/-- What holds of every result and state holds where a run succeeds. -/
theorem ends_of_ok {outcome : EStateM.Result ε σ α} {ok : α → σ → Prop} (h : ∀ a s, ok a s) :
    Ends outcome ok fun _ _ => True := by
  cases outcome with
  | ok a s => exact h a s
  | error => trivial

theorem Ends.and {outcome : EStateM.Result ε σ α} {ok ok' : α → σ → Prop}
    {error error' : ε → σ → Prop} (h : Ends outcome ok error) (h' : Ends outcome ok' error') :
    Ends outcome (fun a s => ok a s ∧ ok' a s) fun e s => error e s ∧ error' e s := by
  cases outcome with
  | ok a s => exact ⟨h, h'⟩
  | error e s => exact ⟨h, h'⟩

theorem ends_bind {x : EStateM ε σ α} {f : α → EStateM ε σ β} {s : σ}
    {ok : β → σ → Prop} {error : ε → σ → Prop} :
    Ends ((x >>= f) s) ok error ↔ Ends (x s) (fun a t => Ends (f a t) ok error) error := by
  change Ends (EStateM.bind x f s) ok error ↔ _
  unfold EStateM.bind
  cases x s <;> rfl

theorem run_get_bind (f : σ → EStateM ε σ α) (s : σ) :
    ((get : EStateM ε σ σ) >>= f) s = f s s :=
  rfl

theorem run_bind_of_ok {x : EStateM ε σ α} {f : α → EStateM ε σ β} {s t : σ} {a : α}
    (h : x s = .ok a t) : (x >>= f) s = f a t := by
  change EStateM.bind x f s = _
  rw [EStateM.bind, h]

theorem run_bind_of_error {x : EStateM ε σ α} {f : α → EStateM ε σ β} {s t : σ} {error : ε}
    (h : x s = .error error t) : (x >>= f) s = .error error t := by
  change EStateM.bind x f s = _
  rw [EStateM.bind, h]

theorem run_map_of_ok {x : EStateM ε σ α} {s t : σ} {a : α} (f : α → β) (h : x s = .ok a t) :
    (f <$> x) s = .ok (f a) t := by
  change EStateM.map f x s = _
  rw [EStateM.map, h]

theorem run_map_of_error {x : EStateM ε σ α} {s t : σ} {error : ε} (f : α → β)
    (h : x s = .error error t) : (f <$> x) s = .error error t := by
  change EStateM.map f x s = _
  rw [EStateM.map, h]

/-- An operation that looks at the state first goes on with what it makes of it. -/
theorem exists_run_of_get {f : σ → EStateM ε σ α} {run : EStateM ε σ α}
    (h : ((get : EStateM ε σ σ) >>= f) = run) (s : σ) : ∃ next, f s = next ∧ run s = next s := by
  subst h
  exact ⟨f s, rfl, rfl⟩

/-- What the operations of a session have in common. -/
structure Session (σ : Type) where
  /-- What holds of the state before and after an operation. -/
  Valid : σ → Prop
  /-- How an operation that succeeds moves the state. -/
  Step : σ → σ → Prop
  /-- How an operation that fails leaves the state. -/
  Fails : σ → σ → Prop
  refl : ∀ s, Step s s
  trans : ∀ {s t u}, Step s t → Step t u → Step s u
  fails_of_step : ∀ {s t u}, Valid s → Step s t → Valid t → Fails t u → Fails s u

namespace Session

variable (S : Session σ)

/-- The run from `s` belongs to the session, with `Result` of what it gives. -/
def Runs (s : σ) (outcome : EStateM.Result ε σ α) (Result : α → σ → Prop) : Prop :=
  Ends outcome (fun a t => S.Valid t ∧ S.Step s t ∧ Result a t) fun _ t => S.Fails s t

variable {S}

theorem runs_pure {s : σ} {a : α} {Result : α → σ → Prop} (hs : S.Valid s) (h : Result a s) :
    S.Runs s ((pure a : EStateM ε σ α) s) Result :=
  ⟨hs, S.refl s, h⟩

theorem Runs.imp {s : σ} {outcome : EStateM.Result ε σ α} {Result Result' : α → σ → Prop}
    (h : S.Runs s outcome Result)
    (himp : ∀ a t, S.Valid t → S.Step s t → Result a t → Result' a t) :
    S.Runs s outcome Result' :=
  Ends.imp h (fun a t ⟨ht, hstep, hresult⟩ => ⟨ht, hstep, himp a t ht hstep hresult⟩)
    fun _ _ hfails => hfails

/-- A run from a later state of the session, seen from an earlier one. -/
theorem Runs.after {s t : σ} {outcome : EStateM.Result ε σ α} {Result : α → σ → Prop}
    (hs : S.Valid s) (hstep : S.Step s t) (ht : S.Valid t) (h : S.Runs t outcome Result) :
    S.Runs s outcome Result :=
  Ends.imp h (fun _ _ ⟨hu, hstep', hresult⟩ => ⟨hu, S.trans hstep hstep', hresult⟩)
    fun _ _ hfails => S.fails_of_step hs hstep ht hfails

theorem Runs.bind {s : σ} {x : EStateM ε σ α} {f : α → EStateM ε σ β}
    {Result : α → σ → Prop} {Result' : β → σ → Prop} (hs : S.Valid s)
    (hx : S.Runs s (x s) Result)
    (hf : ∀ a t, S.Valid t → S.Step s t → Result a t → S.Runs t (f a t) Result') :
    S.Runs s ((x >>= f) s) Result' := by
  refine ends_bind.2 (Ends.imp hx ?_ fun _ _ hfails => hfails)
  rintro a t ⟨ht, hstep, hresult⟩
  exact (hf a t ht hstep hresult).after hs hstep ht

section Traversal

variable {κ κ' : Type} {R : α → β → σ → Prop}

/-- If every item of a list is translated within the session, so is the list. -/
theorem runs_visitAll
    (hkeep : ∀ x y s t, S.Valid s → S.Step s t → S.Valid t → R x y s → R x y t)
    {items : List α} {f : (item : α) → item ∈ items → EStateM ε σ β}
    (hf : ∀ item hitem s, S.Valid s → S.Runs s (f item hitem s) (R item))
    {s : σ} (hs : S.Valid s) :
    S.Runs s (Node.visitAll items f s) fun results t =>
      List.Forall₂ (fun x y => R x y t) items results := by
  induction items generalizing s with
  | nil => exact runs_pure hs .nil
  | cons item items ih =>
      apply (hf item _ s hs).bind hs
      intro result t ht _ hresult
      have hrest := ih (f := fun item h => f item (List.mem_cons_of_mem _ h))
        (fun item hitem s hs => hf item _ s hs) ht
      apply hrest.bind ht
      intro results u hu hstep hresults
      exact runs_pure hu (.cons (hkeep _ _ _ _ ht hstep hu hresult) hresults)

/-- Members are translated by translating their targets. -/
theorem runs_members {ν : Type} {R : κ → κ' → σ → Prop}
    (hkeep : ∀ x y s t, S.Valid s → S.Step s t → S.Valid t → R x y s → R x y t)
    (members : List (Member ν κ)) {f : (member : Member ν κ) → member ∈ members → EStateM ε σ κ'}
    (hf : ∀ member hmember s, S.Valid s → S.Runs s (f member hmember s) (R member.target))
    {s : σ} (hs : S.Valid s) :
    S.Runs s
      ((Node.visitAll members fun member h => do
        let target ← f member h
        return Member.mk member.name target : EStateM ε σ (List (Member ν κ'))) s)
      fun results t => List.Forall₂ (Node.SameMember (R · · t)) members results := by
  refine runs_visitAll (R := fun x y t => Node.SameMember (R · · t) x y)
    (fun _ _ _ _ hs hstep ht ⟨hname, hR⟩ => ⟨hname, hkeep _ _ _ _ hs hstep ht hR⟩) ?_ hs
  intro member hmember s hs
  apply (hf member hmember s hs).bind hs
  intro target t ht _ htarget
  exact runs_pure ht ⟨rfl, htarget⟩

/-- Inputs are translated by translating their targets. -/
theorem runs_inputs {ν : Type} {R : κ → κ' → σ → Prop}
    (hkeep : ∀ x y s t, S.Valid s → S.Step s t → S.Valid t → R x y s → R x y t)
    (inputs : List (Input ν κ)) {f : (input : Input ν κ) → input ∈ inputs → EStateM ε σ κ'}
    (hf : ∀ input hinput s, S.Valid s → S.Runs s (f input hinput s) (R input.target))
    {s : σ} (hs : S.Valid s) :
    S.Runs s
      ((Node.visitAll inputs fun input h => do
        let target ← f input h
        return Input.mk input.name target input.required : EStateM ε σ (List (Input ν κ'))) s)
      fun results t => List.Forall₂ (Node.SameInput (R · · t)) inputs results := by
  refine runs_visitAll (R := fun x y t => Node.SameInput (R · · t) x y)
    (fun _ _ _ _ hs hstep ht ⟨hname, hflag, hR⟩ =>
      ⟨hname, hflag, hkeep _ _ _ _ hs hstep ht hR⟩) ?_ hs
  intro input hinput s hs
  apply (hf input hinput s hs).bind hs
  intro target t ht _ htarget
  exact runs_pure ht ⟨rfl, rfl, htarget⟩

/-- If every child of a node is translated within the session, so is the node. -/
theorem runs_traverse {ν : Type} {R : κ → κ' → σ → Prop}
    (hkeep : ∀ x y s t, S.Valid s → S.Step s t → S.Valid t → R x y s → R x y t)
    {node : Node ν κ} {f : (child : κ) → child ∈ node.children → EStateM ε σ κ'}
    (hf : ∀ child hchild s, S.Valid s → S.Runs s (f child hchild s) (R child))
    {s : σ} (hs : S.Valid s) :
    S.Runs s (node.traverse f s) fun result t => node.Lift (fun x y => R x y t) result := by
  cases node with
  | primitive | empty | enumeration => exact runs_pure hs ⟨rfl, .nil⟩
  | nullable direction inner =>
      apply (hf inner _ s hs).bind hs
      intro result t ht _ hresult
      exact runs_pure ht ⟨rfl, .cons hresult .nil⟩
  | list direction item =>
      apply (hf item _ s hs).bind hs
      intro result t ht _ hresult
      exact runs_pure ht ⟨rfl, .cons hresult .nil⟩
  | dictionary direction key value =>
      apply (hf key _ s hs).bind hs
      intro key' t ht _ hkey
      apply (hf value _ t ht).bind ht
      intro value' u hu hstep hvalue
      exact runs_pure hu ⟨rfl, .cons (hkeep _ _ _ _ ht hstep hu hkey) (.cons hvalue .nil)⟩
  | recordWrite fields =>
      refine (runs_members hkeep fields (fun field h => hf field.target
        (List.mem_map_of_mem h)) hs).bind hs fun fields' t ht _ hrel => ?_
      exact runs_pure ht (Node.lift_recordWrite_iff.2 hrel)
  | recordRead fields =>
      refine (runs_inputs hkeep fields (fun field h => hf field.target
        (List.mem_map_of_mem h)) hs).bind hs fun fields' t ht _ hrel => ?_
      exact runs_pure ht (Node.lift_recordRead_iff.2 hrel)
  | union direction members =>
      refine (runs_members hkeep members (fun member h => hf member.target
        (List.mem_map_of_mem h)) hs).bind hs fun members' t ht _ hrel => ?_
      exact runs_pure ht (Node.lift_union_iff.2 ⟨rfl, hrel⟩)

end Traversal

end Session

end WireSchema
