/-
# The traversal as a search

The traversal makes calls inside each other, and an answer that it remembers may rest on a
pair that it is still inside of and that is rejected in the end.  The search below goes
through a list of tasks and takes every pair that it has met as compatible, whether the
traversal would be inside of that pair or have its answer.  The two find the same first
mismatch: a rejection ends the traversal of all pairs around it, so no answer is looked up
after there has been one.
-/

import WireSchema.Compatibility.Check

namespace WireSchema

namespace Compatibility

/-- What remains to be checked: a step at the end of a path. -/
structure Task where
  path : List Segment
  step : Step

/-- The tasks for the steps of a pair that is at the end of a path. -/
def tasksAt (path : List Segment) (steps : List Step) : List Task :=
  steps.map fun step =>
    match step with
    | .compare segment? _ _ => ⟨path ++ segment?.toList, step⟩
    | .reject _ => ⟨path, step⟩

set_option linter.unusedVariables false in
/-- The first mismatch among the tasks and all that they lead to, when the pairs
in `seen` have been met. -/
def search (store : Store) (strict : Bool) (seen : List (Handle × Handle)) :
    List Task → Option Mismatch
  | [] => none
  | ⟨path, .reject reason⟩ :: _ => some ⟨path, reason⟩
  | ⟨path, .compare _ read write⟩ :: tasks =>
    if hseen : (read, write) ∈ seen then search store strict seen tasks
    else
      match hread : store.node? read, hwrite : store.node? write with
      | some reader, some writer =>
        search store strict ((read, write) :: seen)
          (tasksAt path (rule strict read write reader writer) ++ tasks)
      | _, _ => some ⟨path, .unknownNode read write⟩
termination_by tasks => (unseen (pairsBelow store.size store.size) seen, tasks.length)
decreasing_by
  · exact Prod.Lex.right _ (Nat.lt_succ_self _)
  · exact Prod.Lex.left _ _ (unseen_cons_lt
      (mem_pairsBelow (Store.lt_size_of_node? hread) (Store.lt_size_of_node? hwrite)) hseen)

variable {store : Store} {strict : Bool} {read write : Handle} {reader writer : Node Name Handle}
variable {active seen : List (Handle × Handle)} {path : List Segment} {segment? : Option Segment}
variable {tasks : List Task} {memory : Memory}

/-- A pair that has not been met is taken by its own rule first. -/
theorem search_cons (hseen : (read, write) ∉ seen)
    (hread : store.node? read = some reader) (hwrite : store.node? write = some writer) :
    search store strict seen (⟨path, .compare segment? read write⟩ :: tasks) =
      search store strict ((read, write) :: seen)
        (tasksAt path (rule strict read write reader writer) ++ tasks) := by
  rw [search, dif_neg hseen]
  split
  next reader' writer' hread' hwrite' =>
    cases hread.symm.trans hread'
    cases hwrite.symm.trans hwrite'
    rfl
  next hnone => exact (hnone reader writer hread hwrite).elim

theorem search_cons_of_no_node (hseen : (read, write) ∉ seen)
    (hnone : ∀ reader writer, store.node? read = some reader → store.node? write ≠ some writer) :
    search store strict seen (⟨path, .compare segment? read write⟩ :: tasks) =
      some ⟨path, .unknownNode read write⟩ := by
  rw [search, dif_neg hseen]
  split
  next reader writer hread hwrite => exact (hnone reader writer hread hwrite).elim
  next => rfl

/-! ## One call of the traversal -/

theorem traverse_of_answered {result : Bool}
    (h : memory.results.lookup (read, write) = some result) :
    (traverse store strict active path read write).run memory = (result, memory) := by
  rw [traverse, StateT.run_bind, StateT.run_get, pure_bind, h]
  rfl

theorem traverse_of_active (h : memory.results.lookup (read, write) = none)
    (hactive : (read, write) ∈ active) :
    (traverse store strict active path read write).run memory = (true, memory) := by
  rw [traverse, StateT.run_bind, StateT.run_get, pure_bind, h, dif_pos hactive]
  rfl

theorem traverse_of_nodes (h : memory.results.lookup (read, write) = none)
    (hactive : (read, write) ∉ active)
    (hread : store.node? read = some reader) (hwrite : store.node? write = some writer) :
    (traverse store strict active path read write).run memory =
      let goBelow := fun segment? =>
        traverse store strict ((read, write) :: active) (path ++ segment?.toList)
      let ending :=
        ((rule strict read write reader writer).allM (Step.take goBelow path)).run memory
      (ending.1, ending.2.answer (read, write) ending.1) := by
  rw [traverse, StateT.run_bind, StateT.run_get, pure_bind, h, dif_neg hactive]
  dsimp only
  split
  next reader' writer' hread' hwrite' =>
    cases hread.symm.trans hread'
    cases hwrite.symm.trans hwrite'
    rfl
  next hnone => exact (hnone reader writer hread hwrite).elim

theorem traverse_of_no_node (h : memory.results.lookup (read, write) = none)
    (hactive : (read, write) ∉ active)
    (hnone : ∀ reader writer, store.node? read = some reader → store.node? write ≠ some writer) :
    (traverse store strict active path read write).run memory =
      (false, memory.reject ⟨path, .unknownNode read write⟩) := by
  rw [traverse, StateT.run_bind, StateT.run_get, pure_bind, h, dif_neg hactive]
  dsimp only
  split
  next reader writer hread hwrite => exact (hnone reader writer hread hwrite).elim
  next => rfl

/-! ## Before the first rejection -/

/-- There has been no rejection, and the pairs in `seen` are those that the traversal is inside
of and those that it has been through. -/
structure Memory.Clean (memory : Memory) (active seen : List (Handle × Handle)) : Prop where
  mismatch? : memory.mismatch? = none
  lookup_ne_false : ∀ pair, memory.results.lookup pair ≠ some false
  mem_seen_iff : ∀ pair, pair ∈ seen ↔ pair ∈ active ∨ memory.results.lookup pair = some true

theorem Memory.clean_empty : Memory.empty.Clean [] [] where
  mismatch? := rfl
  lookup_ne_false _ := nofun
  mem_seen_iff _ := by simp [Memory.empty]

theorem Memory.lookup_answer (pair other : Handle × Handle) (result : Bool) :
    (memory.answer pair result).results.lookup other =
      if other = pair then some result else memory.results.lookup other := by
  rw [Memory.answer, List.lookup_cons]
  split <;> simp_all

theorem Memory.Clean.lookup_eq_none (hclean : memory.Clean active seen)
    (hseen : (read, write) ∉ seen) : memory.results.lookup (read, write) = none := by
  cases hlookup : memory.results.lookup (read, write) with
  | none => rfl
  | some result =>
      cases result with
      | true => exact absurd ((hclean.mem_seen_iff _).2 (.inr hlookup)) hseen
      | false => exact absurd hlookup (hclean.lookup_ne_false _)

theorem Memory.Clean.mismatch?_reject {mismatch : Mismatch} (hclean : memory.Clean active seen) :
    (memory.reject mismatch).mismatch? = some mismatch := by
  rw [Memory.reject, hclean.mismatch?, Option.none_or]

/-- A pair that is met is one more that the traversal is inside of. -/
theorem Memory.Clean.enter (hclean : memory.Clean active seen) (pair : Handle × Handle) :
    memory.Clean (pair :: active) (pair :: seen) where
  mismatch? := hclean.mismatch?
  lookup_ne_false := hclean.lookup_ne_false
  mem_seen_iff other := by
    rw [List.mem_cons, List.mem_cons, hclean.mem_seen_iff, or_assoc]

/-- A pair that is left is compatible, and its answer is remembered. -/
theorem Memory.Clean.leave {pair : Handle × Handle} (hclean : memory.Clean (pair :: active) seen) :
    (memory.answer pair true).Clean active seen where
  mismatch? := hclean.mismatch?
  lookup_ne_false other := by
    rw [Memory.lookup_answer]
    split
    · nofun
    · exact hclean.lookup_ne_false other
  mem_seen_iff other := by
    rw [Memory.lookup_answer, hclean.mem_seen_iff, List.mem_cons]
    by_cases h : other = pair <;> simp [h]

/-! ## The traversal and the search -/

/-- How a run of the traversal ends that the search has some tasks for.  Either both go on, or
both have found the same mismatch. -/
inductive Outcome (store : Store) (strict : Bool) (active seen : List (Handle × Handle))
    (tasks : List Task) : Bool × Memory → Prop
  | compatible {memory : Memory} {seen' : List (Handle × Handle)}
      (hclean : memory.Clean active seen')
      (hsearch : ∀ rest, search store strict seen (tasks ++ rest) =
        search store strict seen' rest) :
      Outcome store strict active seen tasks (true, memory)
  | rejected {memory : Memory} {mismatch : Mismatch}
      (hmismatch : memory.mismatch? = some mismatch)
      (hsearch : ∀ rest, search store strict seen (tasks ++ rest) = some mismatch) :
      Outcome store strict active seen tasks (false, memory)

/-- What goes on after a first task ends as the rest of the tasks do. -/
theorem Outcome.after {task : Task} {seen' : List (Handle × Handle)} {ending : Bool × Memory}
    (hsearch : ∀ rest, search store strict seen ([task] ++ rest) = search store strict seen' rest)
    (h : Outcome store strict active seen' tasks ending) :
    Outcome store strict active seen (task :: tasks) ending := by
  cases h with
  | compatible hclean hrest =>
      exact .compatible hclean fun rest => (hsearch (tasks ++ rest)).trans (hrest rest)
  | rejected hmismatch hrest =>
      exact .rejected hmismatch fun rest => (hsearch (tasks ++ rest)).trans (hrest rest)

/-- When the steps of a pair have been taken, its answer is remembered. -/
theorem Outcome.leave {ending : Bool × Memory} (hseen : (read, write) ∉ seen)
    (hread : store.node? read = some reader) (hwrite : store.node? write = some writer)
    (h : Outcome store strict ((read, write) :: active) ((read, write) :: seen)
      (tasksAt path (rule strict read write reader writer)) ending) :
    Outcome store strict active seen [⟨path, .compare segment? read write⟩]
      (ending.1, ending.2.answer (read, write) ending.1) := by
  cases h with
  | compatible hclean hsearch =>
      refine .compatible hclean.leave fun rest => ?_
      rw [List.singleton_append, search_cons hseen hread hwrite, hsearch]
  | rejected hmismatch hsearch =>
      refine .rejected hmismatch fun rest => ?_
      rw [List.singleton_append, search_cons hseen hread hwrite, hsearch]

/-- The first step is taken first, and the others unless it is rejected. -/
theorem run_allM_cons (take : Step → StateM Memory Bool) (step : Step) (steps : List Step) :
    ((step :: steps).allM take).run memory =
      if ((take step).run memory).1 then (steps.allM take).run ((take step).run memory).2
      else (false, ((take step).run memory).2) := by
  rw [List.allM, StateT.run_bind]
  obtain ⟨result, memory⟩ := (take step).run memory
  cases result <;> rfl

/-- The steps of a pair are taken in the order of their tasks. -/
theorem outcome_allM {goBelow : Option Segment → Handle → Handle → StateM Memory Bool}
    (h : ∀ segment? read write memory seen, memory.Clean active seen →
      Outcome store strict active seen [⟨path ++ segment?.toList, .compare segment? read write⟩]
        ((goBelow segment? read write).run memory))
    (steps : List Step) (hclean : memory.Clean active seen) :
    Outcome store strict active seen (tasksAt path steps)
      ((steps.allM (Step.take goBelow path)).run memory) := by
  induction steps generalizing memory seen with
  | nil => exact .compatible hclean fun _ => rfl
  | cons step steps ih =>
      rw [run_allM_cons]
      cases step with
      | reject reason =>
          refine .rejected hclean.mismatch?_reject fun rest => ?_
          rw [tasksAt, List.map_cons, List.cons_append, search]
      | compare segment? read write =>
          have hstep := h segment? read write memory seen hclean
          rw [Step.take]
          generalize (goBelow segment? read write).run memory = ending at hstep
          cases hstep with
          | compatible hclean hsearch => exact (ih hclean).after hsearch
          | rejected hmismatch hsearch =>
              exact .rejected hmismatch fun rest => hsearch (tasksAt path steps ++ rest)

/-- A pair that has been met is compatible, and nothing is done for it. -/
theorem Memory.Clean.run_traverse_of_mem (hclean : memory.Clean active seen)
    (hseen : (read, write) ∈ seen) :
    (traverse store strict active path read write).run memory = (true, memory) := by
  cases hlookup : memory.results.lookup (read, write) with
  | some result =>
      cases result with
      | true => exact traverse_of_answered hlookup
      | false => exact absurd hlookup (hclean.lookup_ne_false _)
  | none =>
      rcases (hclean.mem_seen_iff _).1 hseen with hactive | hanswered
      · exact traverse_of_active hlookup hactive
      · cases hlookup.symm.trans hanswered

/-- The traversal of a pair ends as the search does for the task to compare it. -/
theorem outcome_traverse (hclean : memory.Clean active seen) :
    Outcome store strict active seen [⟨path, .compare segment? read write⟩]
      ((traverse store strict active path read write).run memory) := by
  induction active, path, read, write using traverse.induct store
    generalizing segment? memory seen with
  | case1 active path read write ih =>
      by_cases hseen : (read, write) ∈ seen
      · rw [hclean.run_traverse_of_mem hseen]
        refine .compatible hclean fun rest => ?_
        rw [List.singleton_append, search, dif_pos hseen]
      have hlookup := hclean.lookup_eq_none hseen
      have hactive : (read, write) ∉ active := fun hactive =>
        hseen ((hclean.mem_seen_iff _).2 (.inl hactive))
      by_cases hnodes : ∃ reader writer,
          store.node? read = some reader ∧ store.node? write = some writer
      · obtain ⟨reader, writer, hread, hwrite⟩ := hnodes
        have hsteps := outcome_allM (fun segment? read' write' memory seen hclean =>
          ih hactive reader writer hread hwrite segment? read' write' hclean)
          (rule strict read write reader writer) (hclean.enter (read, write))
        rw [traverse_of_nodes hlookup hactive hread hwrite]
        exact hsteps.leave hseen hread hwrite
      · have hnone : ∀ reader writer, store.node? read = some reader →
            store.node? write ≠ some writer :=
          fun reader writer hread hwrite => hnodes ⟨reader, writer, hread, hwrite⟩
        rw [traverse_of_no_node hlookup hactive hnone]
        refine .rejected hclean.mismatch?_reject fun rest => ?_
        rw [List.singleton_append, search_cons_of_no_node hseen hnone]

end Compatibility

namespace Store

open Compatibility

variable {store : Store} {strict : Bool} {read write : Handle}

/-- The first mismatch of the traversal is the one that is found by the search. -/
theorem mismatch?_eq_search : store.mismatch? strict read write =
    search store strict [] [⟨[], .compare none read write⟩] := by
  have hends : Outcome store strict [] [] [⟨[], .compare none read write⟩]
      ((traverse store strict [] [] read write).run Memory.empty) :=
    outcome_traverse Memory.clean_empty
  rw [mismatch?]
  generalize (traverse store strict [] [] read write).run Memory.empty = ending at hends ⊢
  cases hends with
  | compatible hclean hsearch =>
      rw [← List.append_nil [_], hsearch, search]
      rfl
  | rejected hmismatch hsearch =>
      rw [← List.append_nil [_], hsearch]
      simp [hmismatch]

/-- A reader can read exactly if there is no mismatch. -/
theorem canRead_eq_isNone :
    store.canRead strict read write = (store.mismatch? strict read write).isNone := by
  rw [canRead, mismatch?]
  obtain ⟨result, memory⟩ := (traverse store strict [] [] read write).run Memory.empty
  cases result <;> rfl

end Store

end WireSchema
