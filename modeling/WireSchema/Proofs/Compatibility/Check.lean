/-
# The check finds the largest compatible relation

A relation on handles is compatible when every related reader accepts its writer by
related pairs below.  The check takes a pair that it has met before as compatible.
When it ends without a mismatch the pairs that it has met are a compatible relation,
and a pair of any compatible relation leads to no mismatch; so the pairs that pass the
check are the largest compatible relation, on cyclic graphs too.
-/

import Mathlib.Order.Bounds.Defs
import WireSchema.Proofs.Catalog.Reachable
import WireSchema.Proofs.Compatibility.Rule
import WireSchema.Proofs.Compatibility.Search

namespace WireSchema

namespace Store

open Compatibility

variable {store : Store} {strict : Bool} {R S : Handle → Handle → Prop} {read write : Handle}

/-- Every related reader accepts its writer, by related pairs below. -/
def Compatible (store : Store) (strict : Bool) (R : Handle → Handle → Prop) : Prop :=
  ∀ read write, R read write → ∃ reader writer, store.node? read = some reader ∧
    store.node? write = some writer ∧ Accepts strict R write reader writer

/-- The steps for the pair hold when the pairs in `R` are compatible. -/
def Passes (store : Store) (strict : Bool) (R : Handle → Handle → Prop) (read write : Handle) :
    Prop :=
  ∃ reader writer, store.node? read = some reader ∧ store.node? write = some writer ∧
    Hold R (rule strict read write reader writer)

theorem passes_iff (h : store.Regular) : store.Passes strict R read write ↔
    ∃ reader writer, store.node? read = some reader ∧ store.node? write = some writer ∧
      Accepts strict R write reader writer := by
  refine exists_congr fun reader => exists_congr fun writer => ?_
  refine and_congr_right fun hread => and_congr_right fun hwrite => ?_
  exact hold_rule_iff (h.arranged hread) (h.arranged hwrite)

theorem Passes.mono (h : store.Passes strict R read write)
    (himp : ∀ read write, R read write → S read write) : store.Passes strict S read write := by
  obtain ⟨reader, writer, hread, hwrite, hhold⟩ := h
  refine ⟨reader, writer, hread, hwrite, fun step hstep => ?_⟩
  have hstep := hhold step hstep
  cases step with
  | compare segment? read write => exact himp read write hstep
  | reject reason => exact hstep

/-! ## The search -/

theorem forall_tasksAt_iff {path : List Segment} {steps : List Step} :
    (∀ task ∈ tasksAt path steps, task.step.Holds R) ↔ Hold R steps := by
  rw [tasksAt, List.forall_mem_map]
  apply forall₂_congr
  intro step _
  cases step <;> rfl

/-- When no mismatch is found, the tasks ask for pairs of a set of which each passes, but for
the pairs that were met before. -/
theorem exists_of_search {seen : List (Handle × Handle)} {tasks : List Task}
    (h : search store strict seen tasks = none) :
    ∃ found : List (Handle × Handle), (∀ pair ∈ seen, pair ∈ found) ∧
      (∀ task ∈ tasks, task.step.Holds fun read write => (read, write) ∈ found) ∧
        ∀ pair ∈ found, pair ∉ seen →
          store.Passes strict (fun read write => (read, write) ∈ found) pair.1 pair.2 := by
  induction seen, tasks using search.induct store strict with
  | case1 seen => exact ⟨seen, fun _ h => h, nofun, fun _ h hnot => absurd h hnot⟩
  | case2 seen path reason tasks =>
      rw [search] at h
      cases h
  | case3 seen path segment? read write tasks hseen ih =>
      rw [search, dif_pos hseen] at h
      obtain ⟨found, hmet, htasks, hpasses⟩ := ih h
      exact ⟨found, hmet, List.forall_mem_cons.2 ⟨hmet _ hseen, htasks⟩, hpasses⟩
  | case4 seen path segment? read write tasks hseen reader writer hread hwrite ih =>
      rw [search_cons hseen hread hwrite] at h
      obtain ⟨found, hmet, htasks, hpasses⟩ := ih h
      obtain ⟨hsteps, htasks⟩ := List.forall_mem_append.1 htasks
      refine ⟨found, fun pair hpair => hmet pair (List.mem_cons_of_mem _ hpair),
        List.forall_mem_cons.2 ⟨hmet _ List.mem_cons_self, htasks⟩, fun pair hpair hnot => ?_⟩
      by_cases heq : pair = (read, write)
      · subst heq
        exact ⟨reader, writer, hread, hwrite, forall_tasksAt_iff.1 hsteps⟩
      · exact hpasses pair hpair fun hmem => (List.mem_cons.1 hmem).elim heq hnot
  | case5 seen path segment? read write tasks hseen hnone =>
      rw [search, dif_neg hseen] at h
      split at h
      next reader writer hread hwrite => exact (hnone reader writer hread hwrite).elim
      next => cases h

/-- Pairs that pass together lead to no mismatch. -/
theorem search_of_passes {seen : List (Handle × Handle)} {tasks : List Task}
    (hR : ∀ read write, R read write → store.Passes strict R read write)
    (h : ∀ task ∈ tasks, task.step.Holds R) : search store strict seen tasks = none := by
  induction seen, tasks using search.induct store strict with
  | case1 seen => rw [search]
  | case2 seen path reason tasks => exact (h _ List.mem_cons_self).elim
  | case3 seen path segment? read write tasks hseen ih =>
      rw [search, dif_pos hseen]
      exact ih (List.forall_mem_cons.1 h).2
  | case4 seen path segment? read write tasks hseen reader writer hread hwrite ih =>
      rw [search_cons hseen hread hwrite]
      obtain ⟨hpair, htasks⟩ := List.forall_mem_cons.1 h
      obtain ⟨reader', writer', hread', hwrite', hhold⟩ := hR read write hpair
      cases hread.symm.trans hread'
      cases hwrite.symm.trans hwrite'
      exact ih (List.forall_mem_append.2 ⟨forall_tasksAt_iff.2 hhold, htasks⟩)
  | case5 seen path segment? read write tasks hseen hnone =>
      obtain ⟨reader, writer, hread, hwrite, -⟩ := hR read write (h _ List.mem_cons_self)
      exact (hnone reader writer hread hwrite).elim

/-- A pair passes the check exactly if it belongs to a relation whose pairs pass together. -/
theorem canRead_eq_true_iff : store.canRead strict read write = true ↔
    ∃ R : Handle → Handle → Prop,
      (∀ read write, R read write → store.Passes strict R read write) ∧ R read write := by
  rw [canRead_eq_isNone, mismatch?_eq_search, Option.isNone_iff_eq_none]
  constructor
  · intro h
    obtain ⟨found, -, htasks, hpasses⟩ := exists_of_search h
    refine ⟨fun read write => (read, write) ∈ found, fun read write hmem => ?_,
      htasks _ List.mem_cons_self⟩
    exact hpasses (read, write) hmem List.not_mem_nil
  · rintro ⟨R, hR, hpair⟩
    apply search_of_passes hR
    intro task htask
    cases List.mem_singleton.1 htask
    exact hpair

/-- Every reader that can read accepts its writer, by pairs below of which the same is true. -/
theorem compatible_canRead (h : store.Regular) :
    store.Compatible strict fun read write => store.canRead strict read write = true := by
  intro read write hread
  obtain ⟨R, hR, hpair⟩ := canRead_eq_true_iff.1 hread
  refine (passes_iff h).1 ((hR read write hpair).mono fun read write hpair => ?_)
  exact canRead_eq_true_iff.2 ⟨R, hR, hpair⟩

end Store

/-- What can be read, by the check, is the largest compatible relation. -/
theorem Catalog.isGreatest_canRead {catalog : Catalog} (h : Reachable catalog) (strict : Bool) :
    IsGreatest {R : Handle → Handle → Prop | catalog.store.Compatible strict R}
      fun read write => catalog.store.canRead strict read write = true := by
  have hregular := h.sound.store.toRegular
  constructor
  · exact Store.compatible_canRead hregular
  · intro R hR read write hpair
    refine Store.canRead_eq_true_iff.2 ⟨R, fun read write hpair => ?_, hpair⟩
    exact (Store.passes_iff hregular).2 (hR read write hpair)

/-- A catalog with a recursive record on both sides. -/
theorem Catalog.isGreatest_canRead_chain :
    IsGreatest
      {R : Handle → Handle → Prop |
        (Operation.apply (Operation.apply chainCatalog (.getOrAdd .write (.named "Node")))
          (.getOrAdd .read (.named "Node"))).store.Compatible false R}
      fun read write =>
        (Operation.apply (Operation.apply chainCatalog (.getOrAdd .write (.named "Node")))
          (.getOrAdd .read (.named "Node"))).store.canRead false read write = true :=
  isGreatest_canRead (.step _ (.step _ reachable_chainCatalog)) false

end WireSchema
