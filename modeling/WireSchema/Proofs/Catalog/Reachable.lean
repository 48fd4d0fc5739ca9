/-
# Reachable catalogs

A catalog is reachable when it comes from a new catalog by operations in any order,
of which some may have failed on the way.  Copying takes its graph from another
reachable catalog.  Every reachable catalog is sound.

What follows from reachability is tried out on small catalogs, which `cbv` runs.  It goes by
equations of library functions that are found all over Mathlib, so the library is imported as
a whole here, once for all modules that run a catalog.
-/

import Mathlib
import WireSchema.Proofs.Catalog.Sound

namespace WireSchema.Catalog

/-- The catalog that an operation leaves, whether it succeeds or fails. -/
def after {α : Type} (operation : EStateM Error Catalog α) (catalog : Catalog) : Catalog :=
  match operation catalog with
  | .ok _ catalog => catalog
  | .error _ catalog => catalog

/-- What an operation answers, if it succeeds. -/
def answer {α : Type} (operation : EStateM Error Catalog α) (catalog : Catalog) : Option α :=
  match operation catalog with
  | .ok result _ => some result
  | .error _ _ => none

/-- What can be done with one catalog. -/
inductive Operation where
  | register (type : TypeDef)
  | getOrAdd (direction : Direction) (type : TypeDef)
  /-- Make the node of a kind for a type, without storing it. -/
  | nodeOfKind (kind : Kind) (type : TypeDef)
  /-- Store a node made by hand, with its names in order. -/
  | intern (node : Node Name Handle)
  | assignId (handle : Handle)
  | exportGraph (root : Handle) (includeRoot : Bool)
  | importDocument (direction : Direction) (document : Element)

/-- The catalog after an operation. -/
def Operation.apply (catalog : Catalog) : Operation → Catalog
  | register type => after (Catalog.register type) catalog
  | getOrAdd direction type => after (Catalog.getOrAdd direction type) catalog
  | nodeOfKind kind type => after (Catalog.nodeOfKind kind type) catalog
  | intern node =>
    match node.arrange with
    | .ok node => after (onStore (Store.internChecked node)) catalog
    | .error _ => catalog
  | assignId handle => after (onStore (Store.assignId handle)) catalog
  | exportGraph root includeRoot =>
    after (onStore (Store.exportGraph root includeRoot)) catalog
  | importDocument direction document =>
    after (onStore (Store.importDocument direction document)) catalog

/-- The catalog comes from a new one by a sequence of operations. -/
inductive Reachable : Catalog → Prop
  | start (providers : List Provider) : Reachable (withProviders providers)
  | step {catalog : Catalog} (operation : Operation) :
      Reachable catalog → Reachable (operation.apply catalog)
  | copy {source target : Catalog} (handle : Handle) : Reachable source → Reachable target →
      Reachable (after (onStore (source.store.copyFrom handle)) target)

variable {catalog : Catalog}

/-- What holds however an operation ends holds of the catalog that it leaves. -/
theorem after_of_ends {α : Type} {operation : EStateM Error Catalog α} {P : Catalog → Prop}
    (h : Ends (operation catalog) (fun _ t => P t) fun _ t => P t) :
    P (after operation catalog) := by
  unfold after
  cases hrun : operation catalog with
  | ok a t =>
      rw [hrun] at h
      exact h
  | error e t =>
      rw [hrun] at h
      exact h

theorem eq_ok_of_answer {α : Type} {operation : EStateM Error Catalog α} {result : α}
    (h : answer operation catalog = some result) :
    operation catalog = .ok result (after operation catalog) := by
  unfold answer at h
  unfold after
  split at h
  next heq =>
    cases h
    rw [heq]
  · cases h

/-- Two operations in a row have an answer only if both have. -/
theorem exists_ok_of_answer_bind {α β : Type} {first : EStateM Error Catalog α}
    {next : α → EStateM Error Catalog β} {result : β}
    (h : answer (first >>= next) catalog = some result) : ∃ a between,
      first catalog = .ok a between ∧ answer (next a) between = some result := by
  cases hfirst : first catalog with
  | ok a between =>
      rw [answer, run_bind_of_ok hfirst] at h
      exact ⟨a, between, rfl, h⟩
  | error error failed =>
      rw [answer, run_bind_of_error hfirst] at h
      cases h

theorem exists_error_of_answer_eq_none {α : Type} {operation : EStateM Error Catalog α}
    (h : answer operation catalog = none) :
    ∃ error, operation catalog = .error error (after operation catalog) := by
  unfold answer at h
  unfold after
  split at h
  · cases h
  next error failed heq => exact ⟨error, by rw [heq]⟩

/-- What holds of a catalog with any store that has come forward from its own holds after an
operation of the store. -/
theorem after_onStore_of_progress {P : Catalog → Prop}
    (hstore : ∀ store, catalog.store.Progress store → P { catalog with store }) {α : Type}
    {operation : EStateM Error Store α}
    (hprogress : Ends (operation catalog.store) (fun _ t => catalog.store.Progress t)
      fun _ t => catalog.store.Progress t) : P (after (onStore operation) catalog) := by
  refine after_of_ends (Ends.imp (onStore_ends hprogress) ?_ ?_)
  · rintro _ _ ⟨store, rfl, hprogress⟩
    exact hstore store hprogress
  · rintro _ _ ⟨store, rfl, hprogress⟩
    exact hstore store hprogress

section Keeping

variable {P : Catalog → Prop} (h : catalog.Sound)
variable (hstore : ∀ store, catalog.store.Progress store → P { catalog with store })

include h hstore

/-- What building and registering keep, and what holds with any store that has come forward, holds
after every operation. -/
theorem apply_keeps (hbuild : ∀ direction type s, P s →
      Ends (getOrAdd direction type s) (fun _ t => P t) fun _ t => P t)
    (hregister : ∀ type, Ends (register type catalog) (fun _ t => P t) fun _ t => P t)
    (operation : Operation) : P (operation.apply catalog) := by
  have hkept : P catalog := hstore catalog.store (.refl h.store)
  cases operation with
  | register type => exact after_of_ends (hregister type)
  | getOrAdd direction type => exact after_of_ends (hbuild direction type catalog hkept)
  | nodeOfKind kind type => exact after_of_ends (nodeOfKind_keeps hbuild hkept kind type)
  | intern node =>
      rw [Operation.apply]
      split
      next arranged harrange =>
        have hintern := Store.internChecked_ends h.store (Node.arranged_of_arrange harrange)
        refine after_onStore_of_progress hstore (Ends.imp hintern (fun _ _ h => h) ?_)
        rintro _ t rfl
        exact .refl h.store
      next => exact hkept
  | assignId handle =>
      refine after_onStore_of_progress hstore (Ends.imp (Store.assignId_ends h.store handle)
        (fun _ _ h => h.1.progress) ?_)
      rintro _ t ⟨rfl, -⟩
      exact .refl h.store
  | exportGraph root includeRoot =>
      exact after_onStore_of_progress hstore (Ends.imp
        (Store.exportGraph_ends h.store root includeRoot) (fun _ _ h => h.progress)
        fun _ _ h => h.progress)
  | importDocument direction document =>
      have himport :=
        Store.importDocument_ends h.store Store.maintains_true trivial direction document
      refine after_onStore_of_progress hstore (Ends.imp himport (fun _ _ h => h.1.1) ?_)
      rintro _ t ⟨rfl, -⟩
      exact .refl h.store

theorem copy_keeps {source : Catalog} (hsource : source.Sound) (handle : Handle) :
    P (after (onStore (source.store.copyFrom handle)) catalog) := by
  refine after_onStore_of_progress hstore (Ends.imp
    (Store.copyFrom_ends hsource.store h.store handle) (fun _ _ h => h.1) ?_)
  rintro _ t ⟨rfl, -⟩
  exact .refl h.store

end Keeping

/-- Every operation leaves a sound catalog that has all of the one before. -/
theorem follows_apply (h : catalog.Sound) (operation : Operation) :
    Follows catalog (operation.apply catalog) := by
  refine apply_keeps h (fun _ => follows_of_progress h) (fun direction type s hs => ?_)
    (register_ends h) operation
  exact Ends.imp (getOrAdd_ends hs.sound direction type) (fun _ _ ht => hs.trans ht.1)
    fun _ _ ht => hs.trans ht

/-- Copying from a sound catalog leaves a sound catalog. -/
theorem follows_copy {source : Catalog} (hsource : source.Sound) (h : catalog.Sound)
    (handle : Handle) :
    Follows catalog (after (onStore (source.store.copyFrom handle)) catalog) :=
  copy_keeps h (fun _ => follows_of_progress h) hsource handle

theorem Reachable.sound (h : Reachable catalog) : catalog.Sound := by
  induction h with
  | start providers => exact sound_withProviders providers
  | step operation _ ih => exact (follows_apply ih operation).sound
  | copy handle _ _ ihsource ihtarget => exact (follows_copy ihsource ihtarget handle).sound

/-! ## Later catalogs -/

/-- The second catalog comes from the first by operations. -/
inductive Later (earlier : Catalog) : Catalog → Prop
  | refl : Later earlier earlier
  | step {later : Catalog} (operation : Operation) :
      Later earlier later → Later earlier (operation.apply later)
  | copy {source later : Catalog} (handle : Handle) : Reachable source → Later earlier later →
      Later earlier (after (onStore (source.store.copyFrom handle)) later)

theorem Later.follows {earlier later : Catalog} (h : Later earlier later)
    (hearlier : earlier.Sound) : Follows earlier later := by
  induction h with
  | refl => exact .refl hearlier
  | step operation _ ih => exact ih.trans (follows_apply ih.sound operation)
  | copy handle hsource _ ih => exact ih.trans (follows_copy hsource.sound ih.sound handle)

/-! ## A record that refers to itself -/

/-- A record with an optional field of its own type. -/
def chainType : TypeDef :=
  .record "Node" [⟨"next", .nullable (.named "Node"), true⟩]

/-- A new catalog in which that record is registered. -/
def chainCatalog : Catalog :=
  after (register chainType) (withProviders Provider.standard)

theorem reachable_chainCatalog : Reachable chainCatalog :=
  .step (.register chainType) (.start Provider.standard)

end WireSchema.Catalog
