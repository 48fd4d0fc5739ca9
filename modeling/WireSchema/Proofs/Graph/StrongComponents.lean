/-
# Components are strong, and come in order

Two vertices are in one component when each leads to the other, and no component leads to
a later one.  What decides this is the order in which the first pass finishes vertices: all
that is finished between a vertex and one that it leads to is led to by the latter.  The
first pass follows edges the other way round, so the second collects, from the vertex
finished latest, just what leads back to it.
-/

import Mathlib.Data.List.Basic
import Mathlib.Logic.Relation
import WireSchema.Proofs.Graph.Components

namespace WireSchema.Components

variable {α : Type} {next previous : α → List α} {u v w : α}

/-- Edges lead from the first vertex to the second. -/
abbrev Path (next : α → List α) : α → α → Prop :=
  Relation.ReflTransGen fun u v => v ∈ next u

theorem Path.reverse (hflip : ∀ u v, u ∈ previous v ↔ v ∈ next u) (h : Path next u v) :
    Path previous v u := by
  induction h with
  | refl => exact .refl
  | tail _ hedge ih => exact .head ((hflip _ _).2 hedge) ih

/-- What is closed under edges has all that it leads to. -/
theorem Path.closed {inside : α → Prop} (h : Path next u v)
    (hclosed : ∀ a, inside a → ∀ b ∈ next a, inside b) (hu : inside u) : inside v := by
  induction h with
  | refl => exact hu
  | tail _ hedge ih => exact hclosed _ ih _ hedge

variable [DecidableEq α]
variable {vertices unmet stack finished found order rest : List α}

/-- What comes before the first `v` of a list. -/
def front (v : α) (items : List α) : List α :=
  items.takeWhile fun item => item ≠ v

@[simp] theorem front_cons_self (v : α) (items : List α) : front v (v :: items) = [] := by
  simp [front]

theorem front_cons_of_ne (h : u ≠ v) (items : List α) :
    front v (u :: items) = u :: front v items := by
  simp [front, h]

theorem front_append_of_not_mem {items : List α} (h : v ∉ items) (rest : List α) :
    front v (items ++ rest) = items ++ front v rest := by
  induction items with
  | nil => rfl
  | cons u items ih =>
      rw [List.mem_cons, not_or] at h
      rw [List.cons_append, front_cons_of_ne (Ne.symm h.1), ih h.2, List.cons_append]

/-- With the latest first: `u` was finished when `v` was, or after it. -/
def Since (finished : List α) (v u : α) : Prop :=
  u = v ∨ u ∈ front v finished

theorem since_cons_of_mem (hfresh : w ∉ rest) (hv : v ∈ rest) :
    Since (w :: rest) v u ↔ u = w ∨ Since rest v u := by
  have hne : w ≠ v := fun h => hfresh (h ▸ hv)
  rw [Since, front_cons_of_ne hne, List.mem_cons, Since]
  exact or_left_comm

/-- With the latest first: where a vertex has an edge to one that was finished after it,
all that was finished in between is led to by the latter. -/
def Nested (next : α → List α) : List α → Prop
  | [] => True
  | w :: rest =>
    (∀ v ∈ rest, w ∈ next v → ∀ u, Since rest v u → Path next w u) ∧ Nested next rest

/-- Of what was finished since a vertex, all that was not finished since one that it has an
edge to is led to by the latter. -/
theorem Nested.since_or_path {x y : α} (h : Nested next finished) (hnodup : finished.Nodup)
    (hx : x ∈ finished) (hy : y ∈ finished) (hedge : y ∈ next x) (hu : Since finished x u) :
    Since finished y u ∨ Path next y u := by
  induction finished with
  | nil => cases hx
  | cons w rest ih =>
      obtain ⟨hfresh, hnodup⟩ := List.nodup_cons.1 hnodup
      rcases List.mem_cons.1 hx with rfl | hrest
      · have hself : u = x := by simpa [Since] using hu
        subst hself
        rcases List.mem_cons.1 hy with rfl | hy
        · exact .inl (.inl rfl)
        · exact .inl ((since_cons_of_mem hfresh hy).2 (.inl rfl))
      · rw [since_cons_of_mem hfresh hrest] at hu
        rcases List.mem_cons.1 hy with rfl | hy
        · exact hu.imp .inl (h.1 x hrest hedge u)
        · rw [since_cons_of_mem hfresh hy]
          rcases hu with rfl | hu
          · exact .inl (.inl rfl)
          · exact (ih h.2 hnodup hrest hy hu).imp_left .inr

/-- A vertex leads back to one that leads to it, if the way has no vertex that was finished
later. -/
theorem Nested.path {x : α} (h : Nested next (v :: rest)) (hnodup : (v :: rest).Nodup)
    (hpath : Relation.ReflTransGen (fun a b => a ∈ v :: rest ∧ b ∈ next a) x v) :
    Path next v x := by
  suffices hall : x ∈ v :: rest ∧ ∀ u, Since (v :: rest) x u → Path next v u from
    hall.2 x (.inl rfl)
  induction hpath using Relation.ReflTransGen.head_induction_on with
  | refl =>
      refine ⟨List.mem_cons_self, fun u hu => ?_⟩
      obtain rfl : u = v := by simpa [Since] using hu
      exact .refl
  | @head x y hstep hpath ih =>
      refine ⟨hstep.1, fun u hu => ?_⟩
      rcases h.since_or_path hnodup hstep.1 ih.1 hstep.2 hu with hu | hu
      · exact ih.2 u hu
      · exact (ih.2 y (.inl rfl)).trans hu

/-- A vertex has been met and is not finished. -/
structure Open (vertices unmet finished : List α) (v : α) : Prop where
  mem : v ∈ vertices
  met : v ∉ unmet
  unfinished : v ∉ finished

/-- What the first pass keeps.  Above an open vertex the stack has only what that leads to,
and among this all that it has an edge to and that has not been met. -/
structure Searching (next : α → List α) (vertices unmet stack finished : List α) : Prop where
  unmet_nodup : unmet.Nodup
  unmet_subset : ∀ v ∈ unmet, v ∈ vertices
  stack_subset : ∀ v ∈ stack, v ∈ vertices
  met : ∀ v ∈ finished, v ∉ unmet
  nodup : finished.Nodup
  nested : Nested next finished
  stacked : ∀ w, Open vertices unmet finished w → w ∈ stack
  above : ∀ w, Open vertices unmet finished w → ∀ u ∈ front w stack, Path next w u
  pending : ∀ w, Open vertices unmet finished w → ∀ u ∈ next w, u ∈ unmet → u ∈ front w stack
  edges : ∀ v ∈ finished, ∀ w ∈ next v, w ∈ vertices → w ∈ finished ∨
    Open vertices unmet finished w ∧ ∀ u, Since finished v u → Path next w u

theorem Searching.start (next : α → List α) (hnodup : vertices.Nodup) :
    Searching next vertices vertices vertices [] where
  unmet_nodup := hnodup
  unmet_subset _ h := h
  stack_subset _ h := h
  met _ h := absurd h List.not_mem_nil
  nodup := .nil
  nested := trivial
  stacked _ h := absurd h.mem h.met
  above _ h := absurd h.mem h.met
  pending _ h := absurd h.mem h.met
  edges _ h := absurd h List.not_mem_nil

/-- A vertex that is met is opened, with what it leads to above it. -/
theorem Searching.meet (h : Searching next vertices unmet (v :: stack) finished) (hv : v ∈ unmet) :
    Searching next vertices (unmet.erase v)
      (((next v).filter (· ∈ unmet.erase v)).reverse ++ v :: stack) finished := by
  have hunmet : ∀ u, u ∈ unmet.erase v ↔ u ≠ v ∧ u ∈ unmet := fun u => h.unmet_nodup.mem_erase_iff
  have hnew : ∀ u, u ∈ ((next v).filter (· ∈ unmet.erase v)).reverse ↔
      u ∈ next v ∧ u ∈ unmet.erase v := by simp
  generalize ((next v).filter (· ∈ unmet.erase v)).reverse = new at hnew
  have hself : front v (new ++ v :: stack) = new := by
    rw [front_append_of_not_mem, front_cons_self, List.append_nil]
    exact fun hmem => ((hunmet v).1 ((hnew v).1 hmem).2).1 rfl
  -- an open vertex is the one just met, or it was open and nothing new hides it
  have hopen : ∀ w, Open vertices (unmet.erase v) finished w → w = v ∨
      Open vertices unmet finished w ∧
        front w (new ++ v :: stack) = new ++ v :: front w stack ∧
        front w (v :: stack) = v :: front w stack := by
    intro w hw
    by_cases hne : w = v
    · exact .inl hne
    have hmet : w ∉ unmet := fun hmem => hw.met ((hunmet w).2 ⟨hne, hmem⟩)
    have hfront := front_cons_of_ne (Ne.symm hne) stack
    refine .inr ⟨⟨hw.mem, hmet, hw.unfinished⟩, ?_, hfront⟩
    rw [front_append_of_not_mem, hfront]
    exact fun hmem => hmet ((hunmet w).1 ((hnew w).1 hmem).2).2
  refine
    { unmet_nodup := h.unmet_nodup.erase v
      unmet_subset := fun u hu => h.unmet_subset u ((hunmet u).1 hu).2
      stack_subset := ?_
      met := fun u hu hmem => h.met u hu ((hunmet u).1 hmem).2
      nodup := h.nodup
      nested := h.nested
      stacked := ?_
      above := ?_
      pending := ?_
      edges := ?_ }
  · intro u hu
    rcases List.mem_append.1 hu with hu | hu
    · exact h.unmet_subset u ((hunmet u).1 ((hnew u).1 hu).2).2
    · exact h.stack_subset u hu
  · intro w hw
    rcases hopen w hw with rfl | ⟨hw, -⟩
    · exact List.mem_append_right _ List.mem_cons_self
    · exact List.mem_append_right _ (h.stacked w hw)
  · intro w hw u hu
    rcases hopen w hw with rfl | ⟨hw, hfront, hold⟩
    · rw [hself] at hu
      exact .single ((hnew u).1 hu).1
    · have habove := h.above w hw
      rw [hold] at habove
      rw [hfront] at hu
      rcases List.mem_append.1 hu with hu | hu
      · exact (habove v List.mem_cons_self).tail ((hnew u).1 hu).1
      · exact habove u hu
  · intro w hw u hedge hu
    rcases hopen w hw with rfl | ⟨hw, hfront, hold⟩
    · rw [hself]
      exact (hnew u).2 ⟨hedge, hu⟩
    · have hpending := h.pending w hw u hedge ((hunmet u).1 hu).2
      rw [hold] at hpending
      rw [hfront]
      exact List.mem_append_right _ hpending
  · intro u hu w hedge hw
    refine (h.edges u hu w hedge hw).imp_right (And.imp_left fun hopen => ?_)
    exact ⟨hopen.mem, fun hmem => hopen.met ((hunmet w).1 hmem).2, hopen.unfinished⟩

/-- What is above an open vertex when the top of the stack is taken. -/
theorem Searching.front_eq (h : Searching next vertices unmet (v :: stack) finished)
    (hw : Open vertices unmet finished w) (hne : w ≠ v) :
    front w (v :: stack) = v :: front w stack ∧ w ∈ stack :=
  ⟨front_cons_of_ne (Ne.symm hne) stack, (List.mem_cons.1 (h.stacked w hw)).resolve_left hne⟩

theorem Searching.drop (h : Searching next vertices unmet (v :: stack) finished)
    (hmet : v ∉ unmet) (hv : v ∈ finished) : Searching next vertices unmet stack finished := by
  have hfront : ∀ w, Open vertices unmet finished w → front w (v :: stack) = v :: front w stack ∧
      w ∈ stack := fun w hw => h.front_eq hw fun heq => hw.unfinished (heq ▸ hv)
  exact
    { h with
      stack_subset := fun u hu => h.stack_subset u (List.mem_cons_of_mem _ hu)
      stacked := fun w hw => (hfront w hw).2
      above := fun w hw u hu =>
        h.above w hw u ((hfront w hw).1 ▸ List.mem_cons_of_mem _ hu)
      pending := fun w hw u hedge hu => by
        have hpending := h.pending w hw u hedge hu
        rw [(hfront w hw).1] at hpending
        exact (List.mem_cons.1 hpending).resolve_left fun heq => hmet (heq ▸ hu) }

/-- The vertex on top of the stack is finished: all that it leads to has been met. -/
theorem Searching.close (h : Searching next vertices unmet (v :: stack) finished)
    (hmet : v ∉ unmet) (hv : v ∉ finished) :
    Searching next vertices unmet stack (v :: finished) := by
  have hself : Open vertices unmet finished v := ⟨h.stack_subset v List.mem_cons_self, hmet, hv⟩
  have hopen : ∀ w, Open vertices unmet (v :: finished) w →
      Open vertices unmet finished w ∧ front w (v :: stack) = v :: front w stack ∧ w ∈ stack := by
    intro w hw
    have hunfinished := List.mem_cons.not.1 hw.unfinished
    rw [not_or] at hunfinished
    have hold : Open vertices unmet finished w := ⟨hw.mem, hw.met, hunfinished.2⟩
    exact ⟨hold, h.front_eq hold hunfinished.1⟩
  have hbelow : ∀ w, Open vertices unmet finished w → Path next w v := by
    intro w hw
    by_cases heq : w = v
    · exact heq ▸ .refl
    · exact h.above w hw v ((h.front_eq hw heq).1 ▸ List.mem_cons_self)
  refine
    { unmet_nodup := h.unmet_nodup
      unmet_subset := h.unmet_subset
      stack_subset := fun u hu => h.stack_subset u (List.mem_cons_of_mem _ hu)
      met := ?_
      nodup := List.nodup_cons.2 ⟨hv, h.nodup⟩
      nested := ⟨fun u hu hedge => ?_, h.nested⟩
      stacked := fun w hw => (hopen w hw).2.2
      above := fun w hw u hu => ?_
      pending := fun w hw u hedge hu => ?_
      edges := ?_ }
  · rintro u hu
    rcases List.mem_cons.1 hu with rfl | hu
    · exact hmet
    · exact h.met u hu
  · exact ((h.edges u hu v hedge hself.mem).resolve_left hv).2
  · obtain ⟨hold, hfront, -⟩ := hopen w hw
    exact h.above w hold u (hfront ▸ List.mem_cons_of_mem _ hu)
  · obtain ⟨hold, hfront, -⟩ := hopen w hw
    have hpending := h.pending w hold u hedge hu
    rw [hfront] at hpending
    exact (List.mem_cons.1 hpending).resolve_left fun heq => hmet (heq ▸ hu)
  · intro u hu w hedge hw
    by_cases heq : w = v
    · exact .inl (heq ▸ List.mem_cons_self)
    rcases List.mem_cons.1 hu with rfl | hu
    · by_cases hfinished : w ∈ finished
      · exact .inl (List.mem_cons_of_mem _ hfinished)
      have hnone : w ∉ unmet := fun hunmet => by
        have hpending := h.pending u hself w hedge hunmet
        rw [front_cons_self] at hpending
        cases hpending
      have hold : Open vertices unmet finished w := ⟨hw, hnone, hfinished⟩
      refine .inr ⟨⟨hw, hnone, ?_⟩, fun x hx => ?_⟩
      · exact List.mem_cons.not.2 (not_or.2 ⟨heq, hfinished⟩)
      · obtain rfl : x = u := by simpa [Since] using hx
        exact hbelow w hold
    · rcases h.edges u hu w hedge hw with hfinished | ⟨hold, hpath⟩
      · exact .inl (List.mem_cons_of_mem _ hfinished)
      refine .inr ⟨⟨hw, hold.met, ?_⟩, fun x hx => ?_⟩
      · exact List.mem_cons.not.2 (not_or.2 ⟨heq, hold.unfinished⟩)
      · rcases (since_cons_of_mem hv hu).1 hx with rfl | hx
        · exact hbelow w hold
        · exact hpath x hx

/-- The first pass finishes vertices in nested order. -/
theorem Searching.finish (h : Searching next vertices unmet stack finished) :
    Nested next (finish next unmet stack finished) ∧
      (Components.finish next unmet stack finished).Nodup := by
  fun_induction Components.finish next unmet stack finished with
  | case1 => exact ⟨h.nested, h.nodup⟩
  | case2 unmet finished v stack hv unmet' ih => exact ih (h.meet hv)
  | case3 unmet finished v stack hv ih =>
      apply ih
      split
      next hmem => exact h.drop hv hmem
      next hmem => exact h.close hv hmem

/-- What is reached is led to by what the stack holds. -/
theorem path_of_mem_reach (h : u ∈ (reach next unmet stack found).1) :
    u ∈ found ∨ ∃ v ∈ stack, Path next v u := by
  fun_induction reach next unmet stack found with
  | case1 => exact .inl h
  | case2 unmet found v stack hv ih =>
      rcases ih h with hfound | ⟨w, hw, hpath⟩
      · rcases List.mem_cons.1 hfound with rfl | hfound
        · exact .inr ⟨u, List.mem_cons_self, .refl⟩
        · exact .inl hfound
      · rcases List.mem_append.1 hw with hw | hw
        · exact .inr ⟨v, List.mem_cons_self, .head hw hpath⟩
        · exact .inr ⟨w, List.mem_cons_of_mem _ hw, hpath⟩
  | case3 unmet found v stack hv ih =>
      exact (ih h).imp_right (Exists.imp fun w hw => ⟨List.mem_cons_of_mem _ hw.1, hw.2⟩)

/-- Nothing that is left has an edge from what is reached. -/
theorem not_mem_of_mem_reach (hunmet : unmet.Nodup)
    (hpending : ∀ v ∈ found, ∀ w ∈ next v, w ∈ unmet → w ∈ stack)
    (hu : u ∈ (reach next unmet stack found).1) :
    ∀ w ∈ next u, w ∉ (reach next unmet stack found).2 := by
  fun_induction reach next unmet stack found with
  | case1 => exact fun w hw hleft => List.not_mem_nil (hpending u hu w hw hleft)
  | case2 unmet found v stack hv ih =>
      refine ih (hunmet.erase v) (fun x hx w hw hleft => ?_) hu
      obtain ⟨hne, hleft⟩ := hunmet.mem_erase_iff.1 hleft
      rcases List.mem_cons.1 hx with rfl | hx
      · exact List.mem_append_left _ hw
      · have hstack := hpending x hx w hw hleft
        exact List.mem_append_right _ ((List.mem_cons.1 hstack).resolve_left hne)
  | case3 unmet found v stack hv ih =>
      refine ih hunmet (fun x hx w hw hleft => ?_) hu
      have hstack := hpending x hx w hw hleft
      exact (List.mem_cons.1 hstack).resolve_left fun heq => hv (heq ▸ hleft)

/-- Each vertex of a list of components leads to, and back from, exactly those of its own
component, and to no later one. -/
structure Ordered (next : α → List α) (components : List (List α)) : Prop where
  nonempty : [] ∉ components
  strong : ∀ component ∈ components, ∀ u ∈ component, ∀ v,
    v ∈ component ↔ Path next u v ∧ Path next v u
  later : components.Pairwise fun earlier later =>
    ∀ u ∈ earlier, ∀ v ∈ later, ¬Path next u v

/-- Where what has been met is closed under edges, what `v` leads to and has not been met
leads back to `v`, if `v` was finished latest. -/
theorem path_of_nested (hflip : ∀ u v, u ∈ previous v ↔ v ∈ next u)
    (hnested : Nested previous (v :: order)) (horder : (v :: order).Nodup)
    (hsubset : ∀ u ∈ unmet, u ∈ v :: order) (hclosed : ∀ u, u ∉ unmet → ∀ w ∈ next u, w ∉ unmet)
    (hpath : Path next v u) (hu : u ∈ unmet) : Path next u v := by
  refine Path.reverse (fun a b => (hflip b a).symm) (hnested.path horder ?_)
  induction hpath with
  | refl => exact .refl
  | @tail x y _ hedge ih =>
      have hx : x ∈ unmet := by_contra fun hmet => hclosed x hmet y hedge hu
      exact .head ⟨hsubset y hu, (hflip x y).2 hedge⟩ (ih hx)

/-- The second pass has met a set that is closed under edges; what it takes next leads back
from all that it newly leads to. -/
theorem ordered_collect (hflip : ∀ u v, u ∈ previous v ↔ v ∈ next u)
    (hnested : Nested previous order) (horder : order.Nodup) (hunmet : unmet.Nodup)
    (hsubset : ∀ v ∈ unmet, v ∈ order) (hclosed : ∀ u, u ∉ unmet → ∀ v ∈ next u, v ∉ unmet) :
    Ordered next (collect next unmet order) := by
  induction order generalizing unmet with
  | nil => exact ⟨List.not_mem_nil, fun _ h => absurd h List.not_mem_nil, .nil⟩
  | cons v order ih =>
      rw [collect]
      split
      next hv =>
        have hperm := perm_reach next unmet [v] []
        have hself : v ∈ (reach next unmet [v] []).1 := mem_reach hv
        have hpath : ∀ u ∈ (reach next unmet [v] []).1, Path next v u := fun u hu => by
          simpa using path_of_mem_reach hu
        have hleft : ∀ u ∈ (reach next unmet [v] []).1, ∀ w ∈ next u,
            w ∉ (reach next unmet [v] []).2 := fun u hu =>
          not_mem_of_mem_reach hunmet (fun _ hmem => absurd hmem List.not_mem_nil) hu
        generalize reach next unmet [v] [] = result at hperm hself hpath hleft ⊢
        obtain ⟨component, left⟩ := result
        rw [List.nil_append] at hperm
        have hnodup := hperm.nodup_iff.2 hunmet
        have hdisjoint : ∀ u ∈ component, u ∉ left := fun u hu hw =>
          (List.nodup_append.1 hnodup).2.2 u hu u hw rfl
        have hclosedLeft : ∀ u, u ∉ left → ∀ w ∈ next u, w ∉ left := by
          intro u hu w hedge
          by_cases hmem : u ∈ unmet
          · have hcomponent := (List.mem_append.1 (hperm.mem_iff.2 hmem)).resolve_right hu
            exact hleft u hcomponent w hedge
          · exact fun hw => hclosed u hmem w hedge (hperm.subset (List.mem_append_right _ hw))
        have hmem : ∀ u, u ∈ component ↔ u ∈ unmet ∧ Path next v u := by
          refine fun u => ⟨fun hu => ⟨hperm.subset (List.mem_append_left _ hu), hpath u hu⟩, ?_⟩
          rintro ⟨hu, hpath⟩
          have hnot : u ∉ left := hpath.closed hclosedLeft (hdisjoint v hself)
          exact (List.mem_append.1 (hperm.mem_iff.2 hu)).resolve_right hnot
        have hback : ∀ u ∈ component, Path next u v := fun u hu =>
          path_of_nested hflip hnested horder hsubset hclosed (hpath u hu) ((hmem u).1 hu).1
        have hrest : Ordered next (collect next left order) := by
          refine ih hnested.2 (List.nodup_cons.1 horder).2 (List.nodup_append.1 hnodup).2.1 ?_
            hclosedLeft
          intro u hu
          have horderMem := hsubset u (hperm.subset (List.mem_append_right _ hu))
          exact (List.mem_cons.1 horderMem).resolve_left fun heq => hdisjoint v hself (heq ▸ hu)
        refine ⟨?_, ?_, List.pairwise_cons.2 ⟨?_, hrest.later⟩⟩
        · rw [List.mem_cons, not_or]
          exact ⟨fun heq => List.not_mem_nil (heq ▸ hself), hrest.nonempty⟩
        · intro other hother
          rcases List.mem_cons.1 hother with rfl | hother
          · intro u hu w
            constructor
            · intro hw
              exact ⟨(hback u hu).trans (hpath w hw), (hback w hw).trans (hpath u hu)⟩
            · rintro ⟨hto, hfrom⟩
              refine (hmem w).2 ⟨by_contra fun hmet => ?_, (hpath u hu).trans hto⟩
              exact hfrom.closed hclosed hmet ((hmem u).1 hu).1
          · exact hrest.strong other hother
        · intro other hother u hu w hw hway
          have hwLeft := (subperm_collect next left order).subset
            (List.mem_flatten.2 ⟨other, hother, hw⟩)
          exact hway.closed hclosedLeft (hdisjoint u hu) hwLeft
      next hv =>
        refine ih hnested.2 (List.nodup_cons.1 horder).2 hunmet (fun u hu => ?_) hclosed
        exact (List.mem_cons.1 (hsubset u hu)).resolve_left fun heq => hv (heq ▸ hu)

/-- The components of a graph are its strongly connected components, and none leads to a
later one. -/
theorem ordered_components (hnodup : vertices.Nodup) (hflip : ∀ u v, u ∈ previous v ↔ v ∈ next u)
    (hclosed : ∀ u, ∀ v ∈ next u, u ∈ vertices) :
    Ordered next (components vertices next previous) := by
  obtain ⟨hnested, horder⟩ := (Searching.start previous hnodup).finish
  refine ordered_collect hflip hnested horder hnodup (fun v hv => mem_finish (.inl hv)) ?_
  exact fun u hu v hedge => absurd (hclosed u v hedge) hu

end WireSchema.Components
