/-
# Graphs that come to an end

What is below a point of a layering comes to an end if all of it is known and there is
no endless way down from the point.  Points of the same graph come to an end together,
and a point that is met again below itself never does.
-/

import Mathlib.Logic.Relation
import WireSchema.Proofs.Node.Alike

namespace WireSchema

variable {α β : Type} {f : Layering α} {g g' : Layering β} {a : α} {b : β}

/-- What is below itself has an endless way down. -/
theorem not_acc_of_transGen {r : α → α → Prop} (h : Relation.TransGen r a a) : ¬ Acc r a := by
  intro hacc
  have hdescent := hacc.transGen
  clear hacc
  induction hdescent with
  | intro a _ ih => exact ih a h h

namespace Layering

/-- The child is directly below the parent. -/
def Below (f : Layering α) (child parent : α) : Prop :=
  ∃ x, f parent = some x ∧ child ∈ x.children

/-- The point is met again below itself. -/
def Recurs (f : Layering α) (a : α) : Prop :=
  Relation.TransGen f.Below a a

/-- The graph of the point is known and comes to an end everywhere. -/
inductive Finite (f : Layering α) : α → Prop
  | intro {a : α} {x : Node Name α} (known : f a = some x)
      (below : ∀ child ∈ x.children, Finite f child) : Finite f a

/-- A graph that comes to an end does so in a part that is closed downwards. -/
theorem Finite.restrict {P : β → Prop} (h : g'.Finite b) (hb : P b)
    (hclosed : ∀ b y, P b → g'.Finite b → g' b = some y →
      g b = some y ∧ ∀ child ∈ y.children, P child) : g.Finite b := by
  induction h with
  | intro known below ih =>
      obtain ⟨hknown, hchildren⟩ := hclosed _ _ hb (.intro known below) known
      exact .intro hknown fun child hchild => ih child hchild (hchildren child hchild)

/-- Points of the same graph come to an end together. -/
theorem Finite.of_agree (h : f.Finite a) (hagree : f.Agree g a b) : g.Finite b := by
  induction h generalizing b with
  | intro known _ ih =>
      obtain ⟨y, hy, hsimilar⟩ := hagree.unfold.exists_right known
      refine .intro hy fun child hchild => ?_
      obtain ⟨other, hother, hsame⟩ := hsimilar.exists_left hchild
      exact ih other hother hsame

end Layering

/-- What is alike to the start of a graph that comes to an end comes to an end, along every
relation whose steps lead to what the children are alike to. -/
theorem Alike.acc {promised : α → β → Prop} {r : α → α → Prop} (h : Alike promised f g a b)
    (hfinite : g.Finite b) (hpromised : ∀ a b, promised a b → g b = none)
    (hr : ∀ a a' x, r a' a → f a = some x → ∃ child ∈ x.children,
      ∀ b, Alike promised f g child b → Alike promised f g a' b) : Acc r a := by
  induction hfinite generalizing a with
  | @intro b y known _ ih =>
      refine ⟨_, fun a' hstep => ?_⟩
      rcases h.unfold with h | ⟨x, y', hx, hy, hsimilar⟩
      · rw [hpromised a b h] at known
        cases known
      · cases known.symm.trans hy
        obtain ⟨child, hchild, hsame⟩ := hr a a' x hstep hx
        obtain ⟨other, hother, halike⟩ := hsimilar.exists_right hchild
        exact ih other hother (hsame other halike)

/-- What is alike to a point that is met again below itself goes on for ever. -/
theorem Layering.Recurs.not_finite {promised : α → β → Prop} (hrecurs : f.Recurs a)
    (h : Alike promised f g a b) (hpromised : ∀ a b, promised a b → g b = none) :
    ¬ g.Finite b := by
  refine fun hfinite => not_acc_of_transGen hrecurs (h.acc hfinite hpromised ?_)
  rintro a a' x ⟨x', hx', hchild⟩ hx
  cases hx.symm.trans hx'
  exact ⟨a', hchild, fun _ h => h⟩

end WireSchema
