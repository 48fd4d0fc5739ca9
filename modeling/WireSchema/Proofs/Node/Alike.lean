/-
# Points that describe the same graph

A layering says which node a point stands for, with points below it: the handles
of a store are layered by its nodes, and type definitions, markup and document
elements are layered too.  Two points of two layerings are alike when they can be
unfolded side by side without a difference, for ever if they lie on cycles.

While a graph is being built some points have no node yet.  A set of promised
pairs stands for what is to be filled in later; comparison stops at them.  Keeping
a promise leaves everything alike that was alike under it (`Alike.keep`).
-/

import WireSchema.Proofs.Node.Lifting

namespace WireSchema

/-- The node that each point stands for, if it stands for one. -/
abbrev Layering (α : Type) :=
  α → Option (Node Name α)

variable {α β γ : Type} {promised promised' : α → β → Prop} {f : Layering α} {g g' : Layering β}
variable {a : α} {b : β}

/-- The points have similar layers, whose children are related. -/
def Layering.Match (f : Layering α) (g : Layering β) (R : α → β → Prop) (a : α) (b : β) : Prop :=
  ∃ x y, f a = some x ∧ g b = some y ∧ x.Similar R y

/-- The points can be unfolded side by side down to promised pairs. -/
def Alike (promised : α → β → Prop) (f : Layering α) (g : Layering β) (a : α) (b : β) : Prop :=
  ∃ R : α → β → Prop, R a b ∧ ∀ a b, R a b → promised a b ∨ f.Match g R a b

theorem Layering.Match.imp {R S : α → β → Prop} (h : f.Match g R a b)
    (himp : ∀ a b, R a b → S a b) : f.Match g S a b := by
  obtain ⟨x, y, hx, hy, hsimilar⟩ := h
  exact ⟨x, y, hx, hy, hsimilar.imp himp⟩

theorem Layering.Match.right (h : f.Match g R a b) (hg : ∀ y, g b = some y → g' b = some y) :
    f.Match g' R a b := by
  obtain ⟨x, y, hx, hy, hsimilar⟩ := h
  exact ⟨x, y, hx, hg y hy, hsimilar⟩

/-- A layer on the left is matched by one on the right. -/
theorem Layering.Match.exists_right {x : Node Name α} (h : f.Match g R a b) (hx : f a = some x) :
    ∃ y, g b = some y ∧ x.Similar R y := by
  obtain ⟨x', y, hx', hy, hsimilar⟩ := h
  cases hx.symm.trans hx'
  exact ⟨y, hy, hsimilar⟩

/-- A layer on the right matches one on the left. -/
theorem Layering.Match.exists_left {y : Node Name β} (h : f.Match g R a b) (hy : g b = some y) :
    ∃ x, f a = some x ∧ x.Similar R y := by
  obtain ⟨x, y', hx, hy', hsimilar⟩ := h
  cases hy.symm.trans hy'
  exact ⟨x, hx, hsimilar⟩

namespace Alike

/-- What can be shown alike with the help of what is alike already is alike. -/
theorem coinduct {R : α → β → Prop}
    (hR : ∀ a b, R a b →
      promised a b ∨ f.Match g (fun a b => R a b ∨ Alike promised f g a b) a b)
    (h : R a b) : Alike promised f g a b := by
  refine ⟨fun a b => R a b ∨ Alike promised f g a b, .inl h, ?_⟩
  rintro a b (h | ⟨S, hS, hclosed⟩)
  · exact hR a b h
  · refine (hclosed a b hS).imp_right fun hmatch => hmatch.imp fun a b h => ?_
    exact .inr ⟨S, h, hclosed⟩

theorem unfold (h : Alike promised f g a b) :
    promised a b ∨ f.Match g (Alike promised f g) a b := by
  obtain ⟨R, hR, hclosed⟩ := h
  refine (hclosed a b hR).imp_right fun hmatch => hmatch.imp fun a b h => ?_
  exact ⟨R, h, hclosed⟩

theorem of_promised (h : promised a b) : Alike promised f g a b :=
  ⟨promised, h, fun _ _ h => .inl h⟩

theorem of_match (h : f.Match g (Alike promised f g) a b) : Alike promised f g a b := by
  refine coinduct (R := f.Match g (Alike promised f g)) ?_ h
  intro a b h
  exact .inr (h.imp fun _ _ h => .inr h)

/-- Promises that have been kept, or have become others, can be replaced. -/
theorem keep (h : Alike promised f g a b)
    (hpromised : ∀ a b, promised a b →
      promised' a b ∨ f.Match g' (Alike promised f g) a b)
    (hg : ∀ b y, g b = some y → g' b = some y) : Alike promised' f g' a b := by
  refine ⟨Alike promised f g, h, fun a b h => ?_⟩
  rcases h.unfold with h | h
  · exact hpromised a b h
  · exact .inr (h.right (hg b))

/-- What is alike stays alike when more nodes are known. -/
theorem mono (h : Alike promised f g a b)
    (hpromised : ∀ a b, promised a b → promised' a b)
    (hg : ∀ b y, g b = some y → g' b = some y) : Alike promised' f g' a b :=
  h.keep (fun a b h => .inl (hpromised a b h)) hg

/-- What is alike stays alike in a part that is closed downwards. -/
theorem restrict {P : β → Prop} (h : Alike promised f g a b) (hb : P b)
    (hpromised : ∀ a b, P b → promised a b → promised' a b)
    (hclosed : ∀ b y, P b → g b = some y → g' b = some y ∧ ∀ child ∈ y.children, P child) :
    Alike promised' f g' a b := by
  refine ⟨fun a b => Alike promised f g a b ∧ P b, ⟨h, hb⟩, ?_⟩
  rintro a b ⟨h, hb⟩
  rcases h.unfold with h | ⟨x, y, hx, hy, hsimilar⟩
  · exact .inl (hpromised a b hb h)
  · obtain ⟨hy', hchildren⟩ := hclosed b y hb hy
    refine .inr ⟨x, y, hx, hy', Node.Similar.and_right hsimilar hchildren⟩

/-- Points with the same layer are alike to the same points. -/
theorem congr_left {a' : α} (h : Alike promised f g a b) (hlayer : f a' = f a)
    (hpromised : promised a b → promised a' b) : Alike promised f g a' b := by
  rcases h.unfold with h | ⟨x, y, hx, hy, hsimilar⟩
  · exact of_promised (hpromised h)
  · exact of_match ⟨x, y, hlayer.trans hx, hy, hsimilar⟩

end Alike

/-- The points describe the same graph. -/
def Layering.Agree (f : Layering α) (g : Layering β) (a : α) (b : β) : Prop :=
  Alike (fun _ _ => False) f g a b

namespace Layering.Agree

theorem unfold (h : f.Agree g a b) : f.Match g (f.Agree g) a b :=
  (Alike.unfold h).resolve_left id

/-- Points that are related by a relation that unfolds into itself agree. -/
theorem of_closed {R : α → β → Prop} (hR : ∀ a b, R a b → f.Match g R a b) (h : R a b) :
    f.Agree g a b :=
  ⟨R, h, fun a b h => .inr (hR a b h)⟩

theorem alike (h : f.Agree g a b) : Alike promised f g a b :=
  h.mono (fun _ _ h => h.elim) fun _ _ h => h

theorem symm (h : f.Agree g a b) : g.Agree f b a := by
  refine of_closed (R := fun b a => f.Agree g a b) ?_ h
  intro b a h
  obtain ⟨x, y, hx, hy, hsimilar⟩ := h.unfold
  exact ⟨y, x, hy, hx, hsimilar.symm⟩

theorem trans {k : Layering γ} {c : γ} (h : f.Agree g a b) (h' : g.Agree k b c) :
    f.Agree k a c := by
  refine of_closed (R := fun a c => ∃ b, f.Agree g a b ∧ g.Agree k b c) ?_ ⟨b, h, h'⟩
  rintro a c ⟨b, h, h'⟩
  obtain ⟨x, y, hx, hy, hsimilar⟩ := h.unfold
  obtain ⟨z, hz, hsimilar'⟩ := h'.unfold.exists_right hy
  exact ⟨x, z, hx, hz, hsimilar.trans hsimilar'⟩

end Layering.Agree

/-- A point that agrees with one that unfolds needs no promise. -/
theorem Alike.trans_agree {k : Layering γ} {c : γ} (h : Alike promised f g a b)
    (hagree : g.Agree k b c) (hpromised : ∀ a b, promised a b → g b = none) :
    f.Agree k a c := by
  refine Layering.Agree.of_closed
    (R := fun a c => ∃ b, Alike promised f g a b ∧ g.Agree k b c) ?_ ⟨b, h, hagree⟩
  rintro a c ⟨b, h, hagree⟩
  obtain ⟨y, z, hy, hz, hsimilar'⟩ := hagree.unfold
  rcases h.unfold with h | ⟨x, y', hx, hy', hsimilar⟩
  · rw [hpromised a b h] at hy
    cases hy
  · cases hy.symm.trans hy'
    exact ⟨x, z, hx, hz, hsimilar.trans hsimilar'⟩

end WireSchema
