/-
# Fingerprints of copies

The canonical text has a line for every node that is referred to by id.  Nodes that
describe the same graph need not be one node: a cycle may go round its graph once or
several times.  Copying takes any older node that describes the same graph for the copy, so
the copy can have another text than the original.  It has the same text if the original
goes round every cycle once and the other catalog has no more than one node for each of
its nodes; graphs without cycles are always of that kind.
-/

import WireSchema.Proofs.Catalog.Copy
import WireSchema.Proofs.Catalog.EqualNodes
import WireSchema.Proofs.Catalog.FailedBuild
import WireSchema.Proofs.Store.Rendering

namespace WireSchema

namespace Store

variable {store source base target : Store} {root a b : Handle}

/-! ## Graphs without repetition -/

/-- Nodes at or below the root that are referred to by id and go on for ever describe
different graphs. -/
def Reduced (store : Store) (root : Handle) : Prop :=
  ∀ a b, store.Below root a → store.Below root b → store.Referred a →
    ¬ Layering.Finite store.node? a → store.Bisimilar a store b → a = b

/-- The target has at most one node for each node at or below the root that is referred to by
id and goes on for ever. -/
def HeldOnce (source : Store) (root : Handle) (target : Store) : Prop :=
  ∀ a b b', source.Below root a → source.Referred a → ¬ Layering.Finite source.node? a →
    source.Bisimilar a target b → source.Bisimilar a target b' → b = b'

theorem Reduced.eq (h : store.Reduced root) (hfrugal : store.Frugal) (ha : store.Below root a)
    (hb : store.Below root b) (hreferred : store.Referred a) (hsame : store.Bisimilar a store b) :
    a = b := by
  by_cases hfinite : Layering.Finite store.node? a
  · exact hfrugal.eq_of_bisimilar hfinite hsame
  · exact h a b ha hb hreferred hfinite hsame

theorem HeldOnce.eq {b' : Handle} (h : source.HeldOnce root target) (hfrugal : target.Frugal)
    (ha : source.Below root a) (hreferred : source.Referred a)
    (hsame : source.Bisimilar a target b) (hsame' : source.Bisimilar a target b') : b = b' := by
  by_cases hfinite : Layering.Finite source.node? a
  · exact hfrugal.eq_of_bisimilar (hfinite.of_agree hsame) (hsame.symm.trans hsame')
  · exact h a b b' ha hreferred hfinite hsame hsame'

theorem reduced_of_finite (h : Layering.Finite store.node? root) : store.Reduced root :=
  fun _ _ ha _ _ hendless => absurd (ha.finite h) hendless

theorem heldOnce_of_finite (h : Layering.Finite source.node? root) (target : Store) :
    source.HeldOnce root target :=
  fun _ _ _ ha _ hendless => absurd (ha.finite h) hendless

/-! ## What copying adds -/

namespace Copying

variable {s t : Copying} {handle copy : Handle}

/-- Nodes that have been added and are referred to by id are copies of different nodes, which
nothing in `base` describes. -/
def Fresh (source base : Store) (root : Handle) (state : Copying) : Prop :=
  ∀ copy, base.size ≤ copy → state.target.Referred copy → ∃ original,
    source.Below root original ∧ state.copied.get? original = some copy ∧
      Unmatched source base original

/-- A node is added together with what remembers it, and only after all that is older. -/
theorem Fresh.insert (h : Fresh source base root s) (hpending : s.copied.get? handle = none)
    (hcopied : t.copied = s.copied.insert handle copy)
    (hadded : ∀ other, t.target.Referred other → s.target.Referred other ∨
      other = copy ∧ source.Below root handle ∧ Unmatched source base handle) :
    Fresh source base root t := by
  intro other hle hreferred
  rw [hcopied]
  rcases hadded other hreferred with hold | ⟨rfl, hbelow, hunmatched⟩
  · obtain ⟨original, hbelow, hget, hunmatched⟩ := h other hle hold
    refine ⟨original, hbelow, (Table.get?_insert_of_ne _ _ ?_).trans hget, hunmatched⟩
    rintro rfl
    rw [hpending] at hget
    cases hget
  · exact ⟨handle, hbelow, Table.get?_insert_self _ _ _, hunmatched⟩

theorem maintains_fresh :
    Maintains source base (source.Below root) (Fresh source base root) where
  child hparent hchild := hparent.tail hchild
  reserve _ _ h copy hle hreferred := by
    obtain ⟨node, hnode, hreference⟩ := hreferred
    exact h copy hle ⟨node, (node?_reserve _ _).symm.trans hnode, hreference⟩
  settle _ _ _ hpending h := h.insert hpending rfl fun _ hreferred => .inl hreferred
  intern hclosing hregular h := by
    refine h.insert hclosing.pending rfl fun other hreferred => ?_
    obtain ⟨found, hfound, hreference⟩ := hreferred
    rcases eq_or_of_node?_intern hregular hfound with rfl | hold
    · -- An equal node that was there is from now on remembered for this original.
      obtain ⟨stored, hstored, hkey⟩ := exists_node?_intern hregular _
      cases hfound.symm.trans hstored
      rw [← Node.isByReference_key, hkey, Node.isByReference_key] at hreference
      exact .inr ⟨rfl, hclosing.within, hclosing.unmatched hreference⟩
    · exact .inl ⟨found, hold, hreference⟩
  fill hclosing _ _ h _ hlt _ _ := by
    refine h.insert hclosing.pending rfl fun other hreferred => ?_
    obtain ⟨found, hfound, hreference⟩ := hreferred
    rcases eq_or_of_node?_fill hlt hfound with ⟨rfl, rfl⟩ | hold
    · exact .inr ⟨rfl, hclosing.within, hclosing.unmatched hreference⟩
    · exact .inl ⟨found, hold, hreference⟩

theorem fresh_start (source target : Store) (root : Handle) :
    Fresh source target root (start target) := by
  rintro copy hle ⟨node, hnode, -⟩
  exact absurd (lt_size_of_node? hnode) (Nat.not_lt_of_le hle)

section Matching

variable {state : Copying} {b' : Handle}
variable (hvalid : Valid source target [] state) (hfresh : Fresh source target root state)
variable (hfrugal : source.Frugal) (hreduced : source.Reduced root)
variable (htarget : target.Regular) (hfrugal' : target.Frugal)
variable (hheld : source.HeldOnce root target)

include hvalid hfresh hfrugal hreduced

/-- What describes a node of the original graph is older, or it is what the node has been
copied to and nothing older describes the node. -/
theorem older_or_copied (hbelow : source.Below root a) (hreferred : source.Referred a)
    (hsame : source.Bisimilar a state.target b) :
    b < target.size ∨ state.copied.get? a = some b ∧ Unmatched source target a := by
  refine (Nat.lt_or_ge b target.size).imp_right fun hle => ?_
  obtain ⟨original, hbelow', hget, hunmatched⟩ := hfresh b hle (hreferred.of_bisimilar hsame)
  have hsame' : source.Bisimilar original state.target b :=
    (hvalid.copied hget).agree hvalid.scaffold
  obtain rfl : a = original :=
    hreduced.eq hfrugal hbelow hbelow' hreferred (hsame.trans hsame'.symm)
  exact ⟨hget, hunmatched⟩

include htarget hfrugal' hheld

/-- A node of the original graph is described once in the end. -/
theorem eq_of_bisimilar (hbelow : source.Below root a) (hreferred : source.Referred a)
    (hsame : source.Bisimilar a state.target b) (hsame' : source.Bisimilar a state.target b') :
    b = b' := by
  have hcases := older_or_copied hvalid hfresh hfrugal hreduced hbelow hreferred hsame
  have hcases' := older_or_copied hvalid hfresh hfrugal hreduced hbelow hreferred hsame'
  have hold : ∀ {b}, source.Bisimilar a state.target b → b < target.size →
      source.Bisimilar a target b := fun hsame hlt => hsame.restrict htarget hvalid.grown hlt
  -- Nothing older describes a node that has been copied, so both are older or both the copy.
  rcases hcases with hlt | ⟨hget, hunmatched⟩ <;> rcases hcases' with hlt' | ⟨hget', hunmatched'⟩
  · exact hheld.eq hfrugal' hbelow hreferred (hold hsame hlt) (hold hsame' hlt')
  · exact absurd (hold hsame hlt) (hunmatched' b)
  · exact absurd (hold hsame' hlt') (hunmatched b')
  · exact Option.some.inj (hget.symm.trans hget')

/-- The nodes of the original graph correspond to those that describe them in the end. -/
theorem corresponds : source.Corresponds state.target
    (source.BisimilarBelow root state.target) where
  closed := BisimilarBelow.unfold
  unique := by
    rintro a b a' b' ⟨hsame, hbelow⟩ ⟨hsame', hbelow'⟩ hreferred -
    constructor
    · rintro rfl
      exact eq_of_bisimilar hvalid hfresh hfrugal hreduced htarget hfrugal' hheld hbelow hreferred
        hsame hsame'
    · rintro rfl
      exact hreduced.eq hfrugal hbelow hbelow' hreferred (hsame.trans hsame'.symm)

end Matching

end Copying

/-- A graph without repetition has its text in another store when it has been copied there. -/
theorem exists_copyFrom_text (hsource : source.Sound) (htarget : target.Sound)
    (hfrugal : source.Frugal) (hreduced : source.Reduced root) (hfrugal' : target.Frugal)
    (hheld : source.HeldOnce root target) (hlt : root < source.size) :
    ∃ copy after text, source.copyFrom root target = .ok copy after ∧
      source.canonicalText root = .ok text ∧ after.canonicalText copy = .ok text := by
  obtain ⟨copy, state, hcopy, hvalid, hfresh, -, hsame⟩ := exists_copyFrom hsource htarget
    Copying.maintains_fresh (Copying.fresh_start source target root) .refl hlt
  obtain ⟨text, htext⟩ := exists_canonicalText hsource hlt
  have hcorresponds := Copying.corresponds hvalid hfresh hfrugal hreduced htarget.toRegular
    hfrugal' hheld
  have hafter := (hvalid.progress hsource htarget).sound
  have heq := hcorresponds.canonicalText_eq hsource hafter ⟨hsame, .refl⟩
  exact ⟨copy, state.target, text, hcopy, htext, heq.symm.trans htext⟩

end Store

namespace Catalog

variable {source target copied : Catalog} {handle copy : Handle}

theorem exists_text_of_copy (hsource : Reachable source) (htarget : Reachable target)
    (hreduced : source.store.Reduced handle) (hheld : source.store.HeldOnce handle target.store)
    (hcopy : onStore (source.store.copyFrom handle) target = .ok copy copied) :
    ∃ text, source.store.canonicalText handle = .ok text ∧
      copied.store.canonicalText copy = .ok text := by
  have hlt : handle < source.store.size := by
    by_contra hle
    rw [onStore_eq_error (Store.copyFrom_of_size_le (Nat.le_of_not_lt hle))] at hcopy
    cases hcopy
  obtain ⟨copy', after, text, hcopy', htext, htext'⟩ := Store.exists_copyFrom_text
    hsource.sound.store htarget.sound.store hsource.frugal hreduced htarget.frugal hheld hlt
  cases (onStore_eq_ok hcopy').symm.trans hcopy
  exact ⟨text, htext, htext'⟩

/-- A copy has the text and the fingerprint of the original, if the original goes round every
cycle once and no node of it was there more than once. -/
theorem fingerprint_copy (hsource : Reachable source) (htarget : Reachable target)
    (hreduced : source.store.Reduced handle) (hheld : source.store.HeldOnce handle target.store)
    (hcopy : onStore (source.store.copyFrom handle) target = .ok copy copied) :
    ∃ text, source.store.canonicalText handle = .ok text ∧
      copied.store.canonicalText copy = .ok text ∧
      Fingerprint.ofGraph source.store handle = .ok (.ofText text) ∧
      Fingerprint.ofGraph copied.store copy = .ok (.ofText text) := by
  obtain ⟨text, htext, htext'⟩ := exists_text_of_copy hsource htarget hreduced hheld hcopy
  refine ⟨text, htext, htext', ?_, ?_⟩
  · rw [Fingerprint.ofGraph, htext]
    rfl
  · rw [Fingerprint.ofGraph, htext']
    rfl

/-- A graph without cycles keeps its text, whatever the other catalog has. -/
theorem canonicalText_copy_of_finite (hsource : Reachable source) (htarget : Reachable target)
    (hfinite : Layering.Finite source.store.node? handle)
    (hcopy : onStore (source.store.copyFrom handle) target = .ok copy copied) :
    copied.store.canonicalText copy = source.store.canonicalText handle := by
  obtain ⟨text, htext, htext'⟩ := exists_text_of_copy hsource htarget
    (Store.reduced_of_finite hfinite) (Store.heldOnce_of_finite hfinite _) hcopy
  exact htext'.trans htext.symm

/-! ## A chain -/

/-- A catalog in which the chain has been built as it is written. -/
def writtenCatalog : Catalog :=
  after (getOrAdd .write chainType) chainCatalog

theorem reachable_writtenCatalog : Reachable writtenCatalog :=
  .step (.getOrAdd .write chainType) reachable_chainCatalog

/-- Only the record of the chain is referred to by id. -/
theorem referred_writtenCatalog {handle : Handle} (h : writtenCatalog.store.Referred handle) :
    handle = 0 := by
  obtain ⟨node, hnode, hreference⟩ := h
  have hsize : writtenCatalog.store.size = 2 := by cbv
  have hlt : handle < 2 := hsize ▸ Store.lt_size_of_node? hnode
  have hinline : writtenCatalog.store.node? 1 = some (.nullable .write 0) := by cbv
  by_contra hne
  obtain rfl : handle = 1 :=
    Nat.le_antisymm (Nat.le_of_lt_succ hlt) (Nat.pos_of_ne_zero hne)
  cases hinline.symm.trans hnode
  cases hreference

/-- The record and the nullable of the chain describe different graphs. -/
theorem eq_of_bisimilar_writtenCatalog {a b : Handle}
    (h : writtenCatalog.store.Bisimilar a writtenCatalog.store b) : a = b := by
  have hsize : writtenCatalog.store.size = 2 := by cbv
  have hrecord : writtenCatalog.store.Referred 0 := ⟨.recordWrite [⟨⟨"next"⟩, 1⟩], by cbv, rfl⟩
  obtain ⟨x, y, hx, hy, -⟩ := h.unfold
  have ha : a < 2 := hsize ▸ Store.lt_size_of_node? hx
  have hb : b < 2 := hsize ▸ Store.lt_size_of_node? hy
  have hone : ∀ {c : Handle}, c < 2 → c ≠ 0 → c = 1 := fun hlt hne =>
    Nat.le_antisymm (Nat.le_of_lt_succ hlt) (Nat.pos_of_ne_zero hne)
  by_cases hzero : a = 0
  · subst hzero
    exact (referred_writtenCatalog (hrecord.of_bisimilar h)).symm
  · have hother : b ≠ 0 := by
      rintro rfl
      exact hzero (referred_writtenCatalog (hrecord.of_bisimilar h.symm))
    rw [hone ha hzero, hone hb hother]

/-- The chain has the same text when it is copied to where it is already. -/
theorem fingerprint_copy_chain : ∃ copy copied text,
    onStore (writtenCatalog.store.copyFrom 0) writtenCatalog = .ok copy copied ∧
      writtenCatalog.store.canonicalText 0 = .ok text ∧
        copied.store.canonicalText copy = .ok text := by
  have hanswer : answer (onStore (writtenCatalog.store.copyFrom 0)) writtenCatalog = some 0 := by
    cbv
  have hcopy := eq_ok_of_answer hanswer
  have hreduced : writtenCatalog.store.Reduced 0 := by
    intro a b _ _ hreferred _ hsame
    rw [referred_writtenCatalog hreferred, referred_writtenCatalog (hreferred.of_bisimilar hsame)]
  have hheld : writtenCatalog.store.HeldOnce 0 writtenCatalog.store := by
    intro a b b' _ hreferred _ hsame hsame'
    rw [referred_writtenCatalog (hreferred.of_bisimilar hsame),
      referred_writtenCatalog (hreferred.of_bisimilar hsame')]
  obtain ⟨text, htext, htext', -⟩ := fingerprint_copy reachable_writtenCatalog
    reachable_writtenCatalog hreduced hheld hcopy
  exact ⟨0, _, text, hcopy, htext, htext'⟩

/-! ## A copy with another text -/

/-- A record that refers to itself. -/
def onceType : TypeDef :=
  fieldType "C" (.named "C")

/-- A record that refers to itself through another record with the same field. -/
def twiceType : TypeDef :=
  fieldType "A" (fieldType "B" (.named "A"))

/-- A catalog in which the shorter cycle has been built. -/
def onceCatalog : Catalog :=
  after (getOrAdd .write (.named "C")) (after (register onceType) (withProviders Provider.standard))

/-- A catalog in which the longer cycle has been built. -/
def twiceCatalog : Catalog :=
  after (getOrAdd .write (.named "A"))
    (after (register twiceType) (withProviders Provider.standard))

theorem reachable_onceCatalog : Reachable onceCatalog :=
  .step (.getOrAdd .write (.named "C")) (.step (.register onceType) (.start Provider.standard))

theorem reachable_twiceCatalog : Reachable twiceCatalog :=
  .step (.getOrAdd .write (.named "A")) (.step (.register twiceType) (.start Provider.standard))

/-- The shorter cycle is taken for the copy of the longer one, and has another text. -/
theorem text_differs_twice : Reachable twiceCatalog ∧ Reachable onceCatalog ∧
    ∃ copied, onStore (twiceCatalog.store.copyFrom 0) onceCatalog = .ok 0 copied ∧
      copied.store.canonicalText 0 ≠ twiceCatalog.store.canonicalText 0 := by
  have hanswer : answer (onStore (twiceCatalog.store.copyFrom 0)) onceCatalog = some 0 := by cbv
  refine ⟨reachable_twiceCatalog, reachable_onceCatalog, _, eq_ok_of_answer hanswer, ?_⟩
  cbv
  simp

end Catalog

end WireSchema
