/-
# What building a type does

While a type is being built the store is a scaffold whose keys are the open types.
Every handle that is remembered for a type, and every handle that a build returns,
leads to the graph of that type as far as it has been built (`build_runs`).  Three
things keep this true: a type that is met again gets the slot in which its node
will be, an equal node is found only if it has the same children, and a finished
cycle is dropped only for a node that describes the same graph.
-/

import WireSchema.Proofs.Catalog.Layering
import WireSchema.Proofs.Node.Session
import WireSchema.Proofs.Store.Bisimulation
import WireSchema.Proofs.Store.Scaffold

namespace WireSchema.Building

open Store (Scaffold)

/-- The building as a store with reserved slots. -/
def scaffold (state : Building) : Scaffold TypeDef :=
  ⟨state.store, state.reserved⟩

/-- A slot is reserved for a type under what the type stands for.  Only the side that is
being built has slots. -/
def Keys (plan : Plan) (direction : Direction) (type key : TypeDef) : Prop :=
  direction = plan.direction ∧ plan.target type = .ok key

/-- The handle leads to the graph of the type on one side, as far as it has been built. -/
def Depicts (plan : Plan) (direction : Direction) (state : Scaffold TypeDef) (type : TypeDef)
    (handle : Handle) : Prop :=
  state.Depicts (Keys plan direction) (plan.toward direction).layering type handle

/-- What holds while the types in `opened` are being built. -/
structure Valid (plan : Plan) (opened : List TypeDef) (state : Scaffold TypeDef) : Prop where
  scaffold : state.Valid opened
  grounded : state.store.Grounded
  /-- What is remembered for a type leads to its graph. -/
  built : ∀ {direction type handle}, state.store.built.get? (direction, type) = some handle →
    Depicts plan direction state type handle
  /-- Slots are reserved for types that are met again below themselves. -/
  recurs : ∀ {key slot}, state.reserved.get? key = some slot → plan.Recurs key

/-- How a build that fails leaves the store: what it has added can be dropped. -/
structure Fails (plan : Plan) (opened : List TypeDef) (before after : Scaffold TypeDef) :
    Prop where
  regular : after.store.Regular
  grown : before.store.Extends after.store
  is_open : ∀ {key slot}, after.reserved.get? key = some slot → key ∈ opened
  built : ∀ {direction type handle}, after.store.built.get? (direction, type) = some handle →
    handle < before.store.size → Depicts plan direction before type handle

variable {plan : Plan} {opened opened' : List TypeDef} {s t u : Scaffold TypeDef}
variable {type target : TypeDef} {slot handle : Handle}

/-- A failure after some steps, which may have closed types. -/
theorem fails_of_advances (hs : Valid plan opened s) (ht : Valid plan opened' t)
    (hstep : s.Advances t) {reserved : Table TypeDef Handle}
    (hopen : ∀ {key slot}, reserved.get? key = some slot → key ∈ opened) :
    Fails plan opened s ⟨t.store, reserved⟩ where
  regular := ht.scaffold.regular
  grown := hstep.grown
  is_open := hopen
  built hget hlt := (ht.built hget).retreat hstep hs.scaffold.regular hlt

theorem fails_refl (hs : Valid plan opened s) : Fails plan opened s s :=
  fails_of_advances hs hs (.refl s) hs.scaffold.is_open

theorem Fails.after (hs : Valid plan opened s) (hstep : s.Advances t) (h : Fails plan opened t u) :
    Fails plan opened s u where
  regular := h.regular
  grown := hstep.grown.trans h.grown
  is_open := h.is_open
  built hget hlt :=
    (h.built hget (hlt.trans_le hstep.grown.size_le)).retreat hstep hs.scaffold.regular hlt

/-- What a failed build has added is dropped. -/
theorem Fails.rollback (h : Fails plan opened s t) (hs : Valid plan opened s) :
    Fails plan opened s ⟨t.store.rollback s.store.size, t.reserved⟩ where
  regular := h.regular.rollback hs.scaffold.regular h.grown
  grown := h.grown.rollback hs.scaffold.regular h.regular
  is_open := h.is_open
  built hget hlt := h.built ((Store.built_rollback h.regular.built_lt).1 hget).1 hlt

/-- The steps by which types are built for one side keep the property.  Rolling back leads
to an earlier store, and what is remembered was not known in an earlier store. -/
structure Maintains (direction : Direction) (Keeps : Store → Prop) : Prop
    extends Store.Maintains Keeps where
  rollback : ∀ {before store : Store}, before.Regular → Keeps before → store.Regular →
    Keeps store → before.Extends store → Keeps (store.rollback before.size)
  remember : ∀ {before store : Store} {type} (handle : Handle), Keeps before →
    before.built.get? (direction, type) = none → Keeps store →
      Keeps (store.remember direction type handle)

theorem maintains_true (direction : Direction) : Maintains direction fun _ => True :=
  ⟨Store.maintains_true, fun _ _ _ _ _ => trivial, fun _ _ _ _ => trivial⟩

/-- A handle for a type that is met again below itself leads to a graph that goes on for
ever, also while it is unfinished. -/
theorem Depicts.not_finite (h : Depicts plan plan.direction s type handle)
    (hvalid : s.Valid opened) (hrecurs : plan.Recurs type) :
    ¬ Layering.Finite s.store.node? handle := by
  refine fun hfinite => not_acc_of_transGen hrecurs
    (Alike.acc h hfinite (fun _ _ ⟨_, _, hget⟩ => hvalid.pending hget) ?_)
  rintro parent child x ⟨target, layer, below, htarget, hlayer, hbelow, hchild⟩ hx
  obtain ⟨target', layer', htarget', hlayer', harrange⟩ := Plan.layering_eq_some_iff.1 hx
  cases htarget.symm.trans htarget'
  cases hlayer.symm.trans hlayer'
  refine ⟨below, (Node.perm_children_of_arrange harrange).mem_iff.2 hbelow, fun handle halike => ?_⟩
  refine Alike.congr_left halike (Plan.layering_eq_of_target hchild).symm ?_
  rintro ⟨key, ⟨hside, hkey⟩, hget⟩
  cases hchild.symm.trans hkey
  exact ⟨child, ⟨hside, Plan.target_target hchild⟩, hget⟩

/-- The open types are those that are recorded as under construction. -/
structure Records (plan : Plan) (opened : List TypeDef) (state : Building) : Prop where
  valid : Valid plan opened state.scaffold
  opened_eq : state.opened = opened

/-- How a build that fails leaves what is recorded. -/
structure Leaves (plan : Plan) (opened : List TypeDef) (before after : Building) : Prop where
  fails : Fails plan opened before.scaffold after.scaffold
  opened_eq : after.opened = opened

/-- Builds with the types in `opened` open, with what their steps keep. -/
def session (plan : Plan) (Keeps : Store → Prop) (opened : List TypeDef) :
    Session Building where
  Valid s := Records plan opened s ∧ Keeps s.store
  Step s t := s.scaffold.Advances t.scaffold
  Fails s t := Leaves plan opened s t ∧ Keeps t.store
  refl _ := .refl _
  trans h h' := h.trans h'
  fails_of_step hs hstep _ h :=
    ⟨⟨h.1.fails.after hs.1.valid hstep, h.1.opened_eq⟩, h.2⟩

/-- The types that are open while what is below a type is being built. -/
def openedBelow (opened : List TypeDef) (target : TypeDef) : List TypeDef :=
  if target.mayRecur then target :: opened else opened

theorem eq_or_mem_of_mem_openedBelow {key : TypeDef} (h : key ∈ openedBelow opened target) :
    key = target ∨ key ∈ opened := by
  rw [openedBelow] at h
  split at h
  · exact List.mem_cons.1 h
  · exact .inr h

theorem opened_enter (s : Building) (target : TypeDef) :
    (s.enter target).opened = openedBelow s.opened target := by
  rw [enter, openedBelow]
  split <;> rfl

theorem scaffold_enter (s : Building) (target : TypeDef) :
    (s.enter target).scaffold = s.scaffold := by
  rw [enter]
  split <;> rfl

theorem store_enter (s : Building) (target : TypeDef) : (s.enter target).store = s.store :=
  congrArg Scaffold.store (scaffold_enter s target)

theorem erase_openedBelow (hopened : target ∉ opened) :
    (openedBelow opened target).erase target = opened := by
  rw [openedBelow]
  split
  · exact List.erase_cons_head target opened
  · exact List.erase_of_not_mem hopened

/-! ## Steps of a build -/

namespace Valid

theorem opening (h : Valid plan opened s) (key : TypeDef) : Valid plan (key :: opened) s :=
  { h with scaffold := h.scaffold.opening key }

theorem closing (h : Valid plan (target :: opened) s)
    (hnone : s.reserved.get? target = none) : Valid plan opened s :=
  { h with scaffold := h.scaffold.closing hnone }

theorem reserve (h : Valid plan opened s) (hopen : target ∈ opened)
    (hnone : s.reserved.get? target = none) (hrecurs : plan.Recurs target) :
    Valid plan opened ⟨s.store.reserve.2, s.reserved.insert target s.store.size⟩ where
  scaffold := h.scaffold.reserve hopen hnone
  grounded := h.grounded.reserve
  built hget := (h.built hget).advance (.reserve hnone)
  recurs hget := by
    rcases Table.get?_insert_eq_some_iff.1 hget with ⟨rfl, -⟩ | ⟨-, hget⟩
    · exact hrecurs
    · exact h.recurs hget

theorem intern (h : Valid plan opened s) {node : Node Name Handle}
    (hchildren : ∀ child ∈ node.children, child < s.store.size) (harranged : node.Arranged) :
    Valid plan opened ⟨(s.store.intern node).2, s.reserved⟩ where
  scaffold := h.scaffold.intern hchildren harranged
  grounded := h.grounded.intern h.scaffold.regular hchildren
  built {direction type handle} hget := by
    rw [Store.built_intern] at hget
    exact (h.built hget).advance (.of_extends (Store.extends_intern h.scaffold.regular node))
  recurs := h.recurs

/-- A handle that leads to the graph of a type can be remembered for it. -/
theorem remember (h : Valid plan opened s) {node : Node Name Handle}
    (hnode : s.store.node? handle = some node)
    (hdepicts : Depicts plan plan.direction s target handle) :
    Valid plan opened ⟨s.store.remember plan.direction target handle, s.reserved⟩ where
  scaffold := h.scaffold.remember hnode plan.direction target
  grounded := h.grounded
  built {direction type other} hget := by
    rcases Table.get?_insert_eq_some_iff.1 hget with ⟨heq, rfl⟩ | ⟨-, hget⟩
    · cases heq
      exact hdepicts
    · exact h.built hget
  recurs := h.recurs

/-- A slot is filled with the node of the type that it is reserved for. -/
theorem fill (h : Valid plan (target :: opened) s) (hslot : s.reserved.get? target = some slot)
    {x : Node Name TypeDef} {node : Node Name Handle} (hx : plan.layering target = some x)
    (hsimilar : x.Similar (Depicts plan plan.direction s) node) (harranged : node.Arranged)
    (hreference : node.isByReference = true) :
    Valid plan opened ⟨s.store.fill slot node, s.reserved.erase target⟩ ∧
      ∀ {type handle}, Depicts plan plan.direction s type handle →
        Depicts plan plan.direction ⟨s.store.fill slot node, s.reserved.erase target⟩
          type handle := by
  have hfill : ∀ {direction type handle}, Depicts plan direction s type handle →
      Depicts plan direction ⟨s.store.fill slot node, s.reserved.erase target⟩ type handle := by
    intro direction type handle hdepicts
    apply Scaffold.Depicts.fill hdepicts h.scaffold hslot
    rintro other ⟨rfl, hother⟩
    exact ⟨x, (Plan.layering_eq_of_target hother).trans hx, hsimilar⟩
  refine ⟨⟨?_, ?_, ?_, ?_⟩, fun h => hfill h⟩
  · exact h.scaffold.fill hslot (Scaffold.lt_size_of_similar h.scaffold hsimilar) harranged
  · exact h.grounded.fill (h.scaffold.lt_size hslot) hreference
  · intro direction type handle hget
    exact hfill (h.built hget)
  · intro key other hget
    exact h.recurs (Table.get?_erase_eq_some_iff.1 hget).2

/-- What has been built since can be dropped if no open type has a slot in it. -/
theorem rollback (ht : Valid plan opened t) (hs : Valid plan opened s) (hstep : s.Advances t)
    (hold : ∀ {key slot}, t.reserved.get? key = some slot → slot < s.store.size) :
    Valid plan opened ⟨t.store.rollback s.store.size, t.reserved⟩ where
  scaffold := ht.scaffold.rollback hs.scaffold hstep hold
  grounded := ht.grounded.rollback _
  built hget := by
    obtain ⟨hget, hlt⟩ := (Store.built_rollback ht.scaffold.regular.built_lt).1 hget
    have hearlier := (ht.built hget).retreat hstep hs.scaffold.regular hlt
    exact hearlier.advance (hstep.rollback hs.scaffold ht.scaffold)
  recurs := ht.recurs

end Valid

end WireSchema.Building
