/-
# What reading a document does

A document is read into a store of its own, which is a scaffold whose keys are the
ids of the open elements.  What a markup is resolved to leads to the graph that the
document describes for it.  Reading fails only if something on the way cannot be
read; `readable` stands for what is known about that beforehand, so that one
induction covers documents about which nothing is known, too.
-/

import WireSchema.Proofs.Document.Layering
import WireSchema.Proofs.Node.Session
import WireSchema.Proofs.Store.Copy

namespace WireSchema

namespace Store

/-- No node of the store is nullable twice. -/
structure Single (store : Store) : Prop where
  inner : ∀ {handle inner outer below target}, store.node? handle = some (.nullable outer inner) →
    store.node? inner ≠ some (.nullable below target)

namespace Single

variable {store : Store} {node : Node Name Handle} {slot : Handle}

theorem empty : Store.empty.Single where
  inner hnode := by
    rw [node?_empty] at hnode
    cases hnode

theorem reserve (h : store.Single) : store.reserve.2.Single where
  inner hnode := by
    rw [node?_reserve] at hnode ⊢
    exact h.inner hnode

theorem intern (h : store.Single) (hregular : store.Regular)
    (hchildren : ∀ child ∈ node.children, child < store.size)
    (hsingle : ∀ {outer inner below target}, node = .nullable outer inner →
      store.node? inner ≠ some (.nullable below target)) : (store.intern node).2.Single where
  inner {handle inner outer below target} hnode := by
    have hextends := extends_intern hregular node
    rcases old_or_new_of_node?_intern hregular hnode with hold | ⟨-, hnew⟩
    · rw [hextends.node?_eq (hregular.children_lt hold inner List.mem_cons_self)]
      exact h.inner hold
    · rw [hextends.node?_eq (hchildren inner (hnew ▸ List.mem_cons_self))]
      exact hsingle hnew.symm

/-- Slots are filled with what is referred to by id. -/
theorem fill (h : store.Single) (hslot : slot < store.size)
    (hreference : node.isByReference = true) : (store.fill slot node).Single where
  inner {handle inner outer below target} hnode hinner := by
    rcases eq_or_of_node?_fill hslot hnode with ⟨-, rfl⟩ | hold
    · cases hreference
    rcases eq_or_of_node?_fill hslot hinner with ⟨-, rfl⟩ | hold'
    · cases hreference
    · exact h.inner hold hold'

end Single

end Store

namespace Importing

open Store (Scaffold)
open MonadExcept (ofExcept)

variable {source : DocumentSource} {readable : Prop} {opened : List String} {s t : Importing}
variable {id : String} {slot handle : Handle} {markup : Markup String}

/-- The store of the session with its reserved slots. -/
def scaffold (state : Importing) : Scaffold String :=
  ⟨state.store, state.reserved⟩

/-- A slot is reserved for references to an element. -/
def Keys (markup : Markup String) (id : String) : Prop :=
  markup = .ref id

/-- The handle leads to the graph that the document describes for the markup, as far as
it has been read. -/
def Depicts (source : DocumentSource) (state : Scaffold String) (markup : Markup String)
    (handle : Handle) : Prop :=
  state.Depicts Keys source.layering markup handle

/-- What holds while the elements in `opened` are being read. -/
structure Valid (source : DocumentSource) (opened : List String) (state : Importing) : Prop where
  scaffold : state.scaffold.Valid opened
  grounded : state.store.Grounded
  unbuilt : state.store.built = .empty
  resolved : ∀ {id handle}, state.resolved.get? id = some handle →
    Depicts source state.scaffold (.ref id) handle

/-- What holds besides: open elements have not been read, no node is nullable twice, and what is
referred to by id has been read from the element with some id, whose names it has. -/
structure Reading (source : DocumentSource) (opened : List String) (state : Importing) : Prop
    extends Valid source opened state where
  pending : ∀ id ∈ opened, state.resolved.get? id = none
  single : state.store.Single
  traced : ∀ {handle node}, state.store.node? handle = some node → node.isByReference = true →
    ∃ id layer, state.resolved.get? id = some handle ∧ source.layering (.ref id) = some layer ∧
      layer.Lift (Depicts source state.scaffold) node

/-- Reading while the elements in `opened` are open.  It fails only if not everything is
readable. -/
def session (source : DocumentSource) (readable : Prop) (opened : List String) :
    Session Importing where
  Valid := Reading source opened
  Step s t := s.scaffold.Advances t.scaffold
  Fails _ _ := ¬ readable
  refl _ := .refl _
  trans h h' := h.trans h'
  fails_of_step _ _ _ h := h

theorem keeps (markup : Markup String) (handle : Handle) (s t : Importing)
    (_ : (session source readable opened).Valid s)
    (hstep : (session source readable opened).Step s t)
    (_ : (session source readable opened).Valid t) (h : Depicts source s.scaffold markup handle) :
    Depicts source t.scaffold markup handle :=
  h.advance hstep

namespace Valid

theorem opening (h : Valid source opened s) (id : String) : Valid source (id :: opened) s :=
  { h with scaffold := h.scaffold.opening id }

theorem closing (h : Valid source (id :: opened) s) (hnone : s.reserved.get? id = none) :
    Valid source opened s :=
  { h with scaffold := h.scaffold.closing hnone }

/-- Remembering what the element with an id has been read as. -/
theorem resolve (h : Valid source opened s)
    (hdepicts : Depicts source s.scaffold (.ref id) handle) :
    Valid source opened { s with resolved := s.resolved.insert id handle } where
  scaffold := h.scaffold
  grounded := h.grounded
  unbuilt := h.unbuilt
  resolved hget := by
    rcases Table.get?_insert_eq_some_iff.1 hget with ⟨rfl, rfl⟩ | ⟨-, hget⟩
    · exact hdepicts
    · exact h.resolved hget

/-- Interning the node of a markup. -/
theorem intern (hs : Valid source opened s) {layer : Node Name (Markup String)}
    {node : Node Name Handle} (hlayer : source.layering markup = some layer)
    (hlift : layer.Lift (Depicts source s.scaffold) node) (harranged : node.Arranged) :
    Valid source opened { s with store := (s.store.intern node).2 } ∧
      s.scaffold.Advances ⟨(s.store.intern node).2, s.reserved⟩ ∧
        Depicts source ⟨(s.store.intern node).2, s.reserved⟩ markup (s.store.intern node).1 := by
  have hsimilar : layer.Similar (Depicts source s.scaffold) node := .of_lift hlift
  have hchildren := Scaffold.lt_size_of_similar hs.scaffold hsimilar
  have hintern : s.scaffold.Advances ⟨(s.store.intern node).2, s.reserved⟩ :=
    .of_extends (Store.extends_intern hs.scaffold.regular node)
  refine ⟨⟨hs.scaffold.intern hchildren harranged,
    hs.grounded.intern hs.scaffold.regular hchildren, ?_, ?_⟩, hintern,
    Scaffold.depicts_intern hs.scaffold hlayer hsimilar⟩
  · exact (Store.built_intern s.store node).trans hs.unbuilt
  · intro id handle hget
    exact (hs.resolved hget).advance hintern

end Valid

namespace Reading

theorem opening (h : Reading source opened s) (hnone : s.resolved.get? id = none) :
    Reading source (id :: opened) s :=
  { h with
    toValid := h.toValid.opening id
    pending := List.forall_mem_cons.2 ⟨hnone, h.pending⟩ }

/-- What has been traced stays traced. -/
theorem trace (h : Reading source opened s) {node : Node Name Handle}
    (hnode : s.store.node? handle = some node) (hreference : node.isByReference = true)
    {scaffold : Scaffold String}
    (hkeep : ∀ {markup handle}, Depicts source s.scaffold markup handle →
      Depicts source scaffold markup handle) :
    ∃ id layer, s.resolved.get? id = some handle ∧ source.layering (.ref id) = some layer ∧
      layer.Lift (Depicts source scaffold) node := by
  obtain ⟨id, layer, hget, hlayer, hlift⟩ := h.traced hnode hreference
  exact ⟨id, layer, hget, hlayer, hlift.imp fun _ _ => hkeep⟩

/-- What has been traced stays traced when an open element has been read. -/
theorem trace_resolve (h : Reading source opened s) (hopen : id ∈ opened)
    {node : Node Name Handle} (hnode : s.store.node? handle = some node)
    (hreference : node.isByReference = true) {scaffold : Scaffold String} {result : Handle}
    (hkeep : ∀ {markup handle}, Depicts source s.scaffold markup handle →
      Depicts source scaffold markup handle) :
    ∃ other layer, (s.resolved.insert id result).get? other = some handle ∧
      source.layering (.ref other) = some layer ∧ layer.Lift (Depicts source scaffold) node := by
  obtain ⟨other, layer, hget, hlayer, hlift⟩ := h.trace hnode hreference hkeep
  refine ⟨other, layer, (Table.get?_insert_of_ne _ _ ?_).trans hget, hlayer, hlift⟩
  rintro rfl
  rw [h.pending other hopen] at hget
  cases hget

end Reading

/-- The node of an inline markup. -/
theorem intern_runs (hs : Reading source opened s) {layer : Node Name (Markup String)}
    {node : Node Name Handle} (hlayer : source.layering markup = some layer)
    (hlift : layer.Lift (Depicts source s.scaffold) node) (hnames : node.names = [])
    (hinline : node.isByReference = false)
    (hsingle : ∀ {outer inner below target}, node = .nullable outer inner →
      s.store.node? inner ≠ some (.nullable below target)) :
    (session source readable opened).Runs s (Importing.intern node s) fun handle t =>
      Depicts source t.scaffold markup handle := by
  obtain ⟨hvalid, hstep, hdepicts⟩ :=
    hs.toValid.intern hlayer hlift (Node.arranged_of_names_eq_nil hnames)
  have hchildren := Scaffold.lt_size_of_similar hs.scaffold (.of_lift hlift)
  refine ⟨⟨hvalid, hs.pending, hs.single.intern hs.scaffold.regular hchildren hsingle,
    fun {handle found} hfound hreference => ?_⟩, hstep, hdepicts⟩
  rcases Store.old_or_new_of_node?_intern hs.scaffold.regular hfound with hold | ⟨-, rfl⟩
  · exact hs.trace hold hreference fun h => h.advance hstep
  · rw [hinline] at hreference
    cases hreference

/-- An element that is met again gets the slot that is reserved for it. -/
theorem slotFor_runs (hs : Reading source opened s) (hopen : id ∈ opened) :
    (session source readable opened).Runs s (slotFor id s) fun handle t =>
      Depicts source t.scaffold (.ref id) handle := by
  unfold slotFor
  split
  next slot hslot => exact ⟨hs, .refl _, Alike.of_promised ⟨id, rfl, hslot⟩⟩
  next hnone =>
    have hstep : s.scaffold.Advances ⟨s.store.reserve.2, s.reserved.insert id s.store.size⟩ :=
      .reserve hnone
    refine ⟨⟨⟨hs.scaffold.reserve hopen hnone, hs.grounded.reserve, hs.unbuilt, ?_⟩, hs.pending,
      hs.single.reserve, ?_⟩, hstep, Alike.of_promised ⟨id, rfl, Table.get?_insert_self _ _ _⟩⟩
    · intro other handle hget
      exact (hs.resolved hget).advance hstep
    · intro handle node hnode hreference
      have hold := (Store.node?_reserve _ _).symm.trans hnode
      exact hs.trace hold hreference fun h => h.advance hstep

/-- Closing an element whose node is known. -/
theorem close_runs {layer : Node Name (Markup String)} {node : Node Name Handle}
    (ht : Reading source (id :: opened) t)
    (hstep : s.scaffold.Advances t.scaffold) (hnew : s.reserved.get? id = none)
    (hopened : id ∉ opened) (hlayer : source.layering (.ref id) = some layer)
    (hlift : layer.Lift (Depicts source t.scaffold) node) (harranged : node.Arranged)
    (hreference : node.isByReference = true) :
    Ends (close id node t)
      (fun handle u => Reading source opened u ∧ s.scaffold.Advances u.scaffold ∧
        Depicts source u.scaffold (.ref id) handle) fun _ _ => ¬ readable := by
  have hsimilar : layer.Similar (Depicts source t.scaffold) node := .of_lift hlift
  have hchildren := Scaffold.lt_size_of_similar ht.scaffold hsimilar
  have hpending : ∀ handle, ∀ other ∈ opened,
      (t.resolved.insert id handle).get? other = none := by
    intro handle other hother
    rw [Table.get?_insert_of_ne _ _ (ne_of_mem_of_not_mem hother hopened)]
    exact ht.pending other (List.mem_cons_of_mem _ hother)
  have hinline : ∀ {outer inner}, node ≠ .nullable outer inner := by
    rintro outer inner rfl
    cases hreference
  unfold close
  split
  next hnone =>
    obtain ⟨hvalid, hintern, hdepicts⟩ :=
      (ht.toValid.closing hnone).intern hlayer hlift harranged
    refine ⟨⟨hvalid.resolve hdepicts, hpending _, ht.single.intern ht.scaffold.regular hchildren
      fun heq => absurd heq hinline, fun {handle found} hfound hfoundReference => ?_⟩,
      hstep.trans hintern, hdepicts⟩
    rcases Store.old_or_new_of_node?_intern ht.scaffold.regular hfound with hold | ⟨rfl, rfl⟩
    · exact ht.trace_resolve List.mem_cons_self hold hfoundReference fun h => h.advance hintern
    · exact ⟨id, layer, Table.get?_insert_self _ _ _, hlayer,
        hlift.imp fun _ _ h => h.advance hintern⟩
  next slot hslot =>
    have hfill : ∀ {markup handle}, Depicts source t.scaffold markup handle →
        Depicts source ⟨t.store.fill slot node, t.reserved.erase id⟩ markup handle := by
      intro markup handle hdepicts
      apply Scaffold.Depicts.fill hdepicts ht.scaffold hslot
      rintro other rfl
      exact ⟨layer, hlayer, hsimilar⟩
    have hdepicts := hfill (Alike.of_promised ⟨id, rfl, hslot⟩)
    have hlt := ht.scaffold.lt_size hslot
    have hvalid : Valid source opened { t with
        store := t.store.fill slot node
        reserved := t.reserved.erase id } :=
      ⟨ht.scaffold.fill hslot hchildren harranged, ht.grounded.fill hlt hreference, ht.unbuilt,
        fun hget => hfill (ht.resolved hget)⟩
    refine ⟨⟨hvalid.resolve hdepicts, hpending _, ht.single.fill hlt hreference,
      fun {handle found} hfound hfoundReference => ?_⟩,
      hstep.fill ht.scaffold hnew hslot node, hdepicts⟩
    rcases Store.eq_or_of_node?_fill hlt hfound with ⟨rfl, rfl⟩ | hold
    · exact ⟨id, layer, Table.get?_insert_self _ _ _, hlayer, hlift.imp fun _ _ => hfill⟩
    · exact ht.trace_resolve List.mem_cons_self hold hfoundReference hfill

/-- A computation that does not look at the session. -/
theorem ofExcept_runs {α : Type} {x : Except Error α} (hs : Reading source opened s)
    (hx : readable → ∃ a, x = .ok a) :
    (session source readable opened).Runs s ((ofExcept x : EStateM Error Importing α) s)
      fun a t => t = s ∧ x = .ok a := by
  cases x with
  | ok a => exact ⟨hs, .refl _, rfl, rfl⟩
  | error error =>
      intro hreadable
      obtain ⟨a, ha⟩ := hx hreadable
      cases ha

/-! ## The parts of an element -/

theorem mapM_cons_eq_ok_iff {α β : Type} {f : α → Except Error β} {x : α} {xs : List α}
    {results : List β} :
    (x :: xs).mapM f = .ok results ↔
      ∃ y ys, f x = .ok y ∧ xs.mapM f = .ok ys ∧ results = y :: ys := by
  rw [List.mapM_cons]
  cases f x with
  | error error => exact ⟨nofun, nofun⟩
  | ok y =>
      cases hxs : xs.mapM f with
      | error error => exact ⟨nofun, nofun⟩
      | ok ys =>
          constructor
          · intro h
            cases h
            exact ⟨y, ys, rfl, rfl, rfl⟩
          · rintro ⟨y', ys', hy, hys, rfl⟩
            cases hy
            cases hys
            rfl

theorem part_eq_ok_iff {form : ElementForm} {element : Element}
    {result : Input Name (Markup String)} :
    source.part form element = .ok result ↔
      ∃ part required, ElementPart.ofElement element = .ok part ∧
        source.flag form part = .ok required ∧ result = ⟨part.name, part.markup, required⟩ := by
  unfold DocumentSource.part
  cases ElementPart.ofElement element with
  | error error => exact ⟨nofun, fun ⟨_, _, hpart, _⟩ => nomatch hpart⟩
  | ok part =>
      change (do
        let required ← source.flag form part
        return Input.mk part.name part.markup required : Except Error _) = _ ↔ _
      cases hrequired : source.flag form part with
      | error error =>
          refine ⟨nofun, ?_⟩
          rintro ⟨part', required, hpart, hrequired', -⟩
          cases hpart
          cases hrequired.symm.trans hrequired'
      | ok required =>
          constructor
          · intro h
            cases h
            exact ⟨part, required, rfl, hrequired, rfl⟩
          · rintro ⟨part', required', hpart, hrequired', rfl⟩
            cases hpart
            cases hrequired.symm.trans hrequired'
            rfl

/-- Reading a field or member: its target is resolved before its flag is judged. -/
def readPart (source : DocumentSource) (form : ElementForm)
    (resolve : Markup String → EStateM Error Importing Handle) (element : Element) :
    EStateM Error Importing (Input Name Handle) := do
  let part ← ofExcept (ElementPart.ofElement element)
  let target ← resolve part.markup
  let required ←
    if form.hasRequired source.direction then ofExcept part.required else pure true
  return Input.mk part.name target required

section Parts

variable {form : ElementForm} {resolve : Markup String → EStateM Error Importing Handle}

theorem readPart_runs
    (hresolve : ∀ markup s, (readable → source.Readable markup) → Reading source opened s →
      (session source readable opened).Runs s (resolve markup s) fun handle t =>
        Depicts source t.scaffold markup handle)
    {element : Element}
    (hpart : readable → ∃ part, source.part form element = .ok part ∧ source.Readable part.target)
    (hs : Reading source opened s) :
    (session source readable opened).Runs s (readPart source form resolve element s)
      fun input t => ∃ part, source.part form element = .ok part ∧
        Node.SameInput (Depicts source t.scaffold) part input := by
  have hread : readable → ∃ part, ElementPart.ofElement element = .ok part := fun h => by
    obtain ⟨result, hresult, -⟩ := hpart h
    obtain ⟨part, required, hpart, -⟩ := part_eq_ok_iff.1 hresult
    exact ⟨part, hpart⟩
  apply (ofExcept_runs hs hread).bind hs
  rintro part _ - - ⟨rfl, hpart'⟩
  have hmarkup : readable → source.Readable part.markup := fun h => by
    obtain ⟨result, hresult, hgood⟩ := hpart h
    obtain ⟨part', required, hpart'', -, rfl⟩ := part_eq_ok_iff.1 hresult
    cases hpart'.symm.trans hpart''
    exact hgood
  apply (hresolve part.markup _ hmarkup hs).bind hs
  intro target t ht _ htarget
  have hflag : readable → ∃ required, source.flag form part = .ok required := fun h => by
    obtain ⟨result, hresult, -⟩ := hpart h
    obtain ⟨part', required, hpart'', hrequired, -⟩ := part_eq_ok_iff.1 hresult
    cases hpart'.symm.trans hpart''
    exact ⟨required, hrequired⟩
  have hdone : ∀ required, source.flag form part = .ok required →
      ∃ result, source.part form element = .ok result ∧
        Node.SameInput (Depicts source t.scaffold) result ⟨part.name, target, required⟩ :=
    fun required hrequired => ⟨⟨part.name, part.markup, required⟩,
      part_eq_ok_iff.2 ⟨part, required, hpart', hrequired, rfl⟩, rfl, rfl, htarget⟩
  by_cases hform : form.hasRequired source.direction = true
  · rw [if_pos hform]
    rw [DocumentSource.flag, if_pos hform] at hflag hdone
    apply (ofExcept_runs ht hflag).bind ht
    rintro required _ - - ⟨rfl, hrequired⟩
    exact ⟨ht, .refl _, hdone required hrequired⟩
  · rw [if_neg hform]
    rw [DocumentSource.flag, if_neg hform] at hdone
    exact ⟨ht, .refl _, hdone true rfl⟩

theorem parts_runs
    (hresolve : ∀ markup s, (readable → source.Readable markup) → Reading source opened s →
      (session source readable opened).Runs s (resolve markup s) fun handle t =>
        Depicts source t.scaffold markup handle)
    {elements : List Element}
    (hparts : readable → ∃ parts, elements.mapM (source.part form) = .ok parts ∧
      ∀ part ∈ parts, source.Readable part.target)
    (hs : Reading source opened s) :
    (session source readable opened).Runs s (elements.mapM (readPart source form resolve) s)
      fun inputs t => ∃ parts, elements.mapM (source.part form) = .ok parts ∧
        List.Forall₂ (Node.SameInput (Depicts source t.scaffold)) parts inputs := by
  induction elements generalizing s with
  | nil =>
      rw [List.mapM_nil]
      exact ⟨hs, .refl _, [], rfl, .nil⟩
  | cons element elements ih =>
      rw [List.mapM_cons]
      have hfirst : readable →
          ∃ part, source.part form element = .ok part ∧ source.Readable part.target := fun h => by
        obtain ⟨parts, hparts, hgood⟩ := hparts h
        obtain ⟨part, rest, hpart, -, rfl⟩ := mapM_cons_eq_ok_iff.1 hparts
        exact ⟨part, hpart, hgood part List.mem_cons_self⟩
      have hrest : readable → ∃ parts, elements.mapM (source.part form) = .ok parts ∧
          ∀ part ∈ parts, source.Readable part.target := fun h => by
        obtain ⟨parts, hparts, hgood⟩ := hparts h
        obtain ⟨part, rest, -, hrest, rfl⟩ := mapM_cons_eq_ok_iff.1 hparts
        exact ⟨rest, hrest, fun part hpart => hgood part (List.mem_cons_of_mem _ hpart)⟩
      apply (readPart_runs hresolve hfirst hs).bind hs
      intro input t ht _ hinput
      apply (ih hrest ht).bind ht
      intro inputs u hu hstep hinputs
      obtain ⟨part, hpart, hname, hflag, htarget⟩ := hinput
      obtain ⟨parts, hparts, hsame⟩ := hinputs
      refine ⟨hu, .refl _, part :: parts, ?_, .cons ⟨hname, hflag, htarget.advance hstep⟩ hsame⟩
      exact mapM_cons_eq_ok_iff.2 ⟨part, parts, hpart, hparts, rfl⟩

end Parts

end Importing

end WireSchema
