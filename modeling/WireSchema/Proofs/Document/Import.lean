/-
# What importing a document does

Importing either adds the graph that the document describes, which leaves a sound
store, or changes nothing.  It fails only if some element, or the root, cannot be read.
What has been read is added by copying, so whatever the steps of copying keep is kept,
but for the ids that are taken over at the end.
-/

import WireSchema.Proofs.Document.Read

namespace WireSchema

open MonadExcept (ofExcept)

/-- Everything in the document can be read. -/
def DocumentSource.AllReadable (source : DocumentSource) : Prop :=
  (∀ id ∈ source.ids, source.Readable (.ref id)) ∧
    ∃ markup, Markup.read source.root = .ok markup ∧ source.Readable markup

/-- What a document for one side describes is of that side. -/
theorem DocumentSource.serves_of_layering {source : DocumentSource} {markup : Markup String}
    {node : Node Name (Markup String)} (h : source.layering markup = some node) :
    node.kind.serves source.direction = true := by
  cases markup with
  | ref id =>
      obtain ⟨element, -, hlayer⟩ := exists_element_of_layering h
      rcases kind_of_elementLayer hlayer with hkind | ⟨form, hkind⟩ <;> rw [hkind]
      · rfl
      · cases form <;> exact decide_eq_true rfl
  | primitive | empty => cases h; rfl
  | nullable | list | dictionary =>
      cases h
      exact decide_eq_true rfl

theorem DocumentSource.direction_ofDocument {direction : Direction} {document : Element}
    {source : DocumentSource} (h : ofDocument direction document = .ok source) :
    source.direction = direction := by
  unfold ofDocument at h
  split at h
  · cases h
  · cases hfound : identify [] document.children with
    | error error => rw [hfound] at h; cases h
    | ok elements =>
        rw [hfound] at h
        simp only [bind, Except.bind] at h
        split at h <;> cases h <;> rfl

namespace Importing

open Store (Scaffold)

variable {source : DocumentSource} {readable : Prop} {s : Importing}

theorem valid_start (source : DocumentSource) : Valid source [] start where
  scaffold := Scaffold.Valid.start Store.Sound.empty fun _ => rfl
  grounded := Store.grounded_empty
  unbuilt := rfl
  resolved hget := by cases hget

theorem reading_start (source : DocumentSource) : Reading source [] start where
  toValid := valid_start source
  pending := nofun
  single := .empty
  traced hnode := by
    rw [start, Store.node?_empty] at hnode
    cases hnode

theorem Valid.sound (h : Valid source [] s) : s.store.Sound where
  toRegular := h.scaffold.regular
  filled hlt := h.scaffold.exists_node? hlt
  grounded := h.grounded

/-- The nodes of all elements, and of the root, have been read. -/
structure Done (source : DocumentSource) (state : Importing) (named : List (String × Handle))
    (root : Handle) : Prop where
  reading : Reading source [] state
  named : List.Forall₂ (fun id entry => entry.1 = id ∧
    source.layering.Agree state.store.node? (.ref id) entry.2) source.ids named
  root : ∃ markup, Markup.read source.root = .ok markup ∧
    source.layering.Agree state.store.node? markup root

/-- What describes something in a store where nothing is nullable twice can be read. -/
theorem closed_agree (h : s.store.Single) :
    source.Closed fun markup => ∃ handle, source.layering.Agree s.store.node? markup handle where
  layer := by
    rintro markup ⟨handle, hagree⟩
    obtain ⟨layer, node, hlayer, -, hsimilar⟩ := hagree.unfold
    refine ⟨layer, hlayer, fun child hchild => ?_⟩
    obtain ⟨below, -, hbelow⟩ := hsimilar.exists_right hchild
    exact ⟨below, hbelow⟩
  single := by
    rintro inner layer ⟨handle, hagree⟩ hlayer direction target rfl
    obtain ⟨outer, node, houter, hnode, hsimilar⟩ := hagree.unfold
    cases houter
    have hkind := hsimilar.kind_eq
    cases node <;> cases hkind
    next below =>
      obtain ⟨inner', hinner', hbelow⟩ := hsimilar.exists_right List.mem_cons_self
      cases List.mem_singleton.1 hinner'
      obtain ⟨layer, found, hlayer', hfound, hsimilar'⟩ := hbelow.unfold
      cases hlayer.symm.trans hlayer'
      have hkind' := hsimilar'.kind_eq
      cases found with
      | nullable => exact h.inner hnode hfound
      | _ => cases hkind'

namespace Done

variable {named : List (String × Handle)} {root : Handle} (h : Done source s named root)

include h

theorem sound : s.store.Sound :=
  h.reading.sound

theorem allReadable : source.AllReadable := by
  refine ⟨fun id hid => ?_, h.root.imp fun markup hmarkup => ⟨hmarkup.1, ?_⟩⟩
  · obtain ⟨entry, -, -, hagree⟩ := Node.exists_right_of_forall₂ h.named hid
    exact ⟨_, closed_agree h.reading.single, entry.2, hagree⟩
  · exact ⟨_, closed_agree h.reading.single, root, hmarkup.2⟩

theorem exists_id {entry : String × Handle} (hentry : entry ∈ named) :
    entry.1 ∈ source.ids ∧ source.layering.Agree s.store.node? (.ref entry.1) entry.2 := by
  obtain ⟨id, hid, rfl, hagree⟩ := Node.exists_left_of_forall₂ h.named hentry
  exact ⟨hid, hagree⟩

theorem lt_size {entry : String × Handle} (hentry : entry ∈ named) :
    entry.2 < s.store.size := by
  obtain ⟨x, y, -, hy, -⟩ := (h.exists_id hentry).2.unfold
  exact Store.lt_size_of_node? hy

theorem root_lt_size : root < s.store.size := by
  obtain ⟨markup, -, hagree⟩ := h.root
  obtain ⟨x, y, -, hy, -⟩ := hagree.unfold
  exact Store.lt_size_of_node? hy

end Done

theorem resolveAll_runs {ids : List String}
    (hgood : readable → ∀ id ∈ ids, source.Readable (.ref id)) (hs : Reading source [] s) :
    (session source readable []).Runs s (resolveAll source ids s) fun named t =>
      List.Forall₂ (fun id entry => entry.1 = id ∧ Depicts source t.scaffold (.ref id) entry.2)
        ids named := by
  induction ids generalizing s with
  | nil => exact ⟨hs, .refl _, .nil⟩
  | cons id ids ih =>
      refine (resolveRef_runs source readable [] id (fun h => hgood h id List.mem_cons_self)
        s hs).bind hs fun handle t ht _ hhandle => ?_
      refine (ih (fun h other hother => hgood h other (List.mem_cons_of_mem _ hother)) ht).bind ht
        fun named u hu hstep hnamed => ?_
      exact ⟨hu, .refl _, .cons ⟨rfl, hhandle.advance hstep⟩ hnamed⟩

/-- The handles of a document that has been read lead to what the document describes. -/
theorem resolveDocument_ends (source : DocumentSource) :
    Ends (resolveDocument source start) (fun result t => Done source t result.1 result.2)
      fun _ _ => ¬ source.AllReadable := by
  have hruns : (session source source.AllReadable []).Runs start (resolveDocument source start)
      fun result t => List.Forall₂ (fun id entry => entry.1 = id ∧
          Depicts source t.scaffold (.ref id) entry.2) source.ids result.1 ∧
        ∃ markup, Markup.read source.root = .ok markup ∧
          Depicts source t.scaffold markup result.2 := by
    have hstart := reading_start source
    apply (resolveAll_runs And.left hstart).bind hstart
    intro named t ht _ hnamed
    apply (ofExcept_runs ht fun h => h.2.imp fun _ => And.left).bind ht
    rintro markup _ - - ⟨rfl, hmarkup⟩
    refine (resolveMarkup_runs source _ [] markup (fun h => ?_) _ ht).bind ht
      fun root u hu hstep hroot => ?_
    · obtain ⟨markup', hmarkup', hgood⟩ := h.2
      cases hmarkup.symm.trans hmarkup'
      exact hgood
    · refine ⟨hu, .refl _, hnamed.imp fun id entry hentry => ?_, markup, hmarkup, hroot⟩
      exact hentry.imp_right fun hdepicts => hdepicts.advance hstep
  refine Ends.imp hruns ?_ fun _ _ hfails => hfails
  rintro ⟨named, root⟩ t ⟨ht, -, hnamed, markup, hmarkup, hroot⟩
  exact ⟨ht, hnamed.imp fun id entry hentry => hentry.imp_right fun h => h.agree ht.scaffold,
    markup, hmarkup, hroot.agree ht.scaffold⟩

end Importing

namespace Store

variable {store source target base : Store} {Keeps : Store → Prop}

/-- The nodes of the store are those of a store with the property. -/
def HasNodesOf (Keeps : Store → Prop) (store : Store) : Prop :=
  ∃ other : Store, Keeps other ∧ ∀ handle, store.node? handle = other.node? handle

/-- The store after ids have been taken over. -/
def adoptIds (store : Store) : List (String × Handle) → Store
  | [] => store
  | (id, handle) :: named =>
    if (store.id? handle).isNone ∧ (store.lookupId? id).isNone then
      (store.setId handle id).adoptIds named
    else store.adoptIds named

/-- Only ids that are free are taken over, so nothing stands against it. -/
theorem claimIds_eq_ok {named : List (String × Handle)}
    (hnamed : ∀ entry ∈ named, entry.2 < store.size) :
    claimIds named store = .ok () (store.adoptIds named) := by
  induction named generalizing store with
  | nil => rfl
  | cons entry named ih =>
      obtain ⟨id, slot⟩ := entry
      obtain ⟨hlt, hnamed⟩ := List.forall_mem_cons.1 hnamed
      rw [claimIds, run_get_bind, adoptIds]
      split
      next hfree =>
        have hclaim := claimId_of_free hlt (Option.isNone_iff_eq_none.1 hfree.1)
          (Option.isNone_iff_eq_none.1 hfree.2)
        exact (run_bind_of_ok hclaim).trans (ih fun other hother =>
          (size_setId _ _ _).symm ▸ hnamed other hother)
      next => exact ih hnamed

/-- Taking over ids changes no node. -/
theorem progress_adoptIds {named : List (String × Handle)} (hstore : store.Sound)
    (hnamed : ∀ entry ∈ named, ∃ node, store.node? entry.2 = some node) :
    Progress store (store.adoptIds named) ∧
      ∀ handle, (store.adoptIds named).node? handle = store.node? handle := by
  induction named generalizing store with
  | nil => exact ⟨.refl hstore, fun _ => rfl⟩
  | cons entry named ih =>
      obtain ⟨id, slot⟩ := entry
      obtain ⟨node, hnode⟩ := hnamed (id, slot) List.mem_cons_self
      rw [adoptIds]
      split
      next hfree =>
        have hregular := hstore.toRegular.setId hnode
          (Option.isNone_iff_eq_none.1 hfree.2) (Option.isNone_iff_eq_none.1 hfree.1)
        have hset : Progress store (store.setId slot id) :=
          ⟨hstore.of_node?_eq hregular (size_setId _ _ _) (node?_setId _ _ _),
            extends_setId _ _ _, fun hget => hget⟩
        obtain ⟨hprogress, hsame⟩ := ih hset.sound fun other hother => by
          rw [node?_setId]
          exact hnamed other (List.mem_cons_of_mem _ hother)
        exact ⟨hset.trans hprogress,
          fun handle => (hsame handle).trans (node?_setId _ _ _ handle)⟩
      next => exact ih hstore fun other hother => hnamed other (List.mem_cons_of_mem _ hother)

section Adopt

variable {Within : Handle → Prop} {Kept : Copying → Prop} {named : List (String × Handle)}
variable {root : Handle}

theorem copyNamed_runs (hsource : source.Sound)
    (hkeeps : Copying.Maintains source base Within Kept)
    (hnamed : ∀ entry ∈ named, Within entry.2 ∧ entry.2 < source.size)
    {s : Copying} (hs : Copying.Valid source base [] s ∧ Kept s) :
    (Copying.session source base Kept []).Runs s (source.copyNamed named s) fun copies t =>
      List.Forall₂ (fun entry copy => copy.1 = entry.1 ∧ t.Has entry.2 copy.2) named copies := by
  induction named generalizing s with
  | nil => exact ⟨hs, .refl _, .nil⟩
  | cons entry named ih =>
      obtain ⟨id, handle⟩ := entry
      obtain ⟨⟨hwithin, hlt⟩, hnamed⟩ := List.forall_mem_cons.1 hnamed
      apply (copyNode_runs hsource hkeeps [] handle hwithin hlt nofun s hs).bind hs
      intro copy t ht _ hcopy
      refine (ih hnamed ht).bind ht fun copies u hu hstep hcopies => ?_
      exact ⟨hu, .refl _, .cons ⟨rfl, hstep.has hcopy.2⟩ hcopies⟩

/-- What has been read is copied into a sound store, and then the ids are taken over. -/
theorem exists_adopt (hsource : source.Sound) (htarget : target.Sound)
    (hkeeps : Copying.Maintains source target Within Kept) (hstart : Kept (.start target))
    (hnamed : ∀ entry ∈ named, Within entry.2 ∧ entry.2 < source.size)
    (hwithin : Within root) (hroot : root < source.size) :
    ∃ copies copy state,
      source.adopt named root target = .ok copy (state.target.adoptIds copies) ∧
        Copying.Valid source target [] state ∧ Kept state ∧
          List.Forall₂ (fun entry copy => copy.1 = entry.1 ∧
            state.copied.get? entry.2 = some copy.2) named copies ∧
              state.copied.get? root = some copy := by
  have hstart : Copying.Valid source target [] (.start target) ∧ Kept (.start target) :=
    ⟨Copying.valid_start htarget, hstart⟩
  have hruns : (Copying.session source target Kept []).Runs (Copying.start target)
      ((do
        let copies ← source.copyNamed named
        let root ← source.copyNode [] root
        return (copies, root) : EStateM Error Copying (List (String × Handle) × Handle))
        (Copying.start target))
      fun result t => List.Forall₂ (fun entry copy => copy.1 = entry.1 ∧ t.Has entry.2 copy.2)
        named result.1 ∧ t.Has root result.2 := by
    apply (copyNamed_runs hsource hkeeps hnamed hstart).bind hstart
    intro copies t ht _ hcopies
    apply (copyNode_runs hsource hkeeps [] root hwithin hroot nofun t ht).bind ht
    intro copy u hu hstep hcopy
    exact ⟨hu, .refl _, hcopies.imp fun _ _ hentry => hentry.imp_right hstep.has, hcopy.2⟩
  unfold adopt
  dsimp only
  generalize (do
    let copies ← source.copyNamed named
    let root ← source.copyNode [] root
    return (copies, root) : EStateM Error Copying (List (String × Handle) × Handle)) = run
    at hruns ⊢
  cases hrun : run (Copying.start target) with
  | error error state =>
      rw [hrun] at hruns
      exact hruns.elim
  | ok result state =>
      rw [hrun] at hruns
      obtain ⟨copies, copy⟩ := result
      obtain ⟨⟨hvalid, hkept⟩, -, hcopies, hhas⟩ := hruns
      have hcopied : ∀ {original copy}, state.Has original copy →
          state.copied.get? original = some copy := fun hhas =>
        hhas.resolve_right fun hslot => by
          cases (hvalid.scaffold.get?_eq_none _).symm.trans hslot
      have hcopies := hcopies.imp fun _ _ hentry => hentry.imp_right hcopied
      have hclaim : claimIds copies state.target = .ok () (state.target.adoptIds copies) := by
        refine claimIds_eq_ok fun entry hentry => ?_
        obtain ⟨original, -, -, hget⟩ := Node.exists_left_of_forall₂ hcopies hentry
        obtain ⟨x, y, -, hy, -⟩ := ((hvalid.copied hget).agree hvalid.scaffold).unfold
        exact lt_size_of_node? hy
      refine ⟨copies, copy, state, ?_, hvalid, hkept, hcopies, hcopied hhas⟩
      dsimp only
      rw [hclaim]

end Adopt

/-- Copies are under the ids of what they are copies of. -/
theorem map_fst_of_copies {named copies : List (String × Handle)}
    {R : String × Handle → String × Handle → Prop}
    (h : List.Forall₂ (fun entry copy => copy.1 = entry.1 ∧ R entry copy) named copies) :
    copies.map Prod.fst = named.map Prod.fst := by
  induction h with
  | nil => rfl
  | cons hentry _ ih => exact congrArg₂ List.cons hentry.1 ih

/-- Adopting what has been read into a sound store succeeds. -/
theorem adopt_ends (hsource : source.Sound) (htarget : target.Sound)
    (hkeeps : Maintains Keeps) (hkept : Keeps target)
    {named : List (String × Handle)} {root : Handle}
    (hnamed : ∀ entry ∈ named, entry.2 < source.size) (hroot : root < source.size) :
    Ends (source.adopt named root target)
      (fun copy t => (Progress target t ∧ HasNodesOf Keeps t) ∧ source.Bisimilar root t copy ∧
        ∀ entry ∈ named, ∃ copy, source.Bisimilar entry.2 t copy)
      fun _ _ => False := by
  obtain ⟨copies, copy, state, hadopt, hvalid, hkept, hcopies, hget⟩ := exists_adopt hsource
    htarget (Copying.maintains_of_store hkeeps) hkept
    (fun entry hentry => ⟨trivial, hnamed entry hentry⟩) trivial hroot
  have hprogress := hvalid.progress hsource htarget
  have hcopied : ∀ {original copy}, state.copied.get? original = some copy →
      source.Bisimilar original state.target copy := fun hget =>
    (hvalid.copied hget).agree hvalid.scaffold
  have hnodes : ∀ entry ∈ copies, ∃ node, state.target.node? entry.2 = some node := by
    intro entry hentry
    obtain ⟨original, -, -, hentry⟩ := Node.exists_left_of_forall₂ hcopies hentry
    obtain ⟨x, y, -, hy, -⟩ := (hcopied hentry).unfold
    exact ⟨y, hy⟩
  obtain ⟨hids, hsame⟩ := progress_adoptIds hprogress.sound hnodes
  have hkeep : ∀ {a b}, source.Bisimilar a state.target b →
      source.Bisimilar a (state.target.adoptIds copies) b := fun h =>
    h.mono (fun _ _ h => h) fun handle node hnode => (hsame handle).trans hnode
  rw [hadopt]
  refine ⟨⟨hprogress.trans hids, state.target, hkept, hsame⟩, hkeep (hcopied hget),
    fun entry hentry => ?_⟩
  obtain ⟨copy, -, -, hentry⟩ := Node.exists_right_of_forall₂ hcopies hentry
  exact ⟨copy.2, hkeep (hcopied hentry)⟩

/-- What has been read from a document can be adopted by any sound store, and its root is of the
side that the document is for. -/
theorem exists_adopt_of_done (hstore : store.Sound) {source : DocumentSource} {state : Importing}
    {named : List (String × Handle)} {root : Handle}
    (hdone : Importing.Done source state named root) :
    ∃ copy adopted, state.store.adopt named root store = .ok copy adopted ∧
      adopted.serving source.direction copy = .ok copy := by
  obtain ⟨markup, -, hroot⟩ := hdone.root
  obtain ⟨x, -, hx, -, -⟩ := hroot.unfold
  have hadopt := adopt_ends hdone.sound hstore maintains_true trivial
    (fun entry => hdone.lt_size) hdone.root_lt_size
  cases hadopted : state.store.adopt named root store with
  | error error t =>
      rw [hadopted] at hadopt
      exact hadopt.elim
  | ok copy t =>
      rw [hadopted] at hadopt
      -- The copy has the kind that the document gives its root.
      obtain ⟨z, hz, hsimilar⟩ := (hroot.trans hadopt.2.1).unfold.exists_right hx
      have hserves : z.kind.serves source.direction = true := by
        rw [← hsimilar.kind_eq]
        exact DocumentSource.serves_of_layering hx
      refine ⟨copy, t, rfl, ?_⟩
      rw [serving, node_eq_ok_iff.2 hz]
      exact if_pos hserves

/-- Importing ends with adopting what has been read. -/
theorem importDocument_eq_adopt (hstore : store.Sound) {direction : Direction} {document : Element}
    {source : DocumentSource} {named : List (String × Handle)} {root : Handle} {state : Importing}
    (hsource : DocumentSource.ofDocument direction document = .ok source)
    (hresolve : Importing.resolveDocument source Importing.start = .ok (named, root) state) :
    importDocument direction document store = state.store.adopt named root store := by
  have hdone := Importing.resolveDocument_ends source
  rw [hresolve] at hdone
  obtain ⟨copy, t, hadopt, hserving⟩ := exists_adopt_of_done hstore hdone
  rw [DocumentSource.direction_ofDocument hsource] at hserving
  unfold importDocument
  rw [hsource]
  dsimp only
  rw [hresolve]
  dsimp only
  rw [hadopt]
  dsimp only
  rw [hserving]

/-- What a document describes is in a store, with the handle for its root. -/
structure Holds (source : DocumentSource) (store : Store) (handle : Handle) : Prop where
  readable : source.AllReadable
  elements : ∀ id ∈ source.ids, ∃ handle, source.layering.Agree store.node? (.ref id) handle
  root : ∃ markup, Markup.read source.root = .ok markup ∧
    source.layering.Agree store.node? markup handle

/-- Importing a document adopts what has been read from it, or changes nothing because something in
the document cannot be read. -/
theorem importDocument_cases (hstore : store.Sound) (direction : Direction) (document : Element) :
    (∃ source state named root, DocumentSource.ofDocument direction document = .ok source ∧
      Importing.Done source state named root ∧
      importDocument direction document store = state.store.adopt named root store) ∨
    ((∃ error, importDocument direction document store = .error error store) ∧
      ∀ source, DocumentSource.ofDocument direction document = .ok source →
        ¬ source.AllReadable) := by
  cases hsource : DocumentSource.ofDocument direction document with
  | error error =>
      refine .inr ⟨⟨error, ?_⟩, nofun⟩
      unfold importDocument
      rw [hsource]
  | ok source =>
      have hread := Importing.resolveDocument_ends source
      cases hresolve : Importing.resolveDocument source Importing.start with
      | error error state =>
          rw [hresolve] at hread
          refine .inr ⟨⟨error, ?_⟩, fun other hother => ?_⟩
          · unfold importDocument
            rw [hsource]
            dsimp only
            rw [hresolve]
          · cases hother
            exact hread
      | ok result state =>
          rw [hresolve] at hread
          exact .inl ⟨source, state, result.1, result.2, rfl, hread,
            importDocument_eq_adopt hstore hsource hresolve⟩

/-- Importing a document gives a handle that leads to what the document describes, or
fails because something in the document cannot be read. -/
theorem importDocument_ends (hstore : store.Sound) (hkeeps : Maintains Keeps)
    (hkept : Keeps store) (direction : Direction) (document : Element) :
    Ends (importDocument direction document store)
      (fun handle t => (Progress store t ∧ HasNodesOf Keeps t) ∧ ∃ source,
        DocumentSource.ofDocument direction document = .ok source ∧ Holds source t handle)
      fun _ t => t = store ∧ ∀ source,
        DocumentSource.ofDocument direction document = .ok source → ¬ source.AllReadable := by
  rcases importDocument_cases hstore direction document with
    ⟨source, state, named, root, hsource, hdone, himport⟩ | ⟨⟨error, himport⟩, hfails⟩
  · rw [himport]
    refine Ends.imp (adopt_ends hdone.sound hstore hkeeps hkept (fun _ => hdone.lt_size)
      hdone.root_lt_size) ?_ fun _ _ hfails => hfails.elim
    rintro copy t ⟨hprogress, hcopy, hcopies⟩
    refine ⟨hprogress, source, hsource, hdone.allReadable, fun id hid => ?_, ?_⟩
    · obtain ⟨entry, hentry, rfl, hagree⟩ := Node.exists_right_of_forall₂ hdone.named hid
      obtain ⟨copy, hcopy⟩ := hcopies entry hentry
      exact ⟨copy, hagree.trans hcopy⟩
    · obtain ⟨markup, hmarkup, hroot⟩ := hdone.root
      exact ⟨markup, hmarkup, hroot.trans hcopy⟩
  · rw [himport]
    exact ⟨rfl, hfails⟩

end Store

end WireSchema
