/-
# Importing what the store has

A document that has been exported describes a graph of the store, with ids that the store
knows.  When it is imported into the same store, every node that is referred to by id is
found, and no id is taken over.  The root is answered and nothing is changed exactly if the
root finds itself.
-/

import WireSchema.Proofs.Document.RoundTrip
import WireSchema.Proofs.Store.CopyAgain
import WireSchema.Proofs.Store.Growth

namespace WireSchema.Store

variable {source target store : Store} {R : Handle → Handle → Prop} {root c : Handle}
variable {named : List (String × Handle)}

/-! ## What has been read is known -/

/-- Every node that has been read is referred to by id and described in the target, and the
target has its id. -/
def Known (source : Store) (named : List (String × Handle)) (target : Store) : Prop :=
  ∀ entry ∈ named, source.Referred entry.2 ∧ (∃ b, source.Bisimilar entry.2 target b) ∧
    ∃ owner, target.lookupId? entry.1 = some owner

/-- Ids that the store has are not taken over. -/
theorem claimIds_of_taken
    (h : ∀ id ∈ named.map Prod.fst, ∃ owner, store.lookupId? id = some owner) :
    claimIds named store = .ok () store ∧ store.adoptIds named = store := by
  induction named with
  | nil => exact ⟨rfl, rfl⟩
  | cons entry named ih =>
      obtain ⟨⟨owner, howner⟩, h⟩ := List.forall_mem_cons.1 h
      have htaken : ¬ (store.lookupId? entry.1).isNone := by simp [howner]
      rw [claimIds, run_get_bind, adoptIds, if_neg fun hfree => htaken hfree.2,
        if_neg fun hfree => htaken hfree.2]
      exact ih h

theorem Known.claimIds {copies : List (String × Handle)} (h : source.Known named target)
    (hids : copies.map Prod.fst = named.map Prod.fst) (hstore : store.ids = target.ids) :
    Store.claimIds copies store = .ok () store ∧ store.adoptIds copies = store := by
  refine claimIds_of_taken fun id hid => ?_
  rw [hids] at hid
  obtain ⟨entry, hentry, rfl⟩ := List.mem_map.1 hid
  rw [lookupId?, hstore]
  exact (h entry hentry).2.2

theorem copyNamed_runs_of_settled (hsource : source.Sound) (hsettled : source.Settled target R)
    (hnamed : ∀ entry ∈ named, ∃ b, R entry.2 b) {s : Copying}
    (hs : (foundSession target R).Valid s) :
    (foundSession target R).Runs s (source.copyNamed named s) fun copies _ =>
      copies.map Prod.fst = named.map Prod.fst := by
  induction named generalizing s with
  | nil => exact ⟨hs, trivial, rfl⟩
  | cons entry named ih =>
      obtain ⟨id, handle⟩ := entry
      obtain ⟨⟨b, hb⟩, hnamed⟩ := List.forall_mem_cons.1 hnamed
      apply (copyNode_runs_of_settled hsource hsettled [] nofun hb hs).bind hs
      intro copy t ht _ _
      refine (ih hnamed ht).bind ht fun copies u hu _ hids => ?_
      exact ⟨hu, trivial, congrArg (id :: ·) hids⟩

/-- Adopting what is found answers what was found and changes nothing. -/
theorem adopt_of_settled (hsource : source.Sound) (hsettled : source.Settled target R)
    (hknown : source.Known named target) (hnamed : ∀ entry ∈ named, ∃ b, R entry.2 b)
    (hroot : R root c) : source.adopt named root target = .ok c target := by
  have hstart : (foundSession target R).Valid (.start target) := ⟨rfl, rfl, nofun⟩
  have hruns : (foundSession target R).Runs (Copying.start target)
      ((do
        let copies ← source.copyNamed named
        let root ← source.copyNode [] root
        return (copies, root) : EStateM Error Copying (List (String × Handle) × Handle))
        (Copying.start target))
      fun result _ => result.1.map Prod.fst = named.map Prod.fst ∧ result.2 = c := by
    apply (copyNamed_runs_of_settled hsource hsettled hnamed hstart).bind hstart
    intro copies t ht _ hids
    apply (copyNode_runs_of_settled hsource hsettled [] nofun hroot ht).bind ht
    exact fun copy u hu _ hcopy => ⟨hu, trivial, hids, hcopy⟩
  unfold adopt
  dsimp only
  generalize (do
    let copies ← source.copyNamed named
    let root ← source.copyNode [] root
    return (copies, root) : EStateM Error Copying (List (String × Handle) × Handle)) = run
    at hruns ⊢
  cases hrun : run (Copying.start target) with
  | error error state =>
      rw [hrun] at hruns
      exact hruns.elim
  | ok result state =>
      rw [hrun] at hruns
      obtain ⟨copies, copy⟩ := result
      obtain ⟨⟨rfl, -, -⟩, -, hids, rfl⟩ := hruns
      dsimp only
      rw [(hknown.claimIds hids rfl).1]

/-- Where everything is known, a root that is referred to by id gets the first node of the same
graph. -/
theorem adopt_of_isFirst (hsource : source.Sound) (hknown : source.Known named target)
    (hreferred : source.Referred root) (hfirst : source.IsFirst root target c) :
    source.adopt named root target = .ok c target := by
  refine adopt_of_settled hsource (settled_isFirst source target) hknown (fun entry hentry => ?_)
    ⟨hreferred, hfirst⟩
  obtain ⟨hreferred, ⟨b, hsame⟩, -⟩ := hknown entry hentry
  exact (exists_isFirst hsame).imp fun _ hfirst => ⟨hreferred, hfirst⟩

/-- Where everything is known, a node is answered and nothing changed exactly if the node
finds itself. -/
theorem adopt_eq_iff (hsource : source.Sound) (htarget : target.Sound)
    (hknown : source.Known named target) (hsame : source.Bisimilar root target c) :
    source.adopt named root target = .ok c target ↔ target.FindsItself c := by
  have hlt : ∀ {a b}, source.Bisimilar a target b → a < source.size := fun hsame => by
    obtain ⟨x, -, hx, -, -⟩ := hsame.unfold
    exact lt_size_of_node? hx
  constructor
  · intro hadopt
    obtain ⟨copies, copy, state, hrun, hvalid, ⟨hgrows, htracked⟩, hcopies, hget⟩ := exists_adopt
      hsource htarget ((Copying.maintains_of_store (maintains_grows target)).and
        (Copying.maintains_tracked htarget.toRegular fun {_ _} _ _ => trivial))
      ⟨.refl target, Copying.tracked_start source target fun _ => True⟩
      (fun entry hentry => ⟨trivial, hlt (hknown entry hentry).2.1.choose_spec⟩) trivial (hlt hsame)
    have hids : copies.map Prod.fst = named.map Prod.fst := map_fst_of_copies hcopies
    rw [(hknown.claimIds hids hgrows.ids).2] at hrun
    obtain ⟨rfl, rfl⟩ := EStateM.Result.ok.inj (hrun.symm.trans hadopt)
    exact htracked.findsItself hvalid hget
  · intro hfinds
    refine adopt_of_settled hsource hfinds.settled hknown (fun entry hentry => ?_)
      (.inr ⟨.refl, hsame⟩)
    obtain ⟨hreferred, ⟨b, hsame⟩, -⟩ := hknown entry hentry
    exact (exists_isFirst hsame).imp fun _ hfirst => .inl ⟨hreferred, hfirst⟩

/-! ## What has been exported is known -/

variable {document : DocumentSource} {direction : Direction} {after : Store} {handle : Handle}

/-- Importing a document that presents a graph of the store adopts nodes that are known, with a
root that describes the graph. -/
theorem Presents.exists_adopt (h : store.Sound) (hpresents : store.Presents root document)
    (hsided : store.OneSided document.direction root) (hids : store.AllReferable root)
    {element : Element} (hdocument : DocumentSource.ofDocument document.direction element =
      .ok document) :
    ∃ scratch named top, scratch.Sound ∧ Known scratch named store ∧
      scratch.Bisimilar top store root ∧
        importDocument document.direction element store = scratch.adopt named top store := by
  rcases importDocument_cases h document.direction element with
    ⟨source, state, named, top, hsource, hdone, himport⟩ | ⟨-, hfails⟩
  · cases hdocument.symm.trans hsource
    have hknown : Known state.store named store := by
      rintro ⟨id, original⟩ hentry
      obtain ⟨hid, horiginal⟩ := hdone.exists_id hentry
      obtain ⟨owner, element, hbelow, hid, node, layer, hnode, hreference, -⟩ :=
        hpresents.owner id hid
      have hspelled : store.SpelledBelow root (.ref id) owner :=
        ⟨.ref hnode hreference hid, hbelow⟩
      have hsame : state.store.Bisimilar original store owner :=
        horiginal.symm.trans (hpresents.agree h hsided hids hspelled)
      obtain ⟨x, hx, hsimilar⟩ := hsame.unfold.exists_left hnode
      exact ⟨⟨x, hx, hsimilar.isByReference_eq.trans hreference⟩, ⟨owner, hsame⟩, owner,
        h.id_iff.2 hid⟩
    exact ⟨state.store, named, top, hdone.sound, hknown,
      (hpresents.bisimilar_of_done h hsided hids hdone).symm, himport⟩
  · exact absurd (hpresents.allReadable h hsided hids) (hfails document hdocument)

/-! ## The whole round -/

/-- The first node of a graph is the same in a store with the same nodes. -/
theorem IsFirst.congr (h : store.IsFirst root store c) (hnodes : after.node? = store.node?) :
    after.IsFirst root after c where
  same := by
    rw [Bisimilar, hnodes]
    exact h.same
  le other hother := by
    rw [Bisimilar, hnodes] at hother
    exact h.le other hother

/-- Whether a node finds itself depends on the nodes and on the index. -/
theorem FindsItself.congr (h : store.FindsItself root) (hnodes : after.node? = store.node?)
    (hindex : ∀ {a node}, store.node? a = some node → store.index.get? node.key = some a →
      after.index.get? node.key = some a) : after.FindsItself root := by
  have hinlines : after.Inlines = store.Inlines := by
    funext child parent
    rw [Inlines, Inlines, hnodes]
  constructor
  · intro a hspans hreferred
    rw [Spans, hinlines] at hspans
    rw [Referred, hnodes] at hreferred
    exact (h.first hspans hreferred).congr hnodes
  · intro a node hspans hnode hinline
    rw [Spans, hinlines] at hspans
    rw [hnodes] at hnode
    exact hindex hnode (h.indexed hspans hnode hinline)

theorem Relabels.findsItself_iff (h : Relabels store after) (hstore : store.Regular) :
    after.FindsItself root ↔ store.FindsItself root := by
  have hnodes : after.node? = store.node? := funext h.node?_eq
  constructor
  · refine fun hfinds => hfinds.congr hnodes.symm fun {a node} hnode hget => ?_
    rw [hnodes] at hnode
    obtain ⟨other, hother⟩ := hstore.index_complete hnode
    rw [hother, ← hget, h.progress.grown.index_of hother]
  · exact fun hfinds => hfinds.congr hnodes fun _ => h.progress.grown.index_of

/-- A graph of one side whose ids can be written is exported and imported again.  That answers
the root and changes nothing exactly if the root finds itself; for a root that is referred to
by id it answers the first node of the same graph and never changes anything. -/
theorem exists_importAgain (h : store.Sound) (hroot : root < store.size)
    (hsided : store.OneSided direction root) (hids : store.AllReferable root) :
    ∃ document after, exportGraph root true store = .ok document after ∧
      (importDocument direction document after = .ok root after ↔ store.FindsItself root) ∧
      (store.Referred root → ∃ first, store.IsFirst root store first ∧
        importDocument direction document after = .ok first after) := by
  obtain ⟨document, after, hexport, hrelabels, hread⟩ := exists_exportGraph h hroot
  obtain ⟨source, hsource, rfl, hpresents⟩ := hread direction
  have hafter := hrelabels.progress.sound
  have hnodes : after.node? = store.node? := funext hrelabels.node?_eq
  obtain ⟨scratch, named, top, hscratch, hknown, hsame, himport⟩ := hpresents.exists_adopt hafter
    (hsided.relabel hrelabels) (hids.relabel hrelabels) hsource
  refine ⟨document, after, hexport, ?_, fun hreferred => ?_⟩
  · rw [himport, adopt_eq_iff hscratch hafter hknown hsame,
      hrelabels.findsItself_iff h.toRegular]
  · obtain ⟨first, hfirst⟩ := exists_isFirst (bisimilar_self h hroot)
    refine ⟨first, hfirst, ?_⟩
    have htop : scratch.Referred top := by
      rw [Bisimilar, hnodes] at hsame
      exact hreferred.of_bisimilar hsame.symm
    rw [himport]
    exact adopt_of_isFirst hscratch hknown htop ((hfirst.congr hnodes).of_bisimilar hsame)

end WireSchema.Store
