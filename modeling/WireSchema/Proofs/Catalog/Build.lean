/-
# What a build returns

The induction follows the recursion of `Building.build`, over all scaffolds at
once: if what is below a type has been built right, closing the type keeps the
scaffold valid and returns a handle that leads to the graph of the type.
-/

import WireSchema.Proofs.Catalog.Building

namespace WireSchema.Building

open Store (Scaffold)

variable {plan : Plan} {opened : List TypeDef} {s t : Building} {type target : TypeDef}
variable {slot handle : Handle} {Keeps : Store → Prop}

/-- A type that is met again gets the slot that is reserved for it. -/
theorem slotFor_runs (hkeeps : Maintains plan.direction Keeps)
    (hs : Records plan opened s ∧ Keeps s.store) (hopen : target ∈ opened)
    (htarget : plan.target type = .ok target) (hrecurs : plan.Recurs target) :
    (session plan Keeps opened).Runs s (slotFor target s) fun handle t =>
      Depicts plan plan.direction t.scaffold type handle := by
  unfold slotFor
  split
  next slot hslot =>
    exact ⟨hs, .refl _, Alike.of_promised ⟨target, ⟨rfl, htarget⟩, hslot⟩⟩
  next hnone =>
    refine ⟨⟨⟨hs.1.valid.reserve hopen hnone hrecurs, hs.1.opened_eq⟩,
      hkeeps.reserve hs.2⟩, .reserve hnone,
      Alike.of_promised ⟨target, ⟨rfl, htarget⟩, ?_⟩⟩
    exact Table.get?_insert_self _ _ _

/-- A node that supersedes a finished cycle is older than the mark and describes the
same graph, and no open type has a slot from the mark on. -/
theorem of_superseding? {store : Store} {reserved : Table TypeDef Handle} {mark : Nat}
    (h : superseding? store reserved mark slot = some handle) :
    (∀ {key other}, reserved.get? key = some other → other < mark) ∧ handle < mark ∧
      store.Bisimilar slot store handle := by
  unfold superseding? at h
  split at h
  · cases h
  next hany =>
    obtain ⟨⟨node, hmem⟩, hbisimilar⟩ := Store.bisimilar_of_firstEquivalent? h
    refine ⟨fun {key other} hget => ?_, of_decide_eq_true (List.mem_filter.1 hmem).2, hbisimilar⟩
    by_contra hle
    refine hany (List.any_eq_true.2 ⟨(key, other), (Table.mem_bindings_iff _ _ _).2 hget, ?_⟩)
    exact decide_eq_true (Nat.le_of_not_lt hle)

section Closing

variable {s t u : Scaffold TypeDef} {x : Node Name TypeDef} {node : Node Name Handle}

/-- A state in which the node of a type is stored, on the way from the state in which its
build began. -/
structure Done (plan : Plan) (Keeps : Store → Prop) (opened : List TypeDef)
    (before after : Scaffold TypeDef) (target : TypeDef) (handle : Handle) : Prop where
  valid : Valid plan opened after
  kept : Keeps after.store
  step : before.Advances after
  stored : ∃ node, after.store.node? handle = some node
  depicts : Depicts plan plan.direction after target handle

/-- A type that has no slot gets the handle of its node. -/
theorem done_intern (hkeeps : Maintains plan.direction Keeps)
    (ht : Valid plan (target :: opened) t) (hkept : Keeps t.store) (hstep : s.Advances t)
    (hslot : t.reserved.get? target = none) (hlayering : plan.layering target = some x)
    (hsimilar : x.Similar (Depicts plan plan.direction t) node) (harranged : node.Arranged) :
    Done plan Keeps opened s ⟨(t.store.intern node).2, t.reserved⟩ target
      (t.store.intern node).1 where
  valid := (ht.closing hslot).intern (Scaffold.lt_size_of_similar ht.scaffold hsimilar) harranged
  kept := hkeeps.intern node ht.scaffold.regular hkept
  step := hstep.trans (.of_extends (Store.extends_intern ht.scaffold.regular node))
  stored := by
    obtain ⟨stored, hstored, -⟩ := Store.exists_node?_intern ht.scaffold.regular node
    exact ⟨stored, hstored⟩
  depicts := Scaffold.depicts_intern ht.scaffold hlayering hsimilar

/-- A type that has a slot gets its node there. -/
theorem done_fill (hkeeps : Maintains plan.direction Keeps) (hkept : Keeps s.store)
    (ht : Valid plan (target :: opened) t) (hkept' : Keeps t.store) (hstep : s.Advances t)
    (hnew : s.reserved.get? target = none) (hslot : t.reserved.get? target = some slot)
    (hself : plan.target target = .ok target) (hlayering : plan.layering target = some x)
    (hsimilar : x.Similar (Depicts plan plan.direction t) node) (harranged : node.Arranged)
    (hreference : node.isByReference = true) :
    Done plan Keeps opened s ⟨t.store.fill slot node, t.reserved.erase target⟩ target slot := by
  obtain ⟨hvalid, hfill⟩ := ht.fill hslot hlayering hsimilar harranged hreference
  have hdepicts := hfill (Alike.of_promised ⟨target, ⟨rfl, hself⟩, hslot⟩)
  have hlt := ht.scaffold.lt_size hslot
  refine ⟨hvalid, ?_, hstep.fill ht.scaffold hnew hslot node,
    ⟨node, Store.node?_fill_self hlt node⟩, hdepicts⟩
  exact hkeeps.fill node hkept (hstep.size_le_slot hnew hslot) hkept' hlt
    (ht.scaffold.pending hslot) (Depicts.not_finite hdepicts hvalid.scaffold (ht.recurs hslot))

/-- A finished cycle can be dropped for the older node that supersedes it: that node
describes the same graph, and nothing in that graph is newer. -/
theorem Done.supersede (hkeeps : Maintains plan.direction Keeps) (hs : Valid plan opened s)
    (hkept : Keeps s.store) (h : Done plan Keeps opened s u target slot)
    (hsuper : superseding? u.store u.reserved s.store.size slot = some handle) :
    Done plan Keeps opened s ⟨u.store.rollback s.store.size, u.reserved⟩ target handle := by
  obtain ⟨hold, hhandle, hbisimilar⟩ := of_superseding? hsuper
  have hagree : Depicts plan plan.direction u target handle := by
    refine (Alike.trans_agree h.depicts hbisimilar ?_).alike
    rintro type other ⟨key, -, hget⟩
    exact h.valid.scaffold.pending hget
  have hback := h.step.rollback hs.scaffold h.valid.scaffold
  obtain ⟨-, y, -, hy, -⟩ := hbisimilar.unfold
  refine ⟨h.valid.rollback hs h.step hold, ?_, hback,
    ⟨y, ((Store.node?_rollback _ _ _).trans (if_pos hhandle)).trans hy⟩,
    (hagree.retreat h.step hs.scaffold.regular hhandle).advance hback⟩
  exact hkeeps.rollback hs.scaffold.regular hkept h.valid.scaffold.regular h.kept h.step.grown

/-- Remembering the handle of its node ends the build of a type. -/
theorem Done.remember (hkeeps : Maintains plan.direction Keeps) (hkept : Keeps s.store)
    (hunbuilt : s.store.built.get? (plan.direction, target) = none)
    (h : Done plan Keeps opened s u target handle) :
    Done plan Keeps opened s
      ⟨u.store.remember plan.direction target handle, u.reserved⟩ target handle := by
  have hremember : u.Advances ⟨u.store.remember plan.direction target handle, u.reserved⟩ :=
    .of_extends (Store.extends_remember u.store plan.direction target handle)
  obtain ⟨node, hnode⟩ := h.stored
  exact ⟨h.valid.remember hnode h.depicts, hkeeps.remember handle hkept hunbuilt h.kept,
    h.step.trans hremember, ⟨node, hnode⟩, h.depicts.advance hremember⟩

end Closing

/-- Closing a type whose node is known up to the order of its names. -/
theorem close_ends {layer : Node Name TypeDef} {node : Node Name Handle}
    (hkeeps : Maintains plan.direction Keeps) (hkept : Keeps s.store) (hkept' : Keeps t.store)
    (hunbuilt : s.store.built.get? (plan.direction, target) = none)
    (hs : Valid plan opened s.scaffold) (ht : Valid plan (target :: opened) t.scaffold)
    (hleave : t.opened.erase target = opened) (hstep : s.scaffold.Advances t.scaffold)
    (hnew : s.reserved.get? target = none)
    (hself : plan.target target = .ok target) (hlayer : target.layer plan.direction = .ok layer)
    (hlift : layer.Lift (Depicts plan plan.direction t.scaffold) node)
    (hrecur : ∀ {slot}, t.reserved.get? target = some slot → target.mayRecur = true) :
    Ends (close plan.direction target s.store.size node t)
      (fun handle u => u.opened = opened ∧
        Done plan Keeps opened s.scaffold u.scaffold target handle)
      fun _ u => Leaves plan opened s u ∧ Keeps u.store := by
  unfold close
  split
  next error _ =>
    refine ⟨⟨fails_of_advances hs ht hstep fun {key slot} hget => ?_, hleave⟩, hkept'⟩
    obtain ⟨hne, hget⟩ := Table.get?_erase_eq_some_iff.1 hget
    exact (List.mem_cons.1 (ht.scaffold.is_open hget)).resolve_left hne
  next arranged harrange =>
    have harrange' := Node.arrangeFor_eq_ok_iff.1 harrange
    obtain ⟨x, hx, hlift'⟩ := hlift.symm.arrange harrange'
    have hlayering : plan.layering target = some x := Plan.layering_eq_some hself hlayer hx
    have hsimilar : x.Similar (Depicts plan plan.direction t.scaffold) arranged :=
      .of_lift hlift'.symm
    have harranged : arranged.Arranged := Node.arranged_of_arrange harrange'
    cases hslot : t.reserved.get? target with
    | none =>
        have hdone := done_intern hkeeps ht hkept' hstep hslot hlayering hsimilar harranged
        have herase : (t.leave target).reserved = t.reserved := Table.erase_eq_self hslot
        simp only [herase]
        exact ⟨hleave, hdone.remember hkeeps hkept hunbuilt⟩
    | some slot =>
        have hreference : arranged.isByReference = true := by
          have hkind := (Node.kind_of_arrange harrange').trans hlift.kind_eq.symm
          rw [Node.isByReference, hkind]
          exact TypeDef.isByReference_of_mayRecur (hrecur hslot) hlayer
        have hdone := done_fill hkeeps hkept ht hkept' hstep hnew hslot hself hlayering hsimilar
          harranged hreference
        cases hsuper : superseding? (t.store.fill slot arranged) (t.reserved.erase target)
            s.store.size slot with
        | none =>
            simp only [leave, hsuper]
            exact ⟨hleave, hdone.remember hkeeps hkept hunbuilt⟩
        | some handle =>
            simp only [leave, hsuper]
            have holder := hdone.supersede hkeeps hs hkept hsuper
            exact ⟨hleave, holder.remember hkeeps hkept hunbuilt⟩

/-- What is below a type, when its failure closes the type. -/
theorem ends_below {α : Type} {action : EStateM Error Building α} {ok : α → Building → Prop}
    {error : Error → Building → Prop} :
    Ends (below target action s) ok error ↔
      Ends (action (s.enter target)) ok fun e t => error e (t.leave target) := by
  unfold below
  cases action (s.enter target) <;> rfl

/-- An action whose failure drops what it has added. -/
theorem ends_undoing {α : Type} {action : EStateM Error Building α} {ok : α → Building → Prop}
    {error : Error → Building → Prop} :
    Ends (undoing action s) ok error ↔ Ends (action s) ok fun e t =>
      error e { t with store := t.store.rollback s.store.size } := by
  unfold undoing
  cases action s <;> rfl

theorem undoing_eq_ok_iff {α : Type} {action : EStateM Error Building α} {a : α} :
    undoing action s = .ok a t ↔ action s = .ok a t := by
  unfold undoing
  cases action s <;> simp

/-- An action of a session still belongs to it when its failure drops what it has added, if that
is a way to fail. -/
theorem runs_undoing {α : Type} {S : Session Building} {action : EStateM Error Building α}
    {Result : α → Building → Prop}
    (hfails : ∀ t, S.Fails s t → S.Fails s { t with store := t.store.rollback s.store.size })
    (h : S.Runs s (action s) Result) : S.Runs s (undoing action s) Result :=
  ends_undoing.2 (Ends.imp h (fun _ _ hok => hok) fun _ t => hfails t)

/-- A build that has dropped what it has added has failed still. -/
theorem fails_rollback (hback : ∀ {before store : Store}, before.Regular → Keeps before →
      store.Regular → Keeps store → before.Extends store → Keeps (store.rollback before.size))
    (hs : (session plan Keeps opened).Valid s) (t : Building)
    (h : (session plan Keeps opened).Fails s t) :
    (session plan Keeps opened).Fails s { t with store := t.store.rollback s.store.size } where
  left := ⟨h.1.fails.rollback hs.1.valid, h.1.opened_eq⟩
  right := hback hs.1.valid.scaffold.regular hs.2 h.1.fails.regular h.2 h.1.fails.grown

theorem Records.enter (h : Records plan opened s) (target : TypeDef) :
    Records plan (openedBelow opened target) (s.enter target) where
  valid := by
    rw [scaffold_enter, openedBelow]
    split
    · exact h.valid.opening target
    · exact h.valid
  opened_eq := by rw [opened_enter, h.opened_eq]

theorem Records.valid_cons (h : Records plan (openedBelow opened target) t) :
    Valid plan (target :: opened) t.scaffold := by
  have hvalid := h.valid
  rw [openedBelow] at hvalid
  split at hvalid
  · exact hvalid
  · exact hvalid.opening target

/-- When building what is below a type fails, the type is no longer under construction. -/
theorem Leaves.leave (h : Leaves plan (openedBelow opened target) (s.enter target) t)
    (hopened : target ∉ opened) : Leaves plan opened s (t.leave target) where
  fails := by
    have hfails := h.fails
    rw [scaffold_enter] at hfails
    refine { hfails with is_open := fun {key slot} hget => ?_ }
    obtain ⟨hne, hget⟩ := Table.get?_erase_eq_some_iff.1 hget
    exact (eq_or_mem_of_mem_openedBelow (hfails.is_open hget)).resolve_left hne
  opened_eq := (congrArg (List.erase · target) h.opened_eq).trans (erase_openedBelow hopened)

/-- Whatever leads to a type leads to what is below it, and so does the type itself. -/
theorem path_below {child : TypeDef} (hbelow : plan.Below child target)
    (hpath : ∀ above ∈ opened, Relation.TransGen plan.Below target above) :
    ∀ above ∈ openedBelow opened target, Relation.TransGen plan.Below child above := by
  intro above habove
  rcases eq_or_mem_of_mem_openedBelow habove with rfl | hmem
  · exact .single hbelow
  · exact .head hbelow (hpath above hmem)

/-! ## What a build comes down to -/

/-- The build of a type goes by what the type stands for and by its layer. -/
theorem build_eq (htarget : plan.target type = .ok target) : build plan opened type = (do
    let state ← get
    match state.store.built.get? (plan.direction, target) with
    | some handle => return handle
    | none =>
      if target ∈ opened then slotFor target
      else if plan.providers.any (·.accepts target) then
        match target.layer plan.direction with
        | .error error => throw error
        | .ok layer => do
          let node ← below target (layer.traverse fun child _ =>
            undoing (build plan (openedBelow opened target) child))
          close plan.direction target state.store.size node
      else throw (.unsupportedType target)) := by
  conv =>
    lhs
    rw [build]
  split
  next htarget' => cases htarget'.symm.trans htarget
  next htarget' =>
    cases htarget'.symm.trans htarget
    refine bind_congr fun state => ?_
    cases state.store.built.get? (plan.direction, target) with
    | some handle => rfl
    | none =>
        by_cases hopened : target ∈ opened
        · simp only [dif_pos hopened, if_pos hopened]
        · simp only [dif_neg hopened, if_neg hopened]
          split
          next =>
            split
            next hlayer => rw [hlayer]
            next hlayer => rw [hlayer]; rfl
          next => rfl

/-- A name under which nothing is registered cannot be built. -/
theorem build_of_unknown {error : Error} (htarget : plan.target type = .error error) :
    build plan opened type = throw error := by
  rw [build]
  split
  next htarget' => cases htarget'.symm.trans htarget; rfl
  next htarget' => cases htarget'.symm.trans htarget

/-- A type that has been built has its handle. -/
theorem build_of_built {type : TypeDef} (htarget : plan.target type = .ok target)
    (hbuilt : s.store.built.get? (plan.direction, target) = some handle) :
    build plan opened type s = .ok handle s := by
  rw [build_eq htarget, run_get_bind, hbuilt]
  rfl

/-- An open type gets a slot. -/
theorem build_of_mem {type : TypeDef} (htarget : plan.target type = .ok target)
    (hbuilt : s.store.built.get? (plan.direction, target) = none) (hopened : target ∈ opened) :
    build plan opened type s = slotFor target s := by
  rw [build_eq htarget, run_get_bind]
  simp only [hbuilt, if_pos hopened]

/-- A type that is not open and has not been built is built from its layer. -/
theorem build_of_layer {type : TypeDef} {layer : Node Name TypeDef}
    (htarget : plan.target type = .ok target)
    (hbuilt : s.store.built.get? (plan.direction, target) = none) (hopened : target ∉ opened)
    (haccepts : plan.providers.any (·.accepts target) = true)
    (hlayer : target.layer plan.direction = .ok layer) :
    build plan opened type s = (do
      let node ← below target (layer.traverse fun child _ =>
        undoing (build plan (openedBelow opened target) child))
      close plan.direction target s.store.size node : EStateM Error Building Handle) s := by
  rw [build_eq htarget, run_get_bind]
  simp only [hbuilt, if_neg hopened, if_pos haccepts, hlayer]

/-- What holds however a build ends, by the ways in which it goes. -/
theorem ends_build {ok : Handle → Building → Prop} {error : Error → Building → Prop}
    (hfails : ∀ problem, error problem s)
    (hbuilt : ∀ target handle, plan.target type = .ok target →
      s.store.built.get? (plan.direction, target) = some handle → ok handle s)
    (hopen : ∀ target, plan.target type = .ok target →
      s.store.built.get? (plan.direction, target) = none → target ∈ opened →
        Ends (slotFor target s) ok error)
    (hlayer : ∀ target layer, plan.target type = .ok target →
      s.store.built.get? (plan.direction, target) = none → target ∉ opened →
        plan.providers.any (·.accepts target) = true → target.layer plan.direction = .ok layer →
          Ends (layer.traverse
              (fun child _ => undoing (build plan (openedBelow opened target) child))
              (s.enter target))
            (fun node t => Ends (close plan.direction target s.store.size node t) ok error)
            fun problem t => error problem (t.leave target)) :
    Ends (build plan opened type s) ok error := by
  cases htarget : plan.target type with
  | error problem =>
      rw [build_of_unknown htarget]
      exact hfails problem
  | ok target =>
      rw [build_eq htarget, run_get_bind]
      cases hget : s.store.built.get? (plan.direction, target) with
      | some handle => exact hbuilt target handle htarget hget
      | none =>
          by_cases hopened : target ∈ opened
          · simp only [if_pos hopened]
            exact hopen target htarget hget hopened
          simp only [if_neg hopened]
          split
          next haccepts =>
            cases hlayer' : target.layer plan.direction with
            | error problem => exact hfails problem
            | ok layer =>
                exact ends_bind.2 (ends_below.2
                  (hlayer target layer htarget hget hopened haccepts hlayer'))
          next => exact hfails _

/-! ## Building a type -/

/-- What leads to the graph of what a type stands for leads to that of the type. -/
theorem depicts_of_target (htarget : plan.target type = .ok target)
    (h : Depicts plan plan.direction t.scaffold target handle) :
    Depicts plan plan.direction t.scaffold type handle := by
  apply Alike.congr_left h (Plan.layering_eq_of_target htarget)
  rintro ⟨key, ⟨-, hkey⟩, hget⟩
  cases (Plan.target_target htarget).symm.trans hkey
  exact ⟨target, ⟨rfl, htarget⟩, hget⟩

/-- Every build keeps the scaffold valid, and what it returns leads to the graph of
the type.  What is under construction already leads to the type, so a type that is met
again lies below itself. -/
theorem build_runs (plan : Plan) (hkeeps : Maintains plan.direction Keeps)
    (opened : List TypeDef) (type : TypeDef)
    (hpath : ∀ target, plan.target type = .ok target → ∀ above ∈ opened,
      Relation.TransGen plan.Below target above)
    (s : Building) (hs : Records plan opened s ∧ Keeps s.store) :
    (session plan Keeps opened).Runs s (build plan opened type s) fun handle t =>
      Depicts plan plan.direction t.scaffold type handle := by
  refine ends_build (fun _ => ⟨⟨fails_refl hs.1.valid, hs.1.opened_eq⟩, hs.2⟩)
    (fun target handle htarget hbuilt => ?_) (fun target htarget _ hopened => ?_)
    fun target layer htarget hbuilt hopened _ hlayer => ?_
  · exact ⟨hs, .refl _, depicts_of_target htarget (hs.1.valid.built hbuilt)⟩
  · exact slotFor_runs hkeeps hs hopened htarget (hpath target htarget target hopened)
  · have hself := Plan.target_target htarget
    have henter : Records plan (openedBelow opened target) (s.enter target) ∧
        Keeps (s.enter target).store :=
      ⟨hs.1.enter target, (store_enter s target).symm ▸ hs.2⟩
    refine Ends.imp (Session.runs_traverse (S := session plan Keeps (openedBelow opened target))
      (R := fun child handle t => Depicts plan plan.direction t.scaffold child handle)
      (fun _ _ _ _ _ hstep _ hdepicts => hdepicts.advance hstep)
      (fun child hchild t ht =>
        have hsmaller := Plan.child_lt htarget hopened hlayer hchild
        runs_undoing (fails_rollback hkeeps.rollback ht) <|
          build_runs plan hkeeps _ child (fun below hbelow => path_below
            ⟨target, layer, child, hself, hlayer, hchild, hbelow⟩ (hpath target htarget))
            t ht) henter)
      ?_ fun error t hleaves => ⟨Leaves.leave hleaves.1 hopened, hleaves.2⟩
    rintro node t ⟨⟨ht, hkept⟩, hstep, hlift⟩
    have hstep' : s.scaffold.Advances t.scaffold := scaffold_enter s target ▸ hstep
    have hleave : t.opened.erase target = opened :=
      (congrArg (List.erase · target) ht.opened_eq).trans (erase_openedBelow hopened)
    refine Ends.imp (close_ends hkeeps hs.2 hkept hbuilt hs.1.valid ht.valid_cons hleave
      hstep' (hs.1.valid.scaffold.not_reserved hopened) hself hlayer hlift
      fun hslot => ?_) ?_ fun _ _ hleaves => hleaves
    · by_contra hrecur
      have hmem := ht.valid.scaffold.is_open hslot
      rw [openedBelow, if_neg hrecur] at hmem
      exact hopened hmem
    · rintro handle u ⟨hopened', hdone⟩
      exact ⟨⟨⟨hdone.valid, hopened'⟩, hdone.kept⟩, hdone.step,
        depicts_of_target htarget hdone.depicts⟩
termination_by (unseen plan.types opened, sizeOf type)
decreasing_by exact hsmaller

/-! ## Builds that succeed -/

/-- Builds that do not fail. -/
def succeeding : Session Building where
  Valid _ := True
  Step _ _ := True
  Fails _ _ := False
  refl _ := trivial
  trans _ _ := trivial
  fails_of_step _ _ _ h := h

/-- Nothing stands against building the type if the types below it are good: what it stands for has
a provider and a layer, and the names in the layer are distinct. -/
def Grants (plan : Plan) (good : TypeDef → Prop) (type : TypeDef) : Prop :=
  ∃ target layer arranged, plan.target type = .ok target ∧
    plan.providers.any (·.accepts target) = true ∧ target.layer plan.direction = .ok layer ∧
      layer.arrange = .ok arranged ∧ ∀ child ∈ layer.children, good child

/-- A node with distinct names can be stored. -/
theorem close_succeeds {R : TypeDef → Handle → Prop} {layer x : Node Name TypeDef}
    {node : Node Name Handle} {mark : Handle} (direction : Direction)
    (harrange : layer.arrange = .ok x) (hlift : layer.Lift R node) :
    Ends (close direction target mark node t) (fun _ _ => True) fun _ _ => False := by
  obtain ⟨arranged, harranged, -⟩ := hlift.arrange harrange
  unfold close
  rw [Node.arrangeFor_eq_ok_iff.2 harranged]
  dsimp only
  split
  · trivial
  · split <;> trivial

/-- A build succeeds if nothing stands against building any of the types below. -/
theorem build_succeeds (plan : Plan) {good : TypeDef → Prop}
    (hgood : ∀ type, good type → Grants plan good type) (opened : List TypeDef) (type : TypeDef)
    (htype : good type) (s : Building) :
    succeeding.Runs s (build plan opened type s) fun _ _ => True := by
  obtain ⟨target, layer, x, htarget, haccepts, hlayer, harrange, hchildren⟩ := hgood type htype
  cases hbuilt : s.store.built.get? (plan.direction, target) with
  | some found =>
      rw [build_of_built htarget hbuilt]
      exact ⟨trivial, trivial, trivial⟩
  | none =>
      by_cases hopened : target ∈ opened
      · rw [build_of_mem htarget hbuilt hopened]
        unfold slotFor
        split <;> exact ⟨trivial, trivial, trivial⟩
      · rw [build_of_layer htarget hbuilt hopened haccepts hlayer]
        refine ends_bind.2 (ends_below.2 (Ends.imp (Session.runs_traverse (S := succeeding)
          (R := fun _ _ _ => True) (fun _ _ _ _ _ _ _ h => h) (fun child hchild t _ => ?_) trivial)
          ?_ fun _ _ h => h))
        · have hsmaller := Plan.child_lt htarget hopened hlayer hchild
          exact runs_undoing (fun _ h => h)
            (build_succeeds plan hgood _ child (hchildren child hchild) t)
        · rintro node t ⟨-, -, hlift⟩
          exact Ends.imp (close_succeeds plan.direction harrange hlift)
            (fun _ _ _ => ⟨trivial, trivial, trivial⟩) fun _ _ h => h
termination_by (unseen plan.types opened, sizeOf type)
decreasing_by exact hsmaller

end WireSchema.Building
