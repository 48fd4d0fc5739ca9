/-
# What a markup is resolved to

The induction follows the recursion of `resolveRef` and `resolveMarkup`, over all
sessions at once.
-/

import WireSchema.Proofs.Document.Resolve

namespace WireSchema.Importing

open Store (Scaffold)
open MonadExcept (ofExcept)

variable {source : DocumentSource} {readable : Prop} {opened : List String} {s t : Importing}
variable {id : String} {slot handle : Handle} {markup : Markup String}

/-- What is in a node of parts is what the parts are about. -/
theorem mem_children_of_assemble {form : ElementForm} {direction : Direction} {κ : Type}
    {parts : List (Input Name κ)} {layer : Node Name κ}
    (h : form.assemble direction parts = .ok layer) {part : Input Name κ} (hpart : part ∈ parts) :
    part.target ∈ layer.children := by
  have hperm := Node.perm_children_of_arrange (ElementForm.assemble_eq_ok_iff.1 h)
  rw [ElementForm.children_node] at hperm
  exact hperm.mem_iff.2 (List.mem_map_of_mem hpart)

/-- An enumeration element is closed as soon as its names are known. -/
theorem enumeration_runs {element : Element} (hs : Reading source opened s)
    (hnew : s.reserved.get? id = none) (hnone : s.resolved.get? id = none) (hopened : id ∉ opened)
    (helement : source.element? id = some element)
    (hcontent : ElementContent.ofElement source.direction element = .ok .enumeration)
    (hlayer : readable → ∃ layer, source.elementLayer element = .ok layer) :
    (session source readable opened).Runs s
      ((do
        let node ← ofExcept element.toEnumeration
        close id node : EStateM Error Importing Handle) s)
      fun handle t => Depicts source t.scaffold (.ref id) handle := by
  have henumeration : readable →
      ∃ node : Node Name Handle, element.toEnumeration = .ok node := fun h => by
    obtain ⟨layer, hlayer⟩ := hlayer h
    rw [DocumentSource.elementLayer_of_enumeration hcontent] at hlayer
    obtain ⟨members, -, -, hnode⟩ := Element.toEnumeration_eq_ok (β := Handle) hlayer
    exact ⟨_, hnode⟩
  apply (ofExcept_runs hs henumeration).bind hs
  rintro node _ - - ⟨rfl, hnode⟩
  obtain ⟨members, rfl, hincreasing, hmembers⟩ :=
    Element.toEnumeration_eq_ok (β := Markup String) hnode
  have hlayer := (DocumentSource.elementLayer_of_enumeration hcontent).trans hmembers
  exact close_runs (hs.opening hnone) (.refl _) hnew hopened
    (DocumentSource.layering_ref_eq_some helement hlayer) ⟨rfl, .nil⟩ hincreasing rfl

/-- An element with parts is closed when its parts have been read. -/
theorem assembled_ends {element : Element} {form : ElementForm} {inputs : List (Input Name Handle)}
    {parts : List (Input Name (Markup String))}
    (ht : Reading source (id :: opened) t)
    (hstep : s.scaffold.Advances t.scaffold) (hnew : s.reserved.get? id = none)
    (hopened : id ∉ opened) (helement : source.element? id = some element)
    (hcontent : ElementContent.ofElement source.direction element = .ok (.parts form))
    (hparts : (element.childrenNamed form.partName).mapM (source.part form) = .ok parts)
    (hinputs : List.Forall₂ (Node.SameInput (Depicts source t.scaffold)) parts inputs)
    (hlayer : readable → ∃ layer, source.elementLayer element = .ok layer) :
    Ends ((do
        let node ← ofExcept (form.assemble source.direction inputs)
        close id node : EStateM Error Importing Handle) t)
      (fun handle u => Reading source opened u ∧ s.scaffold.Advances u.scaffold ∧
        Depicts source u.scaffold (.ref id) handle) fun _ _ => ¬ readable := by
  have hlift := form.lift_node source.direction hinputs
  have hassemble : readable → ∃ node, form.assemble source.direction inputs = .ok node :=
    fun h => by
      obtain ⟨layer, hlayer⟩ := hlayer h
      rw [DocumentSource.elementLayer_of_parts hcontent hparts,
        ElementForm.assemble_eq_ok_iff] at hlayer
      obtain ⟨node, hnode, -⟩ := hlift.arrange hlayer
      exact ⟨node, ElementForm.assemble_eq_ok_iff.2 hnode⟩
  refine ends_bind.2 (Ends.imp (ofExcept_runs ht hassemble) ?_ fun _ _ hfails => hfails)
  rintro node _ ⟨-, -, rfl, hnode⟩
  have harrange := ElementForm.assemble_eq_ok_iff.1 hnode
  obtain ⟨layer, hlayer', hlift'⟩ := hlift.symm.arrange harrange
  have hreference : node.isByReference = true := by
    rw [Node.isByReference, Node.kind_of_arrange harrange]
    exact form.isByReference_node source.direction inputs
  refine close_runs ht hstep hnew hopened (DocumentSource.layering_ref_eq_some helement ?_)
    hlift'.symm (Node.arranged_of_arrange harrange) hreference
  rw [DocumentSource.elementLayer_of_parts hcontent hparts]
  exact ElementForm.assemble_eq_ok_iff.2 hlayer'

/-- A nullable is refused if what is below it is nullable. -/
theorem nullable_runs {inner : Markup String} {target : Handle} {error : Error}
    (hs : Reading source opened s) (htarget : Depicts source s.scaffold inner target)
    (hsingle : readable → ∀ layer, source.layering inner = some layer →
      ∀ direction below, layer ≠ .nullable direction below) :
    (session source readable opened).Runs s
      ((do
        if ← isNullable target then throw error
        else Importing.intern (.nullable source.direction target) :
          EStateM Error Importing Handle) s)
      fun handle t => Depicts source t.scaffold (.nullable inner) handle := by
  apply ends_bind.2
  unfold isNullable
  split
  next direction below hnode =>
    intro hreadable
    rcases htarget.unfold with ⟨id, -, hslot⟩ | ⟨x, y, hx, hy, hsimilar⟩
    · cases hnode.symm.trans (hs.scaffold.pending hslot)
    · cases hnode.symm.trans hy
      have hkind : x.kind = .nullable direction := hsimilar.kind_eq
      cases x with
      | nullable direction' below' => exact hsingle hreadable _ hx _ _ rfl
      | _ => cases hkind
  next hnot =>
    refine intern_runs hs rfl ⟨rfl, .cons htarget .nil⟩ rfl rfl fun heq hnode => ?_
    cases heq
    exact hnot _ _ hnode

mutual

/-- What a reference is resolved to leads to the graph of the element that it names. -/
theorem resolveRef_runs (source : DocumentSource) (readable : Prop) (opened : List String)
    (id : String) (hgood : readable → source.Readable (.ref id)) (s : Importing)
    (hs : Reading source opened s) :
    (session source readable opened).Runs s (resolveRef source opened id s) fun handle t =>
      Depicts source t.scaffold (.ref id) handle := by
  generalize hresolve : resolveRef source opened id = run
  rw [resolveRef] at hresolve
  split at hresolve
  next hnone =>
    subst hresolve
    intro hreadable
    obtain ⟨element, -, helement, -⟩ := DocumentSource.exists_element_of_readable (hgood hreadable)
    rw [hnone] at helement
    cases helement
  next element helement =>
    have hlayer : readable → ∃ layer, source.elementLayer element = .ok layer ∧
        ∀ child ∈ layer.children, source.Readable child := fun h => by
      obtain ⟨element', layer, helement', hlayer⟩ :=
        DocumentSource.exists_element_of_readable (hgood h)
      cases helement.symm.trans helement'
      exact ⟨layer, hlayer⟩
    obtain ⟨next, hnext, hrun⟩ := exists_run_of_get hresolve s
    rw [hrun]
    cases hresolved : s.resolved.get? id with
    | some handle =>
        rw [hresolved] at hnext
        subst hnext
        exact ⟨hs, .refl _, hs.resolved hresolved⟩
    | none =>
        rw [hresolved] at hnext
        by_cases hopened : id ∈ opened
        · simp only [dif_pos hopened] at hnext
          subst hnext
          exact slotFor_runs hs hopened
        simp only [dif_neg hopened] at hnext
        subst hnext
        have hnew := hs.scaffold.not_reserved hopened
        have hcontent : readable →
            ∃ content, ElementContent.ofElement source.direction element = .ok content :=
          fun h => by
            obtain ⟨layer, hlayer, -⟩ := hlayer h
            exact DocumentSource.exists_content_of_elementLayer hlayer
        apply (ofExcept_runs hs hcontent).bind hs
        rintro content _ - - ⟨rfl, hcontent⟩
        cases content with
        | enumeration =>
            exact enumeration_runs hs hnew hresolved hopened helement hcontent fun h =>
              (hlayer h).imp fun _ => And.left
        | parts form =>
            have hparts : readable → ∃ parts,
                (element.childrenNamed form.partName).mapM (source.part form) = .ok parts ∧
                  ∀ part ∈ parts, source.Readable part.target := fun h => by
              obtain ⟨layer, hlayer, hchildren⟩ := hlayer h
              obtain ⟨parts, hparts, hassemble⟩ :=
                DocumentSource.exists_parts_of_elementLayer hcontent hlayer
              refine ⟨parts, hparts, fun part hpart => hchildren _ ?_⟩
              exact mem_children_of_assemble hassemble hpart
            have hsmaller := unseen_cons_lt
              (DocumentSource.mem_ids_of_element? helement) hopened
            have hmarkup : ∀ markup u, (readable → source.Readable markup) →
                Reading source (id :: opened) u →
                  (session source readable (id :: opened)).Runs u
                    (resolveMarkup source (id :: opened) markup u)
                    fun handle v => Depicts source v.scaffold markup handle :=
              fun markup u hgood hu =>
                resolveMarkup_runs source readable (id :: opened) markup hgood u hu
            refine ends_bind.2 (Ends.imp (parts_runs hmarkup hparts (hs.opening hresolved)) ?_
              fun _ _ hfails => hfails)
            rintro inputs u ⟨hu, hstep, parts, hparts', hinputs⟩
            exact assembled_ends hu hstep hnew hopened helement hcontent hparts' hinputs fun h =>
              (hlayer h).imp fun _ => And.left
termination_by (unseen source.ids opened, 0)
decreasing_by exact Prod.Lex.left _ _ hsmaller

/-- What a markup is resolved to leads to the graph that it describes. -/
theorem resolveMarkup_runs (source : DocumentSource) (readable : Prop) (opened : List String)
    (markup : Markup String) (hgood : readable → source.Readable markup) (s : Importing)
    (hs : Reading source opened s) :
    (session source readable opened).Runs s (resolveMarkup source opened markup s) fun handle t =>
      Depicts source t.scaffold markup handle := by
  cases markup with
  | ref id =>
      rw [resolveMarkup]
      exact resolveRef_runs source readable opened id hgood s hs
  | primitive type =>
      rw [resolveMarkup]
      exact intern_runs hs rfl ⟨rfl, .nil⟩ rfl rfl nofun
  | empty =>
      rw [resolveMarkup]
      exact intern_runs hs rfl ⟨rfl, .nil⟩ rfl rfl nofun
  | nullable inner =>
      rw [resolveMarkup]
      have hinner : readable → source.Readable inner := fun h =>
        source.closed_readable.child (hgood h) rfl List.mem_cons_self
      refine (resolveMarkup_runs source readable opened inner hinner s hs).bind hs
        fun target t ht _ htarget => ?_
      exact nullable_runs ht htarget fun h layer hlayer =>
        source.closed_readable.single (hgood h) hlayer
  | list item =>
      rw [resolveMarkup]
      have hitem : readable → source.Readable item := fun h =>
        source.closed_readable.child (hgood h) rfl List.mem_cons_self
      refine (resolveMarkup_runs source readable opened item hitem s hs).bind hs
        fun target t ht _ htarget => ?_
      exact intern_runs ht rfl ⟨rfl, .cons htarget .nil⟩ rfl rfl nofun
  | dictionary key value =>
      rw [resolveMarkup]
      have hkey : readable → source.Readable key := fun h =>
        source.closed_readable.child (hgood h) rfl List.mem_cons_self
      have hvalue : readable → source.Readable value := fun h =>
        source.closed_readable.child (hgood h) rfl (List.mem_cons_of_mem _ List.mem_cons_self)
      refine (resolveMarkup_runs source readable opened key hkey s hs).bind hs
        fun key' t ht _ hkey' => ?_
      refine (resolveMarkup_runs source readable opened value hvalue t ht).bind ht
        fun value' u hu hstep hvalue' => ?_
      exact intern_runs hu rfl ⟨rfl, .cons (hkey'.advance hstep) (.cons hvalue' .nil)⟩ rfl rfl nofun
termination_by (unseen source.ids opened, 1 + sizeOf markup)

end

end WireSchema.Importing
