/-
# What a reader accepts, node by node

The rules of compatibility said without an order of evaluation: which writers a
reading node accepts, given which pairs of nodes below are compatible.  The steps
that the check takes for a pair of arranged nodes ask for exactly that
(`hold_rule_iff`).
-/

import WireSchema.Compatibility.Rule
import WireSchema.Proofs.Node.Arranged

namespace WireSchema.Compatibility

variable {strict : Bool} {R : Handle → Handle → Prop}

/-- What is asked of the fields of a record that reads another. -/
structure FieldsAccept (strict : Bool) (R : Handle → Handle → Prop)
    (reads : List (Input Name Handle)) (writes : List (Member Name Handle)) : Prop where
  /-- Fields of one name are compatible. -/
  shared : ∀ read ∈ reads, ∀ write ∈ writes, read.name.folded = write.name.folded →
    R read.target write.target
  /-- A field that only the reader has is optional, and the mode is lenient. -/
  unwritten : ∀ read ∈ reads, (∀ write ∈ writes, read.name.folded ≠ write.name.folded) →
    strict = false ∧ read.required = false
  /-- In strict mode the reader has every field of the writer. -/
  known : strict = true → ∀ write ∈ writes, ∃ read ∈ reads,
    read.name.folded = write.name.folded

/-- The reader accepts the writer, whose handle is `write`, when the pairs of nodes in
`R` are compatible. -/
inductive Accepts (strict : Bool) (R : Handle → Handle → Prop) (write : Handle) :
    Node Name Handle → Node Name Handle → Prop
  | primitive (type : Primitive) : Accepts strict R write (.primitive type) (.primitive type)
  | wider {type type' : Primitive} : strict = false → type'.widensTo type = true →
      Accepts strict R write (.primitive type) (.primitive type')
  /-- The members are the same up to case. -/
  | sameMembers {members members' : List Name} :
      (∀ name, name ∈ members.map Name.folded ↔ name ∈ members'.map Name.folded) →
        Accepts strict R write (.enumeration members) (.enumeration members')
  /-- The reader has every member of the writer, up to case. -/
  | moreMembers {members members' : List Name} : strict = false →
      (∀ name ∈ members'.map Name.folded, name ∈ members.map Name.folded) →
        Accepts strict R write (.enumeration members) (.enumeration members')
  | empty : Accepts strict R write .empty .empty
  | emptyOfRecord {writes : List (Member Name Handle)} : strict = false →
      Accepts strict R write .empty (.recordWrite writes)
  | nullable {inner inner' : Handle} : R inner inner' →
      Accepts strict R write (.nullable .read inner) (.nullable .write inner')
  /-- What is always there can be read where nothing need be. -/
  | present {inner : Handle} {writer : Node Name Handle} : strict = false →
      writer.kind ≠ .nullable .write → R inner write →
        Accepts strict R write (.nullable .read inner) writer
  | list {item item' : Handle} : R item item' →
      Accepts strict R write (.list .read item) (.list .write item')
  | dictionary {key value key' value' : Handle} : R key key' → R value value' →
      Accepts strict R write (.dictionary .read key value) (.dictionary .write key' value')
  | record {reads : List (Input Name Handle)} {writes : List (Member Name Handle)} :
      FieldsAccept strict R reads writes →
        Accepts strict R write (.recordRead reads) (.recordWrite writes)
  | recordOfEmpty {reads : List (Input Name Handle)} : strict = false →
      (∀ read ∈ reads, read.required = false) → Accepts strict R write (.recordRead reads) .empty
  /-- The reader has every member of the writer, and in strict mode no other. -/
  | union {members members' : List (Member Name Handle)} :
      (∀ write ∈ members', ∃ read ∈ members, read.name.folded = write.name.folded ∧
        R read.target write.target) →
      (strict = true → ∀ read ∈ members, ∃ write ∈ members',
        read.name.folded = write.name.folded) →
        Accepts strict R write (.union .read members) (.union .write members')

/-- What a step asks for, when the pairs in `R` are compatible. -/
def Step.Holds (R : Handle → Handle → Prop) : Step → Prop
  | .compare _ read write => R read write
  | .reject _ => False

/-- All that the steps ask for. -/
def Hold (R : Handle → Handle → Prop) (steps : List Step) : Prop :=
  ∀ step ∈ steps, step.Holds R

theorem hold_nil : Hold R [] :=
  nofun

theorem not_hold_reject {reason : Reason} : ¬ Hold R [.reject reason] :=
  fun h => h _ List.mem_cons_self

theorem hold_compare_cons {segment? : Option Segment} {read write : Handle} {steps : List Step} :
    Hold R (.compare segment? read write :: steps) ↔ R read write ∧ Hold R steps :=
  List.forall_mem_cons

theorem hold_compare {segment? : Option Segment} {read write : Handle} :
    Hold R [.compare segment? read write] ↔ R read write := by
  rw [hold_compare_cons]
  exact and_iff_left hold_nil

/-- A node without names is left with a plain answer. -/
theorem hold_ite {accepted : Bool} {reason : Reason} :
    Hold R (if accepted then [] else [.reject reason]) ↔ accepted = true := by
  cases accepted
  · exact iff_of_false not_hold_reject Bool.false_ne_true
  · exact iff_of_true hold_nil rfl

/-! ## Fields -/

namespace FieldsAccept

variable {read : Input Name Handle} {write : Member Name Handle}
variable {reads : List (Input Name Handle)} {writes : List (Member Name Handle)}

theorem nil_nil : FieldsAccept strict R [] [] :=
  ⟨nofun, nofun, nofun⟩

theorem nil_cons_iff : FieldsAccept strict R [] (write :: writes) ↔ strict = false := by
  constructor
  · intro h
    by_contra hstrict
    obtain ⟨_, hmem, -⟩ := h.known (Bool.eq_true_of_not_eq_false hstrict) write List.mem_cons_self
    cases hmem
  · rintro rfl
    exact ⟨nofun, nofun, nofun⟩

/-- A field that the writer does not have can be left out if it may be missing. -/
theorem cons_left_iff (hunwritten : ∀ write ∈ writes, read.name.folded ≠ write.name.folded) :
    FieldsAccept strict R (read :: reads) writes ↔
      (strict = false ∧ read.required = false) ∧ FieldsAccept strict R reads writes := by
  constructor
  · intro h
    refine ⟨h.unwritten read List.mem_cons_self hunwritten,
      fun other hother => h.shared other (List.mem_cons_of_mem _ hother),
      fun other hother => h.unwritten other (List.mem_cons_of_mem _ hother),
      fun hstrict write hwrite => ?_⟩
    obtain ⟨other, hother, heq⟩ := h.known hstrict write hwrite
    rcases List.mem_cons.1 hother with rfl | hother
    · exact absurd heq (hunwritten write hwrite)
    · exact ⟨other, hother, heq⟩
  · rintro ⟨hread, h⟩
    refine ⟨fun other hother write hwrite heq => ?_, fun other hother hnone => ?_,
      fun hstrict => absurd hstrict (by rw [hread.1]; exact Bool.false_ne_true)⟩
    · rcases List.mem_cons.1 hother with rfl | hother
      · exact absurd heq (hunwritten write hwrite)
      · exact h.shared other hother write hwrite heq
    · rcases List.mem_cons.1 hother with rfl | hother
      · exact hread
      · exact h.unwritten other hother hnone

/-- A field that the reader does not have can be left out in lenient mode. -/
theorem cons_right_iff (hunknown : ∀ read ∈ reads, read.name.folded ≠ write.name.folded) :
    FieldsAccept strict R reads (write :: writes) ↔
      strict = false ∧ FieldsAccept strict R reads writes := by
  constructor
  · intro h
    have hlenient : strict = false := by
      by_contra hstrict
      obtain ⟨read, hread, heq⟩ :=
        h.known (Bool.eq_true_of_not_eq_false hstrict) write List.mem_cons_self
      exact hunknown read hread heq
    refine ⟨hlenient, fun read hread other hother => h.shared read hread other
      (List.mem_cons_of_mem _ hother), fun read hread hnone => h.unwritten read hread ?_,
      fun hstrict => absurd hstrict (by rw [hlenient]; exact Bool.false_ne_true)⟩
    exact List.forall_mem_cons.2 ⟨hunknown read hread, hnone⟩
  · rintro ⟨hlenient, h⟩
    refine ⟨fun read hread other hother heq => ?_, fun read hread hnone => ?_,
      fun hstrict => absurd hstrict (by rw [hlenient]; exact Bool.false_ne_true)⟩
    · rcases List.mem_cons.1 hother with rfl | hother
      · exact absurd heq (hunknown read hread)
      · exact h.shared read hread other hother heq
    · exact h.unwritten read hread fun other hother => hnone other (List.mem_cons_of_mem _ hother)

/-- Fields of one name at the head are compared with each other alone. -/
theorem cons_cons_iff (heq : read.name.folded = write.name.folded)
    (hread : ∀ other ∈ writes, read.name.folded ≠ other.name.folded)
    (hwrite : ∀ other ∈ reads, other.name.folded ≠ write.name.folded) :
    FieldsAccept strict R (read :: reads) (write :: writes) ↔
      R read.target write.target ∧ FieldsAccept strict R reads writes := by
  constructor
  · intro h
    refine ⟨h.shared read List.mem_cons_self write List.mem_cons_self heq,
      fun r hr w hw => h.shared r (List.mem_cons_of_mem _ hr) w (List.mem_cons_of_mem _ hw),
      fun r hr hnone => h.unwritten r (List.mem_cons_of_mem _ hr) ?_, fun hstrict w hw => ?_⟩
    · exact List.forall_mem_cons.2 ⟨hwrite r hr, hnone⟩
    · obtain ⟨r, hr, hrw⟩ := h.known hstrict w (List.mem_cons_of_mem _ hw)
      rcases List.mem_cons.1 hr with rfl | hr
      · exact absurd hrw (hread w hw)
      · exact ⟨r, hr, hrw⟩
  · rintro ⟨hR, h⟩
    refine ⟨fun r hr w hw hrw => ?_, fun r hr hnone => ?_, fun hstrict w hw => ?_⟩
    · rcases List.mem_cons.1 hr with rfl | hr <;> rcases List.mem_cons.1 hw with rfl | hw
      · exact hR
      · exact absurd hrw (hread w hw)
      · exact absurd hrw (hwrite r hr)
      · exact h.shared r hr w hw hrw
    · rcases List.mem_cons.1 hr with rfl | hr
      · exact absurd heq (hnone write List.mem_cons_self)
      · exact h.unwritten r hr fun w hw => hnone w (List.mem_cons_of_mem _ hw)
    · rcases List.mem_cons.1 hw with rfl | hw
      · exact ⟨read, List.mem_cons_self, heq⟩
      · obtain ⟨r, hr, hrw⟩ := h.known hstrict w hw
        exact ⟨r, List.mem_cons_of_mem _ hr, hrw⟩

end FieldsAccept

/-- A name that comes before another comes before all that follow it. -/
theorem ne_of_lt_head {α : Type} {nameOf : α → Name} {items : List α} {item : α} {text : String}
    (h : Name.Increasing ((item :: items).map nameOf)) (hlt : text < (nameOf item).folded) :
    ∀ other ∈ item :: items, text ≠ (nameOf other).folded := by
  intro other hother
  rcases List.mem_cons.1 hother with rfl | hother
  · exact ne_of_lt hlt
  · have hafter := List.rel_of_pairwise_cons h (List.mem_map_of_mem hother)
    exact ne_of_lt (lt_trans hlt hafter)

/-- The name at the head of an increasing list is not met again. -/
theorem ne_of_mem_tail {α : Type} {nameOf : α → Name} {items : List α} {item : α}
    (h : Name.Increasing ((item :: items).map nameOf)) :
    ∀ other ∈ items, (nameOf item).folded ≠ (nameOf other).folded :=
  fun _ hother => ne_of_lt (List.rel_of_pairwise_cons h (List.mem_map_of_mem hother))

/-- Going through both lists of fields in the order of names finds every field that both
have, and every one that only one of them has. -/
theorem hold_fieldSteps_iff {reads : List (Input Name Handle)} {writes : List (Member Name Handle)}
    (hreads : Name.Increasing (reads.map (·.name)))
    (hwrites : Name.Increasing (writes.map (·.name))) :
    Hold R (fieldSteps strict reads writes) ↔ FieldsAccept strict R reads writes := by
  fun_induction fieldSteps strict reads writes with
  | case1 => exact iff_of_true hold_nil FieldsAccept.nil_nil
  | case2 write writes hstrict =>
      rw [FieldsAccept.nil_cons_iff]
      exact iff_of_false not_hold_reject (by simp [hstrict])
  | case3 write writes hlenient =>
      rw [FieldsAccept.nil_cons_iff]
      exact iff_of_true hold_nil (Bool.eq_false_of_not_eq_true hlenient)
  | case4 read reads hneeded =>
      rw [FieldsAccept.cons_left_iff (List.forall_mem_nil _)]
      apply iff_of_false not_hold_reject
      intro h
      simp [h.1.1, h.1.2] at hneeded
  | case5 read reads hoptional ih =>
      rw [FieldsAccept.cons_left_iff (List.forall_mem_nil _), ih hreads.tail hwrites]
      simp only [Bool.or_eq_true, not_or, Bool.not_eq_true] at hoptional
      exact (and_iff_right hoptional).symm
  | case6 read reads write writes hcompare hstrict =>
      have hunknown := ne_of_lt_head hreads (Name.lt_of_compare hcompare)
      rw [FieldsAccept.cons_right_iff fun other hother => (hunknown other hother).symm]
      exact iff_of_false not_hold_reject (by simp [hstrict])
  | case7 read reads write writes hcompare hlenient ih =>
      have hunknown := ne_of_lt_head hreads (Name.lt_of_compare hcompare)
      rw [FieldsAccept.cons_right_iff fun other hother => (hunknown other hother).symm,
        ih hreads hwrites.tail]
      exact (and_iff_right (Bool.eq_false_of_not_eq_true hlenient)).symm
  | case8 read reads write writes hcompare ih =>
      have heq := (Name.folded_eq_of_compare hcompare).symm
      have hread := fun other hother => heq ▸ ne_of_mem_tail hwrites other hother
      have hwrite := fun other hother => heq ▸ (ne_of_mem_tail hreads other hother).symm
      rw [FieldsAccept.cons_cons_iff heq hread hwrite, hold_compare_cons,
        ih hreads.tail hwrites.tail]
  | case9 read reads write writes hcompare hneeded =>
      have hunwritten := ne_of_lt_head hwrites (Name.gt_of_compare hcompare)
      rw [FieldsAccept.cons_left_iff hunwritten]
      apply iff_of_false not_hold_reject
      intro h
      simp [h.1.1, h.1.2] at hneeded
  | case10 read reads write writes hcompare hoptional ih =>
      have hunwritten := ne_of_lt_head hwrites (Name.gt_of_compare hcompare)
      rw [FieldsAccept.cons_left_iff hunwritten, ih hreads.tail hwrites]
      simp only [Bool.or_eq_true, not_or, Bool.not_eq_true] at hoptional
      exact (and_iff_right hoptional).symm

/-- A record reads the empty type when it needs nothing. -/
theorem hold_emptySteps_iff {reads : List (Input Name Handle)} :
    Hold R (emptySteps strict reads) ↔
      strict = false ∧ ∀ read ∈ reads, read.required = false := by
  rw [emptySteps]
  cases strict with
  | true => exact iff_of_false not_hold_reject (fun h => Bool.noConfusion h.1)
  | false =>
      rw [if_neg Bool.false_ne_true, eq_self_iff_true, true_and]
      cases hfind : reads.find? fun field => field.required with
      | none =>
          apply iff_of_true hold_nil
          intro read hread
          exact Bool.eq_false_of_not_eq_true (List.find?_eq_none.1 hfind read hread)
      | some read =>
          apply iff_of_false not_hold_reject
          intro h
          have hrequired := List.find?_some hfind
          rw [h read (List.mem_of_find?_eq_some hfind)] at hrequired
          cases hrequired

/-! ## Members -/

section Members

variable {members members' : List (Member Name Handle)} {member : Member Name Handle} {name : Name}

theorem mem_of_member? (h : member? members name = some member) :
    member ∈ members ∧ member.name.folded = name.folded := by
  rw [member?] at h
  have hsame := List.find?_some h
  exact ⟨List.mem_of_find?_eq_some h, of_decide_eq_true hsame⟩

theorem member?_eq_none_iff :
    member? members name = none ↔ ∀ member ∈ members, member.name.folded ≠ name.folded := by
  rw [member?, List.find?_eq_none]
  simp only [Name.same, decide_eq_true_eq, ne_eq]

/-- Each member of the writer asks for the one of that name on the reader's side. -/
theorem hold_memberSteps_iff (hmembers : Name.Increasing (members.map (·.name))) :
    Hold R (memberSteps members members') ↔
      ∀ write ∈ members', ∃ read ∈ members, read.name.folded = write.name.folded ∧
        R read.target write.target := by
  induction members' with
  | nil => exact iff_of_true hold_nil (List.forall_mem_nil _)
  | cons write writes ih =>
      rw [memberSteps, List.forall_mem_cons]
      cases hmember : member? members write.name with
      | none =>
          apply iff_of_false not_hold_reject
          rintro ⟨⟨read, hread, heq, -⟩, -⟩
          exact member?_eq_none_iff.1 hmember read hread heq
      | some read =>
          obtain ⟨hread, heq⟩ := mem_of_member? hmember
          refine hold_compare_cons.trans (and_congr ⟨fun hR => ⟨read, hread, heq, hR⟩, ?_⟩ ih)
          rintro ⟨other, hother, heq', hR⟩
          rwa [hmembers.eq_of_folded_eq hread hother (heq.trans heq'.symm)]

theorem hold_unionSteps_iff (hmembers : Name.Increasing (members.map (·.name))) :
    Hold R (unionSteps strict members members') ↔
      (∀ write ∈ members', ∃ read ∈ members, read.name.folded = write.name.folded ∧
        R read.target write.target) ∧
      (strict = true → ∀ read ∈ members, ∃ write ∈ members',
        read.name.folded = write.name.folded) := by
  rw [unionSteps]
  cases hfind : members.find? fun member => strict && (member? members' member.name).isNone with
  | some extra =>
      apply iff_of_false not_hold_reject
      intro h
      have hextra := List.find?_some hfind
      rw [Bool.and_eq_true, Option.isNone_iff_eq_none, member?_eq_none_iff] at hextra
      obtain ⟨write, hwrite, heq⟩ := h.2 hextra.1 extra (List.mem_of_find?_eq_some hfind)
      exact hextra.2 write hwrite heq.symm
  | none =>
      rw [hold_memberSteps_iff hmembers]
      refine (and_iff_left fun hstrict read hread => ?_).symm
      have hwritten := List.find?_eq_none.1 hfind read hread
      rw [hstrict, Bool.true_and, Option.isNone_iff_eq_none] at hwritten
      obtain ⟨write, hmember⟩ := Option.ne_none_iff_exists'.1 hwritten
      obtain ⟨hwrite, heq⟩ := mem_of_member? hmember
      exact ⟨write, hwrite, heq.symm⟩

end Members

/-! ## Nodes with nothing below -/

theorem missingMembers_isEmpty_iff {members members' : List Name} :
    (missingMembers members members').isEmpty = true ↔
      ∀ name ∈ members'.map Name.folded, name ∈ members.map Name.folded := by
  rw [missingMembers, List.isEmpty_iff, List.filter_eq_nil_iff, List.forall_mem_map]
  apply forall₂_congr
  intro name _
  rw [Bool.not_eq_true', Bool.not_eq_false, List.any_eq_true, List.mem_map]
  exact exists_congr fun member => and_congr_right fun _ => by
    rw [Name.same, decide_eq_true_eq, eq_comm]

/-- An enumeration reads one with the same members, or one with fewer in lenient mode. -/
theorem enumeration_accepts_iff {write : Handle} {members members' : List Name}
    (hmembers : Name.Increasing members) (hmembers' : Name.Increasing members') :
    leafReads strict (.enumeration members : Node Name Handle) (.enumeration members') = true ↔
      Accepts strict R write (.enumeration members) (.enumeration members') := by
  rw [leafReads]
  constructor
  · intro h
    cases strict with
    | true => exact .sameMembers ((hmembers.map_folded_eq_iff hmembers').1 (of_decide_eq_true h))
    | false => exact .moreMembers rfl (missingMembers_isEmpty_iff.1 h)
  · intro h
    cases h with
    | sameMembers hsame =>
        cases strict with
        | true => exact decide_eq_true ((hmembers.map_folded_eq_iff hmembers').2 hsame)
        | false => exact missingMembers_isEmpty_iff.2 fun name => (hsame name).2
    | moreMembers hlenient hmore =>
        subst hlenient
        exact missingMembers_isEmpty_iff.2 hmore

theorem primitive_accepts_iff {write : Handle} {type type' : Primitive} :
    leafReads strict (.primitive type : Node Name Handle) (.primitive type') = true ↔
      Accepts strict R write (.primitive type) (.primitive type') := by
  simp only [leafReads, Bool.or_eq_true, decide_eq_true_eq, Bool.and_eq_true, Bool.not_eq_true']
  constructor
  · rintro (rfl | ⟨hlenient, hwider⟩)
    · exact .primitive type
    · exact .wider hlenient hwider
  · intro h
    cases h with
    | primitive => exact .inl rfl
    | wider hlenient hwider => exact .inr ⟨hlenient, hwider⟩

/-! ## Pairs of nodes -/

/-- A nullable reader meets a writer that is not nullable. -/
theorem rule_of_kind_ne {read write inner : Handle} {writer : Node Name Handle}
    (h : writer.kind ≠ .nullable .write) :
    rule strict read write (.nullable .read inner) writer =
      if strict then [.reject .notNullable] else [.compare none inner write] := by
  cases writer with
  | nullable direction inner' =>
      cases direction with
      | write => exact absurd rfl h
      | read => rfl
  | _ => rfl

theorem hold_rule_nullable_iff {read write inner : Handle} {writer : Node Name Handle} :
    Hold R (rule strict read write (.nullable .read inner) writer) ↔
      Accepts strict R write (.nullable .read inner) writer := by
  by_cases hkind : writer.kind = .nullable .write
  · obtain ⟨inner', rfl⟩ : ∃ inner', writer = .nullable .write inner' := by
      cases writer <;> cases hkind
      exact ⟨_, rfl⟩
    refine hold_compare.trans ⟨.nullable, fun h => ?_⟩
    cases h with
    | nullable hinner => exact hinner
    | present _ hne _ => exact absurd rfl hne
  · rw [rule_of_kind_ne hkind]
    cases strict with
    | true =>
        apply iff_of_false not_hold_reject
        intro h
        cases h with
        | nullable => exact hkind rfl
        | present hlenient => cases hlenient
    | false =>
        refine hold_compare.trans ⟨.present rfl hkind, fun h => ?_⟩
        cases h with
        | nullable => exact absurd rfl hkind
        | present _ _ hinner => exact hinner

/-- The steps for a pair of arranged nodes ask for what the reader accepts. -/
theorem hold_rule_iff {read write : Handle} {reader writer : Node Name Handle}
    (hreader : reader.Arranged) (hwriter : writer.Arranged) :
    Hold R (rule strict read write reader writer) ↔ Accepts strict R write reader writer := by
  cases reader with
  | primitive type =>
      rw [rule.eq_def]
      apply hold_ite.trans
      cases writer with
      | primitive type' => exact primitive_accepts_iff
      | _ => exact iff_of_false Bool.false_ne_true nofun
  | empty =>
      rw [rule.eq_def]
      apply hold_ite.trans
      cases writer with
      | empty => exact iff_of_true rfl .empty
      | recordWrite writes =>
          rw [leafReads, Bool.not_eq_true']
          exact ⟨fun hlenient => .emptyOfRecord hlenient, fun h => by cases h; assumption⟩
      | _ => exact iff_of_false Bool.false_ne_true nofun
  | enumeration members =>
      cases writer with
      | enumeration members' => exact hold_ite.trans (enumeration_accepts_iff hreader hwriter)
      | _ => exact iff_of_false not_hold_reject nofun
  | nullable direction inner =>
      cases direction with
      | write => cases writer <;> exact iff_of_false not_hold_reject nofun
      | read => exact hold_rule_nullable_iff
  | list direction item =>
      cases direction with
      | write => cases writer <;> exact iff_of_false not_hold_reject nofun
      | read =>
          cases writer with
          | list direction item' =>
              cases direction with
              | write => exact hold_compare.trans ⟨.list, fun h => by cases h; assumption⟩
              | read => exact iff_of_false not_hold_reject nofun
          | _ => exact iff_of_false not_hold_reject nofun
  | dictionary direction key value =>
      cases direction with
      | write => cases writer <;> exact iff_of_false not_hold_reject nofun
      | read =>
          cases writer with
          | dictionary direction key' value' =>
              cases direction with
              | write =>
                  refine hold_compare_cons.trans ((and_congr_right' hold_compare).trans ?_)
                  refine ⟨fun h => .dictionary h.1 h.2, fun h => ?_⟩
                  cases h with
                  | dictionary hkey hvalue => exact ⟨hkey, hvalue⟩
              | read => exact iff_of_false not_hold_reject nofun
          | _ => exact iff_of_false not_hold_reject nofun
  | recordWrite fields => cases writer <;> exact iff_of_false not_hold_reject nofun
  | recordRead reads =>
      cases writer with
      | recordWrite writes =>
          refine (hold_fieldSteps_iff hreader hwriter).trans ⟨.record, fun h => ?_⟩
          cases h
          assumption
      | empty =>
          refine hold_emptySteps_iff.trans ⟨fun h => .recordOfEmpty h.1 h.2, fun h => ?_⟩
          cases h with
          | recordOfEmpty hlenient hoptional => exact ⟨hlenient, hoptional⟩
      | _ => exact iff_of_false not_hold_reject nofun
  | union direction members =>
      cases direction with
      | write => cases writer <;> exact iff_of_false not_hold_reject nofun
      | read =>
          cases writer with
          | union direction members' =>
              cases direction with
              | write =>
                  refine (hold_unionSteps_iff hreader).trans ⟨fun h => .union h.1 h.2, fun h => ?_⟩
                  cases h with
                  | union hread hwritten => exact ⟨hread, hwritten⟩
              | read => exact iff_of_false not_hold_reject nofun
          | _ => exact iff_of_false not_hold_reject nofun

end WireSchema.Compatibility
