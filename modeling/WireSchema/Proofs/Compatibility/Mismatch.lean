/-
# Where a reader and a writer part

The check goes on from a pair of nodes to pairs below that have to be compatible too, and
its path names the steps that it has gone.  The mismatch that it reports is at the end of
such a route, at a pair which its own rule rejects whatever the pairs below it, and for the
reason that is reported.  Wherever there is such a route, what the writer under the first
pair writes is not read.
-/

import WireSchema.Proofs.Compatibility.Check

namespace WireSchema

namespace Compatibility

variable {strict : Bool} {read write : Handle} {reader writer : Node Name Handle}
variable {reads : List (Input Name Handle)} {writes : List (Member Name Handle)}

/-- A pair of nodes, of which the writer's handle is `write`, asks for a pair below, by a
step that is named in a path or not.  A field goes by its name on the reader's side, a
member by its name on the writer's. -/
inductive LeadsOn (strict : Bool) (write : Handle) :
    Node Name Handle → Node Name Handle → Option Segment → Handle → Handle → Prop
  | nullable {inner inner' : Handle} :
      LeadsOn strict write (.nullable .read inner) (.nullable .write inner') none inner inner'
  /-- Only the reader's side is unwrapped. -/
  | present {inner : Handle} {writer : Node Name Handle} : strict = false →
      writer.kind ≠ .nullable .write →
        LeadsOn strict write (.nullable .read inner) writer none inner write
  | item {item item' : Handle} :
      LeadsOn strict write (.list .read item) (.list .write item') (some .item) item item'
  | key {key value key' value' : Handle} :
      LeadsOn strict write (.dictionary .read key value) (.dictionary .write key' value')
        (some .key) key key'
  | value {key value key' value' : Handle} :
      LeadsOn strict write (.dictionary .read key value) (.dictionary .write key' value')
        (some .value) value value'
  | field {reads : List (Input Name Handle)} {writes : List (Member Name Handle)}
      {input : Input Name Handle} {output : Member Name Handle} : input ∈ reads →
      output ∈ writes → input.name.folded = output.name.folded →
        LeadsOn strict write (.recordRead reads) (.recordWrite writes)
          (some (.field input.name)) input.target output.target
  | member {members members' : List (Member Name Handle)} {input output : Member Name Handle} :
      input ∈ members → output ∈ members' → input.name.folded = output.name.folded →
        LeadsOn strict write (.union .read members) (.union .write members')
          (some (.member output.name)) input.target output.target

/-- What has to be compatible below a pair that is compatible. -/
theorem LeadsOn.holds {R : Handle → Handle → Prop} {segment? : Option Segment}
    {read' write' : Handle} (h : LeadsOn strict write reader writer segment? read' write')
    (hreader : reader.Arranged) (haccepts : Accepts strict R write reader writer) :
    R read' write' := by
  cases h with
  | nullable =>
      cases haccepts with
      | nullable hinner => exact hinner
      | present _ hne _ => exact absurd rfl hne
  | present _ hne =>
      cases haccepts with
      | nullable => exact absurd rfl hne
      | present _ _ hinner => exact hinner
  | item => cases haccepts with | list hitem => exact hitem
  | key => cases haccepts with | dictionary hkey _ => exact hkey
  | value => cases haccepts with | dictionary _ hvalue => exact hvalue
  | field hinput houtput heq =>
      cases haccepts with
      | record hfields => exact hfields.shared _ hinput _ houtput heq
  | @member members members' input output hinput houtput heq =>
      cases haccepts with
      | union hmembers _ =>
          obtain ⟨input', hinput', heq', hR⟩ := hmembers output houtput
          have hnames : Name.Increasing (members.map (·.name)) := hreader
          cases hnames.eq_of_folded_eq hinput hinput' (heq.trans heq'.symm)
          exact hR

/-! ## Reasons -/

/-- What a reason says of the two nodes of a pair. -/
inductive Reason.Applies (strict : Bool) (read write : Handle) :
    Reason → Node Name Handle → Node Name Handle → Prop
  | unreadable {reader writer : Node Name Handle} :
      Applies strict read write (.unreadable read write) reader writer
  /-- These are the members that the reader has not, up to case, and there are some. -/
  | unknownEnumMembers {members members' names : List Name} : names ≠ [] →
      (∀ name, name ∈ names ↔ name ∈ members' ∧ name.folded ∉ members.map Name.folded) →
        Applies strict read write (.unknownEnumMembers names) (.enumeration members)
          (.enumeration members')
  /-- The reader has every member of the writer, and others. -/
  | differentEnumMembers {members members' : List Name} : strict = true →
      (∀ name ∈ members'.map Name.folded, name ∈ members.map Name.folded) →
      (∃ name ∈ members.map Name.folded, name ∉ members'.map Name.folded) →
        Applies strict read write .differentEnumMembers (.enumeration members)
          (.enumeration members')
  | unknownField {reads : List (Input Name Handle)} {writes : List (Member Name Handle)}
      {output : Member Name Handle} : strict = true → output ∈ writes →
      (∀ input ∈ reads, input.name.folded ≠ output.name.folded) →
        Applies strict read write (.unknownField output.name) (.recordRead reads)
          (.recordWrite writes)
  /-- A field that only the reader has may be left out in lenient mode, if it is optional. -/
  | missingField {reads : List (Input Name Handle)} {writes : List (Member Name Handle)}
      {input : Input Name Handle} : strict = true ∨ input.required = true → input ∈ reads →
      (∀ output ∈ writes, input.name.folded ≠ output.name.folded) →
        Applies strict read write (.missingField input.name) (.recordRead reads)
          (.recordWrite writes)
  | emptyWriter {reads : List (Input Name Handle)} : strict = true →
      Applies strict read write .emptyWriter (.recordRead reads) .empty
  | nothingWritten {reads : List (Input Name Handle)} {input : Input Name Handle} :
      input ∈ reads → input.required = true →
        Applies strict read write (.missingField input.name) (.recordRead reads) .empty
  | notNullable {inner : Handle} {writer : Node Name Handle} : strict = true →
      writer.kind ≠ .nullable .write →
        Applies strict read write .notNullable (.nullable .read inner) writer
  | unwrittenMember {members members' : List (Member Name Handle)} {input : Member Name Handle} :
      strict = true → input ∈ members →
      (∀ output ∈ members', output.name.folded ≠ input.name.folded) →
        Applies strict read write (.unwrittenMember input.name) (.union .read members)
          (.union .write members')
  | unknownMember {members members' : List (Member Name Handle)} {output : Member Name Handle} :
      output ∈ members' → (∀ input ∈ members, input.name.folded ≠ output.name.folded) →
        Applies strict read write (.unknownMember output.name) (.union .read members)
          (.union .write members')

/-- What a step says of the pair that it is a step for. -/
def Step.Justified (strict : Bool) (read write : Handle) (reader writer : Node Name Handle) :
    Step → Prop
  | .compare segment? read' write' => LeadsOn strict write reader writer segment? read' write'
  | .reject reason => reason.Applies strict read write reader writer

/-! ## The steps for a pair -/

/-- What a step says of the fields of two records. -/
inductive FieldStep (strict : Bool) (reads : List (Input Name Handle))
    (writes : List (Member Name Handle)) : Step → Prop
  | shared {input : Input Name Handle} {output : Member Name Handle} : input ∈ reads →
      output ∈ writes → input.name.folded = output.name.folded →
        FieldStep strict reads writes
          (.compare (some (.field input.name)) input.target output.target)
  | unknown {output : Member Name Handle} : strict = true → output ∈ writes →
      (∀ input ∈ reads, input.name.folded ≠ output.name.folded) →
        FieldStep strict reads writes (.reject (.unknownField output.name))
  | missing {input : Input Name Handle} : strict = true ∨ input.required = true →
      input ∈ reads → (∀ output ∈ writes, input.name.folded ≠ output.name.folded) →
        FieldStep strict reads writes (.reject (.missingField input.name))

namespace FieldStep

variable {step : Step}

theorem justified (h : FieldStep strict reads writes step) :
    step.Justified strict read write (.recordRead reads) (.recordWrite writes) := by
  cases h with
  | shared hinput houtput heq => exact .field hinput houtput heq
  | unknown hstrict houtput hnone => exact .unknownField hstrict houtput hnone
  | missing hneeded hinput hnone => exact .missingField hneeded hinput hnone

/-- What holds of some of the fields holds of all, when none of the others goes by a name of
these. -/
theorem extend {reads' : List (Input Name Handle)} {writes' : List (Member Name Handle)}
    (h : FieldStep strict reads writes step) (hreads : reads ⊆ reads') (hwrites : writes ⊆ writes')
    (hinput : ∀ input ∈ reads', input ∈ reads ∨
      ∀ output ∈ writes, input.name.folded ≠ output.name.folded)
    (houtput : ∀ output ∈ writes', output ∈ writes ∨
      ∀ input ∈ reads, input.name.folded ≠ output.name.folded) :
    FieldStep strict reads' writes' step := by
  cases h with
  | shared hmem hmem' heq => exact .shared (hreads hmem) (hwrites hmem') heq
  | unknown hstrict hmem hnone =>
      refine .unknown hstrict (hwrites hmem) fun input hmem' => ?_
      exact (hinput input hmem').elim (hnone input) fun h => h _ hmem
  | missing hneeded hmem hnone =>
      refine .missing hneeded (hreads hmem) fun output hmem' => ?_
      exact (houtput output hmem').elim (hnone output) fun h => h _ hmem

theorem cons_left {input : Input Name Handle} (h : FieldStep strict reads writes step)
    (hnone : ∀ output ∈ writes, input.name.folded ≠ output.name.folded) :
    FieldStep strict (input :: reads) writes step := by
  refine h.extend (List.subset_cons_self _ _) (List.Subset.refl _) (fun other hother => ?_)
    fun _ => .inl
  rcases List.mem_cons.1 hother with rfl | hother
  · exact .inr hnone
  · exact .inl hother

theorem cons_right {output : Member Name Handle} (h : FieldStep strict reads writes step)
    (hnone : ∀ input ∈ reads, input.name.folded ≠ output.name.folded) :
    FieldStep strict reads (output :: writes) step := by
  refine h.extend (List.Subset.refl _) (List.subset_cons_self _ _) (fun _ => .inl)
    fun other hother => ?_
  rcases List.mem_cons.1 hother with rfl | hother
  · exact .inr hnone
  · exact .inl hother

theorem cons_cons {input : Input Name Handle} {output : Member Name Handle}
    (h : FieldStep strict reads writes step)
    (hinput : ∀ other ∈ writes, input.name.folded ≠ other.name.folded)
    (houtput : ∀ other ∈ reads, other.name.folded ≠ output.name.folded) :
    FieldStep strict (input :: reads) (output :: writes) step := by
  refine h.extend (List.subset_cons_self _ _) (List.subset_cons_self _ _)
    (fun other hother => ?_) fun other hother => ?_
  · rcases List.mem_cons.1 hother with rfl | hother
    · exact .inr hinput
    · exact .inl hother
  · rcases List.mem_cons.1 hother with rfl | hother
    · exact .inr houtput
    · exact .inl hother

end FieldStep

/-- Each step that is taken for two records tells the truth about all of their fields. -/
theorem fieldStep_of_mem (hreads : Name.Increasing (reads.map (·.name)))
    (hwrites : Name.Increasing (writes.map (·.name))) :
    ∀ step ∈ fieldSteps strict reads writes, FieldStep strict reads writes step := by
  fun_induction fieldSteps strict reads writes with
  | case1 => exact List.forall_mem_nil _
  | case2 output writes hstrict =>
      exact List.forall_mem_singleton.2
        (.unknown hstrict List.mem_cons_self (List.forall_mem_nil _))
  | case3 output writes hlenient => exact List.forall_mem_nil _
  | case4 input reads hneeded =>
      rw [Bool.or_eq_true] at hneeded
      exact List.forall_mem_singleton.2
        (.missing hneeded List.mem_cons_self (List.forall_mem_nil _))
  | case5 input reads hoptional ih =>
      exact fun step hstep => (ih hreads.tail hwrites step hstep).cons_left (List.forall_mem_nil _)
  | case6 input reads output writes hcompare hstrict =>
      have hunknown := ne_of_lt_head hreads (Name.lt_of_compare hcompare)
      exact List.forall_mem_singleton.2 (.unknown hstrict List.mem_cons_self fun other hother =>
        (hunknown other hother).symm)
  | case7 input reads output writes hcompare hlenient ih =>
      have hunknown := ne_of_lt_head hreads (Name.lt_of_compare hcompare)
      exact fun step hstep => (ih hreads hwrites.tail step hstep).cons_right fun other hother =>
        (hunknown other hother).symm
  | case8 input reads output writes hcompare ih =>
      have heq := (Name.folded_eq_of_compare hcompare).symm
      refine List.forall_mem_cons.2 ⟨.shared List.mem_cons_self List.mem_cons_self heq,
        fun step hstep => (ih hreads.tail hwrites.tail step hstep).cons_cons ?_ ?_⟩
      · exact fun other hother => heq ▸ ne_of_mem_tail hwrites other hother
      · exact fun other hother => heq ▸ (ne_of_mem_tail hreads other hother).symm
  | case9 input reads output writes hcompare hneeded =>
      rw [Bool.or_eq_true] at hneeded
      exact List.forall_mem_singleton.2 (.missing hneeded List.mem_cons_self
        (ne_of_lt_head hwrites (Name.gt_of_compare hcompare)))
  | case10 input reads output writes hcompare hoptional ih =>
      exact fun step hstep => (ih hreads.tail hwrites step hstep).cons_left
        (ne_of_lt_head hwrites (Name.gt_of_compare hcompare))

/-- If a record does not read the empty type, it is for the mode or for a field it needs. -/
theorem justified_of_mem_emptySteps :
    ∀ step ∈ emptySteps strict reads,
      step.Justified strict read write (.recordRead reads) .empty := by
  rw [emptySteps]
  cases strict with
  | true => exact List.forall_mem_singleton.2 (.emptyWriter rfl)
  | false =>
      rw [if_neg Bool.false_ne_true]
      cases hfind : reads.find? fun field => field.required with
      | none => exact List.forall_mem_nil _
      | some input =>
          exact List.forall_mem_singleton.2
            (.nothingWritten (List.mem_of_find?_eq_some hfind) (List.find?_some hfind))

section Members

variable {members members' : List (Member Name Handle)}

theorem justified_of_mem_memberSteps {outputs : List (Member Name Handle)}
    (houtputs : outputs ⊆ members') :
    ∀ step ∈ memberSteps members outputs,
      step.Justified strict read write (.union .read members) (.union .write members') := by
  induction outputs with
  | nil => exact List.forall_mem_nil _
  | cons output outputs ih =>
      obtain ⟨houtput, houtputs⟩ := List.cons_subset.1 houtputs
      rw [memberSteps]
      cases hfind : member? members output.name with
      | none =>
          exact List.forall_mem_singleton.2
            (.unknownMember houtput (member?_eq_none_iff.1 hfind))
      | some input =>
          obtain ⟨hinput, heq⟩ := mem_of_member? hfind
          exact List.forall_mem_cons.2 ⟨.member hinput houtput heq, ih houtputs⟩

theorem justified_of_mem_unionSteps :
    ∀ step ∈ unionSteps strict members members',
      step.Justified strict read write (.union .read members) (.union .write members') := by
  rw [unionSteps]
  split
  next input hfind =>
    have hextra := List.find?_some hfind
    rw [Bool.and_eq_true, Option.isNone_iff_eq_none, member?_eq_none_iff] at hextra
    exact List.forall_mem_singleton.2
      (.unwrittenMember hextra.1 (List.mem_of_find?_eq_some hfind) hextra.2)
  next => exact justified_of_mem_memberSteps (List.Subset.refl _)

end Members

theorem mem_missingMembers_iff {members members' : List Name} {name : Name} :
    name ∈ missingMembers members members' ↔
      name ∈ members' ∧ name.folded ∉ members.map Name.folded := by
  rw [missingMembers, List.mem_filter, Bool.not_eq_true', List.any_eq_false, List.mem_map]
  refine and_congr_right fun _ => ?_
  push Not
  exact forall₂_congr fun other _ => by rw [Name.same, ne_eq, decide_eq_true_eq, eq_comm]

/-- If an enumeration does not read another, there are members that only one of them has. -/
theorem applies_enumReason {members members' : List Name} (hreader : Name.Increasing members)
    (hwriter : Name.Increasing members')
    (h : ¬ leafReads strict (.enumeration members : Node Name Handle) (.enumeration members')) :
    (enumReason members members').Applies strict read write (.enumeration members)
      (.enumeration members') := by
  rw [enumReason]
  split
  next hempty =>
    have hknown := missingMembers_isEmpty_iff.1 hempty
    cases strict with
    | false => exact absurd hempty h
    | true =>
        refine .differentEnumMembers rfl hknown ?_
        by_contra hnone
        push Not at hnone
        refine h (decide_eq_true ((hreader.map_folded_eq_iff hwriter).2 fun name => ?_))
        exact ⟨hnone name, hknown name⟩
  next hmissing =>
    rw [List.isEmpty_iff] at hmissing
    exact .unknownEnumMembers hmissing fun name => mem_missingMembers_iff

theorem kind_ne_of_forall_ne (h : ∀ inner, writer = .nullable .write inner → False) :
    writer.kind ≠ .nullable .write := by
  intro hkind
  cases writer <;> cases hkind
  exact h _ rfl

/-- Every step that is taken for a pair of nodes tells the truth about them. -/
theorem justified_of_mem_rule (hreader : reader.Arranged) (hwriter : writer.Arranged) :
    ∀ step ∈ rule strict read write reader writer,
      step.Justified strict read write reader writer := by
  fun_cases rule strict read write reader writer with
  | case1 members members' hreads => rw [if_pos hreads]; exact List.forall_mem_nil _
  | case2 members members' hreads =>
      rw [if_neg hreads]
      exact List.forall_mem_singleton.2 (applies_enumReason hreader hwriter hreads)
  | case3 inner inner' => exact List.forall_mem_singleton.2 .nullable
  | case4 _ inner hstrict hne =>
      exact List.forall_mem_singleton.2 (.notNullable hstrict (kind_ne_of_forall_ne hne))
  | case5 _ inner hlenient hne =>
      exact List.forall_mem_singleton.2
        (.present (Bool.eq_false_of_not_eq_true hlenient) (kind_ne_of_forall_ne hne))
  | case6 item item' => exact List.forall_mem_singleton.2 .item
  | case7 key value key' value' =>
      exact List.forall_mem_cons.2 ⟨.key, List.forall_mem_singleton.2 .value⟩
  | case8 reads writes =>
      exact fun step hstep => (fieldStep_of_mem hreader hwriter step hstep).justified
  | case9 reads => exact justified_of_mem_emptySteps
  | case10 members members' => exact justified_of_mem_unionSteps
  | case11 => exact List.forall_mem_nil _
  | case12 => exact List.forall_mem_singleton.2 .unreadable

end Compatibility

namespace Store

open Compatibility

variable {store : Store} {strict : Bool} {read write : Handle}

/-! ## Routes -/

/-- A way from the first pair to another, along pairs of which each asks for the next; with
the steps of it that have a name. -/
inductive Route (store : Store) (strict : Bool) (read write : Handle) :
    List Segment → Handle → Handle → Prop
  | root : Route store strict read write [] read write
  | step {path : List Segment} {segment? : Option Segment} {a b a' b' : Handle}
      {reader writer : Node Name Handle} : Route store strict read write path a b →
      store.node? a = some reader → store.node? b = some writer →
      LeadsOn strict b reader writer segment? a' b' →
        Route store strict read write (path ++ segment?.toList) a' b'

/-- The pair is rejected by its own rule, even if all pairs below are compatible, and for a
reason that is true of it. -/
inductive RejectedFor (store : Store) (strict : Bool) (read write : Handle) : Reason → Prop
  | unknown : store.node? read = none ∨ store.node? write = none →
      RejectedFor store strict read write (.unknownNode read write)
  | rule {reader writer : Node Name Handle} {reason : Reason} :
      store.node? read = some reader → store.node? write = some writer →
      ¬ Accepts strict (fun _ _ => True) write reader writer →
      reason.Applies strict read write reader writer →
        RejectedFor store strict read write reason

/-- A task is at the end of a route, and if it is to report a mismatch, so is the pair that
is rejected. -/
def OnRoute (store : Store) (strict : Bool) (read write : Handle) (task : Task) : Prop :=
  match task.step with
  | .compare _ a b => store.Route strict read write task.path a b
  | .reject reason => ∃ a b, store.Route strict read write task.path a b ∧
      store.RejectedFor strict a b reason

/-- The tasks for a pair at the end of a route are at the ends of routes. -/
theorem Route.onRoute_tasksAt (h : store.Regular) {path : List Segment} {a b : Handle}
    {reader writer : Node Name Handle} (hroute : store.Route strict read write path a b)
    (ha : store.node? a = some reader) (hb : store.node? b = some writer) :
    ∀ task ∈ tasksAt path (rule strict a b reader writer),
      store.OnRoute strict read write task := by
  rw [tasksAt, List.forall_mem_map]
  intro step hstep
  have hjustified := justified_of_mem_rule (h.arranged ha) (h.arranged hb) step hstep
  cases step with
  | compare segment? a' b' => exact hroute.step ha hb hjustified
  | reject reason =>
      refine ⟨a, b, hroute, .rule ha hb (fun haccepts => ?_) hjustified⟩
      exact (hold_rule_iff (h.arranged ha) (h.arranged hb)).2 haccepts _ hstep

/-- The mismatch that is found is at the end of a route, at a pair that is rejected. -/
theorem exists_route_of_search (h : store.Regular) {seen : List (Handle × Handle)}
    {tasks : List Task} (htasks : ∀ task ∈ tasks, store.OnRoute strict read write task)
    {mismatch : Mismatch} (hsearch : search store strict seen tasks = some mismatch) :
    ∃ a b, store.Route strict read write mismatch.path a b ∧
      store.RejectedFor strict a b mismatch.reason := by
  induction seen, tasks using search.induct store strict with
  | case1 seen =>
      rw [search] at hsearch
      cases hsearch
  | case2 seen path reason tasks =>
      rw [search] at hsearch
      cases hsearch
      exact htasks _ List.mem_cons_self
  | case3 seen path segment? a b tasks hseen ih =>
      rw [search, dif_pos hseen] at hsearch
      exact ih (List.forall_mem_cons.1 htasks).2 hsearch
  | case4 seen path segment? a b tasks hseen reader writer ha hb ih =>
      rw [search_cons hseen ha hb] at hsearch
      obtain ⟨hroute, htasks⟩ := List.forall_mem_cons.1 htasks
      exact ih (List.forall_mem_append.2 ⟨Route.onRoute_tasksAt h hroute ha hb, htasks⟩) hsearch
  | case5 seen path segment? a b tasks hseen hnone =>
      rw [search, dif_neg hseen] at hsearch
      split at hsearch
      next reader writer ha hb => exact (hnone reader writer ha hb).elim
      next =>
        cases hsearch
        refine ⟨a, b, htasks _ List.mem_cons_self, .unknown ?_⟩
        rw [Option.eq_none_iff_forall_ne_some, Option.eq_none_iff_forall_ne_some]
        by_contra hboth
        push Not at hboth
        obtain ⟨⟨reader, ha⟩, writer, hb⟩ := hboth
        exact hnone reader writer ha hb

/-- A pair that is rejected cannot be read. -/
theorem RejectedFor.canRead_eq_false (h : store.Regular) {reason : Reason}
    (hrejected : store.RejectedFor strict read write reason) :
    store.canRead strict read write = false := by
  by_contra hread
  obtain ⟨R, hR, hpair⟩ := canRead_eq_true_iff.1 (Bool.eq_true_of_not_eq_false hread)
  obtain ⟨reader, writer, hreader, hwriter, haccepts⟩ :=
    (passes_iff h).1 ((hR read write hpair).mono fun _ _ _ => trivial)
  cases hrejected with
  | unknown hnone =>
      rcases hnone with hnone | hnone
      · cases hnone.symm.trans hreader
      · cases hnone.symm.trans hwriter
  | rule hreader' hwriter' hrejects _ =>
      cases hreader.symm.trans hreader'
      cases hwriter.symm.trans hwriter'
      exact hrejects haccepts

/-- What is asked for on the way to a pair that cannot be read cannot be read either. -/
theorem Route.canRead_eq_false (h : store.Regular) {path : List Segment} {a b : Handle}
    (hroute : store.Route strict read write path a b) (hend : store.canRead strict a b = false) :
    store.canRead strict read write = false := by
  induction hroute with
  | root => exact hend
  | step hroute ha hb hleads ih =>
      apply ih
      by_contra hread
      obtain ⟨reader, writer, hreader, hwriter, haccepts⟩ :=
        compatible_canRead h _ _ (Bool.eq_true_of_not_eq_false hread)
      cases ha.symm.trans hreader
      cases hb.symm.trans hwriter
      have hbelow := hleads.holds (h.arranged ha) haccepts
      exact Bool.false_ne_true (hend.symm.trans hbelow)

theorem exists_route_of_mismatch? (h : store.Regular) {mismatch : Mismatch}
    (hmismatch : store.mismatch? strict read write = some mismatch) :
    ∃ a b, store.Route strict read write mismatch.path a b ∧
      store.RejectedFor strict a b mismatch.reason := by
  rw [mismatch?_eq_search] at hmismatch
  refine exists_route_of_search h (fun task htask => ?_) hmismatch
  cases List.mem_singleton.1 htask
  exact Route.root

/-- A reader cannot read exactly if the check goes on to a pair that is rejected. -/
theorem canRead_eq_false_iff (h : store.Regular) : store.canRead strict read write = false ↔
    ∃ path a b reason, store.Route strict read write path a b ∧
      store.RejectedFor strict a b reason := by
  constructor
  · intro hread
    rw [canRead_eq_isNone, Option.isNone_eq_false_iff, Option.isSome_iff_exists] at hread
    obtain ⟨mismatch, hmismatch⟩ := hread
    obtain ⟨a, b, hroute, hrejected⟩ := exists_route_of_mismatch? h hmismatch
    exact ⟨_, a, b, _, hroute, hrejected⟩
  · rintro ⟨path, a, b, reason, hroute, hrejected⟩
    exact hroute.canRead_eq_false h (hrejected.canRead_eq_false h)

/-! ## The report -/

theorem check_isCompatible :
    (store.check strict read write).isCompatible = store.canRead strict read write := by
  rw [check, canRead_eq_isNone]
  cases store.mismatch? strict read write <;> rfl

theorem check_mismatch? : (store.check strict read write).mismatch? =
    (store.mismatch? strict read write).map fun mismatch =>
      (pathText mismatch.path, mismatch.reason.text store) := by
  rw [check]
  cases store.mismatch? strict read write <;> rfl

/-- It is an error exactly if the reader cannot read the writer. -/
theorem ensureReads_eq_error_iff : (∃ error, store.ensureReads strict read write = .error error) ↔
    store.canRead strict read write = false := by
  rw [ensureReads, check_isCompatible]
  cases store.canRead strict read write with
  | true => exact iff_of_false nofun nofun
  | false => exact iff_of_true ⟨_, rfl⟩ rfl

end Store

namespace Catalog

open Compatibility

/-- The report says whether the reader can read, with a mismatch exactly if it cannot.  A
mismatch is at the end of a route from the pair in question, whose named steps make the
path, at a pair that its own rule rejects for the reason that is given; and the reader can
read if there is no such route.  It is an error to ask for more than what can be read. -/
theorem check_explains {catalog : Catalog} (h : Reachable catalog) (strict : Bool)
    (read write : Handle) :
    (catalog.store.check strict read write).isCompatible =
      catalog.store.canRead strict read write ∧
    ((catalog.store.check strict read write).mismatch?.isSome ↔
      catalog.store.canRead strict read write = false) ∧
    (∀ path reason, (catalog.store.check strict read write).mismatch? = some (path, reason) →
      ∃ segments a b why, catalog.store.Route strict read write segments a b ∧
        path = pathText segments ∧ catalog.store.RejectedFor strict a b why ∧
        reason = why.text catalog.store) ∧
    (catalog.store.canRead strict read write = false ↔
      ∃ segments a b why, catalog.store.Route strict read write segments a b ∧
        catalog.store.RejectedFor strict a b why) ∧
    ((∃ error, catalog.store.ensureReads strict read write = .error error) ↔
      catalog.store.canRead strict read write = false) := by
  have hregular := h.sound.store.toRegular
  refine ⟨Store.check_isCompatible, ?_, fun path reason hreport => ?_,
    Store.canRead_eq_false_iff hregular, Store.ensureReads_eq_error_iff⟩
  · rw [Store.check_mismatch?, Option.isSome_map, Store.canRead_eq_isNone,
      Option.isNone_eq_false_iff]
  · rw [Store.check_mismatch?, Option.map_eq_some_iff] at hreport
    obtain ⟨mismatch, hmismatch, heq⟩ := hreport
    cases heq
    obtain ⟨a, b, hroute, hrejected⟩ := Store.exists_route_of_mismatch? hregular hmismatch
    exact ⟨mismatch.path, a, b, mismatch.reason, hroute, rfl, hrejected, rfl⟩

/-- An order whose lines are in one of some states. -/
def orderType (field : String) (states : List String) : TypeDef :=
  .record "Order" [⟨field, .list (.enumeration "Line" states), false⟩]

/-- A catalog in which a state is written that is unknown to the reader. -/
def orderCatalog : Catalog :=
  after (getOrAdd .write (orderType "L" ["a", "b"]))
    (after (getOrAdd .read (orderType "l" ["a"])) (withProviders Provider.standard))

theorem reachable_orderCatalog : Reachable orderCatalog :=
  .step (.getOrAdd .write (orderType "L" ["a", "b"]))
    (.step (.getOrAdd .read (orderType "l" ["a"])) (.start Provider.standard))

/-- The report leads to the lines of the order, where the field goes by the reader's name. -/
theorem check_explains_order :
    (∃ reason segments a b why,
      (orderCatalog.store.check false 2 5).mismatch? = some (".l[]", reason) ∧
      orderCatalog.store.Route false 2 5 segments a b ∧ pathText segments = ".l[]" ∧
      orderCatalog.store.RejectedFor false a b why ∧ reason = why.text orderCatalog.store) ∧
    ∃ error, orderCatalog.store.ensureReads false 2 5 = .error error := by
  have hpath : (orderCatalog.store.mismatch? false 2 5).map (·.path) =
      some [.field ⟨"l"⟩, .item] := by cbv
  obtain ⟨-, hsome, hroute, -, herror⟩ := check_explains reachable_orderCatalog false 2 5
  obtain ⟨mismatch, hmismatch, heq⟩ := Option.map_eq_some_iff.1 hpath
  have hreport : (orderCatalog.store.check false 2 5).mismatch? =
      some (".l[]", mismatch.reason.text orderCatalog.store) := by
    rw [Store.check_mismatch?, hmismatch, Option.map_some, heq]
    rfl
  obtain ⟨segments, a, b, why, hway, htext, hrejected, hreason⟩ := hroute _ _ hreport
  exact ⟨⟨_, segments, a, b, why, hreport, hway, htext.symm, hrejected, hreason⟩,
    herror.2 (hsome.1 (by rw [hreport]; rfl))⟩

end Catalog

end WireSchema
