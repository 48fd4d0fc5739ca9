/-
# Compatibility of schemas

Whether what is written under one node can be read under another.  The traversal
goes below a pair by the steps of its rule.  It remembers the answer for every
pair that it has been through, and takes a pair that it is still inside of as
compatible, which is what makes it end on recursive schemas.  The first
rejection is kept, with the way to it.
-/

import WireSchema.Compatibility.Rule
import WireSchema.Store.Equivalence
import WireSchema.Store.Unfold

namespace WireSchema

namespace Compatibility

/-- A pair of nodes that is rejected by its own rule. -/
structure Mismatch where
  path : List Segment
  reason : Reason

/-- What a traversal remembers from one pair to the next. -/
structure Memory where
  /-- The answers for the pairs that it has been through. -/
  results : List ((Handle × Handle) × Bool)
  /-- The first rejection. -/
  mismatch? : Option Mismatch

/-- Nothing is remembered at the start. -/
def Memory.empty : Memory := ⟨[], none⟩

/-- Remember the answer for a pair. -/
def Memory.answer (memory : Memory) (pair : Handle × Handle) (result : Bool) : Memory :=
  { memory with results := (pair, result) :: memory.results }

/-- Keep a rejection, unless there has been one before. -/
def Memory.reject (memory : Memory) (mismatch : Mismatch) : Memory :=
  { memory with mismatch? := memory.mismatch?.or (some mismatch) }

/-- Take a step from a pair at the end of a path: go below, or end with the
rejection. -/
def Step.take (goBelow : Option Segment → Handle → Handle → StateM Memory Bool)
    (path : List Segment) : Step → StateM Memory Bool
  | .compare segment? read write => goBelow segment? read write
  | .reject reason => do
    modify fun memory => memory.reject ⟨path, reason⟩
    return false

set_option linter.unusedVariables false in
/-- Whether a pair is compatible that is found at the end of `path`, inside of
the pairs in `active`. -/
def traverse (store : Store) (strict : Bool) (active : List (Handle × Handle))
    (path : List Segment) (read write : Handle) : StateM Memory Bool := do
  match (← get).results.lookup (read, write) with
  | some result => return result
  | none =>
    if hactive : (read, write) ∈ active then return true
    else
      match hread : store.node? read, hwrite : store.node? write with
      | some reader, some writer =>
        let goBelow := fun segment? =>
          traverse store strict ((read, write) :: active) (path ++ segment?.toList)
        let result ← (rule strict read write reader writer).allM (Step.take goBelow path)
        modify fun memory => memory.answer (read, write) result
        return result
      | _, _ =>
        modify fun memory => memory.reject ⟨path, .unknownNode read write⟩
        return false
termination_by unseen (pairsBelow store.size store.size) active
decreasing_by
  exact unseen_cons_lt
    (mem_pairsBelow (Store.lt_size_of_node? hread) (Store.lt_size_of_node? hwrite)) hactive

end Compatibility

namespace Store

open Compatibility

/-- What is written under `write` can be read under `read`.  The relation is not
symmetric. -/
def canRead (store : Store) (strict : Bool) (read write : Handle) : Bool :=
  ((traverse store strict [] [] read write).run Memory.empty).1

/-- The first reason, depth first, why a node cannot read what another writes. -/
def mismatch? (store : Store) (strict : Bool) (read write : Handle) : Option Mismatch :=
  let (result, memory) := (traverse store strict [] [] read write).run Memory.empty
  if result then none else some (memory.mismatch?.getD ⟨[], .unreadable read write⟩)

end Store

namespace Compatibility

/-- A reason in words. -/
def Reason.text (store : Store) : Reason → String
  | unreadable read write => store.describe read ++ " cannot read " ++ store.describe write
  | unknownNode read write => "unknown contract @" ++ toString read ++ " or @" ++ toString write
  | unknownEnumMembers names =>
    "writer enum members [" ++ ", ".intercalate (names.map Name.spelling) ++
      "] are unknown to the reader"
  | differentEnumMembers => "strict mode requires identical enum members"
  | unknownField name => "writer field '" ++ name.spelling ++ "' is unknown to the reader"
  | missingField name => "reader field '" ++ name.spelling ++ "' is missing from the writer"
  | emptyWriter => "strict mode cannot read a record from an empty writer"
  | notNullable => "strict mode requires the writer to be nullable too"
  | unwrittenMember name => "reader member '" ++ name.spelling ++ "' is not written"
  | unknownMember name => "writer member '" ++ name.spelling ++ "' is unknown to the reader"

/-- A path in words; the empty path is that of the root. -/
def pathText (path : List Segment) : String :=
  if path.isEmpty then "<root>" else String.join (path.map Segment.text)

/-- The answer to a compatibility question, in words. -/
structure Report where
  isCompatible : Bool
  strict : Bool
  read : String
  write : String
  /-- The path and the reason of the mismatch, if there is one. -/
  mismatch? : Option (String × String)
  summary : String

end Compatibility

namespace Store

open Compatibility

/-- The answer to whether a node can read what another writes. -/
def check (store : Store) (strict : Bool) (read write : Handle) : Report :=
  let readText := store.describe read
  let writeText := store.describe write
  match store.mismatch? strict read write with
  | none => ⟨true, strict, readText, writeText, none, readText ++ " can read " ++ writeText⟩
  | some mismatch =>
    let path := pathText mismatch.path
    let reason := mismatch.reason.text store
    ⟨false, strict, readText, writeText, some (path, reason), "at " ++ path ++ ": " ++ reason⟩

/-- It is an error if a node cannot read what another writes. -/
def ensureReads (store : Store) (strict : Bool) (read write : Handle) : Except Error Unit :=
  let report := store.check strict read write
  if report.isCompatible then .ok ()
  else .error (.incompatible report.read report.write report.summary)

end Store

end WireSchema
