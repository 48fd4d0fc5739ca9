/-
# Strongly connected components

The components of a finite directed graph, by two depth-first passes: the first
follows edges backwards and notes the order in which vertices are finished, the
second takes the vertices in the opposite order and collects what each reaches
along edges that has not been collected.  Components come out with what they
lead to before them.

Both passes carry the vertices that they have not met, which become fewer.
-/

namespace WireSchema.Components

variable {α : Type} [DecidableEq α]

/-- Depth-first pass that finishes a vertex after everything it leads to.  The
top of the stack is first; a vertex stays on the stack until it is finished.
Returns the finished vertices, the latest first. -/
def finish (next : α → List α) (unmet : List α) (stack finished : List α) : List α :=
  match stack with
  | [] => finished
  | v :: stack =>
    if v ∈ unmet then
      let unmet' := unmet.erase v
      finish next unmet' (((next v).filter (· ∈ unmet')).reverse ++ v :: stack) finished
    else finish next unmet stack (if v ∈ finished then finished else v :: finished)
termination_by (unmet.length, stack.length)
decreasing_by
  · next h =>
    apply Prod.Lex.left
    have := List.length_pos_of_mem h
    have := List.length_erase_of_mem h
    omega
  · exact Prod.Lex.right _ (Nat.lt_succ_self _)

/-- What the vertices of the stack lead to among those not met, and what is then
left. -/
def reach (next : α → List α) (unmet : List α) (stack found : List α) : List α × List α :=
  match stack with
  | [] => (found, unmet)
  | v :: stack =>
    if v ∈ unmet then reach next (unmet.erase v) (next v ++ stack) (v :: found)
    else reach next unmet stack found
termination_by (unmet.length, stack.length)
decreasing_by
  · next h =>
    apply Prod.Lex.left
    have := List.length_pos_of_mem h
    have := List.length_erase_of_mem h
    omega
  · exact Prod.Lex.right _ (Nat.lt_succ_self _)

/-- Take the vertices in order; each that has not been met starts a component. -/
def collect (next : α → List α) (unmet : List α) : List α → List (List α)
  | [] => []
  | v :: order =>
    if v ∈ unmet then
      let (component, unmet) := reach next unmet [v] []
      component :: collect next unmet order
    else collect next unmet order

/-- The components of the graph with the given vertices and edges. -/
def components (vertices : List α) (next previous : α → List α) : List (List α) :=
  collect next vertices (finish previous vertices vertices [])

end WireSchema.Components
