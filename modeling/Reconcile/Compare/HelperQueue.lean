import Reconcile.Compare.Check
import Reconcile.Shape.Size

/-!
# Queues of helpers

Structures inside collections are compared by helper functions, one for each shape name. The
queue remembers which helpers were ever asked for and which of them are still to be written,
so that a shape met in several places is written once and called from all of them.
-/

namespace Reconcile

/-- Helper functions that were asked for. -/
structure HelperQueue where
  /-- The names of all shapes whose helpers were asked for, in order. -/
  requested : List String
  /-- The shapes whose helpers are still to be written, in order. -/
  pending : List Shape
  deriving Inhabited, Repr

namespace HelperQueue

/-- The queue of which nothing was asked. -/
def empty : HelperQueue := ⟨[], []⟩

/-- The number of helpers ever asked for. -/
def size (queue : HelperQueue) : Nat :=
  queue.requested.length

/-- Whether no helper was ever asked for. -/
def isEmpty (queue : HelperQueue) : Bool :=
  queue.requested.isEmpty

/-- Whether the helper for a shape name was ever asked for. -/
def contains (queue : HelperQueue) (name : String) : Bool :=
  queue.requested.contains name

/-- Asks for the helper of a shape. Only the first request for a name is queued. -/
def request (queue : HelperQueue) (shape : Shape) : HelperQueue :=
  if queue.contains shape.name then queue
  else ⟨queue.requested ++ [shape.name], queue.pending ++ [shape]⟩

/-- Takes the shape whose helper is to be written next. -/
def next? (queue : HelperQueue) : Option (Shape × HelperQueue) :=
  match queue.pending with
  | [] => none
  | shape :: rest => some (shape, ⟨queue.requested, rest⟩)

/-- Meets demands in order, up to the first one that cannot be met. -/
def meet : HelperQueue → List Demand → Except CompareError Unit × HelperQueue
  | queue, [] => (.ok (), queue)
  | queue, .helper shape :: rest => (queue.request shape).meet rest
  | queue, .keyKind path key :: _ => (.error (.unsupportedKey path key), queue)

/-- The number of nodes of the shapes whose helpers are still to be written. -/
def weight (queue : HelperQueue) : Nat :=
  Shape.totalSize queue.pending

theorem weight_request_le (queue : HelperQueue) (shape : Shape) :
    (queue.request shape).weight ≤ queue.weight + shape.size := by
  unfold request
  split
  · exact Nat.le_add_right _ _
  · simp [weight, Shape.totalSize]

/-- Meeting demands adds at most the shapes whose helpers are demanded. -/
theorem weight_meet_le (queue : HelperQueue) (demands : List Demand) :
    (queue.meet demands).2.weight ≤ queue.weight + Shape.totalSize (Demand.shapes demands) := by
  induction demands generalizing queue with
  | nil => simp [meet]
  | cons demand rest ih =>
    cases demand with
    | helper shape =>
      have requested := queue.weight_request_le shape
      have later := ih (queue.request shape)
      simp only [meet, Demand.shapes, Shape.totalSize]
      omega
    | keyKind path key =>
      simp only [meet]
      omega

/-- Taking a shape takes its size off the weight. -/
theorem weight_of_next? {queue rest : HelperQueue} {shape : Shape}
    (taken : queue.next? = some (shape, rest)) : rest.weight + shape.size = queue.weight := by
  unfold next? at taken
  split at taken
  · simp at taken
  · next first others found =>
    simp only [Option.some.injEq, Prod.mk.injEq] at taken
    obtain ⟨rfl, rfl⟩ := taken
    simp [weight, found, Shape.totalSize, Nat.add_comm]

end HelperQueue

end Reconcile
