import Mathlib.Data.Finset.Card
import Mathlib.Data.List.Induction
import Reconcile.Proofs.Compare.Worklist

/-!
# Queues in use

Helpers are asked for and taken in any order. At every moment the shapes that were handed out and
those that are pending are, in this order, the first requests of their names
(`HelperQueue.Session.Serves`), which every single action preserves. So a queue hands out each name
once, in the order and with the shape of its first request, and a queue that has nothing left to
hand out has handed out all names (`HelperQueue.hands_out_once`).
-/

namespace Reconcile.HelperQueue

/-- What is done with a queue. -/
inductive Action where
  | request (shape : Shape)
  | next

/-- The shape that is asked for. -/
def Action.asked? : Action → Option Shape
  | .request shape => some shape
  | .next => none

/-- The shapes that are asked for, in order. -/
def asked (actions : List Action) : List Shape :=
  actions.filterMap Action.asked?

/-- A queue in use. -/
structure Session where
  /-- The shapes that were handed out so far, in order. -/
  handed : List Shape
  queue : HelperQueue

theorem asked_concat (actions : List Action) (action : Action) :
    asked (actions ++ [action]) = asked actions ++ action.asked?.toList := by
  rw [asked, List.filterMap_append]
  cases action <;> rfl

namespace Session

/-- The use of a queue of which nothing was asked. -/
def fresh : Session := ⟨[], .empty⟩

/-- Does something with the queue. A queue without pending shapes hands out nothing. -/
def act (session : Session) : Action → Session
  | .request shape => ⟨session.handed, session.queue.request shape⟩
  | .next =>
    match session.queue.next? with
    | none => session
    | some (shape, rest) => ⟨session.handed ++ [shape], rest⟩

/-- Does one thing after the other with a fresh queue. -/
def run (actions : List Action) : Session :=
  actions.foldl act fresh

theorem run_concat (actions : List Action) (action : Action) :
    run (actions ++ [action]) = (run actions).act action := by
  simp [run]

/-- The shapes that were handed out and then those that are pending. -/
def known (session : Session) : List Shape :=
  session.handed ++ session.queue.pending

/--
Whether a session serves requests: it knows the first request of each name, and it knows them in
their order.
-/
structure Serves (session : Session) (requests : List Shape) : Prop where
  requested : session.queue.requested = session.known.map Shape.name
  covers : ∀ name, name ∈ session.known.map Shape.name ↔ name ∈ requests.map Shape.name
  first : ∀ shape ∈ session.known,
    requests.find? (fun other => other.name == shape.name) = some shape
  ordered : (session.known.map Shape.name).Pairwise (fun earlier later =>
    (requests.map Shape.name).idxOf earlier < (requests.map Shape.name).idxOf later)

variable {session : Session} {requests : List Shape} {shape : Shape}

theorem serves_fresh : fresh.Serves [] where
  requested := rfl
  covers _ := Iff.rfl
  first _ isKnown := absurd isKnown List.not_mem_nil
  ordered := List.Pairwise.nil

/-- No name is known twice. -/
theorem Serves.distinct (serves : session.Serves requests) :
    (session.known.map Shape.name).Nodup := by
  refine serves.ordered.imp ?_
  rintro name _ less rfl
  exact Nat.lt_irrefl _ less

theorem Serves.contains_iff (serves : session.Serves requests) {name : String} :
    session.queue.contains name = true ↔ name ∈ requests.map Shape.name := by
  rw [contains, List.contains_iff_mem, serves.requested, serves.covers]

/-- Further requests change nothing about those that came first. -/
theorem Serves.first_append (serves : session.Serves requests) (further : List Shape)
    (isKnown : shape ∈ session.known) :
    (requests ++ further).find? (fun other => other.name == shape.name) = some shape := by
  rw [List.find?_append, serves.first shape isKnown, Option.some_or]

theorem Serves.ordered_append (serves : session.Serves requests) (further : List Shape) :
    (session.known.map Shape.name).Pairwise (fun earlier later =>
      ((requests ++ further).map Shape.name).idxOf earlier <
        ((requests ++ further).map Shape.name).idxOf later) := by
  refine serves.ordered.imp_of_mem ?_
  intro earlier later isEarlier isLater less
  rw [serves.covers] at isEarlier isLater
  rwa [List.map_append, List.idxOf_append_of_mem isEarlier, List.idxOf_append_of_mem isLater]

/-- A name that was asked for before is not queued again, with whatever shape it comes. -/
theorem Serves.act_request_again (serves : session.Serves requests)
    (again : shape.name ∈ requests.map Shape.name) : session.act (.request shape) = session := by
  rw [Session.act, request, if_pos (serves.contains_iff.mpr again)]

theorem Serves.request_again (serves : session.Serves requests)
    (again : shape.name ∈ requests.map Shape.name) : session.Serves (requests ++ [shape]) := by
  refine { serves with
    covers := ?_
    first := fun _ isKnown => serves.first_append [shape] isKnown
    ordered := serves.ordered_append [shape] }
  intro name
  rw [serves.covers, List.map_append, List.mem_append]
  constructor
  · exact Or.inl
  · rintro (earlier | isSame)
    · exact earlier
    · exact List.mem_singleton.mp isSame ▸ again

/-- A new name is queued behind all others. -/
theorem Serves.act_request_new (serves : session.Serves requests)
    (isNew : shape.name ∉ requests.map Shape.name) :
    session.act (.request shape) = ⟨session.handed,
      ⟨session.queue.requested ++ [shape.name], session.queue.pending ++ [shape]⟩⟩ := by
  rw [Session.act, request, if_neg (mt serves.contains_iff.mp isNew)]

theorem Serves.request_new (serves : session.Serves requests)
    (isNew : shape.name ∉ requests.map Shape.name) :
    (session.act (.request shape)).Serves (requests ++ [shape]) := by
  have known : (session.act (.request shape)).known = session.known ++ [shape] := by
    rw [serves.act_request_new isNew, Session.known, Session.known, List.append_assoc]
  refine {
    requested := ?_
    covers := ?_
    first := ?_
    ordered := ?_ }
  · rw [known, serves.act_request_new isNew, serves.requested, List.map_append]
    rfl
  · intro name
    rw [known, List.map_append, List.map_append, List.mem_append, List.mem_append, serves.covers]
  · rw [known]
    intro other isOther
    rcases List.mem_append.mp isOther with isKnown | isSame
    · exact serves.first_append [shape] isKnown
    · cases List.mem_singleton.mp isSame
      have none : requests.find? (fun other => other.name == shape.name) = none := by
        rw [List.find?_eq_none]
        intro other listed same
        exact isNew (List.mem_map.mpr ⟨other, listed, eq_of_beq same⟩)
      rw [List.find?_append, none, Option.none_or]
      simp
  · have names : (session.known ++ [shape]).map Shape.name =
        session.known.map Shape.name ++ [shape.name] := List.map_append
    rw [known, names, List.pairwise_append]
    refine ⟨serves.ordered_append [shape], List.pairwise_singleton _ _, ?_⟩
    intro earlier isEarlier later isLater
    cases List.mem_singleton.mp isLater
    rw [serves.covers] at isEarlier
    rw [List.map_append, List.idxOf_append_of_mem isEarlier, List.idxOf_append_of_notMem isNew]
    exact Nat.lt_add_right _ (List.idxOf_lt_length_of_mem isEarlier)

/-- Taking a shape only moves it from the pending ones to those that were handed out. -/
theorem known_act_next (session : Session) :
    (session.act .next).known = session.known ∧
      (session.act .next).queue.requested = session.queue.requested := by
  rw [act]
  split
  · exact ⟨rfl, rfl⟩
  · rename_i shape rest taken
    have taking := advances_next? taken
    refine ⟨?_, ?_⟩
    · rw [known, known, List.append_assoc, ← taking.pending, List.append_nil]
    · rw [taking.requested, List.map_nil, List.append_nil]

/-- What a session serves goes on with every action. -/
theorem Serves.act (serves : session.Serves requests) (action : Action) :
    (session.act action).Serves (requests ++ action.asked?.toList) := by
  cases action with
  | request shape =>
      by_cases again : shape.name ∈ requests.map Shape.name
      · rw [serves.act_request_again again]
        exact serves.request_again again
      · exact serves.request_new again
  | next =>
      rcases session.known_act_next with ⟨known, requested⟩
      have unasked : requests ++ (Action.next).asked?.toList = requests := List.append_nil _
      rw [unasked]
      exact {
        requested := by rw [requested, known, serves.requested]
        covers := known ▸ serves.covers
        first := known ▸ serves.first
        ordered := known ▸ serves.ordered }

/-- Whatever is done with a fresh queue, it serves all requests. -/
theorem serves_run (actions : List Action) : (run actions).Serves (asked actions) := by
  induction actions using List.reverseRecOn with
  | nil => exact serves_fresh
  | append_singleton earlier last ih =>
      rw [run_concat, asked_concat]
      exact ih.act last

/-- What was handed out stays at the front of what is handed out. -/
theorem handed_prefix (actions later : List Action) :
    (run actions).handed <+: (run (actions ++ later)).handed := by
  induction later using List.reverseRecOn with
  | nil => rw [List.append_nil]
  | append_singleton earlier last ih =>
      rw [← List.append_assoc, run_concat]
      refine ih.trans ?_
      cases last with
      | request shape => exact List.prefix_rfl
      | next =>
          rw [act]
          split
          · exact List.prefix_rfl
          · exact List.prefix_append _ _

/-- A queue that hands out nothing more has handed out all names. -/
theorem Serves.handed_of_none (serves : session.Serves requests)
    (drained : session.queue.next? = none) {name : String}
    (listed : name ∈ requests.map Shape.name) : name ∈ session.handed.map Shape.name := by
  rwa [← serves.covers, known, next?_eq_none.mp drained, List.append_nil] at listed

theorem Serves.size_eq (serves : session.Serves requests) :
    session.queue.size = (requests.map Shape.name).toFinset.card := by
  rw [size, serves.requested, ← List.toFinset_card_of_nodup serves.distinct]
  congr 1
  ext name
  rw [List.mem_toFinset, List.mem_toFinset, serves.covers]

/-- No name is handed out twice. -/
theorem Serves.nodup_handed (serves : session.Serves requests) :
    (session.handed.map Shape.name).Nodup := by
  have distinct := serves.distinct
  rw [known, List.map_append] at distinct
  exact (List.nodup_append.mp distinct).1

end Session

/--
Whatever is asked for and taken, in whatever order: names are handed out once, in the order of their
first requests and with the shapes of these, and the pending ones are next in this order. At every
moment the names that were asked for are those that were handed out and those that are pending, no
name being both, and it is these names that the queue counts and contains. Once nothing is left to
hand out, each name that was asked for so far was handed out, and it never is again.
-/
theorem hands_out_once (actions : List Action) :
    let session := Session.run actions
    let requests := asked actions
    let names := requests.map Shape.name
    let handed := session.handed.map Shape.name
    let pending := session.queue.pending.map Shape.name
    handed.Nodup ∧
      (handed ++ pending).Pairwise (fun earlier later => names.idxOf earlier < names.idxOf later) ∧
      (∀ shape ∈ session.handed,
        requests.find? (fun other => other.name == shape.name) = some shape) ∧
      (session.queue.requested = handed ++ pending ∧
        (∀ name, name ∈ names ↔ name ∈ handed ∨ name ∈ pending) ∧ handed.Disjoint pending) ∧
      (session.queue.size = names.toFinset.card ∧
        ∀ name, session.queue.contains name = true ↔ name ∈ names) ∧
      (session.queue.next? = none → ∀ name ∈ names, ∀ later,
        ((Session.run (actions ++ later)).handed.map Shape.name).count name = 1) := by
  intro session requests names handed pending
  have serves : session.Serves requests := Session.serves_run actions
  have known : session.known.map Shape.name = handed ++ pending := List.map_append
  have ordered := serves.ordered
  have distinct := serves.distinct
  have covers := serves.covers
  rw [known] at ordered distinct covers
  rw [List.nodup_append'] at distinct
  refine ⟨distinct.1, ordered, ?_, ⟨serves.requested.trans known, ?_, distinct.2.2⟩,
    ⟨serves.size_eq, fun _ => serves.contains_iff⟩, ?_⟩
  · intro shape isHanded
    exact serves.first shape (List.mem_append_left _ isHanded)
  · intro name
    rw [← covers, List.mem_append]
  · intro drained name listed later
    have isHanded := serves.handed_of_none drained listed
    have stays := ((Session.handed_prefix actions later).map Shape.name).subset isHanded
    exact List.count_eq_one_of_mem (Session.serves_run (actions ++ later)).nodup_handed stays

/-- A route. -/
def route : Shape := .struct "Route" [("Target", .scalarOf .string)]

/-- Another shape of the same name is asked for, and both again while the queue is being emptied. -/
def routeActions : List Action := [
  .next, .request route, .request (.struct "Route" []), .next, .request (.sequenceOf route),
  .request (.struct "Route" []), .next, .next]

/-- The first route is handed out, and never another one. -/
theorem hands_out_once_route :
    (Session.run routeActions).handed = [route, .sequenceOf route] ∧
      (Session.run routeActions).queue.next? = none ∧
      (Session.run routeActions).queue.size = 2 ∧
      (Session.run routeActions).queue.contains "RouteList" = true ∧
      ∀ later, ((Session.run (routeActions ++ later)).handed.map Shape.name).count "Route" = 1 := by
  have drained : (Session.run routeActions).queue.next? = none := rfl
  rcases hands_out_once routeActions with ⟨_, _, _, _, ⟨size, contains⟩, handed⟩
  refine ⟨rfl, drained, ?_, (contains _).mpr (by decide), handed drained _ (by decide)⟩
  rw [size]
  decide

end Reconcile.HelperQueue
