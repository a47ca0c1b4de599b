import Mathlib.Data.List.Forall2
import Reconcile.Proofs.Resource.Registration

/-!
# Reached members

Registration goes from the members of a structure to those below them, as far as it gets. A member
that it reaches has a place, the positions of the members that lead to it, and a way, these
members themselves (`Shape.IsReached`). The reached members can be listed, each behind those below
it and otherwise in the order of declaration (`Shape.mem_reached`, `Shape.pairwise_reached`).
-/

namespace Reconcile.Shape

/-- The members that lead to a member, which is the last of them. -/
abbrev Way := List (String × Shape)

mutual

theorem of_membersBelow {motive : List (String × Shape) → Prop} (nil : motive [])
    (cons : ∀ member rest, motive member.2.membersBelow → motive rest → motive (member :: rest)) :
    (shape : Shape) → motive shape.membersBelow
  | .scalar _ _ => nil
  | .struct _ members => membersInduction nil cons members
  | .sequence _ (.struct _ members) => membersInduction nil cons members
  | .sequence _ (.scalar _ _) => nil
  | .sequence _ (.sequence _ _) => nil
  | .sequence _ (.mapping _ _ _) => nil
  | .mapping _ _ (.struct _ members) => membersInduction nil cons members
  | .mapping _ _ (.scalar _ _) => nil
  | .mapping _ _ (.sequence _ _) => nil
  | .mapping _ _ (.mapping _ _ _) => nil

/-- What passes from the members below a member and from those behind it to all holds of members. -/
theorem membersInduction {motive : List (String × Shape) → Prop} (nil : motive [])
    (cons : ∀ member rest, motive member.2.membersBelow → motive rest → motive (member :: rest)) :
    (members : List (String × Shape)) → motive members
  | [] => nil
  | (name, shape) :: rest =>
      cons (name, shape) rest (of_membersBelow nil cons shape) (membersInduction nil cons rest)

end

/-- Whether a place belongs to a member that a way leads to from outer members. -/
inductive IsReached : List (String × Shape) → List Nat → Way → Prop
  | member {members : List (String × Shape)} {index : Nat} {member : String × Shape}
      (found : members[index]? = some member) : IsReached members [index] [member]
  | nested {members : List (String × Shape)} {index : Nat} {member : String × Shape}
      {place : List Nat} {way : Way} (found : members[index]? = some member)
      (inner : IsReached member.2.membersBelow place way) :
      IsReached members (index :: place) (member :: way)

/-- A member that is reached below another one is reached through that. -/
theorem IsReached.outer {members : List (String × Shape)} {place : List Nat} {way : Way}
    (reaches : IsReached members place way) (deep : 1 < way.length) :
    IsReached members place.dropLast way.dropLast := by
  induction reaches with
  | member found => simp at deep
  | nested found inner ih =>
      cases inner with
      | member => exact .member found
      | nested nextFound deeper =>
          refine .nested found (ih ?_)
          cases deeper <;> simp

/--
Whether a place comes before another one if members are taken in order and each behind those
below it.
-/
inductive Precedes : List Nat → List Nat → Prop
  | inner (outer : List Nat) (index : Nat) (rest : List Nat) :
      Precedes (outer ++ index :: rest) outer
  | earlier (outer : List Nat) {first second : Nat} (less : first < second)
      (firstRest secondRest : List Nat) :
      Precedes (outer ++ first :: firstRest) (outer ++ second :: secondRest)

theorem Precedes.cons {first second : List Nat} (precedes : Precedes first second) (index : Nat) :
    Precedes (index :: first) (index :: second) := by
  cases precedes with
  | inner outer position rest => exact .inner (index :: second) position rest
  | earlier outer less firstRest secondRest => exact .earlier (index :: outer) less _ _

theorem Precedes.ne {first second : List Nat} (precedes : Precedes first second) :
    first ≠ second := by
  cases precedes with
  | inner outer index rest => simp
  | earlier outer less firstRest secondRest =>
      intro same
      have heads := List.append_cancel_left same
      rw [List.cons.injEq] at heads
      omega

mutual

/-- The members that are reached below a value, with their places and ways. -/
def reachedBelow : Shape → List (List Nat × Way)
  | .struct _ members => reachedFrom 0 members
  | .sequence _ (.struct _ members) => reachedFrom 0 members
  | .mapping _ _ (.struct _ members) => reachedFrom 0 members
  | _ => []

/-- The members that are reached from members with positions from an index on. -/
def reachedFrom (index : Nat) : List (String × Shape) → List (List Nat × Way)
  | [] => []
  | (name, shape) :: rest =>
      (reachedBelow shape).map (Prod.map (index :: ·) ((name, shape) :: ·)) ++
        ([index], [(name, shape)]) :: reachedFrom (index + 1) rest

end

/-- The members that are reached from members, each behind those below it. -/
def reached (members : List (String × Shape)) : List (List Nat × Way) :=
  reachedFrom 0 members

theorem reachedBelow_eq (shape : Shape) : shape.reachedBelow = reached shape.membersBelow := by
  unfold membersBelow
  split
  · rw [reachedBelow, reached]
  · rw [reachedBelow, reached]
  · rw [reachedBelow, reached]
  · rename_i noStruct noSequence noMapping
    rw [reachedBelow, reached, reachedFrom]
    · exact noStruct
    · exact noSequence
    · exact noMapping

theorem reachedFrom_cons (index : Nat) (member : String × Shape) (rest : List (String × Shape)) :
    reachedFrom index (member :: rest) =
      (reached member.2.membersBelow).map (Prod.map (index :: ·) (member :: ·)) ++
        ([index], [member]) :: reachedFrom (index + 1) rest := by
  rw [← reachedBelow_eq, reachedFrom]

theorem mem_map_below {index : Nat} {member : String × Shape} {entries : List (List Nat × Way)}
    {place : List Nat} {way : Way} :
    (place, way) ∈ entries.map (Prod.map (index :: ·) (member :: ·)) ↔
      ∃ inner rest, place = index :: inner ∧ way = member :: rest ∧ (inner, rest) ∈ entries := by
  simp only [List.mem_map, Prod.exists, Prod.map_apply, Prod.mk.injEq]
  constructor
  · rintro ⟨inner, rest, listed, rfl, rfl⟩
    exact ⟨inner, rest, rfl, rfl, listed⟩
  · rintro ⟨inner, rest, rfl, rfl, listed⟩
    exact ⟨inner, rest, listed, rfl, rfl⟩

theorem mem_reachedFrom (members : List (String × Shape)) :
    ∀ index place way, (place, way) ∈ reachedFrom index members ↔
      ∃ position rest, place = (index + position) :: rest ∧
        IsReached members (position :: rest) way := by
  induction members using membersInduction with
  | nil =>
      intro index place way
      rw [reachedFrom]
      constructor
      · intro listed
        exact absurd listed List.not_mem_nil
      · rintro ⟨position, rest, _, reaches⟩
        cases reaches with
        | member found => simp at found
        | nested found inner => simp at found
  | cons member others below ofOthers =>
      intro index place way
      rw [reachedFrom_cons, List.mem_append, List.mem_cons, mem_map_below, ofOthers]
      constructor
      · rintro (⟨inner, rest, rfl, rfl, listed⟩ | same | ⟨position, rest, rfl, reaches⟩)
        · rcases (below 0 inner rest).mp listed with ⟨position, deeper, rfl, reaches⟩
          rw [Nat.zero_add] at *
          exact ⟨0, _, rfl, .nested rfl reaches⟩
        · cases same
          exact ⟨0, [], rfl, .member rfl⟩
        · refine ⟨position + 1, rest, by rw [Nat.add_comm position 1, Nat.add_assoc], ?_⟩
          cases reaches with
          | member found => exact .member (by simpa using found)
          | nested found inner => exact .nested (by simpa using found) inner
      · rintro ⟨position, rest, rfl, reaches⟩
        cases position with
        | zero =>
            cases reaches with
            | member found =>
                cases found
                exact Or.inr (Or.inl rfl)
            | @nested _ _ _ _ way found inner =>
                cases found
                refine Or.inl ⟨rest, way, rfl, rfl, (below 0 rest way).mpr ?_⟩
                cases inner with
                | member found => exact ⟨_, [], by rw [Nat.zero_add], .member found⟩
                | nested found inner => exact ⟨_, _, by rw [Nat.zero_add], .nested found inner⟩
        | succ position =>
            refine Or.inr (Or.inr ⟨position, rest, by rw [Nat.add_comm position 1, Nat.add_assoc],
              ?_⟩)
            cases reaches with
            | member found => exact .member (by simpa using found)
            | nested found inner => exact .nested (by simpa using found) inner

/-- The listed members are those that are reached. -/
theorem mem_reached {members : List (String × Shape)} {place : List Nat} {way : Way} :
    (place, way) ∈ reached members ↔ IsReached members place way := by
  rw [reached, mem_reachedFrom]
  constructor
  · rintro ⟨position, rest, rfl, reaches⟩
    rwa [Nat.zero_add]
  · intro reaches
    cases reaches with
    | member found => exact ⟨_, [], by rw [Nat.zero_add], .member found⟩
    | nested found inner => exact ⟨_, _, by rw [Nat.zero_add], .nested found inner⟩

theorem pairwise_reachedFrom (members : List (String × Shape)) :
    ∀ index, (reachedFrom index members).Pairwise (fun first second =>
      Precedes first.1 second.1) := by
  induction members using membersInduction with
  | nil =>
      intro index
      rw [reachedFrom]
      exact List.Pairwise.nil
  | cons member others below ofOthers =>
      intro index
      rw [reachedFrom_cons, List.pairwise_append, List.pairwise_cons]
      refine ⟨?_, ⟨?_, ofOthers (index + 1)⟩, ?_⟩
      · rw [List.pairwise_map]
        exact (below 0).imp (fun precedes => precedes.cons index)
      · rintro ⟨place, way⟩ listed
        rcases (mem_reachedFrom others _ place way).mp listed with ⟨position, rest, rfl, _⟩
        exact .earlier [] (by omega) [] rest
      · rintro ⟨first, firstWay⟩ isBelow ⟨second, secondWay⟩ isBehind
        rcases mem_map_below.mp isBelow with ⟨inner, _, rfl, _, listed⟩
        rcases List.mem_cons.mp isBehind with same | isLater
        · cases same
          rcases (mem_reachedFrom _ 0 inner _).mp listed with ⟨position, rest, rfl, _⟩
          exact .inner [index] (0 + position) rest
        · rcases (mem_reachedFrom others _ second secondWay).mp isLater with
            ⟨position, rest, rfl, _⟩
          exact .earlier [] (by omega) inner rest

/-- The reached members are listed in the order of declaration, each behind those below it. -/
theorem pairwise_reached (members : List (String × Shape)) :
    (reached members).Pairwise (fun first second => Precedes first.1 second.1) :=
  pairwise_reachedFrom members 0

end Reconcile.Shape
