import Reconcile.Proofs.Resource.Registry
import Reconcile.Proofs.Shape.Reordering

/-!
# Members with distinct paths

If no two reached members have paths of one text, members next to each other differ, level by level
(`Registration.textsApart_of_nodup`). So they have distinct schema names, and below the outermost
members, where nothing is renamed, distinct exported names.
-/

namespace Reconcile

open Shape

/-- Whether members next to each other have distinct exported names, at this level and below. -/
inductive Shape.ExportsApart (normalizer : Normalizer) : List (String × Shape) → Prop
  | intro {members : List (String × Shape)}
      (distinct : (members.map (fun member => (normalizer member.1).exported)).Nodup)
      (inner : ∀ member ∈ members, ExportsApart normalizer member.2.membersBelow) :
      ExportsApart normalizer members

namespace Shape

variable {normalizer : Normalizer} {members : List (String × Shape)}

theorem ExportsApart.distinct (apart : ExportsApart normalizer members) :
    (members.map (fun member => (normalizer member.1).exported)).Nodup := by
  cases apart
  assumption

theorem ExportsApart.inner (apart : ExportsApart normalizer members) {member : String × Shape}
    (listed : member ∈ members) : ExportsApart normalizer member.2.membersBelow := by
  cases apart with
  | intro _ inner => exact inner member listed

end Shape

namespace Registration

variable {registration : Registration} {members : List (String × Shape)} {outer : Way}

/-- Whether members next to each other have paths of distinct texts, at this level and below. -/
inductive TextsApart (registration : Registration) : Way → List (String × Shape) → Prop
  | intro {outer : Way} {members : List (String × Shape)}
      (distinct : (members.map (fun member =>
        (registration.pathAlong (outer ++ [member])).text)).Nodup)
      (inner : ∀ member ∈ members,
        TextsApart registration (outer ++ [member]) member.2.membersBelow) :
      TextsApart registration outer members

theorem TextsApart.distinct (apart : registration.TextsApart outer members) :
    (members.map (fun member => (registration.pathAlong (outer ++ [member])).text)).Nodup := by
  cases apart
  assumption

theorem TextsApart.inner (apart : registration.TextsApart outer members)
    {member : String × Shape} (listed : member ∈ members) :
    registration.TextsApart (outer ++ [member]) member.2.membersBelow := by
  cases apart with
  | intro _ inner => exact inner member listed

theorem textsApart_of_nodup (members : List (String × Shape)) : ∀ index outer,
    ((reachedFrom index members).map (fun entry =>
      (registration.pathAlong (outer ++ entry.2)).text)).Nodup →
        registration.TextsApart outer members := by
  induction members using membersInduction with
  | nil =>
      intro index outer _
      exact .intro List.nodup_nil (by simp)
  | cons member rest below ofRest =>
      intro index outer distinct
      rw [reachedFrom_cons, List.map_append, List.map_cons, List.map_map, List.nodup_append,
        List.nodup_cons] at distinct
      rcases distinct with ⟨inBelow, ⟨fresh, inRest⟩, _⟩
      have restApart := ofRest (index + 1) outer inRest
      refine .intro ?_ ?_
      · rw [List.map_cons, List.nodup_cons]
        refine ⟨?_, restApart.distinct⟩
        intro listed
        rcases List.mem_map.mp listed with ⟨other, isOther, same⟩
        rcases List.getElem?_of_mem isOther with ⟨position, found⟩
        have reaches := (mem_reachedFrom rest (index + 1) [index + 1 + position] [other]).mpr
          ⟨position, [], rfl, .member found⟩
        apply fresh
        rw [List.mem_map]
        exact ⟨_, reaches, same⟩
      · intro inner listed
        rcases List.mem_cons.mp listed with rfl | isLater
        · apply below 0 (outer ++ [inner])
          simpa [reached, Function.comp_def] using inBelow
        · exact restApart.inner isLater

theorem TextsApart.namedApart (apart : registration.TextsApart outer members) :
    NamedApart members := by
  induction apart with
  | @intro outer members distinct _ ih =>
      refine .intro ?_ ih
      simp only [pathAlong_concat] at distinct
      exact List.Nodup.of_map (fun name => ((registration.pathAlong outer).child
        (registration.normalizer (registration.renamed (registration.pathAlong outer) name)
          ).exported).text) (by rwa [List.map_map])

/-- Only outermost members are renamed. -/
theorem TextsApart.exportsApart (apart : registration.TextsApart outer members)
    (nonempty : outer ≠ []) : ExportsApart registration.normalizer members := by
  induction apart with
  | @intro outer members distinct _ ih =>
      have kept : ∀ name, registration.renamed (registration.pathAlong outer) name = name := by
        intro name
        cases outer with
        | nil => exact absurd rfl nonempty
        | cons first rest => rfl
      refine .intro ?_ (fun member listed => ih member listed (by simp))
      simp only [pathAlong_concat, kept] at distinct
      exact List.Nodup.of_map (fun exported =>
        ((registration.pathAlong outer).child exported).text) (by rwa [List.map_map])

end Registration

end Reconcile
