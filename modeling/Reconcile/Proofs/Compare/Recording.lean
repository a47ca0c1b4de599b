import Reconcile.Proofs.Compare.Soundness

/-!
# Lines of difference code

Difference code consists of lines of comparisons whose actions record a path together with the
expressions that reach it.
-/

namespace Reconcile

namespace Delta

variable {root site : Site} {blocks : List String} {asked : Shape → Prop}

/-- The statement that records a difference, with the recorded path as one text. -/
theorem action_eq (site : Site) :
    action site = "delta.Add(\"" ++ ("Spec." ++ site.path.text) ++ "\", " ++ site.first.text ++
      ", " ++ site.second.text ++ ")" := by
  have unfolded : action site = "delta.Add(\"" ++ "Spec" ++ "." ++ site.path.text ++ "\", " ++
      site.first.text ++ ", " ++ site.second.text ++ ")" := rfl
  rw [unfolded, ← String.toList_inj]
  simp

theorem isFlat_action : Check.IsFlat action := by
  intro site
  rw [action_eq]
  exact ⟨by simp [Line.closes], Line.opens_append _ (by decide)⟩

theorem isPlain_action {level : Nat} (whole : site.IsWhole)
    (pathWords : ∀ segment ∈ site.path.segments, Text.IsWord segment) :
    Line.IsPlain ⟨level, action site⟩ := by
  have path : '\n' ∉ site.path.text.toList :=
    (Text.isDotted_intercalate pathWords).not_mem (by decide) (by decide)
  have first : '\n' ∉ site.first.text.toList := whole.1.not_mem (by decide)
  have second : '\n' ∉ site.second.text.toList := whole.2.not_mem (by decide)
  rw [action_eq]
  simp [Line.IsPlain, path, first, second]

/-- What the statement that records a difference is cut into. -/
theorem ofLine_action (whole : site.IsWhole)
    (pathWords : ∀ segment ∈ site.path.segments, Text.IsWord segment) :
    Term.ofLine (action site) = [⟨'\n', "delta.Add", '('⟩,
      ⟨'"', "Spec." ++ ".".intercalate site.path.segments, '"'⟩] ++
        (Term.close ' ' site.first.text.toList ',' ++
          Term.close ' ' site.second.text.toList ')') := by
  have front : Term.IsWhole "Spec." := by decide
  have path := front.append (Term.isWhole_of_isDotted (Text.isDotted_intercalate pathWords))
  have nonempty : "Spec." ++ ".".intercalate site.path.segments ≠ "" := by simp
  rw [action_eq, FieldPath.text]
  generalize "Spec." ++ ".".intercalate site.path.segments = recorded at path nonempty ⊢
  simp [Term.ofLine, Term.scan_append path, Term.scan_append whole.1, Term.scan_append whole.2,
    Term.scan, Term.isLetter, Text.isWordLetter, Term.close, nonempty]

theorem role_action {term : Term} (reached : Site.Reached root blocks site) (whole : site.IsWhole)
    (pathWords : ∀ segment ∈ site.path.segments, Text.IsWord segment)
    (membership : term ∈ Term.ofLine (action site)) :
    term.Role root blocks asked (action site) := by
  rw [ofLine_action whole pathWords] at membership
  simp only [List.mem_append, List.mem_cons, List.not_mem_nil, or_false] at membership
  rcases membership with (rfl | rfl) | first | second
  · exact .inert (by decide)
  · exact .inert ⟨Or.inl rfl, by simp⟩
  · exact .first reached (by decide) (by decide) first
  · exact .second reached (by decide) (by decide) second

theorem eq_codeOf_of_emit {checks : List Check} {codes : List Code}
    (emitted : Check.emit action checks = .ok codes) : codes = Check.codeOf action checks := by
  unfold Check.emit at emitted
  split at emitted
  · cases emitted
  · cases emitted
    rfl

theorem compareResource_ok {resource : Resource} {normalizer : Normalizer}
    {first second text : String} {level : Nat} {fits : Shape → Prop}
    (plain : Shape → Prop) (inherited : Shape.Inherited normalizer fits)
    (named : resource.Named Text.IsWord fits)
    (written : compareResource resource normalizer first second level = .ok text) :
    ∃ tag checks, resource.tagField = .ok tag ∧
      checks = (strategy resource normalizer (tag.map Field.path)).resource resource first second ∧
        Check.SoundOf (Site.ofSpec first second) plain [] checks ∧
          text = Code.renderBehindBlank (Check.codeOf action checks) level := by
  rcases Outcome.of_bind_eq_ok written with ⟨checks, planned, written⟩
  rcases Outcome.of_bind_eq_ok written with ⟨codes, emitted, rendered⟩
  rcases Outcome.of_bind_eq_ok planned with ⟨tag, found, made⟩
  cases made
  refine ⟨tag, _, Outcome.of_mapError_eq_ok found, rfl, ?_, ?_⟩
  · exact Strategy.soundOf_resource (isSound_strategy _ _ _) inherited named
  · rw [← eq_codeOf_of_emit emitted]
    exact (Except.ok.inj rendered).symm

end Delta

end Reconcile
