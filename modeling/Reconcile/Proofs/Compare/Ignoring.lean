import Reconcile.Proofs.Code.Selections
import Reconcile.Proofs.Compare.Asking
import Reconcile.Proofs.Compare.Closure
import Reconcile.Proofs.Compare.Operands

/-!
# Ignored members in equality code

The body of equality code looks at no ignored member, at any depth: each expression in it is a
single name or is selected along names that no ignored path leads (`not_reads_of_ignored`).
Helpers know no settings, so they compare all members of their structures. A helper is written
only for a structure that stands directly in a collection, so that none is written for a
structure that stands elsewhere only (`ignored_excluded`).
-/

namespace Reconcile

/-- Whether a site is another one, an element of it or the pair of variables that hold one. -/
inductive Site.IsNear (site : Site) : Site → Prop
  | here : IsNear site site
  | element : IsNear site (site.index "i")
  | entry : IsNear site (site.index "k")
  | held : IsNear site (site.held "av" "bv")

theorem Site.IsNear.path {site operand : Site} (near : site.IsNear operand) :
    operand.path = site.path := by
  cases near <;> rfl

theorem Check.mem_operandsOf_guarded {shape : Shape} {site operand : Site} {inside : List Check}
    (listed : operand ∈ operandsOf (guarded shape site inside)) :
    operand = site ∨ operand ∈ operandsOf inside := by
  unfold guarded at listed
  split at listed
  · simpa [operandsOf, operands] using listed
  · exact Or.inr listed

namespace Strategy

theorem mem_operandsOf_inNameOrder {operand : Site} {checks : List (String × List Check)} :
    operand ∈ Check.operandsOf (inNameOrder checks) ↔
      ∃ entry ∈ checks, operand ∈ Check.operandsOf entry.2 := by
  simp only [inNameOrder, Check.mem_operandsOf_flatMap, Text.mem_sortedBy]

end Strategy

namespace Equality

open Check

variable {normalizer : Normalizer} {isIgnored isTagField : FieldPath → Bool}

theorem isNear_of_helperCall {shape : Shape} {site operand : Site}
    (listed : operand ∈ operandsOf (helperCall shape site)) : operand = site := by
  rcases mem_operandsOf_guarded listed with same | inTest
  · exact same
  · simpa [operandsOf, operands] using inTest

theorem isNear_of_scalar {name : String} {kind : ScalarKind} {site operand : Site}
    (listed : operand ∈ operandsOf (guarded (.scalar name kind) site
      ((strategyWith normalizer isIgnored isTagField).body (.scalar name kind) site))) :
    operand = site := by
  rcases mem_operandsOf_guarded listed with same | inTest
  · exact same
  · simpa [Strategy.body, operandsOf, operands] using inTest

theorem isNear_of_elementChecks {element : Shape} {site operand : Site}
    (listed : operand ∈ operandsOf (elementChecks site element
      ((strategyWith normalizer isIgnored isTagField).body element))) : site.IsNear operand := by
  cases element with
  | scalar name kind =>
      rw [elementChecks, operandsOf, operands, operandsOf, List.append_nil] at listed
      rcases List.mem_cons.mp listed with rfl | inside
      · exact .here
      · rw [isNear_of_scalar inside]
        exact .element
  | struct name members =>
      rw [elementChecks, operandsOf, operands, operandsOf, List.append_nil] at listed
      rcases List.mem_cons.mp listed with rfl | inside
      · exact .here
      · rw [isNear_of_helperCall inside]
        exact .element
  | sequence name inner => simp [elementChecks, operandsOf, operands] at listed
  | mapping name key value => simp [elementChecks, operandsOf, operands] at listed

theorem isNear_of_valueChecks {value : Shape} {site operand : Site}
    (listed : operand ∈ operandsOf (valueChecks site value
      ((strategyWith normalizer isIgnored isTagField).body value))) : site.IsNear operand := by
  cases value with
  | scalar name kind =>
      rw [valueChecks, operandsOf, operands, operandsOf, List.append_nil] at listed
      rcases List.mem_cons.mp listed with rfl | inside
      · exact .here
      · rcases List.mem_cons.mp inside with rfl | inValue
        · exact .entry
        · rw [isNear_of_scalar inValue]
          exact .held
  | struct name members =>
      rw [valueChecks, operandsOf, operands, operandsOf, List.append_nil] at listed
      rcases List.mem_cons.mp listed with rfl | inside
      · exact .here
      · rcases List.mem_cons.mp inside with rfl | inValue
        · exact .entry
        · rw [isNear_of_helperCall inValue]
          exact .held
  | sequence name element => simp [valueChecks, operandsOf, operands] at listed
  | mapping name key inner => simp [valueChecks, operandsOf, operands] at listed

/-- The checks of a value that is no structure look at nothing but the value and its parts. -/
theorem isNear_of_body {shape : Shape} {site operand : Site} (noMembers : shape.members? = none)
    (listed : operand ∈
      operandsOf ((strategyWith normalizer isIgnored isTagField).body shape site)) :
    site.IsNear operand := by
  cases shape with
  | struct name members => simp [Shape.members?] at noMembers
  | scalar name kind =>
      have same : operand = site := by simpa [Strategy.body, operandsOf, operands] using listed
      rw [same]
      exact .here
  | sequence name element =>
      rw [Strategy.body] at listed
      rcases List.mem_cons.mp listed with rfl | inElements
      · exact .here
      · exact isNear_of_elementChecks inElements
  | mapping name key value =>
      rw [Strategy.body] at listed
      split at listed
      · rcases List.mem_cons.mp listed with rfl | inKeys
        · exact .here
        · rcases List.mem_cons.mp inKeys with rfl | inKeys
          · exact .here
          · rcases List.mem_cons.mp inKeys with rfl | inValues
            · exact .entry
            · exact isNear_of_valueChecks inValues
      · simp [operandsOf, operands] at listed

/-- What a member looks at is admitted, if what its value looks at is. -/
theorem exists_steps_of_member {shape : Shape} {site operand : Site}
    (ofBody : operand ∈
      operandsOf ((strategyWith normalizer isIgnored isTagField).body shape site) →
        ∃ steps, (strategyWith normalizer isIgnored isTagField).AdmitsBelow site.path steps ∧
          (site.descend steps).IsNear operand)
    (listed : operand ∈ operandsOf ((strategyWith normalizer isIgnored isTagField).member shape
      site ((strategyWith normalizer isIgnored isTagField).body shape site))) :
    ∃ steps, (strategyWith normalizer isIgnored isTagField).Admits site.path steps ∧
      (site.descend steps).IsNear operand := by
  unfold Strategy.member at listed
  split at listed
  · exact absurd listed List.not_mem_nil
  · rename_i notIgnored
    rw [Bool.not_eq_true] at notIgnored
    have here : ∃ steps, (strategyWith normalizer isIgnored isTagField).Admits site.path steps ∧
        (site.descend steps).IsNear site := ⟨[], notIgnored, .here⟩
    split at listed
    · have same : operand = site := by simpa [operandsOf, operands] using listed
      rw [same]
      exact here
    · rename_i noTags
      rw [Bool.not_eq_true] at noTags
      -- Neither ignored nor the tags, so that what is admitted below is admitted from here.
      rcases mem_operandsOf_guarded listed with rfl | inside
      · exact here
      · rcases ofBody inside with ⟨steps, below, near⟩
        refine ⟨steps, ?_, near⟩
        cases steps with
        | nil => exact notIgnored
        | cons name rest => exact ⟨notIgnored, noTags, below⟩

mutual

/-- The checks of a shape look at values that members of structures lead to. -/
theorem exists_steps_of_body : (shape : Shape) → (site operand : Site) →
    operand ∈ operandsOf ((strategyWith normalizer isIgnored isTagField).body shape site) →
      ∃ steps, (strategyWith normalizer isIgnored isTagField).AdmitsBelow site.path steps ∧
        (site.descend steps).IsNear operand
  | .scalar name kind, site, operand, listed => ⟨[], trivial, isNear_of_body rfl listed⟩
  | .sequence name element, site, operand, listed => ⟨[], trivial, isNear_of_body rfl listed⟩
  | .mapping name key value, site, operand, listed => ⟨[], trivial, isNear_of_body rfl listed⟩
  | .struct name members, site, operand, listed => by
      rw [Strategy.body, Strategy.mem_operandsOf_inNameOrder] at listed
      rcases listed with ⟨entry, isEntry, listed⟩
      rcases exists_steps_of_members members site operand entry isEntry listed with
        ⟨member, steps, admits, near⟩
      exact ⟨member :: steps, admits, near⟩

theorem exists_steps_of_members : (members : List (String × Shape)) → (site operand : Site) →
    ∀ entry ∈ (strategyWith normalizer isIgnored isTagField).members members site,
      operand ∈ operandsOf entry.2 →
        ∃ member steps,
          (strategyWith normalizer isIgnored isTagField).Admits (site.path.child member) steps ∧
            ((site.member member).descend steps).IsNear operand
  | [], site, operand => by
      simp [Strategy.members]
  | (name, shape) :: rest, site, operand => by
      intro entry isEntry listed
      rw [Strategy.members] at isEntry
      rcases List.mem_cons.mp isEntry with rfl | inRest
      · rcases exists_steps_of_member (exists_steps_of_body shape _ operand) listed with
          ⟨steps, admits, near⟩
        exact ⟨_, steps, admits, near⟩
      · exact exists_steps_of_members rest site operand entry inRest listed

end

theorem exists_steps_of_outermost {field : Field} {site operand : Site}
    (listed : operand ∈
      operandsOf ((strategyWith normalizer isIgnored isTagField).outermost field site)) :
    ∃ steps, (strategyWith normalizer isIgnored isTagField).Admits site.path steps ∧
      (site.descend steps).IsNear operand := by
  unfold Strategy.outermost at listed
  split at listed
  · rename_i taken
    have notIgnored :
        (strategyWith normalizer isIgnored isTagField).isIgnored site.path = false := by
      simpa using ((Bool.and_eq_true _ _).mp taken).2
    have same : operand = site := by simpa [operandsOf, operands] using listed
    rw [same]
    exact ⟨[], notIgnored, .here⟩
  · exact exists_steps_of_member (exists_steps_of_body field.shape site operand) listed

/-- Whether names lead past no ignored member: no path that they begin with is ignored. -/
def Keeps (resource : Resource) (names : List String) : Prop :=
  ∀ front, front ≠ [] → front <+: names → resource.isCompareIgnored ⟨front⟩ = false

/-- What equality code of a resource looks at lies along names that pass no ignored member. -/
theorem exists_names_of_operand {resource : Resource} {tagPath : Option FieldPath}
    {first second : String} {operand : Site}
    (filed : ∀ entry ∈ resource.specFields.entries, entry.1 = entry.2.path.text ∧ entry.2.IsFiled)
    (listed : operand ∈ operandsOf
      ((resourceStrategy resource normalizer tagPath).resource resource first second)) :
    ∃ names, ((Site.ofSpec first second).descend names).IsNear operand ∧ Keeps resource names := by
  rw [Strategy.resource, mem_operandsOf_flatMap] at listed
  rcases listed with ⟨field, isTop, listed⟩
  rcases exists_steps_of_outermost listed with ⟨steps, admits, near⟩
  have path := Resource.path_topLevelFields filed isTop
  refine ⟨field.names.exported :: steps, ?_, ?_⟩
  · rw [path] at near
    exact near
  · intro front nonempty isPrefix
    rcases List.prefix_cons_iff.mp isPrefix with rfl | ⟨left, rfl, leftPrefix⟩
    · exact absurd rfl nonempty
    · have here := (Strategy.admits_iff.mp admits left leftPrefix).1
      rw [path] at here
      exact here

end Equality

/-! ### Texts of operands -/

namespace Site

variable {site operand : Site} {names : List String}

theorem segments_ofSpec_descend (first second : String) (names : List String) :
    ((ofSpec first second).descend names).path.segments = names := by
  rw [Delta.segments_descend]
  rfl

/-- Names are selected one after the other. -/
theorem split_descend (words : ∀ name ∈ names, Text.IsWord name)
    (dotted : Text.IsDotted site.first.text ∧ Text.IsDotted site.second.text) :
    (Text.IsDotted (site.descend names).first.text ∧
      Text.split '.' (site.descend names).first.text = Text.split '.' site.first.text ++ names) ∧
    (Text.IsDotted (site.descend names).second.text ∧
      Text.split '.' (site.descend names).second.text =
        Text.split '.' site.second.text ++ names) := by
  induction names generalizing site with
  | nil => simpa [descend] using dotted
  | cons name rest ih =>
      have word := words name List.mem_cons_self
      have dot : Text.IsDotted "." := by decide
      have restWords := fun other inRest => words other (List.mem_cons_of_mem _ inRest)
      have inner : Text.IsDotted (site.member name).first.text ∧
          Text.IsDotted (site.member name).second.text :=
        ⟨(dotted.1.append dot).append word.isDotted, (dotted.2.append dot).append word.isDotted⟩
      have below := ih restWords inner
      simp only [member, Access.text, Access.split_member word, List.append_assoc,
        List.singleton_append] at below
      exact below

/-- What an operand near a site selects. A variable selects nothing. -/
theorem IsNear.selections (near : site.IsNear operand)
    (dotted : Text.IsDotted site.first.text ∧ Text.IsDotted site.second.text) :
    ('.' ∉ operand.first.text.toList ∨
      Access.selections operand.first.text = Text.split '.' site.first.text) ∧
    ('.' ∉ operand.second.text.toList ∨
      Access.selections operand.second.text = Text.split '.' site.second.text) := by
  have element : Text.IsWord "i" := by decide
  have entry : Text.IsWord "k" := by decide
  cases near with
  | here =>
      exact ⟨Or.inr (Access.selections_of_isDotted dotted.1),
        Or.inr (Access.selections_of_isDotted dotted.2)⟩
  | element =>
      exact ⟨Or.inr (Access.selections_index dotted.1 element),
        Or.inr (Access.selections_index dotted.2 element)⟩
  | entry =>
      exact ⟨Or.inr (Access.selections_index dotted.1 entry),
        Or.inr (Access.selections_index dotted.2 entry)⟩
  | held =>
      have firstName : '.' ∉ "av".toList := by decide
      have secondName : '.' ∉ "bv".toList := by decide
      exact ⟨Or.inl firstName, Or.inl secondName⟩

end Site

/-- Whether a line reads what lies along a path in the desired state of either side. -/
def Line.Reads (first second : String) (path : List String) (text : String) : Prop :=
  ∃ term ∈ Term.ofLine text, ∃ expression ∈ term.expression?,
    Access.Reads first second path expression

/-- The lines between the declaration of a function and its end. -/
def Line.functionBody (name text : String) : List Line :=
  let behind := (readAll text).dropWhile (fun line => declared? line.text != some name)
  behind.tail.takeWhile (· != ⟨0, "\x7d"⟩)

/-- The exported name of the member that a step leads to. -/
def Shape.Step.exported? (normalizer : Normalizer) : Shape.Step → Option String
  | .member name => some (normalizer name).exported
  | .element => none
  | .value => none

/-- A line reads no path that no operand leads along. -/
theorem Line.LooksAt.not_reads {operands : List Site} {text first second : String}
    {path : List String} (looksAt : Line.LooksAt operands text) (nonempty : path ≠ [])
    (firstDotted : Text.IsDotted first) (secondDotted : Text.IsDotted second)
    (apart : Access.Apart first second)
    (lead : ∀ operand ∈ operands, ∃ names,
      ((Site.ofSpec first second).descend names).IsNear operand ∧
        (∀ name ∈ names, Text.IsWord name) ∧ ¬path <+: names) :
    ¬Line.Reads first second path text := by
  rintro ⟨term, membership, expression, used, reads⟩
  rcases looksAt term membership expression used with noDot | ⟨operand, listed, same⟩
  · exact Access.not_reads_of_noDot noDot nonempty reads
  · rcases lead operand listed with ⟨names, near, words, past⟩
    have spec : Text.IsDotted ".Spec" := by decide
    rcases Site.text_ofSpec first second with ⟨firstText, secondText⟩
    have dotted : Text.IsDotted (Site.ofSpec first second).first.text ∧
        Text.IsDotted (Site.ofSpec first second).second.text := by
      rw [firstText, secondText]
      exact ⟨firstDotted.append spec, secondDotted.append spec⟩
    rcases Site.split_descend words dotted with ⟨⟨ofFirst, firstCut⟩, ofSecond, secondCut⟩
    rw [firstText] at firstCut
    rw [secondText] at secondCut
    rcases near.selections ⟨ofFirst, ofSecond⟩ with ⟨firstSelects, secondSelects⟩
    rcases same with rfl | rfl
    · rcases firstSelects with noDot | selects
      · exact Access.not_reads_of_noDot noDot nonempty reads
      · exact Access.not_reads_of_apart apart (selects.trans firstCut) past reads
    · rcases secondSelects with noDot | selects
      · exact Access.not_reads_of_noDot noDot nonempty reads
      · exact Access.not_reads_of_apart apart.symm (selects.trans secondCut) past reads.symm

namespace Equality

section

variable {definition : ResourceDefinition} {settings : Settings} {normalizer : Normalizer}
  {resource : Resource} {field : Field} {first second : String} {level : Nat}
  {checks : List Check} {code : EqualityCode}

/-- Names that pass no ignored member do not begin with the path of an ignored field. -/
theorem Keeps.not_prefix {names : List String} (keeps : Keeps resource names)
    (filed : field.IsFiled) (ignored : resource.isCompareIgnored field.path = true) :
    ¬field.path.segments <+: names := by
  intro within
  rcases filed with ⟨parent, path⟩
  have notIgnored := keeps field.path.segments (by simp [path]) within
  rw [notIgnored] at ignored
  exact Bool.noConfusion ignored

/-- The operands of the body, whatever names there are. -/
theorem operands_past_ignored
    (joined : Resource.ofDefinition definition settings normalizer = .ok resource)
    (listed : field ∈ resource.specFields.values)
    (ignored : resource.isCompareIgnored field.path = true)
    (planned : resourceChecks resource normalizer first second = .ok checks) :
    ∀ operand ∈ Check.operandsOf checks, ∃ names,
      ((Site.ofSpec first second).descend names).IsNear operand ∧
        ¬field.path.segments <+: names := by
  have filed := Resource.filed_specFields joined
  rcases List.mem_map.mp listed with ⟨entry, isEntry, rfl⟩
  rcases Outcome.of_bind_eq_ok planned with ⟨tag, _, made⟩
  cases made
  intro operand isOperand
  rcases exists_names_of_operand filed isOperand with ⟨names, near, keeps⟩
  exact ⟨names, near, keeps.not_prefix (filed entry isEntry).2 ignored⟩

/-- No line of the body reads an ignored member. -/
theorem not_reads_of_ignored
    (joined : Resource.ofDefinition definition settings normalizer = .ok resource)
    (listed : field ∈ resource.specFields.values)
    (ignored : resource.isCompareIgnored field.path = true)
    (named : (resourceCall resource normalizer first second level).IsNamed
      (Shape.Named normalizer Text.IsWord Text.IsWord))
    (apart : Access.Apart first second)
    (planned : resourceChecks resource normalizer first second = .ok checks) :
    ∀ line ∈ Line.readAll (Code.renderBehindBlank (Check.codeOf action checks) level),
      ¬Line.Reads first second field.path.segments line.text := by
  have wholeRoot := Call.isWhole_root named
  have sound := Call.soundOf_checks (Shape.inherited_named normalizer Text.IsWord) named planned
  have words : ∀ shape : Shape,
      shape.IsPlain (Shape.Named normalizer Text.IsWord Text.IsWord) → Text.IsWord shape.name :=
    fun shape plain => plain.named
  have lead : ∀ operand ∈ Check.operandsOf checks, ∃ names,
      ((Site.ofSpec first second).descend names).IsNear operand ∧
        (∀ name ∈ names, Text.IsWord name) ∧ ¬field.path.segments <+: names := by
    intro operand isOperand
    rcases operands_past_ignored joined listed ignored planned operand isOperand with
      ⟨names, near, past⟩
    rcases Check.exists_reached_of checks sound operand isOperand with ⟨more, reached⟩
    have pathWords := reached.pathWords Site.isWord_ofSpec
    rw [near.path, Site.segments_ofSpec_descend] at pathWords
    exact ⟨names, near, pathWords, past⟩
  have nonempty : field.path.segments ≠ [] := by
    rcases List.mem_map.mp listed with ⟨entry, isEntry, rfl⟩
    rcases (Resource.filed_specFields joined entry isEntry).2 with ⟨parent, path⟩
    simp [path]
  intro line membership
  rw [Check.readAll_body isFlat_action sound wholeRoot words level
    (fun _ _ _ _ => isPlain_action)] at membership
  rcases List.mem_cons.mp membership with rfl | inCode
  · rintro ⟨term, inBlank, _⟩
    have none : Term.ofLine Line.blank.text = [] := by decide
    rw [none] at inBlank
    exact absurd inBlank List.not_mem_nil
  · have looksAt := Check.looksAt_codeOf wholeRoot words checks level sound line inCode
    exact looksAt.not_reads nonempty named.1 named.2.1 apart lead

/-- A helper is written for a structure that stands directly in a collection. -/
theorem helper_holds {before after : HelperQueue} {added : List Shape} {helpers : List Helper}
    (joined : Resource.ofDefinition definition settings normalizer = .ok resource)
    (nonePending : before.pending = [])
    (succeeds : (resourceCall resource normalizer first second level).Succeeds before checks added
      helpers code after) :
    ∀ helper ∈ helpers, definition.spec.Holds helper.shape := by
  have noneHeld : ∀ shape ∈ before.pending, resource.Holds shape := by
    simp [nonePending]
  have ofAdded := succeeds.passed resource.Holds (passedOn_resourceHolds resource)
    (asks_resourceHolds resource normalizer first second level) noneHeld
  intro helper isWritten
  have holds := (succeeds.advances.forall_pending noneHeld ofAdded).1 helper.shape
    (List.mem_map_of_mem isWritten)
  exact holds.spec joined

/-- A structure in the shape of a written helper stands behind a step into a collection. -/
theorem exists_step_of_helper {before after : HelperQueue} {added : List Shape}
    {helpers : List Helper}
    (joined : Resource.ofDefinition definition settings normalizer = .ok resource)
    (nonePending : before.pending = [])
    (succeeds : (resourceCall resource normalizer first second level).Succeeds before checks added
      helpers code after)
    {name : String} {place : List Shape.Step}
    (single : definition.spec.structurePlaces name = [place]) :
    ∀ helper ∈ helpers, ∀ inner ∈ helper.shape.structurePlaces name,
      ∃ rest step, step.isInner = true ∧ place = rest ++ step :: inner := by
  intro helper isWritten inner isPlace
  have holds := helper_holds joined nonePending succeeds helper isWritten
  rcases holds.exists_structurePlace isPlace with ⟨rest, step, isInner, whole⟩
  rw [single, List.mem_singleton] at whole
  exact ⟨rest, step, isInner, whole.symm⟩

/-- No helper is written for a structure whose only place is not directly in a collection. -/
theorem helperFor_not_mem_definitions {before after : HelperQueue} {added : List Shape}
    {helpers : List Helper}
    (joined : Resource.ofDefinition definition settings normalizer = .ok resource)
    (nonePending : before.pending = [])
    (succeeds : (resourceCall resource normalizer first second level).Succeeds before checks added
      helpers code after)
    (named : (resourceCall resource normalizer first second level).IsNamed
      (Shape.Named normalizer Text.IsWord Text.IsWord))
    {name : String} {place : List Shape.Step}
    (single : definition.spec.structurePlaces name = [place])
    (elsewhere : ∀ step ∈ place.getLast?, step.isInner = false) :
    helperFor name ∉ Line.definitionsIn code.helpers := by
  have nonePlain : ∀ shape ∈ before.pending,
      shape.IsPlain (Shape.Named normalizer Text.IsWord Text.IsWord) := by
    simp [nonePending]
  have planned := succeeds.plainHelpers (Shape.inherited_named normalizer Text.IsWord)
    (fun _ plain => plain.named) named nonePlain
  rw [succeeds.definitionsIn planned]
  intro isDefined
  rcases List.mem_map.mp isDefined with ⟨helper, isWritten, sameHelper⟩
  have sameName : helper.shape.name = name := helperFor_injective sameHelper
  have isStructure : helper.shape.isStructure = true := by
    rcases (planned.plain helper isWritten).2 with ⟨members, found⟩
    simp [Shape.isStructure, found]
  have isPlace := Shape.nil_mem_structurePlaces isStructure
  rw [sameName] at isPlace
  rcases exists_step_of_helper joined nonePending succeeds single helper isWritten [] isPlace with
    ⟨rest, step, isInner, same⟩
  have isLast : step ∈ place.getLast? := by
    rw [same, List.getLast?_concat]
    exact rfl
  rw [elsewhere step isLast] at isInner
  exact Bool.noConfusion isInner

/--
Equality code leaves out an ignored field, at whatever depth it is registered. Each operand of
its body lies at names that do not begin with the path of the field, so that no line of the body
reads the field, if names and operands are words with dots between them and the operands tell
their sides apart. A structure that stands at one place only is inside of a written helper only if
its place lies in a collection, and a helper of its own is written only if the place is directly
in one.
-/
theorem ignored_excluded {queue : HelperQueue}
    (joined : Resource.ofDefinition definition settings normalizer = .ok resource)
    (listed : field ∈ resource.specFields.values)
    (ignored : resource.isCompareIgnored field.path = true)
    (written : compareResource resource normalizer first second level .empty = (.ok code, queue)) :
    ∃ checks helpers, resourceChecks resource normalizer first second = .ok checks ∧
      code.body = Code.renderBehindBlank (Check.codeOf action checks) level ∧
      code.helpers = helpersText helpers ∧
      (∀ operand ∈ Check.operandsOf checks, ∃ names,
        ((Site.ofSpec first second).descend names).IsNear operand ∧
          ¬field.path.segments <+: names) ∧
      (∀ name place, definition.spec.structurePlaces name = [place] →
        ∀ helper ∈ helpers, ∀ inner ∈ helper.shape.structurePlaces name,
          ∃ rest step, step.isInner = true ∧ place = rest ++ step :: inner) ∧
      (resource.Named Text.IsWord (Shape.Named normalizer Text.IsWord Text.IsWord) →
        Text.IsDotted first → Text.IsDotted second →
          (Access.Apart first second →
            ∀ line ∈ Line.readAll code.body,
              ¬Line.Reads first second field.path.segments line.text) ∧
          ∀ name place, definition.spec.structurePlaces name = [place] →
            (∀ step ∈ place.getLast?, step.isInner = false) →
              helperFor name ∉ Line.definitionsIn code.helpers) := by
  have run : (resourceCall resource normalizer first second level).run .empty = (.ok code, queue) :=
    written
  rcases Call.succeeds_of_run run with ⟨checks, added, helpers, succeeds⟩
  refine ⟨checks, helpers, succeeds.planned, succeeds.body, succeeds.text,
    operands_past_ignored joined listed ignored succeeds.planned, ?_, ?_⟩
  · intro name place single
    exact exists_step_of_helper joined rfl succeeds single
  · intro named firstDotted secondDotted
    have callNamed : (resourceCall resource normalizer first second level).IsNamed
        (Shape.Named normalizer Text.IsWord Text.IsWord) := ⟨firstDotted, secondDotted, named⟩
    constructor
    · intro apart
      rw [succeeds.body]
      exact not_reads_of_ignored joined listed ignored callNamed apart succeeds.planned
    · intro name place single elsewhere
      exact helperFor_not_mem_definitions joined rfl succeeds callNamed single elsewhere

end

/-- The structure of the elements of a list. -/
def item : Shape :=
  .struct "Item" [("Name", Shape.scalarOf .string), ("Secret", Shape.scalarOf .string)]

/-- A definition with a structure and a list of items. -/
def secretsInside : ResourceDefinition where
  name := "Vault"
  spec := .struct "VaultSpec" [
    ("Config", .struct "Config" [
      ("Mode", Shape.scalarOf .string),
      ("Token", Shape.scalarOf .string)]),
    ("Items", .sequence "ItemList" item)]
  status := none
  operations := ∅

/-- Settings that leave out a member of the structure and one of the items. -/
def secretsIgnored : Settings where
  resources := .ofList [("Vault", {
    fields := .ofList [("Items.Secret", { isCompareIgnored := true })]
    ignoredPaths := ["Spec.Config.Token"] })]

theorem written_of_isSome {outcome : Except CompareError EqualityCode × HelperQueue}
    (succeeds : outcome.1.toOption.isSome = true) : ∃ code queue, outcome = (.ok code, queue) := by
  rcases outcome with ⟨result, queue⟩
  cases result with
  | error error => simp [Except.toOption] at succeeds
  | ok code => exact ⟨code, queue, rfl⟩

/-- The token is left out, and its structure has no helper. -/
theorem ignored_excluded_token :
    ∃ resource field code queue,
      Resource.ofDefinition secretsInside secretsIgnored .default = .ok resource ∧
      field ∈ resource.specFields.values ∧ field.path = ⟨["Config", "Token"]⟩ ∧
      resource.isCompareIgnored field.path = true ∧
      compareResource resource .default "a.ko" "b.ko" 1 .empty = (.ok code, queue) ∧
      (∀ line ∈ Line.readAll code.body, ¬Line.Reads "a.ko" "b.ko" ["Config", "Token"] line.text) ∧
      helperFor "Config" ∉ Line.definitionsIn code.helpers := by
  have facts : ∃ resource ∈ (Resource.ofDefinition secretsInside secretsIgnored
      .default).toOption,
        resource.Named Text.IsWord (Shape.Named .default Text.IsWord Text.IsWord) ∧
          (∃ field ∈ resource.specFields.values, field.path = ⟨["Config", "Token"]⟩ ∧
            resource.isCompareIgnored field.path = true) ∧
          (compareResource resource .default "a.ko" "b.ko" 1 .empty).1.toOption.isSome = true := by
    decide +kernel
  rcases facts with ⟨resource, made, named, ⟨field, listed, path, ignored⟩, succeeds⟩
  have joined := Outcome.of_mem_toOption made
  rcases written_of_isSome succeeds with ⟨code, queue, written⟩
  have apart : Access.Apart "a.ko" "b.ko" := ⟨by decide, by decide, by decide⟩
  have single : secretsInside.spec.structurePlaces "Config" = [[.member "Config"]] := by
    decide +kernel
  have elsewhere : ∀ step ∈ [Shape.Step.member "Config"].getLast?, step.isInner = false := by
    decide
  rcases ignored_excluded joined listed ignored written with
    ⟨checks, helpers, _, _, _, _, _, ofTexts⟩
  rcases ofTexts named (by decide) (by decide) with ⟨past, unwritten⟩
  rw [path] at past
  exact ⟨resource, field, code, queue, joined, listed, path, ignored, written, past apart,
    unwritten "Config" _ single elsewhere⟩

/--
Helpers know no settings, so that an ignored member of the elements of a list is compared, even
if its structure stands nowhere else.
-/
theorem ignored_element_compared :
    ¬∀ (definition : ResourceDefinition) (settings : Settings) (normalizer : Normalizer)
      (resource : Resource) (field : Field) (first second : String) (level : Nat)
      (code : EqualityCode) (queue : HelperQueue),
        Resource.ofDefinition definition settings normalizer = .ok resource →
          resource.Named Text.IsWord (Shape.Named normalizer Text.IsWord Text.IsWord) →
            field ∈ resource.specFields.values → resource.isCompareIgnored field.path = true →
              compareResource resource normalizer first second level .empty = (.ok code, queue) →
                ∀ place name members, definition.spec.Occurs place (.struct name members) →
                  definition.spec.structurePlaces name = [place] →
                    ∀ member ∈ members, field.path.segments =
                      place.filterMap (Shape.Step.exported? normalizer) ++
                        [(normalizer member.1).exported] →
                      ∀ line ∈ Line.functionBody (helperFor name) code.helpers,
                        ∀ term ∈ Term.ofLine line.text,
                          term.expression? ≠ some ("a." ++ (normalizer member.1).exported) := by
  intro omits
  have facts : ∃ resource ∈ (Resource.ofDefinition secretsInside secretsIgnored
      .default).toOption,
        resource.Named Text.IsWord (Shape.Named .default Text.IsWord Text.IsWord) ∧
          (∃ field ∈ resource.specFields.values, field.path = ⟨["Items", "Secret"]⟩ ∧
            resource.isCompareIgnored field.path = true) ∧
            (compareResource resource .default "a.ko" "b.ko" 1 .empty).1.toOption.isSome = true ∧
              (compareResource resource .default "a.ko" "b.ko" 1 .empty).2.size = 1 := by
    decide +kernel
  rcases facts with ⟨resource, made, named, ⟨field, listed, path, ignored⟩, succeeds, size⟩
  have joined := Outcome.of_mem_toOption made
  rcases written_of_isSome succeeds with ⟨code, queue, written⟩
  rw [written] at size
  have run : (resourceCall resource .default "a.ko" "b.ko" 1).run .empty = (.ok code, queue) :=
    written
  rcases Call.succeeds_of_run run with ⟨checks, added, helpers, succeeded⟩
  have callNamed : (resourceCall resource .default "a.ko" "b.ko" 1).IsNamed
      (Shape.Named .default Text.IsWord Text.IsWord) := by
    have firstDotted : Text.IsDotted "a.ko" := by decide
    have secondDotted : Text.IsDotted "b.ko" := by decide
    exact ⟨firstDotted, secondDotted, named⟩
  have planned := succeeded.plainHelpers (Shape.inherited_named .default Text.IsWord)
    (fun _ plain => plain.named) callNamed (by simp [HelperQueue.empty])
  -- The only structure that a collection holds is that of the items, so its helper is written.
  have ofItems : ∀ helper ∈ helpers, helper = Helper.ofShape .default item := by
    intro helper isWritten
    have isHeld := Shape.mem_held.mpr (helper_holds joined rfl succeeded helper isWritten)
    have held : secretsInside.spec.held = [item] := rfl
    rw [held, List.mem_singleton] at isHeld
    rw [succeeded.ofShape helper isWritten, isHeld]
    rfl
  have single : helpers = [Helper.ofShape .default item] := by
    have count : helpers.length = 1 := by
      rw [← size, HelperQueue.size, succeeded.advances.requested, ← succeeded.taken rfl]
      simp [HelperQueue.empty]
    rcases List.length_eq_one_iff.mp count with ⟨helper, rfl⟩
    rw [ofItems helper List.mem_cons_self]
  have compared : ∃ line ∈ Line.functionBody (helperFor "Item") code.helpers,
      ∃ term ∈ Term.ofLine line.text, term.expression? = some "a.Secret" := by
    rw [Line.functionBody, succeeded.text, planned.readAll, single]
    decide +kernel
  rcases compared with ⟨line, inBody, term, inLine, reads⟩
  have isMember : ("Items", Shape.sequence "ItemList" item) ∈
      secretsInside.spec.members?.getD [] := by
    simp [secretsInside, Shape.members?]
  have occurs : secretsInside.spec.Occurs [.member "Items", .element] item :=
    .member isMember (.element (.here item))
  exact omits _ _ _ resource field "a.ko" "b.ko" 1 code queue joined named listed ignored written
    _ _ _ occurs (by decide +kernel) ("Secret", Shape.scalarOf .string) (by simp)
    (by rw [path]; decide) line inBody term inLine reads

end Equality

end Reconcile
