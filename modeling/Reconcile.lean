import Reconcile.Compare.Delta
import Reconcile.Compare.Equality.Basic
import Reconcile.Compare.Outline
import Reconcile.Difference
import Reconcile.Identifiers
import Reconcile.References.Code
import Reconcile.Resource.Registration
import Reconcile.Settings.Document
import Reconcile.Synced.Code
import Reconcile.Tags.Canonical
import Reconcile.Tags.Converter
import Reconcile.Proofs.Code.Reading
import Reconcile.Proofs.Code.Blocks
import Reconcile.Proofs.Code.Terms
import Reconcile.Proofs.Shape.Naming
import Reconcile.Proofs.Compare.Emission
import Reconcile.Proofs.Compare.Calls
import Reconcile.Proofs.Compare.Closure
import Reconcile.Proofs.Compare.Coverage
import Reconcile.Proofs.Compare.Loss
import Reconcile.Proofs.Compare.NilSafety
import Reconcile.Proofs.Compare.Contexts
import Reconcile.Proofs.Compare.Nesting
import Reconcile.Proofs.Compare.Records
import Reconcile.Proofs.Compare.Siblings
import Reconcile.Proofs.Compare.Removal
import Reconcile.Proofs.Compare.Agreement
import Reconcile.Proofs.Compare.References
import Reconcile.Proofs.Compare.Keys
import Reconcile.Proofs.Compare.Ignoring
import Reconcile.Proofs.Compare.TagCalls
import Reconcile.Proofs.Compare.Reordering
import Reconcile.Proofs.Compare.Permuting
import Reconcile.Proofs.References.Failing
import Reconcile.Proofs.References.Targets
import Reconcile.Proofs.Resource.Ancestors
import Reconcile.Proofs.Resource.Reaching
import Reconcile.Proofs.Resource.ReferenceFields
import Reconcile.Proofs.Resource.Registry
import Reconcile.Proofs.Tags.Conversion
import Reconcile.Proofs.Tags.Replay
import Reconcile.Proofs.Tags.Histories
import Reconcile.Proofs.Tags.Extensionality
import Reconcile.Proofs.Synced.Guards
import Reconcile.Proofs.Synced.Variables
import Reconcile.Proofs.Synced.Acceptance
import Reconcile.Proofs.Synced.Literals
import Reconcile.Proofs.Code.Variables
import Reconcile.Proofs.References.Lines
import Reconcile.Proofs.References.Loops
import Reconcile.Proofs.References.Scoping
import Reconcile.Proofs.Tags.Acceptance
import Reconcile.Proofs.Tags.MemberNames
import Reconcile.Proofs.Resource.Members
import Reconcile.Proofs.Identifiers.Distinct
import Reconcile.Proofs.Identifiers.Modes
import Reconcile.Proofs.Shape.Grammar
import Reconcile.Proofs.Settings.Renames
import Reconcile.Proofs.FieldPath.Parsing
import Reconcile.Proofs.FieldPath.Leading
import Reconcile.Proofs.DifferenceLog
import Reconcile.Proofs.References.Absence
import Reconcile.Proofs.References.Copying
import Reconcile.Proofs.References.Ordering
import Reconcile.Proofs.Compare.Requests
import Reconcile.Proofs.Names
