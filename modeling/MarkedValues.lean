import MarkedValues.Value.Text
import MarkedValues.Value.Equality
import MarkedValues.Standard.Table
import MarkedValues.Proofs.Call.Contract
import MarkedValues.Proofs.Call.MarkFlow
import MarkedValues.Proofs.Ty.Unification
import MarkedValues.Proofs.Ty.Keeping
import MarkedValues.Proofs.Ty.Targets
import MarkedValues.Proofs.Value.WellFormed
import MarkedValues.Proofs.Value.KeptMarks
import MarkedValues.Proofs.Standard.Casts
import MarkedValues.Proofs.Standard.Environment
import MarkedValues.Proofs.Standard.Fresh
import MarkedValues.Proofs.Standard.Passing
import MarkedValues.Proofs.Call.Table
import MarkedValues.Proofs.Standard.MarkFlow
import MarkedValues.Proofs.Call.Forgetting
import MarkedValues.Proofs.Standard.Rules
import MarkedValues.Proofs.Standard.Forgetting
import MarkedValues.Proofs.Call.Soundness
import MarkedValues.Regex.Matching
import MarkedValues.Proofs.Standard.Soundness.Collections
import MarkedValues.Proofs.Standard.Soundness.Table
import MarkedValues.Proofs.Value.Completion
import MarkedValues.Proofs.Value.Equality
import MarkedValues.Proofs.Value.Sameness
import MarkedValues.Proofs.Value.Ordering
import MarkedValues.Proofs.Value.Sets
import MarkedValues.Proofs.Value.Knowledge
import MarkedValues.Proofs.Call.Resolving
import MarkedValues.Proofs.Standard.Promises
import MarkedValues.Proofs.Standard.Scanning
import MarkedValues.Proofs.Value.Ties
import MarkedValues.Proofs.Value.Numbers
import MarkedValues.Proofs.Value.Distinct
import MarkedValues.Proofs.Value.SetAlgebra
import MarkedValues.Proofs.Value.OpenElements
import MarkedValues.Proofs.Value.Converted
import MarkedValues.Proofs.Standard.SetAlgebra
import MarkedValues.Proofs.Ty.Absorption
import MarkedValues.Proofs.Value.CommonTypes
import MarkedValues.Proofs.Value.Symmetry
import MarkedValues.Proofs.Text.Digits
import MarkedValues.Proofs.Number.Whole
import MarkedValues.Proofs.Net.Reading
import MarkedValues.Proofs.Net.Writing
import MarkedValues.Proofs.Net.Containment
import MarkedValues.Proofs.Net.Allocation
import MarkedValues.Proofs.Net.Mapped
import MarkedValues.Proofs.Call.Primitives
import MarkedValues.Proofs.Standard.Network
import MarkedValues.Proofs.Standard.Subnets
import MarkedValues.Proofs.Standard.Allocation
import MarkedValues.Proofs.Standard.EqualParts
import MarkedValues.Proofs.Standard.Hosts
import MarkedValues.Proofs.Standard.Lengths
import MarkedValues.Proofs.Standard.Agreement
import MarkedValues.Proofs.Call.Blame
import MarkedValues.Proofs.Standard.Blame.Scalars
import MarkedValues.Proofs.Standard.Blame.Collections
import MarkedValues.Proofs.Standard.Blame.Table
import MarkedValues.Proofs.Standard.Sensitivity
import MarkedValues.Proofs.Value.Display
import MarkedValues.Proofs.Value.Misfits
import MarkedValues.Proofs.Standard.Transposition
import MarkedValues.Proofs.Call.Delivery
import MarkedValues.Proofs.Standard.Flattening
import MarkedValues.Proofs.Standard.Merging
import MarkedValues.Proofs.Standard.Rejoining
import MarkedValues.Proofs.Standard.KeyMatching
import MarkedValues.Proofs.Marks
import MarkedValues.Proofs.Standard.Splitting
import MarkedValues.Proofs.Standard.Numerals
