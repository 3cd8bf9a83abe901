import QuantNet.Graph.Evaluation
import QuantNet.Graph.Operation
import QuantNet.Graph.Printer
import QuantNet.Layer.Templates
import QuantNet.Pass.Pipeline
import QuantNet.Proofs.Computation
import QuantNet.Proofs.Graph.Acceptance
import QuantNet.Proofs.Graph.Answering
import QuantNet.Proofs.Graph.Counting
import QuantNet.Proofs.Graph.Entries
import QuantNet.Proofs.Graph.Execution
import QuantNet.Proofs.Graph.Handles
import QuantNet.Proofs.Graph.History
import QuantNet.Proofs.Graph.Insertion
import QuantNet.Proofs.Graph.Lifetimes
import QuantNet.Proofs.Graph.Lookup
import QuantNet.Proofs.Graph.Order
import QuantNet.Proofs.Graph.Preservation
import QuantNet.Proofs.Graph.Rename
import QuantNet.Proofs.Graph.Replacement
import QuantNet.Proofs.Graph.Revaluation
import QuantNet.Proofs.Graph.Sorted
import QuantNet.Proofs.Graph.Topological
import QuantNet.Proofs.Graph.Valuation
import QuantNet.Proofs.Graph.WellFormed
import QuantNet.Proofs.Layer.Decoding
import QuantNet.Proofs.Layer.Evaluation
import QuantNet.Proofs.Layer.Overlap
import QuantNet.Proofs.Layer.Registrations
import QuantNet.Proofs.Layer.Requantizing
import QuantNet.Proofs.Layer.Rewriting
import QuantNet.Proofs.Pass.Carrying
import QuantNet.Proofs.Pass.Chains
import QuantNet.Proofs.Pass.Condensation
import QuantNet.Proofs.Pass.Consistency
import QuantNet.Proofs.Pass.Declarations
import QuantNet.Proofs.Pass.Descent
import QuantNet.Proofs.Pass.Editing
import QuantNet.Proofs.Pass.Effects
import QuantNet.Proofs.Pass.EncodedFusion
import QuantNet.Proofs.Pass.Equivalence
import QuantNet.Proofs.Pass.Fixpoint
import QuantNet.Proofs.Pass.Fusing
import QuantNet.Proofs.Pass.Interleaving
import QuantNet.Proofs.Pass.Inversion
import QuantNet.Proofs.Pass.Lifetimes
import QuantNet.Proofs.Pass.Lossless
import QuantNet.Proofs.Pass.Meaning
import QuantNet.Proofs.Pass.ModeOrder
import QuantNet.Proofs.Pass.ModeSetting
import QuantNet.Proofs.Pass.Normalization
import QuantNet.Proofs.Pass.Ownership
import QuantNet.Proofs.Pass.Phases
import QuantNet.Proofs.Pass.Plain
import QuantNet.Proofs.Pass.Refusing
import QuantNet.Proofs.Pass.Reporting
import QuantNet.Proofs.Pass.Requantizing
import QuantNet.Proofs.Pass.Resuming
import QuantNet.Proofs.Pass.Retuning
import QuantNet.Proofs.Pass.Rewrite
import QuantNet.Proofs.Pass.Rounds
import QuantNet.Proofs.Pass.Safety
import QuantNet.Proofs.Pass.Scanning
import QuantNet.Proofs.Pass.Settling
import QuantNet.Proofs.Pass.Stopping
import QuantNet.Proofs.Pass.Surgery
import QuantNet.Proofs.Pass.TopologyRuns
import QuantNet.Proofs.Pass.Trace
import QuantNet.Proofs.Pass.UnitScales
import QuantNet.Proofs.Precision.Agreement
import QuantNet.Proofs.Precision.Dimensions
import QuantNet.Proofs.Precision.Grammar
import QuantNet.Proofs.Precision.Inverse
import QuantNet.Proofs.Precision.ModeTokens
import QuantNet.Proofs.Precision.Rereading
import QuantNet.Proofs.Precision.Suffix
import QuantNet.Proofs.Quantizer.ChannelScales
import QuantNet.Proofs.Quantizer.Channels
import QuantNet.Proofs.Quantizer.Divisors
import QuantNet.Proofs.Quantizer.ExactLevels
import QuantNet.Proofs.Quantizer.Idempotence
import QuantNet.Proofs.Quantizer.NearestLevel
import QuantNet.Proofs.Quantizer.Outcome
import QuantNet.Proofs.Scalar.Laws
import QuantNet.Proofs.Scalar.Rounding
import QuantNet.Proofs.Tensor.Affine
import QuantNet.Proofs.Tensor.Composition
import QuantNet.Proofs.Tensor.Elements
import QuantNet.Proofs.Tensor.Fusion
import QuantNet.Proofs.Tensor.Joining
import QuantNet.Proofs.Tensor.Reading
import QuantNet.Proofs.Tensor.Rescaling
import QuantNet.Proofs.Tensor.Reshaping
import QuantNet.Proofs.Tensor.Slices
import QuantNet.Proofs.Tensor.Stretching
import QuantNet.Proofs.Text.Literals
import QuantNet.Proofs.Text.Splitting
import QuantNet.Scalar.Binary32
import QuantNet.Scalar.Exact
