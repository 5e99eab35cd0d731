import Pseudocode.Main
import Pseudocode.Workspace
import Pseudocode.Proofs.Aliasing
import Pseudocode.Proofs.Recycling
import Pseudocode.Proofs.Framing
import Pseudocode.Proofs.Dialogue
import Pseudocode.Proofs.Locations
import Pseudocode.Proofs.Policies
import Pseudocode.Proofs.Tracing
import Pseudocode.Proofs.Termination
import Pseudocode.Proofs.DepthLimit
import Pseudocode.Proofs.OptionalTypes
import Pseudocode.Proofs.OutputLimit
import Pseudocode.Proofs.Permanence
import Pseudocode.Proofs.Kinds
import Pseudocode.Proofs.Readback
import Pseudocode.Proofs.Arithmetic
import Pseudocode.Proofs.Setups
import Pseudocode.Proofs.Outcomes
import Pseudocode.Proofs.Progressions
import Pseudocode.Proofs.Layout
import Pseudocode.Proofs.FiniteMap
import Pseudocode.Proofs.Resolution
import Pseudocode.Proofs.Atomicity
import Pseudocode.Proofs.Arguments
import Pseudocode.Proofs.Passing
import Pseudocode.Proofs.CallProtocol
import Pseudocode.Proofs.Blocks
import Pseudocode.Proofs.Tiling
import Pseudocode.Proofs.Chunking
import Pseudocode.Proofs.Spacing
import Pseudocode.Proofs.Paths
import Pseudocode.Proofs.Searching
import Pseudocode.Proofs.FileTrees
import Pseudocode.Proofs.Segments
import Pseudocode.Proofs.Fetching
import Pseudocode.Proofs.Checkouts
import Pseudocode.Proofs.Annotations
import Pseudocode.Proofs.ParameterLists
import Pseudocode.Proofs.ImpliedTypes
import Pseudocode.Proofs.Headway
