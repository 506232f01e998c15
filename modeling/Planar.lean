import Planar.Main
import Planar.Proofs.Plane.CanonicalRuns
import Planar.Proofs.Plane.Meaning
import Planar.Proofs.Run.Levels
import Planar.Proofs.Source.Languages
import Planar.Proofs.Source.Scoping
import Planar.Proofs.Source.RoundTrip
import Planar.Reference
import Planar.Trace.Probe
import Planar.Proofs.Source.ErrorPlace
import Planar.Proofs.Number.SignedZero
import Planar.Proofs.Run.Alike
import Planar.Proofs.Source.Listing
import Planar.Proofs.Run.Rerun
import Planar.Proofs.Run.Transparency
import Planar.Proofs.Drawing.Window
import Planar.Proofs.Drawing.Crossings
import Planar.Proofs.Drawing.Containment
import Planar.Proofs.Drawing.Visibility
import Planar.Proofs.Run.Quotients
import Planar.Proofs.Run.Endings
import Planar.Proofs.Run.Bracketing
import Planar.Proofs.Plane.Dispatch
import Planar.Proofs.Plane.Overlap
import Planar.Proofs.Plane.Translation
import Planar.Proofs.Normal.Frame
import Planar.Proofs.Normal.FixedPoint
import Planar.Proofs.Binding.FreeNames
import Planar.Proofs.Binding.Inlining
import Planar.Proofs.Source.Violations
import Planar.Proofs.Source.Places
import Planar.Proofs.Source.Tiling
import Planar.Proofs.Source.Shapes
import Planar.Proofs.Source.Snippets
import Planar.Proofs.Source.Layout
import Planar.Proofs.Source.Printers
import Planar.Proofs.Run.Visits
import Planar.Proofs.Drawing.Extent
import Planar.Proofs.Drawing.Chords
import Planar.Proofs.Drawing.Decimals
import Planar.Proofs.Drawing.Formulas
import Planar.Proofs.Source.NumberText
