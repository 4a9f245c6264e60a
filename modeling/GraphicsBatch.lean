import GraphicsBatch.Application
import GraphicsBatch.Display.Row
import GraphicsBatch.Main
import GraphicsBatch.Proofs.Scan
import GraphicsBatch.Source.Reader
import GraphicsBatch.Proofs.Reading
import GraphicsBatch.Proofs.RoundTrip
import GraphicsBatch.Proofs.Bindings
import GraphicsBatch.Proofs.Reachable
import GraphicsBatch.Proofs.Errors
import GraphicsBatch.Proofs.LineMachine
import GraphicsBatch.Proofs.Refinement
import GraphicsBatch.Proofs.Chains
import GraphicsBatch.Proofs.Failures
import GraphicsBatch.Proofs.Matching
import GraphicsBatch.Proofs.Recorded
import GraphicsBatch.Proofs.Dispatch
import GraphicsBatch.Proofs.Alike
import GraphicsBatch.Proofs.Tracking
import GraphicsBatch.Proofs.Followed
import GraphicsBatch.Proofs.Joined
import GraphicsBatch.Proofs.Counterparts
import GraphicsBatch.Proofs.Revised
import GraphicsBatch.Proofs.Spacing
import GraphicsBatch.Proofs.Paired
import GraphicsBatch.Proofs.Simulation
import GraphicsBatch.Proofs.Recased
import GraphicsBatch.Proofs.Invariants
import GraphicsBatch.Proofs.Mirrored
import GraphicsBatch.Proofs.Magnitude
import GraphicsBatch.Proofs.Refusals
import GraphicsBatch.Proofs.Turns
import GraphicsBatch.Proofs.Unattended
import GraphicsBatch.Proofs.Drawing
import GraphicsBatch.Proofs.Effects
import GraphicsBatch.Proofs.Histories
import GraphicsBatch.Proofs.Deadlines
import GraphicsBatch.Proofs.Leftovers
import GraphicsBatch.Proofs.Underway
import GraphicsBatch.Proofs.Closing
import GraphicsBatch.Proofs.Moments
import GraphicsBatch.Proofs.Forward
import GraphicsBatch.Proofs.Bracketed
import GraphicsBatch.Proofs.ArgumentLists
import GraphicsBatch.Proofs.Arithmetic
import GraphicsBatch.Proofs.Menus
import GraphicsBatch.Proofs.Places
import GraphicsBatch.Proofs.Handled
import GraphicsBatch.Proofs.Placed
import GraphicsBatch.Proofs.Verdicts
import GraphicsBatch.Proofs.Pedantic
import GraphicsBatch.Proofs.Located
import GraphicsBatch.Proofs.Gathering
import GraphicsBatch.Proofs.Numerals
import GraphicsBatch.Proofs.Converted
import GraphicsBatch.Proofs.Overriding
import GraphicsBatch.Proofs.TypedSettings
import GraphicsBatch.Proofs.Fitting
import GraphicsBatch.Proofs.Rectangles
import GraphicsBatch.Proofs.MessageBoxes
import GraphicsBatch.Proofs.Skipping
import GraphicsBatch.Proofs.Popups
import GraphicsBatch.Proofs.MenuClicks
import GraphicsBatch.Proofs.Lettering
import GraphicsBatch.Proofs.Twins
import GraphicsBatch.Proofs.FontCache
