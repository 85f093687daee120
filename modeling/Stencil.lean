import Stencil.Json.Reader
import Stencil.Options.Json
import Stencil.Proofs.Checked.Render
import Stencil.Proofs.Condition.Order
import Stencil.Proofs.Condition.Quoted
import Stencil.Proofs.Json.Options
import Stencil.Proofs.Json.RoundTrip
import Stencil.Proofs.Number.Display
import Stencil.Proofs.Render.Discarded
import Stencil.Proofs.Render.Division
import Stencil.Proofs.Render.Frame
import Stencil.Proofs.Render.Interchange
import Stencil.Proofs.Render.Offsets
import Stencil.Proofs.Scan.Padding
import Stencil.Proofs.Tree.Passes
import Stencil.Proofs.Value.Conversion
import Stencil.Proofs.Value.Equality
import Stencil.Proofs.Value.Path
import Stencil.Proofs.Value.Root
import Stencil.Proofs.Value.Scope
import Stencil.Store
import Stencil.Tag
import Stencil.Text.Blank
