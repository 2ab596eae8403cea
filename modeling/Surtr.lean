import Surtr.Analysis.LineIndex
import Surtr.Analysis.ParseCache
import Surtr.Eldr.LinkedImage
import Surtr.Eldr.Soundness
import Surtr.Eldr.Fused
import Surtr.Eldr.Futures
import Surtr.Eldr.GeneratorLaws
import Surtr.Eldr.FileLeases
import Surtr.Eldr.FileOrder
import Surtr.Eldr.SupervisorChildren
import Surtr.Eldr.WorkerRounds
import Surtr.Eldr.StackRefinement
import Surtr.Eldr.PureBuiltin
import Surtr.Eldr.SharedBuilder
import Surtr.Eldr.TailCallRun
import Surtr.Eldr.TextRead
import Surtr.Eldr.ProcessProtocol
import Surtr.Eldr.RandomRange
import Surtr.Forge.ComposedImage
import Surtr.Scar.CapabilityExact
import Surtr.Scar.LeastRequirements
import Surtr.Sigil.Stage
import Surtr.Sindr.Artifact
import Surtr.Sindr.ListHandle
import Surtr.Sindr.RegistryRuns
import Surtr.Spire.QuotedLiteral
import Surtr.Spire.RawInterpolation
import Surtr.Spire.TokenSpans
import Surtr.Xldr.AllOrNothing
