import CortexOnnx.Lib.History
import CortexOnnx.Lib.Prog
import CortexOnnx.Lib.Run
import CortexOnnx.Lib.StringLiteral
import CortexOnnx.Lib.Transducer
import CortexOnnx.Lib.TwoEnds
import CortexOnnx.Lib.Until
import CortexOnnx.Lib.Amortized
import CortexOnnx.Lib.Rows
import CortexOnnx.LoadedFlag
import CortexOnnx.NullHandles
import CortexOnnx.OneLoad
import CortexOnnx.ReplyProtocol
import CortexOnnx.StickyUnload
import CortexOnnx.Coherence
import CortexOnnx.StreamFraming
import CortexOnnx.Isolation
import CortexOnnx.LoadReport
import CortexOnnx.HistoryWindow
import CortexOnnx.CurrentQuestion
import CortexOnnx.BranchAgreement
import CortexOnnx.Server.SyncQueue
import CortexOnnx.Server.Handlers
import CortexOnnx.ServiceOrder
import CortexOnnx.RunningModels
import CortexOnnx.WholeAnswer
import CortexOnnx.Acceptance
import CortexOnnx.Server.Outcomes
import CortexOnnx.Server.Settled
import CortexOnnx.Lib.SelfDelimiting
import CortexOnnx.Server.ChunkedTransfer
import CortexOnnx.Server.ChunkedBodies
import CortexOnnx.Server.Wire
import CortexOnnx.Server.ThreadPool
import CortexOnnx.Server.Service
import CortexOnnx.Server.Stopping
import CortexOnnx.Lib.Multimap
import CortexOnnx.Server.Headers
import CortexOnnx.Server.Ranges
import CortexOnnx.Server.HttpResponse
import CortexOnnx.Server.Exchanges
