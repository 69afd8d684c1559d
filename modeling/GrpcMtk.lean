import GrpcMtk.Server.LoginGate
import GrpcMtk.Server.Ownership
import GrpcMtk.Server.Registries
import GrpcMtk.Server.Lookups
import GrpcMtk.Server.Finishing
import GrpcMtk.Server.RefCount
import GrpcMtk.Server.CidMap
import GrpcMtk.Server.Deferral
import GrpcMtk.Server.QueueEvents
import GrpcMtk.Server.Shutdown
import GrpcMtk.Client.WriteFlag
import GrpcMtk.Client.Sentinel
import GrpcMtk.Client.Completion
import GrpcMtk.Client.Registration
import GrpcMtk.Client.Events
import GrpcMtk.Client.Establishment
import GrpcMtk.Client.Status
import GrpcMtk.Client.Closing
import GrpcMtk.Client.StaleRead
import GrpcMtk.Client.Tags
import GrpcMtk.Client.Timeout
import GrpcMtk.Client.Backoff
import GrpcMtk.Client.LoginReply
import GrpcMtk.Client.MsgId
import GrpcMtk.Http.Chunked
import GrpcMtk.Http.ContentLength
import GrpcMtk.Http.Response
import GrpcMtk.Http.Framing
import GrpcMtk.Http.Memory
import GrpcMtk.Http.Lookup
import GrpcMtk.Http.Extensions
import GrpcMtk.Http.HeaderTable
import GrpcMtk.Http.RequestPath
import GrpcMtk.Clock
import GrpcMtk.Server.Lifecycle
import GrpcMtk.Http.Serving
import GrpcMtk.Http.Routing
import GrpcMtk.Dialogue.Replies
import GrpcMtk.Dialogue.Notices
import GrpcMtk.Dialogue.Handling
import GrpcMtk.Dialogue.Payloads
import GrpcMtk.Client.Stopping
import GrpcMtk.Http.Listening
import GrpcMtk.Server.UserCtx
