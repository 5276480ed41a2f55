import Tellstone.Protocol.Rendering
import Tellstone.Crypto.Reporting
import Tellstone.Audit.Decryption
import Tellstone.Storage.Wheel
import Tellstone.Storage.Words
import Tellstone.Storage.Balance
import Tellstone.Persistence.Streaming
import Tellstone.Persistence.Opening
import Tellstone.Persistence.Refusal
import Tellstone.Persistence.Nonces
import Tellstone.Shard.Counters
import Tellstone.Shard.Rejection
import Tellstone.Shard.Ceiling
import Tellstone.Shard.Atomicity
import Tellstone.Router.Partition
import Tellstone.Rbac.Matching
import Tellstone.Rbac.Deletion
import Tellstone.Rbac.Lockout
import Tellstone.Shard.Expiry
import Tellstone.Server.Expiry
import Tellstone.Server.Deletion
import Tellstone.Resp.Handshake
import Tellstone.Resp.Malformed
import Tellstone.Network.Client
import Tellstone.Server.Administration
import Tellstone.Server.Agreement
import Tellstone.Server.Pipelining
import Tellstone.Config.ByteSize
import Tellstone.Audit.Recovery
import Tellstone.Audit.Replay
import Tellstone.Audit.Fidelity
import Tellstone.OAuth.Token
import Tellstone.OAuth.Throttling
