import Idiom.Crdt.ORSetReplicas
import Idiom.Crdt.LWWMapReplicas
import Idiom.Ajna.Resolver
import Idiom.Ajna.Controllers
import Idiom.Ajna.Concurrent
import Idiom.Ajna.DocumentLaws
import Idiom.Ajna.DocumentMerge
import Idiom.Ajna.Convergence
import Idiom.Ajna.ExportImport
import Idiom.Ajna.FieldProofs
import Idiom.Ajna.BundleSplit
import Idiom.Ajna.SyncRuns
import Idiom.Didcomm.V1.SenderAuth
import Idiom.Dcx.FrameBounds
import Idiom.Dcx.EndToEnd
import Idiom.Dcx.NonceRestart
import Idiom.Pickup.HandOut
import Idiom.Pickup.Interleaved
import Idiom.Mediation.Capacity
import Idiom.Mediation.Replay
import Idiom.Mediation.OwnMail
import Idiom.Workflow.Retry
import Idiom.Workflow.Singleton
import Idiom.Workflow.Status
import Idiom.Workflow.CommandStream
import Idiom.Signing.Threshold
import Idiom.Signing.Outsiders
import Idiom.Signing.Concurrent
import Idiom.Signing.Completion
import Idiom.Signing.Counter
import Idiom.Signing.Atomic
import Idiom.Ecash.Credit
import Idiom.Ecash.Agreement
import Idiom.Ecash.Commit
import Idiom.Kanon.SparseRoot
import Idiom.Kanon.Permanence
import Idiom.Kanon.Roots
import Idiom.Kanon.StatusList
import Idiom.SdJwt.RoundTrip
import Idiom.SdJwt.Paths
import Idiom.Sid.Spelling
import Idiom.Sid.Headers
import Idiom.Connections.Refinement
import Idiom.Credentials.Honest
import Idiom.Crdt.Causality
import Idiom.JsonLd.Canonicalization
import Idiom.Did.PeerShortcut
import Idiom.Did.Peer2
import Idiom.Didcomm.V1.WireForm
import Idiom.Proofs.Genuine
import Idiom.Poe.Binding
import Idiom.Poe.Registry
import Idiom.Kanon.ModeB
