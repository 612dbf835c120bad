import NdnRs.Packet.DataBuilder
import NdnRs.Packet.InterestBuilder
import NdnRs.Packet.LpReaders
import NdnRs.Packet.LpRoundTrip
import NdnRs.Transport.TlvCodec
import NdnRs.Transport.BleFraming
import NdnRs.Transport.FrameSize
import NdnRs.Transport.FastRetransmit
import NdnRs.Security.KeyringAdopt
import NdnRs.Security.CertProvenance
import NdnRs.Security.ReplayGuard
import NdnRs.Forwarding.RibFib
import NdnRs.Forwarding.Reflexive
import NdnRs.Forwarding.PitObserver
import NdnRs.Forwarding.PitSubscription
import NdnRs.Forwarding.PitOrphans
import NdnRs.Forwarding.DeadNonces
import NdnRs.Store.SqliteCs
import NdnRs.Store.TrieMap
import NdnRs.Store.ShardedCs
import NdnRs.Forwarding.StrategyForward
import NdnRs.Forwarding.CsInsert
import NdnRs.Identity.DeviceApprovalNet
import NdnRs.Cert.TokenStore
import NdnRs.Cert.Validity
import NdnRs.Time.Discipline
import NdnRs.Sync.SvsConvergence
import NdnRs.Sync.SvsDeferred
import NdnRs.Sync.SvsGaps
import NdnRs.Sync.SvsGroup
import NdnRs.Sync.SvsFetch
import NdnRs.Storage.FlashCrash
