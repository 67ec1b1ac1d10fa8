import DistriStore.Api.Reupload
import DistriStore.Api.UntrustedPeers
import DistriStore.Api.Listing
import DistriStore.FileEngine.MerkleForgery
import DistriStore.FileEngine.ChunkFormat
import DistriStore.FileEngine.StreamingChunker
import DistriStore.FileEngine.Preview
import DistriStore.FileEngine.Roundtrip
import DistriStore.FileEngine.ParallelWriters
import DistriStore.Storage.Manifests
import DistriStore.Dht.Nearest
import DistriStore.Network.Handshake
import DistriStore.Network.Framing
import DistriStore.Network.Inbound
import DistriStore.Network.Protocol
import DistriStore.Network.Connection
import DistriStore.Network.Mesh
import DistriStore.Strategies.WindowBounds
import DistriStore.Strategies.Targets
import DistriStore.Strategies.Scoring
import DistriStore.Api.DownloadManager
import DistriStore.Api.DownloadProgress
import DistriStore.Api.DownloadPause
import DistriStore.Advanced.GarbageCollector
import DistriStore.Advanced.Heartbeat
import DistriStore.Advanced.HeartbeatAccuracy
import DistriStore.Advanced.HealingNet
import DistriStore.Advanced.HealingCycle
import DistriStore.Advanced.HealingRuns
import DistriStore.Node.Node
import DistriStore.Node.Peers
import DistriStore.Node.PeerStore
import DistriStore.Node.Replicas
import DistriStore.Node.RecordedReplicas
import DistriStore.Node.HealingScope
import DistriStore.Network.Discovery
import DistriStore.Network.Admission
import DistriStore.Node.ChunkRegistry
import DistriStore.Api.CountedChunks
import DistriStore.Api.StoredDownloads
import DistriStore.Api.Chat
import DistriStore.FileEngine.StoreOrder
import DistriStore.Network.PeerIdentity
import DistriStore.Api.ChatBroadcast
import DistriStore.Api.ChatFlood
import DistriStore.Node.HealthReports
import DistriStore.Strategies.WindowStats
import DistriStore.Api.DownloadCrash
import DistriStore.Api.DownloadEnds
import DistriStore.Api.DownloadEffort
import DistriStore.Api.FinalMerge
import DistriStore.Api.FinalMergeEnds
import DistriStore.Api.DeliveredDownloads
import DistriStore.Api.DownloadIsolation
import DistriStore.Framework.SwarmedDownload
import DistriStore.Dht.Lookup
