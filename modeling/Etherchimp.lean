import Etherchimp.Proof.Attribution
import Etherchimp.Proof.Totals
import Etherchimp.Proof.Direction
import Etherchimp.Proof.MacStable
import Etherchimp.Proof.FailedFlush
import Etherchimp.Proof.LatePackets
import Etherchimp.Proof.WriterLoop
import Etherchimp.Lib.SetIndex
import Etherchimp.Proof.Adjacency
import Etherchimp.Proof.Linked
import Etherchimp.Proof.Peers
import Etherchimp.Proof.Lookups
import Etherchimp.Lib.Delta
import Etherchimp.Server.View
import Etherchimp.Lib.Wire
import Etherchimp.Server.Client
import Etherchimp.Proof.Chunks
import Etherchimp.Proof.Replica
import Etherchimp.Proof.Counts
import Etherchimp.Proof.Positions
import Etherchimp.Proof.Control
import Etherchimp.Browser.Page
import Etherchimp.Lib.Coalesce
import Etherchimp.Proof.Shown
import Etherchimp.Proof.Resync
import Etherchimp.Proof.Throttle
import Etherchimp.Capture.Local
import Etherchimp.Capture.Decode
import Etherchimp.Proof.Decode
import Etherchimp.Server.Hub
import Etherchimp.Lib.Fields
import Etherchimp.Proof.Hub
import Etherchimp.Proof.SharedViews
import Etherchimp.Store.Query
import Etherchimp.Lib.Search
import Etherchimp.Proof.Windows
import Etherchimp.Replay.Reader
import Etherchimp.Proof.ReplayCut
import Etherchimp.Server.Timeline
import Etherchimp.Proof.Timeline
import Etherchimp.Graph.Layout
import Etherchimp.Proof.LayoutModes
import Etherchimp.Graph.BuildView
import Etherchimp.Proof.Folding
import Etherchimp.Proof.ViewHosts
import Etherchimp.Proof.SuperNames
import Etherchimp.Proof.ViewEdges
import Etherchimp.Lib.Cut
import Etherchimp.Lib.Reorder
import Etherchimp.Proof.LevelOrder
import Etherchimp.Proof.ViewOrder
import Etherchimp.Proof.LevelTies
import Etherchimp.Proof.LevelFolds
import Etherchimp.Proof.Subnets
import Etherchimp.Proof.Aggregation
import Etherchimp.Proof.OrderFree
import Etherchimp.Graph.Filter
import Etherchimp.Proof.FilterTokens
import Etherchimp.Proof.FilterGrammar
import Etherchimp.Proof.FilterNegation
import Etherchimp.Capture.PcapWriter
import Etherchimp.Proof.PcapDrain
import Etherchimp.Graph.ViewStates
import Etherchimp.Proof.Hysteresis
import Etherchimp.Proof.NodeCap
import Etherchimp.Proof.SubnetNames
import Etherchimp.Proof.Standing
import Etherchimp.Proof.Focus
import Etherchimp.Proof.Solar
import Etherchimp.Proof.GivenNames
import Etherchimp.Proof.Promotion
import Etherchimp.Server.Tick
import Etherchimp.Lib.LinkedList
import Etherchimp.Stream.Manager
import Etherchimp.Proof.StreamTable
import Etherchimp.Proof.StreamContent
import Etherchimp.Graph.PacketStore
import Etherchimp.Proof.StreamLink
import Etherchimp.Proof.StreamSides
import Etherchimp.Proof.ReplayPrefix
import Etherchimp.Lib.Paging
import Etherchimp.Proof.PacketRing
import Etherchimp.Proof.RingPolls
import Etherchimp.Proof.HistoryPages
import Etherchimp.Proof.AddressText
import Etherchimp.Proof.LocalFilter
import Etherchimp.Lib.Budget
import Etherchimp.Server.RateLimit
import Etherchimp.Proof.RateWindow
import Etherchimp.Server.ReplayCache
import Etherchimp.Proof.ReplaySessions
import Etherchimp.Proof.RawIdle
import Etherchimp.Proof.Reload
import Etherchimp.Lib.TopK
import Etherchimp.Proof.TopFlows
import Etherchimp.Graph.RawTopo
import Etherchimp.Proof.RawTopology
import Etherchimp.Server.RawStream
import Etherchimp.Proof.RawFilters
import Etherchimp.Browser.RawFrame
import Etherchimp.Proof.RawFrames
import Etherchimp.Proof.EdgeIDs
import Etherchimp.Graph.SearchNodes
import Etherchimp.Proof.SearchNodes
import Etherchimp.Lib.Streak
import Etherchimp.Proof.ForceRuns
import Etherchimp.Proof.Bursts
import Etherchimp.Proof.Elders
import Etherchimp.Graph.Decay
import Etherchimp.Lib.Eviction
import Etherchimp.Proof.Decay
import Etherchimp.Graph.Classify
import Etherchimp.Lib.Dwell
import Etherchimp.Proof.Roles
import Etherchimp.Proof.Pacing
import Etherchimp.Graph.PacketReaders
import Etherchimp.Lib.Loops
import Etherchimp.Proof.PacketReaders
import Etherchimp.Proof.ReplayHosts
import Etherchimp.Lib.Crowds
import Etherchimp.Proof.ReplayFolds
import Etherchimp.Proof.ReplayPlaces
import Etherchimp.Graph.Overrides
import Etherchimp.Proof.Overrides
import Etherchimp.Proof.GraphWords
import Etherchimp.Server.Live
import Etherchimp.Proof.LiveStreams
import Etherchimp.Proof.Quiet
import Etherchimp.Store.Captures
import Etherchimp.Proof.PcapCache
import Etherchimp.Lib.Newest
import Etherchimp.Browser.PacketTable
import Etherchimp.Proof.PacketTable
import Etherchimp.Capture.Oui
import Etherchimp.Graph.NodeDetail
import Etherchimp.Proof.NodeDetail
import Etherchimp.Graph.Dns
import Etherchimp.Proof.Dns
import Etherchimp.Proof.FlowTotals
import Etherchimp.Store.Overview
import Etherchimp.Proof.Overview
import Etherchimp.Server.PcapPath
import Etherchimp.Proof.PcapPath
import Etherchimp.Main.Pipeline
import Etherchimp.Proof.Pipeline
import Etherchimp.Capture.Format
import Etherchimp.Proof.HexDump
import Etherchimp.Lib.Base64
import Etherchimp.Stream.Detail
import Etherchimp.Proof.StreamPanel
import Etherchimp.Server.PacketDetail
import Etherchimp.Proof.PacketDetail
