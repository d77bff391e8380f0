import Qstream.Runs
import Qstream.Chunks
import Qstream.HashMap
import Qstream.Protocol
import Qstream.TransferTimers
import Qstream.TransferSender
import Qstream.TransferSenderRuns
import Qstream.Storage
import Qstream.TransferReceiver
import Qstream.TransferReceiverWindow
import Qstream.TransferReceiverPatience
import Qstream.TransferReceiverRuns
import Qstream.TransferReassembly
import Qstream.TransferLink
import Qstream.TransferLinkProgress
import Qstream.TransferLinkCompletes
import Qstream.Text
import Qstream.TextUtf8
import Qstream.TextLines
import Qstream.BigEndian
import Qstream.ProtocolCodec
import Qstream.ProtocolRoundTrip
import Qstream.ProtocolGrammar
import Qstream.Playlist
import Qstream.PlaylistItems
import Qstream.PlaylistReading
import Qstream.PlaylistSequence
import Qstream.PlaylistGrowth
import Qstream.Http
import Qstream.TransferRegistry
import Qstream.TransferIsolation
import Qstream.SegmentInventory
import Qstream.Node
import Qstream.NodeHandle
import Qstream.NodeSeeding
import Qstream.NodeAnswers
import Qstream.NodeInventory
import Qstream.NodeProbing
import Qstream.WeightedDraw
import Qstream.PeerSelect
import Qstream.PeerSelectComplete
import Qstream.NodeNames
import Qstream.PeerSchedule
import Qstream.PeerFill
import Qstream.TransferOutcome
import Qstream.TransferExchange
import Qstream.TransferServedOnce
import Qstream.TransferServedSaved
import Qstream.NodeEffects
import Qstream.NodeOutlet
import Qstream.PeerLoop
import Qstream.PeerReceive
import Qstream.PeerTurn
import Qstream.PeerBootstrap
import Qstream.PeerQueue
import Qstream.PeerBooks
import Qstream.PeerWanted
import Qstream.PeerRequeue
import Qstream.PeerNames
import Qstream.PeerEviction
import Qstream.PeerExpiry
import Qstream.PeerSlots
import Qstream.PeerEcho
import Qstream.PlaybackMirror
import Qstream.PeerPulls
import Qstream.PeerPlayback
import Qstream.PeerSources
import Qstream.PlaylistDerivation
import Qstream.PlaylistComplete
import Qstream.PlaylistStable
import Qstream.PlaylistReaders
import Qstream.NodePruning
import Qstream.TransferPackets
import Qstream.TransferMalformed
import Qstream.TransferOverlap
import Qstream.TransferWakeups
import Qstream.ProtocolCanonical
import Qstream.NodeNegatives
import Qstream.NodeRepeats
import Qstream.PeerNewest
import Qstream.Ranking
import Qstream.NodePeerlist
import Qstream.PeerReachable
import Qstream.NodeMetrics
import Qstream.PeerLabels
import Qstream.TransferReceiverRetries
import Qstream.TransferOutlives
import Qstream.FaultRuns
import Qstream.FaultLink
import Qstream.FaultWakeups
import Qstream.Json
import Qstream.NodeStats
import Qstream.PlaylistOverflow
import Qstream.TextCase
import Qstream.Upnp
import Qstream.Calendar
import Qstream.Log
import Qstream.TransferAttempts
import Qstream.TransferGenuine
import Qstream.PeerSends
import Qstream.Swarm
import Qstream.SwarmSegments
import Qstream.SwarmAddresses
import Qstream.SwarmManifests
import Qstream.RunsTotals
import Qstream.HashMapTotals
import Qstream.NodeLedger
import Qstream.Accounts
import Qstream.Load
import Qstream.Periodic
import Qstream.PeerTiming
import Qstream.HttpMessage
import Qstream.HttpFraming
import Qstream.SwarmPlayback
import Qstream.Mixing
import Qstream.FaultFrequency
import Qstream.WeightedShare
import Qstream.PeerShare
import Qstream.Markup
import Qstream.UpnpMapping
import Qstream.UpnpGateway
