import NdnExt.Dv.Latest
import NdnExt.Dv.Mirror
import NdnExt.Dv.NeighborDeath
import NdnExt.Dv.PfxSync
import NdnExt.Dv.Stabilisation
import NdnExt.Dv.SyncTrust
import NdnExt.Dv.TlvRoundTrip
import NdnExt.Leases.Granted
import NdnExt.Leases.LazyExpiry
import NdnExt.Ndnsf.Call
import NdnExt.Ndnsf.OwnRequest
import NdnExt.Nlsr.Hello
import NdnExt.Nlsr.LsaExchange
import NdnExt.Nlsr.PrefixMirror
import NdnExt.Nlsr.RibRoutes
import NdnExt.Nlsr.Routes
import NdnExt.Serial.Resync
import NdnExt.Shm.BroadcastExact
import NdnExt.Shm.RingFifo
import NdnExt.Stream.AnyK
import NdnExt.Stream.NeverStuck
import NdnExt.Stream.NothingLost
import NdnExt.Nan.PeerHears
import NdnExt.Nan.RightPeer
import NdnExt.Nan.AnchorClock
import NdnExt.Nan.PathsSettle
import NdnExt.Link.AdmitsSoundly
import NdnExt.Link.BothEnds
import NdnExt.Link.RelayOrder
import NdnExt.Link.Punches
import NdnExt.Link.PresenceLists
import NdnExt.Link.MemberPaths
import NdnExt.Link.WaitingRoutes
import NdnExt.Link.RevokedLinks
import NdnExt.Pipes.Teardown
import NdnExt.Pipes.IdlePipes
import NdnExt.Leaf.ScopedTopics
import NdnExt.Discovery.Probe
import NdnExt.Discovery.NeverCrashes
import NdnExt.Discovery.PublishFind
import NdnExt.Discovery.Steering
import NdnExt.Discovery.Renewal
import NdnExt.Surface.CatchUp
import NdnExt.Compute.RunsOnce
import NdnExt.Rpc.SameDispatch
import NdnExt.Service.NoRollback
import NdnExt.Service.CommandsOnce
import NdnExt.Service.ProviderDirectory
import NdnExt.Time.KeepsRunning
import NdnExt.Dv.RibChanges
import NdnExt.Dv.CostOrder
import NdnExt.Dv.Readvertise
import NdnExt.Shm.MtuGeometry
import NdnExt.Ndnsf.ServiceBound
import NdnExt.Ndnsf.MessageRoundTrip
import NdnExt.Stream.RttEstimate
import NdnExt.Stream.RetryDiscipline
import NdnExt.Stream.StateBound
import NdnExt.Quic.Fragments
import NdnExt.Nan.MalformedTail
import NdnExt.Nan.AttrRoundTrip
import NdnExt.Link.PunchRequests
import NdnExt.Link.MemberIdentities
import NdnExt.Link.RelayChoice
import NdnExt.Link.RelaySync
import NdnExt.Discovery.SurvivesWire
import NdnExt.Discovery.BodyLifetime
import NdnExt.Packet.SplitTlv
import NdnExt.Link.Messages
import NdnExt.Link.MessageLaws
import NdnExt.Service.Reload
import NdnExt.Surface.Retention
import NdnExt.Service.Envelope
import NdnExt.Surface.Frames
import NdnExt.Strategy.ClTree
import NdnExt.Strategy.Election
import NdnExt.Pipes.Messages
import NdnExt.Time.Nmea
import NdnExt.Stream.FecBounds
import NdnExt.RateLimit
