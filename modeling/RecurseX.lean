import RecurseX.Cache.Partition
import RecurseX.Library.PrefixedList
import RecurseX.Name.Compressor
import RecurseX.Name.Sink
import RecurseX.Name.Subdomain
import RecurseX.Resolver.Isolation
import RecurseX.Resolver.CachedAnswers
import RecurseX.Resolver.SingleFlight
import RecurseX.Resolver.ValidationSlot
import RecurseX.Resolver.RefreshSlots
import RecurseX.Resolver.Observations
import RecurseX.Resolver.Envelope
import RecurseX.Resolver.SelfWait
import RecurseX.Resolver.SharedCache
import RecurseX.Resolver.ReverseName
import RecurseX.Dnssec.Sections
import RecurseX.Dnssec.Verdicts
import RecurseX.Dname
import RecurseX.Classification
import RecurseX.ZoneMembership
import RecurseX.Message.RoundTrip
import RecurseX.Message.Longest
import RecurseX.Risk
import RecurseX.Consequence
import RecurseX.RateLimiter
import RecurseX.Schedule
import RecurseX.Alias.Closure
import RecurseX.FakeIp.Recency
import RecurseX.Hosts
import RecurseX.Specificity
import RecurseX.Server
import RecurseX.Tcp
import RecurseX.Resolver.Signatures
import RecurseX.Resolver.Termination
import RecurseX.Resolver.Nonexistence
import RecurseX.Resolver.ClassFidelity
import RecurseX.Resolver.MinimizedWalk
import RecurseX.Resolver.ForwardedChain
import RecurseX.Cache.Persist
import RecurseX.Cache.NxStore
import RecurseX.Cache.Admission
import RecurseX.Cache.Eviction
import RecurseX.Cache.RepeatedHit
import RecurseX.Cache.TtlCap
import RecurseX.Name.Legal
import RecurseX.Name.Ascii
import RecurseX.Doq.Handshake
import RecurseX.Doq.Inert
import RecurseX.Doq.Levels
import RecurseX.Doq.Recovery
import RecurseX.Doq.FlowControl
import RecurseX.Doq.Isolation
import RecurseX.Dnssec.Rsa
import RecurseX.Dnssec.Authority
import RecurseX.Doq.CryptoStream
import RecurseX.Doq.Chunking
import RecurseX.Doq.Coalesced
import RecurseX.Hazard
import RecurseX.Rendezvous
import RecurseX.Upstream
import RecurseX.Config
import RecurseX.Doq.Completion
import RecurseX.Doq.Extensions
import RecurseX.Library.Traces
import RecurseX.Doq.Turns
import RecurseX.Doq.Changes
import RecurseX.Doq.Bookkeeping
import RecurseX.Doq.InitialSize
import RecurseX.Doq.Identifiers
import RecurseX.Doq.Windows
import RecurseX.Prng
import RecurseX.Calibration
import RecurseX.Doq.AckCodec
import RecurseX.Rdata.Bounds
import RecurseX.Server.Datagrams
import RecurseX.Server.Connections
import RecurseX.Library.Interning
import RecurseX.Forward.Transports
import RecurseX.Forward.Sharing
import RecurseX.Forward.Failover
import RecurseX.Resolver.LocalAnswers
import RecurseX.Server.Stream
import RecurseX.Forward.TcpExchange
import RecurseX.Library.AddressWriting
import RecurseX.Forward.Spellings
import RecurseX.PatternText
import RecurseX.CidrText
import RecurseX.Forward.Routes
