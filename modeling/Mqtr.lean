import Mqtr.Core.Outcome
import Mqtr.Core.Buffer
import Mqtr.Core.Bisect
import Mqtr.Core.Varint
import Mqtr.Core.Stateful
import Mqtr.Core.Transition
import Mqtr.Core.Snapshot
import Mqtr.Core.Multimap
import Mqtr.Core.Relay
import Mqtr.Core.Codec
import Mqtr.Core.Fibre
import Mqtr.Core.Grouping
import Mqtr.Core.Keyed
import Mqtr.Core.Trace
import Mqtr.Wire.Error
import Mqtr.Wire.Types
import Mqtr.Wire.Header
import Mqtr.Wire.Property
import Mqtr.Wire.Properties
import Mqtr.Wire.Connection
import Mqtr.Wire.Publication
import Mqtr.Wire.Packet
import Mqtr.Wire.Encode
import Mqtr.Wire.Record
import Mqtr.Wire.Layouts
import Mqtr.Wire.MessageLayouts
import Mqtr.Wire.Acceptance
import Mqtr.Wire.EncodePacket
import Mqtr.Wire.Blob
import Mqtr.Wire.Framing
import Mqtr.Wire.RoundTrip
import Mqtr.Wire.MessageRoundTrip
import Mqtr.Wire.Reencode
import Mqtr.Wire.Confinement
import Mqtr.Wire.Totality
import Mqtr.Wire.Reads
import Mqtr.Wire.Failure
import Mqtr.Wire.Filter
import Mqtr.Trie.Node
import Mqtr.Trie.Invariant
import Mqtr.Trie.Match
import Mqtr.Trie.Content
import Mqtr.Trie.Update
import Mqtr.Trie.Lookup
import Mqtr.Trie.Shared
import Mqtr.Sync.Spinlock
import Mqtr.Reader.Read
import Mqtr.Reader.Safety
import Mqtr.Reader.Bound
import Mqtr.Reader.Frame
import Mqtr.Reader.Reassembly
import Mqtr.Reader.Body
import Mqtr.Reader.Parse
import Mqtr.Reader.Handshake
import Mqtr.Broker.Message
import Mqtr.Broker.Session
import Mqtr.Broker.Shard
import Mqtr.Broker.Routing
import Mqtr.Broker.Teardown
import Mqtr.Broker.Outbound
import Mqtr.Broker.Forward
import Mqtr.Broker.Publish
import Mqtr.Broker.KeepAlive
import Mqtr.Broker.Alias
import Mqtr.Broker.Retained
import Mqtr.Broker.Subscriptions
import Mqtr.Broker.Will
import Mqtr.Broker.Network
import Mqtr.Broker.LocalAck
import Mqtr.Broker.Unacks
import Mqtr.Broker.Fanout
import Mqtr.Broker.Granted
import Mqtr.Broker.Timer
import Mqtr.Broker.TimerChain
import Mqtr.Broker.Partition
import Mqtr.Broker.Rebalance
import Mqtr.Broker.Sink
import Mqtr.Broker.Final
import Mqtr.Broker.Source
import Mqtr.Broker.ReadTimeout
import Mqtr.Core.Wakeup
import Mqtr.Core.Server
import Mqtr.Threads.Queues
import Mqtr.Threads.Control
import Mqtr.Threads.Handover
import Mqtr.Sync.Guarded
import Mqtr.Sync.Release
import Mqtr.Broker.Sockets
import Mqtr.Broker.Homes
import Mqtr.Broker.Removal
import Mqtr.Reader.Stream
import Mqtr.Broker.Books
import Mqtr.Broker.Outbox
import Mqtr.Broker.Expiry
import Mqtr.Broker.Ingress
import Mqtr.Broker.Audience
