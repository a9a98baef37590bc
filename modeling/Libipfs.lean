import Libipfs.Lib.Exec
import Libipfs.Lib.Run
import Libipfs.Protobuf.Varint
import Libipfs.Protobuf.Wire
import Libipfs.Protobuf.Encode
import Libipfs.Protobuf.FieldLoop
import Libipfs.Blocks.Cid
import Libipfs.Blocks.Block
import Libipfs.Blocks.RoundTrip
import Libipfs.Merkledag.Node
import Libipfs.Unixfs.UnixFs
import Libipfs.Unixfs.RoundTrip
import Libipfs.Libp2p.Record
import Libipfs.Bitswap.Message
import Libipfs.Libp2p.Vector
import Libipfs.Protobuf.Safety
import Libipfs.Decoders
import Libipfs.Bitswap.PeerRequest
import Libipfs.Bitswap.PeerRequestQueue
import Libipfs.Bitswap.WantlistQueue
import Libipfs.Blocks.Blockstore
import Libipfs.Blocks.StoreRoundTrip
import Libipfs.Importer.Exporter
import Libipfs.Importer.Importer
import Libipfs.Bitswap.Network
import Libipfs.Bitswap.PeerWants
import Libipfs.Bitswap.Integrity
import Libipfs.Bitswap.Process
import Libipfs.Bitswap.UsefulMessages
import Libipfs.Bitswap.Announce
import Libipfs.Lib.Multimap
import Libipfs.Lmdb.Table
import Libipfs.Repo.Journalstore
import Libipfs.Repo.JournalCursor
import Libipfs.Repo.LmdbDatastore
import Libipfs.Repo.PutGet
import Libipfs.Repo.PutReports
import Libipfs.Repo.Agreement
import Libipfs.Protobuf.Large
import Libipfs.Protobuf.Prefix
import Libipfs.Merkledag.RoundTrip
import Libipfs.Merkledag.Store
import Libipfs.Importer.Failure
import Libipfs.Lib.ByteOrder
import Libipfs.Yamux.Frame
import Libipfs.Lib.Scan
import Libipfs.Yamux.Session
import Libipfs.Yamux.Stream
import Libipfs.Yamux.Wire
import Libipfs.Yamux.Accounting
import Libipfs.Yamux.Decode
import Libipfs.Yamux.Contained
import Libipfs.Yamux.LifeCycle
import Libipfs.Yamux.StreamIds
import Libipfs.Yamux.StreamWrite
import Libipfs.Importer.Resolver
import Libipfs.Bitswap.RoundTrip
import Libipfs.Bitswap.MessageBlock
import Libipfs.Journal.Journal
import Libipfs.Journal.LastRecords
import Libipfs.Journal.RoundTrip
import Libipfs.Lib.CString
import Libipfs.Net.CanHandle
import Libipfs.Net.ReadRaw
import Libipfs.Net.Multistream
import Libipfs.Core.HttpRequest
import Libipfs.Core.Chunked
import Libipfs.Libp2p.Peerstore
import Libipfs.Dnslink.Dnslink
import Libipfs.Secio.Negotiate
import Libipfs.Lib.CounterMode
import Libipfs.Secio.Channel
import Libipfs.Multiaddr.Base58
import Libipfs.Multiaddr.Hex
import Libipfs.Multiaddr.ProtoUtils
import Libipfs.Multiaddr.Address
import Libipfs.Multiaddr.RoundTrip
import Libipfs.Crypto.PeerId
import Libipfs.Bitswap.Engine
import Libipfs.Namesys.Namesys
import Libipfs.Namesys.Resolver
import Libipfs.Libp2p.KnownPeers
import Libipfs.Secio.Handshake
import Libipfs.Routing.DhtProtocol
import Libipfs.Routing.Announcements
import Libipfs.Routing.Online
import Libipfs.Routing.Asking
import Libipfs.Routing.Values
import Libipfs.Routing.RoundTrip
import Libipfs.Lib.Collect
import Libipfs.Routing.Kademlia
import Libipfs.Crypto.Base64
import Libipfs.Repo.Jsmn
import Libipfs.Repo.Identity
import Libipfs.Repo.JsonTokens
import Libipfs.Repo.Config
import Libipfs.Repo.ConfigFile
import Libipfs.Repo.FsRepo
import Libipfs.Repo.ConfigRead
import Libipfs.Repo.ConfigReplication
import Libipfs.Repo.ConfigRoundTrip
import Libipfs.Repo.ConfigLists
import Libipfs.EncodeSizes
import Libipfs.Lib.Region
import Libipfs.Lib.Fifo
import Libipfs.Net.ThreadsafeBuffer
import Libipfs.Libp2p.VectorRuns
import Libipfs.Lib.Linked
import Libipfs.Lib.Search
import Libipfs.Merkledag.Links
import Libipfs.Blocks.CidSet
import Libipfs.Blocks.CidCompare
import Libipfs.Lib.Split
import Libipfs.Path.Split
import Libipfs.Path.Clean
import Libipfs.Namesys.Proquint
import Libipfs.Pin.Pin
import Libipfs.Crypto.Base16
import Libipfs.Multibase.Multibase
import Libipfs.Core.UrlEncode
import Libipfs.Namesys.Routing
import Libipfs.Os.Utils
import Libipfs.Flatfs.Flatfs
import Libipfs.Routing.GetValue
import Libipfs.Lib.Words
import Libipfs.Multiaddr.Encapsulate
import Libipfs.Multiaddr.Ipv4
import Libipfs.Core.Process
import Libipfs.Lib.Transfer
import Libipfs.Secio.Framing
import Libipfs.Net.ConnectionRead
import Libipfs.Identify.Identify
import Libipfs.Protobuf.Tags
import Libipfs.Crypto.Ephemeral
import Libipfs.Crypto.Multihash
import Libipfs.Core.Multipart
import Libipfs.Lib.Calendar
import Libipfs.Util.Time
import Libipfs.Namesys.Cache
import Libipfs.Secio.RoundTrip
import Libipfs.Bitswap.Exchange
import Libipfs.Bitswap.Delivery
import Libipfs.Dht.Messages
import Libipfs.Dht.Parse
import Libipfs.Lib.Template
import Libipfs.Dht.RoundTrip
import Libipfs.Lib.Tally
import Libipfs.Thpool.Jobqueue
import Libipfs.Thpool.Threads
import Libipfs.Thpool.Law
import Libipfs.Thpool.Jobs
import Libipfs.Thpool.Turns
import Libipfs.Thpool.Runs
import Libipfs.Core.ApiServer
import Libipfs.Core.Connections
