import P2PFileSharing.Library.Action
import P2PFileSharing.Library.Fuel
import P2PFileSharing.Library.Machine
import P2PFileSharing.Library.History
import P2PFileSharing.Library.Simulation
import P2PFileSharing.Library.Calls
import P2PFileSharing.Library.OrdMap
import P2PFileSharing.Library.SearchSeq
import P2PFileSharing.Library.Split
import P2PFileSharing.Library.Table
import P2PFileSharing.Library.Chunk
import P2PFileSharing.Library.Quoting
import P2PFileSharing.Cpp.Exception
import P2PFileSharing.Cpp.Str
import P2PFileSharing.Cpp.Convert
import P2PFileSharing.Util
import P2PFileSharing.Tokenize
import P2PFileSharing.SockAddr
import P2PFileSharing.Socket
import P2PFileSharing.Http.Message
import P2PFileSharing.Http.Parsing
import P2PFileSharing.Http.Framing
import P2PFileSharing.Http.Codec
import P2PFileSharing.Http.RoundTrip
import P2PFileSharing.Http.Overlong
import P2PFileSharing.Http.Reader
import P2PFileSharing.Http.Chunking
import P2PFileSharing.Http.EndOfStream
import P2PFileSharing.Http.Writer
import P2PFileSharing.Http.Sending
import P2PFileSharing.Http.Client
import P2PFileSharing.Http.Server
import P2PFileSharing.Http.Transit
import P2PFileSharing.Http.Network
import P2PFileSharing.Http.Rounds
import P2PFileSharing.Http.Conversations
import P2PFileSharing.Http.Finishing
import P2PFileSharing.Peer.TsafeSet
import P2PFileSharing.Peer.PieceQueue
import P2PFileSharing.Peer.DownloaderRoutine
import P2PFileSharing.Peer.Interleaving
import P2PFileSharing.Peer.HashCheck
import P2PFileSharing.Peer.Bitfield
import P2PFileSharing.Peer.BitfieldSet
import P2PFileSharing.Peer.UploadServer
import P2PFileSharing.Peer.PieceRequests
import P2PFileSharing.Peer.ConcurrentReads
import P2PFileSharing.Peer.BitfieldChannel
import P2PFileSharing.Peer.PieceFile
import P2PFileSharing.Peer.State
import P2PFileSharing.Peer.Uploads
import P2PFileSharing.Peer.Neighbours
import P2PFileSharing.Peer.Serving
import P2PFileSharing.Peer.Download
import P2PFileSharing.Peer.AllOrNothing
import P2PFileSharing.Peer.Torrent
import P2PFileSharing.Peer.Threads
import P2PFileSharing.Peer.Leeching
import P2PFileSharing.Peer.Completion
import P2PFileSharing.Peer.SharedStream
import P2PFileSharing.Peer.Termination
import P2PFileSharing.Peer.Priorities
import P2PFileSharing.Peer.Delivery
import P2PFileSharing.Peer.FileScan
import P2PFileSharing.Peer.TrackerClient
import P2PFileSharing.Peer.Connections
import P2PFileSharing.Tracker.Database
import P2PFileSharing.Tracker.Query
import P2PFileSharing.Tracker.Model
import P2PFileSharing.Tracker.Operation
import P2PFileSharing.Tracker.Outcome
import P2PFileSharing.Tracker.Failure
import P2PFileSharing.Tracker.System
import P2PFileSharing.Tracker.Containment
import P2PFileSharing.Tracker.Restart
import P2PFileSharing.Tracker.Logout
import P2PFileSharing.Tracker.Run
import P2PFileSharing.Tracker.Tokens
import P2PFileSharing.Tracker.Membership
import P2PFileSharing.Tracker.PeerSets
import P2PFileSharing.Tracker.Listing
import P2PFileSharing.Tracker.ListedPeers
import P2PFileSharing.Tracker.Addresses
import P2PFileSharing.Tracker.Calls
import P2PFileSharing.Tracker.Idle
import P2PFileSharing.Tracker.GroupCalls
import P2PFileSharing.Tracker.Replies
import P2PFileSharing.Tracker.PeerList
import P2PFileSharing.Tracker.SharedFiles
import P2PFileSharing.Peer.NeighbourKeys
