import P2PFileSharing.Peer.BitfieldChannel
import P2PFileSharing.Peer.HashCheck
import P2PFileSharing.Peer.PieceFile
import P2PFileSharing.Peer.TsafeSet
import P2PFileSharing.SockAddr

/-!
# A peer

What the threads of a peer share: the digests of the torrent, the set of the pieces that are
missing, what is known of the neighbours, the bitfield that is advertised, and the file, which the
downloaders write and the upload server reads through one stream.
-/

namespace P2PFileSharing.Peer

open Http Library

/-- `neighbour_data` -/
structure NeighbourData where
  addr : SockAddr
  isAvailable : Bitfield
  deriving DecidableEq

/-- What `ndata[peer_id]` makes for a peer that is not known. -/
def NeighbourData.new : NeighbourData := ⟨.new, ⟨[], 0⟩⟩

structure PeerState where
  nPieces : Nat
  shs : List BString
  pieces : TsafeSet
  ndata : OrdMap Int NeighbourData
  isAvailable : Bitfield
  us : UploadServer

namespace PeerState

/-- `load_meta` of a peer that opens its file in `us`. The pieces are counted by an `int`, which
has to reach `n_pieces`. -/
def loadMeta (after : Nat → BString) (fuel : Nat) (torrent md : BString) (seeder : Bool)
    (us : UploadServer) : Except Fault PeerState := do
  let shs ← Peer.loadMeta after fuel (IfStream.opened torrent) md []
  let nPieces : Nat := shs.length
  if 2 ^ 31 ≤ nPieces then throw .undefined
  let isAvailable ←
    if seeder then (Bitfield.holding nPieces (List.range nPieces)).mapError Fault.thrown
    else .ok (.ofCount nPieces)
  return { nPieces, shs, pieces := .load nPieces, ndata := ∅, isAvailable, us }

/-- A leecher that has loaded its torrent. -/
structure Fresh (us : UploadServer) (s : PeerState) : Prop where
  nPieces_eq : s.nPieces = s.shs.length
  nPieces_lt : s.nPieces < 2 ^ 31
  pieces_eq : s.pieces = .load s.nPieces
  ndata_eq : s.ndata = ∅
  isAvailable_eq : s.isAvailable = .ofCount s.nPieces
  us_eq : s.us = us

theorem fresh_of_loadMeta {after : Nat → BString} {fuel : Nat} {torrent md : BString}
    {us : UploadServer} {s : PeerState} (h : loadMeta after fuel torrent md false us = .ok s) :
    s.Fresh us := by
  rw [loadMeta] at h
  rcases hshs : Peer.loadMeta after fuel (IfStream.opened torrent) md [] with e | shs
  · simp [hshs, bind, Except.bind] at h
  · simp only [hshs, bind, Except.bind, pure, Except.pure, throw, throwThe, MonadExceptOf.throw,
      Bool.false_eq_true, if_false] at h
    split_ifs at h with hmany
    cases h
    exact ⟨rfl, Nat.not_le.mp hmany, rfl, rfl, rfl, rfl⟩

/-- `fetch_peers`, with the addresses that the tracker sent. -/
def fetchPeers (addrs : List SockAddr) (s : PeerState) : PeerState :=
  { s with ndata := addrs.foldl (fun ndata addr =>
      ndata.insert addr.uid ⟨addr, .ofCount (toInt32 s.nPieces)⟩) s.ndata }

def getBitfield (s : PeerState) : Bitfield := s.isAvailable

def onPieces {α : Type} (x : Action TsafeSet Fault α) : Action PeerState Fault α := fun s =>
  ((x s.pieces).1, { s with pieces := (x s.pieces).2 })

def onTsfs {α : Type} (x : Action FStream ExnClass α) : Action PeerState Fault α := fun s =>
  ((x s.us.tsfs).1.mapError Fault.thrown, { s with us := { s.us with tsfs := (x s.us.tsfs).2 } })

/-! ## The callback of a download -/

/-- `pieces_priority[i] + bf[i] - oldbf[i]` -/
def newPriority (priority : Int) (has had : Bool) : Except Fault Int := do
  let sum ← addInt priority has.toInt
  addInt sum (-had.toInt)

/-- The loop of `update_ndata_callback`. -/
def updatePriorities (bf oldbf : Bitfield) : List Nat → Action TsafeSet Fault Unit
  | [] => pure ()
  | i :: is => do
    let has ← Action.ofExcept ((bf.get i).mapError Fault.thrown)
    let had ← Action.ofExcept ((oldbf.get i).mapError Fault.thrown)
    let priority ← Action.ofExcept (newPriority ((← Action.get).piecesPriority i) has had)
    Action.modify fun s => s.updatePriority i priority
    updatePriorities bf oldbf is

def updateNdataCallback (peerId : Int) (bf : Bitfield) : Action PeerState Fault Unit := do
  let s ← Action.get
  let data := (s.ndata.find? peerId).getD .new
  Action.modify fun s => { s with ndata := s.ndata.insert peerId data }
  onPieces (updatePriorities bf data.isAvailable (List.range s.nPieces))

/-! ## Downloading a piece -/

def pieceRequest (pieceId : Nat) : Request :=
  (((Request.new .GET (lit "/piece")).addHeader (lit "Content-Length") (lit "0"))).addHeader
    (lit "Piece-Id") (toDecimal pieceId)

/-- `download` over a connection to the peer `serverId`. `SHA1` writes its digest to a buffer that
is followed by `after`. -/
def download (sha1 : BString → Digest) (after : BString)
    (sendRequest : Request → Except Fault Response)
    (serverId : Int) (pieceId : Nat) : Action PeerState Fault Unit := do
  let res ← Action.ofExcept (sendRequest (pieceRequest pieceId))
  let bf ← Action.ofExcept ((receivedBitfield res).mapError Fault.thrown)
  let valid ← Action.ofExcept (isValid sha1 (← Action.get).shs after pieceId res.body)
  if valid then
    onTsfs (writePiece pieceId res.body)
    updateNdataCallback serverId bf
  else Action.throw (.thrown .shaMismatchException)

/-! ## After a call -/

/-- The state that a call leaves, whether it returns or throws. There is none where its behaviour is
not defined. -/
def left : Except Fault Unit × PeerState → Option PeerState
  | (.error .undefined, _) => none
  | (_, s) => some s

theorem left_of_ne {r : Except Fault Unit} (hr : r ≠ .error .undefined) (s : PeerState) :
    left (r, s) = some s := by
  unfold left
  split
  next heq => exact absurd (Prod.mk.inj heq).1 hr
  next heq => rw [(Prod.mk.inj heq).2]

end PeerState

end P2PFileSharing.Peer
