import P2PFileSharing.Peer.Neighbours
import P2PFileSharing.Peer.Serving

/-!
# The bitfield that a peer advertises

Every piece that is served carries the bitfield of the server. A peer sets its bits when it loads
the torrent, and a download changes the file, the set of pieces and the data of the neighbours, but
not the bitfield.
-/

namespace P2PFileSharing.Peer

open Http Library

/-- A call of `download`, by a thread that is connected to the peer `serverId`. -/
structure Attempt where
  sendRequest : Request → Except Fault Response
  serverId : Int
  pieceId : Nat
  /-- the memory behind the buffer of the digest -/
  after : BString

inductive LeecherEvent where
  | download (attempt : Attempt)
  | serve (req : Request) (sock : SockAddr)
  | removeTop
  | push (pieceId : Nat)

namespace Attempt

def run (sha1 : BString → Digest) (a : Attempt) (s : PeerState) : Except Fault Unit × PeerState :=
  s.download sha1 a.after a.sendRequest a.serverId a.pieceId

end Attempt

/-- What happens to the data of a leecher. -/
def leech (sha1 : BString → Digest) : Option PeerState → LeecherEvent → Option (Option PeerState)
  | none, _ => none
  | some s, .download a => some (PeerState.left (a.run sha1 s))
  | some s, .serve req sock =>
    some (some { s with us := (UploadServer.callback s.getBitfield req sock s.us).2 })
  | some s, .removeTop => act (some s) .removeTop
  | some s, .push pieceId => act (some s) (.push pieceId)

/-- The piece that `download` returned for and has written. Through a failed stream nothing is
written. -/
def downloadedBy (sha1 : BString → Digest) : Option PeerState → LeecherEvent → List Nat
  | some s, .download a =>
    match (a.run sha1 s).1 with
    | .ok _ => if s.us.tsfs.failed then [] else [a.pieceId]
    | .error _ => []
  | _, _ => []

/-- Bit `i` of the bytes in the `Bit-Field` header of a response. -/
def sentBit (res : Response) (i : Nat) : Bool :=
  match res.getHeader (lit "Bit-Field") with
  | .ok value => (Bitfield.ofBstring value).test i
  | .error _ => false

/-- The responses that the upload server makes name the downloaded pieces. -/
def Truthful : Option PeerState × List Nat → Prop
  | (none, _) => True
  | (some s, downloaded) => ∀ piece, ∀ i < s.nPieces,
    sentBit (UploadServer.served s.getBitfield piece) i = true ↔ i ∈ downloaded

/-- What a step of a leecher can do. -/
inductive Leech (sha1 : BString → Digest) (s : PeerState) :
    LeecherEvent → Option PeerState → Prop
  | download (a : Attempt) : Leech sha1 s (.download a) (PeerState.left (a.run sha1 s))
  | serve (req : Request) (sock : SockAddr) : Leech sha1 s (.serve req sock)
      (some { s with us := (UploadServer.callback s.getBitfield req sock s.us).2 })
  | empty (htop : s.pieces.removeTop = none) : Leech sha1 s .removeTop none
  | removeTop {i : Nat} {pieces : TsafeSet} (htop : s.pieces.removeTop = some (i, pieces)) :
      Leech sha1 s .removeTop (some { s with pieces })
  | push (i : Nat) : Leech sha1 s (.push i) (some { s with pieces := s.pieces.push i })

theorem leech_cases {sha1 : BString → Digest} {s : PeerState} {e : LeecherEvent}
    {t : Option PeerState} (h : leech sha1 (some s) e = some t) : Leech sha1 s e t := by
  cases e with
  | download a =>
    cases h
    exact .download a
  | serve req sock =>
    cases h
    exact .serve req sock
  | removeTop =>
    rcases htop : s.pieces.removeTop with _ | ⟨i, pieces⟩
    · simp only [leech, act, htop, Option.some.injEq] at h
      subst h
      exact .empty htop
    · simp only [leech, act, htop, Option.some.injEq] at h
      subst h
      exact .removeTop htop
  | push i =>
    cases h
    exact .push i

/-! ## What a download leaves alone -/

/-- The data of the torrent, and the bitfield, are the same. -/
def SameMeta (s t : PeerState) : Prop :=
  t.isAvailable = s.isAvailable ∧ t.nPieces = s.nPieces ∧ t.shs = s.shs

instance : Std.Refl SameMeta := ⟨fun _ => ⟨rfl, rfl, rfl⟩⟩

instance : IsTrans PeerState SameMeta :=
  ⟨fun _ _ _ h h' => ⟨h'.1.trans h.1, h'.2.1.trans h.2.1, h'.2.2.trans h.2.2⟩⟩

theorem within_updateNdataCallback (peerId : Int) (bf : Bitfield) :
    Action.Within SameMeta (PeerState.updateNdataCallback peerId bf) :=
  Action.within_get.bind fun _ => (Action.within_modify fun _ => ⟨rfl, rfl, rfl⟩).bind fun _ _ =>
    ⟨rfl, rfl, rfl⟩

/-- Whatever the write and the callback do to the data, `download` does no more. -/
theorem download_within {R : PeerState → PeerState → Prop} [Std.Refl R] [IsTrans PeerState R]
    {serverId : Int} {pieceId : Nat}
    (hwrite : ∀ data, Action.Within R (PeerState.onTsfs (writePiece pieceId data)))
    (hcallback : ∀ bf, Action.Within R (PeerState.updateNdataCallback serverId bf))
    (sha1 : BString → Digest) (after : BString) (sendRequest : Request → Except Fault Response) :
    Action.Within R (PeerState.download sha1 after sendRequest serverId pieceId) := by
  refine (Action.within_ofExcept _).bind fun res => (Action.within_ofExcept _).bind fun bf =>
    Action.within_get.bind fun s => (Action.within_ofExcept _).bind fun valid => ?_
  split
  next => exact (hwrite res.body).bind fun _ => hcallback bf
  next => exact Action.within_throw _

theorem within_download (sha1 : BString → Digest) (after : BString)
    (sendRequest : Request → Except Fault Response) (serverId : Int) (pieceId : Nat) :
    Action.Within SameMeta (PeerState.download sha1 after sendRequest serverId pieceId) :=
  download_within (fun _ _ => ⟨rfl, rfl, rfl⟩) (within_updateNdataCallback serverId) sha1 after
    sendRequest

/-- Only a piece of the torrent can be downloaded. -/
theorem lt_of_download_ok {sha1 : BString → Digest} {a : Attempt} {s t : PeerState}
    (h : a.run sha1 s = (.ok (), t)) : a.pieceId < s.shs.length := by
  obtain ⟨res, s1, hsend, hrest⟩ := Action.bind_eq_ok.mp h
  obtain ⟨bf, s2, hfield, hrest⟩ := Action.bind_eq_ok.mp hrest
  obtain ⟨now, s3, hget, hrest⟩ := Action.bind_eq_ok.mp hrest
  obtain ⟨valid, s4, hvalid, hrest⟩ := Action.bind_eq_ok.mp hrest
  obtain ⟨-, rfl⟩ := Action.ofExcept_eq_ok.mp hsend
  obtain ⟨-, rfl⟩ := Action.ofExcept_eq_ok.mp hfield
  cases hget
  obtain ⟨hvalid, -⟩ := Action.ofExcept_eq_ok.mp hvalid
  rw [isValid] at hvalid
  split at hvalid
  next sh hsh => exact (List.getElem?_eq_some_iff.mp hsh).1
  next => cases hvalid

/-- A piece that is sent, valid and written. -/
theorem download_run {sha1 : BString → Digest} {a : Attempt} {s : PeerState} {res : Response}
    {bf : Bitfield} {fs : FStream}
    (hsend : a.sendRequest (PeerState.pieceRequest a.pieceId) = .ok res)
    (hfield : receivedBitfield res = .ok bf)
    (hvalid : isValid sha1 s.shs a.after a.pieceId res.body = .ok true)
    (hwrite : writePiece a.pieceId res.body s.us.tsfs = (.ok (), fs)) :
    a.run sha1 s = PeerState.updateNdataCallback a.serverId bf
      { s with us := { s.us with tsfs := fs } } := by
  have hstream : PeerState.onTsfs (writePiece a.pieceId res.body) s =
      (.ok (), { s with us := { s.us with tsfs := fs } }) := by
    simp only [PeerState.onTsfs, hwrite]
    rfl
  have hfield' : (receivedBitfield res).mapError Fault.thrown = .ok bf := by
    rw [hfield]
    rfl
  rw [Attempt.run, PeerState.download, hsend, Action.ofExcept_ok_bind_run, hfield',
    Action.ofExcept_ok_bind_run, Action.get_bind_run, hvalid, Action.ofExcept_ok_bind_run,
    if_pos rfl, Action.bind_of_ok hstream]

theorem sentBit_served (bf : Bitfield) (piece : BString) (i : Nat) :
    sentBit (UploadServer.served bf piece) i = bf.test i := by
  rw [sentBit, getHeader_served]
  simp only [Bitfield.test_eq_testBit, Bitfield.ofBstring]

/-- As long as nothing has been downloaded, the bitfield is as `load_meta` has made it. -/
def Unfinished : Option PeerState × List Nat → Prop
  | (none, _) => True
  | (some s, downloaded) =>
    s.isAvailable = .ofCount s.nPieces ∧ s.nPieces = s.shs.length ∧ downloaded = []

theorem Unfinished.truthful {x : Option PeerState × List Nat} (h : Unfinished x) : Truthful x := by
  obtain ⟨_ | s, downloaded⟩ := x
  · trivial
  · obtain ⟨havailable, -, hnone⟩ := h
    intro piece i hi
    rw [sentBit_served, PeerState.getBitfield, havailable, Bitfield.test_ofCount, hnone]
    simp

theorem Unfinished.same {s t : PeerState} {downloaded : List Nat}
    (h : Unfinished (some s, downloaded))
    (hsame : SameMeta s t) : Unfinished (some t, downloaded) := by
  obtain ⟨havailable, hn, hnone⟩ := h
  refine ⟨?_, ?_, hnone⟩
  · rw [hsame.1, hsame.2.1, havailable]
  · rw [hsame.2.1, hsame.2.2, hn]

/-- A download that writes its piece leaves its bit as it was. -/
theorem Unfinished.download {s : PeerState} {downloaded : List Nat}
    (h : Unfinished (some s, downloaded)) (sha1 : BString → Digest) (a : Attempt) :
    (downloadedBy sha1 (some s) (.download a) = [] →
      Unfinished (PeerState.left (a.run sha1 s), downloaded)) ∧
    (downloadedBy sha1 (some s) (.download a) ≠ [] → ¬ Truthful (PeerState.left (a.run sha1 s),
      downloaded ++ downloadedBy sha1 (some s) (.download a))) := by
  have hsame : SameMeta s (a.run sha1 s).2 := within_download _ _ _ _ _ s
  rcases hrun : a.run sha1 s with ⟨e | ⟨⟩, t⟩
  · rw [hrun] at hsame
    constructor
    · intro _
      by_cases he : e = .undefined
      · subst he
        trivial
      · rw [PeerState.left_of_ne (by simpa using he)]
        exact h.same hsame
    · intro hne
      simp [downloadedBy, hrun] at hne
  · rw [hrun] at hsame
    rw [PeerState.left_of_ne (by simp)]
    refine ⟨fun _ => h.same hsame, fun hwritten htruth => ?_⟩
    have hdone : downloadedBy sha1 (some s) (.download a) = [a.pieceId] := by
      simp only [downloadedBy, hrun] at hwritten ⊢
      exact if_neg fun hfailed => hwritten (if_pos hfailed)
    have hlt := lt_of_download_ok hrun
    obtain ⟨havailable, hn, -⟩ := h
    rw [hdone] at htruth
    have hbit := htruth [] a.pieceId (by rw [hsame.2.1, hn]; exact hlt)
    rw [sentBit_served, PeerState.getBitfield, hsame.1, havailable, Bitfield.test_ofCount] at hbit
    simp at hbit

theorem Unfinished.step {sha1 : BString → Digest} {x y : Option PeerState × List Nat}
    {e : LeecherEvent} (h : Unfinished x)
    (hstep : Machine.logged (leech sha1) (downloadedBy sha1) x e = some y) :
    (downloadedBy sha1 x.1 e = [] → Unfinished y) ∧
      (downloadedBy sha1 x.1 e ≠ [] → ¬ Truthful y) := by
  obtain ⟨_ | s, downloaded⟩ := x
  · cases hstep
  obtain ⟨t, downloaded'⟩ := y
  obtain ⟨hto, hlog⟩ := Machine.logged_eq_some.mp hstep
  simp only at hto hlog
  subst hlog
  have quiet {u : PeerState} (hsame : SameMeta s u) (hnone : downloadedBy sha1 (some s) e = []) :
      Unfinished (some u, downloaded ++ downloadedBy sha1 (some s) e) := by
    rw [hnone, List.append_nil]
    exact h.same hsame
  cases leech_cases hto with
  | download a =>
    obtain ⟨hkeep, hspoil⟩ := h.download sha1 a
    refine ⟨fun hnone => ?_, hspoil⟩
    rw [hnone, List.append_nil]
    exact hkeep hnone
  | serve req sock => exact ⟨quiet ⟨rfl, rfl, rfl⟩, fun hne => absurd rfl hne⟩
  | empty htop => exact ⟨fun _ => trivial, fun hne => absurd rfl hne⟩
  | removeTop htop => exact ⟨quiet ⟨rfl, rfl, rfl⟩, fun hne => absurd rfl hne⟩
  | push i => exact ⟨quiet ⟨rfl, rfl, rfl⟩, fun hne => absurd rfl hne⟩

/-- The bitfield that a leecher sends names the pieces that it has downloaded and written throughout
a run if and only if no download of the run returns with its piece written. -/
theorem truthful_iff_nothing_downloaded (sha1 : BString → Digest) {afterMeta : Nat → BString}
    {fuel : Nat} {torrent md buf : BString} {s : PeerState}
    (hmeta : PeerState.loadMeta afterMeta fuel torrent md false (.ofEmpty buf) = .ok s)
    (addrs : List SockAddr) (es : List LeecherEvent) :
    Machine.AllStates (Machine.logged (leech sha1) (downloadedBy sha1)) Truthful
        (some (s.fetchPeers addrs), []) es ↔
      Machine.AllSteps (Machine.logged (leech sha1) (downloadedBy sha1))
        (fun x e => downloadedBy sha1 x.1 e = []) (some (s.fetchPeers addrs), []) es := by
  have hfresh := PeerState.fresh_of_loadMeta hmeta
  have start : Unfinished (some (s.fetchPeers addrs), []) :=
    ⟨hfresh.isAvailable_eq, hfresh.nPieces_eq, rfl⟩
  refine Machine.allStates_iff_allSteps (fun _ h => h.truthful) ?_ ?_ start es
  · exact fun x e y h hnone hstep => (h.step hstep).1 hnone
  · exact fun x e y h hdone hstep => (h.step hstep).2 hdone

/-! A torrent of the one byte `A`, whose digest has a zero byte: no memory behind a buffer is
read -/

def digestOfA : Digest := ⟨[109, 205, 76, 226, 61, 136, 226, 238, 149, 104, 186, 84, 108, 0, 124,
  99, 217, 19, 28, 27], rfl⟩

/-- SHA1, as far as the piece `A` needs it. -/
def letterSha1 (data : BString) : Digest := if data = lit "A" then digestOfA else digestOfOnes

/-- A leecher of the piece `A`. -/
def letterPiece : PeerState where
  nPieces := 1
  shs := [upToZero digestOfA.val]
  pieces := .load 1
  ndata := ∅
  isAvailable := .ofCount 1
  us := .ofEmpty []

/-- The neighbour sends the piece. -/
def goodAttempt : Attempt where
  sendRequest _ := .ok (UploadServer.served ⟨[1], 1⟩ (lit "A"))
  serverId := 1
  pieceId := 0
  after := []

/-- A download that cannot be started. -/
theorem failed_download_hides_nothing : Machine.AllStates
    (Machine.logged (leech sampleSha1) (downloadedBy sampleSha1)) Truthful
    (some (threePieces.fetchPeers [.ofUid 1]), [])
    [.removeTop, .download ⟨fun _ => .error (.thrown .socketException), 1, 0, []⟩, .push 0] :=
  (truthful_iff_nothing_downloaded sampleSha1 threePieces_loaded _ _).mpr (by decide)

/-- The leecher while a thread downloads its piece, and afterwards. -/
def letterTaken : PeerState :=
  { letterPiece.fetchPeers [.ofUid 1] with pieces := ⟨[], fun _ => 0⟩ }

def letterDone : PeerState := { letterTaken with us := ⟨⟨lit "A", 1, false⟩, []⟩ }

theorem goodAttempt_run : goodAttempt.run letterSha1 letterTaken = (.ok (), letterDone) := by
  have hvalid : isValid letterSha1 letterTaken.shs goodAttempt.after goodAttempt.pieceId
      (UploadServer.served ⟨[1], 1⟩ (lit "A")).body = .ok true := by decide
  have hwrite : writePiece goodAttempt.pieceId (UploadServer.served ⟨[1], 1⟩ (lit "A")).body
      letterTaken.us.tsfs = (.ok (), ⟨lit "A", 1, false⟩) :=
    writePiece_run (by decide) (lit "A") [] 0
  rw [download_run rfl (receivedBitfield_served ⟨[1], 1⟩ (lit "A")) hvalid hwrite]
  rfl

/-- The piece is downloaded and served, with a bitfield that does not name it. -/
theorem downloaded_piece_not_named :
    PeerState.loadMeta (fun _ => []) 3 digestOfA.val (List.replicate 20 0) false (.ofEmpty []) =
      .ok letterPiece ∧
    Machine.run (Machine.logged (leech letterSha1) (downloadedBy letterSha1))
      (some (letterPiece.fetchPeers [.ofUid 1]), []) [.removeTop, .download goodAttempt] =
        some (some letterDone, [0]) ∧
    ∃ res t, UploadServer.callback letterDone.getBitfield pieceZero .new letterDone.us =
      (.ok res, t) ∧ res.status = .OK ∧ sentBit res 0 = false := by
  refine ⟨rfl, ?_, ?_⟩
  · have hdone : leech letterSha1 (some letterTaken) (.download goodAttempt) =
        some (some letterDone) := by
      rw [leech, goodAttempt_run]
      rfl
    have hlog : downloadedBy letterSha1 (some letterTaken) (.download goodAttempt) = [0] := by
      rw [downloadedBy, goodAttempt_run]
      rfl
    have hlast : Machine.logged (leech letterSha1) (downloadedBy letterSha1)
        (some letterTaken, []) (.download goodAttempt) = some (some letterDone, [0]) :=
      Machine.logged_eq_some.mpr ⟨hdone, hlog.symm⟩
    refine Machine.run_cons.mpr ⟨(some letterTaken, []), rfl, ?_⟩
    exact Machine.run_cons.mpr ⟨_, hlast, rfl⟩
  · obtain ⟨t, hserve⟩ :=
      pieceZero_served letterDone.getBitfield (List.cons_ne_nil 65 []) (by decide) 1 []
    exact ⟨_, t, hserve, rfl, by rw [sentBit_served]; decide⟩

end P2PFileSharing.Peer
