import P2PFileSharing.Library.Simulation
import P2PFileSharing.Peer.ConcurrentReads
import P2PFileSharing.Peer.Download
import P2PFileSharing.Peer.Interleaving

/-!
# All threads of a peer

The download threads run `downloader_routine`, and the upload server runs `read_piece` in a thread
for each request. They share the set of pieces, the data of the neighbours and the stream of the
file. A step is one locked call, one access to a shared field outside of a lock, or the answer to a
request; `download` and `update_ndata_callback` can be interrupted between any two of them.
-/

namespace P2PFileSharing.Peer

open Http Library

/-- Where a download thread stands, with its local variables. -/
inductive Point where
  | connecting
  | testing
  | removing
  /-- in `download`, at `client.send_request(req)` -/
  | requesting (pieceId : Nat)
  /-- at `write_piece`, with a piece that has passed `is_valid` -/
  | writing (pieceId : Nat) (piece : BString) (bf : Bitfield)
  /-- in `update_ndata_callback`, at `ndata[peer_id].isAvailable` -/
  | lookingUp (pieceId : Nat) (bf : Bitfield)
  /-- at the condition of its loop -/
  | counting (pieceId : Nat) (bf oldbf : Bitfield) (i : Nat)
  /-- at `pieces.update_priority(i, new_priority)` -/
  | updating (pieceId : Nat) (bf oldbf : Bitfield) (i : Nat) (newPriority : Int)
  | pushingBack (pieceId : Nat)
  | exited (drained : Bool)
  deriving DecidableEq

namespace Point

/-- The same place, as `downloader_routine` has it. -/
def worker : Point → Worker
  | connecting => .connecting
  | testing => .testing
  | removing => .removing
  | requesting i | writing i _ _ | lookingUp i _ | counting i _ _ _ | updating i _ _ _ _ =>
    .downloading i
  | pushingBack i => .pushingBack i
  | exited drained => .exited drained

end Point

/-- What a download thread does next. -/
inductive ThreadCall where
  | connect (connected : Bool)
  | empty
  | removeTop
  /-- `send_request` comes back, and the response is checked; `after` is the memory behind the
  buffer of the digest -/
  | sendRequest (answer : Except Fault Response) (after : BString)
  | writePiece
  | lookUp
  /-- the condition of the loop, and the reads of the bits and of the priority -/
  | readPriority
  | updatePriority
  | push

inductive PeerEvent (ι κ : Type*) where
  | thread (t : ι) (c : ThreadCall)
  /-- a handler thread makes the next call of `read_piece` -/
  | read (h : κ)

/-- The threads of a peer: `ι` downloads, `κ` serves. -/
structure Threads (ι κ : Type*) where
  peer : PeerState
  points : ι → Point
  reads : κ → ReadCall
  /-- ids whose `download` returned, in order -/
  downloaded : List Nat
  /-- set once the program has no meaning any more -/
  undefined : Bool

/-- `ndata[peer_id]` makes an entry for a neighbour that has none. -/
def PeerState.lookedUp (s : PeerState) (peerId : Int) : PeerState :=
  { s with ndata := s.ndata.insert peerId ((s.ndata.find? peerId).getD .new) }

namespace Leecher

variable {ι : Type*} [DecidableEq ι] {s s' : Leecher ι} {t : ι} {e : Event} {c : Call}

/-- What a step of the routine can do, it does. -/
theorem call_of_step (hdef : s.undefined = false) (h : Step s t e s') (hc : c.event = some e) :
    s.call (t, c) = some s' := by
  rw [call_of_event hc]
  cases h with
  | connect _ hw | empty hw | success _ _ hw | shaMismatch _ hw | failure _ _ hw | push _ hw =>
    simp [downloaderRoutine, hdef, hw]
  | removeTopOfEmpty hw hnone =>
    simp [downloaderRoutine, hdef, hw, TsafeSet.removeTop_eq_none.mpr hnone]
  | removeTop i pieces hw htop => simp [downloaderRoutine, hdef, hw, htop]

end Leecher

namespace Threads

variable {ι κ : Type*}

/-- The threads at their start. -/
def initial (peer : PeerState) : Threads ι κ where
  peer
  points _ := .connecting
  reads _ := .seekEnd
  downloaded := []
  undefined := false

section Step

variable [DecidableEq ι]

def goTo (s : Threads ι κ) (t : ι) (p : Point) : Threads ι κ :=
  { s with points := Function.update s.points t p }

def setPeer (s : Threads ι κ) (peer : PeerState) : Threads ι κ := { s with peer }

def setPieces (s : Threads ι κ) (pieces : TsafeSet) : Threads ι κ :=
  s.setPeer { s.peer with pieces }

def setTsfs (s : Threads ι κ) (tsfs : FStream) : Threads ι κ :=
  s.setPeer { s.peer with us := { s.peer.us with tsfs } }

/-- The handlers of `downloader_routine` around `download`. -/
def handle (s : Threads ι κ) (t : ι) (pieceId : Nat) : Fault → Option (Threads ι κ)
  | .thrown e => (handlerFor [(.shaMismatchException, s.goTo t .testing),
      (.exception, s.goTo t (.pushingBack pieceId))] e)
  | .undefined => some { s with undefined := true }
  | .outOfFuel => none

/-- What `download` does before it writes. -/
def checkAnswer (sha1 : BString → Digest) (pieceId : Nat) (answer : Except Fault Response)
    (after : BString) : Action PeerState Fault Point := do
  let res ← Action.ofExcept answer
  let bf ← Action.ofExcept ((receivedBitfield res).mapError Fault.thrown)
  let valid ← Action.ofExcept (isValid sha1 (← Action.get).shs after pieceId res.body)
  if valid then return .writing pieceId res.body bf
  else Action.throw (.thrown .shaMismatchException)

/-- `i<n_pieces` and `new_priority`, in the loop of `update_ndata_callback`. -/
def readPriority (pieceId : Nat) (bf oldbf : Bitfield) (i : Nat) :
    Action PeerState Fault Point := do
  let s ← Action.get
  if i < s.nPieces then
    let has ← Action.ofExcept ((bf.get i).mapError Fault.thrown)
    let had ← Action.ofExcept ((oldbf.get i).mapError Fault.thrown)
    let priority ← Action.ofExcept (PeerState.newPriority (s.pieces.piecesPriority i) has had)
    return .updating pieceId bf oldbf i priority
  else return .testing

/-- The piece that `download` is called for, and what it does next. It returns at the end of the
loop of `update_ndata_callback`, and the thread is at its own loop again. -/
def inDownload (sha1 : BString → Digest) (serverId : Int) :
    Point → ThreadCall → Option (Nat × Action PeerState Fault Point)
  | .requesting pieceId, .sendRequest answer after =>
    some (pieceId, checkAnswer sha1 pieceId answer after)
  | .writing pieceId piece bf, .writePiece => some (pieceId, do
      PeerState.onTsfs (Peer.writePiece pieceId piece)
      return .lookingUp pieceId bf)
  | .lookingUp pieceId bf, .lookUp => some (pieceId, do
      let data := ((← Action.get).ndata.find? serverId).getD .new
      Action.modify fun s => s.lookedUp serverId
      return .counting pieceId bf data.isAvailable 0)
  | .counting pieceId bf oldbf i, .readPriority =>
    some (pieceId, readPriority pieceId bf oldbf i)
  | .updating pieceId bf oldbf i newPriority, .updatePriority => some (pieceId, do
      PeerState.onPieces (Action.modify fun s => s.updatePriority i newPriority)
      return .counting pieceId bf oldbf (i + 1))
  | _, _ => none

/-- What is left after a step of `download`. -/
def advance (s : Threads ι κ) (t : ι) (pieceId : Nat) :
    Except Fault Point × PeerState → Option (Threads ι κ)
  | (.ok p, peer) =>
    let downloaded := if p = .testing then s.downloaded ++ [pieceId] else s.downloaded
    some ({ s.setPeer peer with downloaded }.goTo t p)
  | (.error f, peer) => (s.setPeer peer).handle t pieceId f

/-- One step of thread `t`, whose downloader is connected to the peer `serverIds t`. -/
def call (sha1 : BString → Digest) (serverIds : ι → Int) (s : Threads ι κ) (t : ι)
    (c : ThreadCall) : Option (Threads ι κ) :=
  match s.points t, c with
  | .connecting, .connect connected =>
    some (s.goTo t (if connected then .testing else .exited false))
  | .testing, .empty =>
    some (s.goTo t (if s.peer.pieces.empty then .exited true else .removing))
  | .removing, .removeTop =>
    match s.peer.pieces.removeTop with
    | none => some { s with undefined := true }
    | some (pieceId, pieces) =>
      some ((s.setPieces pieces).goTo t (.requesting pieceId))
  | .pushingBack pieceId, .push =>
    some ((s.setPieces (s.peer.pieces.push pieceId)).goTo t (.exited false))
  | p, c => (inDownload sha1 (serverIds t) p c).bind fun x => s.advance t x.1 (x.2 s.peer)

/-- One step of any thread; the handler `h` is asked for the piece `pieceIds h`. -/
def step [DecidableEq κ] (sha1 : BString → Digest) (serverIds : ι → Int) (pieceIds : κ → Int)
    (s : Threads ι κ) (e : PeerEvent ι κ) : Option (Threads ι κ) :=
  if s.undefined then none
  else
    match e with
    | .thread t c => s.call sha1 serverIds t c
    | .read h =>
      match s.reads h with
      | .returned _ => none
      | _ =>
        let (r, us) := (s.reads h).next (pieceIds h) s.peer.us
        some { s with peer := { s.peer with us }, reads := Function.update s.reads h r }

/-- How `downloader_routine` sees the end of a step of `download`. -/
def seen : Except Fault Point → List Call
  | .ok .testing => [.returned]
  | .error (.thrown .shaMismatchException) => [.shaMismatch]
  | .error (.thrown _) => [.failed]
  | _ => []

/-- The calls on the shared state, as `downloader_routine` has them, that a step amounts to. -/
def callsOf (sha1 : BString → Digest) (serverIds : ι → Int) (s : Threads ι κ) (t : ι)
    (c : ThreadCall) : List Call :=
  match s.points t, c with
  | .connecting, .connect connected => [.connect connected]
  | .testing, .empty => [.empty]
  | .removing, .removeTop => [.removeTop]
  | .pushingBack _, .push => [.push]
  | .updating _ _ _ i newPriority, .updatePriority => [.updatePriority i newPriority]
  | p, c => (inDownload sha1 (serverIds t) p c).elim [] fun x => seen (x.2 s.peer).1

def calls (sha1 : BString → Digest) (serverIds : ι → Int) (s : Threads ι κ) :
    PeerEvent ι κ → List (ι × Call)
  | .thread t c => (s.callsOf sha1 serverIds t c).map fun call => (t, call)
  | .read _ => []

end Step

/-- What the threads have done, as far as `downloader_routine` goes. -/
def leecher (s : Threads ι κ) : Leecher ι where
  pieces := s.peer.pieces
  workers t := (s.points t).worker
  downloaded := s.downloaded
  undefined := s.undefined

/-! ## What a step can do -/

section Cases

variable [DecidableEq ι]

/-- What a call of a thread can do, with the calls of the routine that it amounts to. -/
inductive Move (sha1 : BString → Digest) (serverIds : ι → Int) (s : Threads ι κ) (t : ι) :
    ThreadCall → List Call → Threads ι κ → Prop where
  | connect (connected : Bool) (at_ : s.points t = .connecting) :
      Move sha1 serverIds s t (.connect connected) [.connect connected]
        (s.goTo t (if connected then .testing else .exited false))
  | empty (at_ : s.points t = .testing) : Move sha1 serverIds s t .empty [.empty]
      (s.goTo t (if s.peer.pieces.empty then .exited true else .removing))
  | removeTopOfEmpty (at_ : s.points t = .removing) (none_left : s.peer.pieces.pieceSet = []) :
      Move sha1 serverIds s t .removeTop [.removeTop] { s with undefined := true }
  | removeTop (pieceId : Nat) (pieces : TsafeSet) (at_ : s.points t = .removing)
      (top : s.peer.pieces.removeTop = some (pieceId, pieces)) :
      Move sha1 serverIds s t .removeTop [.removeTop]
        ((s.setPieces pieces).goTo t (.requesting pieceId))
  | received (pieceId : Nat) (res : Response) (after : BString) (bf : Bitfield)
      (at_ : s.points t = .requesting pieceId) (field : receivedBitfield res = .ok bf)
      (valid : isValid sha1 s.peer.shs after pieceId res.body = .ok true) :
      Move sha1 serverIds s t (.sendRequest (.ok res) after) []
        (s.goTo t (.writing pieceId res.body bf))
  | mismatched (pieceId : Nat) (answer : Except Fault Response) (after : BString)
      (at_ : s.points t = .requesting pieceId) :
      Move sha1 serverIds s t (.sendRequest answer after) [.shaMismatch] (s.goTo t .testing)
  | written (pieceId : Nat) (piece : BString) (bf : Bitfield) (fs : FStream)
      (at_ : s.points t = .writing pieceId piece bf)
      (write : Peer.writePiece pieceId piece s.peer.us.tsfs = (.ok (), fs)) :
      Move sha1 serverIds s t .writePiece [] ((s.setTsfs fs).goTo t (.lookingUp pieceId bf))
  | lookedUp (pieceId : Nat) (bf : Bitfield) (at_ : s.points t = .lookingUp pieceId bf) :
      Move sha1 serverIds s t .lookUp []
        ((s.setPeer (s.peer.lookedUp (serverIds t))).goTo t
          (.counting pieceId bf (s.peer.storedBitfield (serverIds t)) 0))
  | counted (pieceId : Nat) (bf oldbf : Bitfield) (i : Nat) (newPriority : Int)
      (at_ : s.points t = .counting pieceId bf oldbf i) (more : i < s.peer.nPieces)
      (reaches : PeerState.Reaches bf oldbf i)
      (priority : PeerState.newPriority (s.peer.pieces.piecesPriority i) (bf.test i)
        (oldbf.test i) = .ok newPriority) :
      Move sha1 serverIds s t .readPriority []
        (s.goTo t (.updating pieceId bf oldbf i newPriority))
  | returned (pieceId : Nat) (bf oldbf : Bitfield) (i : Nat)
      (at_ : s.points t = .counting pieceId bf oldbf i) (through : s.peer.nPieces ≤ i) :
      Move sha1 serverIds s t .readPriority [.returned]
        ({ s with downloaded := s.downloaded ++ [pieceId] }.goTo t .testing)
  | updated (pieceId : Nat) (bf oldbf : Bitfield) (i : Nat) (newPriority : Int)
      (at_ : s.points t = .updating pieceId bf oldbf i newPriority) :
      Move sha1 serverIds s t .updatePriority [.updatePriority i newPriority]
        ((s.setPieces (s.peer.pieces.updatePriority i newPriority)).goTo t
          (.counting pieceId bf oldbf (i + 1)))
  | failed (c : ThreadCall) (pieceId : Nat) (busy : (s.points t).worker = .downloading pieceId) :
      Move sha1 serverIds s t c [.failed] (s.goTo t (.pushingBack pieceId))
  | unwritten (pieceId : Nat) (piece : BString) (bf : Bitfield) (fs : FStream)
      (at_ : s.points t = .writing pieceId piece bf)
      (write : Peer.writePiece pieceId piece s.peer.us.tsfs = (.error .streamFailure, fs)) :
      Move sha1 serverIds s t .writePiece [.failed]
        ((s.setTsfs fs).goTo t (.pushingBack pieceId))
  | unchecked (pieceId : Nat) (answer : Except Fault Response) (after : BString)
      (at_ : s.points t = .requesting pieceId)
      (cause : answer = .error .undefined ∨ s.peer.shs.length ≤ pieceId) :
      Move sha1 serverIds s t (.sendRequest answer after) [] { s with undefined := true }
  | overflowed (pieceId : Nat) (bf oldbf : Bitfield) (i : Nat)
      (at_ : s.points t = .counting pieceId bf oldbf i)
      (priority : PeerState.newPriority (s.peer.pieces.piecesPriority i) (bf.test i)
        (oldbf.test i) = .error .undefined) :
      Move sha1 serverIds s t .readPriority [] { s with undefined := true }
  | push (pieceId : Nat) (at_ : s.points t = .pushingBack pieceId) :
      Move sha1 serverIds s t .push [.push]
        ((s.setPieces (s.peer.pieces.push pieceId)).goTo t (.exited false))

variable {sha1 : BString → Digest} {serverIds : ι → Int} {pieceIds : κ → Int} {s s' : Threads ι κ}
  {t : ι} {c : ThreadCall}

theorem handle_thrown (s : Threads ι κ) (t : ι) (pieceId : Nat) {e : ExnClass}
    (h : s.handle t pieceId (.thrown e) = some s') :
    e = .shaMismatchException ∧ s' = s.goTo t .testing ∨
      e ≠ .shaMismatchException ∧ s' = s.goTo t (.pushingBack pieceId) := by
  by_cases he : e = .shaMismatchException
  · subst he
    cases h
    exact .inl ⟨rfl, rfl⟩
  · refine .inr ⟨he, ?_⟩
    cases e <;> first | exact absurd rfl he | cases h <;> rfl

/-- A step of `download` that throws. -/
theorem move_of_handle {pieceId : Nat} {f : Fault} (h : s.handle t pieceId f = some s')
    (busy : (s.points t).worker = .downloading pieceId)
    (mismatch : f = .thrown .shaMismatchException →
      Move sha1 serverIds s t c [.shaMismatch] (s.goTo t .testing))
    (stop : f = .undefined → Move sha1 serverIds s t c [] { s with undefined := true }) :
    Move sha1 serverIds s t c (seen (.error f)) s' := by
  cases f with
  | thrown e =>
    obtain ⟨rfl, rfl⟩ | ⟨he, rfl⟩ := handle_thrown s t pieceId h
    · exact mismatch rfl
    · have hseen : seen (.error (.thrown e)) = [.failed] := by
        cases e <;> first | exact absurd rfl he | rfl
      rw [hseen]
      exact .failed c pieceId busy
  | undefined =>
    cases h
    exact stop rfl
  | outOfFuel => cases h

/-- Only the seek of `write_piece` throws, and not on a stream that has failed before. -/
theorem writePiece_error {i : Int} {data : BString} {fs fs' : FStream} {e : ExnClass}
    (h : Peer.writePiece i data fs = (.error e, fs')) :
    e = .streamFailure ∧ fs'.content = fs.content ∧ fs'.failed = true := by
  obtain ⟨content, pos, failed⟩ := fs
  cases failed with
  | true =>
    rw [writePiece_failed] at h
    cases h
  | false =>
    rw [Peer.writePiece] at h
    by_cases hneg : toInt64 (i * pieceLength) < 0
    · have hseek : FStream.seekp (toInt64 (i * pieceLength)) ⟨content, pos, false⟩ =
          (.error .streamFailure, ⟨content, pos, true⟩) := by
        rw [FStream.seekp_run, FStream.seekg,
          Action.bind_of_ok (show FStream.sentry ⟨content, pos, false⟩ = (.ok (), _) from rfl),
          if_pos hneg]
        rfl
      rw [Action.bind_of_error hseek] at h
      cases h
      exact ⟨rfl, rfl, rfl⟩
    · obtain ⟨k, hk⟩ := Int.eq_ofNat_of_zero_le (Int.not_lt.mp hneg)
      have hseek : FStream.seekp (k : Int) ⟨content, pos, false⟩ = (.ok (), ⟨content, k, false⟩) :=
        (FStream.seekp_run content pos k).trans (FStream.seekg_run content pos k)
      rw [hk, Action.bind_of_ok hseek] at h
      cases h

theorem newPriority_error {priority : Int} {has had : Bool} {f : Fault}
    (h : PeerState.newPriority priority has had = .error f) : f = .undefined := by
  unfold PeerState.newPriority addInt at h
  split_ifs at h
  · simp only [bind, Except.bind] at h
    split_ifs at h
    cases h
    rfl
  · cases h
    rfl

theorem onTsfs_of {x : Action FStream ExnClass Unit} {peer : PeerState} {fs : FStream}
    {r : Except ExnClass Unit} (h : x peer.us.tsfs = (r, fs)) :
    PeerState.onTsfs x peer =
      (r.mapError Fault.thrown, { peer with us := { peer.us with tsfs := fs } }) := by
  simp only [PeerState.onTsfs, h]

/-- An answer is not taken, or it is going to be written. -/
theorem checkAnswer_cases (sha1 : BString → Digest) (pieceId : Nat)
    (answer : Except Fault Response) (after : BString) (peer : PeerState) :
    (∃ f, checkAnswer sha1 pieceId answer after peer = (.error f, peer) ∧
      (f = .undefined → answer = .error .undefined ∨ peer.shs.length ≤ pieceId) ∧ ∀ serverId,
      peer.download sha1 after (fun _ => answer) serverId pieceId = (.error f, peer)) ∨
    ∃ res bf, answer = .ok res ∧ receivedBitfield res = .ok bf ∧
      isValid sha1 peer.shs after pieceId res.body = .ok true ∧
      checkAnswer sha1 pieceId answer after peer = (.ok (.writing pieceId res.body bf), peer) ∧
      ∀ serverId, peer.download sha1 after (fun _ => answer) serverId pieceId = (do
        PeerState.onTsfs (Peer.writePiece pieceId res.body)
        PeerState.updateNdataCallback serverId bf) peer := by
  cases answer with
  | error f => exact .inl ⟨f, rfl, fun hf => .inl (congrArg Except.error hf), fun _ => rfl⟩
  | ok res =>
    simp only [checkAnswer, PeerState.download, Action.ofExcept_ok_bind_run]
    rcases hfield : receivedBitfield res with e | bf
    · exact .inl ⟨.thrown e, rfl, by simp, fun _ => rfl⟩
    · simp only [Except.mapError, Action.ofExcept_ok_bind_run, Action.get_bind_run]
      rcases hvalid : isValid sha1 peer.shs after pieceId res.body with f | _ | _
      · refine .inl ⟨f, rfl, fun _ => .inr ?_, fun _ => rfl⟩
        by_contra hlt
        rw [isValid, List.getElem?_eq_getElem (Nat.not_le.mp hlt)] at hvalid
        cases hvalid
      · exact .inl ⟨_, rfl, by simp, fun _ => rfl⟩
      · exact .inr ⟨res, bf, rfl, hfield, hvalid, rfl, fun _ => rfl⟩

/-- What the condition of the loop and the reads behind it come to. -/
theorem readPriority_cases (pieceId : Nat) (bf oldbf : Bitfield) (i : Nat) (peer : PeerState) :
    (peer.nPieces ≤ i ∧ readPriority pieceId bf oldbf i peer = (.ok .testing, peer)) ∨
    (i < peer.nPieces ∧ ¬ PeerState.Reaches bf oldbf i ∧
      readPriority pieceId bf oldbf i peer =
        (.error (.thrown .indexOutOfRangeException), peer)) ∨
    (i < peer.nPieces ∧ PeerState.Reaches bf oldbf i ∧
      readPriority pieceId bf oldbf i peer =
        ((PeerState.newPriority (peer.pieces.piecesPriority i) (bf.test i) (oldbf.test i)).map
          (.updating pieceId bf oldbf i), peer)) := by
  rw [readPriority, Action.get_bind_run]
  by_cases hi : i < peer.nPieces
  · rw [if_pos hi]
    by_cases hbf : (i : Int) < bf.size
    · rw [Bitfield.get_of_lt hbf]
      by_cases hold : (i : Int) < oldbf.size
      · rw [Bitfield.get_of_lt hold]
        refine .inr (.inr ⟨hi, ⟨hbf, hold⟩, ?_⟩)
        simp only [Except.mapError, Action.ofExcept_ok_bind_run]
        rcases PeerState.newPriority (peer.pieces.piecesPriority i) (bf.test i)
          (oldbf.test i) with f | p <;> rfl
      · rw [Bitfield.get_of_le (Int.not_lt.mp hold)]
        exact .inr (.inl ⟨hi, fun h => hold h.2, rfl⟩)
    · rw [Bitfield.get_of_le (Int.not_lt.mp hbf)]
      exact .inr (.inl ⟨hi, fun h => hbf h.1, rfl⟩)
  · rw [if_neg hi]
    exact .inl ⟨Nat.not_lt.mp hi, rfl⟩

section Download

variable {pieceId i : Nat} {piece : BString} {bf oldbf : Bitfield}
  {answer : Except Fault Response} {after : BString}
  {x : Action PeerState Fault Point}

theorem move_of_sendRequest (at_ : s.points t = .requesting pieceId)
    (hx : inDownload sha1 (serverIds t) (.requesting pieceId) (.sendRequest answer after) =
      some (pieceId, x))
    (h : s.advance t pieceId (x s.peer) = some s') :
    Move sha1 serverIds s t (.sendRequest answer after) (seen (x s.peer).1) s' := by
  have busy : (s.points t).worker = .downloading pieceId := by rw [at_]; rfl
  have hfault {f : Fault} (h : s.handle t pieceId f = some s')
      (cause : f = .undefined → answer = .error .undefined ∨ s.peer.shs.length ≤ pieceId) :
      Move sha1 serverIds s t (.sendRequest answer after) (seen (.error f)) s' :=
    move_of_handle h busy (fun _ => .mismatched pieceId answer after at_)
      fun hf => .unchecked pieceId answer after at_ (cause hf)
  cases hx
  obtain ⟨f, hrun, hcause, -⟩ | ⟨res, bf, rfl, hfield, hvalid, hrun, -⟩ :=
    checkAnswer_cases sha1 pieceId answer after s.peer
  · rw [hrun] at h ⊢
    exact hfault h hcause
  · rw [hrun] at h ⊢
    cases h
    exact .received pieceId res after bf at_ hfield hvalid

theorem move_of_writePiece (at_ : s.points t = .writing pieceId piece bf)
    (hx : inDownload sha1 (serverIds t) (.writing pieceId piece bf) .writePiece =
      some (pieceId, x))
    (h : s.advance t pieceId (x s.peer) = some s') :
    Move sha1 serverIds s t .writePiece (seen (x s.peer).1) s' := by
  cases hx
  rcases hwrite : Peer.writePiece pieceId piece s.peer.us.tsfs with ⟨e | ⟨⟩, fs⟩
  · obtain ⟨rfl, -, -⟩ := writePiece_error hwrite
    rw [Action.bind_of_error (onTsfs_of hwrite)] at h ⊢
    cases h
    exact .unwritten pieceId piece bf fs at_ hwrite
  · rw [Action.bind_of_ok (onTsfs_of hwrite)] at h ⊢
    cases h
    exact .written pieceId piece bf fs at_ hwrite

theorem move_of_lookUp (at_ : s.points t = .lookingUp pieceId bf)
    (hx : inDownload sha1 (serverIds t) (.lookingUp pieceId bf) .lookUp = some (pieceId, x))
    (h : s.advance t pieceId (x s.peer) = some s') :
    Move sha1 serverIds s t .lookUp (seen (x s.peer).1) s' := by
  cases hx
  cases h
  exact .lookedUp pieceId bf at_

theorem move_of_readPriority (at_ : s.points t = .counting pieceId bf oldbf i)
    (hx : inDownload sha1 (serverIds t) (.counting pieceId bf oldbf i) .readPriority =
      some (pieceId, x))
    (h : s.advance t pieceId (x s.peer) = some s') :
    Move sha1 serverIds s t .readPriority (seen (x s.peer).1) s' := by
  have busy : (s.points t).worker = .downloading pieceId := by rw [at_]; rfl
  have hfault {f : Fault} (hf : f ≠ .thrown .shaMismatchException)
      (stop : f = .undefined → PeerState.newPriority (s.peer.pieces.piecesPriority i) (bf.test i)
        (oldbf.test i) = .error .undefined) (h : s.handle t pieceId f = some s') :
      Move sha1 serverIds s t .readPriority (seen (.error f)) s' :=
    move_of_handle h busy (fun he => absurd he hf)
      fun hundefined => .overflowed pieceId bf oldbf i at_ (stop hundefined)
  cases hx
  obtain ⟨hi, hrun⟩ | ⟨hi, -, hrun⟩ | ⟨hi, hreach, hrun⟩ :=
    readPriority_cases pieceId bf oldbf i s.peer
  · rw [hrun] at h ⊢
    cases h
    exact .returned pieceId bf oldbf i at_ hi
  · rw [hrun] at h ⊢
    exact hfault (by simp) (by simp) h
  · rw [hrun] at h ⊢
    rcases hp : PeerState.newPriority (s.peer.pieces.piecesPriority i) (bf.test i)
      (oldbf.test i) with f | p
    · rw [hp] at h
      exact hfault (by simp [newPriority_error hp]) (fun hf => hf ▸ hp) h
    · rw [hp] at h
      cases h
      exact .counted pieceId bf oldbf i p at_ hi hreach hp

theorem move_of_updatePriority {newPriority : Int}
    (at_ : s.points t = .updating pieceId bf oldbf i newPriority)
    (hx : inDownload sha1 (serverIds t) (.updating pieceId bf oldbf i newPriority)
      .updatePriority = some (pieceId, x))
    (h : s.advance t pieceId (x s.peer) = some s') :
    Move sha1 serverIds s t .updatePriority [.updatePriority i newPriority] s' := by
  cases hx
  cases h
  exact .updated pieceId bf oldbf i newPriority at_

end Download

theorem move_of_call (h : s.call sha1 serverIds t c = some s') :
    Move sha1 serverIds s t c (s.callsOf sha1 serverIds t c) s' := by
  unfold call at h
  unfold callsOf
  split at h
  next hp =>
    cases h
    simp only [hp]
    exact .connect _ hp
  next hp =>
    cases h
    simp only [hp]
    exact .empty hp
  next hp =>
    simp only [hp]
    split at h
    next htop =>
      cases h
      exact .removeTopOfEmpty hp (TsafeSet.removeTop_eq_none.mp htop)
    next htop =>
      cases h
      exact .removeTop _ _ hp htop
  next hp =>
    cases h
    simp only [hp]
    exact .push _ hp
  next =>
    obtain ⟨⟨pieceId, x⟩, hx, hadvance⟩ := Option.bind_eq_some_iff.mp h
    generalize hp : s.points t = p at hx
    unfold inDownload at hx
    split at hx
    next =>
      cases hx
      exact move_of_sendRequest hp rfl hadvance
    next =>
      cases hx
      exact move_of_writePiece hp rfl hadvance
    next =>
      cases hx
      exact move_of_lookUp hp rfl hadvance
    next =>
      cases hx
      exact move_of_readPriority hp rfl hadvance
    next =>
      cases hx
      exact move_of_updatePriority hp rfl hadvance
    next => cases hx

@[simp] theorem goTo_self (s : Threads ι κ) (t : ι) (p : Point) : (s.goTo t p).points t = p :=
  Function.update_self ..

theorem goTo_of_ne (s : Threads ι κ) (p : Point) {u : ι} (h : u ≠ t) :
    (s.goTo t p).points u = s.points u :=
  Function.update_of_ne h ..

/-- What a step can do: a call of a download thread, or one of a handler. -/
theorem step_cases [DecidableEq κ] {e : PeerEvent ι κ}
    (h : s.step sha1 serverIds pieceIds e = some s') : s.undefined = false ∧
    ((∃ t c, e = .thread t c ∧
        Move sha1 serverIds s t c (s.callsOf sha1 serverIds t c) s') ∨
      ∃ k, e = .read k ∧ (∀ result, s.reads k ≠ .returned result) ∧
        s' = { s with
          peer := { s.peer with us := ((s.reads k).next (pieceIds k) s.peer.us).2 }
          reads := Function.update s.reads k ((s.reads k).next (pieceIds k) s.peer.us).1 }) := by
  unfold step at h
  split_ifs at h with hdef
  refine ⟨by simpa using hdef, ?_⟩
  cases e with
  | thread t c => exact .inl ⟨t, c, rfl, move_of_call h⟩
  | read k =>
    refine .inr ⟨k, rfl, ?_⟩
    simp only at h
    split at h
    next => cases h
    next hrunning =>
      cases h
      exact ⟨hrunning, rfl⟩

/-! ## The routine behind the threads -/

theorem leecher_goTo (s : Threads ι κ) (t : ι) (p : Point) :
    (s.goTo t p).leecher = s.leecher.setWorker t p.worker := by
  have hworkers : (fun u => (Function.update s.points t p u).worker) =
      Function.update (fun u => (s.points u).worker) t p.worker := by
    funext u
    by_cases hu : u = t
    · subst hu
      simp
    · simp [hu]
  simp only [leecher, goTo, Leecher.setWorker, hworkers]

/-- Inside of `download` a thread stays where it is for the routine. -/
theorem leecher_goTo_of_worker {p : Point} (h : (s.points t).worker = p.worker) :
    (s.goTo t p).leecher = s.leecher := by
  rw [leecher_goTo, ← h]
  simp [leecher, Leecher.setWorker]

/-- The calls that a move amounts to lead to where it leads. -/
theorem Move.leecher_run {cs : List Call} (h : Move sha1 serverIds s t c cs s')
    (hdef : s.undefined = false) (hdef' : s'.undefined = false) :
    Machine.run Leecher.call s.leecher (cs.map fun call => (t, call)) = some s'.leecher := by
  have single {call : Call} {e : Event} {l : Leecher ι} (hs : Leecher.Step s.leecher t e l)
      (he : call.event = some e) :
      Machine.run Leecher.call s.leecher ([call].map fun call => (t, call)) = some l := by
    simp [Machine.run, Leecher.call_of_step hdef hs he]
  have hworker {p : Point} (hp : s.points t = p) : s.leecher.workers t = p.worker := by
    rw [← hp]
    rfl
  have stays (peer : PeerState) {p q : Point} (hpieces : peer.pieces = s.peer.pieces)
      (hp : s.points t = p) (hq : p.worker = q.worker) :
      Machine.run Leecher.call s.leecher [] = some ((s.setPeer peer).goTo t q).leecher := by
    have hsame : ((s.setPeer peer).points t).worker = q.worker := by
      rw [← hq, ← hp]
      rfl
    rw [leecher_goTo_of_worker hsame]
    simp only [leecher, setPeer, hpieces]
    rfl
  cases h with
  | connect connected hp =>
    have hs := Leecher.Step.connect connected (hworker hp)
    rw [leecher_goTo]
    cases connected <;> exact single hs rfl
  | empty hp =>
    have hs := Leecher.Step.empty (hworker hp)
    rw [leecher_goTo]
    cases hempty : s.peer.pieces.empty <;>
      (rw [show s.leecher.pieces.empty = _ from hempty] at hs; exact single hs rfl)
  | removeTopOfEmpty hp hnone => cases hdef'
  | removeTop i pieces hp htop =>
    rw [leecher_goTo]
    exact single (.removeTop i pieces (hworker hp) htop) rfl
  | received i res after bf hp hfield hvalid => exact stays s.peer rfl hp rfl
  | mismatched i answer after hp =>
    rw [leecher_goTo]
    exact single (.shaMismatch i (hworker hp)) rfl
  | written i piece bf fs hp hwrite => exact stays _ rfl hp rfl
  | lookedUp i bf hp => exact stays _ rfl hp rfl
  | counted i bf oldbf k p hp hmore hreach hpriority =>
    exact stays s.peer rfl hp rfl
  | returned i bf oldbf k hp hthrough =>
    rw [leecher_goTo]
    exact single (.success i [] (hworker hp)) rfl
  | updated i bf oldbf k p hp =>
    have hw : s.leecher.workers t = .downloading i := hworker hp
    have hsame : ((s.setPieces (s.peer.pieces.updatePriority k p)).points t).worker =
        (Point.counting i bf oldbf (k + 1)).worker := hw
    have hcall : s.leecher.call (t, .updatePriority k p) =
        some { s.leecher with pieces := s.leecher.pieces.updatePriority k p } := by
      simp only [Leecher.call, hw, show s.leecher.undefined = false from hdef]
    rw [leecher_goTo_of_worker hsame, List.map_singleton, Machine.run, hcall]
    rfl
  | failed c i hbusy =>
    rw [leecher_goTo]
    exact single (.failure i [] hbusy) rfl
  | unwritten i piece bf fs hp hwrite =>
    rw [leecher_goTo]
    exact single (.failure i [] (hworker hp)) rfl
  | unchecked i answer after hp hcause => cases hdef'
  | overflowed i bf oldbf k hp hpriority => cases hdef'
  | push i hp =>
    rw [leecher_goTo]
    exact single (.push i (hworker hp)) rfl

variable [DecidableEq κ] {es : List (PeerEvent ι κ)}

theorem follows_leecher {e : PeerEvent ι κ} (h : s.step sha1 serverIds pieceIds e = some s')
    (hdef' : s'.undefined = false) :
    Machine.run Leecher.call s.leecher (s.calls sha1 serverIds e) = some s'.leecher := by
  obtain ⟨hdef, ⟨t, c, rfl, hmove⟩ | ⟨k, rfl, -, rfl⟩⟩ := step_cases h
  · exact hmove.leecher_run hdef hdef'
  · rfl

/-- Whatever the threads do and the neighbours answer, with `download`, the upload server and all
the data that they share, it is a run of the calls of `downloader_routine`. -/
theorem leecher_run (hrun : Machine.run (step sha1 serverIds pieceIds) s es = some s')
    (hdef' : s'.undefined = false) : Machine.run Leecher.call s.leecher
      (Machine.log (step sha1 serverIds pieceIds) (calls sha1 serverIds) s es) =
        some s'.leecher :=
  Machine.run_log_of_follows (fun _ => True) (fun _ _ _ h => (step_cases h).1)
    (fun _ _ _ _ _ => trivial) (fun _ _ _ _ h hdef => follows_leecher h hdef) trivial hrun hdef'

/-! ## One download alone -/

/-- What is left when `download` is over. -/
def finish (s : Threads ι κ) (t : ι) (pieceId : Nat) :
    Except Fault Unit × PeerState → Option (Threads ι κ)
  | (.ok _, peer) =>
    some ({ s.setPeer peer with downloaded := s.downloaded ++ [pieceId] }.goTo t .testing)
  | (.error f, peer) => (s.setPeer peer).handle t pieceId f

section Alone

variable {pieceId : Nat} {p : Point} {x : Action PeerState Fault Point}

omit [DecidableEq κ] in
/-- It does not matter where the thread has been before. -/
theorem finish_goTo (s : Threads ι κ) (t : ι) (peer : PeerState) (p : Point)
    {r : Except Fault Unit × PeerState} (hr : r.1 ≠ .error .undefined) :
    ((s.setPeer peer).goTo t p).finish t pieceId r = s.finish t pieceId r := by
  obtain ⟨f | _, peer'⟩ := r
  · cases f with
    | undefined => exact absurd rfl hr
    | thrown | outOfFuel => simp [finish, handle, setPeer, goTo]
  · simp [finish, setPeer, goTo]

theorem step_of_inDownload (hdef : s.undefined = false) (hp : s.points t = p)
    (hx : inDownload sha1 (serverIds t) p c = some (pieceId, x)) :
    s.step sha1 serverIds pieceIds (.thread t c) = s.advance t pieceId (x s.peer) := by
  have hcall : s.call sha1 serverIds t c = s.advance t pieceId (x s.peer) := by
    unfold call
    rw [hp]
    unfold inDownload at hx
    split at hx <;> cases hx <;> rfl
  simp only [step, hdef, hcall, Bool.false_eq_true, if_false]

/-- Thread `t` comes to the end of its download by itself. -/
def Alone (sha1 : BString → Digest) (serverIds : ι → Int) (pieceIds : κ → Int) (s : Threads ι κ)
    (t : ι) (pieceId : Nat) (r : Except Fault Unit × PeerState) : Prop :=
  ∀ s', s.finish t pieceId r = some s' → ∃ cs : List ThreadCall,
    Machine.run (step sha1 serverIds pieceIds) s (cs.map fun c => .thread t c) = some s'

/-- A step, and what is left after it. -/
theorem alone_of_inDownload (hdef : s.undefined = false) (hp : s.points t = p)
    (hx : inDownload sha1 (serverIds t) p c = some (pieceId, x))
    {r : Except Fault Unit × PeerState} (hr : r.1 ≠ .error .undefined)
    (hfault : ∀ f peer, x s.peer = (.error f, peer) → r = (.error f, peer))
    (hreturn : ∀ q peer, x s.peer = (.ok q, peer) → q = .testing ∧ r = (.ok (), peer) ∨
      q ≠ .testing ∧ Alone sha1 serverIds pieceIds ((s.setPeer peer).goTo t q) t pieceId r) :
    Alone sha1 serverIds pieceIds s t pieceId r := by
  intro s' hs'
  have hstep : s.step sha1 serverIds pieceIds (.thread t c) = s.advance t pieceId (x s.peer) :=
    step_of_inDownload hdef hp hx
  rcases hrun : x s.peer with ⟨f | q, peer⟩
  · cases hfault f peer hrun
    refine ⟨[c], Machine.run_cons.mpr ⟨s', ?_, rfl⟩⟩
    rw [hstep, hrun]
    exact hs'
  · obtain ⟨rfl, rfl⟩ | ⟨hq, halone⟩ := hreturn q peer hrun
    · refine ⟨[c], Machine.run_cons.mpr ⟨s', ?_, rfl⟩⟩
      rw [hstep, hrun]
      exact hs'
    · obtain ⟨cs, hcs⟩ := halone s' (by rwa [finish_goTo _ _ _ _ hr])
      refine ⟨c :: cs, Machine.run_cons.mpr ⟨_, ?_, hcs⟩⟩
      rw [hstep, hrun, advance, if_neg hq]
      rfl

/-- The loop of `update_ndata_callback`. -/
theorem alone_counting {bf oldbf : Bitfield} {i m : Nat} (hdef : s.undefined = false)
    (hp : s.points t = .counting pieceId bf oldbf i) (hm : s.peer.nPieces - i = m)
    {r : Except Fault Unit} {pieces : TsafeSet} (hr : r ≠ .error .undefined)
    (hrun : PeerState.updatePriorities bf oldbf (List.range' i m) s.peer.pieces = (r, pieces)) :
    Alone sha1 serverIds pieceIds s t pieceId (r, { s.peer with pieces }) := by
  have fault {s : Threads ι κ} {f : Fault} {peer : PeerState} {i : Nat}
      (hdef : s.undefined = false) (hp : s.points t = .counting pieceId bf oldbf i)
      (hf : f ≠ .undefined) (hx : readPriority pieceId bf oldbf i s.peer = (.error f, peer)) :
      Alone sha1 serverIds pieceIds s t pieceId (.error f, peer) := by
    refine alone_of_inDownload (c := .readPriority) hdef hp rfl (by simpa using hf)
      (fun f' peer' hx' => ?_) fun q peer' hx' => ?_
    · cases hx.symm.trans hx'
      rfl
    · cases hx.symm.trans hx'
  induction m generalizing s i with
  | zero =>
    obtain ⟨hi, hx⟩ | ⟨hi, -⟩ | ⟨hi, -⟩ := readPriority_cases pieceId bf oldbf i s.peer
    · refine alone_of_inDownload (c := .readPriority) hdef hp rfl hr (fun f peer hx' => ?_)
        fun q peer hx' => ?_
      · cases hx.symm.trans hx'
      · cases hx.symm.trans hx'
        cases hrun
        exact .inl ⟨rfl, rfl⟩
    · omega
    · omega
  | succ m ih =>
    rw [List.range'_succ] at hrun
    obtain ⟨hi, -⟩ | ⟨hi, hreach, hx⟩ | ⟨hi, hreach, hx⟩ :=
      readPriority_cases pieceId bf oldbf i s.peer
    · omega
    · rw [PeerState.updatePriorities_stop hreach] at hrun
      cases hrun
      exact fault hdef hp (by simp) hx
    · rw [PeerState.updatePriorities_reached hreach] at hrun
      rcases hnew : PeerState.newPriority (s.peer.pieces.piecesPriority i) (bf.test i)
        (oldbf.test i) with f | p
      · rw [hnew] at hrun hx
        cases hrun
        exact fault hdef hp (by simpa using hr) hx
      · rw [hnew, Action.ofExcept_ok_bind_run, Action.modify_bind_run] at hrun
        rw [hnew] at hx
        refine alone_of_inDownload (c := .readPriority) hdef hp rfl hr (fun f peer hx' => ?_)
          fun q peer hx' => ?_
        · cases hx.symm.trans hx'
        · cases hx.symm.trans hx'
          refine .inr ⟨by simp, ?_⟩
          let u := (s.setPeer s.peer).goTo t (.updating pieceId bf oldbf i p)
          refine alone_of_inDownload (s := u) (c := .updatePriority) hdef (goTo_self ..) rfl hr
            (fun f peer hx' => ?_) fun q peer hx' => ?_
          · cases hx'
          · cases hx'
            let v := (u.setPieces (u.peer.pieces.updatePriority i p)).goTo t
              (.counting pieceId bf oldbf (i + 1))
            refine .inr ⟨by simp, ih (s := v) hdef (goTo_self ..) ?_ hrun⟩
            exact (Nat.sub_succ _ _).trans (congrArg Nat.pred hm)

theorem alone_lookingUp {bf : Bitfield} (hdef : s.undefined = false)
    (hp : s.points t = .lookingUp pieceId bf)
    (hr : (PeerState.updateNdataCallback (serverIds t) bf s.peer).1 ≠ .error .undefined) :
    Alone sha1 serverIds pieceIds s t pieceId
      (PeerState.updateNdataCallback (serverIds t) bf s.peer) := by
  refine alone_of_inDownload (c := .lookUp) hdef hp rfl hr (fun f peer hx => ?_)
    fun q peer hx => ?_
  · cases hx
  · cases hx
    rw [PeerState.updateNdataCallback_run] at hr ⊢
    let u := (s.setPeer (s.peer.lookedUp (serverIds t))).goTo t
      (.counting pieceId bf (s.peer.storedBitfield (serverIds t)) 0)
    exact .inr ⟨by simp, alone_counting (s := u) hdef (goTo_self ..) (Nat.sub_zero _) hr rfl⟩

theorem alone_writing {piece : BString} {bf : Bitfield} (hdef : s.undefined = false)
    (hp : s.points t = .writing pieceId piece bf)
    {r : Except Fault Unit × PeerState} (hr : r.1 ≠ .error .undefined)
    (hrun : (do
      PeerState.onTsfs (Peer.writePiece pieceId piece)
      PeerState.updateNdataCallback (serverIds t) bf) s.peer = r) :
    Alone sha1 serverIds pieceIds s t pieceId r := by
  rcases hwrite : PeerState.onTsfs (Peer.writePiece pieceId piece) s.peer with ⟨f | ⟨⟩, peer⟩
  · rw [Action.bind_of_error hwrite] at hrun
    refine alone_of_inDownload (c := .writePiece) hdef hp rfl hr (fun f' peer' hx => ?_)
      fun q peer' hx => ?_
    · rw [Action.bind_of_error hwrite] at hx
      cases hx
      exact hrun.symm
    · rw [Action.bind_of_error hwrite] at hx
      cases hx
  · rw [Action.bind_of_ok hwrite] at hrun
    refine alone_of_inDownload (c := .writePiece) hdef hp rfl hr (fun f' peer' hx => ?_)
      fun q peer' hx => ?_
    · rw [Action.bind_of_ok hwrite] at hx
      cases hx
    · rw [Action.bind_of_ok hwrite] at hx
      cases hx
      subst hrun
      let u := (s.setPeer peer).goTo t (.lookingUp pieceId bf)
      exact .inr ⟨by simp, alone_lookingUp (s := u) hdef (goTo_self ..) hr⟩

/-- Without other threads between its steps, a thread that gets an answer does what `download`
does with it. -/
theorem exists_run_download (hdef : s.undefined = false) (hp : s.points t = .requesting pieceId)
    (answer : Except Fault Response) (after : BString)
    (hr : (s.peer.download sha1 after (fun _ => answer) (serverIds t) pieceId).1 ≠
      .error .undefined)
    (hs' : s.finish t pieceId
      (s.peer.download sha1 after (fun _ => answer) (serverIds t) pieceId) = some s') :
    ∃ cs : List ThreadCall, Machine.run (step sha1 serverIds pieceIds) s
      ((.sendRequest answer after :: cs).map fun c => .thread t c) = some s' := by
  have hstep : s.step sha1 serverIds pieceIds (.thread t (.sendRequest answer after)) =
      s.advance t pieceId (checkAnswer sha1 pieceId answer after s.peer) :=
    step_of_inDownload hdef hp rfl
  obtain ⟨f, hrun, -, hdownload⟩ | ⟨res, bf, rfl, -, -, hrun, hdownload⟩ :=
    checkAnswer_cases sha1 pieceId answer after s.peer
  · rw [hdownload] at hs'
    rw [hrun] at hstep
    exact ⟨[], Machine.run_cons.mpr ⟨s', hstep.trans hs', rfl⟩⟩
  · rw [hdownload] at hr hs'
    rw [hrun] at hstep
    let u := (s.setPeer s.peer).goTo t (.writing pieceId res.body bf)
    have halone : Alone sha1 serverIds pieceIds u t pieceId _ :=
      alone_writing (s := u) hdef (goTo_self ..) hr rfl
    obtain ⟨cs, hcs⟩ := halone s' ((finish_goTo _ _ _ _ hr).trans hs')
    exact ⟨cs, Machine.run_cons.mpr ⟨_, hstep, hcs⟩⟩

/-- A thread that is about to ask for the only piece. -/
def letterAsking : Threads Unit Unit :=
  { (initial letterTaken : Threads Unit Unit) with points := fun _ => .requesting 0 }

omit [DecidableEq ι] [DecidableEq κ] in
/-- With a good answer it comes back to its loop with the piece. -/
theorem letterAsking_downloads : ∃ cs : List ThreadCall,
    Machine.run (step letterSha1 (fun _ => 1) fun _ => 0) letterAsking
      ((.sendRequest (.ok (UploadServer.served ⟨[1], 1⟩ (lit "A"))) [] :: cs).map
        fun c => .thread () c) =
      some { letterAsking with
        peer := letterDone
        points := Function.update letterAsking.points () .testing
        downloaded := [0] } := by
  have hrun : letterTaken.download letterSha1 []
      (fun _ => .ok (UploadServer.served ⟨[1], 1⟩ (lit "A"))) 1 0 = (.ok (), letterDone) :=
    goodAttempt_run
  refine exists_run_download rfl rfl (.ok (UploadServer.served ⟨[1], 1⟩ (lit "A"))) [] ?_ ?_
  · change (letterTaken.download letterSha1 [] _ 1 0).1 ≠ _
    rw [hrun]
    simp
  · change letterAsking.finish () 0 (letterTaken.download letterSha1 [] _ 1 0) = _
    rw [hrun]
    rfl

end Alone

end Cases

end Threads

end P2PFileSharing.Peer
