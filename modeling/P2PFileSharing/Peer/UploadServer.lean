import P2PFileSharing.Http.Server
import P2PFileSharing.Peer.Bitfield

/-!
# The upload server

`read_piece` reads one piece of the shared file through a buffer of the server, and `callback`
answers a request for a piece with its bytes and with the bitfield of the peer. The stream throws
when it fails, and stays failed; the calls that read throw again.
-/

namespace P2PFileSharing.Peer

open Http Library

abbrev pieceLength : Nat := 524288

/-! ## The stream -/

/-- An open `std::fstream` that throws on `failbit`. -/
structure FStream where
  content : BString
  pos : Nat
  failed : Bool
  deriving DecidableEq, Repr

namespace FStream

/-- What the calls that read begin with: a failed stream fails again. -/
def sentry : Action FStream ExnClass Unit := do
  if (← Action.get).failed then Action.throw ExnClass.streamFailure

/-- `seekg(pos)`: the file has no position before its start. -/
def seekg (pos : Int) : Action FStream ExnClass Unit := do
  sentry
  if pos < 0 then
    Action.modify fun s => { s with failed := true }
    Action.throw .streamFailure
  else Action.modify fun s => { s with pos := pos.toNat }

/-- `seekg(0, end)` -/
def seekgEnd : Action FStream ExnClass Unit := do
  sentry
  Action.modify fun s => { s with pos := s.content.length }

def tellg : Action FStream ExnClass Int := do
  sentry
  return (← Action.get).pos

/-- `read(buf, count)` and the bytes that it stored. -/
def read (count : Nat) (s : FStream) : BString × FStream :=
  if s.failed then ([], s)
  else
    let data := (s.content.drop s.pos).take count
    (data, { s with pos := s.pos + data.length, failed := decide (data.length < count) })

/-! A stream that has not failed -/

theorem seekg_run (content : BString) (old pos : Nat) :
    seekg pos ⟨content, old, false⟩ = (.ok (), ⟨content, pos, false⟩) := by
  rw [seekg, Action.bind_of_ok (show sentry ⟨content, old, false⟩ = (.ok (), _) from rfl),
    if_neg (by omega)]
  rfl

theorem seekgEnd_run (content : BString) (old : Nat) :
    seekgEnd ⟨content, old, false⟩ = (.ok (), ⟨content, content.length, false⟩) := rfl

theorem tellg_run (content : BString) (pos : Nat) :
    tellg ⟨content, pos, false⟩ = (.ok (pos : Int), ⟨content, pos, false⟩) := rfl

theorem read_eq {content : BString} {pos count : Nat} (h : pos + count ≤ content.length) :
    read count ⟨content, pos, false⟩ =
      ((content.drop pos).take count, ⟨content, pos + count, false⟩) := by
  have hlen : ((content.drop pos).take count).length = count := by
    simp only [List.length_take, List.length_drop]
    omega
  simp [read, hlen]

end FStream

/-! ## Serving a piece -/

/-- The stream of the shared file, and `char buf[PIECE_LENGTH]`. -/
structure UploadServer where
  tsfs : FStream
  buf : BString
  deriving DecidableEq, Repr

namespace UploadServer

def onTsfs {α : Type} (x : Action FStream ExnClass α) : Action UploadServer ExnClass α := fun s =>
  ((x s.tsfs).1, { s with tsfs := (x s.tsfs).2 })

/-- `tsfs.read(buf, pos, count)` -/
def readBuf (pos : Int) (count : Nat) : Action UploadServer ExnClass Unit := do
  onTsfs (FStream.seekg pos)
  let s ← Action.get
  let (data, tsfs) := s.tsfs.read count
  Action.modify fun s => { tsfs, buf := data ++ s.buf.drop data.length }
  if tsfs.failed then Action.throw .streamFailure

/-- `piece_id * PIECE_LENGTH` is computed as a `size_t`. -/
def readPiece (pieceId : Int) : Action UploadServer ExnClass BString := do
  let pos := toInt64 (pieceId * pieceLength)
  onTsfs FStream.seekgEnd
  let fsize ← onTsfs FStream.tellg
  onTsfs (FStream.seekg 0)
  if fsize ≤ pos then Action.throw .invalidPieceNoException
  else
    let readCount := min pieceLength (fsize - pos).toNat
    readBuf pos readCount
    return (← Action.get).buf.take readCount

/-- The response to a request that was served. The bits have been counted by an `int`, so there are
few enough bytes for `b2s`. -/
def served (bf : Bitfield) (piece : BString) : Response :=
  (((⟨.HTTP_2_0, .OK, lit "successful", ∅, []⟩ : Response).addHeader
    (lit "Content-Length") (toDecimal piece.length)).addHeader
    (lit "Bit-Field") bf.toBstring).setBody piece

/-- The `catch` list of `callback`. -/
def callbackHandlers : List (ExnClass × Response) :=
  [(.noSuchHeaderException, .new .BAD_REQUEST (lit "Piece-Id Required")),
    (.invalidPieceNoException, .new .BAD_REQUEST (lit "Invalid Piece No")),
    (.streamFailure, .new .INTERNAL_SERVER_ERROR (lit "server error")),
    (.exception, .new .INTERNAL_SERVER_ERROR (lit "server error"))]

/-- `get_bitfield()` gives `bf` when the callback is called. -/
def callback (bf : Bitfield) : Callback UploadServer := fun req _ =>
  Action.catching
    (do
      let header ← Action.ofExcept (req.getHeader (lit "Piece-Id"))
      let pieceId ← Action.ofExcept (stoi header)
      let piece ← readPiece pieceId
      return served bf piece)
    (fun e => (handlerFor callbackHandlers e).map pure)

/-! ## Reading a piece -/

/-- The bytes of piece `i`. -/
def piece (content : BString) (i : Nat) : BString :=
  (content.drop (i * pieceLength)).take pieceLength

theorem onTsfs_run {α : Type} {x : Action FStream ExnClass α} {fs fs' : FStream} {a : α}
    (h : x fs = (.ok a, fs')) (buf : BString) : onTsfs x ⟨fs, buf⟩ = (.ok a, ⟨fs', buf⟩) := by
  simp only [onTsfs, h]

theorem readBuf_run {content : BString} {pos count : Nat} (h : pos + count ≤ content.length)
    (old : Nat) (buf : BString) : readBuf pos count ⟨⟨content, old, false⟩, buf⟩ =
      (.ok (), ⟨⟨content, pos + count, false⟩,
        (content.drop pos).take count ++ buf.drop count⟩) := by
  have hlen : ((content.drop pos).take count).length = count := by
    simp only [List.length_take, List.length_drop]
    omega
  rw [readBuf, Action.bind_of_ok (onTsfs_run (FStream.seekg_run content old pos) buf),
    Action.get_bind_run, FStream.read_eq h]
  dsimp only
  rw [Action.modify_bind_run, hlen]
  rfl

/-- The place of a piece fits into a `long long`, because its id is an `int`. -/
theorem mul_pieceLength_lt {i : Nat} (hi : i < 2 ^ 31) : i * pieceLength < 2 ^ 63 := by
  have hlt : i * pieceLength < 2 ^ 31 * pieceLength := Nat.mul_lt_mul_of_pos_right hi (by decide)
  exact hlt.trans (by decide)

theorem length_piece (content : BString) (i : Nat) :
    (piece content i).length = min pieceLength (content.length - i * pieceLength) := by
  rw [piece, List.length_take, List.length_drop]

/-- `fsize`, and the stream back at its start. -/
theorem readPiece_start (content : BString) (i : Int) (old : Nat) (buf : BString) :
    readPiece i ⟨⟨content, old, false⟩, buf⟩ =
      (if (content.length : Int) ≤ toInt64 (i * pieceLength) then
        Action.throw .invalidPieceNoException
      else do
        let readCount := min pieceLength (content.length - toInt64 (i * pieceLength)).toNat
        readBuf (toInt64 (i * pieceLength)) readCount
        return (← Action.get).buf.take readCount) ⟨⟨content, 0, false⟩, buf⟩ := by
  have hstart : FStream.seekg 0 ⟨content, content.length, false⟩ = (.ok (), ⟨content, 0, false⟩) :=
    FStream.seekg_run content _ 0
  rw [readPiece, Action.bind_of_ok (onTsfs_run (FStream.seekgEnd_run content old) buf),
    Action.bind_of_ok (onTsfs_run (FStream.tellg_run content _) buf),
    Action.bind_of_ok (onTsfs_run hstart buf)]

/-- A stream that has not failed gives the bytes of every piece of the file. -/
theorem readPiece_run {content : BString} {i : Nat} (hi : i * pieceLength < content.length)
    (hsize : i * pieceLength < 2 ^ 63) (old : Nat) (buf : BString) :
    ∃ pos buf', readPiece i ⟨⟨content, old, false⟩, buf⟩ =
      (.ok (piece content i), ⟨⟨content, pos, false⟩, buf'⟩) := by
  have hpos : toInt64 ((i : Int) * pieceLength) = (i * pieceLength : Nat) := by
    rw [toInt64_eq_self] <;> omega
  have hcount : min pieceLength (((content.length : Nat) : Int) - (i * pieceLength : Nat)).toNat =
      min pieceLength (content.length - i * pieceLength) := by omega
  have htake : (content.drop (i * pieceLength)).take
      (min pieceLength (content.length - i * pieceLength)) = piece content i := by
    rw [piece, List.take_eq_take_iff, List.length_drop]
    omega
  have hfits : i * pieceLength + min pieceLength (content.length - i * pieceLength) ≤
      content.length := by omega
  have hread := readBuf_run hfits 0 buf
  rw [htake] at hread
  rw [readPiece_start, hpos, if_neg (by omega), hcount, Action.bind_of_ok hread,
    Action.get_bind_run, Action.pure_run, List.take_left' (length_piece content i)]
  exact ⟨_, _, rfl⟩

/-- Behind the end of the file there is no piece. -/
theorem readPiece_past {content : BString} {i : Nat} (hi : content.length ≤ i * pieceLength)
    (hsize : i * pieceLength < 2 ^ 63) (old : Nat) (buf : BString) :
    readPiece i ⟨⟨content, old, false⟩, buf⟩ =
      (.error .invalidPieceNoException, ⟨⟨content, 0, false⟩, buf⟩) := by
  have hpos : toInt64 ((i : Int) * pieceLength) = (i * pieceLength : Nat) := by
    rw [toInt64_eq_self] <;> omega
  rw [readPiece_start, hpos, if_pos (by omega)]
  rfl

theorem place_negative {i : Int} (hi : i < 0) (hint : -2 ^ 31 ≤ i) :
    toInt64 (i * pieceLength) < 0 := by
  have hlen : ((pieceLength : Nat) : Int) = 524288 := rfl
  rw [hlen, toInt64_eq_self] <;> omega

/-- In front of the start of the file there is no position. -/
theorem readBuf_negative {pos : Int} (hneg : pos < 0) (count : Nat) (content : BString) (old : Nat)
    (buf : BString) : readBuf pos count ⟨⟨content, old, false⟩, buf⟩ =
      (.error .streamFailure, ⟨⟨content, old, true⟩, buf⟩) := by
  have hseek : FStream.seekg pos ⟨content, old, false⟩ =
      (.error .streamFailure, ⟨content, old, true⟩) := by
    rw [FStream.seekg, Action.bind_of_ok (show FStream.sentry ⟨content, old, false⟩ = (.ok (), _)
      from rfl), if_pos hneg]
    rfl
  rw [readBuf, Action.bind_of_error (e := .streamFailure) (by rw [onTsfs, hseek])]

theorem readPiece_negative {i : Int} (hi : i < 0) (hint : -2 ^ 31 ≤ i) (content : BString)
    (old : Nat) (buf : BString) : readPiece i ⟨⟨content, old, false⟩, buf⟩ =
      (.error .streamFailure, ⟨⟨content, 0, true⟩, buf⟩) := by
  have hneg := place_negative hi hint
  rw [readPiece_start, if_neg (by omega), Action.bind_of_error (readBuf_negative hneg _ _ _ _)]

/-- A failed stream stays as it is. -/
theorem readPiece_failed (i : Int) (content : BString) (old : Nat) (buf : BString) :
    readPiece i ⟨⟨content, old, true⟩, buf⟩ =
      (.error .streamFailure, ⟨⟨content, old, true⟩, buf⟩) := rfl

variable {s t : UploadServer}

/-- What a piece that was read says about the server. -/
theorem readPiece_eq_ok {i : Int} {p : BString} (hi : -2 ^ 31 ≤ i ∧ i < 2 ^ 31)
    (h : readPiece i s = (.ok p, t)) : s.tsfs.failed = false ∧
      ∃ k : Nat, i = k ∧ k * pieceLength < s.tsfs.content.length ∧ p = piece s.tsfs.content k := by
  obtain ⟨⟨content, old, failed⟩, buf⟩ := s
  cases failed with
  | true => cases (readPiece_failed i content old buf).symm.trans h
  | false =>
    refine ⟨rfl, ?_⟩
    by_cases hneg : i < 0
    · cases (readPiece_negative hneg hi.1 content old buf).symm.trans h
    · obtain ⟨k, rfl⟩ := Int.eq_ofNat_of_zero_le (Int.not_lt.mp hneg)
      have hsize := mul_pieceLength_lt (i := k) (by omega)
      by_cases hin : k * pieceLength < content.length
      · obtain ⟨pos, buf', hrun⟩ := readPiece_run hin hsize old buf
        cases hrun.symm.trans h
        exact ⟨k, rfl, hin, rfl⟩
      · cases (readPiece_past (Nat.not_lt.mp hin) hsize old buf).symm.trans h

/-! ## Answering a request -/

theorem callbackHandlers_status : ∀ h ∈ callbackHandlers, h.2.status ≠ .OK := by decide

/-- An OK answer carries the piece of the file that was asked for. -/
theorem callback_served {bf : Bitfield} {req : Request} {sock : SockAddr} {res : Response}
    (h : callback bf req sock s = (.ok res, t)) (hok : res.status = .OK) :
    ∃ value, ∃ k : Nat, req.getHeader (lit "Piece-Id") = .ok value ∧ stoi value = .ok (k : Int) ∧
      s.tsfs.failed = false ∧ k * pieceLength < s.tsfs.content.length ∧
      res = served bf (piece s.tsfs.content k) := by
  rw [callback, Action.catching] at h
  split at h
  · rename_i r u hrun
    cases h
    obtain ⟨value, s1, hget, hrest⟩ := Action.bind_eq_ok.mp hrun
    obtain ⟨i, s2, hread, hrest⟩ := Action.bind_eq_ok.mp hrest
    obtain ⟨p, s3, hp, hend⟩ := Action.bind_eq_ok.mp hrest
    obtain ⟨hvalue, rfl⟩ := Action.ofExcept_eq_ok.mp hget
    obtain ⟨hi, rfl⟩ := Action.ofExcept_eq_ok.mp hread
    obtain ⟨hfailed, k, rfl, hk, rfl⟩ := readPiece_eq_ok (stoi_range hi) hp
    cases hend
    exact ⟨value, k, hvalue, hi, hfailed, hk, rfl⟩
  · rename_i e u hrun
    split at h
    · rename_i k hk
      obtain ⟨answer, hanswer, rfl⟩ := Option.map_eq_some_iff.mp hk
      cases h
      obtain ⟨c, hmem, -⟩ := exists_of_handlerFor hanswer
      exact absurd hok (callbackHandlers_status _ hmem)
    · cases h

/-- An OK answer carries a piece. -/
theorem callback_ok {bf : Bitfield} {req : Request} {sock : SockAddr} {res : Response}
    (h : callback bf req sock s = (.ok res, t)) (hok : res.status = .OK) :
    ∃ p, res = served bf p ∧ p.length ≤ pieceLength := by
  obtain ⟨-, k, -, -, -, -, rfl⟩ := callback_served h hok
  refine ⟨_, rfl, ?_⟩
  rw [length_piece]
  exact Nat.min_le_left _ _

/-! What a request does not change -/

end UploadServer

/-- The file is the same, and a stream that has failed has stayed so. -/
def FStream.SameFile (s t : FStream) : Prop :=
  t.content = s.content ∧ (s.failed = true → t.failed = true)

namespace UploadServer

def SameFile (s t : UploadServer) : Prop := s.tsfs.SameFile t.tsfs

instance : Std.Refl SameFile := ⟨fun _ => ⟨rfl, id⟩⟩

instance : IsTrans UploadServer SameFile :=
  ⟨fun _ _ _ h h' => ⟨h'.1.trans h.1, fun hfailed => h'.2 (h.2 hfailed)⟩⟩

theorem seekg_sameFile (pos : Int) (fs : FStream) : fs.SameFile (FStream.seekg pos fs).2 := by
  obtain ⟨content, old, failed⟩ := fs
  cases failed with
  | true => exact ⟨rfl, fun _ => rfl⟩
  | false =>
    have hsentry : FStream.sentry ⟨content, old, false⟩ = (.ok (), _) := rfl
    rw [FStream.seekg, Action.bind_of_ok hsentry]
    refine ⟨?_, by simp⟩
    split_ifs <;> rfl

theorem within_onTsfs {α : Type} {x : Action FStream ExnClass α}
    (hx : ∀ fs : FStream, fs.SameFile (x fs).2) : Action.Within SameFile (onTsfs x) :=
  fun s => hx s.tsfs

theorem read_sameFile (count : Nat) (fs : FStream) : fs.SameFile (fs.read count).2 := by
  unfold FStream.read
  split_ifs with hfailed
  · exact ⟨rfl, id⟩
  · exact ⟨rfl, fun h => absurd h hfailed⟩

theorem within_readBuf (pos : Int) (count : Nat) : Action.Within SameFile (readBuf pos count) := by
  refine (within_onTsfs (seekg_sameFile pos)).bind fun _ => Action.within_get_bind fun s => ?_
  dsimp only
  rw [Action.modify_bind_run]
  split_ifs <;> exact read_sameFile count s.tsfs

theorem seekgEnd_sameFile (fs : FStream) : fs.SameFile (FStream.seekgEnd fs).2 := by
  obtain ⟨content, old, _ | _⟩ := fs <;> exact ⟨rfl, id⟩

theorem tellg_sameFile (fs : FStream) : fs.SameFile (FStream.tellg fs).2 := by
  obtain ⟨content, old, _ | _⟩ := fs <;> exact ⟨rfl, id⟩

theorem within_readPiece (i : Int) : Action.Within SameFile (readPiece i) := by
  refine (within_onTsfs seekgEnd_sameFile).bind fun _ =>
    (within_onTsfs tellg_sameFile).bind fun _ =>
      (within_onTsfs (seekg_sameFile 0)).bind fun _ => ?_
  split
  next => exact Action.within_throw _
  next =>
    exact (within_readBuf _ _).bind fun _ => Action.within_get.bind fun _ => Action.within_pure _

/-- No request changes the file. -/
theorem within_callback (bf : Bitfield) (req : Request) (sock : SockAddr) :
    Action.Within SameFile (callback bf req sock) := by
  refine Action.Within.catching ?_ ?_
  · exact (Action.within_ofExcept _).bind fun _ => (Action.within_ofExcept _).bind fun i =>
      (within_readPiece i).bind fun _ => Action.within_pure _
  · intro e k hk
    obtain ⟨answer, -, rfl⟩ := Option.map_eq_some_iff.mp hk
    exact Action.within_pure _

/-- A request for a piece of the file is answered with it. -/
theorem callback_run (bf : Bitfield) {req : Request} {value : Str} {i : Nat} {content : BString}
    (hheader : req.getHeader (lit "Piece-Id") = .ok value) (hid : stoi value = .ok (i : Int))
    (hi : i * pieceLength < content.length) (hsize : content.length < 2 ^ 63) (sock : SockAddr)
    (old : Nat) (buf : BString) : ∃ t, callback bf req sock ⟨⟨content, old, false⟩, buf⟩ =
      (.ok (served bf (piece content i)), t) := by
  obtain ⟨pos, buf', hread⟩ := readPiece_run hi (hi.trans hsize) old buf
  refine ⟨⟨⟨content, pos, false⟩, buf'⟩, Action.catching_of_ok ?_⟩
  rw [hheader, Action.bind_of_ok (Action.ofExcept_run _ _), hid,
    Action.bind_of_ok (Action.ofExcept_run _ _), Action.bind_of_ok hread]
  rfl

end UploadServer

end P2PFileSharing.Peer
