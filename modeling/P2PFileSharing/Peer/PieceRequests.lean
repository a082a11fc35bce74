import P2PFileSharing.Peer.BitfieldChannel
import P2PFileSharing.Peer.PieceFile

/-!
# One request for a piece after another

The handlers of all requests read through one stream. A request that makes the stream fail spoils
the answers to those that come after it.
-/

namespace P2PFileSharing.Peer

open Http Library UploadServer

/-- A request with an `int` in its Piece-Id header, and the bitfield of the peer when it comes. -/
structure PieceRequest where
  bf : Bitfield
  req : Request
  sock : SockAddr
  value : Str
  pieceId : Int
  header : req.getHeader (lit "Piece-Id") = .ok value
  isInt : stoi value = .ok pieceId

/-- The answers of `callback` to requests that come one after another. -/
def answers (s : UploadServer) : List PieceRequest → List (Except ExnClass Response)
  | [] => []
  | q :: qs => (callback q.bf q.req q.sock s).1 :: answers (callback q.bf q.req q.sock s).2 qs

/-- A piece of the file is sent, and any other number is a bad request. -/
def Answers (content : BString) (i : Int) (answer : Except ExnClass Response) : Prop :=
  ∃ res, answer = .ok res ∧
    if 0 ≤ i ∧ i < chunkCount pieceLength content then
      res.status = .OK ∧ res.body = chunk pieceLength i.toNat content
    else res.status = .BAD_REQUEST

variable {q : PieceRequest} {content : BString}

/-! ## One request -/

theorem callback_of_readPiece_error {s t : UploadServer} {e : ExnClass} {answer : Response}
    (hread : readPiece q.pieceId s = (.error e, t))
    (hanswer : handlerFor callbackHandlers e = some answer) :
    callback q.bf q.req q.sock s = (.ok answer, t) := by
  have hk : (handlerFor callbackHandlers e).map pure =
      some (pure answer : Action UploadServer ExnClass Response) := by
    rw [hanswer, Option.map_some]
  refine Action.catching_of_error ?_ hk
  rw [q.header, Action.bind_of_ok (Action.ofExcept_run _ _), q.isInt,
    Action.bind_of_ok (Action.ofExcept_run _ _), Action.bind_of_error hread]

/-- A request with no negative number gets its answer and leaves the stream as good as before. -/
theorem callback_nonneg (hq : 0 ≤ q.pieceId) (content : BString) (old : Nat) (buf : BString) :
    ∃ answer pos buf', callback q.bf q.req q.sock ⟨⟨content, old, false⟩, buf⟩ =
      (.ok answer, ⟨⟨content, pos, false⟩, buf'⟩) ∧ Answers content q.pieceId (.ok answer) := by
  obtain ⟨i, hi⟩ := Int.eq_ofNat_of_zero_le hq
  have hid : stoi q.value = .ok (i : Int) := hi ▸ q.isInt
  have hsize : i * pieceLength < 2 ^ 63 := mul_pieceLength_lt (by have := stoi_range hid; omega)
  have hcount : i < chunkCount pieceLength content ↔ i * pieceLength < content.length :=
    lt_chunkCount (by decide)
  by_cases hin : i * pieceLength < content.length
  · obtain ⟨pos, buf', hread⟩ := readPiece_run hin hsize old buf
    refine ⟨served q.bf (piece content i), pos, buf', Action.catching_of_ok ?_, _, rfl, ?_⟩
    · rw [q.header, Action.bind_of_ok (Action.ofExcept_run _ _), hid,
        Action.bind_of_ok (Action.ofExcept_run _ _), Action.bind_of_ok hread]
      rfl
    · rw [if_pos ⟨hq, by rw [hi]; exact_mod_cast hcount.mpr hin⟩, hi, Int.toNat_natCast]
      exact ⟨rfl, rfl⟩
  · have hread := readPiece_past (Nat.not_lt.mp hin) hsize old buf
    rw [← hi] at hread
    refine ⟨_, 0, buf, callback_of_readPiece_error hread rfl, _, rfl, ?_⟩
    rw [if_neg]
    · rfl
    · rintro ⟨-, hlt⟩
      rw [hi] at hlt
      exact hin (hcount.mp (by exact_mod_cast hlt))

/-- A negative number passes the check, and seeking to it makes the stream fail. -/
theorem callback_negative (hq : q.pieceId < 0) (old : Nat) (buf : BString) :
    callback q.bf q.req q.sock ⟨⟨content, old, false⟩, buf⟩ =
      (.ok (.new .INTERNAL_SERVER_ERROR (lit "server error")), ⟨⟨content, 0, true⟩, buf⟩) :=
  callback_of_readPiece_error (readPiece_negative hq (stoi_range q.isInt).1 content old buf) rfl

/-- On a failed stream every request ends alike. -/
theorem callback_failed (q : PieceRequest) (content : BString) (old : Nat) (buf : BString) :
    callback q.bf q.req q.sock ⟨⟨content, old, true⟩, buf⟩ =
      (.ok (.new .INTERNAL_SERVER_ERROR (lit "server error")), ⟨⟨content, old, true⟩, buf⟩) :=
  callback_of_readPiece_error (readPiece_failed q.pieceId content old buf) rfl

theorem not_answers_of_negative {i : Int} (hi : i < 0) :
    ¬ Answers content i (.ok (.new .INTERNAL_SERVER_ERROR (lit "server error"))) := by
  rintro ⟨res, hres, hstatus⟩
  cases hres
  rw [if_neg (by omega)] at hstatus
  cases hstatus

/-! ## Any number of requests -/

/-- On a stream that has not failed, all requests get the answers to their own numbers if and only
if no number is negative. -/
theorem requests_answered_iff (content : BString) (pos : Nat) (buf : BString)
    (requests : List PieceRequest) :
    List.Forall₂ (fun q answer => Answers content q.pieceId answer) requests
        (answers ⟨⟨content, pos, false⟩, buf⟩ requests) ↔
      ∀ q ∈ requests, 0 ≤ q.pieceId := by
  induction requests generalizing pos buf with
  | nil => simp [answers]
  | cons q qs ih =>
    rw [answers, List.forall₂_cons, List.forall_mem_cons]
    by_cases hq : 0 ≤ q.pieceId
    · obtain ⟨answer, pos', buf', hrun, hanswer⟩ := callback_nonneg hq content pos buf
      rw [hrun, and_iff_right hanswer, and_iff_right hq]
      exact ih pos' buf'
    · rw [callback_negative (Int.not_le.mp hq)]
      exact iff_of_false (fun h => not_answers_of_negative (Int.not_le.mp hq) h.1) (fun h => hq h.1)

def requestMinusOne : PieceRequest where
  bf := ⟨[1], 1⟩
  req := (Request.new .GET (lit "/piece")).addHeader (lit "Piece-Id") (lit "-1")
  sock := .new
  value := lit "-1"
  pieceId := -1
  header := rfl
  isInt := by
    have hvalue : strtol (lit "-1") = some (-1) := by decide
    simp [stoi, hvalue]

def requestZero : PieceRequest where
  bf := ⟨[1], 1⟩
  req := pieceZero
  sock := .new
  value := lit "0"
  pieceId := (0 : Nat)
  header := pieceZero_header
  isInt := stoi_zero

/-- A request for piece -1, and after it none for the only piece of a file is served any more. -/
theorem only_piece_refused :
    answers oneByte [requestMinusOne, requestZero] =
        [.ok (.new .INTERNAL_SERVER_ERROR (lit "server error")),
          .ok (.new .INTERNAL_SERVER_ERROR (lit "server error"))] ∧
      ¬ List.Forall₂ (fun q answer => Answers [7] q.pieceId answer) [requestMinusOne, requestZero]
        (answers oneByte [requestMinusOne, requestZero]) := by
  have hanswers : answers oneByte [requestMinusOne, requestZero] =
      [.ok (.new .INTERNAL_SERVER_ERROR (lit "server error")),
        .ok (.new .INTERNAL_SERVER_ERROR (lit "server error"))] := by
    rw [answers, oneByte, callback_negative (by decide), answers, callback_failed, answers]
  refine ⟨hanswers, fun h => ?_⟩
  rw [hanswers] at h
  exact not_answers_of_negative (by decide) (List.forall₂_cons.mp h).1

end P2PFileSharing.Peer
