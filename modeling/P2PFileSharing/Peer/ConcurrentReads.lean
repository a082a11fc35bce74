import P2PFileSharing.Library.History
import P2PFileSharing.Peer.UploadServer

/-!
# Concurrent calls of `read_piece`

Every request is handled in a thread of its own, and all of them share the stream and its buffer.
Each call of the stream, and the copy out of the buffer, is a step here. A call can find the stream
where another one has left it, or failed, and can copy what another one has read.
-/

namespace P2PFileSharing.Peer

open Library UploadServer

/-- The next step of a call of `read_piece`. -/
inductive ReadCall where
  /-- `tsfs.seekg(0, end)` -/
  | seekEnd
  /-- `tsfs.tellg()` -/
  | tell
  /-- `tsfs.seekg(0)`, and the test of the piece id -/
  | rewind (fsize : Int)
  /-- `tsfs.read(buf, pos, readCount)` -/
  | read (readCount : Nat)
  /-- the loop that copies `buf` -/
  | copy (readCount : Nat)
  | returned (result : Except ExnClass BString)
  deriving DecidableEq

namespace ReadCall

/-- A step of `read_piece`. -/
def step (pieceId : Int) : ReadCall → Action UploadServer ExnClass ReadCall
  | .seekEnd => do
    onTsfs FStream.seekgEnd
    return .tell
  | .tell => do
    let fsize ← onTsfs FStream.tellg
    return .rewind fsize
  | .rewind fsize => do
    let pos := toInt64 (pieceId * pieceLength)
    onTsfs (FStream.seekg 0)
    if fsize ≤ pos then Action.throw .invalidPieceNoException
    else return .read (min pieceLength (fsize - pos).toNat)
  | .read readCount => do
    readBuf (toInt64 (pieceId * pieceLength)) readCount
    return .copy readCount
  | .copy readCount => do
    return .returned (.ok ((← Action.get).buf.take readCount))
  | .returned result => pure (.returned result)

/-- An exception ends the call. -/
def next (pieceId : Int) (c : ReadCall) (server : UploadServer) : ReadCall × UploadServer :=
  match c.step pieceId server with
  | (.ok c', server') => (c', server')
  | (.error e, server') => (.returned (.error e), server')

end ReadCall

/-- The server and the calls that handler threads make of `read_piece`. -/
structure Readers (ι : Type*) where
  server : UploadServer
  calls : ι → ReadCall

namespace Readers

variable {ι : Type*} [DecidableEq ι]

def start (server : UploadServer) : Readers ι := ⟨server, fun _ => .seekEnd⟩

/-- What a step of call `t` leaves. -/
def advance (pieceIds : ι → Int) (s : Readers ι) (t : ι) : Readers ι :=
  let (c, server) := (s.calls t).next (pieceIds t) s.server
  ⟨server, Function.update s.calls t c⟩

/-- One step of call `t`. -/
def step (pieceIds : ι → Int) (s : Readers ι) (t : ι) : Option (Readers ι) :=
  match s.calls t with
  | .returned _ => none
  | _ => some (s.advance pieceIds t)

end Readers

/-! ## One call alone -/

namespace ReadCall

/-- What is left of the call. -/
def rest (pieceId : Int) : ReadCall → Action UploadServer ExnClass BString
  | .seekEnd => readPiece pieceId
  | .tell => do
    let fsize ← onTsfs FStream.tellg
    onTsfs (FStream.seekg 0)
    let pos := toInt64 (pieceId * pieceLength)
    if fsize ≤ pos then Action.throw .invalidPieceNoException
    else
      let readCount := min pieceLength (fsize - pos).toNat
      readBuf pos readCount
      return (← Action.get).buf.take readCount
  | .rewind fsize => do
    onTsfs (FStream.seekg 0)
    let pos := toInt64 (pieceId * pieceLength)
    if fsize ≤ pos then Action.throw .invalidPieceNoException
    else
      let readCount := min pieceLength (fsize - pos).toNat
      readBuf pos readCount
      return (← Action.get).buf.take readCount
  | .read readCount => do
    readBuf (toInt64 (pieceId * pieceLength)) readCount
    return (← Action.get).buf.take readCount
  | .copy readCount => do
    return (← Action.get).buf.take readCount
  | .returned result => Action.ofExcept result

/-- A step, and then what is left. -/
theorem rest_next (pieceId : Int) (c : ReadCall) (server : UploadServer) :
    rest pieceId (c.next pieceId server).1 (c.next pieceId server).2 = rest pieceId c server := by
  have after {α : Type} {x : Action UploadServer ExnClass α} {f : α → ReadCall}
      {k : α → Action UploadServer ExnClass BString}
      (hstep : c.step pieceId = x >>= fun a => pure (f a))
      (hrest : rest pieceId c = x >>= k) (hk : ∀ a, rest pieceId (f a) = k a) :
      rest pieceId (c.next pieceId server).1 (c.next pieceId server).2 = rest pieceId c server := by
    rw [next, hstep, hrest]
    rcases hx : x server with ⟨e | a, server'⟩
    · rw [Action.bind_of_error hx, Action.bind_of_error hx]
      rfl
    · rw [Action.bind_of_ok hx, Action.bind_of_ok hx, ← hk]
      rfl
  cases c with
  | seekEnd => exact after (f := fun _ => .tell) rfl rfl fun _ => rfl
  | tell => exact after (f := fun a => .rewind a) rfl rfl fun _ => rfl
  | rewind fsize =>
    rcases hx : onTsfs (FStream.seekg 0) server with ⟨e | a, server'⟩
    · simp only [next, step, rest, Action.bind_of_error hx]
      rfl
    · simp only [next, step, rest, Action.bind_of_ok hx]
      split_ifs <;> rfl
  | read readCount => exact after (f := fun _ => .copy readCount) rfl rfl fun _ => rfl
  | copy readCount =>
    exact after (f := fun s : UploadServer => .returned (.ok (s.buf.take readCount)))
      rfl rfl fun _ => rfl
  | returned result => rfl

/-- The number of steps that a call can still make. -/
def steps : ReadCall → Nat
  | .seekEnd => 5
  | .tell => 4
  | .rewind _ => 3
  | .read _ => 2
  | .copy _ => 1
  | .returned _ => 0

theorem steps_next (pieceId : Int) {c : ReadCall} (server : UploadServer)
    (hc : ∀ result, c ≠ .returned result) : (c.next pieceId server).1.steps < c.steps := by
  rw [next]
  rcases hx : c.step pieceId server with ⟨e | c', server'⟩
  · cases c with
    | returned result => exact absurd rfl (hc result)
    | _ => simp [steps]
  · cases c with
    | returned result => exact absurd rfl (hc result)
    | rewind fsize =>
      obtain ⟨-, u, -, htest⟩ := Action.bind_eq_ok.mp hx
      split at htest <;> cases htest
      simp [steps]
    | seekEnd | tell | read | copy =>
      obtain ⟨a, u, -, hreturn⟩ := Action.bind_eq_ok.mp hx
      cases hreturn
      simp [steps]

/-! The steps on a stream that has not failed -/

theorem place_eq {i : Nat} (hi : i < 2 ^ 31) :
    toInt64 ((i : Int) * pieceLength) = (i * pieceLength : Nat) := by
  have hsize := mul_pieceLength_lt hi
  rw [toInt64_eq_self] <;> omega

theorem next_of_ok {pieceId : Int} {c c' : ReadCall} {server server' : UploadServer}
    (h : c.step pieceId server = (.ok c', server')) : c.next pieceId server = (c', server') := by
  rw [next, h]

theorem next_of_error {pieceId : Int} {c : ReadCall} {e : ExnClass} {server server' : UploadServer}
    (h : c.step pieceId server = (.error e, server')) :
    c.next pieceId server = (.returned (.error e), server') := by
  rw [next, h]

theorem step_rewind {i fsize : Nat} (hi : i < 2 ^ 31) (content : BString) (pos : Nat)
    (buf : BString) :
    step i (.rewind fsize) ⟨⟨content, pos, false⟩, buf⟩ =
      (if (fsize : Int) ≤ (i * pieceLength : Nat) then Action.throw .invalidPieceNoException
      else pure (.read (min pieceLength ((fsize : Int) - (i * pieceLength : Nat)).toNat)))
        ⟨⟨content, 0, false⟩, buf⟩ := by
  have hseek : onTsfs (FStream.seekg 0) ⟨⟨content, pos, false⟩, buf⟩ =
      (.ok (), ⟨⟨content, 0, false⟩, buf⟩) := onTsfs_run (FStream.seekg_run content pos 0) buf
  rw [step, Action.bind_of_ok hseek, place_eq hi]

theorem next_rewind {i fsize : Nat} (hi : i < 2 ^ 31) (hin : i * pieceLength < fsize)
    (content : BString) (pos : Nat) (buf : BString) :
    next i (.rewind fsize) ⟨⟨content, pos, false⟩, buf⟩ =
      (.read (min pieceLength (fsize - i * pieceLength)), ⟨⟨content, 0, false⟩, buf⟩) := by
  have hcount : min pieceLength ((fsize : Int) - (i * pieceLength : Nat)).toNat =
      min pieceLength (fsize - i * pieceLength) := by omega
  apply next_of_ok
  rw [step_rewind hi, if_neg (by omega), hcount, Action.pure_run]

theorem next_rewind_past {i fsize : Nat} (hi : i < 2 ^ 31) (hpast : fsize ≤ i * pieceLength)
    (content : BString) (pos : Nat) (buf : BString) :
    next i (.rewind fsize) ⟨⟨content, pos, false⟩, buf⟩ =
      (.returned (.error .invalidPieceNoException), ⟨⟨content, 0, false⟩, buf⟩) := by
  apply next_of_error
  rw [step_rewind hi, if_pos (by omega), Action.throw_run]

theorem next_read {i readCount : Nat} {content : BString} (hi : i < 2 ^ 31)
    (hin : i * pieceLength + readCount ≤ content.length) (pos : Nat) (buf : BString) :
    next i (.read readCount) ⟨⟨content, pos, false⟩, buf⟩ =
      (.copy readCount, ⟨⟨content, i * pieceLength + readCount, false⟩,
        (content.drop (i * pieceLength)).take readCount ++ buf.drop readCount⟩) := by
  apply next_of_ok
  rw [step, place_eq hi, Action.bind_of_ok (readBuf_run hin pos buf), Action.pure_run]

/-! The steps of a call that is asked for a piece in front of the file -/

theorem next_rewind_negative {i : Int} (hi : i < 0) (hint : -2 ^ 31 ≤ i) (fsize : Nat)
    (content : BString) (pos : Nat) (buf : BString) : ∃ readCount,
    next i (.rewind fsize) ⟨⟨content, pos, false⟩, buf⟩ =
      (.read readCount, ⟨⟨content, 0, false⟩, buf⟩) := by
  have hneg := place_negative hi hint
  have hseek : onTsfs (FStream.seekg 0) ⟨⟨content, pos, false⟩, buf⟩ =
      (.ok (), ⟨⟨content, 0, false⟩, buf⟩) := onTsfs_run (FStream.seekg_run content pos 0) buf
  refine ⟨min pieceLength ((fsize : Int) - toInt64 (i * pieceLength)).toNat, next_of_ok ?_⟩
  rw [step, Action.bind_of_ok hseek, if_neg (by omega), Action.pure_run]

theorem next_read_negative {i : Int} (hi : i < 0) (hint : -2 ^ 31 ≤ i) (readCount : Nat)
    (content : BString) (pos : Nat) (buf : BString) :
    next i (.read readCount) ⟨⟨content, pos, false⟩, buf⟩ =
      (.returned (.error .streamFailure), ⟨⟨content, pos, true⟩, buf⟩) := by
  apply next_of_error
  rw [step, Action.bind_of_error (readBuf_negative (place_negative hi hint) _ _ _ _)]

/-- On a failed stream a call comes to its end, unless it is about to copy. -/
theorem next_failed (i : Int) {c : ReadCall} (hcopy : ∀ readCount, c ≠ .copy readCount)
    (hc : ∀ result, c ≠ .returned result) (content : BString) (pos : Nat) (buf : BString) :
    next i c ⟨⟨content, pos, true⟩, buf⟩ =
      (.returned (.error .streamFailure), ⟨⟨content, pos, true⟩, buf⟩) := by
  cases c with
  | copy readCount => exact absurd rfl (hcopy readCount)
  | returned result => exact absurd rfl (hc result)
  | seekEnd | tell | rewind | read => rfl

end ReadCall

namespace Readers

variable {ι : Type*} [DecidableEq ι] {pieceIds : ι → Int} {s s' : Readers ι} {t u : ι}

theorem step_eq_some : s.step pieceIds t = some s' ↔
    (∀ result, s.calls t ≠ .returned result) ∧ s' = s.advance pieceIds t := by
  unfold step
  cases hc : s.calls t with
  | returned result => simp
  | _ => simp [eq_comm]

@[simp] theorem calls_advance (pieceIds : ι → Int) (s : Readers ι) (t : ι) :
    (s.advance pieceIds t).calls t = ((s.calls t).next (pieceIds t) s.server).1 :=
  Function.update_self ..

theorem calls_advance_of_ne (pieceIds : ι → Int) (s : Readers ι) (h : u ≠ t) :
    (s.advance pieceIds t).calls u = s.calls u :=
  Function.update_of_ne h ..

@[simp] theorem server_advance (pieceIds : ι → Int) (s : Readers ι) (t : ι) :
    (s.advance pieceIds t).server = ((s.calls t).next (pieceIds t) s.server).2 := rfl

/-- Without other calls between its steps, a call does what `read_piece` does. -/
theorem exists_run_alone (pieceIds : ι → Int) (s : Readers ι) (t : ι) : ∃ n s',
    Machine.run (step pieceIds) s (List.replicate n t) = some s' ∧
    s'.calls t = .returned ((s.calls t).rest (pieceIds t) s.server).1 ∧
    s'.server = ((s.calls t).rest (pieceIds t) s.server).2 := by
  induction hn : (s.calls t).steps using Nat.strong_induction_on generalizing s with
  | _ n ih =>
    by_cases hreturned : ∃ result, s.calls t = .returned result
    · obtain ⟨result, hresult⟩ := hreturned
      exact ⟨0, s, rfl, by rw [hresult]; rfl, by rw [hresult]; rfl⟩
    · have hrunning := not_exists.mp hreturned
      have hsteps := ReadCall.steps_next (pieceIds t) s.server hrunning
      rw [hn, ← calls_advance] at hsteps
      obtain ⟨m, s', hrun, hcall, hserver⟩ := ih _ hsteps (s.advance pieceIds t) rfl
      rw [calls_advance, server_advance, ReadCall.rest_next] at hcall hserver
      exact ⟨m + 1, s', Machine.run_cons.mpr ⟨_, step_eq_some.mpr ⟨hrunning, rfl⟩, hrun⟩,
        hcall, hserver⟩

end Readers

/-! ## What a call depends on -/

theorem take_piece {content : BString} {i count : Nat}
    (h : count ≤ (piece content i).length) :
    (content.drop (i * pieceLength)).take count = (piece content i).take count := by
  rw [length_piece] at h
  rw [piece, List.take_take, Nat.min_eq_left (h.trans (Nat.min_le_left ..))]

theorem getElem?_overwritten (data buf : BString) (x : Nat) :
    (data ++ buf.drop data.length)[x]? = if x < data.length then data[x]? else buf[x]? := by
  rw [List.getElem?_append]
  split_ifs with hx
  · rfl
  · rw [List.getElem?_drop, Nat.add_sub_cancel' (Nat.not_lt.mp hx)]

/-- The steps in which a call depends on the others, or the others on it. -/
inductive ReadEvent (ι : Type*) where
  /-- `tellg` at a position of the stream -/
  | told (t : ι) (pos : Nat)
  /-- the first `readCount` bytes of a piece are in `buf` -/
  | filled (pieceId readCount : Nat)
  | copied (t : ι)
  /-- a call of the stream when it has failed already -/
  | stopped (t : ι)
  deriving DecidableEq

namespace ReadEvent

variable {ι : Type*} {content : BString} {i : Nat} {t : ι} {log : List (ReadEvent ι)}
  {e : ReadEvent ι}

/-- The piece whose bytes have come to place `x` of `buf` last. -/
def lastFill (log : List (ReadEvent ι)) (x : Nat) : Option Nat :=
  log.foldl (fun last e =>
    match e with
    | .filled pieceId readCount => if x < readCount then some pieceId else last
    | .told _ _ | .copied _ | .stopped _ => last) none

/-- `tellg` has found the stream before the end of the piece. -/
def Misled (content : BString) (i : Nat) (t : ι) (log : List (ReadEvent ι)) : Prop :=
  ∃ pos, .told t pos ∈ log ∧ pos < i * pieceLength + (piece content i).length

/-- Some byte of the buffer has been read last for a piece that has another byte there. -/
def Mixed (content : BString) (i : Nat) (log : List (ReadEvent ι)) : Prop :=
  ∃ x < (piece content i).length, ∃ j, lastFill log x = some j ∧
    (piece content j)[x]? ≠ (piece content i)[x]?

/-- Another call has been in the way of call `t` for piece `i`: before its `tellg`, or before its
copy, or because it has made the stream fail. -/
def Disturbed (content : BString) (i : Nat) (t : ι) (log : List (ReadEvent ι)) : Prop :=
  Misled content i t log ∨ .stopped t ∈ log ∨
    ∃ before, before ++ [.copied t] <+: log ∧ Mixed content i before

theorem lastFill_snoc (log : List (ReadEvent ι)) (e : ReadEvent ι) (x : Nat) :
    lastFill (log ++ [e]) x =
      match e with
      | .filled pieceId readCount => if x < readCount then some pieceId else lastFill log x
      | .told _ _ | .copied _ | .stopped _ => lastFill log x := by
  rw [lastFill, List.foldl_append]
  rfl

/-- What has been read stays, or is read over. -/
theorem lastFill_isSome (x : Nat) (h : (lastFill log x).isSome) (e : ReadEvent ι) :
    (lastFill (log ++ [e]) x).isSome := by
  rw [lastFill_snoc]
  cases e with
  | filled j readCount =>
    dsimp only
    split_ifs
    · rfl
    · exact h
  | told | copied | stopped => exact h

theorem misled_snoc : Misled content i t (log ++ [e]) ↔ Misled content i t log ∨
    ∃ pos, e = .told t pos ∧ pos < i * pieceLength + (piece content i).length := by
  simp only [Misled, List.mem_append, List.mem_singleton, or_and_right, exists_or]
  simp only [eq_comm]

theorem disturbed_snoc : Disturbed content i t (log ++ [e]) ↔ Disturbed content i t log ∨
    (∃ pos, e = .told t pos ∧ pos < i * pieceLength + (piece content i).length) ∨
      e = .stopped t ∨ e = .copied t ∧ Mixed content i log := by
  have hcopy : (∃ before, before ++ [.copied t] <+: log ++ [e] ∧ Mixed content i before) ↔
      (∃ before, before ++ [.copied t] <+: log ∧ Mixed content i before) ∨
        e = .copied t ∧ Mixed content i log := by
    constructor
    · rintro ⟨before, hbefore, hmixed⟩
      rcases List.prefix_concat_iff.mp hbefore with heq | hbefore
      · obtain ⟨rfl, hlast⟩ := List.append_inj' heq rfl
        exact .inr ⟨(List.singleton_inj.mp hlast).symm, hmixed⟩
      · exact .inl ⟨before, hbefore, hmixed⟩
    · rintro (⟨before, hbefore, hmixed⟩ | ⟨rfl, hmixed⟩)
      · exact ⟨before, hbefore.trans (List.prefix_append ..), hmixed⟩
      · exact ⟨log, List.prefix_rfl, hmixed⟩
  have hstop : .stopped t ∈ log ++ [e] ↔ .stopped t ∈ log ∨ e = .stopped t := by
    rw [List.mem_append, List.mem_singleton, eq_comm]
  rw [Disturbed, hcopy, hstop, misled_snoc, Disturbed, or_or_or_comm (a := .stopped t ∈ log),
    or_or_or_comm]

/-- Nothing but its `tellg` can have gone wrong for a call that is on its way. -/
theorem not_disturbed_of_not_mem (hcopied : .copied t ∉ log) (hstopped : .stopped t ∉ log) :
    Disturbed content i t log ↔ Misled content i t log := by
  refine or_iff_left ?_
  rintro (hmem | ⟨before, hbefore, -⟩)
  · exact hstopped hmem
  · exact hcopied (hbefore.subset (by simp))

/-- What call `t` has copied is its piece, unless bytes of other pieces are in it. -/
theorem take_buf_eq_piece_iff {buf : BString} {readCount : Nat}
    (hbytes : ∀ x j, lastFill log x = some j → ∃ b, buf[x]? = some b ∧
      (piece content j)[x]? = some b)
    (hfill : ∀ x < readCount, (lastFill log x).isSome)
    (hcount : readCount = (piece content i).length) :
    buf.take readCount = piece content i ↔ ¬ Mixed content i log := by
  have hbyte {x j : Nat} (hj : lastFill log x = some j) : buf[x]? = (piece content j)[x]? := by
    obtain ⟨b, hbuf, hpiece⟩ := hbytes x j hj
    rw [hbuf, hpiece]
  constructor
  · rintro heq ⟨x, hx, j, hj, hne⟩
    rw [← hbyte hj, ← heq, List.getElem?_take_of_lt (hcount ▸ hx)] at hne
    exact hne rfl
  · intro hnot
    apply List.ext_getElem?
    intro x
    by_cases hx : x < readCount
    · obtain ⟨j, hj⟩ := Option.isSome_iff_exists.mp (hfill x hx)
      rw [List.getElem?_take_of_lt hx, hbyte hj]
      by_contra hne
      exact hnot ⟨x, hcount ▸ hx, j, hj, hne⟩
    · rw [List.getElem?_eq_none (by rw [List.length_take]; omega),
        List.getElem?_eq_none (hcount ▸ Nat.not_lt.mp hx)]

end ReadEvent

namespace Readers

open ReadEvent

variable {ι : Type*} [DecidableEq ι]

/-- What a step adds to the log. -/
def events (pieceIds : ι → Int) (s : Readers ι) (t : ι) : List (ReadEvent ι) :=
  match s.calls t, s.server.tsfs.failed with
  | .returned _, _ => []
  | .copy _, _ => [.copied t]
  | _, true => [.stopped t]
  | .tell, false => [.told t s.server.tsfs.pos]
  | .read readCount, false =>
    if 0 ≤ pieceIds t then [.filled (pieceIds t).toNat readCount] else []
  | .seekEnd, false | .rewind _, false => []

/-- The call has neither copied nor been stopped. -/
def OnItsWay (t : ι) (log : List (ReadEvent ι)) : Prop := .copied t ∉ log ∧ .stopped t ∉ log

/-- What the log says about a call. Until it returns, it need not be for a piece of the file. -/
def CallSound (content : BString) (i : Int) (t : ι) (log : List (ReadEvent ι)) : ReadCall → Prop
  | .seekEnd | .tell => (∀ pos, .told t pos ∉ log) ∧ OnItsWay t log
  | .rewind fsize => ∃ pos : Nat, fsize = pos ∧ pos ≤ content.length ∧
      (Misled content i.toNat t log ↔
        pos < i.toNat * pieceLength + (piece content i.toNat).length) ∧ OnItsWay t log
  | .read readCount => (0 ≤ i → i.toNat * pieceLength < content.length ∧
      readCount ≤ (piece content i.toNat).length ∧
      (Misled content i.toNat t log ↔ readCount < (piece content i.toNat).length)) ∧
      OnItsWay t log
  | .copy readCount => readCount ≤ (piece content i.toNat).length ∧
      (Misled content i.toNat t log ↔ readCount < (piece content i.toNat).length) ∧
      OnItsWay t log ∧ ∀ x < readCount, (lastFill log x).isSome
  | .returned result => 0 ≤ i → i.toNat * pieceLength < content.length →
      (result = .ok (piece content i.toNat) ↔ ¬ Disturbed content i.toNat t log)

/-- The calls are as the log says, and so is the buffer. -/
structure Sound (content : BString) (pieceIds : ι → Int) (s : Readers ι)
    (log : List (ReadEvent ι)) : Prop where
  content_eq : s.server.tsfs.content = content
  pos_le : ∀ t, s.calls t ≠ .seekEnd → s.server.tsfs.pos ≤ content.length
  failed_pos_le : s.server.tsfs.failed = true → s.server.tsfs.pos ≤ content.length
  bytes : ∀ x i, lastFill log x = some i →
    ∃ b, s.server.buf[x]? = some b ∧ (piece content i)[x]? = some b
  calls : ∀ t, CallSound content (pieceIds t) t log (s.calls t)

variable {content : BString} {pieceIds : ι → Int} {s s' : Readers ι} {t u : ι} {i : Int}
  {log : List (ReadEvent ι)} {c : ReadCall}

omit [DecidableEq ι] in
/-- A step that is not its own leaves a call as it is. -/
theorem CallSound.snoc {e : ReadEvent ι} (h : CallSound content i t log c)
    (htold : ∀ pos, e ≠ .told t pos) (hcopied : e ≠ .copied t) (hstopped : e ≠ .stopped t) :
    CallSound content i t (log ++ [e]) c := by
  have hmisled : Misled content i.toNat t (log ++ [e]) ↔ Misled content i.toNat t log := by
    simp [misled_snoc, htold]
  have hdisturbed : Disturbed content i.toNat t (log ++ [e]) ↔
      Disturbed content i.toNat t log := by
    simp [disturbed_snoc, htold, hcopied, hstopped]
  have hway : OnItsWay t (log ++ [e]) ↔ OnItsWay t log := by
    simp [OnItsWay, Ne.symm hcopied, Ne.symm hstopped]
  cases c with
  | seekEnd | tell =>
    refine ⟨fun pos hpos => ?_, hway.mpr h.2⟩
    rcases List.mem_append.mp hpos with hpos | hpos
    · exact h.1 pos hpos
    · exact htold pos (List.mem_singleton.mp hpos).symm
  | rewind fsize =>
    obtain ⟨pos, hfsize, hpos, hiff, hnot⟩ := h
    exact ⟨pos, hfsize, hpos, hmisled.trans hiff, hway.mpr hnot⟩
  | read readCount =>
    obtain ⟨hpiece, hnot⟩ := h
    refine ⟨fun hi => ?_, hway.mpr hnot⟩
    obtain ⟨hstart, hle, hiff⟩ := hpiece hi
    exact ⟨hstart, hle, hmisled.trans hiff⟩
  | copy readCount =>
    obtain ⟨hle, hiff, hnot, hfill⟩ := h
    exact ⟨hle, hmisled.trans hiff, hway.mpr hnot, fun x hx => lastFill_isSome x (hfill x hx) e⟩
  | returned result =>
    rw [CallSound, hdisturbed]
    exact h

omit [DecidableEq ι] in
theorem CallSound.others (h : CallSound content i t log c) (hu : u ≠ t) :
    CallSound content i t (log ++ s.events pieceIds u) c := by
  unfold events
  split
  next => rwa [List.append_nil]
  next => exact h.snoc (by simp) (by simp [hu]) (by simp)
  next => exact h.snoc (by simp) (by simp) (by simp [hu])
  next => exact h.snoc (by simp [hu]) (by simp) (by simp)
  next =>
    split_ifs
    · exact h.snoc (by simp) (by simp) (by simp)
    · rwa [List.append_nil]
  next => rwa [List.append_nil]
  next => rwa [List.append_nil]

/-- What is to be shown of a step. -/
theorem Sound.of_next (h : s.Sound content pieceIds log) {new : List (ReadEvent ι)}
    {server : UploadServer} {pos : Nat} {failed : Bool} {buf : BString}
    (hnew : s.events pieceIds t = new) (hserver : s.server = server)
    (hnext : (s.calls t).next (pieceIds t) server = (c, ⟨⟨content, pos, failed⟩, buf⟩))
    (hpos : pos ≤ content.length)
    (hbytes : ∀ x i, lastFill (log ++ new) x = some i →
      ∃ b, buf[x]? = some b ∧ (piece content i)[x]? = some b)
    (hcall : CallSound content (pieceIds t) t (log ++ new) c) :
    (s.advance pieceIds t).Sound content pieceIds (log ++ s.events pieceIds t) := by
  subst hnew hserver
  refine ⟨?_, ?_, ?_, ?_, fun u => ?_⟩
  · rw [server_advance, hnext]
  · intro _ _
    rwa [server_advance, hnext]
  · intro _
    rwa [server_advance, hnext]
  · rwa [server_advance, hnext]
  · by_cases hu : u = t
    · subst hu
      rwa [calls_advance, hnext]
    · rw [calls_advance_of_ne pieceIds s hu]
      exact (h.calls u).others (Ne.symm hu)

omit [DecidableEq ι] in
theorem Sound.server_eq (h : s.Sound content pieceIds log) {failed : Bool}
    (hfailed : s.server.tsfs.failed = failed) :
    s.server = ⟨⟨content, s.server.tsfs.pos, failed⟩, s.server.buf⟩ := by
  obtain ⟨⟨⟨bytes, pos, _⟩, buf⟩, calls⟩ := s
  cases h.content_eq
  cases hfailed
  rfl

section Steps

variable {readCount : Nat} {fsize : Int}

theorem Sound.step_seekEnd (h : s.Sound content pieceIds log) (hc : s.calls t = .seekEnd)
    (hworks : s.server.tsfs.failed = false) :
    (s.advance pieceIds t).Sound content pieceIds (log ++ s.events pieceIds t) := by
  have hcall := h.calls t
  rw [hc] at hcall
  refine h.of_next (c := .tell) (by rw [events, hc, hworks]) (h.server_eq hworks)
    (by rw [hc]; rfl) (Nat.le_refl _) ?_ ?_
  · rw [List.append_nil]
    exact h.bytes
  · rwa [List.append_nil]

theorem Sound.step_tell (h : s.Sound content pieceIds log) (hc : s.calls t = .tell)
    (hworks : s.server.tsfs.failed = false) :
    (s.advance pieceIds t).Sound content pieceIds (log ++ s.events pieceIds t) := by
  have hcall := h.calls t
  rw [hc] at hcall
  obtain ⟨htold, hcopied, hstopped⟩ := hcall
  have hpos := h.pos_le t (by simp [hc])
  refine h.of_next (c := .rewind s.server.tsfs.pos) (by rw [events, hc, hworks])
    (h.server_eq hworks) (by rw [hc]; rfl) hpos ?_ ?_
  · simpa only [lastFill_snoc] using h.bytes
  · refine ⟨_, rfl, hpos, ?_, by simpa using hcopied, by simpa using hstopped⟩
    simp [Misled, htold]

/-- A call that was told too little returns nothing, or reads too little. -/
theorem Sound.step_rewind (h : s.Sound content pieceIds log)
    (hint : -2 ^ 31 ≤ pieceIds t ∧ pieceIds t < 2 ^ 31) (hc : s.calls t = .rewind fsize)
    (hworks : s.server.tsfs.failed = false) :
    (s.advance pieceIds t).Sound content pieceIds (log ++ s.events pieceIds t) := by
  have hcall := h.calls t
  rw [hc] at hcall
  obtain ⟨fsize, rfl, hsize, hiff, hway⟩ := hcall
  have hnew : s.events pieceIds t = [] := by rw [events, hc, hworks]
  have hbytes : ∀ x i, lastFill (log ++ []) x = some i →
      ∃ b, s.server.buf[x]? = some b ∧ (piece content i)[x]? = some b := by
    rw [List.append_nil]
    exact h.bytes
  by_cases hneg : pieceIds t < 0
  · obtain ⟨readCount, hnext⟩ := ReadCall.next_rewind_negative hneg hint.1 fsize content
      s.server.tsfs.pos s.server.buf
    rw [← hc] at hnext
    refine h.of_next hnew (h.server_eq hworks) hnext (Nat.zero_le _) hbytes ?_
    rw [List.append_nil]
    exact ⟨fun hi => absurd hneg (Int.not_lt.mpr hi), hway⟩
  · obtain ⟨i, hi⟩ := Int.eq_ofNat_of_zero_le (Int.not_lt.mp hneg)
    rw [hi, Int.toNat_natCast] at hiff
    have hlt : i < 2 ^ 31 := by omega
    have hlen := length_piece content i
    by_cases hin : i * pieceLength < fsize
    · have hnext := ReadCall.next_rewind hlt hin content s.server.tsfs.pos s.server.buf
      rw [← hc, ← hi] at hnext
      refine h.of_next hnew (h.server_eq hworks) hnext (Nat.zero_le _) hbytes ?_
      rw [List.append_nil, hi]
      exact ⟨fun _ => ⟨by rw [Int.toNat_natCast]; omega, by rw [Int.toNat_natCast]; omega,
        by rw [Int.toNat_natCast]; exact hiff.trans (by omega)⟩, hway⟩
    · have hnext := ReadCall.next_rewind_past hlt (Nat.not_lt.mp hin) content s.server.tsfs.pos
        s.server.buf
      rw [← hc, ← hi] at hnext
      refine h.of_next hnew (h.server_eq hworks) hnext (Nat.zero_le _) hbytes ?_
      rw [List.append_nil, hi, CallSound, Int.toNat_natCast]
      intro _ hstart
      have hsome : 0 < pieceLength := by decide
      have hmisled := hiff.mpr (by omega)
      exact iff_of_false (by simp) (not_not_intro (.inl hmisled))

/-- The bytes that are read are those of the piece. -/
theorem Sound.step_read_piece (h : s.Sound content pieceIds log) {i : Nat} (hi : pieceIds t = i)
    (hlt : i < 2 ^ 31) (hc : s.calls t = .read readCount)
    (hworks : s.server.tsfs.failed = false) :
    (s.advance pieceIds t).Sound content pieceIds (log ++ s.events pieceIds t) := by
  have hcall := h.calls t
  rw [hc, hi] at hcall
  obtain ⟨hpiece, hcopied, hstopped⟩ := hcall
  obtain ⟨hstart, hle, hiff⟩ := hpiece (Int.natCast_nonneg i)
  rw [Int.toNat_natCast] at hstart hle hiff
  have hlen := length_piece content i
  have hfits : i * pieceLength + readCount ≤ content.length := by omega
  have hdata : ((piece content i).take readCount).length = readCount := by
    rw [List.length_take, Nat.min_eq_left hle]
  have hnext := ReadCall.next_read hlt hfits s.server.tsfs.pos s.server.buf
  rw [← hc, ← hi, take_piece hle] at hnext
  have hnew : events pieceIds s t = [.filled i readCount] := by
    rw [events, hc, hworks, hi]
    exact if_pos (Int.natCast_nonneg i)
  refine h.of_next hnew (h.server_eq hworks) hnext hfits ?_ ?_
  · intro x j hj
    have hbyte := getElem?_overwritten ((piece content i).take readCount) s.server.buf x
    rw [hdata] at hbyte
    rw [hbyte]
    rw [lastFill_snoc] at hj
    dsimp only at hj
    split_ifs at hj ⊢ with hx
    · cases hj
      have hin : x < (piece content i).length := hx.trans_le hle
      rw [List.getElem?_take_of_lt hx]
      exact ⟨_, List.getElem?_eq_getElem hin, List.getElem?_eq_getElem hin⟩
    · exact h.bytes x j hj
  · rw [hi, CallSound, Int.toNat_natCast]
    refine ⟨hle, ?_, ⟨by simpa using hcopied, by simpa using hstopped⟩, fun x hx => ?_⟩
    · rw [misled_snoc]
      simpa using hiff
    · rw [lastFill_snoc]
      simp [hx]

theorem Sound.step_read (h : s.Sound content pieceIds log)
    (hint : -2 ^ 31 ≤ pieceIds t ∧ pieceIds t < 2 ^ 31) (hc : s.calls t = .read readCount)
    (hworks : s.server.tsfs.failed = false) :
    (s.advance pieceIds t).Sound content pieceIds (log ++ s.events pieceIds t) := by
  by_cases hneg : pieceIds t < 0
  · have hnext := ReadCall.next_read_negative hneg hint.1 readCount content s.server.tsfs.pos
      s.server.buf
    rw [← hc] at hnext
    have hnew : events pieceIds s t = [] := by
      rw [events, hc, hworks]
      exact if_neg (Int.not_le.mpr hneg)
    refine h.of_next hnew (h.server_eq hworks) hnext (h.pos_le t (by simp [hc])) ?_ ?_
    · rw [List.append_nil]
      exact h.bytes
    · exact fun hi => absurd hneg (Int.not_lt.mpr hi)
  · obtain ⟨i, hi⟩ := Int.eq_ofNat_of_zero_le (Int.not_lt.mp hneg)
    exact h.step_read_piece hi (by omega) hc hworks

theorem Sound.step_copy (h : s.Sound content pieceIds log) (hc : s.calls t = .copy readCount) :
    (s.advance pieceIds t).Sound content pieceIds (log ++ s.events pieceIds t) := by
  have hcall := h.calls t
  rw [hc] at hcall
  obtain ⟨hle, hiff, ⟨hcopied, hstopped⟩, hfill⟩ := hcall
  have hnew : events pieceIds s t = [.copied t] := by rw [events, hc]
  refine h.of_next (c := .returned (.ok (s.server.buf.take readCount))) hnew (h.server_eq rfl)
    (by rw [hc]; rfl) (h.pos_le t (by simp [hc])) ?_ ?_
  · simpa only [lastFill_snoc] using h.bytes
  · intro _ _
    have hdisturbed : Disturbed content (pieceIds t).toNat t (log ++ [.copied t]) ↔
        Misled content (pieceIds t).toNat t log ∨ Mixed content (pieceIds t).toNat log := by
      simp [disturbed_snoc, not_disturbed_of_not_mem hcopied hstopped]
    rw [hdisturbed, Except.ok.injEq, not_or, hiff]
    by_cases hshort : readCount < (piece content (pieceIds t).toNat).length
    · refine iff_of_false (fun heq => ?_) (fun hnot => hnot.1 hshort)
      rw [← heq, List.length_take] at hshort
      omega
    · rw [take_buf_eq_piece_iff h.bytes hfill (by omega)]
      exact (and_iff_right hshort).symm

/-- A call that finds the stream failed. -/
theorem Sound.step_stopped (h : s.Sound content pieceIds log)
    (hcopy : ∀ readCount, s.calls t ≠ .copy readCount)
    (hrunning : ∀ result, s.calls t ≠ .returned result)
    (hfailed : s.server.tsfs.failed = true) :
    (s.advance pieceIds t).Sound content pieceIds (log ++ s.events pieceIds t) := by
  have hnew : events pieceIds s t = [.stopped t] := by
    rw [events, hfailed]
    cases hc : s.calls t with
    | copy readCount => exact absurd hc (hcopy readCount)
    | returned result => exact absurd hc (hrunning result)
    | seekEnd | tell | rewind | read => rfl
  refine h.of_next hnew (h.server_eq hfailed) (ReadCall.next_failed _ hcopy hrunning _ _ _)
    (h.failed_pos_le hfailed) ?_ fun _ _ => ?_
  · simpa only [lastFill_snoc] using h.bytes
  · exact iff_of_false (by simp) (not_not_intro (.inr (.inl (by simp))))

/-- Every step keeps what the log says. -/
theorem Sound.step (h : s.Sound content pieceIds log)
    (hint : ∀ t, -2 ^ 31 ≤ pieceIds t ∧ pieceIds t < 2 ^ 31)
    (hstep : s.step pieceIds t = some s') :
    s'.Sound content pieceIds (log ++ s.events pieceIds t) := by
  obtain ⟨hrunning, rfl⟩ := step_eq_some.mp hstep
  by_cases hcopy : ∃ readCount, s.calls t = .copy readCount
  · obtain ⟨readCount, hc⟩ := hcopy
    exact h.step_copy hc
  cases hfailed : s.server.tsfs.failed with
  | true => exact h.step_stopped (not_exists.mp hcopy) hrunning hfailed
  | false =>
    cases hc : s.calls t with
    | seekEnd => exact h.step_seekEnd hc hfailed
    | tell => exact h.step_tell hc hfailed
    | rewind fsize => exact h.step_rewind (hint t) hc hfailed
    | read readCount => exact h.step_read (hint t) hc hfailed
    | copy readCount => exact absurd ⟨readCount, hc⟩ hcopy
    | returned result => exact absurd hc (hrunning result)

end Steps

omit [DecidableEq ι] in
/-- Any stream that has not failed will do at the start. -/
theorem start_sound (content buf : BString) (pos : Nat) (pieceIds : ι → Int) :
    (start ⟨⟨content, pos, false⟩, buf⟩ : Readers ι).Sound content pieceIds [] := by
  refine ⟨rfl, fun _ h => absurd rfl h, fun h => ?_, fun _ _ h => ?_, fun _ => ?_⟩
  · cases h
  · cases h
  · exact ⟨fun _ => List.not_mem_nil, List.not_mem_nil, List.not_mem_nil⟩

/-- In every run of calls for any ids, a call for a piece of the file that has returned has returned
its piece if and only if it has not been disturbed. -/
theorem returned_piece_iff_not_disturbed (pieceIds : ι → Int)
    (hint : ∀ t, -2 ^ 31 ≤ pieceIds t ∧ pieceIds t < 2 ^ 31) (content buf : BString) (pos : Nat)
    {es : List ι} (hrun : Machine.run (step pieceIds) (start ⟨⟨content, pos, false⟩, buf⟩) es =
      some s)
    {i : Nat} (hi : pieceIds t = i) (hstart : i * pieceLength < content.length)
    {result : Except ExnClass BString} (hreturned : s.calls t = .returned result) :
    result = .ok (piece content i) ↔ ¬ Disturbed content i t
      (Machine.log (step pieceIds) (events pieceIds) (start ⟨⟨content, pos, false⟩, buf⟩) es) := by
  have keep (s : Readers ι) (t : ι) (s' : Readers ι) (past : List (ReadEvent ι))
      (h : s.Sound content pieceIds past) (hstep : s.step pieceIds t = some s') :
      s'.Sound content pieceIds (past ++ s.events pieceIds t) := h.step hint hstep
  have hsound := Machine.run_log_invariant keep (start_sound content buf pos pieceIds) hrun
  have hcall := hsound.calls t
  rw [hreturned, hi] at hcall
  exact hcall (Int.natCast_nonneg i) hstart

/-- One call is for a piece that there is none of. -/
def pastAndFirst (t : Bool) : Int := if t then 9 else 0

theorem second_call_not_disturbed : ¬ Disturbed [7] 0 false
    (Machine.log (step pastAndFirst) (events pastAndFirst)
      (start ⟨⟨[7], 0, false⟩, []⟩ : Readers Bool)
      [true, true, true, false, false, false, false, false]) := by
  have hint (t : Bool) : -2 ^ 31 ≤ pastAndFirst t ∧ pastAndFirst t < 2 ^ 31 := by
    cases t <;> decide
  exact (returned_piece_iff_not_disturbed pastAndFirst hint [7] [] 0 rfl (i := 0) rfl
    (by decide) rfl).mp rfl

/-- The second call winds the stream back before the first one asks for its position. -/
theorem valid_piece_refused : ¬ ∀ es s, Machine.run (step fun _ => 0)
      (start ⟨⟨[7], 0, false⟩, []⟩ : Readers Bool) es = some s →
    ∀ t result, s.calls t = .returned result → result = .ok (piece [7] 0) := by
  intro h
  have hresult := h [true, false, false, false, true, true] _ rfl true
    (.error .invalidPieceNoException) rfl
  cases hresult

end Readers

end P2PFileSharing.Peer
