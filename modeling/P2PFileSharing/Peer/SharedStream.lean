import P2PFileSharing.Peer.Leeching

/-!
# The stream behind the threads

A call of `read_piece` asks for the size of the file, and reads later, when downloads have written
to the same stream. The file only grows meanwhile, so that the bytes it counts on are still there:
for the ids of pieces the stream does not fail, neither for the handlers nor for the downloads. Only
an empty body could do harm: writing it leaves the stream at a place behind the end of the file.
-/

namespace P2PFileSharing.Peer

open Http Library

namespace ReadCall

/-- What a call counts on is in the file, and what has come back is no failure of the stream. -/
def Fits (i len : Nat) : ReadCall → Prop
  | seekEnd | tell | copy _ => True
  | rewind fsize => ∃ pos : Nat, fsize = pos ∧ pos ≤ len
  | read readCount => i * pieceLength + readCount ≤ len
  | returned result => (∃ p, result = .ok p) ∨ result = .error .invalidPieceNoException

theorem Fits.mono {i len len' : Nat} {r : ReadCall} (h : r.Fits i len) (hle : len ≤ len') :
    r.Fits i len' := by
  cases r with
  | rewind fsize =>
    obtain ⟨pos, hpos, hlen⟩ := h
    exact ⟨pos, hpos, hlen.trans hle⟩
  | read readCount => exact Nat.le_trans h hle
  | seekEnd | tell | copy | returned => exact h

/-- A call of a stream that works leaves one, at a place in the file. -/
theorem Fits.next {i : Nat} {r : ReadCall} {us : UploadServer} (hi : i < 2 ^ 31)
    (h : r.Fits i us.tsfs.content.length) (hrunning : us.tsfs.failed = false)
    (hpos : us.tsfs.pos ≤ us.tsfs.content.length) :
    (r.next i us).1.Fits i us.tsfs.content.length ∧ (r.next i us).2.tsfs.failed = false ∧
      (r.next i us).2.tsfs.pos ≤ us.tsfs.content.length := by
  obtain ⟨⟨content, pos, _⟩, buf⟩ := us
  cases hrunning
  cases r with
  | seekEnd => exact ⟨trivial, rfl, le_rfl⟩
  | tell => exact ⟨⟨pos, rfl, hpos⟩, rfl, hpos⟩
  | rewind fsize =>
    obtain ⟨size, rfl, hsize⟩ := h
    by_cases hin : i * pieceLength < size
    · rw [next_rewind hi hin]
      refine ⟨?_, rfl, Nat.zero_le _⟩
      have hle : i * pieceLength + min pieceLength (size - i * pieceLength) ≤ size := by omega
      exact hle.trans hsize
    · rw [next_rewind_past hi (Nat.not_lt.mp hin)]
      exact ⟨.inr rfl, rfl, Nat.zero_le _⟩
  | read readCount =>
    rw [next_read hi h]
    exact ⟨trivial, rfl, h⟩
  | copy readCount => exact ⟨.inl ⟨_, rfl⟩, rfl, hpos⟩
  | returned result => exact ⟨h, rfl, hpos⟩

end ReadCall

/-- The run gets an empty body that passes the check of a piece. -/
def PeerEvent.PassesEmpty {ι κ : Type*} (sha1 : BString → Digest) (shs : List BString) :
    PeerEvent ι κ → Prop
  | .thread _ (.sendRequest (.ok res) after) =>
    res.body = [] ∧ ∃ i < shs.length, isValid sha1 shs after i [] = .ok true
  | _ => False

namespace Threads

variable {ι κ : Type*} [DecidableEq ι] {sha1 : BString → Digest} {serverIds : ι → Int}
  {pieceIds : κ → Nat} {s s' : Threads ι κ} {t : ι} {c : ThreadCall} {cs : List Call}
  {shs : List BString} {original : BString}

/-- The stream works, every handler can go on with it, and no thread has an empty piece. -/
structure Steady (pieceIds : κ → Nat) (s : Threads ι κ) : Prop where
  running : s.peer.us.tsfs.failed = false
  pos_le : s.peer.us.tsfs.pos ≤ s.peer.us.tsfs.content.length
  reads : ∀ k, (s.reads k).Fits (pieceIds k) s.peer.us.tsfs.content.length
  filled : ∀ t i piece, (s.points t).toWrite = some (i, piece) → piece ≠ []

/-- What passes the check of a piece is not empty. -/
def Filled (sha1 : BString → Digest) (s : Threads ι κ) : PeerEvent ι κ → Prop
  | .thread t (.sendRequest (.ok res) after) => ∀ i, s.points t = .requesting i →
    isValid sha1 s.peer.shs after i res.body = .ok true → res.body ≠ []
  | _ => True

omit [DecidableEq ι] in
theorem Sound.filled (h : s.Sound shs) {e : PeerEvent ι κ} (hes : ¬ e.PassesEmpty sha1 shs) :
    s.Filled sha1 e := by
  unfold Filled
  split
  next t res after =>
    intro i hp hvalid hnil
    have hi : i < shs.length := (h.point hp).held_lt i rfl
    rw [hnil, h.shs_eq] at hvalid
    exact hes ⟨hnil, i, hi, hvalid⟩
  next => trivial

omit [DecidableEq ι] in
theorem Steady.setPeer (h : s.Steady pieceIds) {peer : PeerState}
    (hstream : peer.us.tsfs = s.peer.us.tsfs) : (s.setPeer peer).Steady pieceIds :=
  ⟨(congrArg FStream.failed hstream).trans h.running, hstream.symm ▸ h.pos_le,
    hstream.symm ▸ h.reads, h.filled⟩

omit [DecidableEq ι] in
theorem Steady.setPieces (h : s.Steady pieceIds) (pieces : TsafeSet) :
    (s.setPieces pieces).Steady pieceIds :=
  h.setPeer rfl

theorem Steady.goTo (h : s.Steady pieceIds) {p : Point}
    (hp : ∀ i piece, p.toWrite = some (i, piece) → piece ≠ []) : (s.goTo t p).Steady pieceIds :=
  ⟨h.running, h.pos_le, h.reads,
    forall_goTo (P := fun q => ∀ i piece, q.toWrite = some (i, piece) → piece ≠ []) h.filled hp⟩

/-- A thread that has nothing to write. -/
theorem Steady.goTo_idle (h : s.Steady pieceIds) {p : Point} (hp : p.toWrite = none) :
    (s.goTo t p).Steady pieceIds :=
  h.goTo fun i piece hi => by simp [hp] at hi

omit [DecidableEq ι] in
/-- A stream that works takes every piece. -/
theorem Steady.writePiece_eq (h : s.Steady pieceIds) {i : Nat} (hi : i * pieceLength < 2 ^ 63)
    (piece : BString) : Peer.writePiece i piece s.peer.us.tsfs =
      (.ok (), ⟨patch 0 (i * pieceLength) piece s.peer.us.tsfs.content,
        i * pieceLength + piece.length, false⟩) := by
  have hstream : s.peer.us.tsfs = ⟨s.peer.us.tsfs.content, s.peer.us.tsfs.pos, false⟩ :=
    congrArg (FStream.mk _ _) h.running
  rw [hstream, writePiece_run hi]

omit [DecidableEq ι] in
/-- After a piece with some bytes, the stream is at a place in the file. -/
theorem Steady.write (h : s.Steady pieceIds) {i : Nat} {piece : BString} {fs : FStream}
    (hi : i * pieceLength < 2 ^ 63) (hne : piece ≠ [])
    (hwrite : Peer.writePiece i piece s.peer.us.tsfs = (.ok (), fs)) :
    (s.setTsfs fs).Steady pieceIds := by
  rw [h.writePiece_eq hi] at hwrite
  cases hwrite
  have hlen : (patch 0 (i * pieceLength) piece s.peer.us.tsfs.content).length = _ :=
    length_patch hne
  refine ⟨rfl, ?_, fun k => (h.reads k).mono ?_, h.filled⟩
  · change i * pieceLength + piece.length ≤ (patch 0 (i * pieceLength) piece _).length
    omega
  · change _ ≤ (patch 0 (i * pieceLength) piece _).length
    omega

theorem Steady.move (h : s.Steady pieceIds) (hsound : s.Sound shs)
    (hfilled : s.Filled sha1 (.thread t c)) (hmove : Move sha1 serverIds s t c cs s') :
    s'.Steady pieceIds := by
  have hint {i : Nat} (hi : i < shs.length) : i * pieceLength < 2 ^ 63 :=
    UploadServer.mul_pieceLength_lt (hsound.id_lt hi)
  cases hmove with
  | connect connected hp => exact h.goTo_idle (by cases connected <;> rfl)
  | empty hp => exact h.goTo_idle (by split <;> rfl)
  | removeTop i pieces hp htop => exact (h.setPieces pieces).goTo_idle rfl
  | received i res after bf hp hfield hvalid =>
    refine h.goTo fun j piece hj => ?_
    cases hj
    exact hfilled i hp hvalid
  | written i piece bf fs hp hwrite =>
    have hi : i < shs.length := (hsound.point hp).held_lt i rfl
    have hne : piece ≠ [] := h.filled t i piece (by rw [hp]; rfl)
    exact (h.write (hint hi) hne hwrite).goTo_idle rfl
  | unwritten i piece bf fs hp hwrite =>
    have hi : i < shs.length := (hsound.point hp).held_lt i rfl
    rw [h.writePiece_eq (hint hi)] at hwrite
    cases hwrite
  | lookedUp i bf hp =>
    have hset : (s.setPeer (s.peer.lookedUp (serverIds t))).Steady pieceIds := h.setPeer rfl
    exact hset.goTo_idle rfl
  | returned i bf oldbf k hp hthrough =>
    have hset : Steady pieceIds { s with downloaded := s.downloaded ++ [i] } :=
      ⟨h.running, h.pos_le, h.reads, h.filled⟩
    exact hset.goTo_idle rfl
  | updated i bf oldbf k p hp => exact (h.setPieces _).goTo_idle rfl
  | push i hp => exact (h.setPieces _).goTo_idle rfl
  | mismatched | counted | failed => exact h.goTo_idle rfl
  | removeTopOfEmpty | unchecked | overflowed =>
    exact ⟨h.running, h.pos_le, h.reads, h.filled⟩

variable [DecidableEq κ] {e : PeerEvent ι κ} {es : List (PeerEvent ι κ)}

theorem Steady.step (h : s.Steady pieceIds) (hids : ∀ k, pieceIds k < 2 ^ 31)
    (hsound : s.Sound shs) (hfilled : s.Filled sha1 e)
    (hstep : s.step sha1 serverIds (fun k => pieceIds k) e = some s') : s'.Steady pieceIds := by
  obtain ⟨-, ⟨t, c, rfl, hmove⟩ | ⟨k, -, -, rfl⟩⟩ := step_cases hstep
  · exact h.move hsound hfilled hmove
  · obtain ⟨hfits, hrunning, hpos⟩ := (h.reads k).next (hids k) h.running h.pos_le
    have hsame : ((s.reads k).next (pieceIds k) s.peer.us).2.tsfs.content =
        s.peer.us.tsfs.content := (sameFile_next (pieceIds k) (s.reads k) s.peer.us).1
    refine ⟨hrunning, hsame ▸ hpos, fun j => ?_, h.filled⟩
    change ReadCall.Fits (pieceIds j) _ (Function.update s.reads k _ j)
    rw [hsame]
    by_cases hj : j = k
    · subst hj
      rwa [Function.update_self]
    · rw [Function.update_of_ne hj]
      exact h.reads j

omit [DecidableEq ι] [DecidableEq κ] in
theorem initial_steady {peer : PeerState} {buf : BString} (hfresh : peer.Fresh (.ofEmpty buf))
    (addrs : List SockAddr) :
    (initial (peer.fetchPeers addrs) : Threads ι κ).Steady pieceIds := by
  have hstream : (initial (peer.fetchPeers addrs) : Threads ι κ).peer.us = .ofEmpty buf :=
    hfresh.us_eq
  exact ⟨by rw [hstream]; rfl, by rw [hstream]; exact le_rfl, fun _ => trivial,
    fun _ i piece hi => by cases hi⟩

/-- In every interleaving of downloads and of calls for pieces that an `int` can name, the stream
of a leecher does not fail, and a call ends with bytes, or because the file was too short for its
piece. -/
theorem stream_never_fails {after : Nat → BString} {fuel : Nat} {torrent md buf : BString}
    {s : PeerState} (hmeta : PeerState.loadMeta after fuel torrent md false (.ofEmpty buf) = .ok s)
    (addrs : List SockAddr) (hids : ∀ k, pieceIds k < 2 ^ 31)
    (hes : ∀ e ∈ es, ¬ e.PassesEmpty sha1 s.shs)
    (hrun : Machine.run (Threads.step sha1 serverIds fun k => pieceIds k)
      (initial (s.fetchPeers addrs)) es = some s') :
    s'.peer.us.tsfs.failed = false ∧ ∀ k result, s'.reads k = .returned result →
      (∃ bytes, result = .ok bytes) ∨ result = .error .invalidPieceNoException := by
  have hfresh : s.Fresh (.ofEmpty buf) := PeerState.fresh_of_loadMeta hmeta
  have hsteady : s'.Sound s.shs ∧ s'.Steady pieceIds := by
    refine Machine.run_invariant_of
      (P := fun u : Threads ι κ => u.Sound s.shs ∧ u.Steady pieceIds)
      (fun u e v hu he hstep => ?_)
      ⟨initial_sound hfresh addrs, initial_steady hfresh addrs⟩ hes hrun
    obtain ⟨hsound, hsteady⟩ := hu
    exact ⟨hsound.step hstep, hsteady.step hids hsound (hsound.filled he) hstep⟩
  refine ⟨hsteady.2.running, fun k result hresult => ?_⟩
  have hfits := hsteady.2.reads k
  rwa [hresult] at hfits

/-- The handler of the one piece is still on its way, with a stream that works. -/
theorem onePiece_stream : onePieceEnd.peer.us.tsfs.failed = false := by
  have hbody : (UploadServer.served ⟨[1], 1⟩ [7]).body = [7] := rfl
  have hes : ∀ e ∈ onePieceRun, ¬ e.PassesEmpty sampleSha1 onePiece.shs := by
    simp [onePieceRun, PeerEvent.PassesEmpty, hbody]
  exact (stream_never_fails onePiece_loaded [.ofUid 1] (fun _ => (by decide : 0 < 2 ^ 31)) hes
    onePieceRun_ends).1

end Threads

end P2PFileSharing.Peer
