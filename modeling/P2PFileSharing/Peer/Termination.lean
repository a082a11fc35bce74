import P2PFileSharing.Peer.Leeching
import Mathlib.Algebra.Order.BigOperators.Group.Finset

/-!
# How long the threads run

A thread comes back to `remove_top` after each of its downloads, and puts its last piece back when
the download has failed. The pieces in the set and the points of the threads together pay for what
is still to come.
-/

namespace P2PFileSharing.Peer

open Http Library

/-! ## What is still to come -/

/-- What a piece in the set and a thread at a point are worth, and what a call costs that is made
from there. -/
structure Tariff where
  queued : Nat
  weight : Point → Nat
  cost : Point → Nat

namespace Tariff

/-- Each step of a thread is worth its costs. -/
structure Pays (nPieces : Nat) (T : Tariff) : Prop where
  connect : T.cost .connecting +
    max (T.weight .testing) (T.weight (.exited false)) ≤ T.weight .connecting
  empty : T.cost .testing + max (T.weight .removing) (T.weight (.exited true)) ≤ T.weight .testing
  removeTop : ∀ i, T.cost .removing + T.weight (.requesting i) ≤ T.weight .removing + T.queued
  removeTopOfEmpty : T.cost .removing ≤ T.weight .removing
  sendRequest : ∀ i piece bf, T.cost (.requesting i) +
    max (T.weight (.writing i piece bf)) (T.weight .testing) ≤ T.weight (.requesting i)
  writePiece : ∀ i piece bf,
    T.cost (.writing i piece bf) + T.weight (.lookingUp i bf) ≤ T.weight (.writing i piece bf)
  lookUp : ∀ i bf oldbf,
    T.cost (.lookingUp i bf) + T.weight (.counting i bf oldbf 0) ≤ T.weight (.lookingUp i bf)
  readPriority : ∀ i bf oldbf k p, k < nPieces → T.cost (.counting i bf oldbf k) +
    T.weight (.updating i bf oldbf k p) ≤ T.weight (.counting i bf oldbf k)
  returned : ∀ i bf oldbf k,
    T.cost (.counting i bf oldbf k) + T.weight .testing ≤ T.weight (.counting i bf oldbf k)
  updatePriority : ∀ i bf oldbf k p, T.cost (.updating i bf oldbf k p) +
    T.weight (.counting i bf oldbf (k + 1)) ≤ T.weight (.updating i bf oldbf k p)
  fail : ∀ p i, p.worker = .downloading i → T.cost p + T.weight (.pushingBack i) ≤ T.weight p
  push : ∀ i, T.cost (.pushingBack i) + T.queued + T.weight (.exited false) ≤
    T.weight (.pushingBack i)

end Tariff

namespace TsafeSet

theorem length_push_le (s : TsafeSet) (i : Nat) :
    (s.push i).pieceSet.length ≤ s.pieceSet.length + 1 :=
  SearchSeq.length_insert_le i s.pieceSet

theorem Ordered.length_updatePriority {s : TsafeSet} (h : s.Ordered) (i : Nat) (p : Int) :
    (s.updatePriority i p).pieceSet.length = s.pieceSet.length :=
  ((List.perm_ext_iff_of_nodup (h.updatePriority i p).nodup h.nodup).mpr
    (mem_updatePriority h.nodup i p)).length_eq

end TsafeSet

namespace Threads

variable {ι κ : Type*} [DecidableEq ι] [Fintype ι] {sha1 : BString → Digest} {serverIds : ι → Int}
  {pieceIds : κ → Int} {s s' : Threads ι κ} {t : ι} {c : ThreadCall} {cs : List Call}
  {shs : List BString} {n : Nat}

/-- What the pieces in the set and the threads are worth, as long as the program has a meaning. -/
def worth (T : Tariff) (s : Threads ι κ) : Nat :=
  if s.undefined then 0
  else T.queued * s.peer.pieces.pieceSet.length + ∑ t, T.weight (s.points t)

omit [DecidableEq ι] in
theorem worth_of_defined (T : Tariff) (hdef : s.undefined = false) :
    s.worth T = T.queued * s.peer.pieces.pieceSet.length + ∑ t, T.weight (s.points t) := by
  simp [worth, hdef]

omit [DecidableEq ι] in
theorem weight_le_worth (T : Tariff) (hdef : s.undefined = false) (t : ι) :
    T.weight (s.points t) ≤ s.worth T := by
  rw [worth_of_defined T hdef]
  have hle := Finset.single_le_sum (f := fun u => T.weight (s.points u))
    (fun _ _ => Nat.zero_le _) (Finset.mem_univ t)
  exact le_trans hle (Nat.le_add_left _ _)

/-- A thread goes to another point, and pieces come to the set or are taken from it. -/
theorem worth_goTo (T : Tariff) (hdef : s.undefined = false) {peer : PeerState}
    {downloaded : List Nat} {p : Point} {gain : Nat}
    (hpay : gain + T.queued * peer.pieces.pieceSet.length + T.weight p ≤
      T.queued * s.peer.pieces.pieceSet.length + T.weight (s.points t)) :
    gain + ({ s.setPeer peer with downloaded }.goTo t p).worth T ≤ s.worth T := by
  have hsum := Machine.sum_update_add T.weight s.points t p
  have hdef' : (Threads.goTo { s.setPeer peer with downloaded } t p).undefined = false := hdef
  rw [worth_of_defined T hdef, worth_of_defined T hdef']
  change gain + (T.queued * peer.pieces.pieceSet.length +
    ∑ u, T.weight (Function.update s.points t p u)) ≤ _
  omega

theorem Move.pay {T : Tariff} (hT : T.Pays shs.length) (h : Move sha1 serverIds s t c cs s')
    (hsound : s.Sound shs) (hdef : s.undefined = false) :
    T.cost (s.points t) + s'.worth T ≤ s.worth T := by
  have stays {p q : Point} {downloaded : List Nat} (peer : PeerState)
      (hpieces : peer.pieces.pieceSet.length = s.peer.pieces.pieceSet.length)
      (hp : s.points t = p) (hpq : T.cost p + T.weight q ≤ T.weight p) :
      T.cost (s.points t) + ({ s.setPeer peer with downloaded }.goTo t q).worth T ≤ s.worth T := by
    refine worth_goTo T hdef ?_
    rw [hpieces, hp]
    omega
  have stops {s' : Threads ι κ} (hundefined : s'.undefined = true)
      (hcost : T.cost (s.points t) ≤ T.weight (s.points t)) :
      T.cost (s.points t) + s'.worth T ≤ s.worth T := by
    have hzero : s'.worth T = 0 := by simp [worth, hundefined]
    rw [hzero]
    exact hcost.trans (weight_le_worth T hdef t)
  cases h with
  | connect connected hp =>
    have hpay := hT.connect
    exact stays s.peer rfl hp (by cases connected <;> simp <;> omega)
  | empty hp =>
    have hpay := hT.empty
    exact stays s.peer rfl hp (by split <;> omega)
  | removeTopOfEmpty hp hnone => exact stops rfl (hp ▸ hT.removeTopOfEmpty)
  | removeTop i pieces hp htop =>
    have hpay := hT.removeTop i
    have hset := (TsafeSet.removeTop_eq_some.mp htop).1
    refine worth_goTo T hdef ?_
    rw [hp, hset, List.length_cons, Nat.mul_add_one]
    simp only
    omega
  | received i res after bf hp hfield hvalid =>
    have hpay := hT.sendRequest i res.body bf
    exact stays s.peer rfl hp (by omega)
  | mismatched i answer after hp =>
    have hpay := hT.sendRequest i [] ⟨[], 0⟩
    exact stays s.peer rfl hp (by omega)
  | written i piece bf fs hp hwrite => exact stays _ rfl hp (hT.writePiece i piece bf)
  | lookedUp i bf hp => exact stays _ rfl hp (hT.lookUp i bf _)
  | counted i bf oldbf k p hp hmore hreach hpriority =>
    exact stays s.peer rfl hp
      (hT.readPriority i bf oldbf k p (hsound.nPieces_eq ▸ hmore))
  | returned i bf oldbf k hp hthrough =>
    exact stays s.peer rfl hp (hT.returned i bf oldbf k)
  | updated i bf oldbf k p hp =>
    exact stays _ (hsound.peer.ordered.length_updatePriority k p) hp
      (hT.updatePriority i bf oldbf k p)
  | failed c i hbusy => exact stays s.peer rfl rfl (hT.fail _ i hbusy)
  | unwritten i piece bf fs hp hwrite => exact stays _ rfl hp (hT.fail _ i rfl)
  | unchecked i answer after hp hcause =>
    have hpay := hT.sendRequest i [] ⟨[], 0⟩
    exact stops rfl (by rw [hp]; omega)
  | overflowed i bf oldbf k hp hpriority =>
    have hpay := hT.returned i bf oldbf k
    exact stops rfl (by rw [hp]; omega)
  | push i hp =>
    have hpay := hT.push i
    have hlen := Nat.mul_le_mul_left T.queued (s.peer.pieces.length_push_le i)
    refine worth_goTo T hdef ?_
    rw [hp]
    rw [Nat.mul_add_one] at hlen
    simp only
    omega

end Threads

/-! ## The calls -/

namespace Tariff

/-- Each call costs one. -/
def calls (n : Nat) : Tariff where
  queued := 2 * n + 6
  weight
    | .connecting => 2 * n + 8
    | .testing => 2 * n + 7
    | .removing => 2 * n + 6
    | .requesting _ => 4 * n + 11
    | .writing _ _ _ => 4 * n + 10
    | .lookingUp _ _ => 4 * n + 9
    | .counting _ _ _ k => 2 * n + 8 + 2 * (n - k)
    | .updating _ _ _ k _ => 2 * n + 9 + 2 * (n - (k + 1))
    | .pushingBack _ => 2 * n + 7
    | .exited _ => 0
  cost _ := 1

theorem calls_pays (n : Nat) : (calls n).Pays n := by
  constructor <;> grind [calls, Point.worker]

/-- Each request costs one. -/
def requests : Tariff where
  queued := 1
  weight
    | .requesting _ => 2
    | .exited _ => 0
    | _ => 1
  cost
    | .requesting _ => 1
    | _ => 0

theorem requests_pays (n : Nat) : requests.Pays n := by
  constructor <;> grind [requests, Point.worker]

end Tariff

namespace Threads

section Calls

variable {ι κ : Type*} [DecidableEq ι] [DecidableEq κ] {sha1 : BString → Digest}
  {serverIds : ι → Int} {pieceIds : κ → Int} {s s' : Threads ι κ} {t : ι} {c : ThreadCall}
  {cs : List Call} {shs : List BString} {n : Nat} {e : PeerEvent ι κ} {es : List (PeerEvent ι κ)}

omit [DecidableEq κ] in
theorem Move.reads_eq (h : Move sha1 serverIds s t c cs s') : s'.reads = s.reads := by
  cases h <;> rfl

omit [DecidableEq κ] in
/-- A thread that is not through can go on. -/
theorem exists_call (sha1 : BString → Digest) (serverIds : ι → Int)
    (hrunning : ∀ drained, s.points t ≠ .exited drained) :
    ∃ c s', s.call sha1 serverIds t c = some s' := by
  cases hp : s.points t with
  | connecting =>
    refine ⟨.connect true, ?_⟩
    simp only [call, hp]
    exact ⟨_, rfl⟩
  | testing =>
    refine ⟨.empty, ?_⟩
    simp only [call, hp]
    exact ⟨_, rfl⟩
  | removing =>
    refine ⟨.removeTop, ?_⟩
    rcases htop : s.peer.pieces.removeTop with _ | ⟨i, pieces⟩
    · simp only [call, hp, htop]
      exact ⟨_, rfl⟩
    · simp only [call, hp, htop]
      exact ⟨_, rfl⟩
  | requesting i =>
    refine ⟨.sendRequest (.error (.thrown .shaMismatchException)) [], ?_⟩
    simp only [call, hp]
    exact ⟨_, rfl⟩
  | writing i piece bf =>
    refine ⟨.writePiece, ?_⟩
    simp only [call, hp, inDownload, Option.bind_some]
    rcases hwrite : Peer.writePiece i piece s.peer.us.tsfs with ⟨e | ⟨⟩, fs⟩
    · obtain ⟨rfl, -⟩ := writePiece_error hwrite
      rw [Action.bind_of_error (f := fun _ => pure (Point.lookingUp i bf)) (onTsfs_of hwrite)]
      exact ⟨_, rfl⟩
    · rw [Action.bind_of_ok (onTsfs_of hwrite)]
      exact ⟨_, rfl⟩
  | lookingUp i bf =>
    refine ⟨.lookUp, ?_⟩
    simp only [call, hp]
    exact ⟨_, rfl⟩
  | counting i bf oldbf k =>
    refine ⟨.readPriority, ?_⟩
    simp only [call, hp, inDownload, Option.bind_some]
    obtain ⟨-, hrun⟩ | ⟨-, -, hrun⟩ | ⟨-, -, hrun⟩ := readPriority_cases i bf oldbf k s.peer
    · rw [hrun]
      exact ⟨_, rfl⟩
    · rw [hrun]
      exact ⟨_, rfl⟩
    · rw [hrun]
      rcases hnew : PeerState.newPriority (s.peer.pieces.piecesPriority k) (bf.test k)
        (oldbf.test k) with f | p
      · rw [newPriority_error hnew]
        exact ⟨_, rfl⟩
      · exact ⟨_, rfl⟩
  | updating i bf oldbf k p =>
    refine ⟨.updatePriority, ?_⟩
    simp only [call, hp]
    exact ⟨_, rfl⟩
  | pushingBack i =>
    refine ⟨.push, ?_⟩
    simp only [call, hp]
    exact ⟨_, rfl⟩
  | exited drained => exact absurd hp (hrunning drained)

variable [Fintype ι] [Fintype κ]

/-- What the threads and the handlers are still to do. -/
def callsLeft (n : Nat) (s : Threads ι κ) : Nat :=
  s.worth (Tariff.calls n) + ∑ k, (s.reads k).steps

/-- Each step is one call less. -/
theorem callsLeft_step (hsound : s.Sound shs)
    (hstep : s.step sha1 serverIds pieceIds e = some s') :
    1 + s'.callsLeft shs.length ≤ s.callsLeft shs.length := by
  obtain ⟨hdef, ⟨t, c, -, hmove⟩ | ⟨k, -, hrunning, rfl⟩⟩ := step_cases hstep
  · have hpay : 1 + s'.worth _ ≤ s.worth _ := hmove.pay (Tariff.calls_pays shs.length) hsound hdef
    rw [callsLeft, callsLeft, hmove.reads_eq]
    omega
  · have hsum := Machine.sum_update_add ReadCall.steps s.reads k
      ((s.reads k).next (pieceIds k) s.peer.us).1
    have hread := ReadCall.steps_next (pieceIds k) s.peer.us hrunning
    rw [callsLeft, callsLeft]
    change 1 + (s.worth _ + ∑ j, ReadCall.steps (Function.update s.reads k _ j)) ≤ _
    omega

omit [DecidableEq ι] [DecidableEq κ] [Fintype κ] in
theorem worth_initial {us : UploadServer} {peer : PeerState} (hfresh : peer.Fresh us)
    (addrs : List SockAddr) (T : Tariff) :
    (initial (peer.fetchPeers addrs) : Threads ι κ).worth T =
      T.queued * peer.nPieces + Fintype.card ι * T.weight .connecting := by
  have hlen : (peer.fetchPeers addrs).pieces.pieceSet.length = peer.nPieces := by
    rw [show (peer.fetchPeers addrs).pieces = .load peer.nPieces from hfresh.pieces_eq]
    exact TsafeSet.length_load peer.nPieces
  simp [worth, initial, hlen]

/-- Every run of a leecher comes to an end, whatever the neighbours answer: there is a bound on its
length, and when no step is left to make, all threads are through, unless the program has lost its
meaning. -/
theorem run_ends {after : Nat → BString} {fuel : Nat} {torrent md : BString} {us : UploadServer}
    {peer : PeerState} (hmeta : PeerState.loadMeta after fuel torrent md false us = .ok peer)
    (addrs : List SockAddr)
    (hrun : Machine.run (Threads.step sha1 serverIds pieceIds) (initial (peer.fetchPeers addrs))
      es = some s') :
    es.length ≤ (2 * peer.nPieces + 6) * peer.nPieces +
      Fintype.card ι * (2 * peer.nPieces + 8) + Fintype.card κ * 5 ∧
    ((∀ e, s'.step sha1 serverIds pieceIds e = none) → s'.undefined = true ∨
      (∀ t, ∃ drained, s'.points t = .exited drained) ∧
        ∀ k, ∃ result, s'.reads k = .returned result) := by
  have hfresh := PeerState.fresh_of_loadMeta hmeta
  constructor
  · have hsound : (initial (peer.fetchPeers addrs) : Threads ι κ).Sound peer.shs :=
      initial_sound hfresh addrs
    have hbound := Machine.length_log_add_le (fun _ e => [e])
      (fun s : Threads ι κ => s.callsLeft peer.shs.length)
      (fun _ _ _ hs hstep => hs.step hstep) (fun _ _ _ hs hstep => callsLeft_step hs hstep)
      hsound hrun
    rw [Machine.log_self hrun, ← hfresh.nPieces_eq, callsLeft, callsLeft,
      worth_initial hfresh] at hbound
    have hreads : ∑ k, ((initial (peer.fetchPeers addrs) : Threads ι κ).reads k).steps =
        Fintype.card κ * 5 := by simp [initial, ReadCall.steps]
    rw [hreads] at hbound
    exact (Nat.le_add_right _ _).trans hbound
  · intro hstuck
    rw [or_iff_not_imp_left, Bool.not_eq_true]
    intro hdef
    refine ⟨fun t => ?_, fun k => ?_⟩
    · by_contra hrunning
      obtain ⟨c, u, hcall⟩ := exists_call sha1 serverIds (not_exists.mp hrunning)
      have hstep : s'.step sha1 serverIds pieceIds (.thread t c) = some u := by
        simp [step, hdef, hcall]
      simp [hstuck] at hstep
    · by_contra hrunning
      have hstep := hstuck (.read k)
      simp only [step, hdef] at hstep
      split at hstep
      next h => cases h
      next =>
        split at hstep
        next result hreturned => exact hrunning ⟨result, hreturned⟩
        next => cases hstep

/-- The handler has read the piece as well. -/
def onePieceServed : Threads Unit Unit :=
  { onePieceEnd with
    peer := { onePieceDone with us := ⟨⟨[7], 1, false⟩, [7]⟩ }
    reads := fun _ => .returned (.ok [7]) }

omit [DecidableEq ι] [DecidableEq κ] [Fintype ι] [Fintype κ] in
/-- One thread and one handler, to their ends. -/
theorem onePieceServed_ends :
    (onePieceRun ++ List.replicate 3 (PeerEvent.read ())).length ≤ 23 ∧
      ∀ t, ∃ drained, onePieceServed.points t = .exited drained := by
  have hrun : Machine.run (Threads.step sampleSha1 (fun _ => 1) fun _ => 0)
      (initial (onePiece.fetchPeers [.ofUid 1]))
      (onePieceRun ++ List.replicate 3 (PeerEvent.read ())) = some onePieceServed := rfl
  obtain ⟨hlen, hend⟩ := run_ends onePiece_loaded [.ofUid 1] hrun
  have hstuck (e : PeerEvent Unit Unit) :
      onePieceServed.step sampleSha1 (fun _ => 1) (fun _ => 0) e = none := by
    cases e with
    | thread t c => cases c <;> rfl
    | read k => rfl
  obtain hundefined | ⟨hexited, -⟩ := hend hstuck
  · cases hundefined
  · exact ⟨hlen, hexited⟩

/-! ## The requests -/

/-- The pieces that a step asks a neighbour for. -/
def requested (s : Threads ι κ) : PeerEvent ι κ → List Nat
  | .thread t (.sendRequest _ _) =>
    match s.points t with
    | .requesting i => [i]
    | _ => []
  | _ => []

omit [DecidableEq ι] [DecidableEq κ] [Fintype ι] [Fintype κ] in
/-- The tariff of the requests pays for those of a step. -/
theorem length_requested_le (s : Threads ι κ) (t : ι) (c : ThreadCall) :
    (s.requested (.thread t c)).length ≤ Tariff.requests.cost (s.points t) := by
  cases c with
  | sendRequest answer after =>
    simp only [requested]
    split
    next i hp => simp [hp, Tariff.requests]
    next => exact Nat.zero_le _
  | _ => exact Nat.zero_le _

omit [Fintype κ] in
/-- However the threads take turns, and whatever the neighbours answer, there are at most as many
requests as there are pieces and threads. -/
theorem requests_bounded {after : Nat → BString} {fuel : Nat} {torrent md : BString}
    {us : UploadServer} {peer : PeerState}
    (hmeta : PeerState.loadMeta after fuel torrent md false us = .ok peer) (addrs : List SockAddr)
    (hrun : Machine.run (Threads.step sha1 serverIds pieceIds) (initial (peer.fetchPeers addrs))
      es = some s') :
    (Machine.log (Threads.step sha1 serverIds pieceIds) requested
      (initial (peer.fetchPeers addrs)) es).length ≤ peer.nPieces + Fintype.card ι := by
  have hfresh := PeerState.fresh_of_loadMeta hmeta
  have hbound := Machine.length_log_add_le requested
    (fun s : Threads ι κ => s.worth Tariff.requests)
    (fun _ _ _ hs hstep => hs.step hstep) (fun u e v hsound hstep => ?_)
    (initial_sound hfresh addrs) hrun
  · rw [worth_initial hfresh] at hbound
    simp only [Tariff.requests] at hbound
    omega
  · obtain ⟨hdef, ⟨t, c, rfl, hmove⟩ | ⟨k, rfl, -, rfl⟩⟩ := step_cases hstep
    · have hpay := hmove.pay (Tariff.requests_pays peer.shs.length) hsound hdef
      exact (Nat.add_le_add_right (length_requested_le u t c) _).trans hpay
    · exact (Nat.zero_add _).le

omit [DecidableEq ι] [DecidableEq κ] [Fintype ι] [Fintype κ] in
/-- The one thread asks once. -/
theorem onePiece_requested : (Machine.log (Threads.step sampleSha1 (fun _ => 1) fun _ => 0)
    requested (initial (onePiece.fetchPeers [.ofUid 1])) onePieceRun).length ≤ 2 :=
  requests_bounded onePiece_loaded [.ofUid 1] onePieceRun_ends

end Calls

end Threads

end P2PFileSharing.Peer
