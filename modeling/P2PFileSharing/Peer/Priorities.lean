import P2PFileSharing.Peer.Termination

/-!
# The priorities in a run

A download looks once at the priority of each piece, and makes it one more at most. Between the
look and the update other threads can do the same, and what they have counted is lost. The looks
that a run can still make bound each priority, so that it does not overflow.
-/

namespace P2PFileSharing.Peer

open Http Library

/-- Each look at the priority of piece `i` costs one. -/
def Tariff.looks (i : Nat) : Tariff where
  queued := 1
  weight
    | .requesting _ | .writing _ _ _ | .lookingUp _ _ => 2
    | .counting _ _ _ k => if k ≤ i then 2 else 1
    | .updating _ _ _ k _ => if k < i then 2 else 1
    | .exited _ => 0
    | _ => 1
  cost
    | .counting _ _ _ k => if k = i then 1 else 0
    | _ => 0

theorem Tariff.looks_pays (n i : Nat) : (looks i).Pays n := by
  constructor <;> grind [looks, Point.worker]

/-- What a thread is about to make the priority of a piece. -/
def Point.pending : Point → Option (Nat × Int)
  | updating _ _ _ i p => some (i, p)
  | _ => none

namespace Threads

variable {ι κ : Type*} [DecidableEq ι] [Fintype ι] {sha1 : BString → Digest} {serverIds : ι → Int}
  {pieceIds : κ → Int} {s s' : Threads ι κ} {t : ι} {c : ThreadCall} {cs : List Call}
  {shs : List BString} {n bound : Nat}

/-- No priority, now or soon, is beyond what the looks that are left still pay for. -/
structure Bounded (bound : Nat) (s : Threads ι κ) : Prop where
  priority : ∀ i, 0 ≤ s.peer.pieces.piecesPriority i ∧
    s.peer.pieces.piecesPriority i + s.worth (Tariff.looks i) ≤ bound
  pending : ∀ t i p, (s.points t).pending = some (i, p) →
    0 ≤ p ∧ p + s.worth (Tariff.looks i) ≤ bound

omit [DecidableEq ι] in
/-- What is bounded stays so while the looks get fewer. -/
theorem Bounded.of_le (h : s.Bounded bound)
    (hworth : ∀ i, s'.worth (Tariff.looks i) ≤ s.worth (Tariff.looks i))
    (hpriority : ∀ i, s'.peer.pieces.piecesPriority i = s.peer.pieces.piecesPriority i ∨
      ∃ t, (s.points t).pending = some (i, s'.peer.pieces.piecesPriority i))
    (hpending : ∀ t i p, (s'.points t).pending = some (i, p) →
      (s.points t).pending = some (i, p) ∨
        0 ≤ p ∧ p + s'.worth (Tariff.looks i) ≤ bound) :
    s'.Bounded bound := by
  refine ⟨fun i => ?_, fun u i p hp => ?_⟩
  · have hi := hworth i
    obtain hsame | ⟨t, ht⟩ := hpriority i
    · obtain ⟨hpos, hle⟩ := h.priority i
      omega
    · obtain ⟨hpos, hle⟩ := h.pending t i _ ht
      omega
  · have hi := hworth i
    obtain hold | hnew := hpending u i p hp
    · obtain ⟨hpos, hle⟩ := h.pending u i p hold
      omega
    · exact hnew

omit [Fintype ι] in
/-- The thread that makes the step is the only one that plans a change. -/
theorem pending_goTo_cases {p : Point} {u : ι} {x : Nat × Int}
    (h : ((s.goTo t p).points u).pending = some x) :
    p.pending = some x ∨ (s.points u).pending = some x := by
  by_cases hu : u = t
  · subst hu
    exact .inl (by simpa using h)
  · rw [goTo_of_ne s p hu] at h
    exact .inr h

theorem toInt_bounds (b : Bool) : 0 ≤ b.toInt ∧ b.toInt ≤ 1 := by
  cases b <;> decide

theorem newPriority_eq {priority p : Int} {has : Bool}
    (h : PeerState.newPriority priority has false = .ok p) : p = priority + has.toInt := by
  by_cases hfits : PeerState.Fits priority has
  · rw [PeerState.newPriority_of_fits hfits] at h
    cases h
    rfl
  · rw [PeerState.newPriority_of_not_fits hfits] at h
    cases h

theorem Bounded.move (h : s.Bounded bound) (hsound : s.Sound shs)
    (hdef : s.undefined = false) (hmove : Move sha1 serverIds s t c cs s') :
    s'.Bounded bound := by
  have hpay (i : Nat) := hmove.pay (Tariff.looks_pays shs.length i) hsound hdef
  have hworth (i : Nat) : s'.worth (Tariff.looks i) ≤
      s.worth (Tariff.looks i) := (Nat.le_add_left _ _).trans (hpay i)
  have stays {u : ι} {p : Point} {i : Nat} {q : Int} (hp : p.pending = none)
      (hq : ((s.goTo t p).points u).pending = some (i, q)) :
      (s.points u).pending = some (i, q) := by
    obtain hq | hq := pending_goTo_cases hq
    · simp [hp] at hq
    · exact hq
  cases hmove with
  | connect connected hp =>
    exact h.of_le hworth (fun i => .inl rfl) fun u i q hq =>
      .inl (stays (by cases connected <;> rfl) hq)
  | empty hp =>
    exact h.of_le hworth (fun i => .inl rfl) fun u i q hq => .inl (stays (by split <;> rfl) hq)
  | removeTopOfEmpty | unchecked | overflowed =>
    exact h.of_le hworth (fun i => .inl rfl) fun u i q hq => .inl hq
  | removeTop i pieces hp htop =>
    have hpriority := (TsafeSet.removeTop_eq_some.mp htop).2
    exact h.of_le hworth (fun j => .inl (congrFun hpriority j)) fun u j q hq =>
      .inl (stays rfl hq)
  | received | mismatched | written | lookedUp | returned | failed | unwritten | push =>
    exact h.of_le hworth (fun i => .inl rfl) fun u i q hq => .inl (stays rfl hq)
  | counted i bf oldbf k p hp hmore hreach hpriority =>
    refine h.of_le hworth (fun j => .inl rfl) fun u j q hq => ?_
    obtain hq | hq := pending_goTo_cases hq
    · cases hq
      rw [(hsound.point hp).blank oldbf rfl k] at hpriority
      have hnew := newPriority_eq hpriority
      have hcost : (Tariff.looks k).cost (.counting i bf oldbf k) = 1 := if_pos rfl
      have hless := hpay k
      rw [hp, hcost] at hless
      obtain ⟨hpos, hle⟩ := h.priority k
      have hbit := toInt_bounds (bf.test k)
      omega
    · exact .inl hq
  | updated i bf oldbf k p hp =>
    refine h.of_le hworth (fun j => ?_) fun u j q hq => .inl (stays rfl hq)
    have hset := congrFun (hsound.peer.ordered.piecesPriority_updatePriority k p) j
    change (s.peer.pieces.updatePriority k p).piecesPriority j = _ ∨
      ∃ u, (s.points u).pending = some (j, (s.peer.pieces.updatePriority k p).piecesPriority j)
    by_cases hj : j = k
    · subst hj
      split_ifs at hset
      · rw [Function.update_self] at hset
        exact .inr ⟨t, by rw [hset, hp]; rfl⟩
      · exact .inl hset
    · exact .inl (hsound.peer.ordered.piecesPriority_updatePriority_of_ne hj p)

omit [DecidableEq ι] in
/-- A priority that is looked at has room for one more. -/
theorem Bounded.fits (h : s.Bounded bound) (hdef : s.undefined = false)
    (hbound : bound < 2 ^ 31) {i k : Nat} {bf oldbf : Bitfield}
    (hp : s.points t = .counting i bf oldbf k) (has : Bool) :
    PeerState.Fits (s.peer.pieces.piecesPriority k) has := by
  obtain ⟨hpos, hle⟩ := h.priority k
  have hweight := weight_le_worth (Tariff.looks k) hdef t
  have hlook : (Tariff.looks k).weight (.counting i bf oldbf k) = 2 := if_pos le_rfl
  rw [hp, hlook] at hweight
  have hbit := toInt_bounds has
  unfold PeerState.Fits
  omega

omit [DecidableEq ι] in
theorem initial_bounded {us : UploadServer} {peer : PeerState} (hfresh : peer.Fresh us)
    (addrs : List SockAddr) : (initial (peer.fetchPeers addrs) : Threads ι κ).Bounded
      (peer.nPieces + Fintype.card ι) := by
  refine ⟨fun i => ?_, fun t i p hp => by simp [initial, Point.pending] at hp⟩
  have hzero : (peer.fetchPeers addrs).pieces.piecesPriority i = 0 := by
    rw [show (peer.fetchPeers addrs).pieces = .load peer.nPieces from hfresh.pieces_eq]
    exact TsafeSet.piecesPriority_load peer.nPieces i
  rw [show (initial (peer.fetchPeers addrs) : Threads ι κ).peer = peer.fetchPeers addrs from rfl,
    hzero, worth_initial hfresh]
  simp [Tariff.looks]

variable [DecidableEq κ] {es : List (PeerEvent ι κ)}

theorem Bounded.step {e : PeerEvent ι κ} (h : s.Bounded bound) (hsound : s.Sound shs)
    (hstep : s.step sha1 serverIds pieceIds e = some s') : s'.Bounded bound := by
  obtain ⟨hdef, ⟨t, c, -, hmove⟩ | ⟨k, -, -, rfl⟩⟩ := step_cases hstep
  · exact h.move hsound hdef hmove
  · exact ⟨h.priority, h.pending⟩

theorem sound_and_bounded {us : UploadServer} {peer : PeerState} (hfresh : peer.Fresh us)
    (addrs : List SockAddr)
    (hrun : Machine.run (Threads.step sha1 serverIds pieceIds) (initial (peer.fetchPeers addrs))
      es = some s') :
    s'.Sound peer.shs ∧ s'.Bounded (peer.nPieces + Fintype.card ι) :=
  Machine.run_invariant
    (P := fun s : Threads ι κ => s.Sound peer.shs ∧
      s.Bounded (peer.nPieces + Fintype.card ι))
    (fun _ _ _ h hstep => ⟨h.1.step hstep, h.2.step h.1 hstep⟩)
    ⟨initial_sound hfresh addrs, initial_bounded hfresh addrs⟩ hrun

/-- As long as the answers are those of a program that has a meaning, and there are not too many
pieces and threads for an `int`, a run of a leecher loses its meaning in one way only: a thread has
found a piece in the set, others have taken what was there, and its `remove_top` finds nothing. -/
theorem undefined_only_of_removeTop {after : Nat → BString} {fuel : Nat} {torrent md : BString}
    {us : UploadServer} {peer : PeerState}
    (hmeta : PeerState.loadMeta after fuel torrent md false us = .ok peer) (addrs : List SockAddr)
    (hfew : peer.nPieces + Fintype.card ι < 2 ^ 31)
    (hanswers : ∀ t after, .thread t (.sendRequest (.error .undefined) after) ∉ es)
    (hrun : Machine.run (Threads.step sha1 serverIds pieceIds) (initial (peer.fetchPeers addrs))
      es = some s')
    (hundefined : s'.undefined = true) : ∃ es₀ t s₀, es = es₀ ++ [.thread t .removeTop] ∧
      Machine.run (Threads.step sha1 serverIds pieceIds) (initial (peer.fetchPeers addrs)) es₀ =
        some s₀ ∧ s₀.points t = .removing ∧ s₀.peer.pieces.pieceSet = [] := by
  have hfresh := PeerState.fresh_of_loadMeta hmeta
  obtain rfl | ⟨es₀, e, rfl⟩ := List.eq_nil_or_concat' es
  · cases hrun
    cases hundefined
  · obtain ⟨s₀, hrun₀, hlast⟩ := Machine.run_append_eq_some.mp hrun
    obtain ⟨u, hstep, hend⟩ := Machine.run_cons.mp hlast
    cases hend
    obtain ⟨hsound, hbounded⟩ := sound_and_bounded hfresh addrs hrun₀
    obtain ⟨hdef, ⟨t, c, rfl, hmove⟩ | ⟨k, -, -, rfl⟩⟩ := step_cases hstep
    · generalize s₀.callsOf sha1 serverIds t c = cs at hmove
      cases hmove with
      | removeTopOfEmpty hp hnone => exact ⟨es₀, t, s₀, rfl, hrun₀, hp, hnone⟩
      | unchecked i answer after hp hcause =>
        obtain rfl | hle := hcause
        · exact absurd (by simp) (hanswers t after)
        · have hlt := (hsound.point hp).held_lt i rfl
          rw [hsound.shs_eq] at hle
          exact absurd hlt (Nat.not_lt.mpr hle)
      | overflowed i bf oldbf k hp hpriority =>
        have hfits := hbounded.fits hdef hfew hp (bf.test k)
        rw [(hsound.point hp).blank oldbf rfl k, PeerState.newPriority_of_fits hfits] at hpriority
        cases hpriority
      | connect | empty | removeTop | received | mismatched | written | lookedUp | counted
      | returned | updated | failed | unwritten | push =>
        exact absurd (hdef.symm.trans hundefined) Bool.false_ne_true
    · exact absurd (hdef.symm.trans hundefined) Bool.false_ne_true

/-- Two threads have found the only piece in the set. -/
theorem second_thread_undefined : ∃ es₀ t s₀,
    [.thread true (.connect true), .thread false (.connect true), .thread true .empty,
      .thread false .empty, .thread true .removeTop, .thread false .removeTop] =
      es₀ ++ [.thread t .removeTop] ∧
    Machine.run (Threads.step sampleSha1 (fun _ => 1) fun _ => 0)
      (initial (onePiece.fetchPeers [.ofUid 1]) : Threads Bool Unit) es₀ = some s₀ ∧
    s₀.points t = .removing ∧ s₀.peer.pieces.pieceSet = [] :=
  undefined_only_of_removeTop onePiece_loaded [.ofUid 1] (by decide) (by simp) rfl rfl

end Threads

end P2PFileSharing.Peer
