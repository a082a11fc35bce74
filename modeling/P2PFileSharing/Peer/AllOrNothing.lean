import P2PFileSharing.Peer.Download

/-!
# A download that is left half done

`download` writes the piece before it hands the bitfield of the response to the callback. The
callback walks over all pieces of the torrent and throws where one of the two bitfields ends.
-/

namespace P2PFileSharing.Peer

open Http Library

/-- A `download` that throws has changed neither the file nor the pieces; one that returns has
written the verified body, and has brought the priority of each piece of the set up to date. -/
def AllOrNothing (sha1 : BString → Digest) (a : Attempt) (res : Response) (s : PeerState) : Prop :=
  match a.run sha1 s with
  | (.ok _, t) => ∃ bf, receivedBitfield res = .ok bf ∧
      isValid sha1 s.shs a.after a.pieceId res.body = .ok true ∧
      t.us.tsfs.content = patch 0 (a.pieceId * pieceLength) res.body s.us.tsfs.content ∧
      ∀ i ∈ s.pieces.pieceSet, t.pieces.piecesPriority i = s.pieces.piecesPriority i +
        (bf.test i).toInt - ((s.storedBitfield a.serverId).test i).toInt
  | (.error (.thrown _), t) => t.us.tsfs.content = s.us.tsfs.content ∧ t.pieces = s.pieces
  | (.error .undefined, _) => False
  | (.error .outOfFuel, _) => True

/-- The body of the response is at the place of the piece already. -/
def InPlace (a : Attempt) (res : Response) (s : PeerState) : Prop :=
  patch 0 (a.pieceId * pieceLength) res.body s.us.tsfs.content = s.us.tsfs.content

/-- Both bitfields of the callback have a bit for every piece. -/
def Covered (a : Attempt) (bf : Bitfield) (s : PeerState) : Prop :=
  ∀ i < s.nPieces, PeerState.Reaches bf (s.storedBitfield a.serverId) i

/-- The callback can count one more neighbour for each piece that it comes to. If it comes to all of
them, `download` returns, and the piece must have been written; through a failed stream it is not.
If it does not, `download` throws, and there must be nothing to change in the file and in the pieces
of the set. -/
structure Harmless (a : Attempt) (res : Response) (bf : Bitfield) (s : PeerState) : Prop where
  counts : ∀ i < s.nPieces, PeerState.Reaches bf (s.storedBitfield a.serverId) i →
    PeerState.Fits (s.pieces.piecesPriority i) (bf.test i)
  returns : Covered a bf s → s.us.tsfs.failed = true → InPlace a res s
  throws : ¬ Covered a bf s → (s.us.tsfs.failed = false → InPlace a res s) ∧
    ∀ i ∈ s.pieces.pieceSet, PeerState.Reaches bf (s.storedBitfield a.serverId) i →
      bf.test i = false

/-- The response has no bitfield to take, or the piece is one of the torrent and the response does
not match its digest or does no harm. -/
def Spared (sha1 : BString → Digest) (a : Attempt) (res : Response) (s : PeerState) : Prop :=
  (∃ e, receivedBitfield res = .error e) ∨
    (a.pieceId < s.shs.length ∧
      (isValid sha1 s.shs a.after a.pieceId res.body = .ok false ∨
        ∃ bf, receivedBitfield res = .ok bf ∧ Harmless a res bf s))

/-! ## What a leecher keeps -/

/-- The set is ordered and has pieces of the torrent, of which an `int` can count all, and no
bitfield of a neighbour is stored. -/
structure PeerState.Sound (s : PeerState) : Prop where
  ordered : s.pieces.Ordered
  pieces_lt : ∀ i ∈ s.pieces.pieceSet, i < s.nPieces
  nPieces_eq : s.nPieces = s.shs.length
  nPieces_lt : s.nPieces < 2 ^ 31
  blank : ∀ peerId i, (s.storedBitfield peerId).test i = false

namespace PeerState

variable {s t : PeerState}

/-- The set of pieces keeps its order and its members. -/
def KeepsPieces (s t : TsafeSet) : Prop :=
  s.Ordered → t.Ordered ∧ ∀ i, i ∈ t.pieceSet ↔ i ∈ s.pieceSet

instance : Std.Refl KeepsPieces := ⟨fun _ h => ⟨h, fun _ => Iff.rfl⟩⟩

instance : IsTrans TsafeSet KeepsPieces :=
  ⟨fun _ _ _ h h' hs => ⟨(h' (h hs).1).1, fun i => ((h' (h hs).1).2 i).trans ((h hs).2 i)⟩⟩

theorem within_updatePriorities (bf oldbf : Bitfield) (is : List Nat) :
    Action.Within KeepsPieces (updatePriorities bf oldbf is) := by
  induction is with
  | nil => exact Action.within_pure ()
  | cons i is ih =>
    refine (Action.within_ofExcept _).bind fun has => (Action.within_ofExcept _).bind fun had =>
      Action.within_get.bind fun now => (Action.within_ofExcept _).bind fun priority => ?_
    refine (Action.within_modify fun s hs => ?_).bind fun _ => ih
    exact ⟨hs.updatePriority i priority, TsafeSet.mem_updatePriority hs.nodup i priority⟩

/-- The set of pieces is kept, and no bitfield is stored. -/
def Kept (s t : PeerState) : Prop :=
  KeepsPieces s.pieces t.pieces ∧ ∀ p, t.storedBitfield p = s.storedBitfield p

instance : Std.Refl Kept := ⟨fun s => ⟨refl_of KeepsPieces s.pieces, fun _ => rfl⟩⟩

instance : IsTrans PeerState Kept :=
  ⟨fun _ _ _ h h' => ⟨trans_of KeepsPieces h.1 h'.1, fun p => (h'.2 p).trans (h.2 p)⟩⟩

theorem Sound.of_kept (h : s.Sound) (hsame : SameMeta s t) (hkept : Kept s t) : t.Sound := by
  obtain ⟨hpieces, hstored⟩ := hkept
  obtain ⟨hordered, hmem⟩ := hpieces h.ordered
  obtain ⟨-, hn, hshs⟩ := hsame
  refine ⟨hordered, fun i hi => ?_, ?_, ?_, fun p i => ?_⟩
  · rw [hn]
    exact h.pieces_lt i ((hmem i).mp hi)
  · rw [hn, hshs]
    exact h.nPieces_eq
  · rw [hn]
    exact h.nPieces_lt
  · rw [hstored]
    exact h.blank p i

/-- The callback looks a neighbour up, and makes an entry for it, without storing a bitfield. -/
theorem storedBitfield_lookUp (s : PeerState) (peerId p : Int) :
    { s with ndata := s.ndata.insert peerId ((s.ndata.find? peerId).getD .new) }.storedBitfield p =
      s.storedBitfield p := by
  unfold storedBitfield
  by_cases hp : p = peerId
  · subst hp
    simp
  · rw [OrdMap.find?_insert_of_ne _ _ hp]

theorem kept_updateNdataCallback (peerId : Int) (bf : Bitfield) :
    Action.Within Kept (updateNdataCallback peerId bf) := by
  intro s
  rw [updateNdataCallback_run]
  exact ⟨within_updatePriorities _ _ _ s.pieces, storedBitfield_lookUp s peerId⟩

theorem Sound.download (h : s.Sound) (sha1 : BString → Digest) (a : Attempt) :
    (a.run sha1 s).2.Sound :=
  h.of_kept (within_download _ _ _ _ _ s) (download_within (R := Kept)
    (fun _ s => ⟨refl_of KeepsPieces s.pieces, fun _ => rfl⟩)
    (kept_updateNdataCallback a.serverId) _ _ _ s)

theorem Sound.removeTop (h : s.Sound) {i : Nat} {pieces : TsafeSet}
    (htop : s.pieces.removeTop = some (i, pieces)) : { s with pieces }.Sound := by
  obtain ⟨hset, -⟩ := TsafeSet.removeTop_eq_some.mp htop
  refine ⟨h.ordered.removeTop htop, fun j hj => h.pieces_lt j ?_, h.nPieces_eq, h.nPieces_lt,
    h.blank⟩
  rw [hset]
  exact List.mem_cons_of_mem i hj

theorem Sound.push (h : s.Sound) {i : Nat} (hi : i < s.nPieces) :
    { s with pieces := s.pieces.push i }.Sound := by
  refine ⟨h.ordered.push i, fun j hj => ?_, h.nPieces_eq, h.nPieces_lt, h.blank⟩
  rcases (TsafeSet.mem_push s.pieces i j).mp hj with rfl | hset
  · exact hi
  · exact h.pieces_lt j hset

theorem Fresh.sound {us : UploadServer} (h : s.Fresh us) (addrs : List SockAddr) :
    (s.fetchPeers addrs).Sound := by
  have hpieces : (s.fetchPeers addrs).pieces = .load s.nPieces := h.pieces_eq
  refine ⟨?_, fun i hi => ?_, h.nPieces_eq, h.nPieces_lt, h.blank addrs⟩
  · rw [hpieces]
    exact TsafeSet.ordered_load _
  · rw [hpieces] at hi
    exact ((TsafeSet.load_spec s.nPieces).2 i).mp hi

end PeerState

/-! ## Whole runs -/

/-- A thread puts back pieces of the torrent only. -/
def PutsBack (n : Nat) : LeecherEvent → Prop
  | .push i => i < n
  | _ => True

/-- As long as there is a state, it is sound. -/
def Leeching (n : Nat) : Option PeerState → Prop
  | none => True
  | some s => s.Sound ∧ s.nPieces = n

theorem Leeching.left {n : Nat} {r : Except Fault Unit} {s : PeerState} (h : s.Sound)
    (hn : s.nPieces = n) : Leeching n (PeerState.left (r, s)) := by
  by_cases hr : r = .error .undefined
  · subst hr
    trivial
  · rw [PeerState.left_of_ne hr]
    exact ⟨h, hn⟩

theorem Leeching.step {sha1 : BString → Digest} {n : Nat} {s t : Option PeerState}
    {e : LeecherEvent} (h : Leeching n s) (he : PutsBack n e) (hstep : leech sha1 s e = some t) :
    Leeching n t := by
  obtain _ | s := s
  · cases hstep
  obtain ⟨hsound, hn⟩ := h
  cases leech_cases hstep with
  | download a =>
    have hsame : SameMeta s (a.run sha1 s).2 := within_download _ _ _ _ _ s
    exact Leeching.left (hsound.download sha1 a) (hsame.2.1.trans hn)
  | serve req sock =>
    exact ⟨hsound.of_kept ⟨rfl, rfl, rfl⟩ ⟨refl_of PeerState.KeepsPieces _, fun _ => rfl⟩, hn⟩
  | empty htop => trivial
  | removeTop htop => exact ⟨hsound.removeTop htop, hn⟩
  | push i => exact ⟨hsound.push (hn ▸ he), hn⟩

theorem sound_of_run {sha1 : BString → Digest} {us : UploadServer} {s t : PeerState}
    (hfresh : s.Fresh us) {addrs : List SockAddr} {es : List LeecherEvent}
    (hes : ∀ e ∈ es, PutsBack s.nPieces e)
    (hrun : Machine.run (leech sha1) (some (s.fetchPeers addrs)) es = some (some t)) :
    t.Sound := by
  have start : Leeching s.nPieces (some (s.fetchPeers addrs)) := ⟨hfresh.sound addrs, rfl⟩
  exact (Machine.run_invariant_of (fun _ _ _ h he hstep => h.step he hstep) start hes hrun).1

/-! ## What becomes of a response -/

namespace Attempt

variable {sha1 : BString → Digest} {a : Attempt} {res : Response} {bf : Bitfield} {s : PeerState}

theorem run_no_bitfield {e : ExnClass}
    (hsend : a.sendRequest (PeerState.pieceRequest a.pieceId) = .ok res)
    (hfield : receivedBitfield res = .error e) : a.run sha1 s = (.error (.thrown e), s) := by
  rw [run, PeerState.download, hsend, Action.ofExcept_ok_bind_run, hfield]
  rfl

/-- A response with a bitfield comes to the check of the digest. -/
theorem run_bitfield (hsend : a.sendRequest (PeerState.pieceRequest a.pieceId) = .ok res)
    (hfield : receivedBitfield res = .ok bf) : a.run sha1 s = (do
      let valid ← Action.ofExcept (isValid sha1 s.shs a.after a.pieceId res.body)
      if valid then
        PeerState.onTsfs (writePiece a.pieceId res.body)
        PeerState.updateNdataCallback a.serverId bf
      else Action.throw (.thrown .shaMismatchException)) s := by
  have hfield' : (receivedBitfield res).mapError Fault.thrown = .ok bf := by
    rw [hfield]
    rfl
  rw [run, PeerState.download, hsend, Action.ofExcept_ok_bind_run, hfield',
    Action.ofExcept_ok_bind_run, Action.get_bind_run]

theorem run_not_valid
    (hsend : a.sendRequest (PeerState.pieceRequest a.pieceId) = .ok res)
    (hfield : receivedBitfield res = .ok bf)
    (hvalid : isValid sha1 s.shs a.after a.pieceId res.body = .ok false) :
    a.run sha1 s = (.error (.thrown .shaMismatchException), s) := by
  rw [run_bitfield hsend hfield, hvalid]
  rfl

theorem run_no_piece (hsend : a.sendRequest (PeerState.pieceRequest a.pieceId) = .ok res)
    (hfield : receivedBitfield res = .ok bf) (hid : s.shs.length ≤ a.pieceId) :
    a.run sha1 s = (.error .undefined, s) := by
  rw [run_bitfield hsend hfield, isValid, List.getElem?_eq_none hid]
  rfl

/-- The piece is written before the callback goes over the priorities. -/
theorem run_written (hsend : a.sendRequest (PeerState.pieceRequest a.pieceId) = .ok res)
    (hfield : receivedBitfield res = .ok bf)
    (hvalid : isValid sha1 s.shs a.after a.pieceId res.body = .ok true)
    (hsize : a.pieceId < 2 ^ 31) {r : Except Fault Unit} {pieces : TsafeSet}
    (hround : PeerState.updatePriorities bf (s.storedBitfield a.serverId)
      (List.range' 0 s.nPieces) s.pieces = (r, pieces)) :
    ∃ t, a.run sha1 s = (r, t) ∧ t.pieces = pieces ∧
      t.us.tsfs.content = if s.us.tsfs.failed then s.us.tsfs.content
        else patch 0 (a.pieceId * pieceLength) res.body s.us.tsfs.content := by
  obtain ⟨fs, hwrite, -, hcontent⟩ :=
    writePiece_returns (UploadServer.mul_pieceLength_lt hsize) res.body s.us.tsfs
  have hrun := download_run hsend hfield hvalid hwrite
  rw [PeerState.updateNdataCallback_run] at hrun
  change a.run sha1 s = ((PeerState.updatePriorities bf (s.storedBitfield a.serverId)
    (List.range' 0 s.nPieces) s.pieces).1, _) at hrun
  rw [hround] at hrun
  exact ⟨_, hrun, congrArg Prod.snd hround, hcontent⟩

end Attempt

/-! ## When it is all or nothing -/

section Outcome

variable {sha1 : BString → Digest} {a : Attempt} {res : Response} {bf : Bitfield} {s : PeerState}

theorem not_allOrNothing_of_undefined (h : (a.run sha1 s).1 = .error .undefined) :
    ¬ AllOrNothing sha1 a res s := by
  rcases hrun : a.run sha1 s with ⟨r, t⟩
  obtain rfl : r = .error .undefined := by rwa [hrun] at h
  rw [AllOrNothing, hrun]
  exact id

/-- A response that passes the check. -/
theorem allOrNothing_valid_iff (hsound : s.Sound)
    (hsend : a.sendRequest (PeerState.pieceRequest a.pieceId) = .ok res)
    (hfield : receivedBitfield res = .ok bf)
    (hvalid : isValid sha1 s.shs a.after a.pieceId res.body = .ok true)
    (hsize : a.pieceId < 2 ^ 31) : AllOrNothing sha1 a res s ↔ Harmless a res bf s := by
  have hblank := hsound.blank a.serverId
  by_cases hfits : ∀ i < s.nPieces, PeerState.Reaches bf (s.storedBitfield a.serverId) i →
      PeerState.Fits (s.pieces.piecesPriority i) (bf.test i)
  · obtain ⟨r, pieces, hround, hends, hcounted⟩ := PeerState.updatePriorities_spec (a := 0)
      (m := s.nPieces) hsound.ordered hblank fun i _ hlt => hfits i (by omega)
    rw [Nat.zero_add] at hends hcounted
    obtain ⟨t, hrun, rfl, hcontent⟩ := Attempt.run_written hsend hfield hvalid hsize hround
    rw [AllOrNothing, hrun]
    rcases hends with ⟨rfl, hall⟩ | ⟨rfl, i, -, hi, hstop⟩
    · have hcovered : Covered a bf s := fun i => hall i (Nat.zero_le i)
      have hwritten : t.us.tsfs.content =
          patch 0 (a.pieceId * pieceLength) res.body s.us.tsfs.content ↔
            (s.us.tsfs.failed = true → InPlace a res s) := by
        rw [hcontent, InPlace]
        cases s.us.tsfs.failed <;> simp [eq_comm]
      constructor
      · rintro ⟨-, -, -, hbody, -⟩
        exact ⟨hfits, fun _ => hwritten.mp hbody, fun hnot => absurd hcovered hnot⟩
      · intro h
        refine ⟨bf, hfield, hvalid, hwritten.mpr (h.returns hcovered), fun i hi => ?_⟩
        have hlt := hsound.pieces_lt i hi
        rw [hcounted.added i (Nat.zero_le i) hlt (hall i (Nat.zero_le i) hlt) hi, hblank i,
          Bool.toInt_false, Int.sub_zero]
    · have hshort : ¬ Covered a bf s := fun hall => hstop (hall i hi)
      -- the file and the set have not changed exactly where nothing new has been written
      have hkept : t.us.tsfs.content = s.us.tsfs.content ↔
          (s.us.tsfs.failed = false → InPlace a res s) := by
        rw [hcontent, InPlace]
        cases s.us.tsfs.failed <;> simp
      have hidle : t.pieces = s.pieces ↔ ∀ i ∈ s.pieces.pieceSet,
          PeerState.Reaches bf (s.storedBitfield a.serverId) i → bf.test i = false := by
        refine (hcounted.eq_iff hsound.ordered).trans (forall₂_congr fun j hj => ?_)
        simp only [Nat.zero_le, hsound.pieces_lt j hj, true_imp_iff]
      exact (and_congr hkept hidle).trans
        ⟨fun h => ⟨hfits, fun hall => absurd hall hshort, fun _ => h⟩, fun h => h.throws hshort⟩
  · refine iff_of_false ?_ fun h => hfits h.counts
    simp only [not_forall] at hfits
    obtain ⟨i, hi, hreach, hfit⟩ := hfits
    have hundefined := PeerState.updatePriorities_undefined (a := 0) (m := s.nPieces)
      hsound.ordered hblank (Nat.zero_le i) (by omega) hreach hfit
    rcases hround : PeerState.updatePriorities bf (s.storedBitfield a.serverId)
      (List.range' 0 s.nPieces) s.pieces with ⟨r, pieces⟩
    rw [hround] at hundefined
    obtain ⟨t, hrun, -⟩ := Attempt.run_written hsend hfield hvalid hsize hround
    refine not_allOrNothing_of_undefined ?_
    rw [hrun]
    exact hundefined

theorem allOrNothing_iff (hsound : s.Sound)
    (hsend : a.sendRequest (PeerState.pieceRequest a.pieceId) = .ok res) :
    AllOrNothing sha1 a res s ↔ Spared sha1 a res s := by
  rcases hfield : receivedBitfield res with e | bf
  · rw [AllOrNothing, Attempt.run_no_bitfield hsend hfield]
    exact iff_of_true ⟨rfl, rfl⟩ (.inl ⟨e, hfield⟩)
  have hsome : ¬ ∃ e, receivedBitfield res = .error e := by
    rintro ⟨e, he⟩
    cases hfield.symm.trans he
  rw [Spared, or_iff_right hsome]
  by_cases hid : a.pieceId < s.shs.length
  · rw [and_iff_right hid]
    have hsize : a.pieceId < 2 ^ 31 := by
      have hlt := hsound.nPieces_lt
      have hn := hsound.nPieces_eq
      omega
    obtain ⟨valid, hvalid⟩ :
        ∃ valid, isValid sha1 s.shs a.after a.pieceId res.body = .ok valid := by
      rw [isValid, List.getElem?_eq_getElem hid]
      exact ⟨_, rfl⟩
    cases valid with
    | false =>
      rw [AllOrNothing, Attempt.run_not_valid hsend hfield hvalid]
      exact iff_of_true ⟨rfl, rfl⟩ (.inl hvalid)
    | true =>
      have hright : ¬ isValid sha1 s.shs a.after a.pieceId res.body = .ok false := by
        rw [hvalid]
        simp
      rw [or_iff_right hright, allOrNothing_valid_iff hsound hsend hfield hvalid hsize]
      constructor
      · exact fun h => ⟨bf, hfield, h⟩
      · rintro ⟨bf', hbf, h⟩
        obtain rfl : bf = bf' := Except.ok.inj (hfield.symm.trans hbf)
        exact h
  · have hrun : a.run sha1 s = (.error .undefined, s) :=
      Attempt.run_no_piece hsend hfield (Nat.not_lt.mp hid)
    exact iff_of_false (not_allOrNothing_of_undefined (by rw [hrun])) fun h => hid h.1

end Outcome

/-- After every run of a leecher that puts back pieces of the torrent only, a download is all or
nothing if and only if its response spares the peer. -/
theorem download_allOrNothing_iff {sha1 : BString → Digest} {afterMeta : Nat → BString} {fuel : Nat}
    {torrent md : BString} {us : UploadServer} {s t : PeerState}
    (hmeta : PeerState.loadMeta afterMeta fuel torrent md false us = .ok s) (addrs : List SockAddr)
    {es : List LeecherEvent} (hes : ∀ e ∈ es, PutsBack s.nPieces e)
    (hrun : Machine.run (leech sha1) (some (s.fetchPeers addrs)) es = some (some t)) (a : Attempt)
    {res : Response} (hsend : a.sendRequest (PeerState.pieceRequest a.pieceId) = .ok res) :
    AllOrNothing sha1 a res t ↔ Spared sha1 a res t :=
  allOrNothing_iff (sound_of_run (PeerState.fresh_of_loadMeta hmeta) hes hrun) hsend

theorem letterPiece_loaded : PeerState.loadMeta (fun _ => []) 3 digestOfA.val
    (List.replicate 20 0) false (.ofEmpty []) = .ok letterPiece := rfl

theorem letterTaken_run : Machine.run (leech letterSha1)
    (some (letterPiece.fetchPeers [.ofUid 1])) [.removeTop] = some (some letterTaken) := rfl

/-- The one piece is taken, sent with a bitfield of eight bits, and written. -/
theorem goodAttempt_all : AllOrNothing letterSha1 goodAttempt
    (UploadServer.served ⟨[1], 1⟩ (lit "A")) letterTaken := by
  refine (download_allOrNothing_iff letterPiece_loaded [.ofUid 1] (by simp [PutsBack])
    letterTaken_run goodAttempt rfl).mpr (.inr ⟨by decide, .inr ?_⟩)
  have hcovered : Covered goodAttempt (.ofBstring [1]) letterTaken := by
    rw [Covered]
    decide
  refine ⟨_, receivedBitfield_served ⟨[1], 1⟩ (lit "A"), by decide, fun _ hfailed => ?_,
    fun hnot => absurd hcovered hnot⟩
  cases hfailed

/-- The same piece with a bitfield of no bits. -/
def shortAttempt : Attempt := { goodAttempt with
  sendRequest _ := .ok (UploadServer.served ⟨[], 0⟩ (lit "A")) }

/-- The piece is in the file although the download throws. -/
theorem short_bitfield_half_done :
    PeerState.loadMeta (fun _ => []) 3 digestOfA.val (List.replicate 20 0) false (.ofEmpty []) =
      .ok letterPiece ∧
    Machine.run (leech letterSha1) (some (letterPiece.fetchPeers [.ofUid 1])) [.removeTop] =
      some (some letterTaken) ∧
    ¬ AllOrNothing letterSha1 shortAttempt (UploadServer.served ⟨[], 0⟩ (lit "A")) letterTaken := by
  refine ⟨letterPiece_loaded, letterTaken_run, fun h => ?_⟩
  have hsound : letterTaken.Sound := sound_of_run (PeerState.fresh_of_loadMeta letterPiece_loaded)
    (by simp [PutsBack]) letterTaken_run
  have hvalid : isValid letterSha1 letterTaken.shs shortAttempt.after shortAttempt.pieceId
      (UploadServer.served ⟨[], 0⟩ (lit "A")).body = .ok true := by decide
  have hharmless := (allOrNothing_valid_iff hsound rfl
    (receivedBitfield_served ⟨[], 0⟩ (lit "A")) hvalid (by decide)).mp h
  have hshort : ¬ Covered shortAttempt (.ofBstring []) letterTaken := fun hall =>
    absurd (hall 0 (by decide)) (by decide)
  exact absurd ((hharmless.throws hshort).1 rfl) (by rw [InPlace]; decide)

end P2PFileSharing.Peer
