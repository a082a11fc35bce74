import P2PFileSharing.Peer.Completion
import P2PFileSharing.Peer.SharedStream
import P2PFileSharing.Peer.Uploads

/-!
# A leecher among seeders

The upload server of a seeder answers with the bytes of the piece, and with a bitfield that has a
bit for every piece. A leecher whose neighbours are seeders of its file takes each answer: in every
interleaving no download fails, and when the threads are through, the file is complete.
-/

namespace P2PFileSharing.Peer

open Http Library

/-! ## What a seeder answers -/

section Answer

variable {bf : Bitfield} {content : BString} {i n : Nat}

theorem reply_pieceRequest (bf : Bitfield) (hi : i < 2 ^ 31)
    (hin : i * pieceLength < content.length) :
    reply bf content (PeerState.pieceRequest i) =
      UploadServer.served bf (chunk pieceLength i content) := by
  rw [reply, requestedPiece_pieceRequest hi]
  exact if_pos hin

/-- The bitfield of a seeder comes with a bit for every piece. -/
theorem le_size_of_seeder (hn : 1 ≤ n) (hmax : n ≤ 2 ^ 31 - 8)
    (hbf : Bitfield.holding n (List.range n) = .ok bf) :
    (n : Int) ≤ (Bitfield.ofBstring bf.container).size := by
  obtain ⟨hlen, -⟩ := bytes_of_seeder hn hbf
  rw [size_ofBstring, toInt32_eq_self] <;> omega

end Answer

/-! ## The bitfields on the way -/

/-- The bitfields that a thread works with have a bit for every piece. -/
def Point.Wide (nPieces : Nat) : Point → Prop
  | .writing _ _ bf | .lookingUp _ bf => (nPieces : Int) ≤ bf.size
  | .counting _ bf oldbf _ | .updating _ bf oldbf _ _ =>
    (nPieces : Int) ≤ bf.size ∧ (nPieces : Int) ≤ oldbf.size
  | _ => True

/-- No download has come to nothing. -/
def Call.Succeeds : Call → Prop
  | .shaMismatch | .failed => False
  | _ => True

namespace Threads

variable {ι κ : Type*} [DecidableEq ι] {sha1 : BString → Digest} {serverIds : ι → Int}
  {s s' : Threads ι κ} {t : ι} {c : ThreadCall} {cs : List Call} {shs : List BString}
  {original : BString} {bf : Bitfield} {after : Nat → BString}

/-- What a neighbour answers is the reply of a seeder of the file, and the memory behind the digest
of it is like that behind the digest of the torrent. -/
def FromSeeder (bf : Bitfield) (original : BString) (after : Nat → BString) (s : Threads ι κ) :
    PeerEvent ι κ → Prop
  | .thread t (.sendRequest answer after') => ∀ i, s.points t = .requesting i →
    answer = .ok (reply bf original (PeerState.pieceRequest i)) ∧
      upToZero (after i) = upToZero after'
  | _ => True

/-- Every answer would be taken. -/
def Taken (sha1 : BString → Digest) (original : BString) (s : Threads ι κ) :
    PeerEvent ι κ → Prop
  | .thread t (.sendRequest answer after) => ∀ i, s.points t = .requesting i →
    ∃ res bf, answer = .ok res ∧ receivedBitfield res = .ok bf ∧
      isValid sha1 s.peer.shs after i res.body = .ok true ∧
      res.body = chunk pieceLength i original ∧ (s.peer.nPieces : Int) ≤ bf.size
  | _ => True

omit [DecidableEq ι] in
theorem Taken.genuine {e : PeerEvent ι κ} (h : s.Taken sha1 original e) :
    s.Genuine sha1 original e := by
  unfold Genuine
  split
  next t res after =>
    intro i hp _
    obtain ⟨res', bf, hanswer, -, -, hbody, -⟩ := h i hp
    cases hanswer
    exact hbody
  next => trivial

omit [DecidableEq ι] in
/-- The bytes of a piece of the file are not nothing. -/
theorem Taken.filled {e : PeerEvent ι κ} (h : s.Taken sha1 original e) (hsound : s.Sound shs)
    (hcount : shs.length = chunkCount pieceLength original) : s.Filled sha1 e := by
  unfold Filled
  split
  next t res after =>
    intro i hp _
    have hi : i < shs.length := (hsound.point hp).held_lt i rfl
    have hstart : i * pieceLength < original.length := (lt_chunkCount (by decide)).mp (hcount ▸ hi)
    obtain ⟨res', bf, hanswer, -, -, hbody, -⟩ := h i hp
    cases hanswer
    rw [hbody, Ne, chunk_eq_nil_iff (by decide)]
    omega
  next => trivial

/-- The stored bitfields, and those on the way, have a bit for every piece. -/
structure Supplied (serverIds : ι → Int) (s : Threads ι κ) : Prop where
  points : ∀ t, (s.points t).Wide s.peer.nPieces
  stored : ∀ t, (s.peer.nPieces : Int) ≤ (s.peer.storedBitfield (serverIds t)).size

omit [DecidableEq ι] in
theorem Supplied.point (h : s.Supplied serverIds) {p : Point} (hat : s.points t = p) :
    p.Wide s.peer.nPieces :=
  hat ▸ h.points t

theorem Supplied.goTo (h : s.Supplied serverIds) {p : Point} (hp : p.Wide s.peer.nPieces) :
    (s.goTo t p).Supplied serverIds :=
  ⟨forall_goTo h.points hp, h.stored⟩

omit [DecidableEq ι] in
/-- An answer that would be taken is going to be written. -/
theorem Taken.checkAnswer_run {answer : Except Fault Response} {after' : BString} {i : Nat}
    (h : s.Taken sha1 original (.thread t (.sendRequest answer after')))
    (hp : s.points t = .requesting i) :
    ∃ piece bf, checkAnswer sha1 i answer after' s.peer = (.ok (.writing i piece bf), s.peer) := by
  obtain ⟨res, bf, rfl, hfield, hvalid, -⟩ := h i hp
  refine ⟨res.body, bf, ?_⟩
  simp only [checkAnswer, Action.ofExcept_ok_bind_run, hfield, Except.mapError,
    Action.get_bind_run, hvalid]
  rfl

omit [DecidableEq ι] in
/-- The loop over the bits does not run out of them. -/
theorem Supplied.seen_readPriority (h : s.Supplied serverIds) {k i : Nat} {bf oldbf : Bitfield}
    (hp : s.points t = .counting k bf oldbf i) {call : Call}
    (hcall : call ∈ seen (readPriority k bf oldbf i s.peer).1) : call.Succeeds := by
  obtain ⟨-, hrun⟩ | ⟨hi, hreach, -⟩ | ⟨-, -, hrun⟩ := readPriority_cases k bf oldbf i s.peer
  · rw [hrun] at hcall
    obtain rfl : call = .returned := List.mem_singleton.mp hcall
    trivial
  · obtain ⟨hbf, hold⟩ := h.point hp
    exact absurd ⟨by omega, by omega⟩ hreach
  · rw [hrun] at hcall
    rcases hpriority : PeerState.newPriority (s.peer.pieces.piecesPriority i) (bf.test i)
      (oldbf.test i) with f | q
    · rw [hpriority, newPriority_error hpriority] at hcall
      cases hcall
    · rw [hpriority] at hcall
      cases hcall

omit [DecidableEq ι] in
/-- No step of a download throws, if its answer would be taken. -/
theorem Supplied.seen_inDownload {pieceIds : κ → Nat} (h : s.Supplied serverIds)
    (hsteady : s.Steady pieceIds) (hsound : s.Sound shs)
    (htaken : s.Taken sha1 original (.thread t c)) {k : Nat} {x : Action PeerState Fault Point}
    (hx : inDownload sha1 (serverIds t) (s.points t) c = some (k, x)) {call : Call}
    (hcall : call ∈ seen (x s.peer).1) : call.Succeeds := by
  generalize hp : s.points t = p at hx
  unfold inDownload at hx
  split at hx
  next i answer after' =>
    cases hx
    obtain ⟨piece, bf, hrun⟩ := htaken.checkAnswer_run hp
    rw [hrun] at hcall
    cases hcall
  next i piece bf =>
    cases hx
    have hi : k < shs.length := (hsound.point hp).held_lt k rfl
    have hwrite := hsteady.writePiece_eq (UploadServer.mul_pieceLength_lt (hsound.id_lt hi)) piece
    rw [Action.bind_of_ok (onTsfs_of hwrite)] at hcall
    cases hcall
  next i bf =>
    cases hx
    cases hcall
  next i bf oldbf j =>
    cases hx
    exact h.seen_readPriority hp hcall
  next i bf oldbf j q =>
    cases hx
    cases hcall
  next => cases hx

omit [DecidableEq ι] in
theorem Supplied.succeeds {pieceIds : κ → Nat} (h : s.Supplied serverIds)
    (hsteady : s.Steady pieceIds) (hsound : s.Sound shs)
    (htaken : s.Taken sha1 original (.thread t c)) {call : Call}
    (hcall : call ∈ s.callsOf sha1 serverIds t c) : call.Succeeds := by
  have single {d : Call} (hcall : call ∈ [d]) (hd : d.Succeeds) : call.Succeeds :=
    List.mem_singleton.mp hcall ▸ hd
  unfold callsOf at hcall
  split at hcall
  next => exact single hcall trivial
  next => exact single hcall trivial
  next => exact single hcall trivial
  next => exact single hcall trivial
  next => exact single hcall trivial
  next c _ _ _ _ _ _ _ =>
    rcases hx : inDownload sha1 (serverIds t) (s.points t) c with _ | ⟨k, x⟩
    · rw [hx] at hcall
      cases hcall
    · rw [hx, Option.elim_some] at hcall
      exact h.seen_inDownload hsteady hsound htaken hx hcall

/-- A thread goes on with bitfields that have a bit for every piece. -/
theorem Supplied.move (h : s.Supplied serverIds) (htaken : s.Taken sha1 original (.thread t c))
    (hmove : Move sha1 serverIds s t c cs s') : s'.Supplied serverIds := by
  cases hmove with
  | connect connected hp => exact h.goTo (by cases connected <;> trivial)
  | empty hp => exact h.goTo (by split <;> trivial)
  | removeTop i pieces hp htop =>
    have hset : (s.setPieces pieces).Supplied serverIds := ⟨h.points, h.stored⟩
    exact hset.goTo trivial
  | received i res after bf hp hfield hvalid =>
    obtain ⟨res', bf', hanswer, hfield', -, -, hwide⟩ := htaken i hp
    cases hanswer
    obtain rfl : bf' = bf := Except.ok.inj (hfield'.symm.trans hfield)
    exact h.goTo hwide
  | written i piece bf fs hp hwrite =>
    have hset : (s.setTsfs fs).Supplied serverIds := ⟨h.points, h.stored⟩
    have hwide : (s.peer.nPieces : Int) ≤ bf.size := h.point hp
    exact hset.goTo hwide
  | lookedUp i bf hp =>
    have hset : (s.setPeer (s.peer.lookedUp (serverIds t))).Supplied serverIds :=
      ⟨h.points, fun u => by
        rw [show (s.setPeer (s.peer.lookedUp (serverIds t))).peer.storedBitfield (serverIds u) =
          s.peer.storedBitfield (serverIds u) from
            PeerState.storedBitfield_lookUp s.peer (serverIds t) (serverIds u)]
        exact h.stored u⟩
    exact hset.goTo ⟨h.point hp, h.stored t⟩
  | counted i bf oldbf k p hp hmore hreach hpriority =>
    have hwide : (s.peer.nPieces : Int) ≤ bf.size ∧ (s.peer.nPieces : Int) ≤ oldbf.size :=
      h.point hp
    exact h.goTo hwide
  | returned i bf oldbf k hp hthrough =>
    have hset : Supplied serverIds { s with downloaded := s.downloaded ++ [i] } :=
      ⟨h.points, h.stored⟩
    exact hset.goTo trivial
  | updated i bf oldbf k p hp =>
    have hset : (s.setPieces (s.peer.pieces.updatePriority k p)).Supplied serverIds :=
      ⟨h.points, h.stored⟩
    have hwide : (s.peer.nPieces : Int) ≤ bf.size ∧ (s.peer.nPieces : Int) ≤ oldbf.size :=
      h.point hp
    exact hset.goTo hwide
  | unwritten i piece bf fs hp hwrite =>
    have hset : (s.setTsfs fs).Supplied serverIds := ⟨h.points, h.stored⟩
    exact hset.goTo trivial
  | push i hp =>
    have hset : (s.setPieces (s.peer.pieces.push i)).Supplied serverIds := ⟨h.points, h.stored⟩
    exact hset.goTo trivial
  | mismatched | failed => exact h.goTo trivial
  | removeTopOfEmpty | unchecked | overflowed => exact ⟨h.points, h.stored⟩

omit [DecidableEq ι] in
/-- `fetch_peers` stores a bit for every piece with each address. -/
theorem initial_supplied {us : UploadServer} {peer : PeerState} (hfresh : peer.Fresh us)
    {addrs : List SockAddr} (hlisted : ∀ t, ∃ a ∈ addrs, a.uid = serverIds t) :
    (initial (peer.fetchPeers addrs) : Threads ι κ).Supplied serverIds := by
  refine ⟨fun _ => trivial, fun t => ?_⟩
  have hmem : serverIds t ∈ (peer.fetchPeers addrs).ndata :=
    OrdMap.mem_foldl_insert.mpr (.inl (hlisted t))
  obtain ⟨data, hdata⟩ := OrdMap.mem_iff_exists.mp hmem
  change (peer.nPieces : Int) ≤ ((peer.fetchPeers addrs).storedBitfield (serverIds t)).size
  rw [PeerState.storedBitfield, hdata]
  obtain ⟨a, -, -, rfl⟩ | hinit := OrdMap.exists_of_find?_foldl_insert hdata
  · have hlt := hfresh.nPieces_lt
    have hsize : toInt32 peer.nPieces = peer.nPieces := toInt32_eq_self (by omega) (by omega)
    rw [Option.getD_some, Bitfield.ofCount, hsize]
  · simp [hfresh.ndata_eq] at hinit

/-- What holds in a run among seeders, after the calls `past`. -/
structure AmongSeeders (shs : List BString) (original : BString) (serverIds : ι → Int)
    (pieceIds : κ → Nat) (s : Threads ι κ) (past : List (ι × Call)) : Prop where
  sound : s.Sound shs
  file : ∃ ids, s.Assembles original ids
  steady : s.Steady pieceIds
  supplied : s.Supplied serverIds
  succeeds : ∀ x ∈ past, x.2.Succeeds

section Run

variable [DecidableEq κ] {pieceIds : κ → Nat} {e : PeerEvent ι κ} {es : List (PeerEvent ι κ)}
  {past : List (ι × Call)}

theorem AmongSeeders.step (h : s.AmongSeeders shs original serverIds pieceIds past)
    (hshs : Recognises sha1 original shs) (hids : ∀ k, pieceIds k < 2 ^ 31)
    (htaken : s.Taken sha1 original e)
    (hstep : s.step sha1 serverIds (fun k => pieceIds k) e = some s') :
    s'.AmongSeeders shs original serverIds pieceIds (past ++ s.calls sha1 serverIds e) := by
  obtain ⟨ids, hfile⟩ := h.file
  refine ⟨h.sound.step hstep, hfile.step h.sound hshs htaken.genuine hstep,
    h.steady.step hids h.sound (htaken.filled h.sound hshs.length_eq) hstep, ?_, fun x hx => ?_⟩
  · obtain ⟨-, ⟨t, c, rfl, hmove⟩ | ⟨k, -, -, rfl⟩⟩ := step_cases hstep
    · exact h.supplied.move htaken hmove
    · exact ⟨h.supplied.points, h.supplied.stored⟩
  · obtain hx | hx := List.mem_append.mp hx
    · exact h.succeeds x hx
    · cases e with
      | thread t c =>
        obtain ⟨call, hcall, rfl⟩ := List.mem_map.mp hx
        exact h.supplied.succeeds h.steady h.sound htaken hcall
      | read k => cases hx

end Run

section Torrent

variable {md : Digest} {buf : BString} {peer : PeerState}

omit [DecidableEq ι] in
/-- The replies of seeders are taken. -/
theorem FromSeeder.taken (hzero : ∀ i < chunkCount pieceLength original,
      0 ∉ (sha1 (chunk pieceLength i original)).val)
    (hmeta : Converges (fun fuel => PeerState.loadMeta after fuel
      (digests sha1 pieceLength original) md.val false (.ofEmpty buf)) (.ok peer))
    (hmax : chunkCount pieceLength original ≤ 2 ^ 31 - 8)
    (hbf : Bitfield.holding (chunkCount pieceLength original)
      (List.range (chunkCount pieceLength original)) = .ok bf)
    (hsound : s.Sound peer.shs) {e : PeerEvent ι κ} (h : s.FromSeeder bf original after e) :
    s.Taken sha1 original e := by
  have hcount : peer.shs.length = chunkCount pieceLength original :=
    (recognises_of_loadMeta hzero hmeta).length_eq
  unfold Taken
  split
  next t answer after' =>
    intro i hp
    obtain ⟨rfl, hbehind⟩ := h i hp
    have hheld : i < peer.shs.length := (hsound.point hp).held_lt i rfl
    have hi : i < chunkCount pieceLength original := hcount ▸ hheld
    have hsame : ofPointer (sha1 (chunk pieceLength i original)).val (after i) =
        ofPointer (sha1 (chunk pieceLength i original)).val after' :=
      (ofPointer_eq_iff rfl).mpr (.inr ⟨hzero i hi, rfl, hbehind⟩)
    refine ⟨_, _, congrArg Except.ok (reply_pieceRequest bf (hsound.id_lt hheld)
      ((lt_chunkCount (by decide)).mp hi)), receivedBitfield_served bf _, ?_, rfl, ?_⟩
    · rw [hsound.shs_eq, isValid_digests hmeta hi]
      exact congrArg Except.ok (decide_eq_true hsame)
    · rw [hsound.nPieces_eq, hcount]
      exact le_size_of_seeder (by omega) hmax hbf
  next => trivial

variable [DecidableEq κ] {pieceIds : κ → Nat} {es : List (PeerEvent ι κ)} {addrs : List SockAddr}

/-- When all neighbours that the tracker has listed are seeders of the file, no download comes to
nothing, however the threads of the leecher take turns; and when all threads are through and one of
them has found the set empty, each piece has been downloaded once, and the file is the original. -/
theorem file_from_seeders (hzero : ∀ i < chunkCount pieceLength original,
      0 ∉ (sha1 (chunk pieceLength i original)).val)
    (hmeta : Converges (fun fuel => PeerState.loadMeta after fuel
      (digests sha1 pieceLength original) md.val false (.ofEmpty buf)) (.ok peer))
    (hmax : chunkCount pieceLength original ≤ 2 ^ 31 - 8)
    (hbf : Bitfield.holding (chunkCount pieceLength original)
      (List.range (chunkCount pieceLength original)) = .ok bf)
    (hlisted : ∀ t, ∃ a ∈ addrs, a.uid = serverIds t) (hids : ∀ k, pieceIds k < 2 ^ 31)
    (hserved : Machine.AllSteps (Threads.step sha1 serverIds fun k => pieceIds k)
      (FromSeeder bf original after) (initial (peer.fetchPeers addrs)) es)
    (hrun : Machine.run (Threads.step sha1 serverIds fun k => pieceIds k)
      (initial (peer.fetchPeers addrs)) es = some s')
    (hdef : s'.undefined = false) :
    (∀ call ∈ callsMade sha1 serverIds (fun k => pieceIds k) (initial (peer.fetchPeers addrs)) es,
      call ≠ .shaMismatch ∧ call ≠ .failed) ∧
    ((∀ t, ∃ drained, s'.points t = .exited drained) → (∃ t, s'.points t = .exited true) →
      s'.downloaded.Perm (List.range peer.nPieces) ∧
        s'.peer.us.tsfs.content = original) := by
  have hshs : Recognises sha1 original peer.shs := recognises_of_loadMeta hzero hmeta
  have hfresh : peer.Fresh (.ofEmpty buf) := by
    obtain ⟨n, hn⟩ := hmeta
    exact PeerState.fresh_of_loadMeta (hn n le_rfl)
  have hstart : (initial (peer.fetchPeers addrs) : Threads ι κ).AmongSeeders peer.shs original
      serverIds pieceIds [] :=
    ⟨initial_sound hfresh addrs, ⟨_, initial_assembles hfresh original addrs⟩,
      initial_steady hfresh addrs, initial_supplied hfresh hlisted, by simp⟩
  have hend : s'.AmongSeeders peer.shs original serverIds pieceIds ([] ++ Machine.log
      (Threads.step sha1 serverIds fun k => pieceIds k) (calls sha1 serverIds)
      (initial (peer.fetchPeers addrs)) es) :=
    Machine.run_log_invariant_of (fun u e v past hu hseeder hstep =>
      hu.step hshs hids (hseeder.taken hzero hmeta hmax hbf hu.sound) hstep) hstart hserved hrun
  have hsucceeds (call : Call) (hcall : call ∈ callsMade sha1 serverIds (fun k => pieceIds k)
      (initial (peer.fetchPeers addrs)) es) : call.Succeeds := by
    obtain ⟨x, hx, rfl⟩ := List.mem_map.mp hcall
    exact hend.succeeds x (by simpa using hx)
  refine ⟨fun call hcall => ⟨?_, ?_⟩, fun hexited hdrained => ?_⟩
  · rintro rfl
    exact hsucceeds _ hcall
  · rintro rfl
    exact hsucceeds _ hcall
  · obtain ⟨ids, hfile⟩ := hend.file
    have hnil := pieceSet_of_drained hfresh hrun hdef (hsucceeds .failed) hdrained
    have hperm := perm_of_exited hfresh hrun hdef (hsucceeds .shaMismatch) hexited
    rw [hnil, List.append_nil] at hperm
    have hcount : peer.nPieces = chunkCount pieceLength original :=
      hfresh.nPieces_eq.trans hshs.length_eq
    exact ⟨hperm, hfile.eq_of_perm hend.steady.running (hcount ▸ hperm)⟩

end Torrent

/-- What the one neighbour answers in `onePieceRun` is the reply of a seeder. -/
theorem onePieceRun_fromSeeder : Machine.AllSteps (Threads.step sampleSha1 (fun _ => 1) fun _ => 0)
    (FromSeeder ⟨[1], 1⟩ [7] fun _ => []) (initial (onePiece.fetchPeers [.ofUid 1]))
    onePieceRun := by
  have hreply : reply ⟨[1], 1⟩ [7] (PeerState.pieceRequest 0) = UploadServer.served ⟨[1], 1⟩ [7] :=
    reply_pieceRequest _ (by decide) (by decide)
  -- up to the request, the state is needed: the thread asks for piece 0
  iterate 3
    refine fun _ h => ⟨trivial, ?_⟩
    cases h
  refine fun _ _ => ⟨fun i hp => ?_, ?_⟩
  · cases hp
    exact ⟨congrArg Except.ok hreply.symm, rfl⟩
  · iterate 8 refine fun _ _ => ⟨trivial, ?_⟩
    trivial

/-- The one thread has got the file from the one seeder. -/
theorem onePiece_from_seeder :
    onePieceEnd.downloaded.Perm (List.range 1) ∧ onePieceEnd.peer.us.tsfs.content = [7] :=
  (file_from_seeders sevens_without_zero sevens_loaded (by decide) rfl
    (fun _ => ⟨.ofUid 1, List.mem_singleton_self _, rfl⟩) (fun _ => (by decide : 0 < 2 ^ 31))
    onePieceRun_fromSeeder onePieceRun_ends rfl).2 (fun _ => ⟨true, rfl⟩) ⟨(), rfl⟩

end Threads

end P2PFileSharing.Peer
