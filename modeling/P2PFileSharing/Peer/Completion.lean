import P2PFileSharing.Peer.Leeching

/-!
# The end of a run

When all threads of a leecher are through, each piece has been downloaded once or is back in the
set, as long as no response had the wrong hash. The file is the original when none is left there.
-/

namespace P2PFileSharing.Peer

open Http Library
namespace Leecher

variable {ι : Type*} [DecidableEq ι] {n : Nat} {s s' : Leecher ι} {t : ι} {c : Call}

/-- No piece is lost, and none has been downloaded twice. -/
structure Recorded (n : Nat) (s : Leecher ι) : Prop extends s.Sound n where
  downloaded_nodup : s.downloaded.Nodup
  downloaded_lt : ∀ i ∈ s.downloaded, i < n

theorem Recorded.call (h : s.Recorded n) (matching : c ≠ .shaMismatch)
    (hcall : s.call (t, c) = some s') (hdef' : s'.undefined = false) : s'.Recorded n := by
  have hsound' : s'.Sound n := by
    obtain h' | ⟨-, hundefined, -⟩ := h.toSound.call matching hcall
    · exact h'
    · simp [hdef'] at hundefined
  have unchanged (hsame : s'.downloaded = s.downloaded) : s'.Recorded n :=
    ⟨hsound', hsame ▸ h.downloaded_nodup, hsame ▸ h.downloaded_lt⟩
  obtain ⟨-, ⟨e, he, hs⟩ | ⟨i, p, j, rfl, hw, rfl⟩⟩ := step_of_call hcall
  · cases hs with
    | success i updates hw =>
      have hheld : (s.workers t).held = some i := by simp [hw]
      have hlt : i < n := h.held_lt t i hheld
      have hnew : i ∉ s.downloaded := by
        simpa [InPlace] using h.only hlt (p := .held t) hheld .downloaded
      refine ⟨hsound', ?_, fun j hj => ?_⟩
      · have hnodup := List.Nodup.concat hnew h.downloaded_nodup
        rwa [List.concat_eq_append] at hnodup
      · obtain hj | hj := List.mem_append.mp hj
        · exact h.downloaded_lt j hj
        · rwa [List.mem_singleton.mp hj]
    | connect | empty | removeTopOfEmpty | removeTop | shaMismatch | failure | push =>
      exact unchanged rfl
  · exact unchanged rfl

omit [DecidableEq ι] in
/-- Behind the last thread, a piece has been downloaded or is in the set. -/
theorem Recorded.perm (h : s.Recorded n)
    (hexited : ∀ t, ∃ drained, s.workers t = .exited drained) :
    (s.downloaded ++ s.pieces.pieceSet).Perm (List.range n) := by
  have hdisjoint : s.downloaded.Disjoint s.pieces.pieceSet := fun i hi hqueued => by
    have honly := (h.only (h.downloaded_lt i hi) (p := .downloaded) hi .queued).mp hqueued
    cases honly
  refine (List.perm_ext_iff_of_nodup (h.downloaded_nodup.append h.nodup hdisjoint)
    List.nodup_range).mpr fun i => ?_
  rw [List.mem_append, List.mem_range]
  refine ⟨fun hi => hi.elim (h.downloaded_lt i) (h.queued_lt i), fun hi => ?_⟩
  obtain ⟨p, hp, -⟩ := h.conserved.2 i hi
  cases p with
  | queued => exact .inr hp
  | held t =>
    obtain ⟨drained, ht⟩ := hexited t
    simp [InPlace, ht] at hp
  | downloaded => exact .inl hp

theorem recorded_of_run {nPieces : Nat} {cs : List (ι × Call)}
    (matching : ∀ c ∈ cs, c.2 ≠ .shaMismatch)
    (hrun : Machine.run Leecher.call (initial nPieces) cs = some s)
    (hdef : s.undefined = false) : s.Recorded nPieces := by
  refine Machine.run_invariant_of
    (P := fun s : Leecher ι => s.undefined = false → s.Recorded nPieces)
    (fun u c v hu hc hcall hv => ?_)
    (fun _ => ⟨initial_sound nPieces, List.nodup_nil, by simp [initial]⟩) matching hrun hdef
  exact (hu (step_of_call hcall).1).call hc hcall hv

/-- Nobody puts a piece back, and who has found the set empty would find it so again. -/
structure Draining (s : Leecher ι) : Prop where
  none_back : ∀ t i, s.workers t ≠ .pushingBack i
  drained : ∀ t, s.workers t = .exited true → s.pieces.pieceSet = []

omit [DecidableEq ι] in
theorem initial_draining (nPieces : Nat) : (initial nPieces : Leecher ι).Draining :=
  ⟨fun t i => by simp [initial], fun t ht => by simp [initial] at ht⟩

theorem Draining.setWorker (h : s.Draining) {w : Worker} (hback : ∀ i, w ≠ .pushingBack i)
    (hdrained : w = .exited true → s.pieces.pieceSet = []) : (s.setWorker t w).Draining := by
  refine ⟨fun u i => ?_, fun u hu => ?_⟩
  · by_cases hut : u = t
    · subst hut
      simpa using hback i
    · rw [setWorker_of_ne s w hut]
      exact h.none_back u i
  · by_cases hut : u = t
    · subst hut
      exact hdrained (by simpa using hu)
    · rw [setWorker_of_ne s w hut] at hu
      exact h.drained u hu

theorem Draining.call (h : s.Draining) (hc : c ≠ .failed) (hcall : s.call (t, c) = some s') :
    s'.Draining := by
  have empty_of (updates : List (Nat × Int)) (hnil : s.pieces.pieceSet = []) :
      (s.pieces.updatePriorities updates).pieceSet = [] :=
    List.eq_nil_iff_forall_not_mem.mpr fun i hi => by
      have hmem := ((TsafeSet.updatePriorities_spec (by simp [hnil]) updates).2 i).mp hi
      simp [hnil] at hmem
  have hpieces {pieces : TsafeSet} (downloaded : List Nat)
      (hnil : s.pieces.pieceSet = [] → pieces.pieceSet = []) :
      Draining { s with pieces, downloaded } :=
    ⟨h.none_back, fun u hu => hnil (h.drained u hu)⟩
  obtain ⟨-, ⟨e, he, hs⟩ | ⟨i, p, j, rfl, hw, rfl⟩⟩ := step_of_call hcall
  · cases hs with
    | connect connected hw =>
      exact h.setWorker (by cases connected <;> simp) (by cases connected <;> simp)
    | empty hw =>
      refine h.setWorker (by split <;> simp) fun hexited => ?_
      split at hexited
      next hempty => simpa [TsafeSet.empty] using hempty
      next => cases hexited
    | removeTopOfEmpty hw hnone => exact ⟨h.none_back, h.drained⟩
    | removeTop i pieces hw htop =>
      have hset := (TsafeSet.removeTop_eq_some.mp htop).1
      exact (hpieces s.downloaded (by simp [hset])).setWorker (by simp) (by simp)
    | success i updates hw =>
      exact (hpieces _ (empty_of updates)).setWorker (by simp) (by simp)
    | shaMismatch i hw => exact h.setWorker (by simp) (by simp)
    | failure i updates hw =>
      cases c <;> cases he
      exact absurd rfl hc
    | push i hw => exact absurd hw (h.none_back t i)
  · exact hpieces s.downloaded (empty_of [(i, p)])

end Leecher

namespace Threads

variable {ι κ : Type*} [DecidableEq ι] [DecidableEq κ] {sha1 : BString → Digest}
  {serverIds : ι → Int} {pieceIds : κ → Int} {s' : Threads ι κ} {es : List (PeerEvent ι κ)}
  {original : BString}

omit [DecidableEq ι] [DecidableEq κ] in
theorem leecher_initial {us : UploadServer} {peer : PeerState} (hfresh : peer.Fresh us)
    (addrs : List SockAddr) : (initial (peer.fetchPeers addrs) : Threads ι κ).leecher =
      Leecher.initial peer.nPieces := by
  rw [leecher, Leecher.initial, ← hfresh.pieces_eq]
  rfl

/-- Every interleaving of what the threads of a leecher do, with the requests, the file, the data of
the neighbours and the upload server, is a run of the locked calls of `downloader_routine`. -/
theorem run_is_run_of_routine {after : Nat → BString} {fuel : Nat} {torrent md : BString}
    {us : UploadServer} {s : PeerState}
    (hmeta : PeerState.loadMeta after fuel torrent md false us = .ok s) (addrs : List SockAddr)
    (hrun : Machine.run (Threads.step sha1 serverIds pieceIds) (initial (s.fetchPeers addrs)) es =
      some s')
    (hdef : s'.undefined = false) :
    Machine.run Leecher.call (Leecher.initial s.nPieces)
      (Machine.log (Threads.step sha1 serverIds pieceIds) (calls sha1 serverIds)
        (initial (s.fetchPeers addrs)) es) = some s'.leecher := by
  have hleecher := leecher_run hrun hdef
  rwa [leecher_initial (PeerState.fresh_of_loadMeta hmeta)] at hleecher

omit [DecidableEq ι] [DecidableEq κ] in
/-- What the one thread has done. -/
theorem onePieceRun_of_routine : Machine.run Leecher.call (Leecher.initial 1)
    [((), .connect true), ((), .empty), ((), .removeTop), ((), .updatePriority 0 1),
      ((), .returned), ((), .empty)] = some onePieceEnd.leecher :=
  run_is_run_of_routine onePiece_loaded [.ofUid 1] onePieceRun_ends rfl

/-- The calls of `downloader_routine` that a run amounts to, without the threads. -/
def callsMade (sha1 : BString → Digest) (serverIds : ι → Int) (pieceIds : κ → Int)
    (s : Threads ι κ) (es : List (PeerEvent ι κ)) : List Call :=
  (Machine.log (Threads.step sha1 serverIds pieceIds) (calls sha1 serverIds) s es).map Prod.snd

theorem forall_calls_ne {s : Threads ι κ} {c : Call}
    (h : c ∉ callsMade sha1 serverIds pieceIds s es) :
    ∀ x ∈ Machine.log (Threads.step sha1 serverIds pieceIds) (calls sha1 serverIds) s es,
      x.2 ≠ c := by
  rintro x hx rfl
  exact h (List.mem_map_of_mem hx)

section Exited

variable {after : Nat → BString} {md : Digest} {buf : BString} {s : PeerState} {us : UploadServer}
  {addrs : List SockAddr}

/-- Behind the last thread of a run without a hash mismatch, each piece is where it belongs. -/
theorem perm_of_exited (hfresh : s.Fresh us)
    (hrun : Machine.run (Threads.step sha1 serverIds pieceIds) (initial (s.fetchPeers addrs)) es =
      some s')
    (hdef : s'.undefined = false)
    (matching : (.shaMismatch : Call) ∉ callsMade sha1 serverIds pieceIds
      (initial (s.fetchPeers addrs)) es)
    (hexited : ∀ t, ∃ drained, s'.points t = .exited drained) :
    (s'.downloaded ++ s'.peer.pieces.pieceSet).Perm (List.range s.nPieces) := by
  have hleecher := leecher_run hrun hdef
  rw [leecher_initial hfresh] at hleecher
  have hrecorded : s'.leecher.Recorded s.nPieces :=
    Leecher.recorded_of_run (forall_calls_ne matching) hleecher hdef
  refine hrecorded.perm fun t => ?_
  obtain ⟨drained, ht⟩ := hexited t
  exact ⟨drained, congrArg Point.worker ht⟩

/-- In a run in which no download fails, a set that was found empty stays so. -/
theorem pieceSet_of_drained (hfresh : s.Fresh us)
    (hrun : Machine.run (Threads.step sha1 serverIds pieceIds) (initial (s.fetchPeers addrs)) es =
      some s')
    (hdef : s'.undefined = false)
    (succeeds : (.failed : Call) ∉ callsMade sha1 serverIds pieceIds
      (initial (s.fetchPeers addrs)) es)
    (hdrained : ∃ t, s'.points t = .exited true) : s'.peer.pieces.pieceSet = [] := by
  have hleecher := leecher_run hrun hdef
  rw [leecher_initial hfresh] at hleecher
  have hdraining : s'.leecher.Draining :=
    Machine.run_invariant_of (fun u c v hu hc hcall => hu.call hc hcall)
      (Leecher.initial_draining s.nPieces) (forall_calls_ne succeeds) hleecher
  obtain ⟨t, ht⟩ := hdrained
  exact hdraining.drained t (congrArg Point.worker ht)

omit [DecidableEq ι] [DecidableEq κ] in
/-- A file with all pieces is the original. -/
theorem Assembles.eq_of_perm {ids : Nat → Prop} (h : s'.Assembles original ids)
    (hworks : s'.peer.us.tsfs.failed = false)
    (hall : s'.downloaded.Perm (List.range (chunkCount pieceLength original))) :
    s'.peer.us.tsfs.content = original := by
  refine h.file.eq_of_forall (by decide) fun i hi => ?_
  have hdone := h.downloaded i (hall.mem_iff.mpr (List.mem_range.mpr hi))
  exact hdone.resolve_left (by simp [hworks])

/-- When all threads are through, after a run without a hash mismatch, each piece has been
downloaded once or is in the set; and without a piece in the set, the file is the original, if the
stream has not failed. The set is empty if no download has failed and one thread has found it so. -/
theorem pieces_of_exited (hzero : ∀ i < chunkCount pieceLength original,
      0 ∉ (sha1 (chunk pieceLength i original)).val)
    (hmeta : Converges (fun fuel => PeerState.loadMeta after fuel
      (digests sha1 pieceLength original) md.val false (.ofEmpty buf)) (.ok s))
    (addrs : List SockAddr) (hes : ∀ e ∈ es, ¬ e.Collides sha1 original)
    (hrun : Machine.run (Threads.step sha1 serverIds pieceIds) (initial (s.fetchPeers addrs)) es =
      some s')
    (hdef : s'.undefined = false)
    (matching : (.shaMismatch : Call) ∉ callsMade sha1 serverIds pieceIds
      (initial (s.fetchPeers addrs)) es)
    (hexited : ∀ t, ∃ drained, s'.points t = .exited drained) :
    (s'.downloaded ++ s'.peer.pieces.pieceSet).Perm (List.range s.nPieces) ∧
    (s'.peer.pieces.pieceSet = [] → s'.peer.us.tsfs.failed = false →
      s'.peer.us.tsfs.content = original) ∧
    ((.failed : Call) ∉ callsMade sha1 serverIds pieceIds (initial (s.fetchPeers addrs)) es →
      (∃ t, s'.points t = .exited true) → s'.peer.pieces.pieceSet = []) := by
  have hfresh : s.Fresh (.ofEmpty buf) := by
    obtain ⟨n, hn⟩ := hmeta
    exact PeerState.fresh_of_loadMeta (hn n le_rfl)
  have hperm := perm_of_exited hfresh hrun hdef matching hexited
  refine ⟨hperm, fun hnil hworks => ?_, pieceSet_of_drained hfresh hrun hdef⟩
  obtain ⟨-, ids, hfile⟩ := sound_and_assembles hzero hmeta addrs hes hrun
  have hcount : s.nPieces = chunkCount pieceLength original :=
    hfresh.nPieces_eq.trans (recognises_of_loadMeta hzero hmeta).length_eq
  rw [hnil, List.append_nil, hcount] at hperm
  exact hfile.eq_of_perm hworks hperm

end Exited

/-- The one thread has downloaded the one piece, and the file is complete. -/
theorem onePiece_complete : onePieceEnd.peer.us.tsfs.content = [7] := by
  have hcalls : callsMade sampleSha1 (fun _ => 1) (fun _ => 0)
      (initial (onePiece.fetchPeers [.ofUid 1])) onePieceRun =
        [.connect true, .empty, .removeTop, .updatePriority 0 1, .returned, .empty] := by decide
  obtain ⟨-, hfile, hnone⟩ := pieces_of_exited sevens_without_zero
    sevens_loaded [.ofUid 1] onePieceRun_without_collision onePieceRun_ends rfl
    (by simp [hcalls]) fun _ => ⟨true, rfl⟩
  exact hfile (hnone (by simp [hcalls]) ⟨(), rfl⟩) rfl

end Threads

end P2PFileSharing.Peer
