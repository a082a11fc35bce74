import P2PFileSharing.Peer.AllOrNothing
import P2PFileSharing.Peer.Threads
import P2PFileSharing.Peer.Torrent

/-!
# Whole runs of a leecher

What holds in every interleaving of the download threads and the handler threads, whatever the
neighbours answer: the file has pieces of the original only, each in its place.
-/

namespace P2PFileSharing.Peer

open Http Library

/-! ## What the torrent says -/

section Torrent

variable {sha1 : BString → Digest} {original : BString} {shs : List BString}

/-- The digests are those of the pieces of the file, and a piece that passes the check has the
digest of the piece it is to be. -/
structure Recognises (sha1 : BString → Digest) (original : BString) (shs : List BString) :
    Prop where
  length_eq : shs.length = chunkCount pieceLength original
  digest_eq : ∀ i < shs.length, ∀ after body, isValid sha1 shs after i body = .ok true →
    (sha1 body).val = (sha1 (chunk pieceLength i original)).val

variable {after : Nat → BString} {md : Digest} {seeder : Bool} {us : UploadServer} {s : PeerState}

/-- The digests of a generated torrent, as `load_meta` stores them. -/
theorem shs_of_digests (hmeta : Converges (fun fuel => PeerState.loadMeta after fuel
      (digests sha1 pieceLength original) md.val seeder us) (.ok s)) :
    s.shs = (List.range (chunkCount pieceLength original)).map fun i =>
      ofPointer (sha1 (chunk pieceLength i original)).val (after i) := by
  obtain ⟨n, hn⟩ := hmeta
  obtain ⟨m, hm⟩ := loadMeta_converges after (chunkCount pieceLength original)
    (digests sha1 pieceLength original) md.val 0 (length_digests sha1 pieceLength original)
    md.property []
  have hshs := PeerState.shs_of_loadMeta (hn (max n m) (by omega)) (hm (max n m) (by omega))
  rw [hshs, List.nil_append]
  refine List.map_congr_left fun i hi => ?_
  rw [digestAt_digests (List.mem_range.mp hi), List.length_nil, Nat.zero_add]

/-- What the check of a piece compares. -/
theorem isValid_digests (hmeta : Converges (fun fuel => PeerState.loadMeta after fuel
      (digests sha1 pieceLength original) md.val seeder us) (.ok s))
    {i : Nat} (hi : i < chunkCount pieceLength original) (after' body : BString) :
    isValid sha1 s.shs after' i body = .ok (decide
      (ofPointer (sha1 (chunk pieceLength i original)).val (after i) =
        ofPointer (sha1 body).val after')) := by
  rw [shs_of_digests hmeta, isValid, List.getElem?_map, List.getElem?_range hi]
  rfl

/-- Digests without a zero byte are read whole, and compared whole. -/
theorem recognises_of_loadMeta (hzero : ∀ i < chunkCount pieceLength original,
      0 ∉ (sha1 (chunk pieceLength i original)).val)
    (hmeta : Converges (fun fuel => PeerState.loadMeta after fuel
      (digests sha1 pieceLength original) md.val seeder us) (.ok s)) :
    Recognises sha1 original s.shs := by
  have hlength : s.shs.length = chunkCount pieceLength original := by
    rw [shs_of_digests hmeta, List.length_map, List.length_range]
  refine ⟨hlength, fun i hi after' body hvalid => ?_⟩
  rw [hlength] at hi
  have heq : ofPointer (sha1 (chunk pieceLength i original)).val (after i) =
      ofPointer (sha1 body).val after' := by
    rw [isValid_digests hmeta hi] at hvalid
    simpa using hvalid
  have hlen : (sha1 (chunk pieceLength i original)).val.length = (sha1 body).val.length := by
    rw [(sha1 _).property, (sha1 body).property]
  obtain ⟨hmem, -⟩ | ⟨-, hsame, -⟩ := (ofPointer_eq_iff hlen).mp heq
  · exact absurd hmem (hzero i hi)
  · exact hsame.symm

end Torrent

namespace Point

/-- The bitfield that the callback has found for the neighbour. -/
def oldbf : Point → Option Bitfield
  | counting _ _ oldbf _ | updating _ _ oldbf _ _ => some oldbf
  | _ => none

/-- The thread has a piece of the torrent, and has found no bit stored for its neighbour. -/
structure Sound (nPieces : Nat) (p : Point) : Prop where
  held_lt : ∀ i, p.worker.held = some i → i < nPieces
  blank : ∀ bf, p.oldbf = some bf → ∀ k, bf.test k = false

theorem Sound.idle {nPieces : Nat} {p : Point} (hheld : p.worker.held = none)
    (hold : p.oldbf = none) : p.Sound nPieces :=
  ⟨fun i hi => by simp [hheld] at hi, fun bf hbf => by simp [hold] at hbf⟩

/-- A thread that goes on with its piece. -/
theorem Sound.next {nPieces : Nat} {p q : Point} (h : p.Sound nPieces)
    (hheld : q.worker.held = p.worker.held) (hold : ∀ bf, q.oldbf = some bf → p.oldbf = some bf) :
    q.Sound nPieces :=
  ⟨fun i hi => h.held_lt i (hheld ▸ hi), fun bf hbf => h.blank bf (hold bf hbf)⟩

end Point

namespace Threads

variable {ι κ : Type*} [DecidableEq ι]

/-- The data are sound, and so is every thread. -/
structure Sound (shs : List BString) (s : Threads ι κ) : Prop where
  peer : s.peer.Sound
  shs_eq : s.peer.shs = shs
  points : ∀ t, (s.points t).Sound shs.length

variable {sha1 : BString → Digest} {serverIds : ι → Int} {pieceIds : κ → Int} {s s' : Threads ι κ}
  {t : ι} {c : ThreadCall} {cs : List Call} {shs : List BString}

theorem forall_goTo {P : Point → Prop} {p : Point} (h : ∀ u, P (s.points u)) (hp : P p) (u : ι) :
    P ((s.goTo t p).points u) := by
  by_cases hu : u = t
  · subst hu
    rwa [goTo_self]
  · rw [goTo_of_ne s p hu]
    exact h u

theorem Sound.goTo (h : s.Sound shs) {p : Point} (hp : p.Sound shs.length) :
    (s.goTo t p).Sound shs :=
  ⟨h.peer, h.shs_eq, forall_goTo h.points hp⟩

omit [DecidableEq ι] in
theorem Sound.setPeer (h : s.Sound shs) {peer : PeerState} (hpeer : peer.Sound)
    (hshs : peer.shs = s.peer.shs) : (s.setPeer peer).Sound shs :=
  ⟨hpeer, hshs.trans h.shs_eq, h.points⟩

omit [DecidableEq ι] in
theorem Sound.setTsfs (h : s.Sound shs) (fs : FStream) : (s.setTsfs fs).Sound shs :=
  h.setPeer ⟨h.peer.ordered, h.peer.pieces_lt, h.peer.nPieces_eq, h.peer.nPieces_lt, h.peer.blank⟩
    rfl

omit [DecidableEq ι] in
theorem Sound.nPieces_eq (h : s.Sound shs) : s.peer.nPieces = shs.length :=
  h.peer.nPieces_eq.trans (congrArg List.length h.shs_eq)

omit [DecidableEq ι] in
theorem Sound.id_lt (h : s.Sound shs) {i : Nat} (hi : i < shs.length) : i < 2 ^ 31 := by
  have hlt := h.peer.nPieces_lt
  rw [h.nPieces_eq] at hlt
  omega

omit [DecidableEq ι] in
theorem Sound.point (h : s.Sound shs) {p : Point} (hat : s.points t = p) : p.Sound shs.length :=
  hat ▸ h.points t

theorem Sound.move (h : s.Sound shs) (hmove : Move sha1 serverIds s t c cs s') : s'.Sound shs := by
  have next {p q : Point} (hat : s.points t = p) (hheld : q.worker.held = p.worker.held)
      (hold : ∀ bf, q.oldbf = some bf → p.oldbf = some bf) : q.Sound shs.length :=
    (h.point hat).next hheld hold
  cases hmove with
  | connect connected hp => exact h.goTo (by cases connected <;> exact .idle rfl rfl)
  | empty hp => exact h.goTo (by split <;> exact .idle rfl rfl)
  | removeTopOfEmpty hp hnone => exact ⟨h.peer, h.shs_eq, h.points⟩
  | removeTop i pieces hp htop =>
    have hi : i < shs.length := by
      rw [← h.nPieces_eq]
      exact h.peer.pieces_lt i (by simp [(TsafeSet.removeTop_eq_some.mp htop).1])
    refine Sound.goTo (h.setPeer (h.peer.removeTop htop) rfl) ⟨fun j hj => ?_, fun bf hbf => ?_⟩
    · cases hj
      exact hi
    · cases hbf
  | received i res after bf hp hfield hvalid => exact h.goTo (next hp rfl (by simp [Point.oldbf]))
  | mismatched i answer after hp => exact h.goTo (.idle rfl rfl)
  | written i piece bf fs hp hwrite =>
    exact Sound.goTo (h.setTsfs fs) (next hp rfl (by simp [Point.oldbf]))
  | lookedUp i bf hp =>
    have hpeer : (s.peer.lookedUp (serverIds t)).Sound :=
      h.peer.of_kept ⟨rfl, rfl, rfl⟩ ⟨refl_of PeerState.KeepsPieces _,
        PeerState.storedBitfield_lookUp s.peer (serverIds t)⟩
    refine Sound.goTo (h.setPeer hpeer rfl) ⟨(h.point hp).held_lt, fun bf hbf => ?_⟩
    cases hbf
    exact h.peer.blank (serverIds t)
  | counted i bf oldbf k p hp hmore hreach hpriority => exact h.goTo (next hp rfl fun _ => id)
  | returned i bf oldbf k hp hthrough =>
    have hset : Sound shs { s with downloaded := s.downloaded ++ [i] } :=
      ⟨h.peer, h.shs_eq, h.points⟩
    exact hset.goTo (.idle rfl rfl)
  | updated i bf oldbf k p hp =>
    have hkept : PeerState.KeepsPieces s.peer.pieces (s.peer.pieces.updatePriority k p) :=
      fun hs => ⟨hs.updatePriority k p, TsafeSet.mem_updatePriority hs.nodup k p⟩
    have hpeer : PeerState.Sound { s.peer with pieces := s.peer.pieces.updatePriority k p } :=
      h.peer.of_kept ⟨rfl, rfl, rfl⟩ ⟨hkept, fun _ => rfl⟩
    exact Sound.goTo (h.setPeer hpeer rfl) (next hp rfl fun _ => id)
  | failed c i hbusy =>
    exact h.goTo ((h.points t).next (by rw [hbusy]; rfl) (by simp [Point.oldbf]))
  | unwritten i piece bf fs hp hwrite =>
    exact Sound.goTo (h.setTsfs fs) (next hp rfl (by simp [Point.oldbf]))
  | unchecked i answer after hp hcause => exact ⟨h.peer, h.shs_eq, h.points⟩
  | overflowed i bf oldbf k hp hpriority => exact ⟨h.peer, h.shs_eq, h.points⟩
  | push i hp =>
    have hi : i < s.peer.nPieces := by
      rw [h.nPieces_eq]
      exact (h.point hp).held_lt i rfl
    exact Sound.goTo (h.setPeer (h.peer.push hi) rfl) (.idle rfl rfl)

variable [DecidableEq κ] {e : PeerEvent ι κ} {es : List (PeerEvent ι κ)}

theorem Sound.step (h : s.Sound shs) (hstep : s.step sha1 serverIds pieceIds e = some s') :
    s'.Sound shs := by
  obtain ⟨-, ⟨t, c, -, hmove⟩ | ⟨k, -, -, rfl⟩⟩ := step_cases hstep
  · exact h.move hmove
  · exact ⟨h.peer.of_kept ⟨rfl, rfl, rfl⟩ ⟨refl_of PeerState.KeepsPieces _, fun _ => rfl⟩,
      h.shs_eq, h.points⟩

omit [DecidableEq ι] [DecidableEq κ] in
theorem initial_sound {us : UploadServer} {peer : PeerState} (hfresh : peer.Fresh us)
    (addrs : List SockAddr) :
    (initial (peer.fetchPeers addrs) : Threads ι κ).Sound peer.shs :=
  ⟨hfresh.sound addrs, rfl, fun _ => .idle rfl rfl⟩

/-! ## The file -/

end Threads

namespace Point

/-- The piece that is in the file already, while its download goes on. -/
def written : Point → Option Nat
  | lookingUp i _ | counting i _ _ _ | updating i _ _ _ _ => some i
  | _ => none

/-- The piece and its bytes, at `write_piece`. -/
def toWrite : Point → Option (Nat × BString)
  | writing i piece _ => some (i, piece)
  | _ => none

/-- A thread writes what is in the original, and what it has written is listed. -/
structure Assembles (original : BString) (ids : Nat → Prop) (p : Point) : Prop where
  written : ∀ i, p.written = some i → ids i
  toWrite : ∀ i piece, p.toWrite = some (i, piece) → piece = chunk pieceLength i original

theorem Assembles.idle {original : BString} {ids : Nat → Prop} {p : Point}
    (hwritten : p.written = none) (hwrite : p.toWrite = none) : p.Assembles original ids :=
  ⟨fun i hi => by simp [hwritten] at hi, fun i piece hi => by simp [hwrite] at hi⟩

theorem Assembles.mono {original : BString} {ids ids' : Nat → Prop} {p : Point}
    (h : p.Assembles original ids) (hids : ∀ i, ids i → ids' i) : p.Assembles original ids' :=
  ⟨fun i hi => hids i (h.written i hi), h.toWrite⟩

theorem Assembles.next {original : BString} {ids : Nat → Prop} {p q : Point}
    (h : p.Assembles original ids) (hwritten : q.written = p.written) (hwrite : q.toWrite = none) :
    q.Assembles original ids :=
  ⟨fun i hi => h.written i (hwritten ▸ hi), fun i piece hi => by simp [hwrite] at hi⟩

end Point

/-- No response of the run has the digest of a piece of the file without being it. -/
def PeerEvent.Collides {ι κ : Type*} (sha1 : BString → Digest) (original : BString) :
    PeerEvent ι κ → Prop
  | .thread _ (.sendRequest (.ok res) _) => ∃ i < chunkCount pieceLength original,
    (sha1 res.body).val = (sha1 (chunk pieceLength i original)).val ∧
      res.body ≠ chunk pieceLength i original
  | _ => False

namespace Threads

variable {ι κ : Type*} [DecidableEq ι] {sha1 : BString → Digest} {serverIds : ι → Int}
  {pieceIds : κ → Int} {s s' : Threads ι κ} {t : ι} {c : ThreadCall} {cs : List Call}
  {shs : List BString} {original : BString}

/-- The piece counts as written: it is, or the stream has failed and takes no more. -/
def Settled (ids : Nat → Prop) (s : Threads ι κ) (i : Nat) : Prop :=
  s.peer.us.tsfs.failed = true ∨ ids i

/-- The file is a patchwork of pieces of the original, among them those that have been downloaded as
long as the stream works. -/
structure Assembles (original : BString) (ids : Nat → Prop) (s : Threads ι κ) : Prop where
  file : Patchwork 0 pieceLength original ids s.peer.us.tsfs.content
  downloaded : ∀ i ∈ s.downloaded, s.Settled ids i
  points : ∀ t, (s.points t).Assembles original (s.Settled ids)

theorem Assembles.goTo {ids : Nat → Prop} (h : s.Assembles original ids) {p : Point}
    (hp : p.Assembles original (s.Settled ids)) : (s.goTo t p).Assembles original ids :=
  ⟨h.file, h.downloaded, forall_goTo h.points hp⟩

omit [DecidableEq ι] in
theorem Assembles.setPeer {ids : Nat → Prop} (h : s.Assembles original ids) {peer : PeerState}
    (hfile : s.peer.us.tsfs.SameFile peer.us.tsfs) :
    (s.setPeer peer).Assembles original ids := by
  have hsettled (i : Nat) (hi : s.Settled ids i) : (s.setPeer peer).Settled ids i :=
    hi.imp_left hfile.2
  exact ⟨hfile.1 ▸ h.file, fun i hi => hsettled i (h.downloaded i hi),
    fun u => (h.points u).mono hsettled⟩

omit [DecidableEq ι] in
theorem Assembles.setPieces {ids : Nat → Prop} (h : s.Assembles original ids) (pieces : TsafeSet) :
    (s.setPieces pieces).Assembles original ids :=
  h.setPeer ⟨rfl, id⟩

omit [DecidableEq ι] in
theorem Assembles.point {ids : Nat → Prop} (h : s.Assembles original ids) {p : Point}
    (hat : s.points t = p) : p.Assembles original (s.Settled ids) :=
  hat ▸ h.points t

omit [DecidableEq ι] in
/-- One more piece is written, if the stream works. -/
theorem Assembles.write {ids : Nat → Prop} (h : s.Assembles original ids) {i : Nat} {fs : FStream}
    (hi : i * pieceLength < original.length) (hint : i < 2 ^ 31)
    (hwrite : Peer.writePiece i (chunk pieceLength i original) s.peer.us.tsfs = (.ok (), fs)) :
    ∃ ids', (s.setTsfs fs).Assembles original ids' ∧ (s.setTsfs fs).Settled ids' i := by
  obtain ⟨fs', hrun, hfailed, hcontent⟩ := writePiece_returns
    (UploadServer.mul_pieceLength_lt hint) (chunk pieceLength i original) s.peer.us.tsfs
  obtain rfl : fs' = fs := congrArg Prod.snd (hrun.symm.trans hwrite)
  cases hworks : s.peer.us.tsfs.failed with
  | true =>
    rw [hworks, if_pos rfl] at hcontent
    have hstuck : fs'.failed = true := hfailed.trans hworks
    exact ⟨ids, h.setPeer ⟨hcontent, fun _ => hstuck⟩, .inl hstuck⟩
  | false =>
    rw [hworks, if_neg Bool.false_ne_true] at hcontent
    have hfile := h.file.patch hi (by decide : 0 < pieceLength)
    rw [← hcontent] at hfile
    have hsettled (j : Nat) (hj : s.Settled ids j) :
        (s.setTsfs fs').Settled (fun j => j = i ∨ ids j) j :=
      hj.imp hfailed.trans .inr
    exact ⟨fun j => j = i ∨ ids j, ⟨hfile, fun j hj => hsettled j (h.downloaded j hj),
      fun u => (h.points u).mono hsettled⟩, .inr (.inl rfl)⟩

/-- What passes the check of a piece is that piece. -/
def Genuine (sha1 : BString → Digest) (original : BString) (s : Threads ι κ) :
    PeerEvent ι κ → Prop
  | .thread t (.sendRequest (.ok res) after) => ∀ i, s.points t = .requesting i →
    isValid sha1 s.peer.shs after i res.body = .ok true →
      res.body = chunk pieceLength i original
  | _ => True

omit [DecidableEq ι] in
theorem Sound.genuine (h : s.Sound shs) (hshs : Recognises sha1 original shs)
    {e : PeerEvent ι κ} (hcollide : ¬ e.Collides sha1 original) :
    s.Genuine sha1 original e := by
  unfold Genuine
  split
  next t res after =>
    intro i hp hvalid
    have hi : i < shs.length := (h.point hp).held_lt i rfl
    have hdigest : (sha1 res.body).val = (sha1 (chunk pieceLength i original)).val :=
      hshs.digest_eq i hi after res.body (h.shs_eq ▸ hvalid)
    by_contra hne
    exact hcollide ⟨i, hshs.length_eq ▸ hi, hdigest, hne⟩
  next => trivial

theorem Assembles.move {ids : Nat → Prop} (h : s.Assembles original ids) (hsound : s.Sound shs)
    (hshs : Recognises sha1 original shs) (hgenuine : s.Genuine sha1 original (.thread t c))
    (hmove : Move sha1 serverIds s t c cs s') : ∃ ids', s'.Assembles original ids' := by
  cases hmove with
  | connect connected hp => exact ⟨ids, h.goTo (by cases connected <;> exact .idle rfl rfl)⟩
  | empty hp => exact ⟨ids, h.goTo (by split <;> exact .idle rfl rfl)⟩
  | removeTopOfEmpty hp hnone => exact ⟨ids, h.file, h.downloaded, h.points⟩
  | removeTop i pieces hp htop => exact ⟨ids, (h.setPieces pieces).goTo (.idle rfl rfl)⟩
  | received i res after bf hp hfield hvalid =>
    have hbody : res.body = chunk pieceLength i original := hgenuine i hp hvalid
    refine ⟨ids, h.goTo ⟨fun j hj => by simp [Point.written] at hj, fun j piece hj => ?_⟩⟩
    cases hj
    exact hbody
  | mismatched i answer after hp => exact ⟨ids, h.goTo (.idle rfl rfl)⟩
  | written i piece bf fs hp hwrite =>
    have hi : i < shs.length := (hsound.point hp).held_lt i rfl
    have hint : i < 2 ^ 31 := hsound.id_lt hi
    have hstart : i * pieceLength < original.length :=
      (lt_chunkCount (by decide)).mp (hshs.length_eq ▸ hi)
    rw [(h.point hp).toWrite i piece rfl] at hwrite
    obtain ⟨ids', hset, hdone⟩ := h.write hstart hint hwrite
    refine ⟨ids', hset.goTo ⟨fun j hj => ?_, fun j piece hj => ?_⟩⟩
    · cases hj
      exact hdone
    · cases hj
  | lookedUp i bf hp =>
    have hset : (s.setPeer (s.peer.lookedUp (serverIds t))).Assembles original ids :=
      h.setPeer ⟨rfl, id⟩
    exact ⟨ids, hset.goTo ((h.point hp).next rfl rfl)⟩
  | counted i bf oldbf k p hp hmore hreach hpriority =>
    exact ⟨ids, h.goTo ((h.point hp).next rfl rfl)⟩
  | returned i bf oldbf k hp hthrough =>
    have hdone : Assembles original ids { s with downloaded := s.downloaded ++ [i] } := by
      refine ⟨h.file, fun j hj => ?_, h.points⟩
      obtain hj | hj := List.mem_append.mp hj
      · exact h.downloaded j hj
      · rw [List.mem_singleton.mp hj]
        exact (h.point hp).written i rfl
    exact ⟨ids, hdone.goTo (.idle rfl rfl)⟩
  | updated i bf oldbf k p hp =>
    exact ⟨ids, (h.setPieces _).goTo ((h.point hp).next rfl rfl)⟩
  | failed c i hbusy => exact ⟨ids, h.goTo (.idle rfl rfl)⟩
  | unwritten i piece bf fs hp hwrite =>
    obtain ⟨-, hcontent, hfailed⟩ := writePiece_error hwrite
    have hset : (s.setTsfs fs).Assembles original ids := h.setPeer ⟨hcontent, fun _ => hfailed⟩
    exact ⟨ids, hset.goTo (.idle rfl rfl)⟩
  | unchecked i answer after hp hcause => exact ⟨ids, h.file, h.downloaded, h.points⟩
  | overflowed i bf oldbf k hp hpriority => exact ⟨ids, h.file, h.downloaded, h.points⟩
  | push i hp => exact ⟨ids, (h.setPieces _).goTo (.idle rfl rfl)⟩

/-- A call of `read_piece` leaves the file as it is. -/
theorem sameFile_next (pieceId : Int) (r : ReadCall) (us : UploadServer) :
    UploadServer.SameFile us (r.next pieceId us).2 := by
  have hwithin : Action.Within UploadServer.SameFile (r.step pieceId) := by
    cases r with
    | seekEnd =>
      exact (UploadServer.within_onTsfs UploadServer.seekgEnd_sameFile).bind
        fun _ => Action.within_pure _
    | tell =>
      exact (UploadServer.within_onTsfs UploadServer.tellg_sameFile).bind
        fun _ => Action.within_pure _
    | rewind fsize =>
      refine (UploadServer.within_onTsfs (UploadServer.seekg_sameFile 0)).bind fun _ => ?_
      split
      · exact Action.within_throw _
      · exact Action.within_pure _
    | read count =>
      exact (UploadServer.within_readBuf _ _).bind fun _ => Action.within_pure _
    | copy count => exact Action.within_get.bind fun _ => Action.within_pure _
    | returned result => exact Action.within_pure _
  have hsame := hwithin us
  unfold ReadCall.next
  rcases hrun : r.step pieceId us with ⟨e | r', us'⟩ <;> rw [hrun] at hsame <;> exact hsame

variable [DecidableEq κ] {e : PeerEvent ι κ} {es : List (PeerEvent ι κ)}

theorem Assembles.step {ids : Nat → Prop} (h : s.Assembles original ids) (hsound : s.Sound shs)
    (hshs : Recognises sha1 original shs) (hgenuine : s.Genuine sha1 original e)
    (hstep : s.step sha1 serverIds pieceIds e = some s') : ∃ ids', s'.Assembles original ids' := by
  obtain ⟨-, ⟨t, c, rfl, hmove⟩ | ⟨k, -, -, rfl⟩⟩ := step_cases hstep
  · exact h.move hsound hshs hgenuine hmove
  · have hset : (s.setPeer { s.peer with
        us := ((s.reads k).next (pieceIds k) s.peer.us).2 }).Assembles original ids :=
      h.setPeer (sameFile_next (pieceIds k) (s.reads k) s.peer.us)
    exact ⟨ids, hset.file, hset.downloaded, hset.points⟩

omit [DecidableEq ι] [DecidableEq κ] in
theorem initial_assembles {peer : PeerState} {buf : BString} (hfresh : peer.Fresh (.ofEmpty buf))
    (original : BString) (addrs : List SockAddr) :
    (initial (peer.fetchPeers addrs) : Threads ι κ).Assembles original fun _ => False := by
  refine ⟨?_, fun i hi => by simp [initial] at hi, fun _ => .idle rfl rfl⟩
  have hempty : peer.us.tsfs.content = [] := by
    rw [hfresh.us_eq]
    rfl
  exact hempty ▸ patchwork_nil 0 pieceLength original

/-- What holds all the way through a run of the leecher that `load_meta` has set up. -/
theorem sound_and_assembles (hzero : ∀ i < chunkCount pieceLength original,
      0 ∉ (sha1 (chunk pieceLength i original)).val)
    {after : Nat → BString} {md : Digest} {buf : BString} {s : PeerState}
    (hmeta : Converges (fun fuel => PeerState.loadMeta after fuel
      (digests sha1 pieceLength original) md.val false (.ofEmpty buf)) (.ok s))
    (addrs : List SockAddr) (hes : ∀ e ∈ es, ¬ e.Collides sha1 original)
    (hrun : Machine.run (Threads.step sha1 serverIds pieceIds) (initial (s.fetchPeers addrs)) es =
      some s') :
    s'.Sound s.shs ∧ ∃ ids, s'.Assembles original ids := by
  have hshs : Recognises sha1 original s.shs := recognises_of_loadMeta hzero hmeta
  have hfresh : s.Fresh (.ofEmpty buf) := by
    obtain ⟨n, hn⟩ := hmeta
    exact PeerState.fresh_of_loadMeta (hn n le_rfl)
  refine Machine.run_invariant_of
    (P := fun u : Threads ι κ => u.Sound s.shs ∧ ∃ ids, u.Assembles original ids)
    (fun u e v hu he hstep => ?_)
    ⟨initial_sound hfresh addrs, _, initial_assembles hfresh original addrs⟩ hes hrun
  obtain ⟨hsound, ids, hfile⟩ := hu
  exact ⟨hsound.step hstep, hfile.step hsound hshs (hsound.genuine hshs he) hstep⟩

/-- In every interleaving, whatever the neighbours answer, the file of a leecher has no more bytes
than the original; if the stream has not failed, the pieces that have been downloaded are those of
the original; and each of the others is too, or is missing, or is a hole. -/
theorem file_has_original_pieces (hzero : ∀ i < chunkCount pieceLength original,
      0 ∉ (sha1 (chunk pieceLength i original)).val)
    {after : Nat → BString} {md : Digest} {buf : BString} {s : PeerState}
    (hmeta : Converges (fun fuel => PeerState.loadMeta after fuel
      (digests sha1 pieceLength original) md.val false (.ofEmpty buf)) (.ok s))
    (addrs : List SockAddr) (hes : ∀ e ∈ es, ¬ e.Collides sha1 original)
    (hrun : Machine.run (Threads.step sha1 serverIds pieceIds) (initial (s.fetchPeers addrs)) es =
      some s') :
    s'.peer.us.tsfs.content.length ≤ original.length ∧
    (s'.peer.us.tsfs.failed = false → ∀ i ∈ s'.downloaded,
      chunk pieceLength i s'.peer.us.tsfs.content = chunk pieceLength i original) ∧
    ∀ i, chunk pieceLength i s'.peer.us.tsfs.content = chunk pieceLength i original ∨
      chunk pieceLength i s'.peer.us.tsfs.content = [] ∨
      chunk pieceLength i s'.peer.us.tsfs.content = List.replicate pieceLength 0 := by
  obtain ⟨-, ids, hfile⟩ := sound_and_assembles hzero hmeta addrs hes hrun
  refine ⟨hfile.file.length_le, fun hworks i hi => hfile.file.chunk_eq i ?_, fun i => ?_⟩
  · exact (hfile.downloaded i hi).resolve_left (by simp [hworks])
  by_cases hi : ids i
  · exact .inl (hfile.file.chunk_eq i hi)
  · exact .inr (hfile.file.hole i hi)

end Threads

/-! A torrent of one piece, the byte 7, whose digest has no zero byte -/

def onePiece : PeerState where
  nPieces := 1
  shs := [digestOfSeven.val]
  pieces := .load 1
  ndata := ∅
  isAvailable := .ofCount 1
  us := .ofEmpty []

theorem onePiece_loaded : PeerState.loadMeta (fun _ => []) 3 digestOfSeven.val
    (List.replicate 20 0) false (.ofEmpty []) = .ok onePiece := rfl

/-- The leecher when its piece has been written. -/
def onePieceDone : PeerState :=
  { onePiece.fetchPeers [.ofUid 1] with
    pieces := ⟨[], fun _ => 0⟩
    us := ⟨⟨[7], 1, false⟩, []⟩ }

namespace Threads

/-- One thread downloads the only piece, while a handler begins to read it. -/
def onePieceRun : List (PeerEvent Unit Unit) :=
  [.thread () (.connect true), .thread () .empty, .thread () .removeTop,
    .thread () (.sendRequest (.ok (UploadServer.served ⟨[1], 1⟩ [7])) []), .thread () .writePiece,
    .read (), .thread () .lookUp, .thread () .readPriority, .thread () .updatePriority, .read (),
    .thread () .readPriority, .thread () .empty]

def onePieceEnd : Threads Unit Unit where
  peer := onePieceDone
  points _ := .exited true
  reads _ := .rewind 1
  downloaded := [0]
  undefined := false

theorem onePieceRun_ends : Machine.run (Threads.step sampleSha1 (fun _ => 1) (fun _ => 0))
    (initial (onePiece.fetchPeers [.ofUid 1])) onePieceRun = some onePieceEnd := rfl

theorem sevens_without_zero : ∀ i < chunkCount pieceLength [7],
    0 ∉ (sampleSha1 (chunk pieceLength i [7])).val := by
  intro i hi
  obtain rfl : i = 0 := Nat.lt_one_iff.mp hi
  decide

def zeroDigest : Digest := ⟨List.replicate 20 0, rfl⟩

theorem sevens_loaded : Converges (fun fuel => PeerState.loadMeta (fun _ => []) fuel
    (digests sampleSha1 pieceLength [7]) zeroDigest.val false (.ofEmpty []))
    (.ok onePiece) := by
  refine ⟨3, fun m hm => ?_⟩
  obtain ⟨k, rfl⟩ := Nat.exists_eq_add_of_le' hm
  rfl

theorem onePieceRun_without_collision : ∀ e ∈ onePieceRun, ¬ e.Collides sampleSha1 [7] := by
  have hbody : (UploadServer.served ⟨[1], 1⟩ [7]).body = chunk pieceLength 0 [7] := by decide
  simp only [onePieceRun, List.forall_mem_cons]
  refine ⟨id, id, id, ?_, id, id, id, id, id, id, id, id, by simp⟩
  rintro ⟨i, hi, -, hne⟩
  obtain rfl : i = 0 := Nat.lt_one_iff.mp hi
  exact hne hbody

/-- The only piece is in its place. -/
theorem onePiece_in_place : onePieceEnd.peer.us.tsfs.content.length ≤ 1 ∧
    chunk pieceLength 0 onePieceEnd.peer.us.tsfs.content = chunk pieceLength 0 [7] := by
  have hfile := file_has_original_pieces sevens_without_zero sevens_loaded [.ofUid 1]
    onePieceRun_without_collision onePieceRun_ends
  exact ⟨hfile.1, hfile.2.1 rfl 0 (List.mem_singleton_self 0)⟩

end Threads

end P2PFileSharing.Peer
