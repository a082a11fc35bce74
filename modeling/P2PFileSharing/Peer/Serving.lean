import P2PFileSharing.Library.History
import P2PFileSharing.Peer.BitfieldChannel
import P2PFileSharing.Peer.HashCheck
import P2PFileSharing.Peer.PieceFile

/-!
# Serving pieces while others are missing

A leecher writes the pieces as they come and serves every piece that begins before the end of its
file. A piece that was written leaves the ones before it as holes, which read as zeros.
-/

namespace P2PFileSharing.Peer

open Http Library UploadServer

/-- What the downloaders and the upload server do with the file. -/
inductive FileEvent where
  | write (pieceId : Nat) (data : BString)
  | serve (bf : Bitfield) (req : Request) (sock : SockAddr)

namespace FileEvent

def step (s : UploadServer) : FileEvent → Option UploadServer
  | write pieceId data => some (onTsfs (writePiece pieceId data) s).2
  | serve bf req sock => some (callback bf req sock s).2

/-- The piece that `write_piece` returned for. -/
def written (s : UploadServer) : FileEvent → List Nat
  | write pieceId data =>
    match (writePiece pieceId data s.tsfs).1 with
    | .ok _ => [pieceId]
    | .error _ => []
  | serve _ _ _ => []

variable {s : UploadServer} {fs : FStream} {i : Nat} {data : BString}

theorem write_ok (h : writePiece i data s.tsfs = (.ok (), fs)) :
    step s (write i data) = some { s with tsfs := fs } ∧ written s (write i data) = [i] := by
  simp [step, written, onTsfs, h]

end FileEvent

section Serving

variable (sha1 : BString → Digest) (torrent : BString) (size : Nat)

/-- `data` passes for piece `i` of the file that the torrent was made from, which has `size`
bytes. -/
structure Verified (i : Nat) (data : BString) : Prop where
  id_lt : i < 2 ^ 31
  start_lt : i * pieceLength < size
  length_eq : data.length = min pieceLength (size - i * pieceLength)
  digest_eq : (sha1 data).val = digestAt torrent i

/-- The pieces that were written are there; of the others there are holes at most. -/
structure Holds (ids : List Nat) (content : BString) : Prop where
  length_le : content.length ≤ size
  written : ∀ i ∈ ids, Verified sha1 torrent size i (chunk pieceLength i content)
  hole : ∀ i, i ∉ ids → chunk pieceLength i content = [] ∨
    chunk pieceLength i content = List.replicate pieceLength 0

variable {sha1 torrent size} {ids : List Nat} {content data : BString} {i j : Nat}

theorem Verified.ne_nil (h : Verified sha1 torrent size j data) : data ≠ [] := by
  intro hnil
  have hstart := h.start_lt
  have hlen := h.length_eq
  rw [hnil, List.length_nil] at hlen
  have hpos : 0 < pieceLength := by decide
  omega

theorem Verified.length_le (h : Verified sha1 torrent size j data) : data.length ≤ pieceLength := by
  rw [h.length_eq]
  exact Nat.min_le_left _ _

/-- A piece is whole when another one of the file comes behind it. -/
theorem Verified.length_of_lt (h : Verified sha1 torrent size i data) (hj : j * pieceLength < size)
    (hij : i < j) : data.length = pieceLength := by
  have hend := chunk_end_le pieceLength hij
  rw [h.length_eq]
  omega

/-- Writing another piece adds a hole in front of it at most. -/
theorem Holds.write (h : Holds sha1 torrent size ids content)
    (hdata : Verified sha1 torrent size j data) :
    Holds sha1 torrent size (ids ++ [j]) (patch 0 (j * pieceLength) data content) := by
  have hne := hdata.ne_nil
  have hlen := hdata.length_le
  have hlength := hdata.length_eq
  have hstart := hdata.start_lt
  have hle := h.length_le
  constructor
  · rw [length_patch hne]
    omega
  · intro i hi
    by_cases hij : i = j
    · subst hij
      rw [chunk_patch_self hne hlen (by omega)]
      exact hdata
    · have hold := h.written i (by simpa [hij] using hi)
      rcases Nat.lt_or_gt_of_ne hij with hlt | hgt
      · rwa [chunk_patch_of_full hne hlen hij (hold.length_of_lt hstart hlt)]
      · rwa [chunk_patch_of_gt hne hlen hgt]
  · intro i hi
    simp only [List.mem_append, List.mem_singleton, not_or] at hi
    obtain ⟨hi, hij⟩ := hi
    rcases Nat.lt_or_gt_of_ne hij with hlt | hgt
    · rw [chunk_patch_of_lt hne hlt]
      rcases h.hole i hi with hnil | hzero
      · right
        rw [hnil, List.length_nil, Nat.sub_zero, List.nil_append]
      · right
        rw [hzero, List.length_replicate, Nat.sub_self, List.replicate_zero, List.append_nil]
    · rw [chunk_patch_of_gt hne hlen hgt]
      exact h.hole i hi

/-- What a step leaves in the file, as long as the stream works. -/
theorem Holds.step {s t : UploadServer} {e : FileEvent}
    (h : s.tsfs.failed = false → Holds sha1 torrent size ids s.tsfs.content)
    (he : ∀ i data, e = .write i data → Verified sha1 torrent size i data)
    (hstep : FileEvent.step s e = some t) (hworks : t.tsfs.failed = false) :
    Holds sha1 torrent size (ids ++ FileEvent.written s e) t.tsfs.content := by
  cases e with
  | write i data =>
    have hdata := he i data rfl
    obtain ⟨⟨content, old, failed⟩, buf⟩ := s
    cases failed with
    | true =>
      obtain ⟨hto, -⟩ := FileEvent.write_ok (s := ⟨⟨content, old, true⟩, buf⟩)
        (writePiece_failed i data content old)
      rw [hto, Option.some.injEq] at hstep
      subst hstep
      cases hworks
    | false =>
      have hsize := mul_pieceLength_lt hdata.id_lt
      obtain ⟨hto, hids⟩ := FileEvent.write_ok (s := ⟨⟨content, old, false⟩, buf⟩)
        (writePiece_run hsize data content old)
      rw [hto, Option.some.injEq] at hstep
      subst hstep
      rw [hids]
      exact (h rfl).write hdata
  | serve bf req sock =>
    cases hstep
    obtain ⟨hcontent, hsticks⟩ : SameFile s (callback bf req sock s).2 :=
      within_callback bf req sock s
    have hbefore : s.tsfs.failed = false :=
      Bool.eq_false_iff.mpr fun hfailed => Bool.eq_false_iff.mp hworks (hsticks hfailed)
    rw [FileEvent.written, List.append_nil, hcontent]
    exact h hbefore

/-- The server of a leecher that has just created its file. -/
def UploadServer.ofEmpty (buf : BString) : UploadServer := ⟨⟨[], 0, false⟩, buf⟩

theorem holds_of_run {buf : BString} {es : List FileEvent} {s : UploadServer}
    (hes : ∀ i data, .write i data ∈ es → Verified sha1 torrent size i data)
    (hrun : Machine.run FileEvent.step (.ofEmpty buf) es = some s)
    (hworks : s.tsfs.failed = false) :
    Holds sha1 torrent size (Machine.log FileEvent.step FileEvent.written (.ofEmpty buf) es)
      s.tsfs.content := by
  have start : Holds sha1 torrent size [] (UploadServer.ofEmpty buf).tsfs.content :=
    ⟨Nat.zero_le _, fun i hi => absurd hi List.not_mem_nil,
      fun i _ => .inl (by simp [chunk, UploadServer.ofEmpty])⟩
  refine Machine.run_invariant_of
    (P := fun x => x.1.tsfs.failed = false → Holds sha1 torrent size x.2 x.1.tsfs.content)
    (Q := fun e => ∀ i data, e = .write i data → Verified sha1 torrent size i data) ?_
    (fun _ => start) ?_ (Machine.run_logged [] hrun) hworks
  · rintro ⟨s, ids⟩ e ⟨t, ids'⟩ h he hstep hworks
    obtain ⟨hto, hids⟩ := Machine.logged_eq_some.mp hstep
    simp only at hto hids ⊢
    rw [hids]
    exact Holds.step h he hto hworks
  · rintro e he i data rfl
    exact hes i data he

/-- After any writes of verified pieces, an OK answer to a request for piece `i` carries a piece
with the digest of the torrent if and only if piece `i` has been written, or is to be all zeros. -/
theorem served_piece_verified_iff {buf : BString} {es : List FileEvent} {s t : UploadServer}
    (hes : ∀ i data, .write i data ∈ es → Verified sha1 torrent size i data)
    (hrun : Machine.run FileEvent.step (.ofEmpty buf) es = some s) {bf : Bitfield} {req : Request}
    {sock : SockAddr} {res : Response} (hserve : callback bf req sock s = (.ok res, t))
    (hok : res.status = .OK) {value : Str} (hheader : req.getHeader (lit "Piece-Id") = .ok value)
    (hid : stoi value = .ok (i : Int)) :
    (sha1 res.body).val = digestAt torrent i ↔
      i ∈ Machine.log FileEvent.step FileEvent.written (.ofEmpty buf) es ∨
        (sha1 (List.replicate pieceLength 0)).val = digestAt torrent i := by
  obtain ⟨value', k, hheader', hid', hworks, hstart, rfl⟩ := callback_served hserve hok
  have h := holds_of_run hes hrun hworks
  obtain rfl : value = value' := Except.ok.inj (hheader.symm.trans hheader')
  obtain rfl : i = k := Int.ofNat.inj (Except.ok.inj (hid.symm.trans hid'))
  have hbody : (served bf (piece s.tsfs.content i)).body = chunk pieceLength i s.tsfs.content := rfl
  rw [hbody]
  by_cases hi : i ∈ Machine.log FileEvent.step FileEvent.written (.ofEmpty buf) es
  · exact iff_of_true (h.written i hi).digest_eq (.inl hi)
  · rw [or_iff_right hi]
    rcases h.hole i hi with hnil | hzero
    · have hend := (chunk_eq_nil_iff (by decide : 0 < pieceLength)).mp hnil
      omega
    · rw [hzero]

/-! A file of a whole piece of ones and one more byte -/

def digestOfOnes : Digest := ⟨[49, 108, 19, 109, 117, 255, 222, 182, 172, 95, 18, 98, 196, 93, 216,
  198, 236, 80, 253, 133], rfl⟩

def digestOfZeros : Digest := ⟨[106, 82, 30, 29, 42, 99, 44, 38, 229, 59, 131, 210, 204, 75, 14,
  222, 207, 193, 230, 140], rfl⟩

def digestOfSeven : Digest := ⟨[93, 27, 231, 233, 221, 161, 238, 136, 150, 190, 91, 126, 52, 168,
  94, 225, 100, 82, 167, 180], rfl⟩

/-- SHA1, as far as the pieces here need it. -/
def sampleSha1 (data : BString) : Digest :=
  if data = [7] then digestOfSeven
  else if data = List.replicate pieceLength 0 then digestOfZeros
  else digestOfOnes

theorem sampleSha1_zeros : sampleSha1 (List.replicate pieceLength 0) = digestOfZeros := by
  have hne : List.replicate pieceLength (0 : UInt8) ≠ [7] := by
    intro h
    have hlen := congrArg List.length h
    rw [List.length_replicate] at hlen
    cases hlen
  rw [sampleSha1, if_neg hne, if_pos rfl]

theorem run_single_write (hi : i < 2 ^ 31) (data buf : BString) :
    Machine.run FileEvent.step (.ofEmpty buf) [.write i data] =
        some ⟨⟨patch 0 (i * pieceLength) data [], i * pieceLength + data.length, false⟩, buf⟩ ∧
      Machine.log FileEvent.step FileEvent.written (.ofEmpty buf) [.write i data] = [i] := by
  obtain ⟨hto, hids⟩ := FileEvent.write_ok (s := .ofEmpty buf)
    (writePiece_run (mul_pieceLength_lt hi) data [] 0)
  simp only [Machine.run, Machine.log, hto, hids]
  exact ⟨rfl, rfl⟩

/-- A piece that was written is served. -/
theorem written_piece_served : ∃ s t res,
    Machine.run FileEvent.step (.ofEmpty []) [.write 0 [7]] = some s ∧
    callback ⟨[], 0⟩ pieceZero .new s = (.ok res, t) ∧
    (sampleSha1 res.body).val = digestAt digestOfSeven.val 0 := by
  have hdata : ∀ i data, FileEvent.write i data ∈ [FileEvent.write 0 [7]] →
      Verified sampleSha1 digestOfSeven.val 1 i data := by
    intro i data h
    cases List.mem_singleton.mp h
    exact ⟨by decide, by decide, by decide, by decide⟩
  obtain ⟨hrun, hlog⟩ := run_single_write (by decide : 0 < 2 ^ 31) [7] []
  obtain ⟨t, hserve⟩ := pieceZero_served ⟨[], 0⟩ (List.cons_ne_nil 7 []) (by decide) 1 []
  refine ⟨_, t, _, hrun, hserve, ?_⟩
  refine (served_piece_verified_iff hdata hrun hserve rfl pieceZero_header stoi_zero).mpr (.inl ?_)
  rw [hlog]
  exact List.mem_singleton_self 0

/-- The second piece of two comes first; the hole in front of it is served as the first one. -/
theorem hole_served : ∃ s t res, Verified sampleSha1 (digestOfOnes.val ++ digestOfSeven.val)
      (pieceLength + 1) 1 [7] ∧
    Machine.run FileEvent.step (.ofEmpty []) [.write 1 [7]] = some s ∧
    callback ⟨[], 0⟩ pieceZero .new s = (.ok res, t) ∧ res.status = .OK ∧
    (sampleSha1 res.body).val ≠ digestAt (digestOfOnes.val ++ digestOfSeven.val) 0 := by
  obtain ⟨hrun, -⟩ := run_single_write (by decide : 1 < 2 ^ 31) [7] []
  have hlen : (patch 0 (1 * pieceLength) [7] ([] : BString)).length = pieceLength + 1 := by
    rw [length_patch (List.cons_ne_nil 7 [])]
    rfl
  have hne : patch 0 (1 * pieceLength) [7] ([] : BString) ≠ [] := by
    intro hnil
    rw [hnil] at hlen
    cases hlen
  obtain ⟨t, hserve⟩ := pieceZero_served ⟨[], 0⟩ hne (by rw [hlen]; decide) (1 * pieceLength + 1) []
  have hpiece : piece (patch 0 (1 * pieceLength) [7] []) 0 = List.replicate pieceLength 0 := by
    rw [piece_eq_chunk, chunk_patch_of_lt (List.cons_ne_nil 7 []) Nat.zero_lt_one]
    simp [chunk]
  rw [hpiece] at hserve
  refine ⟨_, t, _, ⟨by decide, by decide, by decide, by decide⟩, hrun, hserve, rfl, ?_⟩
  have hbody : (served ⟨[], 0⟩ (List.replicate pieceLength 0)).body =
      List.replicate pieceLength 0 := rfl
  rw [hbody, sampleSha1_zeros]
  decide

end Serving

end P2PFileSharing.Peer
