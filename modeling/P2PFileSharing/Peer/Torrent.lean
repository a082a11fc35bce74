import P2PFileSharing.Peer.Serving
import P2PFileSharing.Peer.State

/-!
# Torrent files

`torrent_generator` cuts a file into chunks and writes the digest of each of them, `load_meta`
counts the digests, and the upload server cuts the file again when it reads a piece.
-/

namespace P2PFileSharing.Peer

open Library UploadServer

/-! ## Generating -/

/-- The loop of the generator. `SHA1` gets the first `actual_read` bytes of the buffer. -/
def hashChunks (sha1 : BString → Digest) (chunkLen : Nat) :
    Nat → IfStream → BString → Except Fault BString
  | 0, _, _ => .error .outOfFuel
  | fuel + 1, file, out =>
    if file.eof then .ok out
    else
      let (file, bytes) := file.read chunkLen
      let actualRead := toInt32 file.gcount
      if actualRead > 0 then
        hashChunks sha1 chunkLen fuel file (out ++ (sha1 (bytes.take actualRead.toNat)).val)
      else hashChunks sha1 chunkLen fuel file out

/-- `main` of the generator, with the size in kilobytes and the content of the source file. -/
def torrentGenerator (sha1 : BString → Digest) (fuel : Nat) (size : Str) (src : BString) :
    Except Fault BString := do
  let kilobytes ← (stoll size).mapError Fault.thrown
  hashChunks sha1 (kilobytes * 1024 % 2 ^ 64).toNat fuel (.opened src) []

/-- The digests of the chunks of a file, in their order. -/
def digests (sha1 : BString → Digest) (chunkLen : Nat) (src : BString) : BString :=
  (List.range (chunkCount chunkLen src)).flatMap fun i => (sha1 (chunk chunkLen i src)).val

variable {sha1 : BString → Digest} {len : Nat} {src : BString}

theorem read_short (h : src.length < len) (g : Nat) :
    IfStream.read len ⟨src, false, false, g⟩ = (⟨[], true, true, src.length⟩, src) := by
  have htake : src.take len = src := List.take_of_length_le (by omega)
  simp [IfStream.read, h, htake, List.drop_of_length_le (Nat.le_of_lt h)]

theorem digests_cons (hlen : 0 < len) (hsrc : len ≤ src.length) :
    digests sha1 len src = (sha1 (src.take len)).val ++ digests sha1 len (src.drop len) := by
  have hfirst : chunk len 0 src = src.take len := by simp [chunk]
  rw [digests, chunkCount_drop hlen hsrc, List.range_succ_eq_map, List.flatMap_cons, hfirst,
    digests, List.flatMap_map]
  simp only [chunk_drop, Nat.succ_eq_add_one]

theorem digests_short (h : src.length < len) :
    digests sha1 len src = if src = [] then [] else (sha1 src).val := by
  rw [digests, chunkCount_of_lt h]
  split_ifs with hnil
  · rfl
  · have hfirst : chunk len 0 src = src := by simp [chunk, List.take_of_length_le (Nat.le_of_lt h)]
    simp [hfirst]

theorem hashChunks_eof (sha1 : BString → Digest) (len : Nat) (rest out : BString)
    (fail : Bool) (g : Nat) :
    Converges (fun fuel => hashChunks sha1 len fuel ⟨rest, true, fail, g⟩ out) (.ok out) :=
  (Converges.const _).of_succ fun _ => rfl

/-- One round that reads some bytes. -/
theorem hashChunks_succ {file : IfStream} {bytes : BString} (fuel : Nat) {src out : BString}
    {g : Nat} (hread : IfStream.read len ⟨src, false, false, g⟩ = (file, bytes))
    (hcount : file.gcount = bytes.length) (hpos : 0 < bytes.length) (hint : bytes.length < 2 ^ 31) :
    hashChunks sha1 len (fuel + 1) ⟨src, false, false, g⟩ out =
      hashChunks sha1 len fuel file (out ++ (sha1 bytes).val) := by
  have hactual : toInt32 file.gcount = bytes.length := by
    rw [hcount, toInt32_eq_self] <;> omega
  simp only [hashChunks, hread, hactual, Bool.false_eq_true, if_false, Int.toNat_natCast,
    List.take_length]
  rw [if_pos (by omega)]

/-- The loop ends and has written the digest of every chunk. -/
theorem hashChunks_converges (sha1 : BString → Digest) (hlen : 0 < len) (hint : len < 2 ^ 31)
    (src out : BString) (g : Nat) :
    Converges (fun fuel => hashChunks sha1 len fuel ⟨src, false, false, g⟩ out)
      (.ok (out ++ digests sha1 len src)) := by
  induction hn : src.length using Nat.strong_induction_on generalizing src out g with
  | _ n ih =>
    by_cases hshort : src.length < len
    · rw [digests_short hshort]
      have hread := read_short hshort g
      split_ifs with hnil
      · subst hnil
        rw [List.append_nil]
        exact (hashChunks_eof sha1 len [] out true 0).of_succ
          fun _ => by simp [hashChunks, hread, toInt32]
      · have hpos := List.length_pos_of_ne_nil hnil
        exact (hashChunks_eof sha1 len [] _ true _).of_succ fun fuel =>
          hashChunks_succ fuel hread rfl hpos (by omega)
    · have hsrc : len ≤ src.length := by omega
      have htake : (src.take len).length = len := by
        rw [List.length_take]
        omega
      have hrest := ih (src.drop len).length (by rw [List.length_drop]; omega) (src.drop len)
        (out ++ (sha1 (src.take len)).val) len rfl
      rw [List.append_assoc, ← digests_cons hlen hsrc] at hrest
      exact hrest.of_succ fun fuel =>
        hashChunks_succ fuel (read_whole hsrc g) htake.symm (by omega) (by omega)

/-! ## Loading -/

theorem digestAt_eq_chunk (torrent : BString) (i : Nat) :
    digestAt torrent i = chunk shaDigestLength i torrent := by
  rw [digestAt, chunk, Nat.mul_comm]

theorem digestAt_digests {i : Nat} (hi : i < chunkCount len src) :
    digestAt (digests sha1 len src) i = (sha1 (chunk len i src)).val := by
  rw [digestAt_eq_chunk]
  exact chunk_flatMap_range (fun j _ => (sha1 (chunk len j src)).property) hi

theorem length_digests (sha1 : BString → Digest) (len : Nat) (src : BString) :
    (digests sha1 len src).length = shaDigestLength * chunkCount len src := by
  rw [Nat.mul_comm]
  exact length_flatMap_range fun j _ => (sha1 (chunk len j src)).property

namespace PeerState

/-- The bitfield that `load_meta` makes. -/
theorem exists_initial_bitfield (n : Nat) (seeder : Bool) : ∃ bf : Bitfield,
    (if seeder then (Bitfield.holding n (List.range n)).mapError Fault.thrown
      else .ok (.ofCount n)) = .ok bf := by
  cases seeder with
  | false => exact ⟨_, rfl⟩
  | true =>
    rcases Nat.eq_zero_or_pos n with rfl | hn
    · exact ⟨_, rfl⟩
    · obtain ⟨bf, hbf, -⟩ := Bitfield.holding_spec hn (show ∀ i ∈ List.range n, i < n by simp)
      exact ⟨bf, by rw [if_pos rfl, hbf]; rfl⟩

theorem loadMeta_of_ok {after : Nat → BString} {fuel : Nat} {torrent md : BString}
    {shs : List BString}
    (h : Peer.loadMeta after fuel (.opened torrent) md [] = .ok shs) (hlt : shs.length < 2 ^ 31)
    {seeder : Bool} {bf : Bitfield} (hbf : (if seeder then (Bitfield.holding shs.length
      (List.range shs.length)).mapError Fault.thrown else .ok (.ofCount shs.length)) = .ok bf)
    (us : UploadServer) : loadMeta after fuel torrent md seeder us =
      .ok ⟨shs.length, shs, .load shs.length, ∅, bf, us⟩ := by
  simp only [loadMeta, h, if_neg (Nat.not_le.mpr hlt), bind, Except.bind, pure, Except.pure]
  cases seeder with
  | false =>
    cases hbf
    rfl
  | true =>
    rw [if_pos rfl] at hbf ⊢
    rw [hbf]

theorem loadMeta_of_many {after : Nat → BString} {fuel : Nat} {torrent md : BString}
    {shs : List BString} (h : Peer.loadMeta after fuel (.opened torrent) md [] = .ok shs)
    (hge : 2 ^ 31 ≤ shs.length) (seeder : Bool) (us : UploadServer) :
    loadMeta after fuel torrent md seeder us = .error .undefined := by
  simp only [loadMeta, h, if_pos hge, bind, Except.bind, throw, throwThe, MonadExceptOf.throw]

theorem shs_of_loadMeta {after : Nat → BString} {fuel : Nat} {torrent md : BString} {seeder : Bool}
    {us : UploadServer} {s : PeerState} {shs : List BString}
    (h : loadMeta after fuel torrent md seeder us = .ok s)
    (hshs : Peer.loadMeta after fuel (.opened torrent) md [] = .ok shs) : s.shs = shs := by
  by_cases hlt : shs.length < 2 ^ 31
  · obtain ⟨bf, hbf⟩ := exists_initial_bitfield shs.length seeder
    rw [loadMeta_of_ok hshs hlt hbf us] at h
    cases h
    rfl
  · rw [loadMeta_of_many hshs (Nat.not_lt.mp hlt)] at h
    cases h

/-- `load_meta` counts the digests of the file, as far as an `int` can count. -/
theorem loadMeta_converges (after : Nat → BString) {k : Nat} {torrent : BString} (md : Digest)
    (hlen : torrent.length = shaDigestLength * k) (seeder : Bool) (us : UploadServer) :
    (k < 2 ^ 31 → ∃ s, Converges (fun fuel => loadMeta after fuel torrent md.val seeder us)
      (.ok s) ∧ s.nPieces = k) ∧
    (2 ^ 31 ≤ k → Converges (fun fuel => loadMeta after fuel torrent md.val seeder us)
      (.error .undefined)) := by
  obtain ⟨N, hload⟩ := Peer.loadMeta_converges after k torrent md.val 0 hlen md.property []
  generalize hshs : [] ++ (List.range k).map
    (fun i => ofPointer (digestAt torrent i) (after (([] : List BString).length + i))) = shs
    at hload
  have hcount : shs.length = k := by simp [← hshs]
  subst hcount
  constructor
  · intro hlt
    obtain ⟨bf, hbf⟩ := exists_initial_bitfield shs.length seeder
    exact ⟨_, ⟨N, fun m hm => loadMeta_of_ok (hload m hm) hlt hbf us⟩, rfl⟩
  · exact fun hge => ⟨N, fun m hm => loadMeta_of_many (hload m hm) hge seeder us⟩

end PeerState

/-! ## The three cuts -/

/-- The generator, the loader and a server of the file agree on the pieces of the file. -/
def CutAlike (sha1 : BString → Digest) (after : Nat → BString) (md : Digest) (seeder : Bool)
    (us server : UploadServer) : Prop :=
  ∃ torrent s, Converges (fun fuel => torrentGenerator sha1 fuel (lit "512") server.tsfs.content)
      (.ok torrent) ∧
    Converges (fun fuel => PeerState.loadMeta after fuel torrent md.val seeder us) (.ok s) ∧
    s.nPieces = chunkCount pieceLength server.tsfs.content ∧
    (∀ i < s.nPieces, ∃ t, readPiece i server = (.ok (piece server.tsfs.content i), t) ∧
      digestAt torrent i = (sha1 (piece server.tsfs.content i)).val) ∧
    (∀ i : Nat, s.nPieces ≤ i → i < 2 ^ 31 →
      ∃ t, readPiece i server = (.error .invalidPieceNoException, t)) ∧
    (List.range s.nPieces).flatMap (piece server.tsfs.content) = server.tsfs.content

theorem torrentGenerator_eq {size : Str} {kilobytes : Int} (hsize : stoll size = .ok kilobytes)
    (hlen : (kilobytes * 1024 % 2 ^ 64).toNat = len) (fuel : Nat) (src : BString) :
    torrentGenerator sha1 fuel size src = hashChunks sha1 len fuel (.opened src) [] := by
  subst hlen
  simp only [torrentGenerator, hsize, bind, Except.bind, Except.mapError]

theorem stoll_512 : stoll (lit "512") = .ok 512 := by
  have hread : strtol (lit "512") = some 512 := by decide
  simp [stoll, hread]

theorem bytes_512 : ((512 : Int) * 1024 % 2 ^ 64).toNat = pieceLength := by
  have hbytes : (512 : Int) * 1024 % 2 ^ 64 = (524288 : Nat) := by norm_num
  rw [hbytes, Int.toNat_natCast]

theorem torrentGenerator_converges (sha1 : BString → Digest) (src : BString) :
    Converges (fun fuel => torrentGenerator sha1 fuel (lit "512") src)
      (.ok (digests sha1 pieceLength src)) := by
  have hpos : 0 < pieceLength := by decide
  have hint : pieceLength < 2 ^ 31 := by decide
  have hchunks := hashChunks_converges sha1 hpos hint src [] 0
  rw [List.nil_append] at hchunks
  obtain ⟨N, hN⟩ := hchunks
  refine ⟨N, fun m hm => ?_⟩
  calc torrentGenerator sha1 m (lit "512") src
      = hashChunks sha1 pieceLength m (.opened src) [] :=
        torrentGenerator_eq stoll_512 bytes_512 m src
    _ = .ok (digests sha1 pieceLength src) := hN m hm

theorem chunkCount_lt_iff (src : BString) :
    chunkCount pieceLength src < 2 ^ 31 ↔ src.length ≤ (2 ^ 31 - 1) * pieceLength := by
  have hlast : 2 ^ 31 - 1 < chunkCount pieceLength src ↔ (2 ^ 31 - 1) * pieceLength < src.length :=
    lt_chunkCount (by decide)
  omega

variable {after : Nat → BString} {md : Digest} {seeder : Bool} {us server : UploadServer}

/-- More pieces are not counted to the end. -/
theorem CutAlike.chunkCount_lt (h : CutAlike sha1 after md seeder us server) :
    chunkCount pieceLength server.tsfs.content < 2 ^ 31 := by
  obtain ⟨torrent, s, hgen, hload, -⟩ := h
  have hdigests := length_digests sha1 pieceLength server.tsfs.content
  by_contra hge
  cases (torrentGenerator_converges sha1 server.tsfs.content).unique hgen
  cases hload.unique ((PeerState.loadMeta_converges after md hdigests seeder us).2
    (Nat.not_lt.mp hge))

theorem cutAlike_of_lt (hopen : server.tsfs.failed = false)
    (hlt : chunkCount pieceLength server.tsfs.content < 2 ^ 31) :
    CutAlike sha1 after md seeder us server := by
  obtain ⟨⟨src, old, failed⟩, buf⟩ := server
  cases hopen
  dsimp only at hlt
  obtain ⟨s, hload, hn⟩ := (PeerState.loadMeta_converges after md
    (length_digests sha1 pieceLength src) seeder us).1 hlt
  refine ⟨_, s, torrentGenerator_converges sha1 src, hload, hn, fun i hi => ?_,
    fun i hi hint => ?_, ?_⟩
  · rw [hn] at hi
    have hstart : i * pieceLength < src.length := (lt_chunkCount (by decide)).mp hi
    obtain ⟨pos, buf', hread⟩ := readPiece_run hstart (mul_pieceLength_lt (hi.trans hlt)) old buf
    exact ⟨_, hread, digestAt_digests hi⟩
  · rw [hn] at hi
    have hend : src.length ≤ i * pieceLength := by
      by_contra hstart
      exact Nat.not_lt.mpr hi ((lt_chunkCount (by decide)).mpr (Nat.not_le.mp hstart))
    exact ⟨_, readPiece_past hend (mul_pieceLength_lt hint) old buf⟩
  · rw [hn]
    exact flatMap_chunk (by decide) src

/-- The three of them cut a file alike if and only if its pieces can be counted by an `int`. -/
theorem cut_alike_iff (sha1 : BString → Digest) (after : Nat → BString) (md : Digest)
    (seeder : Bool) (us : UploadServer) (src buf : BString) (pos : Nat) :
    CutAlike sha1 after md seeder us ⟨⟨src, pos, false⟩, buf⟩ ↔
      src.length ≤ (2 ^ 31 - 1) * pieceLength := by
  rw [← chunkCount_lt_iff]
  exact ⟨fun h => h.chunkCount_lt, fun hlt => cutAlike_of_lt rfl hlt⟩

/-- A file of one byte more. -/
theorem too_many_pieces : ¬ CutAlike sampleSha1 (fun _ => []) digestOfOnes false (.ofEmpty [])
    ⟨⟨List.replicate ((2 ^ 31 - 1) * pieceLength + 1) 0, 0, false⟩, []⟩ := by
  intro h
  have hle := (chunkCount_lt_iff _).mp h.chunkCount_lt
  rw [List.length_replicate] at hle
  omega

end P2PFileSharing.Peer
