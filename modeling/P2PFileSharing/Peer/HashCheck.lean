import Mathlib.Data.List.TakeWhile
import P2PFileSharing.Cpp.Exception
import P2PFileSharing.Cpp.Str
import P2PFileSharing.Library.Fuel

/-!
# The hash check of a piece

`load_meta` fills `shs` with the digests of the torrent file, and `is_valid` compares one of them
with the digest of a downloaded piece. Both sides turn a buffer of 20 bytes into a string through
a pointer, so a digest counts only up to its first zero byte, and a digest without a zero byte
goes on into the memory behind the buffer.
-/

namespace P2PFileSharing.Peer

open Library

/-- `SHA_DIGEST_LENGTH` -/
abbrev shaDigestLength : Nat := 20

/-- A digest, and a buffer of its size. -/
abbrev Digest := { md : BString // md.length = shaDigestLength }

/-- The bytes before the first zero. -/
def upToZero (mem : BString) : BString := mem.takeWhile (· ≠ 0)

/-- `bstring(buf)` for a pointer to `buf`. The memory behind the buffer is `after`, which lists
its bytes as far as the next zero. -/
def ofPointer (buf after : BString) : BString := upToZero (buf ++ after)

/-! ## Reading the torrent file -/

structure IfStream where
  rest : BString
  eof : Bool
  fail : Bool
  gcount : Nat
  deriving DecidableEq, Repr

namespace IfStream

/-- An opened file. -/
def opened (content : BString) : IfStream := ⟨content, false, false, 0⟩

/-- `read(buf, n)` and the bytes that it stored. -/
def read (n : Nat) (s : IfStream) : IfStream × BString :=
  if s.eof ∨ s.fail then ({ s with fail := true, gcount := 0 }, [])
  else
    let short : Bool := s.rest.length < n
    (⟨s.rest.drop n, short, short, (s.rest.take n).length⟩, s.rest.take n)

end IfStream

/-- The loop of `load_meta` over the torrent file. `after k` is the memory behind the buffer when
the digest number `k` is pushed. -/
def loadMeta (after : Nat → BString) :
    Nat → IfStream → BString → List BString → Except Fault (List BString)
  | 0, _, _, _ => .error .outOfFuel
  | fuel + 1, file, md, shs =>
    if file.eof then .ok shs
    else
      let (file, bytes) := file.read shaDigestLength
      let md := bytes ++ md.drop bytes.length
      if file.gcount > 0 then loadMeta after fuel file md (shs ++ [ofPointer md (after shs.length)])
      else loadMeta after fuel file md shs

/-- `SHA1` writes the digest of the piece to a buffer. `shs[piece_id]` is read unchecked. -/
def isValid (sha1 : BString → Digest) (shs : List BString) (after : BString) (pieceId : Nat)
    (piece : BString) : Except Fault Bool :=
  match shs[pieceId]? with
  | some sh => .ok (sh = ofPointer (sha1 piece).val after)
  | none => .error .undefined

/-! ## Comparing through pointers -/

section Pointers

variable {d e a b : BString}

theorem upToZero_ne_self (h : 0 ∈ d) : upToZero d ≠ d := by
  intro hself
  have h0 : 0 ∈ upToZero d := by rwa [hself]
  simpa using List.mem_takeWhile_imp h0

theorem length_upToZero_lt (h : 0 ∈ d) : (upToZero d).length < d.length := by
  have hpre : upToZero d <+: d := List.takeWhile_prefix _
  refine lt_of_le_of_ne hpre.length_le fun hlen => ?_
  exact upToZero_ne_self h (hpre.eq_of_length hlen)

theorem ofPointer_of_mem (h : 0 ∈ d) : ofPointer d a = upToZero d := by
  rw [ofPointer, upToZero, List.takeWhile_append, if_neg]
  · rfl
  · exact (length_upToZero_lt h).ne

theorem ofPointer_of_notMem (h : 0 ∉ d) : ofPointer d a = d ++ upToZero a := by
  refine List.takeWhile_append_of_pos fun c hc => ?_
  simpa using ne_of_mem_of_not_mem hc h

/-- Two buffers of one size count as equal when they agree up to a zero that both contain, or
when they have no zero, agree, and are followed by the same bytes. -/
theorem ofPointer_eq_iff (hlen : d.length = e.length) :
    ofPointer d a = ofPointer e b ↔
      (0 ∈ d ∧ 0 ∈ e ∧ upToZero d = upToZero e) ∨ (0 ∉ d ∧ d = e ∧ upToZero a = upToZero b) := by
  by_cases hd : 0 ∈ d
  · have hshort := length_upToZero_lt hd
    by_cases he : 0 ∈ e
    · simp [ofPointer_of_mem hd, ofPointer_of_mem he, hd, he]
    · have hne : upToZero d ≠ e ++ upToZero b := by
        intro h
        rw [h, List.length_append] at hshort
        omega
      simp [ofPointer_of_mem hd, ofPointer_of_notMem he, hd, he, hne]
  · by_cases he : 0 ∈ e
    · have hshort := length_upToZero_lt he
      have hne : d ++ upToZero a ≠ upToZero e := by
        intro h
        rw [← h, List.length_append] at hshort
        omega
      have hde : d ≠ e := by
        rintro rfl
        exact hd he
      simp [ofPointer_of_notMem hd, ofPointer_of_mem he, hd, hne, hde]
    · have happ : d ++ upToZero a = e ++ upToZero b ↔ d = e ∧ upToZero a = upToZero b := by
        constructor
        · intro h
          exact List.append_inj h hlen
        · rintro ⟨rfl, h⟩
          rw [h]
      simp [ofPointer_of_notMem hd, ofPointer_of_notMem he, hd, he, happ]

end Pointers

/-! ## Loading whole digests -/

/-- Bytes `20 * i` to `20 * i + 19` of a torrent file. -/
def digestAt (torrent : BString) (i : Nat) : BString :=
  (torrent.drop (shaDigestLength * i)).take shaDigestLength

theorem read_whole {n : Nat} {content : BString} (h : n ≤ content.length) (g : Nat) :
    IfStream.read n ⟨content, false, false, g⟩ =
      (⟨content.drop n, false, false, n⟩, content.take n) := by
  have hshort : ¬ content.length < n := by omega
  simp [IfStream.read, h, hshort]

/-- On a file of `k` digests the loop ends and has pushed each of them. -/
theorem loadMeta_converges (after : Nat → BString) (k : Nat) (torrent md : BString) (g : Nat)
    (hlen : torrent.length = shaDigestLength * k) (hmd : md.length = shaDigestLength)
    (shs : List BString) :
    Converges (fun fuel => loadMeta after fuel ⟨torrent, false, false, g⟩ md shs)
      (.ok (shs ++ (List.range k).map
        (fun i => ofPointer (digestAt torrent i) (after (shs.length + i))))) := by
  induction k generalizing torrent md g shs with
  | zero =>
    have hnil : torrent = [] := List.eq_nil_of_length_eq_zero (by omega)
    subst hnil
    have hdone : Converges (fun fuel => loadMeta after fuel ⟨[], true, true, 0⟩ md shs) (.ok shs) :=
      (Converges.const _).of_succ fun n => rfl
    rw [List.range_zero, List.map_nil, List.append_nil]
    exact hdone.of_succ fun n => by simp [loadMeta, IfStream.read]
  | succ k ih =>
    rw [Nat.mul_succ] at hlen
    have hread := read_whole (show shaDigestLength ≤ torrent.length by omega)
    have hfirst : digestAt torrent 0 = torrent.take shaDigestLength := by simp [digestAt]
    have hshift (i : Nat) :
        digestAt (torrent.drop shaDigestLength) i = digestAt torrent (i + 1) := by
      rw [digestAt, digestAt, List.drop_drop, Nat.mul_succ, Nat.add_comm]
    have hrest := ih (torrent.drop shaDigestLength) (torrent.take shaDigestLength) shaDigestLength
      (by rw [List.length_drop]; omega) (by rw [List.length_take]; omega)
      (shs ++ [ofPointer (digestAt torrent 0) (after shs.length)])
    rw [List.range_succ_eq_map, List.map_cons, List.map_map]
    simp only [hshift, List.length_append, List.length_singleton, List.append_assoc,
      List.singleton_append, Nat.add_assoc, Nat.add_comm 1] at hrest
    refine Converges.of_succ hrest fun n => ?_
    have htake : (torrent.take shaDigestLength).length = md.length := by
      rw [List.length_take]
      omega
    simp only [loadMeta, hread, htake, hfirst, List.drop_length, List.append_nil]
    simp

theorem length_digestAt {torrent : BString} {i : Nat} (hi : i < torrent.length / shaDigestLength) :
    (digestAt torrent i).length = shaDigestLength := by
  rw [digestAt, List.length_take, List.length_drop]
  simp only [shaDigestLength] at hi ⊢
  omega

/-! ## When the check is exact -/

/-- The condition for the two strings to compare as the digests `d` and `e` do, where `a` and `b`
are the bytes behind their buffers. -/
def ComparesExactly (d e a b : BString) : Prop :=
  (d = e → 0 ∈ d ∨ upToZero a = upToZero b) ∧
    (d ≠ e → ¬ (0 ∈ d ∧ 0 ∈ e ∧ upToZero d = upToZero e))

instance (d e a b : BString) : Decidable (ComparesExactly d e a b) :=
  inferInstanceAs (Decidable (_ ∧ _))

theorem comparesExactly_iff {d e a b : BString} (hlen : d.length = e.length) :
    (ofPointer d a = ofPointer e b ↔ e = d) ↔ ComparesExactly d e a b := by
  rw [ofPointer_eq_iff hlen, ComparesExactly]
  by_cases hde : d = e
  · subst hde
    by_cases hd : 0 ∈ d <;> simp [hd]
  · simp [hde, Ne.symm hde]

/-- After loading a torrent file of whole digests, the check of a piece says whether its digest
is the one in the file if and only if the two digests compare exactly through pointers. -/
theorem isValid_exact_iff (sha1 : BString → Digest) (torrent : BString)
    (hdvd : shaDigestLength ∣ torrent.length) (i : Nat)
    (hi : i < torrent.length / shaDigestLength) (piece : BString) (md : Digest)
    (after : Nat → BString) (afterPiece : BString) :
    ∃ shs, Converges (fun fuel => loadMeta after fuel (.opened torrent) md []) (.ok shs) ∧
      ∃ valid, isValid sha1 shs afterPiece i piece = .ok valid ∧
        ((valid = true ↔ (sha1 piece).val = digestAt torrent i) ↔
          ComparesExactly (digestAt torrent i) (sha1 piece).val (after i) afterPiece) := by
  have hload := loadMeta_converges after (torrent.length / shaDigestLength) torrent md 0
    (Nat.mul_div_cancel' hdvd).symm md.property []
  have hlen := (length_digestAt hi).trans (sha1 piece).property.symm
  have hexact := comparesExactly_iff (a := after i) (b := afterPiece) hlen
  refine ⟨_, hload, decide (ofPointer (digestAt torrent i) (after i) =
    ofPointer (sha1 piece).val afterPiece), by simp [isValid, hi], ?_⟩
  rw [decide_eq_true_iff, hexact]

/-- A digest without a zero byte, loaded and computed with the same byte behind the buffer. -/
theorem isValid_exact_without_zeros :
    ∃ shs, Converges (fun fuel => loadMeta (fun _ => [7]) fuel
        (.opened (List.replicate 20 1)) (List.replicate 20 0) []) (.ok shs) ∧
      ∃ valid, isValid (fun _ => ⟨List.replicate 20 1, rfl⟩) shs [7] 0 (lit "piece") = .ok valid ∧
        (valid = true ↔ List.replicate 20 1 = digestAt (List.replicate 20 1) 0) := by
  obtain ⟨shs, hload, valid, hvalid, hiff⟩ := isValid_exact_iff
    (fun _ => ⟨List.replicate 20 1, rfl⟩) (List.replicate 20 1) (by decide) 0 (by decide)
    (lit "piece") ⟨List.replicate 20 0, rfl⟩ (fun _ => [7]) [7]
  exact ⟨shs, hload, valid, hvalid, hiff.mpr (by decide)⟩

/-- Two different digests that start with a zero byte count as equal. -/
theorem wrong_digest_accepted :
    ∃ shs, Converges (fun fuel => loadMeta (fun _ => []) fuel
        (.opened (0 :: List.replicate 19 1)) (List.replicate 20 0) []) (.ok shs) ∧
      isValid (fun _ => ⟨0 :: List.replicate 19 2, rfl⟩) shs [] 0 (lit "piece") = .ok true ∧
      0 :: List.replicate 19 2 ≠ digestAt (0 :: List.replicate 19 1) 0 := by
  have hload := loadMeta_converges (fun _ => []) 1 (0 :: List.replicate 19 1)
    (List.replicate 20 0) 0 rfl rfl []
  exact ⟨_, hload, by decide, by decide⟩

end P2PFileSharing.Peer
