import P2PFileSharing.Peer.Torrent

/-!
# The loops that scan a file

`load_meta` and the generator read a file until `eof()`. Only a read that comes up short sets that
bit: a stream that has failed, or is asked for no bytes, never gets it.
-/

namespace P2PFileSharing.Peer

open Library

/-- What is found at a path. -/
inductive FileState where
  | missing
  | unreadable
  | holding (content : BString)
  deriving DecidableEq, Repr

/-- `std::ifstream in(path)`. A file that cannot be opened gives `failbit` at once, and one that
is opened but cannot be read gives `badbit` with its first read. -/
def IfStream.ofFile : FileState → IfStream
  | .missing => ⟨[], false, true, 0⟩
  | .unreadable => ⟨[], false, true, 0⟩
  | .holding content => .opened content

/-- `chunk_len`, which is a `size_t`. -/
def chunkLen (kilobytes : Int) : Nat := (kilobytes * 1024 % 2 ^ 64).toNat

/-- `main` of the generator, with the size in kilobytes and the state of the source file. No
object has `2 ^ 63` bytes, so a buffer of that size is undefined. -/
def generateFrom (sha1 : BString → Digest) (fuel : Nat) (size : Str) (src : FileState) :
    Except Fault BString := do
  let kilobytes ← (stoll size).mapError Fault.thrown
  if 2 ^ 63 ≤ chunkLen kilobytes then throw .undefined
  hashChunks sha1 (chunkLen kilobytes) fuel (.ofFile src) []

/-- With enough fuel there is a result or an exception. -/
def Ends {α : Type} (x : Nat → Except Fault α) : Prop :=
  ∃ r, ((∃ a, r = .ok a) ∨ ∃ e, r = .error (.thrown e)) ∧ Converges x r

/-- The file can be read. -/
def FileState.Readable (file : FileState) : Prop := ∃ content, file = .holding content

/-- The size is refused, or it is that of a buffer and not empty. -/
def GoodSize (size : Str) : Prop :=
  ∀ kilobytes, stoll size = .ok kilobytes → 0 < chunkLen kilobytes ∧ chunkLen kilobytes < 2 ^ 63

/-! ## One read -/

namespace IfStream

/-- How much there is to scan. -/
def remaining (s : IfStream) : Nat := if s.eof then 0 else s.rest.length + 1

/-- A stream fails only where it also ends. -/
def Sound (s : IfStream) : Prop := s.fail = true → s.eof = true

/-- A read of some bytes, before the end, comes closer to it. -/
theorem read_spec {s : IfStream} {n : Nat} (hs : s.Sound) (heof : s.eof = false) (hn : 0 < n) :
    (s.read n).1.Sound ∧ (s.read n).1.remaining < s.remaining := by
  have hfail : s.fail = false := by
    by_contra h
    exact Bool.false_ne_true (heof.symm.trans (hs (by simpa using h)))
  simp only [read, heof, hfail, remaining, Sound]
  by_cases hshort : s.rest.length < n
  · simp [hshort]
  · simp [hshort]
    omega

/-- A read changes nothing and stores nothing, and the stream is not at its end. -/
def Stuck (n : Nat) (s : IfStream) : Prop := s.eof = false ∧ s.gcount = 0 ∧ s.read n = (s, [])

theorem stuck_of_not_readable {file : FileState} (h : ¬ file.Readable) (n : Nat) :
    (ofFile file).Stuck n := by
  cases file with
  | missing => exact ⟨rfl, rfl, rfl⟩
  | unreadable => exact ⟨rfl, rfl, rfl⟩
  | holding content => exact absurd ⟨content, rfl⟩ h

theorem stuck_zero (file : FileState) : (ofFile file).Stuck 0 := by
  cases file with
  | missing => exact ⟨rfl, rfl, rfl⟩
  | unreadable => exact ⟨rfl, rfl, rfl⟩
  | holding content => exact ⟨rfl, rfl, by simp [ofFile, opened, read]⟩

theorem sound_of_readable {file : FileState} (h : file.Readable) : (ofFile file).Sound := by
  obtain ⟨content, rfl⟩ := h
  exact fun hfail => hfail

end IfStream

/-! ## The loops -/

section Loops

variable {α : Type} {x y : Nat → Except Fault α}

theorem ends_of_eq (h : ∀ n, x n = y n) : Ends x ↔ Ends y := by rw [funext h]

theorem not_ends {f : Fault} (hf : ∀ e, f ≠ .thrown e) (h : Converges x (.error f)) :
    ¬ Ends x := by
  rintro ⟨r, ⟨a, rfl⟩ | ⟨e, rfl⟩, hr⟩
  · cases h.unique hr
  · cases h.unique hr
    exact hf e rfl

theorem not_ends_of_repeat (hzero : x 0 = .error .outOfFuel) (round : ∀ n, x (n + 1) = x n) :
    ¬ Ends x :=
  not_ends (fun _ h => Fault.noConfusion h) (hzero ▸ Converges.of_repeat round)

/-- A loop that reads some bytes in each round, until `eof()`, ends on a sound stream. -/
theorem scan_ends {β : Type} {len : Nat} (hlen : 0 < len)
    (loop : IfStream × β → Nat → Except Fault α)
    (last : ∀ p, p.1.eof = true → ∃ a, ∀ n, loop p (n + 1) = .ok a)
    (round : ∀ p, p.1.eof = false → ∃ b, ∀ n, loop p (n + 1) = loop ((p.1.read len).1, b) n)
    (p : IfStream × β) (hs : p.1.Sound) : Ends (loop p) := by
  refine Converges.exists_of_measure (fun p => p.1.Sound) (fun p => p.1.remaining) ?_ p hs
  intro p hs
  cases heof : p.1.eof with
  | true =>
    obtain ⟨a, ha⟩ := last p heof
    exact .inl ⟨.ok a, .inl ⟨a, rfl⟩, (Converges.const _).of_succ ha⟩
  | false =>
    obtain ⟨b, hb⟩ := round p heof
    obtain ⟨hsound, hlt⟩ := IfStream.read_spec hs heof hlen
    exact .inr ⟨((p.1.read len).1, b), hsound, hlt, hb⟩

variable {after : Nat → BString} {md : BString} {shs : List BString} {sha1 : BString → Digest}
  {len : Nat} {out : BString} {s : IfStream}

theorem loadMeta_succ (heof : s.eof = false) (n : Nat) :
    loadMeta after (n + 1) s md shs =
      loadMeta after n (s.read shaDigestLength).1
        ((s.read shaDigestLength).2 ++ md.drop (s.read shaDigestLength).2.length)
        (if (s.read shaDigestLength).1.gcount > 0 then shs ++ [ofPointer
          ((s.read shaDigestLength).2 ++ md.drop (s.read shaDigestLength).2.length)
          (after shs.length)] else shs) := by
  by_cases hcount : (s.read shaDigestLength).1.gcount > 0
  · simp only [loadMeta, heof, Bool.false_eq_true, if_false, if_pos hcount]
  · simp only [loadMeta, heof, Bool.false_eq_true, if_false, if_neg hcount]

theorem hashChunks_succ_of_read (heof : s.eof = false) (n : Nat) :
    hashChunks sha1 len (n + 1) s out =
      hashChunks sha1 len n (s.read len).1
        (if toInt32 (s.read len).1.gcount > 0 then
          out ++ (sha1 ((s.read len).2.take (toInt32 (s.read len).1.gcount).toNat)).val
        else out) := by
  by_cases hcount : toInt32 (s.read len).1.gcount > 0
  · simp only [hashChunks, heof, Bool.false_eq_true, if_false, if_pos hcount]
  · simp only [hashChunks, heof, Bool.false_eq_true, if_false, if_neg hcount]

theorem loadMeta_ends (hs : s.Sound) : Ends (fun fuel => loadMeta after fuel s md shs) := by
  have hlen : 0 < shaDigestLength := by decide
  refine scan_ends hlen (fun p fuel => loadMeta after fuel p.1 p.2.1 p.2.2) ?_ ?_ (s, md, shs) hs
  · rintro ⟨s, md, shs⟩ heof
    exact ⟨shs, fun n => if_pos heof⟩
  · rintro ⟨s, md, shs⟩ heof
    exact ⟨(_, _), loadMeta_succ heof⟩

theorem hashChunks_ends (hs : s.Sound) (hlen : 0 < len) :
    Ends (fun fuel => hashChunks sha1 len fuel s out) := by
  refine scan_ends hlen (fun p fuel => hashChunks sha1 len fuel p.1 p.2) ?_ ?_ (s, out) hs
  · rintro ⟨s, out⟩ heof
    exact ⟨out, fun n => if_pos heof⟩
  · rintro ⟨s, out⟩ heof
    dsimp only at heof ⊢
    exact ⟨_, hashChunks_succ_of_read heof⟩

theorem loadMeta_not_ends (hs : s.Stuck shaDigestLength) :
    ¬ Ends (fun fuel => loadMeta after fuel s md shs) := by
  obtain ⟨heof, hcount, hread⟩ := hs
  refine not_ends_of_repeat rfl fun n => ?_
  simp [loadMeta_succ heof, hread, hcount]

theorem hashChunks_not_ends (hs : s.Stuck len) :
    ¬ Ends (fun fuel => hashChunks sha1 len fuel s out) := by
  obtain ⟨heof, hcount, hread⟩ := hs
  refine not_ends_of_repeat rfl fun n => ?_
  simp [hashChunks_succ_of_read heof, hread, hcount, toInt32]

end Loops

/-! ## Which files and sizes -/

section Files

variable (after : Nat → BString) (md : Digest) (sha1 : BString → Digest) (file : FileState)

theorem loadMeta_ends_iff :
    Ends (fun fuel => loadMeta after fuel (.ofFile file) md.val []) ↔ file.Readable := by
  by_cases h : file.Readable
  · exact iff_of_true (loadMeta_ends (IfStream.sound_of_readable h)) h
  · exact iff_of_false (loadMeta_not_ends (IfStream.stuck_of_not_readable h _)) h

theorem hashChunks_ends_iff (len : Nat) :
    Ends (fun fuel => hashChunks sha1 len fuel (.ofFile file) []) ↔ file.Readable ∧ 0 < len := by
  rcases Nat.eq_zero_or_pos len with rfl | hlen
  · exact iff_of_false (hashChunks_not_ends (IfStream.stuck_zero file)) (fun h => h.2.false)
  · by_cases h : file.Readable
    · exact iff_of_true (hashChunks_ends (IfStream.sound_of_readable h) hlen) ⟨h, hlen⟩
    · have hstuck := IfStream.stuck_of_not_readable h len
      exact iff_of_false (hashChunks_not_ends hstuck) (fun h' => h h'.1)

theorem generateFrom_of_ok {size : Str} {kilobytes : Int} (h : stoll size = .ok kilobytes)
    (fuel : Nat) : generateFrom sha1 fuel size file =
      if 2 ^ 63 ≤ chunkLen kilobytes then .error .undefined
      else hashChunks sha1 (chunkLen kilobytes) fuel (.ofFile file) [] := by
  simp only [generateFrom, h, Except.mapError, bind, Except.bind]
  split_ifs <;> rfl

/-- The generator ends if and only if it refuses the size, or it can read the file and the size is
that of a buffer which is not empty. -/
theorem generateFrom_ends_iff (size : Str) :
    Ends (fun fuel => generateFrom sha1 fuel size file) ↔
      (∃ e, stoll size = .error e) ∨ file.Readable ∧ GoodSize size := by
  cases h : stoll size with
  | error e =>
    refine iff_of_true ⟨.error (.thrown e), .inr ⟨e, rfl⟩, ?_⟩ (.inl ⟨e, rfl⟩)
    refine ⟨0, fun m _ => ?_⟩
    simp only [generateFrom, h, Except.mapError, bind, Except.bind]
  | ok kilobytes =>
    have hgood : GoodSize size ↔ 0 < chunkLen kilobytes ∧ chunkLen kilobytes < 2 ^ 63 := by
      simp [GoodSize, h]
    rw [ends_of_eq (generateFrom_of_ok sha1 file h), hgood]
    split_ifs with hbig
    · refine iff_of_false (not_ends (fun _ h => Fault.noConfusion h) (Converges.const _)) ?_
      rintro (⟨e, he⟩ | ⟨-, -, hlt⟩)
      · cases he
      · omega
    · rw [hashChunks_ends_iff]
      simp
      omega

/-- The loops end exactly if their file can be read, and the generator is given a size that it
refuses or the size of a buffer that is not empty. -/
theorem file_scans_end_iff (size : Str) :
    (Ends (fun fuel => loadMeta after fuel (.ofFile file) md.val []) ↔ file.Readable) ∧
    (Ends (fun fuel => generateFrom sha1 fuel size file) ↔
      (∃ e, stoll size = .error e) ∨ file.Readable ∧ GoodSize size) :=
  ⟨loadMeta_ends_iff after md file, generateFrom_ends_iff sha1 file size⟩

end Files

theorem not_readable_missing : ¬ FileState.missing.Readable := by
  rintro ⟨content, hcontent⟩
  cases hcontent

/-- A torrent file that is not there, and a file that is to be cut into chunks of size 0. -/
theorem scans_without_end :
    ¬ Ends (fun fuel => loadMeta (fun _ => []) fuel (.ofFile .missing) (List.replicate 20 0) []) ∧
      ¬ Ends (fun fuel => generateFrom sampleSha1 fuel (lit "0") (.holding [7])) := by
  have hsize : stoll (lit "0") = .ok 0 := by
    have hread : strtol (lit "0") = some 0 := by decide
    simp [stoll, hread]
  have hlen : chunkLen 0 = 0 := by simp [chunkLen]
  constructor
  · exact loadMeta_not_ends (IfStream.stuck_of_not_readable not_readable_missing _)
  · rw [ends_of_eq (generateFrom_of_ok sampleSha1 _ hsize), hlen]
    exact hashChunks_not_ends (IfStream.stuck_zero _)

end P2PFileSharing.Peer
