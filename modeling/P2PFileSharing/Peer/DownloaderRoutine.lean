import P2PFileSharing.Library.Machine
import P2PFileSharing.Peer.TsafeSet
import Mathlib.Logic.ExistsUnique

/-!
# The download threads of a leecher

Any number of threads run `peer::downloader_routine` over one shared `tsafe_set`. The state
records where each thread stands in the routine; an event is one locked call on the set or one
complete outcome of `downloader::download`, made by a named thread.

A thread holds a piece from its `remove_top` until the attempt is over: until `download`
has returned, or until the handler that reacts to its exception is through.
-/

namespace P2PFileSharing.Peer

open Library

/-- Where a thread stands in `downloader_routine`. -/
inductive Worker where
  /-- constructing its `downloader` -/
  | connecting
  /-- at the loop condition `!p.pieces.empty()` -/
  | testing
  /-- at `p.pieces.remove_top()` -/
  | removing
  | downloading (pieceId : Nat)
  /-- in the handler of `std::exception`, at `p.pieces.push(piece_id)` -/
  | pushingBack (pieceId : Nat)
  /-- through; `drained` when it left because the set was empty -/
  | exited (drained : Bool)
  deriving DecidableEq, Repr

def Worker.held : Worker → Option Nat
  | .downloading i => some i
  | .pushingBack i => some i
  | _ => none

@[simp] theorem Worker.held_connecting : Worker.connecting.held = none := rfl
@[simp] theorem Worker.held_testing : Worker.testing.held = none := rfl
@[simp] theorem Worker.held_removing : Worker.removing.held = none := rfl
@[simp] theorem Worker.held_downloading (i : Nat) : (downloading i).held = some i := rfl
@[simp] theorem Worker.held_pushingBack (i : Nat) : (pushingBack i).held = some i := rfl
@[simp] theorem Worker.held_exited (d : Bool) : (exited d).held = none := rfl

/-- How a call of `downloader::download` ends, with the priority changes made meanwhile. -/
inductive Outcome where
  | success (updates : List (Nat × Int))
  | shaMismatch
  | failure (updates : List (Nat × Int))
  deriving DecidableEq, Repr

inductive Event where
  | connect (connected : Bool)
  | empty
  | removeTop
  | download (outcome : Outcome)
  | push
  deriving DecidableEq, Repr

structure Leecher (ι : Type*) where
  pieces : TsafeSet
  workers : ι → Worker
  /-- ids whose `download` returned, in order -/
  downloaded : List Nat
  /-- set once `remove_top` was run on an empty set; the program has no meaning from there on -/
  undefined : Bool

namespace Leecher

variable {ι : Type*}

/-- After `load_meta`, with every thread at the start of its routine. -/
def initial (nPieces : Nat) : Leecher ι where
  pieces := .load nPieces
  workers _ := .connecting
  downloaded := []
  undefined := false

variable [DecidableEq ι]

def setWorker (s : Leecher ι) (t : ι) (w : Worker) : Leecher ι :=
  { s with workers := Function.update s.workers t w }

/-- One atomic step of `downloader_routine` in thread `t`. -/
def downloaderRoutine (s : Leecher ι) : ι × Event → Option (Leecher ι)
  | (t, e) =>
    if s.undefined then none
    else
      match s.workers t, e with
      | .connecting, .connect connected =>
        some (s.setWorker t (if connected then .testing else .exited false))
      | .testing, .empty =>
        some (s.setWorker t (if s.pieces.empty then .exited true else .removing))
      | .removing, .removeTop =>
        match s.pieces.removeTop with
        | none => some { s with undefined := true }
        | some (pieceId, pieces) => some ({ s with pieces }.setWorker t (.downloading pieceId))
      | .downloading pieceId, .download (.success updates) =>
        some ({ s with
          pieces := s.pieces.updatePriorities updates
          downloaded := s.downloaded ++ [pieceId] }.setWorker t .testing)
      -- the handler only prints: the thread goes on, and nothing puts the piece back
      | .downloading _, .download .shaMismatch => some (s.setWorker t .testing)
      | .downloading pieceId, .download (.failure updates) =>
        some ({ s with pieces := s.pieces.updatePriorities updates }.setWorker t
          (.pushingBack pieceId))
      | .pushingBack pieceId, .push =>
        some ({ s with pieces := s.pieces.push pieceId }.setWorker t (.exited false))
      | _, _ => none

/-- What a step can do, one case for each pair of program point and event. -/
inductive Step (s : Leecher ι) (t : ι) : Event → Leecher ι → Prop where
  | connect (connected : Bool) (at_ : s.workers t = .connecting) :
      Step s t (.connect connected)
        (s.setWorker t (if connected then .testing else .exited false))
  | empty (at_ : s.workers t = .testing) :
      Step s t .empty (s.setWorker t (if s.pieces.empty then .exited true else .removing))
  | removeTopOfEmpty (at_ : s.workers t = .removing) (none_left : s.pieces.pieceSet = []) :
      Step s t .removeTop { s with undefined := true }
  | removeTop (pieceId : Nat) (pieces : TsafeSet) (at_ : s.workers t = .removing)
      (top : s.pieces.removeTop = some (pieceId, pieces)) :
      Step s t .removeTop ({ s with pieces }.setWorker t (.downloading pieceId))
  | success (pieceId : Nat) (updates : List (Nat × Int))
      (at_ : s.workers t = .downloading pieceId) :
      Step s t (.download (.success updates))
        ({ s with
          pieces := s.pieces.updatePriorities updates
          downloaded := s.downloaded ++ [pieceId] }.setWorker t .testing)
  | shaMismatch (pieceId : Nat) (at_ : s.workers t = .downloading pieceId) :
      Step s t (.download .shaMismatch) (s.setWorker t .testing)
  | failure (pieceId : Nat) (updates : List (Nat × Int))
      (at_ : s.workers t = .downloading pieceId) :
      Step s t (.download (.failure updates))
        ({ s with pieces := s.pieces.updatePriorities updates }.setWorker t
          (.pushingBack pieceId))
  | push (pieceId : Nat) (at_ : s.workers t = .pushingBack pieceId) :
      Step s t .push ({ s with pieces := s.pieces.push pieceId }.setWorker t (.exited false))

theorem step_of_downloaderRoutine {s s' : Leecher ι} {t : ι} {e : Event}
    (h : s.downloaderRoutine (t, e) = some s') : s.undefined = false ∧ Step s t e s' := by
  have hdef : s.undefined = false := by
    by_contra hne
    simp [downloaderRoutine, hne] at h
  refine ⟨hdef, ?_⟩
  simp only [downloaderRoutine] at h
  rw [if_neg (show ¬ s.undefined = true by simp [hdef])] at h
  split at h
  next hw => cases h; exact .connect _ hw
  next hw => cases h; exact .empty hw
  next hw =>
    split at h
    next htop => cases h; exact .removeTopOfEmpty hw (TsafeSet.removeTop_eq_none.mp htop)
    next htop => cases h; exact .removeTop _ _ hw htop
  next hw => cases h; exact .success _ _ hw
  next hw => cases h; exact .shaMismatch _ hw
  next hw => cases h; exact .failure _ _ hw
  next hw => cases h; exact .push _ hw
  next => cases h

/-! ## Where the pieces are -/

/-- The places a piece can be in. -/
inductive Place (ι : Type*) where
  | queued
  | held (t : ι)
  | downloaded

def InPlace (s : Leecher ι) (i : Nat) : Place ι → Prop
  | .queued => i ∈ s.pieces.pieceSet
  | .held t => (s.workers t).held = some i
  | .downloaded => i ∈ s.downloaded

instance (s : Leecher ι) (i : Nat) (p : Place ι) : Decidable (s.InPlace i p) :=
  match p with
  | .queued => inferInstanceAs (Decidable (i ∈ s.pieces.pieceSet))
  | .held t => inferInstanceAs (Decidable ((s.workers t).held = some i))
  | .downloaded => inferInstanceAs (Decidable (i ∈ s.downloaded))

/-- Every piece is in exactly one place, and in the hands of exactly one thread if it is held. -/
def Conserved (nPieces : Nat) (s : Leecher ι) : Prop :=
  s.undefined = false ∧ ∀ i < nPieces, ∃! p, s.InPlace i p

/-- The steps that no piece gets lost in: `download` does not end in a hash mismatch, and
`remove_top` finds a piece. -/
def Harmless (s : Leecher ι) : ι × Event → Prop
  | (_, .download .shaMismatch) => False
  | (_, .removeTop) => s.pieces.pieceSet ≠ []
  | _ => True

/-- Conservation, with what the steps need to keep it. -/
structure Sound (nPieces : Nat) (s : Leecher ι) : Prop where
  conserved : s.Conserved nPieces
  nodup : s.pieces.pieceSet.Nodup
  queued_lt : ∀ i ∈ s.pieces.pieceSet, i < nPieces
  held_lt : ∀ t i, (s.workers t).held = some i → i < nPieces

variable {n : Nat} {s s' : Leecher ι} {t : ι}

@[simp] theorem setWorker_pieces (s : Leecher ι) (t : ι) (w : Worker) :
    (s.setWorker t w).pieces = s.pieces := rfl
@[simp] theorem setWorker_downloaded (s : Leecher ι) (t : ι) (w : Worker) :
    (s.setWorker t w).downloaded = s.downloaded := rfl
@[simp] theorem setWorker_undefined (s : Leecher ι) (t : ι) (w : Worker) :
    (s.setWorker t w).undefined = s.undefined := rfl
@[simp] theorem setWorker_self (s : Leecher ι) (t : ι) (w : Worker) :
    (s.setWorker t w).workers t = w := by simp [setWorker]
theorem setWorker_of_ne (s : Leecher ι) (w : Worker) {u : ι} (h : u ≠ t) :
    (s.setWorker t w).workers u = s.workers u := by simp [setWorker, h]

omit [DecidableEq ι] in
theorem initial_sound (n : Nat) : (initial n : Leecher ι).Sound n := by
  obtain ⟨hnodup, hmem⟩ := TsafeSet.load_spec n
  refine ⟨⟨rfl, fun i hi => ⟨.queued, (hmem i).mpr hi, ?_⟩⟩, hnodup, fun i => (hmem i).mp, ?_⟩
  · rintro (_ | u | _) hp
    · rfl
    · simp [InPlace, initial] at hp
    · simp [InPlace, initial] at hp
  · intro u i hu
    simp [initial] at hu

omit [DecidableEq ι] in
/-- A piece that is known to be in one place is in no other. -/
theorem Sound.only {p : Place ι} (h : s.Sound n) {i : Nat} (hi : i < n) (hp : s.InPlace i p)
    (q : Place ι) : s.InPlace i q ↔ q = p := by
  constructor
  · exact fun hq => (h.conserved.2 i hi).unique hq hp
  · rintro rfl
    exact hp

omit [DecidableEq ι] in
/-- Piece `j` goes to place `q`, and every other piece stays where it is. -/
theorem Sound.move (h : s.Sound n) {j : Nat} {q : Place ι} (hdef : s'.undefined = false)
    (hj : ∀ p, s'.InPlace j p ↔ p = q)
    (others : ∀ i, i ≠ j → ∀ p, s'.InPlace i p ↔ s.InPlace i p) : s'.Conserved n := by
  refine ⟨hdef, fun i hi => ?_⟩
  by_cases hij : i = j
  · subst hij
    exact ⟨q, (hj q).mpr rfl, fun p hp => (hj p).mp hp⟩
  · simpa only [others i hij] using h.conserved.2 i hi

/-- A thread that holds nothing before and after its step moves no piece. -/
theorem Sound.setWorker_idle (h : s.Sound n) {w : Worker} (hold : (s.workers t).held = none)
    (hw : w.held = none) : (s.setWorker t w).Sound n := by
  have held_iff (u : ι) (i : Nat) :
      ((s.setWorker t w).workers u).held = some i ↔ (s.workers u).held = some i := by
    by_cases hu : u = t
    · subst hu
      simp [hw, hold]
    · rw [setWorker_of_ne s w hu]
  have same (i : Nat) (p : Place ι) : (s.setWorker t w).InPlace i p ↔ s.InPlace i p := by
    cases p with
    | queued => exact Iff.rfl
    | held u => exact held_iff u i
    | downloaded => exact Iff.rfl
  refine ⟨⟨h.conserved.1, fun i hi => ?_⟩, h.nodup, h.queued_lt,
    fun u i hu => h.held_lt u i ((held_iff u i).mp hu)⟩
  simpa only [same] using h.conserved.2 i hi

/-- A thread that gives up nothing and takes up nothing leaves the holders as they are. -/
theorem held_setWorker_iff {w : Worker} {u : ι} {i : Nat} :
    ((s.setWorker t w).workers u).held = some i ↔
      u = t ∧ w.held = some i ∨ u ≠ t ∧ (s.workers u).held = some i := by
  by_cases hu : u = t
  · subst hu
    simp
  · simp [hu, setWorker_of_ne s w hu]

/-- `remove_top` moves its piece from the queue to the thread. -/
theorem Sound.removeTop (h : s.Sound n) {pieceId : Nat} {pieces : TsafeSet}
    (hw : s.workers t = .removing) (htop : s.pieces.removeTop = some (pieceId, pieces)) :
    ({ s with pieces }.setWorker t (.downloading pieceId)).Sound n := by
  obtain ⟨hset, -⟩ := TsafeSet.removeTop_eq_some.mp htop
  have hnodup := h.nodup
  have hlt := h.queued_lt
  rw [hset] at hnodup hlt
  obtain ⟨hnot, hnodup⟩ := List.nodup_cons.mp hnodup
  have hid : pieceId < n := hlt pieceId (by simp)
  have honly := h.only hid (p := .queued) (by simp [InPlace, hset])
  have hidle : (s.workers t).held = none := by simp [hw]
  refine ⟨h.move (j := pieceId) (q := .held t) h.conserved.1 ?_ ?_, hnodup,
    fun i hi => hlt i (List.mem_cons_of_mem _ hi), ?_⟩
  · rintro (_ | u | _)
    · simpa [InPlace] using hnot
    · have := honly (.held u)
      simp only [InPlace, held_setWorker_iff] at this ⊢
      simp [this]
    · simpa [InPlace] using honly .downloaded
  · rintro i hi (_ | u | _)
    · simp [InPlace, hset, hi]
    · by_cases hu : u = t
      · subst hu
        simp [InPlace, hidle, Ne.symm hi]
      · simp [InPlace, held_setWorker_iff, hu]
    · exact Iff.rfl
  · intro u i hu
    rw [held_setWorker_iff] at hu
    rcases hu with ⟨-, hu⟩ | ⟨-, hu⟩
    · cases hu
      exact hid
    · exact h.held_lt u i hu

/-- `download` returning moves its piece from the thread to the downloaded ones. -/
theorem Sound.success (h : s.Sound n) {pieceId : Nat} (updates : List (Nat × Int))
    (hw : s.workers t = .downloading pieceId) :
    ({ s with
      pieces := s.pieces.updatePriorities updates
      downloaded := s.downloaded ++ [pieceId] }.setWorker t .testing).Sound n := by
  obtain ⟨hnodup, hmem⟩ := TsafeSet.updatePriorities_spec h.nodup updates
  have hheld : (s.workers t).held = some pieceId := by simp [hw]
  have hid := h.held_lt t pieceId hheld
  have honly := h.only hid (p := .held t) hheld
  refine ⟨h.move (j := pieceId) (q := .downloaded) h.conserved.1 ?_ ?_, hnodup,
    fun i hi => h.queued_lt i ((hmem i).mp hi), ?_⟩
  · rintro (_ | u | _)
    · simpa [InPlace, hmem] using honly .queued
    · have := honly (.held u)
      simp only [InPlace, held_setWorker_iff] at this ⊢
      simp [this]
    · simp [InPlace]
  · rintro i hi (_ | u | _)
    · exact hmem i
    · by_cases hu : u = t
      · subst hu
        simp [InPlace, hheld, Ne.symm hi]
      · simp [InPlace, held_setWorker_iff, hu]
    · simp [InPlace, hi]
  · intro u i hu
    rw [held_setWorker_iff] at hu
    rcases hu with ⟨-, hu⟩ | ⟨-, hu⟩
    · simp at hu
    · exact h.held_lt u i hu

/-- A failed `download` leaves its piece with the thread, which is about to put it back. -/
theorem Sound.failure (h : s.Sound n) {pieceId : Nat} (updates : List (Nat × Int))
    (hw : s.workers t = .downloading pieceId) :
    ({ s with pieces := s.pieces.updatePriorities updates }.setWorker t
      (.pushingBack pieceId)).Sound n := by
  obtain ⟨hnodup, hmem⟩ := TsafeSet.updatePriorities_spec h.nodup updates
  have hheld : (s.workers t).held = some pieceId := by simp [hw]
  have held_iff (u : ι) (i : Nat) :
      (({ s with pieces := s.pieces.updatePriorities updates }.setWorker t
        (.pushingBack pieceId)).workers u).held = some i ↔ (s.workers u).held = some i := by
    by_cases hu : u = t
    · subst hu
      simp [hheld]
    · simp [held_setWorker_iff, hu]
  refine ⟨⟨h.conserved.1, fun i hi => ?_⟩, hnodup, fun i hi => h.queued_lt i ((hmem i).mp hi),
    fun u i hu => h.held_lt u i ((held_iff u i).mp hu)⟩
  have same (p : Place ι) : ({ s with pieces := s.pieces.updatePriorities updates }.setWorker t
      (.pushingBack pieceId)).InPlace i p ↔ s.InPlace i p := by
    cases p with
    | queued => exact hmem i
    | held u => exact held_iff u i
    | downloaded => exact Iff.rfl
  simpa only [same] using h.conserved.2 i hi

/-- Pushing the piece back moves it from the thread to the queue. -/
theorem Sound.push (h : s.Sound n) {pieceId : Nat} (hw : s.workers t = .pushingBack pieceId) :
    ({ s with pieces := s.pieces.push pieceId }.setWorker t (.exited false)).Sound n := by
  have hheld : (s.workers t).held = some pieceId := by simp [hw]
  have hid := h.held_lt t pieceId hheld
  have honly := h.only hid (p := .held t) hheld
  have hnot : pieceId ∉ s.pieces.pieceSet := by simpa [InPlace] using honly .queued
  refine ⟨h.move (j := pieceId) (q := .queued) h.conserved.1 ?_ ?_,
    TsafeSet.nodup_push h.nodup hnot, ?_, ?_⟩
  · rintro (_ | u | _)
    · simp [InPlace]
    · have := honly (.held u)
      simp only [InPlace, held_setWorker_iff] at this ⊢
      simp [this]
    · simpa [InPlace] using honly .downloaded
  · rintro i hi (_ | u | _)
    · simp [InPlace, hi]
    · by_cases hu : u = t
      · subst hu
        simp [InPlace, hheld, Ne.symm hi]
      · simp [InPlace, held_setWorker_iff, hu]
    · exact Iff.rfl
  · intro i hi
    rcases (TsafeSet.mem_push s.pieces pieceId i).mp hi with rfl | hi
    · exact hid
    · exact h.queued_lt i hi
  · intro u i hu
    rw [held_setWorker_iff] at hu
    rcases hu with ⟨-, hu⟩ | ⟨-, hu⟩
    · simp at hu
    · exact h.held_lt u i hu

/-- A hash mismatch drops the piece of the thread: it is in no place at all afterwards. -/
theorem Sound.lost_of_shaMismatch (h : s.Sound n) {pieceId : Nat}
    (hw : s.workers t = .downloading pieceId) (p : Place ι) :
    ¬ (s.setWorker t .testing).InPlace pieceId p := by
  have hheld : (s.workers t).held = some pieceId := by simp [hw]
  have honly := h.only (h.held_lt t pieceId hheld) (p := .held t) hheld
  cases p with
  | queued => simpa [InPlace] using honly .queued
  | held u =>
    have := honly (.held u)
    simp only [InPlace, held_setWorker_iff] at this ⊢
    simp [this]
  | downloaded => simpa [InPlace] using honly .downloaded

theorem Sound.step (h : s.Sound n) {e : Event} (ok : s.Harmless (t, e)) (hs : Step s t e s') :
    s'.Sound n := by
  cases hs with
  | connect c hw =>
    exact h.setWorker_idle (by simp [hw]) (by cases c <;> simp)
  | empty hw =>
    exact h.setWorker_idle (by simp [hw]) (by split <;> simp)
  | removeTopOfEmpty hw hnone => exact absurd hnone ok
  | removeTop i pieces hw htop => exact h.removeTop hw htop
  | success i updates hw => exact h.success updates hw
  | shaMismatch i hw => exact ok.elim
  | failure i updates hw => exact h.failure updates hw
  | push i hw => exact h.push hw

theorem Sound.spoiled (h : s.Sound n) {e : Event} (bad : ¬ s.Harmless (t, e))
    (hs : Step s t e s') : ¬ s'.Conserved n := by
  cases hs with
  | removeTopOfEmpty hw hnone => simp [Conserved]
  | shaMismatch i hw =>
    rintro ⟨-, hplaces⟩
    have hlt := h.held_lt t i (by simp [hw])
    obtain ⟨p, hp, -⟩ := hplaces i hlt
    exact h.lost_of_shaMismatch hw p hp
  | removeTop i pieces hw htop =>
    have hset := (TsafeSet.removeTop_eq_some.mp htop).1
    exact absurd (show s.pieces.pieceSet ≠ [] by simp [hset]) bad
  | connect | empty | success | failure | push => exact absurd trivial bad

/-- In a run of any number of threads every piece stays in exactly one place throughout if and
only if no download of the run ends in a hash mismatch and no `remove_top` meets an empty set. -/
theorem conserved_iff_harmless (nPieces : Nat) (es : List (ι × Event)) :
    Machine.AllStates downloaderRoutine (Conserved nPieces) (initial nPieces : Leecher ι) es ↔
      Machine.AllSteps downloaderRoutine Harmless (initial nPieces : Leecher ι) es := by
  have weaken (s : Leecher ι) : s.Sound nPieces → s.Conserved nPieces := fun h => h.conserved
  refine Machine.allStates_iff_allSteps weaken ?_ ?_ (initial_sound nPieces) es
  · rintro s ⟨t, e⟩ s' h ok hs
    exact h.step ok (step_of_downloaderRoutine hs).2
  · rintro s ⟨t, e⟩ s' h bad hs
    exact h.spoiled bad (step_of_downloaderRoutine hs).2

/-- One thread, one piece, one answer with the wrong hash: the piece is in no place. -/
theorem piece_lost_on_mismatch :
    ∃ s : Leecher Unit, Machine.run downloaderRoutine (initial 1)
        [((), .connect true), ((), .empty), ((), .removeTop), ((), .download .shaMismatch)] =
          some s ∧ ∀ p, ¬ s.InPlace 0 p := by
  refine ⟨_, rfl, ?_⟩
  rintro (_ | ⟨⟨⟩⟩ | _) <;> decide

end Leecher

end P2PFileSharing.Peer
