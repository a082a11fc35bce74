import P2PFileSharing.Peer.DownloaderRoutine

/-!
# Interleavings of the download threads

Each locked call on the set of pieces is a step of its own here, also those that `update_callback`
makes while a piece is being downloaded. Two things can go wrong between the emptiness test of one
thread and what the others do: its `remove_top` finds nothing, or it quits while a piece that is
in the hands of another thread is still to be put back.
-/

namespace P2PFileSharing.Peer

open Library

/-- A locked call, or what else a thread does to the shared state. -/
inductive Call where
  | connect (connected : Bool)
  | empty
  | removeTop
  /-- from `update_callback`, in a download -/
  | updatePriority (pieceId : Nat) (priority : Int)
  | returned
  | shaMismatch
  | failed
  | push
  deriving DecidableEq, Repr

/-- The event of the routine that a call is, unless it only changes a priority. -/
def Call.event : Call → Option Event
  | .connect connected => some (.connect connected)
  | .empty => some .empty
  | .removeTop => some .removeTop
  | .updatePriority _ _ => none
  | .returned => some (.download (.success []))
  | .shaMismatch => some (.download .shaMismatch)
  | .failed => some (.download (.failure []))
  | .push => some .push

namespace Leecher

variable {ι : Type*} [DecidableEq ι]

/-- One call of thread `t`. -/
def call (s : Leecher ι) : ι × Call → Option (Leecher ι)
  | (t, .updatePriority pieceId priority) =>
    match s.undefined, s.workers t with
    | false, .downloading _ => some { s with pieces := s.pieces.updatePriority pieceId priority }
    | _, _ => none
  | (t, c) => c.event.bind fun e => s.downloaderRoutine (t, e)

variable {n : Nat} {s s' : Leecher ι} {t u : ι} {c : Call}

theorem step_of_call (h : s.call (t, c) = some s') : s.undefined = false ∧
    ((∃ e, c.event = some e ∧ Step s t e s') ∨ ∃ i p j, c = .updatePriority i p ∧
      s.workers t = .downloading j ∧ s' = { s with pieces := s.pieces.updatePriority i p }) := by
  cases c with
  | updatePriority i p =>
    simp only [call] at h
    split at h
    next hdef hw =>
      cases h
      exact ⟨hdef, .inr ⟨i, p, _, rfl, hw, rfl⟩⟩
    next => cases h
  | connect | empty | removeTop | returned | shaMismatch | failed | push =>
    obtain ⟨hdef, hs⟩ := step_of_downloaderRoutine h
    exact ⟨hdef, .inl ⟨_, rfl, hs⟩⟩

theorem call_of_event {e : Event} (hc : c.event = some e) :
    s.call (t, c) = s.downloaderRoutine (t, e) := by
  cases c <;> cases hc <;> rfl

/-- The priority changes of one `update_callback`, made one after the other. -/
theorem run_updates (hdef : s.undefined = false) {i : Nat} (hw : s.workers t = .downloading i)
    (updates : List (Nat × Int)) :
    Machine.run Leecher.call s
        ((updates.map fun u => .updatePriority u.1 u.2).map fun c => (t, c)) =
      some { s with pieces := s.pieces.updatePriorities updates } := by
  induction updates generalizing s with
  | nil => rfl
  | cons u us ih =>
    have hfirst : s.call (t, .updatePriority u.1 u.2) =
        some { s with pieces := s.pieces.updatePriority u.1 u.2 } := by simp [call, hdef, hw]
    rw [List.map_cons, List.map_cons, Machine.run, hfirst, Option.bind_some]
    exact ih (s := { s with pieces := s.pieces.updatePriority u.1 u.2 }) hdef hw

/-- A step of the routine is a run of the calls that its thread makes. -/
theorem exists_calls_of_downloaderRoutine {e : Event} (h : s.downloaderRoutine (t, e) = some s') :
    ∃ cs : List Call, Machine.run Leecher.call s (cs.map fun c => (t, c)) = some s' := by
  have single {c : Call} (hc : c.event = some e) :
      Machine.run Leecher.call s ([c].map fun c => (t, c)) = some s' := by
    simp [Machine.run, call_of_event hc, h]
  have batch (updates : List (Nat × Int)) (c : Call) {i : Nat} (hw : s.workers t = .downloading i)
      (hlast : Leecher.call { s with pieces := s.pieces.updatePriorities updates } (t, c) =
        some s') :
      ∃ cs : List Call, Machine.run Leecher.call s (cs.map fun c => (t, c)) = some s' := by
    refine ⟨updates.map (fun u => .updatePriority u.1 u.2) ++ [c], ?_⟩
    have hrun := run_updates (step_of_downloaderRoutine h).1 hw updates
    rw [List.map_append, Machine.run_append hrun]
    simp [Machine.run, hlast]
  obtain ⟨hdef, hs⟩ := step_of_downloaderRoutine h
  cases hs with
  | connect connected => exact ⟨[.connect connected], single rfl⟩
  | empty => exact ⟨[.empty], single rfl⟩
  | removeTopOfEmpty | removeTop => exact ⟨[.removeTop], single rfl⟩
  | success i updates hw =>
    refine batch updates .returned hw ?_
    rw [call_of_event rfl]
    simp [downloaderRoutine, hdef, hw, TsafeSet.updatePriorities]
  | shaMismatch => exact ⟨[.shaMismatch], single rfl⟩
  | failure i updates hw =>
    refine batch updates .failed hw ?_
    rw [call_of_event rfl]
    simp [downloaderRoutine, hdef, hw, TsafeSet.updatePriorities]
  | push => exact ⟨[.push], single rfl⟩

/-! ## Between the test and `remove_top` -/

/-- A `remove_top` of the run finds a piece. -/
def FindsPiece (s : Leecher ι) : ι × Call → Prop
  | (_, .removeTop) => s.pieces.pieceSet ≠ []
  | _ => True

instance (s : Leecher ι) : ∀ e, Decidable (s.FindsPiece e)
  | (_, .removeTop) => inferInstanceAs (Decidable (s.pieces.pieceSet ≠ []))
  | (_, .connect _) | (_, .empty) | (_, .updatePriority _ _) | (_, .returned) | (_, .shaMismatch)
  | (_, .failed) | (_, .push) => inferInstanceAs (Decidable True)

/-- The last piece is taken while another thread, after its test, is about to take one. -/
def Overtakes (s : Leecher ι) : ι × Call → Prop
  | (t, .removeTop) => s.pieces.pieceSet.length ≤ 1 ∧ ∃ u, u ≠ t ∧ s.workers u = .removing
  | _ => False

/-- The test of every thread that is about to take a piece still holds. -/
structure Stocked (s : Leecher ι) : Prop where
  defined : s.undefined = false
  stock : ∀ t, s.workers t = .removing → s.pieces.pieceSet ≠ []

omit [DecidableEq ι] in
theorem initial_stocked (n : Nat) : (initial n : Leecher ι).Stocked :=
  ⟨rfl, fun t ht => by simp [initial] at ht⟩

/-- A thread that goes elsewhere than to `remove_top` needs no piece. -/
theorem Stocked.setWorker (h : s.Stocked) {w : Worker}
    (hw : w = .removing → s.pieces.pieceSet ≠ []) :
    (s.setWorker t w).Stocked := by
  refine ⟨h.defined, fun u hu => ?_⟩
  by_cases hut : u = t
  · subst hut
    rw [setWorker_self] at hu
    exact hw hu
  · rw [setWorker_of_ne s w hut] at hu
    exact h.stock u hu

omit [DecidableEq ι] in
/-- A change of the set that does not empty it. -/
theorem Stocked.setPieces (h : s.Stocked) {pieces : TsafeSet}
    (hpieces : s.pieces.pieceSet ≠ [] → pieces.pieceSet ≠ []) (downloaded : List Nat) :
    ({ s with pieces, downloaded }).Stocked :=
  ⟨h.defined, fun u hu => hpieces (h.stock u hu)⟩

theorem Stocked.step (h : s.Stocked) {e : Event} (hs : Step s t e s')
    (alone : e = .removeTop → s.pieces.pieceSet.length ≤ 1 →
      ∀ u, u ≠ t → s.workers u ≠ .removing) : s'.Stocked := by
  cases hs with
  | connect connected hw => exact h.setWorker (by cases connected <;> simp)
  | empty hw =>
    apply h.setWorker
    split
    next => simp
    next hempty =>
      intro _ hnil
      simp [TsafeSet.empty, hnil] at hempty
  | removeTopOfEmpty hw hnil => exact absurd hnil (h.stock t hw)
  | removeTop i pieces hw htop =>
    obtain ⟨hset, -⟩ := TsafeSet.removeTop_eq_some.mp htop
    refine ⟨h.defined, fun u hu hnil => ?_⟩
    have hut : u ≠ t := by
      rintro rfl
      simp at hu
    rw [setWorker_of_ne _ _ hut] at hu
    exact alone rfl (by simp [hset, show pieces.pieceSet = [] from hnil]) u hut hu
  | success i updates hw =>
    have hpieces := fun h => TsafeSet.updatePriorities_ne_nil (s := s.pieces) h updates
    exact (h.setPieces hpieces _).setWorker (by simp)
  | shaMismatch i hw => exact h.setWorker (by simp)
  | failure i updates hw =>
    have hpieces := fun h => TsafeSet.updatePriorities_ne_nil (s := s.pieces) h updates
    exact (h.setPieces hpieces _).setWorker (by simp)
  | push i hw =>
    have hpieces : (s.pieces.push i).pieceSet ≠ [] :=
      List.ne_nil_of_mem ((TsafeSet.mem_push _ _ _).mpr (.inl rfl))
    exact (h.setPieces (fun _ => hpieces) _).setWorker (by simp)

theorem Stocked.call (h : s.Stocked) (fair : ¬ s.Overtakes (t, c))
    (hcall : s.call (t, c) = some s') :
    s.FindsPiece (t, c) ∧ s'.Stocked := by
  obtain ⟨-, ⟨e, he, hs⟩ | ⟨i, p, j, rfl, hw, rfl⟩⟩ := step_of_call hcall
  · constructor
    · cases c <;> cases he <;> try trivial
      cases hs with
      | removeTopOfEmpty hw | removeTop _ _ hw => exact h.stock t hw
    · apply h.step hs
      rintro rfl hlen u hu hremoving
      cases c <;> cases he
      exact fair ⟨hlen, u, hu, hremoving⟩
  · have hpieces := fun h => TsafeSet.updatePriorities_ne_nil (s := s.pieces) h [(i, p)]
    exact ⟨trivial, h.setPieces hpieces _⟩

/-- As long as nobody takes the last piece from under another thread, `remove_top` finds one. -/
theorem findsPiece_of_not_overtaking {es : List (ι × Call)}
    (fair : Machine.AllSteps Leecher.call (fun s e => ¬ s.Overtakes e) (initial n) es) :
    Machine.AllSteps Leecher.call FindsPiece (initial n) es := by
  refine Machine.allSteps_of_invariant ?_ (initial_stocked n) fair
  rintro s ⟨t, c⟩ s' h hfair hcall
  exact h.call hfair hcall

/-- With no piece at all, no thread comes to `remove_top`. -/
structure Spent (s : Leecher ι) : Prop where
  none_left : s.pieces.pieceSet = []
  idle : ∀ t, s.workers t ≠ .removing ∧ (s.workers t).held = none

theorem Spent.setWorker (h : s.Spent) {w : Worker} (hw : w ≠ .removing ∧ w.held = none) :
    (s.setWorker t w).Spent := by
  refine ⟨h.none_left, fun u => ?_⟩
  by_cases hut : u = t
  · subst hut
    rwa [setWorker_self]
  · rw [setWorker_of_ne s w hut]
    exact h.idle u

theorem Spent.call (h : s.Spent) (hcall : s.call (t, c) = some s') :
    s.FindsPiece (t, c) ∧ s'.Spent := by
  have hidle := h.idle t
  obtain ⟨-, ⟨e, he, hs⟩ | ⟨i, p, j, rfl, hw, rfl⟩⟩ := step_of_call hcall
  · cases hs with
    | connect connected hw =>
      cases c <;> cases he
      exact ⟨trivial, h.setWorker (by cases connected <;> simp)⟩
    | empty hw =>
      cases c <;> cases he
      exact ⟨trivial, h.setWorker (by simp [TsafeSet.empty, h.none_left])⟩
    | removeTopOfEmpty hw | removeTop _ _ hw => exact absurd hw hidle.1
    | success _ _ hw | shaMismatch _ hw | failure _ _ hw | push _ hw => simp [hw] at hidle
  · simp [hw] at hidle

/-- A thread takes and downloads pieces until one is left. -/
theorem exists_run_to_last {a b : ι} (hab : a ≠ b) (m : Nat) (hdef : s.undefined = false)
    (ha : s.workers a = .testing) (hb : s.workers b = .testing)
    (hlen : s.pieces.pieceSet.length = m + 1) : ∃ es s', Machine.run Leecher.call s es = some s' ∧
      s'.undefined = false ∧ s'.workers a = .testing ∧ s'.workers b = .testing ∧
      s'.pieces.pieceSet.length = 1 := by
  induction m generalizing s with
  | zero => exact ⟨[], s, rfl, hdef, ha, hb, hlen⟩
  | succ m ih =>
    obtain ⟨i, rest, hset⟩ := List.exists_cons_of_length_eq_add_one hlen
    let s' : Leecher ι := ⟨⟨rest, s.pieces.piecesPriority⟩, Function.update s.workers a .testing,
      s.downloaded ++ [i], false⟩
    have hround : Machine.run Leecher.call s [(a, .empty), (a, .removeTop), (a, .returned)] =
        some s' := by
      simp [Machine.run, Leecher.call, Call.event, downloaderRoutine, hdef, ha, TsafeSet.empty,
        hset, setWorker, TsafeSet.removeTop, TsafeSet.top, TsafeSet.pop,
        TsafeSet.updatePriorities, s']
    obtain ⟨es, s'', hrun, hend⟩ := ih (s := s') rfl (by simp [s']) (by simp [s', hab.symm, hb])
      (by simpa [hset] using hlen)
    exact ⟨_, s'', (Machine.run_append hround).trans hrun, hend⟩

/-- Two threads that both see the last piece, and both take it. -/
theorem exists_not_findsPiece {a b : ι} (hab : a ≠ b) (hn : 0 < n) :
    ∃ es, ¬ Machine.AllSteps Leecher.call FindsPiece (initial n : Leecher ι) es := by
  let s : Leecher ι := ((initial n).setWorker a .testing).setWorker b .testing
  have hstart : Machine.run Leecher.call (initial n) [(a, .connect true), (b, .connect true)] =
      some s := by
    simp [Machine.run, Leecher.call, Call.event, downloaderRoutine, initial, setWorker, hab.symm, s]
  have hlen : s.pieces.pieceSet.length = n - 1 + 1 := (TsafeSet.length_load n).trans (by omega)
  obtain ⟨es, s', hrun, hdef, ha, hb, hone⟩ :=
    exists_run_to_last hab (n - 1) rfl (by simp [s, setWorker, hab]) (by simp [s]) hlen
  obtain ⟨i, hset⟩ := List.length_eq_one_iff.mp hone
  have htail : ¬ Machine.AllSteps Leecher.call FindsPiece s'
      [(a, .empty), (b, .empty), (a, .removeTop), (b, .removeTop)] := by
    simp [Machine.AllSteps, Leecher.call, Call.event, downloaderRoutine, FindsPiece, hdef, ha, hb,
      hset, TsafeSet.empty, setWorker, TsafeSet.removeTop, TsafeSet.top, TsafeSet.pop, hab,
      hab.symm]
  exact ⟨_, fun h => htail (h.rest ((Machine.run_append hstart).trans hrun))⟩

/-- Every `remove_top` of every run finds a piece if and only if there is at most one thread, or no
piece to look for. -/
theorem removeTop_finds_piece_iff (nPieces : Nat) :
    (∀ es, Machine.AllSteps Leecher.call FindsPiece (initial nPieces : Leecher ι) es) ↔
      nPieces = 0 ∨ Subsingleton ι := by
  constructor
  · intro h
    by_contra hmany
    rw [not_or, not_subsingleton_iff_nontrivial] at hmany
    obtain ⟨hn, a, b, hab⟩ := hmany
    obtain ⟨es, hes⟩ := exists_not_findsPiece hab (Nat.pos_of_ne_zero hn)
    exact hes (h es)
  · rintro (rfl | hone) es
    · have start : (initial 0 : Leecher ι).Spent := ⟨rfl, fun t => by simp [initial]⟩
      refine Machine.allSteps_of_invariant ?_ start
        (Machine.allSteps_of_forall (fun _ _ => trivial) _ es)
      rintro s ⟨t, c⟩ s' h - hcall
      exact h.call hcall
    · apply findsPiece_of_not_overtaking
      apply Machine.allSteps_of_forall
      rintro s ⟨t, c⟩ hover
      cases c with
      | removeTop =>
        obtain ⟨-, u, hu, -⟩ := hover
        exact hu (Subsingleton.elim u t)
      | _ => exact hover

/-- Two threads and one piece: the second `remove_top` finds nothing. -/
theorem second_removeTop_finds_nothing :
    ¬ Machine.AllSteps Leecher.call FindsPiece (initial 1 : Leecher Bool)
      [(true, .connect true), (false, .connect true), (true, .empty), (false, .empty),
        (true, .removeTop), (false, .removeTop)] := by
  decide

/-! ## Quitting on an empty set -/

/-- Once every thread is through, and one of them because the set was empty, every piece has been
downloaded. -/
def Complete (nPieces : Nat) (s : Leecher ι) : Prop :=
  (∀ t, ∃ drained, s.workers t = .exited drained) → (∃ t, s.workers t = .exited true) →
    ∀ i < nPieces, i ∈ s.downloaded

/-- Every thread except `t` is through, one of them because the set was empty. -/
def Last (s : Leecher ι) (t : ι) : Prop :=
  (∀ u, u ≠ t → ∃ drained, s.workers u = .exited drained) ∧ ∃ u, s.workers u = .exited true

/-- The last thread puts its piece back and quits, or cannot connect while there are pieces in
the set. -/
def Abandons (s : Leecher ι) : ι × Call → Prop
  | (t, .push) => s.Last t
  | (t, .connect false) => s.pieces.pieceSet ≠ [] ∧ s.Last t
  | _ => False

/-- The state that `remove_top` leaves when it finds nothing. -/
def Stuck (s : Leecher ι) : Prop := s.undefined = true ∧ ∃ t, s.workers t = .removing

omit [DecidableEq ι] in
/-- A thread that is not through makes no claim about the pieces. -/
theorem complete_of_running (hrunning : ∀ drained, s.workers t ≠ .exited drained) :
    s.Complete n := by
  intro hexited
  obtain ⟨drained, ht⟩ := hexited t
  exact absurd ht (hrunning drained)

omit [DecidableEq ι] in
/-- When all threads are through, the pieces that are not downloaded are in the set. -/
theorem Sound.all_downloaded_iff (h : s.Sound n)
    (hexited : ∀ t, ∃ drained, s.workers t = .exited drained) :
    (∀ i < n, i ∈ s.downloaded) ↔ s.pieces.pieceSet = [] := by
  constructor
  · intro hall
    apply List.eq_nil_iff_forall_not_mem.mpr
    intro i hi
    have hlt := h.queued_lt i hi
    have honly := (h.only hlt (p := .downloaded) (hall i hlt) .queued).mp hi
    cases honly
  · intro hnil i hi
    obtain ⟨p, hp, -⟩ := h.conserved.2 i hi
    cases p with
    | queued => simp [InPlace, hnil] at hp
    | held t =>
      obtain ⟨drained, ht⟩ := hexited t
      simp [InPlace, ht] at hp
    | downloaded => exact hp

/-- What a thread leaves behind when it quits without having found the set empty. -/
theorem complete_of_exit_iff {pieces : TsafeSet}
    (hrunning : ∀ drained, s.workers t ≠ .exited drained)
    (h : ({ s with pieces }.setWorker t (.exited false)).Sound n) :
    ({ s with pieces }.setWorker t (.exited false)).Complete n ↔
      ¬ (pieces.pieceSet ≠ [] ∧ s.Last t) := by
  have hexited : (∀ u, ∃ drained, ({ s with pieces }.setWorker t (.exited false)).workers u =
      .exited drained) ↔ ∀ u, u ≠ t → ∃ drained, s.workers u = .exited drained := by
    constructor
    · intro hall u hu
      simpa [setWorker_of_ne _ _ hu] using hall u
    · intro hothers u
      by_cases hu : u = t
      · exact ⟨false, by simp [hu]⟩
      · simpa [setWorker_of_ne _ _ hu] using hothers u hu
  have hdrained : (∃ u, ({ s with pieces }.setWorker t (.exited false)).workers u = .exited true) ↔
      ∃ u, s.workers u = .exited true := by
    apply exists_congr
    intro u
    by_cases hu : u = t
    · subst hu
      simp [hrunning true]
    · simp [setWorker_of_ne _ _ hu]
  rw [Complete, hdrained, Last]
  constructor
  · rintro hcomplete ⟨hne, hothers, hquit⟩
    have hall := hexited.mpr hothers
    exact hne ((h.all_downloaded_iff hall).mp (hcomplete hall hquit))
  · intro hnot hall hquit
    apply (h.all_downloaded_iff hall).mpr
    by_contra hne
    exact hnot ⟨hne, hexited.mp hall, hquit⟩

omit [DecidableEq ι] in
theorem Sound.setPriority (h : s.Sound n) (i : Nat) (p : Int) :
    ({ s with pieces := s.pieces.updatePriority i p }).Sound n := by
  have hmem := TsafeSet.mem_updatePriority h.nodup i p
  refine ⟨⟨h.conserved.1, fun j hj => ?_⟩, TsafeSet.nodup_updatePriority h.nodup i p,
    fun j hj => h.queued_lt j ((hmem j).mp hj), h.held_lt⟩
  have same (q : Place ι) : ({ s with pieces := s.pieces.updatePriority i p }).InPlace j q ↔
      s.InPlace j q := by
    cases q with
    | queued => exact hmem j
    | held _ | downloaded => exact Iff.rfl
  simpa only [same] using h.conserved.2 j hj

theorem Sound.call (h : s.Sound n) (matching : c ≠ .shaMismatch) (hcall : s.call (t, c) = some s') :
    s'.Sound n ∨ c = .removeTop ∧ s'.Stuck := by
  obtain ⟨-, ⟨e, he, hs⟩ | ⟨i, p, j, rfl, hw, rfl⟩⟩ := step_of_call hcall
  · by_cases hharmless : s.Harmless (t, e)
    · exact .inl (h.step hharmless hs)
    · cases hs with
      | removeTopOfEmpty hw =>
        cases c <;> cases he
        exact .inr ⟨rfl, rfl, t, hw⟩
      | removeTop i pieces hw htop =>
        have hset := (TsafeSet.removeTop_eq_some.mp htop).1
        exact absurd (show s.pieces.pieceSet ≠ [] by simp [hset]) hharmless
      | shaMismatch i hw =>
        cases c <;> cases he
        exact absurd rfl matching
      | connect | empty | success | failure | push => exact absurd trivial hharmless
  · exact .inl (h.setPriority i p)

/-- After a step, the pieces are complete unless the step abandons one. -/
theorem Sound.complete_call_iff (h' : s'.Sound n) (hcall : s.call (t, c) = some s') :
    s'.Complete n ↔ ¬ s.Abandons (t, c) := by
  obtain ⟨-, ⟨e, he, hs⟩ | ⟨i, p, j, rfl, hw, rfl⟩⟩ := step_of_call hcall
  · cases hs with
    | connect connected hw =>
      cases c <;> cases he
      cases connected with
      | true =>
        have hcomplete := complete_of_running (n := n) (s := s.setWorker t .testing)
          (t := t) (by simp)
        exact iff_of_true hcomplete id
      | false => exact complete_of_exit_iff (by simp [hw]) h'
    | empty hw =>
      cases c <;> cases he
      refine iff_of_true (fun hexited _ => (h'.all_downloaded_iff hexited).mpr ?_) id
      obtain ⟨drained, ht⟩ := hexited t
      rw [setWorker_self] at ht
      split at ht
      next hempty => simpa [TsafeSet.empty] using hempty
      next => cases ht
    | removeTopOfEmpty hw =>
      cases c <;> cases he
      exact absurd h'.conserved.1 (by simp)
    | push i hw =>
      cases c <;> cases he
      rw [complete_of_exit_iff (by simp [hw]) h']
      have hne : (s.pieces.push i).pieceSet ≠ [] :=
        List.ne_nil_of_mem ((TsafeSet.mem_push _ _ _).mpr (.inl rfl))
      simp [hne, Abandons]
    | removeTop | success | shaMismatch | failure =>
      cases c <;> cases he
      exact iff_of_true (complete_of_running (t := t) (by simp)) id
  · exact iff_of_true (complete_of_running (t := t) (by simp [hw])) id

/-- In a run without a hash mismatch the pieces are complete, whenever all threads are through and
one of them because the set was empty, if and only if the last thread never quits while it leaves a
piece in the set. -/
theorem complete_iff_not_abandoning (nPieces : Nat) {es : List (ι × Call)}
    (matching : Machine.AllSteps Leecher.call (fun _ e => e.2 ≠ .shaMismatch)
      (initial nPieces : Leecher ι) es) :
    Machine.AllStates Leecher.call (Complete nPieces) (initial nPieces) es ↔
      Machine.AllSteps Leecher.call (fun s e => ¬ s.Abandons e) (initial nPieces) es := by
  have weaken (s : Leecher ι) : s.Complete nPieces ∧ (s.Sound nPieces ∨ s.Stuck) →
      s.Complete nPieces := fun h => h.1
  refine Machine.allStates_iff_allSteps_of weaken ?_ ?_ ?_ matching
  · rintro s ⟨t, c⟩ s' ⟨-, h⟩ hmatch hok hcall
    obtain h | h := h
    · obtain h' | h' := h.call hmatch hcall
      · exact ⟨(h'.complete_call_iff hcall).mpr hok, .inl h'⟩
      · obtain ⟨-, hundefined, u, hu⟩ := h'
        exact ⟨complete_of_running (t := u) (by simp [hu]), .inr ⟨hundefined, u, hu⟩⟩
    · exact absurd (step_of_call hcall).1 (by simp [h.1])
  · rintro s ⟨t, c⟩ s' ⟨-, h⟩ hmatch hbad hcall
    obtain h | h := h
    · obtain h' | ⟨rfl, -⟩ := h.call hmatch hcall
      · exact fun hcomplete => hbad ((h'.complete_call_iff hcall).mp hcomplete)
      · exact absurd (fun habandons => habandons) hbad
    · exact absurd (step_of_call hcall).1 (by simp [h.1])
  · have start : (initial nPieces : Leecher ι).Complete nPieces := by
      rintro - ⟨t, ht⟩
      simp [initial] at ht
    exact ⟨start, .inl (initial_sound nPieces)⟩

/-- One thread downloads the only piece and then finds the set empty. -/
theorem single_thread_completes : Machine.AllStates Leecher.call (Complete 1)
    (initial 1 : Leecher Unit)
    [((), .connect true), ((), .empty), ((), .removeTop), ((), .returned), ((), .empty)] :=
  (complete_iff_not_abandoning 1 (by decide)).mpr fun _ _ => ⟨id, fun _ _ => ⟨id, fun _ _ =>
    ⟨id, fun _ _ => ⟨id, fun _ _ => ⟨id, trivial⟩⟩⟩⟩⟩

/-- The first of two threads has the only piece when the other one finds the set empty and quits;
then the download fails, and the piece is put back for nobody. -/
theorem piece_put_back_for_nobody : ∃ es, Machine.AllSteps Leecher.call
      (fun _ e => e.2 ≠ .shaMismatch) (initial 1 : Leecher Bool) es ∧
    ¬ Machine.AllStates Leecher.call (Complete 1) (initial 1 : Leecher Bool) es := by
  refine ⟨[(true, .connect true), (false, .connect true), (true, .empty), (true, .removeTop),
    (false, .empty), (true, .failed), (true, .push)], by decide, fun h => ?_⟩
  have hcomplete := h.last rfl
  have hmem := hcomplete (fun t => by cases t <;> exact ⟨_, rfl⟩) ⟨false, rfl⟩ 0 Nat.zero_lt_one
  cases hmem

end Leecher

end P2PFileSharing.Peer
