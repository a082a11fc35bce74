import P2PFileSharing.Library.History
import P2PFileSharing.Peer.State

/-!
# The priorities of the pieces

The priority of a piece is meant to be the number of neighbours that have it. It is kept up to date
by differences between the bitfield that a neighbour sends and the one that is stored for it, but
the stored one stays as `fetch_peers` has made it, and a piece that is not in the set is passed
over.
-/

namespace P2PFileSharing.Peer

open Library

/-- What the download threads do to the data they share. -/
inductive Activity where
  | report (peerId : Int) (bf : Bitfield)
  | removeTop
  | push (pieceId : Nat)
  deriving DecidableEq

/-- What has happened, as far as the counts of the neighbours depend on it. -/
inductive Entry where
  | reported (peerId : Int) (bf : Bitfield)
  | taken (pieceId : Nat)
  deriving DecidableEq

/-- The bitfield that each neighbour has reported last. -/
def lastReports (log : List Entry) : OrdMap Int Bitfield :=
  log.foldl (fun reports e =>
    match e with
    | .reported peerId bf => reports.insert peerId bf
    | .taken _ => reports) ∅

/-- The number of neighbours whose last report has bit `i`. -/
def neighboursWith (log : List Entry) (i : Nat) : Nat :=
  (lastReports log).entries.countP fun e => e.2.has i

/-- Bit `i` of the last report of a neighbour, if there is one. -/
def reportedBit (log : List Entry) (peerId : Int) (i : Nat) : Bool :=
  ((lastReports log).find? peerId).elim false fun bf => bf.has i

/-- The log as it was when piece `i` was taken out of the set the last time. -/
def whenTaken (log : List Entry) (i : Nat) : List Entry :=
  (log.reverse.dropWhile fun e => decide (e ≠ .taken i)).reverse

/-! ## Counting reports -/

section Log

variable {log : List Entry} {peerId : Int} {bf : Bitfield} {i j : Nat}

theorem neighboursWith_reported (log : List Entry) (peerId : Int) (bf : Bitfield) (i : Nat) :
    neighboursWith (log ++ [.reported peerId bf]) i + (reportedBit log peerId i).toNat =
      neighboursWith log i + (bf.has i).toNat := by
  have hcount := OrdMap.countP_insert (fun b : Bitfield => b.has i) (lastReports log) peerId bf
  have hbit : (reportedBit log peerId i).toNat =
      ((lastReports log).find? peerId).elim 0 fun w => (w.has i).toNat := by
    unfold reportedBit
    cases (lastReports log).find? peerId <;> rfl
  unfold neighboursWith
  rw [hbit, ← hcount, lastReports, List.foldl_append]
  rfl

theorem neighboursWith_taken (log : List Entry) (i j : Nat) :
    neighboursWith (log ++ [.taken j]) i = neighboursWith log i := by
  simp [neighboursWith, lastReports]

theorem whenTaken_taken (log : List Entry) (i : Nat) :
    whenTaken (log ++ [.taken i]) i = log ++ [.taken i] := by
  simp [whenTaken]

theorem whenTaken_of_ne {e : Entry} (h : e ≠ .taken i) :
    whenTaken (log ++ [e]) i = whenTaken log i := by
  simp [whenTaken, h]

end Log

/-! ## The callback -/

namespace PeerState

variable {bf oldbf : Bitfield} {s : TsafeSet} {i a m : Nat} {is : List Nat}

/-- The loop of the callback comes to piece `i` and finds its bit in both bitfields. -/
def Reaches (bf oldbf : Bitfield) (i : Nat) : Prop := (i : Int) < bf.size ∧ (i : Int) < oldbf.size

/-- One more neighbour can be counted. -/
def Fits (priority : Int) (has : Bool) : Prop :=
  -2 ^ 31 ≤ priority + has.toInt ∧ priority + has.toInt < 2 ^ 31

instance decidableFits (priority : Int) (has : Bool) : Decidable (Fits priority has) :=
  inferInstanceAs (Decidable (_ ∧ _))

instance (bf oldbf : Bitfield) (i : Nat) : Decidable (Reaches bf oldbf i) :=
  inferInstanceAs (Decidable (_ ∧ _))

theorem newPriority_of_fits {priority : Int} {has : Bool} (h : Fits priority has) :
    newPriority priority has false = .ok (priority + has.toInt) := by
  have hsum : addInt priority has.toInt = .ok (priority + has.toInt) := if_pos h
  have hsame : addInt (priority + has.toInt) (-false.toInt) = .ok (priority + has.toInt) := by
    rw [Bool.toInt_false, Int.neg_zero, addInt, Int.add_zero]
    exact if_pos h
  simp only [newPriority, hsum, hsame, bind, Except.bind]

theorem newPriority_of_not_fits {priority : Int} {has : Bool} (h : ¬ Fits priority has)
    (had : Bool) :
    newPriority priority has had = .error .undefined := by
  have hsum : addInt priority has.toInt = .error .undefined := if_neg h
  simp [newPriority, hsum, bind, Except.bind]

theorem updatePriorities_stop (h : ¬ Reaches bf oldbf i) :
    updatePriorities bf oldbf (i :: is) s = (.error (.thrown .indexOutOfRangeException), s) := by
  unfold updatePriorities
  by_cases hbf : (i : Int) < bf.size
  · have hold : oldbf.size ≤ i := by
      by_contra hlt
      exact h ⟨hbf, Int.not_le.mp hlt⟩
    rw [Bitfield.get_of_lt hbf, Bitfield.get_of_le hold]
    rfl
  · rw [Bitfield.get_of_le (Int.not_lt.mp hbf)]
    rfl

theorem updatePriorities_reached (h : Reaches bf oldbf i) :
    updatePriorities bf oldbf (i :: is) s = (do
      let priority ← Action.ofExcept (newPriority (s.piecesPriority i) (bf.test i) (oldbf.test i))
      Action.modify fun s : TsafeSet => s.updatePriority i priority
      updatePriorities bf oldbf is) s := by
  rw [updatePriorities, Bitfield.get_of_lt h.1, Bitfield.get_of_lt h.2]
  rfl

theorem updatePriorities_next (h : Reaches bf oldbf i) (hold : oldbf.test i = false)
    (hfits : Fits (s.piecesPriority i) (bf.test i)) :
    updatePriorities bf oldbf (i :: is) s = updatePriorities bf oldbf is
      (s.updatePriority i (s.piecesPriority i + (bf.test i).toInt)) := by
  rw [updatePriorities_reached h, hold, newPriority_of_fits hfits]
  rfl

theorem updatePriorities_overflow (h : Reaches bf oldbf i)
    (hfits : ¬ Fits (s.piecesPriority i) (bf.test i)) :
    updatePriorities bf oldbf (i :: is) s = (.error .undefined, s) := by
  rw [updatePriorities_reached h, newPriority_of_not_fits hfits]
  rfl

/-- What a round of the loop over the pieces from `a` to `b` makes of a set of pieces. -/
structure Counted (bf oldbf : Bitfield) (a b : Nat) (s s' : TsafeSet) : Prop where
  ordered : s'.Ordered
  mem_iff : ∀ i, i ∈ s'.pieceSet ↔ i ∈ s.pieceSet
  added : ∀ i, a ≤ i → i < b → Reaches bf oldbf i → i ∈ s.pieceSet →
    s'.piecesPriority i = s.piecesPriority i + (bf.test i).toInt
  kept : ∀ i, ¬ (a ≤ i ∧ i < b ∧ Reaches bf oldbf i ∧ i ∈ s.pieceSet) →
    s'.piecesPriority i = s.piecesPriority i

theorem Counted.next {s' : TsafeSet} {b : Nat} {q : Int} (h : s.Ordered)
    (hreach : Reaches bf oldbf a) (hab : a < b)
    (hq : q = s.piecesPriority a + (bf.test a).toInt)
    (hrest : Counted bf oldbf (a + 1) b (s.updatePriority a q) s') : Counted bf oldbf a b s s' := by
  have hmem := TsafeSet.mem_updatePriority h.nodup a q
  have hother (i : Nat) (hi : i ≠ a) := h.piecesPriority_updatePriority_of_ne hi q
  have hself : (s.updatePriority a q).piecesPriority a =
      if a ∈ s.pieceSet then q else s.piecesPriority a := by
    rw [h.piecesPriority_updatePriority a q]
    split_ifs <;> simp
  have hadded := hrest.added
  have hkept := hrest.kept
  simp only [hmem] at hadded hkept
  refine ⟨hrest.ordered, fun i => (hrest.mem_iff i).trans (hmem i), fun i hi hlt hri hset => ?_,
    fun i hnot => ?_⟩
  · by_cases hia : i = a
    · subst hia
      rw [hkept i (by omega), hself, if_pos hset, hq]
    · rw [hadded i (by omega) hlt hri hset, hother i hia]
  · by_cases hia : i = a
    · subst hia
      have hset : i ∉ s.pieceSet := fun hset => hnot ⟨Nat.le_refl i, hab, hreach, hset⟩
      rw [hkept i (by omega), hself, if_neg hset]
    · rw [hkept i (fun hin => hnot ⟨by omega, hin.2⟩), hother i hia]

/-- The set is as it was when no new bit belongs to a piece of the set. -/
theorem Counted.eq_iff {s' : TsafeSet} {b : Nat} (h : Counted bf oldbf a b s s') (hs : s.Ordered) :
    s' = s ↔ ∀ i ∈ s.pieceSet, a ≤ i → i < b → Reaches bf oldbf i → bf.test i = false := by
  constructor
  · intro heq i hi hle hlt hreach
    have hadded := h.added i hle hlt hreach hi
    rw [heq] at hadded
    cases hbit : bf.test i with
    | false => rfl
    | true =>
      rw [hbit, Bool.toInt_true] at hadded
      omega
  · intro hbits
    refine hs.ext h.ordered (fun i => ?_) h.mem_iff
    by_cases hi : a ≤ i ∧ i < b ∧ Reaches bf oldbf i ∧ i ∈ s.pieceSet
    · obtain ⟨hle, hlt, hreach, hset⟩ := hi
      rw [h.added i hle hlt hreach hset, hbits i hset hle hlt hreach, Bool.toInt_false,
        Int.add_zero]
    · exact h.kept i hi

/-- The round returns if it finds both bits of every piece from `a` to `b`, and throws otherwise. -/
def Ends (bf oldbf : Bitfield) (a b : Nat) (r : Except Fault Unit) : Prop :=
  (r = .ok () ∧ ∀ i, a ≤ i → i < b → Reaches bf oldbf i) ∨
    (r = .error (.thrown .indexOutOfRangeException) ∧ ∃ i, a ≤ i ∧ i < b ∧ ¬ Reaches bf oldbf i)

theorem Ends.ne_undefined {b : Nat} {r : Except Fault Unit} (h : Ends bf oldbf a b r) :
    r ≠ .error .undefined := by
  rcases h with ⟨rfl, -⟩ | ⟨rfl, -⟩ <;> simp

theorem Ends.next {b : Nat} {r : Except Fault Unit} (hreach : Reaches bf oldbf a)
    (h : Ends bf oldbf (a + 1) b r) : Ends bf oldbf a b r := by
  rcases h with ⟨hr, hall⟩ | ⟨hr, i, hi, hlt, hnot⟩
  · refine .inl ⟨hr, fun i hi hlt => ?_⟩
    rcases Nat.eq_or_lt_of_le hi with rfl | hgt
    · exact hreach
    · exact hall i hgt hlt
  · exact .inr ⟨hr, i, by omega, hlt, hnot⟩

/-- A round that does not overflow adds the new bits to the priorities of the pieces of the set, as
far as it gets. -/
theorem updatePriorities_spec (h : s.Ordered) (hold : ∀ i, oldbf.test i = false)
    (hfits : ∀ i, a ≤ i → i < a + m → Reaches bf oldbf i → Fits (s.piecesPriority i) (bf.test i)) :
    ∃ r s', updatePriorities bf oldbf (List.range' a m) s = (r, s') ∧
      Ends bf oldbf a (a + m) r ∧ Counted bf oldbf a (a + m) s s' := by
  induction m generalizing a s with
  | zero =>
    exact ⟨_, s, rfl, .inl ⟨rfl, fun i => by omega⟩, h, fun _ => Iff.rfl, fun i => by omega,
      fun _ _ => rfl⟩
  | succ m ih =>
    rw [List.range'_succ]
    by_cases hreach : Reaches bf oldbf a
    · have hfit := hfits a (Nat.le_refl a) (by omega) hreach
      obtain ⟨r, s', hrun, hends, hcounted⟩ := ih (a := a + 1) (h.updatePriority a _)
          fun i hi hlt hri => by
        rw [h.piecesPriority_updatePriority_of_ne (by omega)]
        exact hfits i (by omega) (by omega) hri
      rw [show a + 1 + m = a + (m + 1) by omega] at hends hcounted
      refine ⟨r, s', ?_, hends.next hreach, hcounted.next h hreach (by omega) rfl⟩
      rw [updatePriorities_next hreach (hold a) hfit]
      exact hrun
    · have hbehind (i : Nat) (hi : a ≤ i) : ¬ Reaches bf oldbf i := by
        unfold Reaches at hreach ⊢
        omega
      exact ⟨_, s, updatePriorities_stop hreach, .inr ⟨rfl, a, Nat.le_refl a, by omega, hreach⟩, h,
        fun _ => Iff.rfl, fun i hi _ hri => absurd hri (hbehind i hi), fun _ _ => rfl⟩

/-- A round that comes to a priority that is as large as it can be ends there. -/
theorem updatePriorities_undefined (h : s.Ordered) (hold : ∀ i, oldbf.test i = false)
    (hi : a ≤ i) (hlt : i < a + m) (hreach : Reaches bf oldbf i)
    (hfits : ¬ Fits (s.piecesPriority i) (bf.test i)) :
    (updatePriorities bf oldbf (List.range' a m) s).1 = .error .undefined := by
  induction m generalizing a s with
  | zero => omega
  | succ m ih =>
    rw [List.range'_succ]
    have hfirst : Reaches bf oldbf a := by
      unfold Reaches at hreach ⊢
      omega
    by_cases hfit : Fits (s.piecesPriority a) (bf.test a)
    · rw [updatePriorities_next hfirst (hold a) hfit]
      have hia : i ≠ a := fun heq => hfits (heq ▸ hfit)
      refine ih (h.updatePriority a _) (by omega) (by omega) ?_
      rwa [h.piecesPriority_updatePriority_of_ne hia]
    · rw [updatePriorities_overflow hfirst hfit]

/-- The bitfield that is stored for a neighbour. -/
def storedBitfield (s : PeerState) (peerId : Int) : Bitfield :=
  ((s.ndata.find? peerId).getD .new).isAvailable

theorem updateNdataCallback_run (s : PeerState) (peerId : Int) (bf : Bitfield) :
    updateNdataCallback peerId bf s =
      ((updatePriorities bf (s.storedBitfield peerId) (List.range' 0 s.nPieces) s.pieces).1,
        { s with
          ndata := s.ndata.insert peerId ((s.ndata.find? peerId).getD .new)
          pieces := (updatePriorities bf (s.storedBitfield peerId) (List.range' 0 s.nPieces)
            s.pieces).2 }) := by
  rw [← List.range_eq_range']
  rfl

end PeerState

/-! ## Runs -/

/-- One step of the threads on the shared data. There is no state any more once `remove_top` was
run on an empty set, or a priority has overflown. -/
def act : Option PeerState → Activity → Option (Option PeerState)
  | none, _ => none
  | some s, .report peerId bf => some (PeerState.left (s.updateNdataCallback peerId bf))
  | some s, .removeTop =>
    match s.pieces.removeTop with
    | none => some none
    | some (_, pieces) => some (some { s with pieces })
  | some s, .push pieceId => some (some { s with pieces := s.pieces.push pieceId })

def entriesOf : Option PeerState → Activity → List Entry
  | _, .report peerId bf => [.reported peerId bf]
  | some s, .removeTop => s.pieces.top.toList.map .taken
  | _, _ => []

/-- Every piece of the set has as its priority the number of neighbours that have it. -/
def CountsRight : Option PeerState × List Entry → Prop
  | (none, _) => False
  | (some s, log) => ∀ i ∈ s.pieces.pieceSet, s.pieces.piecesPriority i = neighboursWith log i

/-- A report does not change a bit that the callback misses: for the pieces that the callback comes
to, the neighbour has not reported the bit before; for the others the bit is as it was reported
last. A piece is put back when as many neighbours have it as when it was taken. -/
def KeepsCount : Option PeerState × List Entry → Activity → Prop
  | (none, _), _ => True
  | (some s, log), .report peerId bf =>
    (∀ i < s.nPieces, PeerState.Reaches bf (s.storedBitfield peerId) i →
      PeerState.Fits (s.pieces.piecesPriority i) (bf.test i)) ∧
    ∀ i ∈ s.pieces.pieceSet,
      if i < s.nPieces ∧ PeerState.Reaches bf (s.storedBitfield peerId) i then
        reportedBit log peerId i = false
      else bf.has i = reportedBit log peerId i
  | (some s, _), .removeTop => s.pieces.pieceSet ≠ []
  | (some s, log), .push i =>
    i ∉ s.pieces.pieceSet → neighboursWith (whenTaken log i) i = neighboursWith log i

instance : ∀ s e, Decidable (KeepsCount s e)
  | (none, _), _ => inferInstanceAs (Decidable True)
  | (some _, _), .report _ _ => inferInstanceAs (Decidable (_ ∧ _))
  | (some s, _), .removeTop => inferInstanceAs (Decidable (s.pieces.pieceSet ≠ []))
  | (some s, log), .push i => inferInstanceAs (Decidable
    (i ∉ s.pieces.pieceSet → neighboursWith (whenTaken log i) i = neighboursWith log i))

/-- What every step keeps: no bitfield of a neighbour is ever stored, and a piece out of the set
keeps the priority it was taken with. -/
structure Tracks (s : PeerState) (log : List Entry) : Prop where
  ordered : s.pieces.Ordered
  blank : ∀ peerId i, (s.storedBitfield peerId).test i = false
  out : ∀ i, i ∉ s.pieces.pieceSet → s.pieces.piecesPriority i = neighboursWith (whenTaken log i) i

theorem Tracks.report {s : PeerState} {log : List Entry} (h : Tracks s log)
    (hright : CountsRight (some s, log)) {peerId : Int} {bf : Bitfield}
    (hfits : ∀ i < s.nPieces, PeerState.Reaches bf (s.storedBitfield peerId) i →
      PeerState.Fits (s.pieces.piecesPriority i) (bf.test i)) :
    ∃ s', act (some s) (.report peerId bf) = some (some s') ∧
      Tracks s' (log ++ [.reported peerId bf]) ∧
      (CountsRight (some s', log ++ [.reported peerId bf]) ↔
        KeepsCount (some s, log) (.report peerId bf)) := by
  obtain ⟨r, pieces, hrun, hends, hcounted⟩ := PeerState.updatePriorities_spec (a := 0)
    (m := s.nPieces) h.ordered (h.blank peerId) fun i _ hlt => hfits i (by omega)
  rw [Nat.zero_add] at hcounted
  let s' : PeerState := { s with
    ndata := s.ndata.insert peerId ((s.ndata.find? peerId).getD .new), pieces }
  have hact : act (some s) (.report peerId bf) = some (some s') := by
    rw [act, s.updateNdataCallback_run peerId bf, hrun, PeerState.left_of_ne hends.ne_undefined]
  have hstored (p : Int) : s'.storedBitfield p = s.storedBitfield p := by
    unfold PeerState.storedBitfield
    by_cases hp : p = peerId
    · subst hp
      simp [s']
    · rw [OrdMap.find?_insert_of_ne _ _ hp]
  have hne (i : Nat) : Entry.reported peerId bf ≠ .taken i := nofun
  refine ⟨s', hact, ⟨hcounted.ordered, fun p i => ?_, fun i hi => ?_⟩, ?_⟩
  · rw [hstored]
    exact h.blank p i
  · have hset : i ∉ s.pieces.pieceSet := fun hset => hi ((hcounted.mem_iff i).mpr hset)
    rw [whenTaken_of_ne (hne i), ← h.out i hset]
    exact hcounted.kept i fun hin => hset hin.2.2.2
  · simp only [CountsRight, KeepsCount, hcounted.mem_iff, s']
    refine Iff.trans ?_ (and_iff_right hfits).symm
    refine forall₂_congr fun i hi => ?_
    have hcount := neighboursWith_reported log peerId bf i
    have hold := hright i hi
    split_ifs with hreach
    · rw [hcounted.added i (Nat.zero_le i) hreach.1 hreach.2 hi, hold,
        ← Bitfield.has_of_lt hreach.2.1]
      cases hb : bf.has i <;> cases hprev : reportedBit log peerId i <;>
        simp [hb, hprev] at hcount ⊢ <;> omega
    · rw [hcounted.kept i fun hin => hreach ⟨hin.2.1, hin.2.2.1⟩, hold]
      cases hb : bf.has i <;> cases hprev : reportedBit log peerId i <;>
        simp [hb, hprev] at hcount ⊢ <;> omega

/-- A priority that cannot grow any more. -/
theorem Tracks.overflow {s : PeerState} {log : List Entry} (h : Tracks s log) {peerId : Int}
    {bf : Bitfield} {i : Nat} (hi : i < s.nPieces)
    (hreach : PeerState.Reaches bf (s.storedBitfield peerId) i)
    (hfits : ¬ PeerState.Fits (s.pieces.piecesPriority i) (bf.test i)) :
    act (some s) (.report peerId bf) = some none := by
  have hrun := PeerState.updatePriorities_undefined (a := 0) (m := s.nPieces) h.ordered
    (h.blank peerId) (Nat.zero_le i) (by omega) hreach hfits
  rw [act, s.updateNdataCallback_run peerId bf, hrun]
  rfl

theorem Tracks.removeTop {s : PeerState} {log : List Entry} (h : Tracks s log)
    (hright : CountsRight (some s, log)) {i : Nat} {pieces : TsafeSet}
    (htop : s.pieces.removeTop = some (i, pieces)) :
    Tracks { s with pieces } (log ++ [.taken i]) ∧
      CountsRight (some { s with pieces }, log ++ [.taken i]) := by
  obtain ⟨hset, hpriority⟩ := TsafeSet.removeTop_eq_some.mp htop
  have hnodup := h.ordered.nodup
  rw [hset] at hnodup
  refine ⟨⟨h.ordered.removeTop htop, h.blank, fun j hj => ?_⟩, fun j hj => ?_⟩
  · rw [hpriority]
    by_cases hji : j = i
    · subst hji
      rw [whenTaken_taken, neighboursWith_taken]
      exact hright j (by simp [hset])
    · rw [whenTaken_of_ne (by simpa using Ne.symm hji)]
      exact h.out j (by simpa [hset, hji] using hj)
  · rw [hpriority, neighboursWith_taken]
    exact hright j (by simp [hset, show j ∈ pieces.pieceSet from hj])

theorem Tracks.push {s : PeerState} {log : List Entry} (h : Tracks s log)
    (hright : CountsRight (some s, log)) (i : Nat) :
    Tracks { s with pieces := s.pieces.push i } log ∧
      (CountsRight (some { s with pieces := s.pieces.push i }, log) ↔
        KeepsCount (some s, log) (.push i)) := by
  refine ⟨⟨h.ordered.push i, h.blank, fun j hj => ?_⟩, fun hright' hi => ?_, fun hkeeps j hj => ?_⟩
  · exact h.out j fun hset => hj ((TsafeSet.mem_push s.pieces i j).mpr (.inr hset))
  · have hnow := hright' i ((TsafeSet.mem_push s.pieces i i).mpr (.inl rfl))
    exact Int.ofNat.inj ((h.out i hi).symm.trans hnow)
  · by_cases hset : j ∈ s.pieces.pieceSet
    · exact hright j hset
    · have hji : j = i := ((TsafeSet.mem_push s.pieces i j).mp hj).resolve_right hset
      subst hji
      exact (h.out j hset).trans (congrArg Nat.cast (hkeeps hset))

/-- What the runs keep. -/
def Tracked : Option PeerState × List Entry → Prop
  | (none, _) => False
  | (some s, log) => Tracks s log ∧ CountsRight (some s, log)

/-- After a step the counts are right exactly when the step keeps them. -/
theorem Tracked.step {s t : Option PeerState × List Entry} {e : Activity} (h : Tracked s)
    (hstep : Machine.logged act entriesOf s e = some t) :
    (KeepsCount s e → Tracked t) ∧ (¬ KeepsCount s e → ¬ CountsRight t) := by
  obtain ⟨_ | s, log⟩ := s
  · exact h.elim
  obtain ⟨htracks, hright⟩ := h
  obtain ⟨t, log'⟩ := t
  obtain ⟨hact, hlog⟩ := Machine.logged_eq_some.mp hstep
  simp only at hact hlog
  subst hlog
  cases e with
  | report peerId bf =>
    by_cases hfits : ∀ i < s.nPieces, PeerState.Reaches bf (s.storedBitfield peerId) i →
        PeerState.Fits (s.pieces.piecesPriority i) (bf.test i)
    · obtain ⟨s', hact', htracks', hiff⟩ := htracks.report hright hfits
      rw [hact', Option.some.injEq] at hact
      subst hact
      exact ⟨fun hkeeps => ⟨htracks', hiff.mpr hkeeps⟩, fun hbad hright' => hbad (hiff.mp hright')⟩
    · have hnot : ¬ KeepsCount (some s, log) (.report peerId bf) := fun hkeeps => hfits hkeeps.1
      simp only [not_forall] at hfits
      obtain ⟨i, hi, hreach, hfit⟩ := hfits
      rw [htracks.overflow hi hreach hfit, Option.some.injEq] at hact
      subst hact
      exact ⟨fun hkeeps => absurd hkeeps hnot, fun _ hright' => hright'⟩
  | removeTop =>
    rcases htop : s.pieces.removeTop with _ | ⟨i, pieces⟩
    · have hnil := TsafeSet.removeTop_eq_none.mp htop
      simp only [act, htop, Option.some.injEq] at hact
      subst hact
      exact ⟨fun hkeeps => absurd hnil hkeeps, fun _ hright' => hright'⟩
    · obtain ⟨hset, -⟩ := TsafeSet.removeTop_eq_some.mp htop
      have hentries : entriesOf (some s) .removeTop = [.taken i] := by
        simp [entriesOf, TsafeSet.top, hset]
      simp only [act, htop, Option.some.injEq] at hact
      subst hact
      rw [hentries]
      exact ⟨fun _ => htracks.removeTop hright htop,
        fun hbad => absurd (by simp [KeepsCount, hset]) hbad⟩
  | push i =>
    obtain ⟨htracks', hiff⟩ := htracks.push hright i
    simp only [act, Option.some.injEq] at hact
    subst hact
    have hentries : entriesOf (some s) (.push i) = [] := rfl
    rw [hentries, List.append_nil]
    exact ⟨fun hkeeps => ⟨htracks', hiff.mpr hkeeps⟩, fun hbad hright' => hbad (hiff.mp hright')⟩

/-- The bitfields that `fetch_peers` stores have no bit. -/
theorem PeerState.Fresh.blank {us : UploadServer} {s : PeerState} (h : s.Fresh us)
    (addrs : List SockAddr) (peerId : Int) (i : Nat) :
    ((s.fetchPeers addrs).storedBitfield peerId).test i = false := by
  rw [storedBitfield]
  rcases hfind : (s.fetchPeers addrs).ndata.find? peerId with _ | data
  · simp [NeighbourData.new, Bitfield.test]
  · obtain ⟨addr, -, -, rfl⟩ | hinit := OrdMap.exists_of_find?_foldl_insert hfind
    · exact Bitfield.test_ofCount _ i
    · simp [h.ndata_eq] at hinit

theorem PeerState.Fresh.tracked {us : UploadServer} {s : PeerState} (h : s.Fresh us)
    (addrs : List SockAddr) : Tracked (some (s.fetchPeers addrs), []) := by
  have hpieces : (s.fetchPeers addrs).pieces = .load s.nPieces := h.pieces_eq
  have hzero (i : Nat) : (s.fetchPeers addrs).pieces.piecesPriority i = neighboursWith [] i := by
    rw [hpieces, TsafeSet.piecesPriority_load]
    rfl
  refine ⟨⟨?_, h.blank addrs, fun i _ => hzero i⟩, fun i _ => hzero i⟩
  rw [hpieces]
  exact TsafeSet.ordered_load _

/-- In a run of a leecher the priorities count the neighbours throughout if and only if every report
and every piece that is put back keeps the counts, and `remove_top` finds a piece. -/
theorem countsRight_iff_keepsCount {after : Nat → BString} {fuel : Nat} {torrent md : BString}
    {us : UploadServer} {s : PeerState}
    (hmeta : PeerState.loadMeta after fuel torrent md false us = .ok s) (addrs : List SockAddr)
    (es : List Activity) :
    Machine.AllStates (Machine.logged act entriesOf) CountsRight
        (some (s.fetchPeers addrs), []) es ↔
      Machine.AllSteps (Machine.logged act entriesOf) KeepsCount
        (some (s.fetchPeers addrs), []) es := by
  have weaken (s : Option PeerState × List Entry) (h : Tracked s) : CountsRight s := by
    obtain ⟨_ | s, log⟩ := s
    · exact h
    · exact h.2
  refine Machine.allStates_iff_allSteps weaken ?_ ?_
    ((PeerState.fresh_of_loadMeta hmeta).tracked addrs) es
  · exact fun s e t h hok hstep => (h.step hstep).1 hok
  · exact fun s e t h hbad hstep => (h.step hstep).2 hbad

/-- A leecher of three pieces. -/
def threePieces : PeerState where
  nPieces := 3
  shs := List.replicate 3 (List.replicate 20 1)
  pieces := .load 3
  ndata := ∅
  isAvailable := .ofCount 3
  us := ⟨⟨[], 0, false⟩, []⟩

theorem threePieces_loaded : PeerState.loadMeta (fun _ => []) 5 (List.replicate 60 1)
    (List.replicate 20 0) false threePieces.us = .ok threePieces := by
  rfl

/-- Two neighbours, each of which sends its bitfield once. -/
theorem two_neighbours_counted : Machine.AllStates (Machine.logged act entriesOf) CountsRight
    (some (threePieces.fetchPeers [.ofUid 1, .ofUid 2]), [])
    [.removeTop, .report 1 ⟨[7], 8⟩, .removeTop, .report 2 ⟨[4], 8⟩] :=
  (countsRight_iff_keepsCount threePieces_loaded _ _).mpr (by decide)

/-- One neighbour that has all pieces and from which two of three are downloaded: the third one
counts twice. -/
theorem neighbour_counted_twice :
    PeerState.loadMeta (fun _ => []) 5 (List.replicate 60 1) (List.replicate 20 0) false
        threePieces.us = .ok threePieces ∧
      ¬ Machine.AllStates (Machine.logged act entriesOf) CountsRight
        (some (threePieces.fetchPeers [.ofUid 1]), [])
        [.removeTop, .report 1 ⟨[7], 8⟩, .removeTop, .report 1 ⟨[7], 8⟩] := by
  refine ⟨rfl, fun h => ?_⟩
  have hlast := h.last rfl 2 (by decide)
  revert hlast
  decide

end P2PFileSharing.Peer
