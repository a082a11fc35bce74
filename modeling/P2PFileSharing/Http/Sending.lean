import P2PFileSharing.Http.Writer
import Mathlib.Logic.Relation

/-!
# A send that fails

`write_bytes` catches the exception for a failed `send` itself and returns -1. The loop of the
writers subtracts this from what is left to send, which grows.
-/

namespace P2PFileSharing.Http

open Library InetSocket Relation

/-- One round of the loop of the writers, from one test of `to_send > 0` to the next. -/
def Round (data : BString) (p q : Int × InetSocket) : Prop :=
  0 < p.1 ∧ ∃ count, writeBytes (data ++ [0]) p.1.toNat p.2 = (.ok count, q.2) ∧
    subInt p.1 count q.2 = (.ok q.1, q.2)

/-- The loop comes to its test with this `to_send` and this socket. -/
def AtTest (data : BString) (s : InetSocket) (toSend : Int) (t : InetSocket) : Prop :=
  ReflTransGen (Round data) (toInt32 data.length, s) (toSend, t)

/-- Failed sends do no harm to the writer of `data`. -/
structure Contained (writer : Nat → Action InetSocket Fault Unit) (data : BString)
    (s : InetSocket) : Prop where
  /-- The count that is passed to `send` is within what has not been sent yet. -/
  count_le : ∀ toSend t, AtTest data s toSend t → 0 < toSend →
    toSend ≤ data.length - ((t.wire.length : Int) - s.wire.length)
  /-- When a `send` fails, the writer ends with an exception. -/
  throws : ∀ toSend t err rest, AtTest data s toSend t → 0 < toSend →
    t.sends = .failed err :: rest →
      ∃ e, Converges (fun fuel => writer fuel s) (.error (.thrown e), { t with sends := rest })

/-- The bytes that a `send` takes at most. -/
def taken : SendResult → Nat
  | .sent count => count
  | .failed _ => 0

/-- A `send` fails only after others have taken `toSend` bytes. -/
def FailsAfter (toSend : Int) (sends : List SendResult) : Prop :=
  ∀ before err after, sends = before ++ .failed err :: after → toSend ≤ (before.map taken).sum

variable {data : BString} {toSend toSend' : Int} {s t t' : InetSocket} {rest : List SendResult}

/-! ## One round -/

/-- The loop is where a round has left it. -/
theorem Round.writeLoop (h : Round data (toSend, t) (toSend', t')) (n : Nat) :
    writeLoop data (n + 1) toSend t = writeLoop data n toSend' t' := by
  obtain ⟨hpos, count, hwrite, hsub⟩ := h
  rw [Http.writeLoop, if_pos hpos, Action.bind_of_ok hwrite, Action.bind_of_ok hsub]

/-- A round can go one way only. -/
theorem Round.unique {p q q' : Int × InetSocket} (h : Round data p q) (h' : Round data p q') :
    q = q' := by
  obtain ⟨-, count, hwrite, hsub⟩ := h
  obtain ⟨-, count', hwrite', hsub'⟩ := h'
  obtain ⟨hcount, hsocket⟩ := Prod.mk.inj (hwrite.symm.trans hwrite')
  cases hcount
  rw [← hsocket] at hsub'
  obtain ⟨hto, -⟩ := Prod.mk.inj (hsub.symm.trans hsub')
  exact Prod.ext (Except.ok.inj hto) hsocket

theorem round_of_writeBytes {count k : Nat} (hpos : 0 < count) (hint : count < 2 ^ 31)
    (hk : k ≤ count) (hwrite : writeBytes (data ++ [0]) count t = (.ok (k : Int), t')) :
    Round data (count, t) ((count - k : Nat), t') := by
  refine ⟨by omega, k, by rwa [Int.toNat_natCast], ?_⟩
  rw [subInt_run (by omega) (by omega), Nat.cast_sub hk]

/-- A `send` that fails makes what is left to send grow. -/
theorem round_failed {count err : Nat} (hpos : 0 < count) (hle : count ≤ data.length)
    (hint : count + 1 < 2 ^ 31) (hsends : t.sends = .failed err :: rest) :
    Round data (count, t) ((count + 1 : Nat), { t with sends := rest }) := by
  have hwrite : writeBytes (data ++ [0]) count t = (.ok (-1), { t with sends := rest }) := by
    rw [writeBytes, if_neg (by simp; omega), hsends]
  refine ⟨by omega, -1, by rwa [Int.toNat_natCast], ?_⟩
  rw [subInt_run (by omega) (by omega), Int.sub_neg, Nat.cast_succ]

theorem writeBytes_ne_thrown (buf : BString) (count : Nat) (s : InetSocket) (e : ExnClass) :
    (writeBytes buf count s).1 ≠ .error (.thrown e) := by
  unfold writeBytes
  split_ifs
  · simp
  · split <;> simp

/-- The loop of the writers lets no exception out. -/
theorem writeLoop_ne_thrown (data : BString) (fuel : Nat) (toSend : Int) (s : InetSocket)
    (e : ExnClass) : (writeLoop data fuel toSend s).1 ≠ .error (.thrown e) := by
  induction fuel generalizing toSend s with
  | zero => simp [writeLoop]
  | succ fuel ih =>
    rw [writeLoop]
    split_ifs with hpos
    · rcases hwrite : writeBytes (data ++ [0]) toSend.toNat s with ⟨f | count, s'⟩
      · rw [Action.bind_of_error hwrite]
        intro h
        cases h
        exact writeBytes_ne_thrown _ _ s e (by rw [hwrite])
      · rw [Action.bind_of_ok hwrite]
        by_cases hfits : -2 ^ 31 ≤ toSend - count ∧ toSend - count < 2 ^ 31
        · rw [Action.bind_of_ok (subInt_run hfits.1 hfits.2 s')]
          exact ih _ _
        · rw [Action.bind_of_error (e := .undefined) (by rw [subInt, if_neg hfits]; rfl)]
          simp
    · simp

/-! ## A run of rounds -/

theorem FailsAfter.sent {count k : Nat} (h : FailsAfter count (.sent k :: rest)) :
    FailsAfter (count - min k count : Nat) rest := by
  rintro before err after rfl
  have hsum := h (.sent k :: before) err after rfl
  rw [List.map_cons, List.sum_cons, taken] at hsum
  omega

/-- What holds at a test of the loop, as long as no `send` fails too early. -/
structure Sending (data : BString) (s : InetSocket) (p : Int × InetSocket) : Prop where
  unsent : p.1 ≤ data.length - ((p.2.wire.length : Int) - s.wire.length)
  grown : s.wire.length ≤ p.2.wire.length
  small : p.1 < 2 ^ 31
  fails : FailsAfter p.1 p.2.sends

/-- A `send` that takes `k` bytes. -/
theorem Sending.takes {count k : Nat} (h : Sending data s (count, t)) (hk : k ≤ count)
    (hle : count ≤ data.length) (hwire : t'.wire = t.wire ++ data.take k)
    (hfails : FailsAfter (count - k : Nat) t'.sends) : Sending data s ((count - k : Nat), t') := by
  have hlen : t'.wire.length = t.wire.length + k := by
    rw [hwire, List.length_append, List.length_take_of_le (hk.trans hle)]
  have hunsent := h.unsent
  have hgrown := h.grown
  have hsmall := h.small
  simp only at hunsent hgrown hsmall
  constructor
  case unsent =>
    simp only [hlen]
    omega
  case grown =>
    simp only [hlen]
    omega
  case small =>
    simp only
    omega
  case fails => exact hfails

theorem failsAfter_nil (toSend : Int) : FailsAfter toSend [] := by
  intro before err after hcut
  simp at hcut

theorem Sending.round {p q : Int × InetSocket} (h : Sending data s p) (hround : Round data p q) :
    Sending data s q := by
  obtain ⟨toSend, t⟩ := p
  obtain ⟨count, rfl⟩ := Int.eq_ofNat_of_zero_le hround.1.le
  have hpos : (0 : Int) < count := hround.1
  have hunsent := h.unsent
  have hgrown := h.grown
  have hsmall := h.small
  have hfails := h.fails
  simp only at hunsent hgrown hsmall hfails
  have hle : count ≤ data.length := by omega
  cases hsends : t.sends with
  | nil =>
    obtain rfl := hround.unique (round_of_writeBytes (by omega) (by omega) (le_refl count)
      (writeBytes_all hle hsends))
    refine h.takes (le_refl count) hle rfl ?_
    rw [show ({ t with wire := t.wire ++ data.take count } : InetSocket).sends = t.sends from rfl,
      hsends]
    exact failsAfter_nil _
  | cons r rest =>
    rw [hsends] at hfails
    cases r with
    | sent k =>
      obtain rfl := hround.unique (round_of_writeBytes (by omega) (by omega)
        (Nat.min_le_right k count) (writeBytes_sent hle hsends))
      exact h.takes (Nat.min_le_right k count) hle rfl hfails.sent
    | failed err =>
      have hnone := hfails [] err rest rfl
      simp only [List.map_nil, List.sum_nil] at hnone
      omega

theorem Sending.reach {p q : Int × InetSocket} (h : Sending data s p)
    (hreach : ReflTransGen (Round data) p q) : Sending data s q := by
  induction hreach with
  | refl => exact h
  | tail _ hround ih => exact ih.round hround

/-- A failure that comes too early is met. -/
theorem exists_failing_send {count : Nat} (hle : count ≤ data.length) (hint : count < 2 ^ 31)
    {before after : List SendResult} {err : Nat} (hsends : t.sends = before ++ .failed err :: after)
    (hearly : (before.map taken).sum < count) :
    ∃ toSend u err rest, ReflTransGen (Round data) (count, t) (toSend, u) ∧ 0 < toSend ∧
      u.sends = .failed err :: rest := by
  induction before generalizing count t with
  | nil => exact ⟨count, t, err, after, .refl, by omega, hsends⟩
  | cons r before ih =>
    cases r with
    | failed err' => exact ⟨count, t, err', _, .refl, by omega, hsends⟩
    | sent k =>
      rw [List.map_cons, List.sum_cons, taken] at hearly
      have hround : Round data ((count : Int), t) ((count - min k count : Nat),
          { t with sends := before ++ .failed err :: after,
                   wire := t.wire ++ data.take (min k count) }) :=
        round_of_writeBytes (by omega) hint (Nat.min_le_right k count) (writeBytes_sent hle hsends)
      obtain ⟨toSend, u, err, rest, hreach, hpos, hu⟩ := ih
        (t := { t with sends := before ++ .failed err :: after,
                       wire := t.wire ++ data.take (min k count) })
        (show count - min k count ≤ data.length by omega) (by omega) rfl (by omega)
      exact ⟨toSend, u, err, rest, .head hround hreach, hpos, hu⟩

/-- A writer that lets no exception out. -/
theorem contained_iff {writer : Nat → Action InetSocket Fault Unit} (data : BString)
    {s : InetSocket}
    (hwriter : ∀ fuel t e, (writer fuel t).1 ≠ .error (.thrown e)) :
    Contained writer data s ↔ FailsAfter (toInt32 data.length) s.sends := by
  have hle := toInt32_natCast data.length
  have hlt := toInt32_lt data.length
  constructor
  · intro h before err after hsends
    by_contra hearly
    obtain ⟨count, hcount⟩ := Int.eq_ofNat_of_zero_le (show 0 ≤ toInt32 data.length by omega)
    obtain ⟨toSend, u, err, rest, hreach, hpos, hu⟩ :=
      exists_failing_send (show count ≤ data.length by omega) (by omega) hsends (by omega)
    rw [← hcount] at hreach
    obtain ⟨e, hthrows⟩ := h.throws toSend u err rest hreach hpos hu
    obtain ⟨n, hn⟩ := hthrows.exists_fuel
    exact hwriter n s e (by rw [hn])
  · intro hfails
    have hstart : Sending data s (toInt32 data.length, s) := by
      constructor
      case unsent =>
        simp only
        omega
      case grown => exact Nat.le_refl _
      case small =>
        simp only
        omega
      case fails =>
        simp only
        exact hfails
    refine ⟨fun toSend t h _ => (hstart.reach h).unsent, fun toSend t err rest h hpos ht => ?_⟩
    have hnone := (hstart.reach h).fails [] err rest ht
    simp only [List.map_nil, List.sum_nil] at hnone
    omega

/-- The writers let no exception out, whether the message can be serialized or not. -/
theorem writer_ne_thrown {ser : Except Fault BString} {data : BString}
    (hser : ser = .ok data ∨ ser = .error .undefined) (fuel : Nat) (s : InetSocket) (e : ExnClass) :
    ((do
      let data ← Action.ofExcept ser
      writeLoop data fuel (toInt32 data.length) : Action InetSocket Fault Unit) s).1 ≠
        .error (.thrown e) := by
  rcases hser with rfl | rfl
  · exact writeLoop_ne_thrown data fuel _ s e
  · simp

/-- Failed sends do no harm to `write_request` and `write_response` if and only if there are none
before the whole message has been taken. -/
theorem failed_sends_contained_iff (req : Request) (res : Response) (s : InetSocket) :
    (Contained (fun fuel => writeRequest fuel req) req.bytes s ↔
        FailsAfter (toInt32 req.bytes.length) s.sends) ∧
      (Contained (fun fuel => writeResponse fuel res) res.bytes s ↔
        FailsAfter (toInt32 res.bytes.length) s.sends) :=
  ⟨contained_iff _ (writer_ne_thrown req.serialize_cases),
    contained_iff _ (writer_ne_thrown res.serialize_cases)⟩

/-- A socket whose first `send` fails with EPIPE. -/
def brokenSocket : InetSocket := { sendingSocket [] with sends := [.failed 32] }

def brokenRequest : Request := .new .GET (lit "/piece")

/-- After it the loop sends again, one byte more than there is. -/
theorem failed_send_grows :
    (∃ t, AtTest brokenRequest.bytes brokenSocket
      (brokenRequest.bytes.length + 1 : Nat) t ∧ t.wire = []) ∧
    ¬ Contained (fun fuel => writeRequest fuel brokenRequest) brokenRequest.bytes
      brokenSocket := by
  have hlen : toInt32 brokenRequest.bytes.length = brokenRequest.bytes.length := by decide
  constructor
  · refine ⟨{ brokenSocket with sends := [] }, ?_, rfl⟩
    rw [AtTest, hlen]
    exact .single (round_failed (by decide) (le_refl _) (by decide) rfl)
  · intro h
    have hfails := (contained_iff _ (writer_ne_thrown brokenRequest.serialize_cases)).mp h [] 32 []
      rfl
    rw [hlen] at hfails
    revert hfails
    decide

end P2PFileSharing.Http
