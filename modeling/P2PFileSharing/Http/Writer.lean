import P2PFileSharing.Cpp.Convert
import P2PFileSharing.Http.Message
import P2PFileSharing.Library.Fuel
import P2PFileSharing.Socket

/-!
# Writing a message to a socket

`write_request` and `write_response` share one loop. It counts down what is left to send but
passes the start of the data to every `send`, so after a short write it sends the beginning of
the message again. A message arrives unchanged exactly when each block that was due looks like
the beginning of the message.
-/

namespace P2PFileSharing.Http

open Library InetSocket

/-- The loop of both writers. `data.c_str()` points to the data and a zero after it. -/
def writeLoop (data : BString) : Nat → Int → Action InetSocket Fault Unit
  | 0, _ => Action.throw .outOfFuel
  | fuel + 1, toSend =>
    if toSend > 0 then do
      let count ← writeBytes (data ++ [0]) toSend.toNat
      let toSend ← subInt toSend count
      writeLoop data fuel toSend
    else pure ()

def writeRequest (fuel : Nat) (req : Request) : Action InetSocket Fault Unit := do
  let data ← Action.ofExcept req.serialize
  writeLoop data fuel (toInt32 data.length)

def writeResponse (fuel : Nat) (res : Response) : Action InetSocket Fault Unit := do
  let data ← Action.ofExcept res.serialize
  writeLoop data fuel (toInt32 data.length)

theorem writeRequest_of_serialize {req : Request} {data : BString} (h : req.serialize = .ok data)
    (fuel : Nat) : writeRequest fuel req = writeLoop data fuel (toInt32 data.length) := by
  rw [writeRequest, h]
  rfl

theorem writeResponse_of_serialize {res : Response} {data : BString} (h : res.serialize = .ok data)
    (fuel : Nat) : writeResponse fuel res = writeLoop data fuel (toInt32 data.length) := by
  rw [writeResponse, h]
  rfl

/-! ## What the loop puts on the wire -/

/-- The bytes that are sent for a count `toSend` when the sends take `ks`. -/
def sentBytes (data : BString) : List Nat → Nat → BString
  | [], toSend => data.take toSend
  | k :: ks, toSend => data.take (min k toSend) ++ sentBytes data ks (toSend - min k toSend)

/-- Every block, of the lengths `ks` and then the rest, taken from the data at `offset` on,
looks like the beginning of the data. -/
def BlocksRestart (data : BString) : List Nat → Nat → Prop
  | [], offset => data.drop offset <+: data
  | k :: ks, offset => (data.drop offset).take k <+: data ∧ BlocksRestart data ks (offset + k)

instance decidableBlocksRestart (data : BString) :
    (ks : List Nat) → DecidablePred (BlocksRestart data ks)
  | [] => fun _ => inferInstanceAs (Decidable (_ <+: _))
  | _ :: ks => fun _ =>
    have := decidableBlocksRestart data ks
    inferInstanceAs (Decidable (_ ∧ _))

theorem length_sentBytes {data : BString} {toSend : Nat} (h : toSend ≤ data.length)
    (ks : List Nat) : (sentBytes data ks toSend).length = toSend := by
  induction ks generalizing toSend with
  | nil => simpa [sentBytes] using h
  | cons k ks ih =>
    rw [sentBytes, List.length_append, ih (by omega), List.length_take]
    omega

theorem sentBytes_zero (data : BString) (ks : List Nat) : sentBytes data ks 0 = [] :=
  List.eq_nil_of_length_eq_zero (length_sentBytes (Nat.zero_le _) ks)

theorem writeLoop_done (data : BString) {toSend : Int} (h : toSend ≤ 0) (s : InetSocket) :
    Converges (fun fuel => writeLoop data fuel toSend s) (.ok (), s) :=
  (Converges.const _).of_succ fun n => by
    rw [writeLoop, if_neg (by omega), Action.pure_run]

/-- A `send` that takes everything it is given. -/
theorem writeBytes_all {data : BString} {count : Nat} (hle : count ≤ data.length) {s : InetSocket}
    (hs : s.sends = []) : writeBytes (data ++ [0]) count s =
      (.ok (count : Int), { s with wire := s.wire ++ data.take count }) := by
  rw [writeBytes, if_neg (by simp; omega), hs]
  simp [List.take_append_of_le_length hle]

/-- A `send` that may be short. -/
theorem writeBytes_sent {data : BString} {count k : Nat} (hle : count ≤ data.length)
    {s : InetSocket} {rest : List SendResult} (hs : s.sends = .sent k :: rest) :
    writeBytes (data ++ [0]) count s = (.ok ((min k count : Nat) : Int),
      { s with sends := rest, wire := s.wire ++ data.take (min k count) }) := by
  rw [writeBytes, if_neg (by simp; omega), hs]
  simp [List.take_append_of_le_length (show min k count ≤ data.length by omega)]

/-- One round of the loop, for a `send` that takes `count` bytes. -/
theorem writeLoop_round {data : BString} {toSend count : Nat} (hpos : 0 < toSend)
    (hint : toSend < 2 ^ 31) (hcount : count ≤ toSend) {s s' : InetSocket}
    (h : writeBytes (data ++ [0]) toSend s = (.ok (count : Int), s')) (n : Nat) :
    writeLoop data (n + 1) toSend s = writeLoop data n ((toSend - count : Nat) : Int) s' := by
  have hsub :
      subInt (toSend : Int) (count : Int) s' = (.ok ((toSend - count : Nat) : Int), s') := by
    rw [subInt_run (by omega) (by omega), Nat.cast_sub hcount]
  rw [writeLoop, if_pos (by omega), Int.toNat_natCast, Action.bind_of_ok h,
    Action.bind_of_ok hsub]

/-- The loop sends exactly `sentBytes`, whatever short writes there are. -/
theorem writeLoop_converges (data : BString) {ks : List Nat} (hks : ∀ k ∈ ks, 0 < k)
    (toSend : Nat) (hle : toSend ≤ data.length) (hint : toSend < 2 ^ 31) (s : InetSocket)
    (hs : s.sends = ks.map .sent) :
    ∃ s', Converges (fun fuel => writeLoop data fuel toSend s) (.ok (), s') ∧
      s' = { s with sends := s'.sends, wire := s.wire ++ sentBytes data ks toSend } ∧
      s'.sends <:+ s.sends := by
  induction ks generalizing toSend s with
  | nil =>
    by_cases hzero : toSend = 0
    · subst hzero
      exact ⟨s, writeLoop_done data (by simp) s, by simp [sentBytes_zero], List.suffix_rfl⟩
    · have hlast := writeLoop_round (by omega) hint (Nat.le_refl toSend) (writeBytes_all hle hs)
      rw [Nat.sub_self] at hlast
      exact ⟨_, (writeLoop_done data (by simp) _).of_succ hlast, rfl, List.suffix_rfl⟩
  | cons k ks ih =>
    by_cases hzero : toSend = 0
    · subst hzero
      exact ⟨s, writeLoop_done data (by simp) s, by simp [sentBytes_zero], List.suffix_rfl⟩
    · have hk : 0 < k := hks k (by simp)
      have hround := writeLoop_round (by omega) hint (Nat.min_le_right k toSend)
        (writeBytes_sent hle hs)
      obtain ⟨s', hconv, hs', hsuf⟩ := ih (fun j hj => hks j (by simp [hj]))
        (toSend - min k toSend) (by omega) (by omega)
        { s with sends := ks.map .sent, wire := s.wire ++ data.take (min k toSend) } rfl
      refine ⟨s', hconv.of_succ hround, ?_, hsuf.trans (by simp [hs])⟩
      rw [hs', sentBytes]
      simp

/-- The blocks that are sent are those that are due exactly when each of them looks like the
beginning of the data. -/
theorem sentBytes_eq_drop_iff (data : BString) (ks : List Nat) (offset : Nat) :
    sentBytes data ks (data.length - offset) = data.drop offset ↔
      BlocksRestart data ks offset := by
  induction ks generalizing offset with
  | nil => rw [sentBytes, BlocksRestart, List.prefix_iff_eq_take, List.length_drop, eq_comm]
  | cons k ks ih =>
    have hlen : ((data.drop offset).take k).length = min k (data.length - offset) := by
      rw [List.length_take, List.length_drop]
    have hblock : data.take (min k (data.length - offset)) = (data.drop offset).take k ↔
        (data.drop offset).take k <+: data := by
      rw [List.prefix_iff_eq_take, hlen, eq_comm]
    have hrest : data.length - offset - min k (data.length - offset) =
        data.length - (offset + k) := by omega
    have hcut : (data.drop offset).take k ++ data.drop (offset + k) = data.drop offset := by
      rw [← List.drop_drop, List.take_append_drop]
    rw [BlocksRestart, ← ih (offset + k), ← hblock, sentBytes, hrest]
    constructor
    · intro h
      exact List.append_inj (h.trans hcut.symm) (by rw [hlen, List.length_take]; omega)
    · rintro ⟨hfirst, hothers⟩
      rw [hfirst, hothers, hcut]

/-- The writer returns, and what it added to the wire is `data`. -/
def Transmits (writer : Nat → Action InetSocket Fault Unit) (s : InetSocket) (data : BString) :
    Prop :=
  ∃ s', Converges (fun fuel => writer fuel s) (.ok (), s') ∧ s'.wire = s.wire ++ data

/-- The shared loop of the writers, with the size of the data stored into an `int`. -/
theorem writeAll_converges (data : BString) {ks : List Nat} (hks : ∀ k ∈ ks, 0 < k)
    (s : InetSocket) (hs : s.sends = ks.map .sent) :
    ∃ s', Converges (fun fuel => writeLoop data fuel (toInt32 data.length) s) (.ok (), s') ∧
      s' = { s with
        sends := s'.sends, wire := s.wire ++ sentBytes data ks (toInt32 data.length).toNat } ∧
      s'.sends <:+ s.sends := by
  by_cases hneg : toInt32 data.length ≤ 0
  · refine ⟨s, writeLoop_done data hneg s, ?_, List.suffix_rfl⟩
    rw [Int.toNat_of_nonpos hneg, sentBytes_zero, List.append_nil]
  · have hlt := toInt32_lt data.length
    have hle := toInt32_natCast data.length
    have hloop :=
      writeLoop_converges data hks (toInt32 data.length).toNat (by omega) (by omega) s hs
    rwa [Int.toNat_of_nonneg (by omega)] at hloop

theorem transmits_iff (data : BString) {ks : List Nat} (hks : ∀ k ∈ ks, 0 < k) {s : InetSocket}
    (hs : s.sends = ks.map .sent) :
    Transmits (fun fuel => writeLoop data fuel (toInt32 data.length)) s data ↔
      data.length < 2 ^ 31 ∧ BlocksRestart data ks 0 := by
  obtain ⟨s', hconv, hs', -⟩ := writeAll_converges data hks s hs
  have hwire : s'.wire = s.wire ++ sentBytes data ks (toInt32 data.length).toNat := by rw [hs']
  have hresult : Transmits (fun fuel => writeLoop data fuel (toInt32 data.length)) s data ↔
      sentBytes data ks (toInt32 data.length).toNat = data := by
    constructor
    · rintro ⟨t, ht, hw⟩
      cases ht.unique hconv
      exact List.append_cancel_left (hwire.symm.trans hw)
    · intro h
      exact ⟨s', hconv, by rw [hwire, h]⟩
  rw [hresult]
  rcases toInt32_natCast data.length with ⟨hsmall, hcount⟩ | ⟨hlarge, hcount⟩
  · have hblocks := sentBytes_eq_drop_iff data ks 0
    rw [Nat.sub_zero, List.drop_zero] at hblocks
    rw [hcount, Int.toNat_natCast, hblocks, and_iff_right hsmall]
  · have hle : (toInt32 data.length).toNat ≤ data.length := by omega
    constructor
    · intro h
      have hlen := length_sentBytes hle ks
      rw [h] at hlen
      omega
    · rintro ⟨hsmall, -⟩
      omega

/-- A writer of a message, whose bytes are `data` if it can be serialized. -/
theorem transmits_of_serialize {ser : Except Fault BString} {data : BString}
    (hser : ser = .ok data ∨ ser = .error .undefined)
    (hsmall : data.length < 2 ^ 31 → ser = .ok data) {ks : List Nat} (hks : ∀ k ∈ ks, 0 < k)
    {s : InetSocket} (hs : s.sends = ks.map .sent) :
    Transmits (fun fuel => do
      let data ← Action.ofExcept ser
      writeLoop data fuel (toInt32 data.length)) s data ↔
        data.length < 2 ^ 31 ∧ BlocksRestart data ks 0 := by
  rcases hser with rfl | rfl
  · exact transmits_iff data hks hs
  · refine iff_of_false ?_ fun h => by cases hsmall h.1
    rintro ⟨t, hconv, -⟩
    obtain ⟨fuel, hfuel⟩ := hconv.exists_fuel
    cases hfuel

/-- Whatever short writes there are, a message arrives unchanged if and only if its size fits
into an `int` and every block that is sent looks like the beginning of the message. -/
theorem writers_transmit_iff (req : Request) (res : Response) (ks : List Nat)
    (hks : ∀ k ∈ ks, 0 < k) (s : InetSocket) (hs : s.sends = ks.map .sent) :
    (Transmits (fun fuel => writeRequest fuel req) s req.bytes ↔
        req.bytes.length < 2 ^ 31 ∧ BlocksRestart req.bytes ks 0) ∧
      (Transmits (fun fuel => writeResponse fuel res) s res.bytes ↔
        res.bytes.length < 2 ^ 31 ∧ BlocksRestart res.bytes ks 0) :=
  ⟨transmits_of_serialize req.serialize_cases req.serialize_of_size hks hs,
    transmits_of_serialize res.serialize_cases res.serialize_of_size hks hs⟩

/-- A socket with nothing to read whose sends take `ks`. -/
def sendingSocket (ks : List Nat) : InetSocket :=
  { arrivals := [], ending := .silent, sends := ks.map .sent, wire := [],
    remoteAddr := ⟨lit "127.0.0.1", 8000, 0⟩ }

/-- A `send` that takes everything transmits both kinds of messages. -/
theorem writers_transmit_in_one_send :
    Transmits (fun fuel => writeRequest fuel (Request.new .GET (lit "/piece")))
        (sendingSocket [1024]) (Request.new .GET (lit "/piece")).bytes ∧
      Transmits (fun fuel => writeResponse fuel (Response.new .OK (lit "ok")))
        (sendingSocket [1024]) (Response.new .OK (lit "ok")).bytes := by
  obtain ⟨hreq, hres⟩ := writers_transmit_iff (Request.new .GET (lit "/piece"))
    (Response.new .OK (lit "ok")) [1024] (by decide) (sendingSocket [1024]) rfl
  exact ⟨hreq.mpr (by decide), hres.mpr (by decide)⟩

/-- A `send` that takes one byte is followed by the whole beginning of the message again. -/
theorem short_send_repeats :
    ¬ Transmits (fun fuel => writeRequest fuel (Request.new .GET (lit "/piece")))
      (sendingSocket [1]) (Request.new .GET (lit "/piece")).bytes := by
  intro h
  have positive : ∀ k ∈ [1], 0 < k := by decide
  have hser : (Request.new .GET (lit "/piece")).serialize =
      .ok (Request.new .GET (lit "/piece")).bytes := Request.serialize_of_small (by decide)
  simp only [writeRequest_of_serialize hser] at h
  have := (transmits_iff _ positive rfl).mp h
  revert this
  decide

end P2PFileSharing.Http
