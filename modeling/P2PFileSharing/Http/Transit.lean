import P2PFileSharing.Http.Chunking
import P2PFileSharing.Http.Writer

/-!
# A message on its way

A message is written by one socket, delivered in blocks, and read by the other one. As long as the
writer's `send`s take everything and the end of the head stays in one block, it is on the wire, or
it can be read.
-/

namespace P2PFileSharing.Http

open Library InetSocket Split

variable {μ : Type}

/-! ## More fuel -/

theorem writeLoop_settles (data : BString) (toSend : Int) :
    Settles .outOfFuel fun fuel => writeLoop data fuel toSend := by
  refine Settles.loop (fun again toSend =>
    if toSend > 0 then do
      let count ← writeBytes (data ++ [0]) toSend.toNat
      let toSend ← subInt toSend count
      again toSend
    else pure ()) (fun _ _ => rfl) (fun _ _ => rfl) ?_ toSend
  intro again again' hagain toSend
  split
  · exact .bind .rfl fun count => .bind .rfl hagain
  · exact .rfl

theorem writeResponse_settles (res : Response) :
    Settles .outOfFuel fun fuel => writeResponse fuel res := fun n m hnm =>
  .bind .rfl fun data => writeLoop_settles data _ n m hnm

theorem readHead_settles (acc : BString) : Settles .outOfFuel fun fuel => readHead fuel acc := by
  refine Settles.loop (fun again acc => do
    let got ← readBytes 1024
    if got.1 > 0 then
      (find terminator got.2).elim (again (acc ++ got.2)) fun posHend =>
        pure (got.1, acc ++ got.2.take posHend ++ terminator, got.2.drop (posHend + 4))
    else pure (got.1, acc, [])) (fun _ _ => rfl)
    (fun _ _ => bind_congr fun got => by dsimp only; cases find terminator got.2 <;> rfl) ?_ acc
  intro again again' hagain acc
  refine .bind .rfl fun got => ?_
  split
  · cases find terminator got.2 with
    | none => exact hagain _
    | some posHend => exact .rfl
  · exact .rfl

theorem readBody_settles (len : Int) (acc : BString) :
    Settles .outOfFuel fun fuel => readBody fuel len acc := by
  refine Settles.loop (f := fun fuel (p : Int × BString) => readBody fuel p.1 p.2)
    (fun again p =>
      if p.1 > 0 then do
        let got ← readBytes 1024
        let len ← subInt p.1 got.1
        again (len, p.2 ++ got.2)
      else pure p.2) (fun _ _ => rfl) (fun _ _ => rfl) ?_ (len, acc)
  intro again again' hagain p
  split
  · exact .bind .rfl fun q => .bind .rfl fun len => hagain _
  · exact .rfl

theorem readMessage_settles (kind : Kind μ) : Settles .outOfFuel (readMessage kind) := by
  intro n m hnm
  refine .bind (readHead_settles [] n m hnm) ?_
  rintro ⟨readCount, msgHeader, msgBody⟩
  dsimp only
  split
  · exact .rfl
  · exact .bind .rfl fun msg => .bind .rfl fun value =>
      .bind (readBody_settles _ _ n m hnm) fun body => .rfl

/-! ## A message on its way -/

/-- The parser gives the message back, and its sizes fit into an `int`. -/
structure Carried (kind : Kind μ) (msg : μ) : Prop where
  survives : Survives kind msg
  length : kind.contentLength msg = .ok (kind.body msg).length
  small : (kind.serializeHead msg ++ kind.body msg).length < 2 ^ 31

/-- All the bytes of the wire arrive, and the first CRLFCRLF among them arrives in one block. -/
structure Delivery (wire : BString) (blocks : List BString) : Prop where
  whole : blocks.flatten = wire
  sizes : ∀ c ∈ blocks, 0 < c.length ∧ c.length ≤ 1024
  unsplit : wire ≠ [] → ∃ pre x y post, blocks = pre ++ (x ++ terminator ++ y) :: post ∧
    Free terminator (pre.flatten ++ x)

/-- There is at most one message between two sockets, and it is still on the wire of the one or has
arrived at the other. -/
inductive Transit (kind : Kind μ) : List μ → BString → List BString → Prop
  | none : Transit kind [] [] []
  | wire {msg : μ} (carried : Carried kind msg) :
      Transit kind [msg] (kind.serializeHead msg ++ kind.body msg) []
  | arrived {msg : μ} {blocks : List BString} (carried : Carried kind msg)
      (whole : blocks.flatten = kind.serializeHead msg ++ kind.body msg)
      (ends : HeadEndsInBlock kind msg blocks) : Transit kind [msg] [] blocks

/-- Two heads of one stream are the same. -/
theorem Delimited.eq_of_stream {head head' rest rest' : BString} (h : Delimited head)
    (h' : Delimited head') (hstream : head ++ rest = head' ++ rest') : head = head' := by
  obtain ⟨x, rfl, hx⟩ := h
  obtain ⟨y, rfl, hy⟩ := h'
  rcases Nat.le_total (x ++ terminator).length (y ++ terminator).length with hle | hle
  · exact Delimited.eq_of_prefix ⟨y, rfl, hy⟩ ⟨rest, hstream⟩ hle
  · exact (Delimited.eq_of_prefix ⟨x, rfl, hx⟩ ⟨rest', hstream.symm⟩ hle).symm

variable {kind : Kind μ} {msg : μ} {msgs : List μ} {wire : BString} {arrivals blocks : List BString}

theorem Carried.ne_nil (h : Carried kind msg) : kind.serializeHead msg ++ kind.body msg ≠ [] := by
  obtain ⟨z, hz, -⟩ := h.survives.delimited
  simp [hz, terminator_ne_nil]

theorem Carried.ends (h : Carried kind msg)
    (hblocks : Delivery (kind.serializeHead msg ++ kind.body msg) blocks) :
    HeadEndsInBlock kind msg blocks := by
  have hd := h.survives.delimited
  obtain ⟨pre, x, y, post, rfl, hfree⟩ := hblocks.unsplit h.ne_nil
  have hwhole := hblocks.whole
  have hstream : pre.flatten ++ x ++ terminator ++ (y ++ post.flatten) =
      kind.serializeHead msg ++ kind.body msg := by
    rw [← hwhole]
    simp
  have hhead : pre.flatten ++ x ++ terminator = kind.serializeHead msg :=
    Delimited.eq_of_stream ⟨_, rfl, hfree⟩ hd hstream
  have hT : terminator.length = 4 := rfl
  have hsmall := h.small
  have hlength := congrArg List.length hhead
  rw [← hwhole] at hsmall
  simp only [List.length_append, List.flatten_append, List.flatten_cons, hT] at hlength hsmall
  refine ⟨pre, x ++ terminator ++ y, post, rfl, by omega, ?_, by omega⟩
  simp only [List.length_append, hT]
  omega

theorem Transit.write (h : Transit kind [] wire arrivals) (hcarried : Carried kind msg) :
    Transit kind [msg] (wire ++ (kind.serializeHead msg ++ kind.body msg)) arrivals := by
  cases h
  exact .wire hcarried

theorem Transit.carry (h : Transit kind msgs wire arrivals) (hblocks : Delivery wire blocks) :
    Transit kind msgs [] (arrivals ++ blocks) := by
  have hstill (hnil : wire = []) : blocks = [] := by
    refine List.eq_nil_iff_forall_not_mem.mpr fun c hc => ?_
    have hpos := (hblocks.sizes c hc).1
    have hflat := hblocks.whole.trans hnil
    rw [List.flatten_eq_nil_iff.mp hflat c hc] at hpos
    simp at hpos
  cases h with
  | none =>
    rw [hstill rfl]
    exact .none
  | wire hcarried => exact .arrived hcarried hblocks.whole (hcarried.ends hblocks)
  | arrived hcarried hwhole hends =>
    rw [hstill rfl, List.append_nil]
    exact .arrived hcarried hwhole hends

/-- A message that is no longer on the wire is read. -/
theorem Transit.read_arrived {s : InetSocket} (h : Transit kind [msg] wire s.arrivals)
    (hs : Delivers s) (hwire : wire = []) :
    Carried kind msg ∧ Converges (fun fuel => readMessage kind fuel s) (.ok msg, s.leaving []) := by
  generalize harr : s.arrivals = arrivals at h
  cases h with
  | wire hcarried => exact absurd hwire hcarried.ne_nil
  | arrived hcarried hwhole hends =>
    exact ⟨hcarried, readMessage_converges_of_headEndsInBlock kind hs hcarried.survives
      hcarried.length (by rw [harr, List.append_nil]) hwhole hends⟩

/-- A reader takes the message that has arrived, or fails and changes nothing. -/
theorem Transit.read {s : InetSocket} (h : Transit kind msgs wire s.arrivals) (hs : Delivers s) :
    (∃ msg, msgs = [msg] ∧ wire = [] ∧ Carried kind msg ∧
      Converges (fun fuel => readMessage kind fuel s) (.ok msg, s.leaving [])) ∨
    ∃ e, (e = .remoteEndClosedException ∨ e = .socketTimeOutException) ∧
      Converges (fun fuel => readMessage kind fuel s) (.error (.thrown e), s) := by
  by_cases harr : s.arrivals = []
  · exact .inr (readMessage_converges_end kind hs harr)
  · have harrived : ∃ msg, msgs = [msg] ∧ wire = [] := by
      generalize s.arrivals = arrivals at h harr
      cases h with
      | none => exact absurd rfl harr
      | wire => exact absurd rfl harr
      | arrived => exact ⟨_, rfl, rfl⟩
    obtain ⟨msg, rfl, hwire⟩ := harrived
    exact .inl ⟨msg, rfl, hwire, h.read_arrived hs hwire⟩

/-- A message is written whole by a socket whose `send`s take all they are given. -/
theorem writeLoop_converges_whole {data : BString} {s : InetSocket} (hs : s.sends = [])
    (hsmall : data.length < 2 ^ 31) :
    Converges (fun fuel => writeLoop data fuel (toInt32 data.length) s)
      (.ok (), { s with wire := s.wire ++ data }) := by
  have hnone : ∀ k ∈ ([] : List Nat), 0 < k := fun k hk => absurd hk List.not_mem_nil
  obtain ⟨t, hconv, ht, hsends⟩ := writeAll_converges data hnone s hs
  rw [hs, List.suffix_nil] at hsends
  rw [toInt32_eq_self (by omega) (by omega), Int.toNat_natCast, sentBytes, List.take_length,
    hsends, ← hs] at ht
  rwa [← ht]

/-- A request that has been written is on the wire. -/
theorem writeRequest_whole {req : Request} {s u : InetSocket} {fuel : Nat} (hs : s.sends = [])
    (hcarried : Carried requestKind req) (hwrite : writeRequest fuel req s = (.ok (), u)) :
    u = { s with wire := s.wire ++ req.bytes } := by
  rw [writeRequest_of_serialize (req.serialize_of_size hcarried.small)] at hwrite
  have hsettles := writeLoop_settles req.bytes (toInt32 req.bytes.length)
  have hsent := writeLoop_converges_whole hs hcarried.small
  exact (Prod.mk.inj (hsettles.eq_of_converges hwrite (by simp) hsent)).2

/-- Every message can be delivered, if need be byte by byte. -/
theorem exists_delivery {kind : Kind μ} {msgs : List μ} {wire : BString} {arrivals : List BString}
    (h : Transit kind msgs wire arrivals) : ∃ blocks, Delivery wire blocks := by
  have hnone : Delivery [] [] :=
    ⟨rfl, fun _ hc => absurd hc List.not_mem_nil, fun h => absurd rfl h⟩
  have hbytes (y : BString) : (y.map fun b => [b]).flatten = y := List.flatMap_singleton' y
  cases h with
  | none => exact ⟨[], hnone⟩
  | @wire msg hcarried =>
    obtain ⟨x, hx, hfree⟩ := hcarried.survives.delimited
    refine ⟨x.map (fun b => [b]) ++ terminator :: (kind.body msg).map (fun b => [b]), ?_, ?_, ?_⟩
    · simp [hx, hbytes]
    · intro c hc
      simp only [List.mem_append, List.mem_map, List.mem_cons] at hc
      rcases hc with ⟨b, -, rfl⟩ | rfl | ⟨b, -, rfl⟩
      · simp
      · decide
      · simp
    · intro _
      exact ⟨_, [], [], _, rfl, by rwa [hbytes, List.append_nil]⟩
  | arrived => exact ⟨[], hnone⟩

/-- A short message can be delivered at once. -/
theorem Carried.delivery (h : Carried kind msg)
    (hlen : (kind.serializeHead msg ++ kind.body msg).length ≤ 1024) :
    Delivery (kind.serializeHead msg ++ kind.body msg)
      [kind.serializeHead msg ++ kind.body msg] := by
  refine ⟨List.flatten_singleton, ?_, fun _ => ?_⟩
  · intro c hc
    rw [List.mem_singleton.mp hc]
    exact ⟨List.length_pos_of_ne_nil h.ne_nil, hlen⟩
  · obtain ⟨x, hx, hfree⟩ := h.survives.delimited
    exact ⟨[], x, kind.body msg, [], by rw [hx, List.nil_append], hfree⟩

/-- A socket whose `send`s take all they are given, and whose stream ends by a close or by
silence. -/
structure Reliable (s : InetSocket) : Prop where
  sends : s.sends = []
  delivers : Delivers s

namespace Reliable

variable {s : InetSocket}

theorem with_wire (h : Reliable s) (wire : BString) : Reliable { s with wire } :=
  ⟨h.sends, h.delivers.sizes, h.delivers.ending⟩

theorem leaving_nil (h : Reliable s) : Reliable (s.leaving []) :=
  ⟨h.sends, h.delivers.leaving (List.nil_suffix)⟩

theorem arriving (h : Reliable s) {wire : BString} {blocks : List BString}
    (hblocks : Delivery wire blocks) : Reliable { s with arrivals := s.arrivals ++ blocks } :=
  ⟨h.sends, fun c hc => (List.mem_append.mp hc).elim (h.delivers.sizes c) (hblocks.sizes c),
    h.delivers.ending⟩

theorem ended (h : Reliable s) : Reliable { s with ending := .closed } :=
  ⟨h.sends, h.delivers.sizes, .inl rfl⟩

end Reliable

end P2PFileSharing.Http
