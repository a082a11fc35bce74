import P2PFileSharing.Http.Reader

/-!
# Reading a message however it is cut

The two readers look for CRLFCRLF in one block at a time. A message is read back from its bytes
exactly when its head survives the parser and the last four bytes of the head arrive together,
or when it has no body and the peer closes the connection behind it.
-/

namespace P2PFileSharing.Http

open Library InetSocket Split

variable {μ : Type} (kind : Kind μ)

/-- With enough fuel the reader returns `msg`. -/
def Returns (reader : Nat → Action InetSocket Fault μ) (s : InetSocket) (msg : μ) : Prop :=
  ∃ s', Converges (fun fuel => reader fuel s) (.ok msg, s')

/-- One of the blocks has the last four bytes of the head, and fewer than `2 ^ 31` bytes follow
this block. -/
def HeadEndsInBlock (msg : μ) (blocks : List BString) : Prop :=
  ∃ pre c post, blocks = pre ++ c :: post ∧
    pre.flatten.length + 4 ≤ (kind.serializeHead msg).length ∧
    (kind.serializeHead msg).length ≤ pre.flatten.length + c.length ∧
    post.flatten.length < 2 ^ 31

/-- The CRLFCRLF behind the head of `msg` is not split: it lies in one of the blocks. -/
def Unsplit (msg : μ) (blocks : List BString) : Prop :=
  ∃ pre c post, blocks = pre ++ c :: post ∧
    pre.flatten.length + 4 ≤ (kind.serializeHead msg).length ∧
    (kind.serializeHead msg).length ≤ pre.flatten.length + c.length

/-- The head of `msg` ends inside a block, or nothing follows it before the peer closes. -/
def HeadArrives (msg : μ) (s : InetSocket) : Prop :=
  HeadEndsInBlock kind msg s.arrivals ∨ s.ending = .closed ∧ kind.body msg = []

/-- The bytes of a message, cut at the block that has the end of its head. -/
theorem exists_block_cut {head body pre c post : BString} (hd : Delimited head)
    (hbytes : pre ++ c ++ post = head ++ body) (hle : pre.length + 4 ≤ head.length)
    (hge : head.length ≤ pre.length + c.length) :
    ∃ x y, c = x ++ terminator ++ y ∧ head = pre ++ x ++ terminator ∧ body = y ++ post := by
  obtain ⟨z, rfl, -⟩ := hd
  have hT : terminator.length = 4 := rfl
  rw [List.length_append, hT] at hle hge
  rw [List.append_assoc, List.append_assoc] at hbytes
  have hpre : pre <+: z := by
    refine List.prefix_of_prefix_length_le (List.prefix_append pre (c ++ post)) ?_ (by omega)
    rw [hbytes]
    exact List.prefix_append z _
  obtain ⟨x, rfl⟩ := hpre
  rw [List.append_assoc, List.append_right_inj, ← List.append_assoc x] at hbytes
  have hc : x ++ terminator <+: c := by
    rw [List.length_append] at hge
    refine List.prefix_of_prefix_length_le ?_ (List.prefix_append c post) ?_
    · rw [hbytes]
      exact List.prefix_append _ body
    · rw [List.length_append, hT]
      omega
  obtain ⟨y, rfl⟩ := hc
  rw [List.append_assoc, List.append_right_inj] at hbytes
  exact ⟨x, y, rfl, rfl, hbytes.symm⟩

theorem Unsplit.headEndsInBlock {kind : Kind μ} {msg : μ} {blocks : List BString}
    (h : Unsplit kind msg blocks)
    (hbytes : blocks.flatten = kind.serializeHead msg ++ kind.body msg)
    (hbody : (kind.body msg).length < 2 ^ 31) : HeadEndsInBlock kind msg blocks := by
  obtain ⟨pre, c, post, rfl, hle, hge⟩ := h
  have hlen := congrArg List.length hbytes
  simp only [List.flatten_append, List.flatten_cons, List.length_append] at hlen
  exact ⟨pre, c, post, rfl, hle, hge, by omega⟩

/-- The body loop cannot have read `2 ^ 31` bytes or more. -/
theorem rest_lt_of_bound {start rest : Nat}
    (h : (rest : Int) < max 0 (toInt32 (toInt32 (start + rest : Nat) - start)) + 1024) :
    rest < 2 ^ 31 := by
  have hint : toInt32 (toInt32 (start + rest : Nat) - start) = toInt32 rest := by
    rw [toInt32, toInt32, Int.bmod_sub_bmod, Nat.cast_add, add_sub_cancel_left, toInt32]
  rw [hint] at h
  have := toInt32_natCast rest
  omega

/-- The block in which the reader found the terminator holds the end of the head. -/
theorem headEndsInBlock_of_found {msg : μ} {blocks pre mid post : List BString} {x y : BString}
    (hd : Delimited (kind.serializeHead msg))
    (hlen : kind.contentLength msg = .ok (kind.body msg).length)
    (hbytes : blocks.flatten = kind.serializeHead msg ++ kind.body msg)
    (hblocks : blocks = pre ++ (x ++ terminator ++ y) :: mid ++ post)
    (hbody : kind.body msg = y ++ mid.flatten)
    (hbound : mid = [] ∨ ∃ len, kind.contentLength msg = .ok len ∧
      (mid.flatten.length : Int) < max 0 (toInt32 (toInt32 len - y.length)) + 1024) :
    pre.flatten ++ x ++ terminator = kind.serializeHead msg ∧ HeadEndsInBlock kind msg blocks := by
  have hstream : pre.flatten ++ x ++ terminator ++ (y ++ mid.flatten ++ post.flatten) =
      kind.serializeHead msg ++ kind.body msg := by
    rw [← hbytes, hblocks]
    simp
  have hlengths := congrArg List.length hstream
  simp only [List.length_append, hbody] at hlengths
  have hhead : pre.flatten ++ x ++ terminator = kind.serializeHead msg := by
    refine hd.eq_of_prefix ⟨_, hstream⟩ ?_
    simp only [List.length_append]
    omega
  have hsize := congrArg List.length hhead
  simp only [List.length_append] at hsize
  have hT : terminator.length = 4 := rfl
  refine ⟨hhead, pre, x ++ terminator ++ y, mid ++ post, by simp [hblocks], ?_, ?_, ?_⟩
  · omega
  · simp only [List.length_append]
    omega
  · rw [List.flatten_append, List.length_append]
    rcases hbound with rfl | ⟨len, hval, hbound⟩
    · simp only [List.flatten_nil, List.length_nil]
      omega
    · rw [hlen, Except.ok.injEq, hbody, List.length_append] at hval
      rw [← hval] at hbound
      have := rest_lt_of_bound hbound
      omega

/-- A returned message was parsed from its own head, which arrived whole. -/
theorem headArrives_of_read {s s' : InetSocket} {msg : μ} {header : BString}
    (hd : Delimited (kind.serializeHead msg))
    (hlen : kind.contentLength msg = .ok (kind.body msg).length)
    (hbytes : s.arrivals.flatten = kind.serializeHead msg ++ kind.body msg)
    (hread : MessageRead kind s msg header s') :
    header = kind.serializeHead msg ∧ HeadArrives kind msg s := by
  cases hread with
  | closed ending taken body =>
    exact ⟨by rw [taken, hbytes, body, List.append_nil], .inr ⟨ending, body⟩⟩
  | found pre mid arrivals first taken body bound =>
    obtain ⟨hhead, hends⟩ := headEndsInBlock_of_found kind hd hlen hbytes arrivals body bound
    exact ⟨taken.trans hhead, .inl hends⟩

/-- A message whose blocks hold the end of its head together is read, and nothing behind it. -/
theorem readMessage_converges_of_headEndsInBlock {s : InetSocket} {msg : μ}
    {own rest : List BString} (h : Delivers s) (hsurvives : Survives kind msg)
    (hlen : kind.contentLength msg = .ok (kind.body msg).length)
    (harr : s.arrivals = own ++ rest)
    (hbytes : own.flatten = kind.serializeHead msg ++ kind.body msg)
    (hends : HeadEndsInBlock kind msg own) :
    Converges (fun fuel => readMessage kind fuel s) (.ok msg, s.leaving rest) := by
  obtain ⟨pre, c, post, rfl, hle, hge, hlt⟩ := hends
  rw [List.flatten_append, List.flatten_cons, ← List.append_assoc] at hbytes
  obtain ⟨x, y, rfl, hhead, hbody⟩ := exists_block_cut hsurvives.delimited hbytes hle hge
  exact readMessage_converges_found kind h hsurvives hlen (by simpa using harr) hhead hbody hlt

/-- The last message of a stream. -/
theorem readMessage_converges_of_headArrives {s : InetSocket} {msg : μ} (h : Delivers s)
    (hsurvives : Survives kind msg)
    (hlen : kind.contentLength msg = .ok (kind.body msg).length)
    (hbytes : s.arrivals.flatten = kind.serializeHead msg ++ kind.body msg)
    (harrives : HeadArrives kind msg s) :
    Converges (fun fuel => readMessage kind fuel s) (.ok msg, s.leaving []) := by
  have whole (hends : HeadEndsInBlock kind msg s.arrivals) :=
    readMessage_converges_of_headEndsInBlock kind h hsurvives hlen (List.append_nil _).symm hbytes
      hends
  rcases harrives with hends | ⟨hend, hbody⟩
  · exact whole hends
  rw [hbody, List.append_nil] at hbytes
  rw [hbody] at hlen
  by_cases hsplit : ∀ c ∈ s.arrivals, ¬ terminator <:+: c
  · exact readMessage_converges_closed kind h hend hsurvives hlen hbody hbytes hsplit
  · push Not at hsplit
    obtain ⟨c, hc, hterm⟩ := hsplit
    obtain ⟨x, y, rfl, -⟩ := exists_cut hterm
    obtain ⟨pre, post, harr⟩ := List.append_of_mem hc
    have hstream : pre.flatten ++ x ++ terminator ++ (y ++ post.flatten) =
        kind.serializeHead msg := by
      rw [← hbytes, harr]
      simp
    have hpre : pre.flatten ++ x ++ terminator <+: kind.serializeHead msg := by
      rw [← hstream]
      exact List.prefix_append _ _
    have hhead : pre.flatten ++ x ++ terminator = kind.serializeHead msg :=
      hsurvives.delimited.eq_of_prefix (hpre.trans (List.prefix_append _ [])) hpre.length_le
    have hsize := congrArg List.length hhead
    have hrest := congrArg List.length hstream
    have hT : terminator.length = 4 := rfl
    simp only [List.length_append, hT] at hsize hrest
    refine whole ⟨pre, x ++ terminator ++ y, post, harr, ?_, ?_, ?_⟩
    · omega
    · simp only [List.length_append, hT]
      omega
    · omega

theorem returns_iff {s : InetSocket} {msg : μ} (h : Delivers s)
    (hlen : kind.contentLength msg = .ok (kind.body msg).length)
    (hbytes : s.arrivals.flatten = kind.serializeHead msg ++ kind.body msg) :
    Returns (readMessage kind) s msg ↔ Survives kind msg ∧ HeadArrives kind msg s := by
  constructor
  · rintro ⟨s', hconv⟩
    obtain ⟨fuel, hfuel⟩ := hconv.exists_fuel
    obtain ⟨header, parsed, hparsed, hmsg, hread⟩ := readMessage_eq_ok kind h fuel hfuel
    have hd : Delimited (kind.serializeHead msg) := by
      rw [← hmsg, kind.serializeHead_setBody]
      exact kind.delimited _ _ hparsed
    obtain ⟨rfl, hends⟩ := headArrives_of_read kind hd hlen hbytes hread
    exact ⟨⟨parsed, hparsed, hmsg⟩, hends⟩
  · rintro ⟨hsurvives, harrives⟩
    exact ⟨_, readMessage_converges_of_headArrives kind h hsurvives hlen hbytes harrives⟩

theorem readRequest_returns_iff {s : InetSocket} {req : Request} (h : Delivers s)
    (hlen : req.contentLength = .ok req.body.length)
    (hbytes : s.arrivals.flatten = req.bytes) :
    Returns readRequest s req ↔ req.Transparent ∧ HeadArrives requestKind req s := by
  rw [← Request.survives_iff]
  exact returns_iff requestKind h hlen hbytes

theorem readResponse_returns_iff {s : InetSocket} {res : Response} (h : Delivers s)
    (hlen : res.contentLength = .ok res.body.length)
    (hbytes : s.arrivals.flatten = res.bytes) :
    Returns readResponse s res ↔ res.Transparent ∧ HeadArrives responseKind res s := by
  rw [← Response.survives_iff]
  exact returns_iff responseKind h hlen hbytes

/-- For every message that carries the length of its body and every two ways of cutting its bytes
into blocks, both reads give the message if and only if the parser gives its head back and, in both
cuts, the end of the head arrives in one block or there is no body and the peer closes. -/
theorem readers_return_iff {s₁ s₂ : InetSocket} (h₁ : Delivers s₁) (h₂ : Delivers s₂) :
    (∀ req : Request, req.contentLength = .ok req.body.length →
      s₁.arrivals.flatten = req.bytes → s₂.arrivals.flatten = req.bytes →
      (Returns readRequest s₁ req ∧ Returns readRequest s₂ req ↔
        req.Transparent ∧ HeadArrives requestKind req s₁ ∧ HeadArrives requestKind req s₂)) ∧
    ∀ res : Response, res.contentLength = .ok res.body.length →
      s₁.arrivals.flatten = res.bytes → s₂.arrivals.flatten = res.bytes →
      (Returns readResponse s₁ res ∧ Returns readResponse s₂ res ↔
        res.Transparent ∧ HeadArrives responseKind res s₁ ∧ HeadArrives responseKind res s₂) := by
  constructor
  · intro req hlen hbytes₁ hbytes₂
    rw [readRequest_returns_iff h₁ hlen hbytes₁, readRequest_returns_iff h₂ hlen hbytes₂,
      and_and_and_comm, and_self]
  · intro res hlen hbytes₁ hbytes₂
    rw [readResponse_returns_iff h₁ hlen hbytes₁, readResponse_returns_iff h₂ hlen hbytes₂,
      and_and_and_comm, and_self]

/-- A socket from which these blocks arrive. -/
def arriving (blocks : List BString) (ending : Ending) : InetSocket :=
  { arrivals := blocks, ending, sends := [], wire := [], remoteAddr := ⟨lit "127.0.0.1", 8000, 0⟩ }

def greeting : Request :=
  ((Request.new .POST (lit "/")).addHeader (lit "Content-Length") (lit "2")).setBody (lit "hi")

theorem greeting_transparent : greeting.Transparent :=
  ⟨⟨by decide, by decide, HeaderMap.transparent_iff.mpr (by decide)⟩, by decide, by decide⟩

theorem delivers_arriving {blocks : List BString} {ending : Ending}
    (hsizes : ∀ c ∈ blocks, 0 < c.length ∧ c.length ≤ 1024)
    (hend : ending = .closed ∨ ending = .silent) : Delivers (arriving blocks ending) :=
  ⟨hsizes, hend⟩

/-- The greeting comes back when it arrives at once, and when it is cut behind its head. -/
theorem greeting_read_in_two_cuts :
    Returns readRequest (arriving [greeting.bytes] .silent) greeting ∧
      Returns readRequest (arriving [greeting.serializeHead, lit "h", lit "i"] .closed)
        greeting := by
  have honce : Delivers (arriving [greeting.bytes] .silent) :=
    delivers_arriving (by decide) (.inr rfl)
  have hcut : Delivers (arriving [greeting.serializeHead, lit "h", lit "i"] .closed) :=
    delivers_arriving (by decide) (.inl rfl)
  refine ((readers_return_iff honce hcut).1 greeting (by decide) (by decide) (by decide)).mpr
    ⟨greeting_transparent, .inl ?_, .inl ?_⟩
  · exact ⟨[], greeting.bytes, [], rfl, by decide, by decide, by decide⟩
  · exact ⟨[], greeting.serializeHead, [lit "h", lit "i"], rfl, by decide, by decide, by decide⟩

/-- Cut inside CRLFCRLF, the same bytes do not give the greeting. -/
theorem greeting_lost_in_split :
    ¬ Returns readRequest
      (arriving [greeting.bytes.take 36, greeting.bytes.drop 36] .silent) greeting := by
  intro h
  have hdel :
      Delivers (arriving [greeting.bytes.take 36, greeting.bytes.drop 36] .silent) :=
    delivers_arriving (by decide) (.inr rfl)
  rcases ((readRequest_returns_iff hdel (by decide) (by decide)).mp h).2 with
    ⟨pre, c, post, hblocks, hle, hge, -⟩ | ⟨hend, -⟩
  · have hhead : (requestKind.serializeHead greeting).length = 38 := by decide
    have hfirst : (greeting.bytes.take 36).length = 36 := by decide
    rcases pre with _ | ⟨p, _ | ⟨q, pre⟩⟩
    · obtain ⟨rfl, -⟩ := List.cons.inj hblocks
      rw [hhead, hfirst] at hge
      simp at hge
    · obtain ⟨rfl, -⟩ := List.cons.inj hblocks
      rw [hhead, List.flatten_singleton, hfirst] at hle
      omega
    · simp [arriving] at hblocks
  · cases hend

end P2PFileSharing.Http
