import P2PFileSharing.Http.Chunking
import P2PFileSharing.Http.Parsing

/-!
# Reading up to the end of the stream

When the other end has closed, every `recv` returns 0. The loop over the header part stops there,
but the loop over the body subtracts 0 from the remaining length and calls `recv` again.
-/

namespace P2PFileSharing.Http

open Library InetSocket Split

/-- The header part of a stream, the rest of the block that it ends in, and the blocks behind. -/
def headPart : List BString → BString × BString × List BString
  | [] => ([], [], [])
  | c :: cs =>
    match find terminator c with
    | some pos => (c.take pos ++ terminator, c.drop (pos + 4), cs)
    | none => (c ++ (headPart cs).1, (headPart cs).2)

/-- The function has returned or thrown. -/
def Ended {α : Type} (r : Except Fault α) : Prop := (∃ a, r = .ok a) ∨ ∃ e, r = .error (.thrown e)

/-- With enough fuel the function returns or throws. -/
def Terminates {α : Type} (x : Nat → Action InetSocket Fault α) (s : InetSocket) : Prop :=
  ∃ r t, Converges (fun fuel => x fuel s) (r, t) ∧ Ended r

/-- The stream is empty, or its header part can be parsed, and what the header announces has come
before the end. -/
def EndsInTime {μ : Type} (kind : Kind μ) (readable : BString → Prop) (stream : List BString) :
    Prop :=
  stream = [] ∨ readable (headPart stream).1 ∧ ∀ msg value,
    kind.deserialize (headPart stream).1 = .ok msg → kind.contentLength msg = .ok value →
      kind.remaining (toInt32 (toInt32 value - (headPart stream).2.1.length)) ≤
        (headPart stream).2.2.flatten.length

section Terminates

variable {α : Type} {x : Nat → Action InetSocket Fault α} {s t : InetSocket} {r : Except Fault α}

theorem terminates_iff (h : Converges (fun fuel => x fuel s) (r, t)) :
    Terminates x s ↔ Ended r := by
  constructor
  · rintro ⟨r', t', h', hr⟩
    cases h.unique h'
    exact hr
  · exact fun hr => ⟨r, t, h, hr⟩

theorem ended_thrown (e : ExnClass) : Ended (.error (.thrown e) : Except Fault α) := .inr ⟨e, rfl⟩

theorem ParsedOrRefused.ended (h : ParsedOrRefused r) : Ended r := h.imp_right fun h => ⟨_, h⟩

end Terminates

/-! ## The two loops -/

theorem headPart_ne_nil {stream : List BString} (hsizes : ∀ c ∈ stream, 0 < c.length)
    (hne : stream ≠ []) : (headPart stream).1 ≠ [] := by
  obtain ⟨c, cs, rfl⟩ := List.exists_cons_of_ne_nil hne
  rw [headPart]
  split
  · simp [terminator_ne_nil]
  · have hc := hsizes c List.mem_cons_self
    simp [List.ne_nil_of_length_pos hc]

theorem headPart_suffix (stream : List BString) : (headPart stream).2.2 <:+ stream := by
  induction stream with
  | nil => exact List.suffix_rfl
  | cons c cs ih =>
    rw [headPart]
    split
    · exact List.suffix_cons c cs
    · exact ih.trans (List.suffix_cons c cs)

theorem headPart_of_uncut {stream : List BString} (h : ∀ c ∈ stream, ¬ terminator <:+: c) :
    headPart stream = (stream.flatten, [], []) := by
  induction stream with
  | nil => rfl
  | cons c cs ih =>
    obtain ⟨hc, hcs⟩ := List.forall_mem_cons.mp h
    have hfind : find terminator c = none := (find_eq_none terminator_ne_nil).mpr hc
    simp only [headPart, hfind, ih hcs, List.flatten_cons]

/-- The loop over the header part stops behind a terminator. -/
theorem readHead_converges_cut {s : InetSocket}
    (hsizes : ∀ c ∈ s.arrivals, 0 < c.length ∧ c.length ≤ 1024)
    (hcut : ∃ c ∈ s.arrivals, terminator <:+: c) (acc : BString) :
    ∃ n, Converges (fun fuel => readHead fuel acc s)
      (.ok (n, acc ++ (headPart s.arrivals).1, (headPart s.arrivals).2.1),
        s.leaving (headPart s.arrivals).2.2) := by
  generalize harr : s.arrivals = stream at hsizes hcut
  induction stream generalizing s acc with
  | nil =>
    obtain ⟨c, hc, -⟩ := hcut
    exact absurd hc List.not_mem_nil
  | cons c cs ih =>
    obtain ⟨⟨hpos, hle⟩, hsizes⟩ := List.forall_mem_cons.mp hsizes
    have hread := readBytes_arrival harr hle
    rw [headPart]
    split
    · rename_i pos hfind
      refine ⟨c.length, (Converges.const _).of_succ fun fuel => ?_⟩
      rw [readHead, Action.bind_of_ok hread]
      simp only [if_pos (show (c.length : Int) > 0 by omega), hfind, Action.pure_run,
        List.append_assoc]
    · rename_i hfind
      have hc : ¬ terminator <:+: c := (find_eq_none terminator_ne_nil).mp hfind
      have hlater : ∃ c ∈ cs, terminator <:+: c := by
        obtain ⟨b, hb, hterm⟩ := hcut
        rcases List.mem_cons.mp hb with rfl | hb
        · exact absurd hterm hc
        · exact ⟨b, hb, hterm⟩
      obtain ⟨n, hconv⟩ := ih (s := s.leaving cs) (acc ++ c) rfl hsizes hlater
      refine ⟨n, ?_⟩
      rw [← List.append_assoc]
      exact hconv.of_succ fun fuel => readHead_next fuel acc hread (by omega) hc

/-- When the other end closes, the loop over the header part stops at the latest there. -/
theorem readHead_converges_headPart {s : InetSocket} (h : Delivers s) (hend : s.ending = .closed) :
    ∃ n, Converges (fun fuel => readHead fuel [] s)
      (.ok (n, (headPart s.arrivals).1, (headPart s.arrivals).2.1),
        s.leaving (headPart s.arrivals).2.2) := by
  by_cases hcut : ∃ c ∈ s.arrivals, terminator <:+: c
  · obtain ⟨n, hconv⟩ := readHead_converges_cut h.sizes hcut []
    rw [List.nil_append] at hconv
    exact ⟨n, hconv⟩
  · have huncut : ∀ c ∈ s.arrivals, ¬ terminator <:+: c := fun c hc hterm => hcut ⟨c, hc, hterm⟩
    have hconv := readHead_converges_closed h hend [] huncut
    rw [List.nil_append] at hconv
    rw [headPart_of_uncut huncut]
    exact ⟨0, hconv⟩

/-- The loop over the body stops when the blocks suffice. -/
theorem readBody_converges_enough {s : InetSocket} {len : Int} (h : Delivers s) (hlt : len < 2 ^ 31)
    (henough : len ≤ s.arrivals.flatten.length) (acc : BString) :
    ∃ body t, Converges (fun fuel => readBody fuel len acc s) (.ok body, t) := by
  generalize harr : s.arrivals = cs at henough
  induction cs generalizing s len acc with
  | nil =>
    have hlen : ¬ 0 < len := by simpa using henough
    exact ⟨acc, s, (Converges.const _).of_succ fun fuel => readBody_done hlen fuel acc s⟩
  | cons c cs ih =>
    by_cases hlen : 0 < len
    · obtain ⟨hpos, hread, hdel⟩ := h.read harr
      have hle := (h.sizes c (by simp [harr])).2
      rw [List.flatten_cons, List.length_append] at henough
      obtain ⟨body, t, hconv⟩ := ih hdel (show len - c.length < 2 ^ 31 by omega) (acc ++ c) rfl
        (by omega)
      exact ⟨body, t, hconv.of_succ fun fuel =>
        readBody_next fuel acc hread hlen (by omega) (by omega)⟩
    · exact ⟨acc, s, (Converges.const _).of_succ fun fuel => readBody_done hlen fuel acc s⟩

/-- When the blocks do not suffice, the loop over the body is left with the end of the stream. -/
theorem readBody_converges_short {s : InetSocket} {len : Int}
    {r : Except Fault BString × InetSocket}
    (hsizes : ∀ c ∈ s.arrivals, 0 < c.length ∧ c.length ≤ 1024) (hlt : len < 2 ^ 31)
    (hshort : s.arrivals.flatten.length < len) (acc : BString)
    (hend : ∀ len' acc', 0 < len' → len' < 2 ^ 31 →
      Converges (fun fuel => readBody fuel len' acc' (s.leaving [])) r) :
    Converges (fun fuel => readBody fuel len acc s) r := by
  generalize harr : s.arrivals = cs at hsizes hshort
  induction cs generalizing s len acc with
  | nil =>
    have hlen : 0 < len := by simpa using hshort
    rw [leaving_of_eq harr] at hend
    exact hend len acc hlen hlt
  | cons c cs ih =>
    obtain ⟨⟨hpos, hle⟩, hsizes⟩ := List.forall_mem_cons.mp hsizes
    rw [List.flatten_cons, List.length_append] at hshort
    have hread := readBytes_arrival harr hle
    have hrest := ih (s := s.leaving cs) (show len - c.length < 2 ^ 31 by omega) (acc ++ c) hend rfl
      hsizes (by omega)
    exact hrest.of_succ fun fuel => readBody_next fuel acc hread (by omega) (by omega) (by omega)

/-- At the end of the stream the loop over the body goes round for ever. -/
theorem readBody_closed {s : InetSocket} (harr : s.arrivals = []) (hend : s.ending = .closed)
    {len : Int} (hlen : 0 < len) (hlt : len < 2 ^ 31) (acc : BString) :
    Converges (fun fuel => readBody fuel len acc s) (.error .outOfFuel, s) := by
  have hround (n : Nat) : readBody (n + 1) len acc s = readBody n len acc s := by
    rw [readBody_next n acc (readBytes_closed 1024 harr hend) hlen (by omega) (by omega), sub_zero,
      List.append_nil]
  exact Converges.of_repeat hround

/-! ## The readers -/

variable {μ : Type} {kind : Kind μ} {readable : BString → Prop} {s : InetSocket}

section Errors

variable {u v : InetSocket} {n : Int} {header start : BString} {parsed : μ} {len : Int} {f : Fault}

theorem readMessage_converges_refused
    (hhead : Converges (fun fuel => readHead fuel [] s) (.ok (n, header, start), u))
    (hne : header ≠ []) (hparsed : kind.deserialize header = .error f) :
    Converges (fun fuel => readMessage kind fuel s) (.error f, u) := by
  refine readMessage_converges_of_head kind hhead hne ?_
  rw [hparsed]
  exact Converges.const _

theorem readMessage_converges_no_length
    (hhead : Converges (fun fuel => readHead fuel [] s) (.ok (n, header, start), u))
    (hne : header ≠ []) (hparsed : kind.deserialize header = .ok parsed)
    (hlen : kind.contentLength parsed = .error f) :
    Converges (fun fuel => readMessage kind fuel s) (.error f, u) := by
  refine readMessage_converges_of_head kind hhead hne (.ofExcept_bind hparsed ?_)
  rw [hlen]
  exact Converges.const _

theorem readMessage_converges_no_body
    (hhead : Converges (fun fuel => readHead fuel [] s) (.ok (n, header, start), u))
    (hne : header ≠ []) (hparsed : kind.deserialize header = .ok parsed)
    (hlen : kind.contentLength parsed = .ok len)
    (hbody : Converges (fun fuel => readBody fuel
      (kind.remaining (toInt32 (toInt32 len - start.length))) start u) (.error f, v)) :
    Converges (fun fuel => readMessage kind fuel s) (.error f, v) :=
  readMessage_converges_of_head kind hhead hne
    (.ofExcept_bind hparsed (.ofExcept_bind hlen hbody.bind_error))

end Errors

theorem remaining_lt (kind : Kind μ) (len : Int) : kind.remaining (toInt32 len) < 2 ^ 31 := by
  have hle := kind.remaining_le (toInt32 len)
  have hlt := toInt32_lt len
  omega

theorem Delivers.leaving_headPart {s : InetSocket} (h : Delivers s) :
    Delivers (s.leaving (headPart s.arrivals).2.2) := h.leaving (headPart_suffix s.arrivals)

/-- A message whose head has been parsed: the reader ends with the loop over its body. -/
theorem readMessage_terminates_of_head {u : InetSocket} {n value : Int} {header start : BString}
    {msg : μ} (hdel : Delivers u) (hend : u.ending = .closed)
    (hhead : Converges (fun fuel => readHead fuel [] s) (.ok (n, header, start), u))
    (hne : header ≠ []) (hmsg : kind.deserialize header = .ok msg)
    (hvalue : kind.contentLength msg = .ok value) :
    Terminates (readMessage kind) s ↔
      kind.remaining (toInt32 (toInt32 value - start.length)) ≤ u.arrivals.flatten.length := by
  have hlt := remaining_lt kind (toInt32 value - start.length)
  by_cases henough : kind.remaining (toInt32 (toInt32 value - start.length)) ≤
      u.arrivals.flatten.length
  · obtain ⟨body, t, hbody⟩ := readBody_converges_enough hdel hlt henough start
    have hconv := readMessage_converges kind hhead hne hmsg hvalue hbody
    exact iff_of_true ((terminates_iff hconv).mpr (.inl ⟨_, rfl⟩)) henough
  · have hbody := readBody_converges_short hdel.sizes hlt (Int.not_le.mp henough) start
      fun len acc hlen hlt => readBody_closed (s := u.leaving []) rfl hend hlen hlt acc
    have hconv := readMessage_converges_no_body hhead hne hmsg hvalue hbody
    refine iff_of_false (fun h => ?_) henough
    rcases (terminates_iff hconv).mp h with ⟨_, ⟨⟩⟩ | ⟨_, ⟨⟩⟩

theorem readMessage_terminates_iff (h : Delivers s) (hend : s.ending = .closed)
    (hparser : ∀ b, readable b ∧ ParsedOrRefused (kind.deserialize b) ∨
      ¬ readable b ∧ kind.deserialize b = .error .undefined)
    (hlength : ∀ msg, Ended (kind.contentLength msg)) :
    Terminates (readMessage kind) s ↔ EndsInTime kind readable s.arrivals := by
  by_cases harr : s.arrivals = []
  · obtain ⟨e, -, hconv⟩ := readMessage_converges_end kind h harr
    exact iff_of_true ((terminates_iff hconv).mpr (ended_thrown e)) (.inl harr)
  rw [EndsInTime, or_iff_right harr]
  obtain ⟨n, hhead⟩ := readHead_converges_headPart h hend
  have hne := headPart_ne_nil (fun c hc => (h.sizes c hc).1) harr
  have hdel := h.leaving_headPart
  generalize headPart s.arrivals = part at hhead hne hdel ⊢
  obtain ⟨header, start, later⟩ := part
  simp only at hhead hne hdel ⊢
  rcases hparser header with ⟨hread, ⟨msg, hmsg⟩ | hrefused⟩ | ⟨hread, hundef⟩
  · rw [and_iff_right hread]
    rcases hlength msg with ⟨value, hvalue⟩ | ⟨e, he⟩
    · rw [readMessage_terminates_of_head hdel hend hhead hne hmsg hvalue]
      constructor
      · intro henough msg' value' hmsg' hvalue'
        cases hmsg.symm.trans hmsg'
        cases hvalue.symm.trans hvalue'
        exact henough
      · exact fun h => h msg value hmsg hvalue
    · have hconv := readMessage_converges_no_length hhead hne hmsg he
      refine iff_of_true ((terminates_iff hconv).mpr (ended_thrown e)) ?_
      intro msg' value' hmsg' hvalue'
      cases hmsg.symm.trans hmsg'
      cases he.symm.trans hvalue'
  · have hconv := readMessage_converges_refused hhead hne hrefused
    refine iff_of_true ((terminates_iff hconv).mpr (ended_thrown _)) ⟨hread, ?_⟩
    intro msg' value' hmsg'
    cases hrefused.symm.trans hmsg'
  · have hconv := readMessage_converges_refused hhead hne hundef
    refine iff_of_false (fun h => ?_) fun h => hread h.1
    rcases (terminates_iff hconv).mp h with ⟨_, ⟨⟩⟩ | ⟨_, ⟨⟩⟩

theorem asFault_ended {α : Type} (x : Except ExnClass α) : Ended (asFault x) := by
  cases x with
  | ok a => exact .inl ⟨a, rfl⟩
  | error e => exact .inr ⟨e, rfl⟩

theorem Request.contentLength_ended (req : Request) : Ended req.contentLength := by
  rw [Request.contentLength]
  split
  · exact asFault_ended _
  · exact ended_thrown _

theorem Response.contentLength_ended (res : Response) : Ended res.contentLength := by
  rw [Response.contentLength]
  split
  · exact asFault_ended _
  · exact .inl ⟨0, rfl⟩

/-- The header part of a response can be printed and parsed. -/
def Response.Printable (header : BString) : Prop :=
  header.length < 2 ^ 31 ∧ Response.Readable header

theorem Response.parseHead_cases (header : BString) :
    Response.Printable header ∧ ParsedOrRefused (Response.parseHead header) ∨
      ¬ Response.Printable header ∧ Response.parseHead header = .error .undefined := by
  rw [Response.Printable, Response.parseHead, b2s_eq]
  split
  next hsmall =>
    rw [and_iff_right hsmall]
    exact Response.deserialize_cases header
  next hlarge => exact .inr ⟨fun h => hlarge h.1, rfl⟩

/-- On a stream that the other end closes, a reader returns or throws if and only if the stream is
empty, or its header part can be parsed and is followed by as much as it announces. -/
theorem readers_terminate_iff (h : Delivers s) (hend : s.ending = .closed) :
    (Terminates readRequest s ↔ EndsInTime requestKind Request.Readable s.arrivals) ∧
      (Terminates readResponse s ↔ EndsInTime responseKind Response.Printable s.arrivals) :=
  ⟨readMessage_terminates_iff h hend Request.deserialize_cases Request.contentLength_ended,
    readMessage_terminates_iff h hend Response.parseHead_cases Response.contentLength_ended⟩

/-- A stream that ends inside the header part is refused. -/
theorem cut_head_refused : Terminates readRequest (arriving [lit "GE"] .closed) ∧
    Terminates readResponse (arriving [lit "HT"] .closed) := by
  have hreq : Request.deserialize (headPart [lit "GE"]).1 = .error (.thrown .parseException) := by
    decide
  have hres : Response.parseHead (headPart [lit "HT"]).1 = .error (.thrown .parseException) := by
    decide
  constructor
  · have hdelivers : Delivers (arriving [lit "GE"] .closed) :=
      delivers_arriving (by decide) (.inl rfl)
    refine (readers_terminate_iff hdelivers rfl).1.mpr
      (.inr ⟨⟨by decide, .inl (.inr (by decide))⟩, ?_⟩)
    intro msg value hmsg
    cases hreq.symm.trans hmsg
  · have hdelivers : Delivers (arriving [lit "HT"] .closed) :=
      delivers_arriving (by decide) (.inl rfl)
    refine (readers_terminate_iff hdelivers rfl).2.mpr
      (.inr ⟨⟨by decide, by decide, .inl (.inr (by decide))⟩, ?_⟩)
    intro msg value hmsg
    cases hres.symm.trans hmsg

/-- A response that announces five bytes and brings two before the end of the stream. -/
def cutResponse : BString := lit "HTTP/2.0 200 OK\r\nContent-Length: 5\r\n\r\nab"

theorem cut_body_never_ends : ¬ Terminates readResponse (arriving [cutResponse] .closed) := by
  have hdelivers : Delivers (arriving [cutResponse] .closed) :=
    delivers_arriving (by decide) (.inl rfl)
  have hmsg : Response.parseHead (headPart [cutResponse]).1 = .ok (.addHeader
      ⟨.HTTP_2_0, .OK, lit "OK", ∅, []⟩ (lit "Content-Length") (lit "5")) := by decide
  have hvalue : Response.contentLength (.addHeader ⟨.HTTP_2_0, .OK, lit "OK", ∅, []⟩
      (lit "Content-Length") (lit "5")) = .ok 5 := by decide
  intro h
  rcases (readMessage_terminates_iff hdelivers rfl Response.parseHead_cases
    Response.contentLength_ended).mp h with hnil | ⟨-, henough⟩
  · cases hnil
  · exact absurd (henough _ _ hmsg hvalue) (by decide)

end P2PFileSharing.Http
