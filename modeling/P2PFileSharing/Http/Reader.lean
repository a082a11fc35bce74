import P2PFileSharing.Cpp.Convert
import P2PFileSharing.Http.Codec
import P2PFileSharing.Library.Fuel
import P2PFileSharing.Socket

/-!
# Reading a message from a socket

`read_request` and `read_response` share their two loops. The first looks for CRLFCRLF inside
each block that `recv` returns, the second reads until `Content-Length` is used up. The readers
differ in the parser, in a missing `Content-Length`, in a remaining length below zero, and in that
`read_response` prints the header part before it parses it.
-/

namespace P2PFileSharing.Http

open Library InetSocket Split

/-- The loop over the header part: the last read count, the bytes taken as the header with its
terminator, and the bytes of the same block behind it. -/
def readHead : Nat → BString → Action InetSocket Fault (Int × BString × BString)
  | 0, _ => Action.throw .outOfFuel
  | fuel + 1, msgHeader => do
    let (readCount, temp) ← readBytes 1024
    if readCount > 0 then
      match find terminator temp with
      | some posHend =>
        pure (readCount, msgHeader ++ temp.take posHend ++ terminator,
          temp.drop (posHend + 4))
      | none => readHead fuel (msgHeader ++ temp)
    else pure (readCount, msgHeader, [])

/-- The loop over the rest of the body. -/
def readBody : Nat → Int → BString → Action InetSocket Fault BString
  | 0, _, _ => Action.throw .outOfFuel
  | fuel + 1, len, msgBody =>
    if len > 0 then do
      let (readCount, bytes) ← readBytes 1024
      let len ← subInt len readCount
      readBody fuel len (msgBody ++ bytes)
    else pure msgBody

/-- What the two readers do differently. -/
structure Kind (μ : Type) where
  /-- What is done with the header part. -/
  deserialize : BString → Except Fault μ
  /-- The value that is stored into `len`. -/
  contentLength : μ → Except Fault Int
  /-- The number of bytes to read where this many are missing. -/
  remaining : Int → Int
  body : μ → BString
  setBody : μ → BString → μ
  serializeHead : μ → BString
  body_setBody : ∀ m b, body (setBody m b) = b
  serializeHead_setBody : ∀ m b, serializeHead (setBody m b) = serializeHead m
  contentLength_setBody : ∀ m b, contentLength (setBody m b) = contentLength m
  remaining_of_nonneg : ∀ len, 0 ≤ len → remaining len = len
  remaining_le : ∀ len, remaining len ≤ max 0 len
  delimited : ∀ s m, deserialize s = .ok m → Delimited (serializeHead m)

def readMessage {μ : Type} (kind : Kind μ) (fuel : Nat) : Action InetSocket Fault μ := do
  let (readCount, msgHeader, msgBody) ← readHead fuel []
  if readCount = 0 ∧ msgHeader.length = 0 then Action.throw (.thrown .remoteEndClosedException)
  else do
    let msg ← Action.ofExcept (kind.deserialize msgHeader)
    let value ← Action.ofExcept (kind.contentLength msg)
    let len := kind.remaining (toInt32 (toInt32 value - msgBody.length))
    let msgBody ← readBody fuel len msgBody
    pure (kind.setBody msg msgBody)

def asFault {α : Type} : Except ExnClass α → Except Fault α
  | .ok a => .ok a
  | .error e => .error (.thrown e)

/-- A request without `Content-Length` is refused. -/
def Request.contentLength (req : Request) : Except Fault Int :=
  match req.getHeader (lit "Content-Length") with
  | .ok value => asFault (stoll value)
  | .error _ => .error (.thrown .contentLengthMissingException)

/-- A response without `Content-Length` has the length 0. -/
def Response.contentLength (res : Response) : Except Fault Int :=
  match res.getHeader (lit "Content-Length") with
  | .ok value => asFault (stoll value)
  | .error _ => .ok 0

@[simp] theorem Response.contentLength_addHeader_self (res : Response) (value : Str) :
    (res.addHeader (lit "Content-Length") value).contentLength = asFault (stoll value) := by
  rw [contentLength, getHeader, addHeader, OrdMap.find?_insert_self]

theorem Response.contentLength_addHeader_of_ne (res : Response) {key : Str} (value : Str)
    (h : key ≠ lit "Content-Length") :
    (res.addHeader key value).contentLength = res.contentLength := by
  rw [contentLength, getHeader, addHeader, OrdMap.find?_insert_of_ne _ _ h.symm]
  rfl

/-- `read_response` prints the head as text before it is parsed. -/
def Response.parseHead (header : BString) : Except Fault Response := do
  let _ ← b2s header
  Response.deserialize header

theorem Response.parseHead_eq_ok {header : BString} {res : Response} :
    parseHead header = .ok res ↔ header.length < 2 ^ 31 ∧ deserialize header = .ok res := by
  rw [parseHead, b2s_eq]
  split
  next hsmall => exact (and_iff_right hsmall).symm
  next hlarge =>
    refine iff_of_false ?_ fun h => hlarge h.1
    simp [bind, Except.bind]

def requestKind : Kind Request where
  deserialize := Request.deserialize
  contentLength := Request.contentLength
  remaining len := len
  body := Request.body
  setBody := Request.setBody
  serializeHead := Request.serializeHead
  body_setBody _ _ := rfl
  serializeHead_setBody _ _ := rfl
  contentLength_setBody _ _ := rfl
  remaining_of_nonneg _ _ := rfl
  remaining_le _ := le_max_right _ _
  delimited _ _ h := (Request.proper_of_deserialize h).delimited

def responseKind : Kind Response where
  deserialize := Response.parseHead
  contentLength := Response.contentLength
  remaining len := max 0 len
  body := Response.body
  setBody := Response.setBody
  serializeHead := Response.serializeHead
  body_setBody _ _ := rfl
  serializeHead_setBody _ _ := rfl
  contentLength_setBody _ _ := rfl
  remaining_of_nonneg _ h := max_eq_right h
  remaining_le _ := le_rfl
  delimited _ _ h := (Response.proper_of_deserialize (Response.parseHead_eq_ok.mp h).2).delimited

def readRequest (fuel : Nat) : Action InetSocket Fault Request := readMessage requestKind fuel

def readResponse (fuel : Nat) : Action InetSocket Fault Response := readMessage responseKind fuel

/-! ## Sockets that deliver a byte stream -/

/-- Every arrival has from 1 to 1024 bytes, and the stream ends by a close or by silence. -/
structure Delivers (s : InetSocket) : Prop where
  sizes : ∀ c ∈ s.arrivals, 0 < c.length ∧ c.length ≤ 1024
  ending : s.ending = .closed ∨ s.ending = .silent

theorem Delivers.leaving {s : InetSocket} (h : Delivers s) {rest : List BString}
    (hsuf : rest <:+ s.arrivals) : Delivers (s.leaving rest) :=
  ⟨fun c hc => h.sizes c (hsuf.subset hc), h.ending⟩

theorem Delivers.read {s : InetSocket} {c : BString} {rest : List BString} (h : Delivers s)
    (harr : s.arrivals = c :: rest) :
    0 < c.length ∧ readBytes 1024 s = (.ok (c.length, c), s.leaving rest) ∧
      Delivers (s.leaving rest) := by
  have hc := h.sizes c (by simp [harr])
  exact ⟨hc.1, readBytes_arrival harr hc.2, h.leaving ⟨[c], by simp [harr]⟩⟩

/-- A read that returns takes the next arrival, or finds the stream closed. -/
theorem Delivers.read_eq_ok {s s' : InetSocket} {n : Int} {bytes : BString} (h : Delivers s)
    (hread : readBytes 1024 s = (.ok (n, bytes), s')) :
    (∃ rest, s.arrivals = bytes :: rest ∧ 0 < bytes.length ∧ n = bytes.length ∧
        s' = s.leaving rest ∧ Delivers s') ∨
      (s.arrivals = [] ∧ s.ending = .closed ∧ n = 0 ∧ bytes = [] ∧ s' = s) := by
  rcases harr : s.arrivals with _ | ⟨c, rest⟩
  · rcases h.ending with hend | hend
    · rw [readBytes_closed _ harr hend] at hread
      cases hread
      exact .inr ⟨rfl, hend, rfl, rfl, rfl⟩
    · rw [readBytes_silent _ harr hend] at hread
      cases hread
  · obtain ⟨hpos, hok, hdel⟩ := h.read harr
    rw [hok] at hread
    cases hread
    exact .inl ⟨rest, rfl, hpos, rfl, rfl, hdel⟩

/-! ## The header loop -/

/-- How the header loop can return: a block contained the terminator, or the stream was closed. -/
inductive HeadRead (s : InetSocket) (acc : BString) :
    Int → BString → BString → InetSocket → Prop
  | found (pre : List BString) {post : List BString} {n : Int} {header x y : BString} (pos : 0 < n)
      (arrivals : s.arrivals = pre ++ (x ++ terminator ++ y) :: post)
      (first : Free terminator x) (taken : header = acc ++ pre.flatten ++ x ++ terminator) :
      HeadRead s acc n header y (s.leaving post)
  | closed {header : BString} (ending : s.ending = .closed)
      (taken : header = acc ++ s.arrivals.flatten) :
      HeadRead s acc 0 header [] (s.leaving [])

theorem HeadRead.after {s s' : InetSocket} {acc header body c : BString} {rest : List BString}
    {n : Int} (h : HeadRead (s.leaving rest) (acc ++ c) n header body s')
    (harr : s.arrivals = c :: rest) : HeadRead s acc n header body s' := by
  cases h with
  | found pre pos arrivals first taken =>
    rw [leaving_arrivals] at arrivals
    exact .found (c :: pre) pos (by simp [harr, arrivals]) first (by simp [taken])
  | closed ending taken => exact .closed ending (by simp [harr, taken])

theorem readHead_found {s s' : InetSocket} {n : Int} {x y : BString} (fuel : Nat) (acc : BString)
    (h : readBytes 1024 s = (.ok (n, x ++ terminator ++ y), s')) (hn : 0 < n)
    (hx : Free terminator x) :
    readHead (fuel + 1) acc s = (.ok (n, acc ++ x ++ terminator, y), s') := by
  have hfind : find terminator (x ++ terminator ++ y) = some x.length :=
    find_of_free terminator_ne_nil hx y
  have hlen : (x ++ terminator).length = x.length + 4 := by simp [terminator_eq]
  rw [readHead, Action.bind_of_ok h]
  simp only [if_pos hn, hfind, Action.pure_run]
  rw [← hlen, List.drop_left, List.append_assoc x, List.take_left]

theorem readHead_next {s s' : InetSocket} {n : Int} {c : BString} (fuel : Nat) (acc : BString)
    (h : readBytes 1024 s = (.ok (n, c), s')) (hn : 0 < n) (hc : ¬ terminator <:+: c) :
    readHead (fuel + 1) acc s = readHead fuel (acc ++ c) s' := by
  have hfind : find terminator c = none := (find_eq_none terminator_ne_nil).mpr hc
  rw [readHead, Action.bind_of_ok h]
  simp only [if_pos hn, hfind]

theorem readHead_end {s s' : InetSocket} {n : Int} {c : BString} (fuel : Nat) (acc : BString)
    (h : readBytes 1024 s = (.ok (n, c), s')) (hn : ¬ 0 < n) :
    readHead (fuel + 1) acc s = (.ok (n, acc, []), s') := by
  rw [readHead, Action.bind_of_ok h]
  simp only [if_neg hn, Action.pure_run]

theorem readHead_eq_ok {s s' : InetSocket} {acc header body : BString} {n : Int}
    (h : Delivers s) (fuel : Nat) (hread : readHead fuel acc s = (.ok (n, header, body), s')) :
    HeadRead s acc n header body s' := by
  induction fuel generalizing s acc with
  | zero => cases hread
  | succ fuel ih =>
    obtain ⟨⟨k, c⟩, u, hc, -⟩ := Action.bind_eq_ok.mp hread
    rcases h.read_eq_ok hc with ⟨rest, harr, hpos, rfl, rfl, hdel⟩ | ⟨harr, hend, rfl, rfl, rfl⟩
    · by_cases hterm : terminator <:+: c
      · obtain ⟨x, y, rfl, hx⟩ := exists_cut hterm
        rw [readHead_found fuel acc hc (by omega) hx] at hread
        cases hread
        exact .found [] (by omega) harr hx (by simp)
      · rw [readHead_next fuel acc hc (by omega) hterm] at hread
        exact (ih hdel hread).after harr
    · rw [readHead_end fuel acc hc (by omega)] at hread
      cases hread
      have hclosed : HeadRead s' header 0 header [] (s'.leaving []) := .closed hend (by simp [harr])
      rwa [leaving_of_eq harr] at hclosed

/-- Blocks without the terminator are collected, up to the block that has it. -/
theorem readHead_converges_found {s : InetSocket} (h : Delivers s) {pre post : List BString}
    {x y : BString} (acc : BString) (harr : s.arrivals = pre ++ (x ++ terminator ++ y) :: post)
    (hpre : ∀ c ∈ pre, ¬ terminator <:+: c) (hx : Free terminator x) :
    Converges (fun fuel => readHead fuel acc s)
      (.ok ((x ++ terminator ++ y).length, acc ++ pre.flatten ++ x ++ terminator, y),
        s.leaving post) := by
  induction pre generalizing s acc with
  | nil =>
    obtain ⟨hpos, hread, -⟩ := h.read harr
    have hfound := fun fuel => readHead_found fuel acc hread (by omega) hx
    rw [List.flatten_nil, List.append_nil]
    exact (Converges.const _).of_succ hfound
  | cons c pre ih =>
    obtain ⟨hpos, hread, hdel⟩ := h.read harr
    obtain ⟨hc, hpre⟩ := List.forall_mem_cons.mp hpre
    have hnext := fun fuel => readHead_next fuel acc hread (by omega) hc
    simpa using (ih hdel (acc ++ c) rfl hpre).of_succ hnext

/-- Where no block has the terminator, the loop takes all of them and goes on at the end. -/
theorem readHead_converges_uncut {s : InetSocket}
    {r : Except Fault (Int × BString × BString) × InetSocket}
    (hsizes : ∀ c ∈ s.arrivals, 0 < c.length ∧ c.length ≤ 1024)
    (huncut : ∀ c ∈ s.arrivals, ¬ terminator <:+: c) (acc : BString)
    (hend : Converges (fun fuel => readHead fuel (acc ++ s.arrivals.flatten) (s.leaving [])) r) :
    Converges (fun fuel => readHead fuel acc s) r := by
  generalize harr : s.arrivals = stream at hsizes huncut hend
  induction stream generalizing s acc with
  | nil => rwa [leaving_of_eq harr, List.flatten_nil, List.append_nil] at hend
  | cons c cs ih =>
    obtain ⟨⟨hpos, hle⟩, hsizes⟩ := List.forall_mem_cons.mp hsizes
    obtain ⟨hc, huncut⟩ := List.forall_mem_cons.mp huncut
    rw [List.flatten_cons, ← List.append_assoc] at hend
    have hrest := ih (s := s.leaving cs) (acc ++ c) rfl hsizes huncut hend
    exact hrest.of_succ fun fuel =>
      readHead_next fuel acc (readBytes_arrival harr hle) (by omega) hc

/-- Then everything up to the close is collected. -/
theorem readHead_converges_closed {s : InetSocket} (h : Delivers s) (hend : s.ending = .closed)
    (acc : BString) (hfree : ∀ c ∈ s.arrivals, ¬ terminator <:+: c) :
    Converges (fun fuel => readHead fuel acc s)
      (.ok (0, acc ++ s.arrivals.flatten, []), s.leaving []) := by
  have hclosed : readBytes 1024 (s.leaving []) = (.ok (0, []), s.leaving []) :=
    readBytes_closed 1024 rfl hend
  exact readHead_converges_uncut h.sizes hfree acc
    ((Converges.const _).of_succ fun fuel => readHead_end fuel _ hclosed (by omega))

/-! ## The body loop -/

theorem readBody_done {len : Int} (hlen : ¬ 0 < len) (fuel : Nat) (acc : BString)
    (s : InetSocket) : readBody (fuel + 1) len acc s = (.ok acc, s) := by
  rw [readBody, if_neg hlen, Action.pure_run]

theorem readBody_next {s s' : InetSocket} {n len : Int} {c : BString} (fuel : Nat)
    (acc : BString) (h : readBytes 1024 s = (.ok (n, c), s')) (hlen : 0 < len)
    (hge : -2 ^ 31 ≤ len - n) (hlt : len - n < 2 ^ 31) :
    readBody (fuel + 1) len acc s = readBody fuel (len - n) (acc ++ c) s' := by
  rw [readBody, if_pos hlen, Action.bind_of_ok h]
  exact Action.bind_of_ok (subInt_run hge hlt s')

/-- The body loop appends whole blocks, and stops within one block of what it was to read. -/
theorem readBody_eq_ok {s s' : InetSocket} {acc body : BString} {len : Int} (h : Delivers s)
    (fuel : Nat) (hread : readBody fuel len acc s = (.ok body, s')) :
    ∃ pre, s.arrivals = pre ++ s'.arrivals ∧ body = acc ++ pre.flatten ∧
      s' = s.leaving s'.arrivals ∧ (pre = [] ∨ (pre.flatten.length : Int) < len + 1024) := by
  induction fuel generalizing s acc len with
  | zero => cases hread
  | succ fuel ih =>
    rw [readBody] at hread
    split at hread
    · obtain ⟨⟨n, c⟩, u, hc, hnext⟩ := Action.bind_eq_ok.mp hread
      obtain ⟨len', u', hsub, hrest⟩ := Action.bind_eq_ok.mp hnext
      clear hnext
      obtain ⟨rfl, rfl⟩ := subInt_eq_ok hsub
      rcases h.read_eq_ok hc with ⟨rest, harr, hpos, rfl, rfl, hdel⟩ | ⟨-, -, rfl, rfl, rfl⟩
      · have hle := (h.sizes c (by simp [harr])).2
        obtain ⟨pre, hpre, rfl, hs', hbound⟩ := ih hdel hrest
        rw [leaving_arrivals] at hpre
        refine ⟨c :: pre, by simp [harr, hpre], by simp, hs', .inr ?_⟩
        rw [List.flatten_cons, List.length_append]
        rcases hbound with rfl | hbound
        · simp
          omega
        · omega
      · simpa using ih h hrest
    · cases hread
      exact ⟨[], rfl, by simp, rfl, .inl rfl⟩

theorem readBody_converges {s : InetSocket} (h : Delivers s) {pre post : List BString}
    (acc : BString) (harr : s.arrivals = pre ++ post) (hlt : pre.flatten.length < 2 ^ 31) :
    Converges (fun fuel => readBody fuel pre.flatten.length acc s)
      (.ok (acc ++ pre.flatten), s.leaving post) := by
  induction pre generalizing s acc with
  | nil =>
    rw [List.nil_append] at harr
    rw [leaving_of_eq harr, List.flatten_nil, List.append_nil]
    exact (Converges.const _).of_succ fun fuel => readBody_done (by simp) fuel acc s
  | cons c pre ih =>
    rw [List.flatten_cons, List.length_append] at hlt ⊢
    obtain ⟨hpos, hread, hdel⟩ := h.read harr
    have hrest := ih hdel (acc ++ c) rfl (by omega)
    rw [List.append_assoc] at hrest
    refine hrest.of_succ fun fuel => ?_
    rw [readBody_next fuel acc hread (by omega) (by omega) (by omega), Nat.cast_add,
      add_sub_cancel_left]

/-! ## The readers -/

variable {μ : Type} (kind : Kind μ)

/-- Parsing the head of a message gives the message back, except for the body. -/
def Survives (msg : μ) : Prop :=
  ∃ parsed, kind.deserialize (kind.serializeHead msg) = .ok parsed ∧
    kind.setBody parsed (kind.body msg) = msg

theorem Request.survives_iff {req : Request} : Survives requestKind req ↔ req.Transparent :=
  Request.transparent_iff.symm

/-- A head that comes back from its own bytes is short enough to be printed. -/
theorem Response.survives_iff {res : Response} : Survives responseKind res ↔ res.Transparent := by
  constructor
  · rintro ⟨parsed, hparsed, hbody⟩
    exact Response.transparent_iff.mpr ⟨parsed, (Response.parseHead_eq_ok.mp hparsed).2, hbody⟩
  · intro h
    obtain ⟨parsed, hparsed, hbody⟩ := Response.transparent_iff.mp h
    exact ⟨parsed, Response.parseHead_eq_ok.mpr ⟨h.small, hparsed⟩, hbody⟩

/-- How a reader can return a message. -/
inductive MessageRead (s : InetSocket) (msg : μ) (header : BString) : InetSocket → Prop
  | found (pre : List BString) {x y : BString} (mid : List BString) {post : List BString}
      (arrivals : s.arrivals = pre ++ (x ++ terminator ++ y) :: mid ++ post)
      (first : Free terminator x) (taken : header = pre.flatten ++ x ++ terminator)
      (body : kind.body msg = y ++ mid.flatten)
      (bound : mid = [] ∨ ∃ len, kind.contentLength msg = .ok len ∧
        (mid.flatten.length : Int) < max 0 (toInt32 (toInt32 len - y.length)) + 1024) :
      MessageRead s msg header (s.leaving post)
  | closed (ending : s.ending = .closed) (taken : header = s.arrivals.flatten)
      (body : kind.body msg = []) : MessageRead s msg header (s.leaving [])

theorem readMessage_eq_ok {s s' : InetSocket} {msg : μ} (h : Delivers s) (fuel : Nat)
    (hread : readMessage kind fuel s = (.ok msg, s')) :
    ∃ header parsed, kind.deserialize header = .ok parsed ∧
      kind.setBody parsed (kind.body msg) = msg ∧ MessageRead kind s msg header s' := by
  obtain ⟨⟨n, header, start⟩, u, hhead, hrest⟩ := Action.bind_eq_ok.mp hread
  simp only at hrest
  split at hrest
  · cases hrest
  obtain ⟨parsed, u₁, hparse, hrest₁⟩ := Action.bind_eq_ok.mp hrest
  obtain ⟨len, u₂, hvalue, hrest₂⟩ := Action.bind_eq_ok.mp hrest₁
  obtain ⟨body, u₃, hbody, hdone⟩ := Action.bind_eq_ok.mp hrest₂
  obtain ⟨hparsed, rfl⟩ := Action.ofExcept_eq_ok.mp hparse
  obtain ⟨hlen, rfl⟩ := Action.ofExcept_eq_ok.mp hvalue
  cases hdone
  refine ⟨header, parsed, hparsed, by rw [kind.body_setBody], ?_⟩
  cases readHead_eq_ok h fuel hhead with
  | @found pre post _ _ x y pos arrivals first taken =>
    have hdel : Delivers (s.leaving post) :=
      h.leaving ⟨pre ++ [x ++ terminator ++ start], by simp [arrivals]⟩
    obtain ⟨mid, hmid, rfl, hs', hbound⟩ := readBody_eq_ok hdel fuel hbody
    rw [leaving_arrivals] at hmid
    rw [hs']
    refine .found pre mid (by simp [arrivals, hmid]) first (by simpa using taken)
      (kind.body_setBody _ _) (hbound.imp_right fun hlt => ⟨len, ?_, ?_⟩)
    · rw [kind.contentLength_setBody, hlen]
    · have := kind.remaining_le (toInt32 (toInt32 len - start.length))
      omega
  | closed ending taken =>
    obtain ⟨mid, hmid, rfl, hs', -⟩ := readBody_eq_ok (h.leaving (List.nil_suffix)) fuel hbody
    rw [leaving_arrivals, eq_comm, List.append_eq_nil_iff] at hmid
    obtain ⟨rfl, hnil⟩ := hmid
    rw [hs', hnil]
    exact .closed ending (by simpa using taken) (kind.body_setBody _ _)

theorem Survives.delimited {msg : μ} (h : Survives kind msg) :
    Delimited (kind.serializeHead msg) := by
  obtain ⟨parsed, hparsed, hmsg⟩ := h
  rw [← hmsg, kind.serializeHead_setBody]
  exact kind.delimited _ _ hparsed

/-- The `int` arithmetic on the remaining length, for a body that starts in the header's block. -/
theorem remaining_eq (start : Nat) {rest : Nat} (hlt : rest < 2 ^ 31) :
    kind.remaining (toInt32 (toInt32 (start + rest : Nat) - start)) = rest := by
  have hint : toInt32 (toInt32 (start + rest : Nat) - start) = rest := by
    rw [toInt32, toInt32, Int.bmod_sub_bmod, Nat.cast_add, add_sub_cancel_left]
    exact toInt32_eq_self (by omega) (by omega)
  rw [hint, kind.remaining_of_nonneg _ (by omega)]

/-- Behind the header loop a reader is its parser and the loop over the body. -/
theorem readMessage_converges_of_head {s u : InetSocket} {n : Int} {header start : BString}
    {r : Except Fault μ × InetSocket}
    (hhead : Converges (fun fuel => readHead fuel [] s) (.ok (n, header, start), u))
    (hne : header ≠ [])
    (hrest : Converges (fun fuel => (do
      let msg ← Action.ofExcept (kind.deserialize header)
      let value ← Action.ofExcept (kind.contentLength msg)
      let body ← readBody fuel (kind.remaining (toInt32 (toInt32 value - start.length))) start
      pure (kind.setBody msg body) : Action InetSocket Fault μ) u) r) :
    Converges (fun fuel => readMessage kind fuel s) r := by
  have hlength : ¬ (n = 0 ∧ header.length = 0) := by simp [hne]
  refine hhead.bind ?_
  simp only [if_neg hlength]
  exact hrest

/-- From the parsed head on, a reader is the body loop. -/
theorem readMessage_converges {s u v : InetSocket} {n : Int} {header start body : BString}
    {parsed : μ} {len : Int}
    (hhead : Converges (fun fuel => readHead fuel [] s) (.ok (n, header, start), u))
    (hne : header ≠ []) (hparsed : kind.deserialize header = .ok parsed)
    (hlen : kind.contentLength parsed = .ok len)
    (hbody : Converges (fun fuel => readBody fuel
      (kind.remaining (toInt32 (toInt32 len - start.length))) start u) (.ok body, v)) :
    Converges (fun fuel => readMessage kind fuel s) (.ok (kind.setBody parsed body), v) :=
  readMessage_converges_of_head kind hhead hne (.ofExcept_bind hparsed (.ofExcept_bind hlen
    (hbody.bind (Converges.const _))))

/-- A message whose head ends inside a block and whose body ends with a block is returned. -/
theorem readMessage_converges_found {s : InetSocket} {msg : μ} (h : Delivers s)
    (hsurvives : Survives kind msg)
    (hlen : kind.contentLength msg = .ok (kind.body msg).length) {pre mid post : List BString}
    {x y : BString} (harr : s.arrivals = pre ++ (x ++ terminator ++ y) :: (mid ++ post))
    (hhead : kind.serializeHead msg = pre.flatten ++ x ++ terminator)
    (hbody : kind.body msg = y ++ mid.flatten) (hlt : mid.flatten.length < 2 ^ 31) :
    Converges (fun fuel => readMessage kind fuel s) (.ok msg, s.leaving post) := by
  obtain ⟨z, hz, hfree⟩ := hsurvives.delimited
  obtain rfl : pre.flatten ++ x = z := List.append_cancel_right (hhead.symm.trans hz)
  have hpre : ∀ c ∈ pre, ¬ terminator <:+: c := fun c hc hterm =>
    hfree.not_infix terminator_ne_nil
      (hterm.trans ((List.infix_of_mem_flatten hc).trans (List.prefix_append _ _).isInfix))
  obtain ⟨parsed, hparsed, hmsg⟩ := hsurvives
  rw [hhead] at hparsed
  rw [← hmsg, kind.contentLength_setBody, kind.body_setBody, hbody, List.length_append] at hlen
  have hdel : Delivers (s.leaving (mid ++ post)) :=
    h.leaving ⟨pre ++ [x ++ terminator ++ y], by simp [harr]⟩
  have hread := readBody_converges hdel y rfl hlt
  rw [← remaining_eq kind y.length hlt] at hread
  have := readMessage_converges kind (readHead_converges_found h [] harr hpre hfree.of_append)
    (by simp [terminator_ne_nil]) (by simpa using hparsed) hlen hread
  rwa [← hbody, hmsg] at this

/-- A message without a body is returned where the stream is closed after it, even if no block
has its terminator. -/
theorem readMessage_converges_closed {s : InetSocket} {msg : μ} (h : Delivers s)
    (hend : s.ending = .closed) (hsurvives : Survives kind msg)
    (hlen : kind.contentLength msg = .ok 0) (hbody : kind.body msg = [])
    (hhead : s.arrivals.flatten = kind.serializeHead msg)
    (hsplit : ∀ c ∈ s.arrivals, ¬ terminator <:+: c) :
    Converges (fun fuel => readMessage kind fuel s) (.ok msg, s.leaving []) := by
  obtain ⟨z, hz, -⟩ := hsurvives.delimited
  obtain ⟨parsed, hparsed, hmsg⟩ := hsurvives
  have hcollect := readHead_converges_closed h hend [] hsplit
  rw [List.nil_append, hhead] at hcollect
  rw [← hmsg, kind.contentLength_setBody] at hlen
  have hread : Converges (fun fuel => readBody fuel (0 : Nat) [] (s.leaving []))
      (.ok [], s.leaving []) :=
    (Converges.const _).of_succ fun fuel => readBody_done (by simp) fuel [] _
  rw [← remaining_eq kind 0 (by simp)] at hread
  have := readMessage_converges kind hcollect (by simp [hz, terminator_ne_nil]) hparsed hlen hread
  rwa [← hbody, hmsg] at this

/-- Where nothing more arrives a reader throws. -/
theorem readMessage_converges_end {s : InetSocket} (h : Delivers s) (harr : s.arrivals = []) :
    ∃ e, (e = .remoteEndClosedException ∨ e = .socketTimeOutException) ∧
      Converges (fun fuel => readMessage kind fuel s) (.error (.thrown e), s) := by
  rcases h.ending with hend | hend
  · have hhead := readHead_converges_closed h hend [] (by simp [harr])
    rw [leaving_of_eq harr, harr] at hhead
    exact ⟨_, .inl rfl, hhead.bind (Converges.const _)⟩
  · have hhead : Converges (fun fuel => readHead fuel [] s)
        (.error (.thrown .socketTimeOutException), s) :=
      (Converges.const _).of_succ fun fuel => Action.bind_of_error (readBytes_silent _ harr hend)
    exact ⟨_, .inr rfl, hhead.bind_error⟩

end P2PFileSharing.Http
