import P2PFileSharing.Http.Transit

/-!
# Serving a connection

`handle_client` reads requests from one connection until a read fails, and passes each to the
callback, after it has printed it. The callback keeps a state of its own, such as the tracker's. A
reader always takes whole blocks, so the requests of a connection are told apart exactly where
every one of them starts with a block of its own.
-/

namespace P2PFileSharing.Http

open Library InetSocket Split

/-- A request handler with a state of type `κ`. -/
abbrev Callback (κ : Type) := Request → SockAddr → Action κ ExnClass Response

variable {κ : Type}

/-- `read_request`, and the request printed as text. -/
def nextRequest (fuel : Nat) : Action InetSocket Fault Request := do
  let req ← readRequest fuel
  let data ← Action.ofExcept req.serialize
  let _ ← Action.ofExcept (b2s data)
  pure req

/-- The body of the `try` block. -/
def serve (callback : Callback κ) (fuel : Nat) : Action (InetSocket × κ) Fault Bool := do
  let req ← Action.onFst (nextRequest fuel)
  let s ← Action.get
  let res ← Action.onSnd ((callback req s.1.remoteAddr).mapError .thrown)
  Action.onFst (writeResponse fuel res)
  pure true

/-- The `catch` list in its order: which exceptions end the loop, and which are answered. -/
def serveHandlers (fuel : Nat) : List (ExnClass × Action (InetSocket × κ) Fault Bool) :=
  let answer (status : Status) (text : Str) : Action (InetSocket × κ) Fault Bool := do
    Action.onFst (writeResponse fuel (Response.new status text))
    pure true
  [(.remoteEndClosedException, pure false),
    (.socketTimeOutException, pure false),
    (.contentLengthMissingException, answer .LENGTH_REQ (lit "Content-Length missing")),
    (.httpException, pure false),
    (.parseException, answer .BAD_REQUEST (lit "Malformed HTTP request")),
    (.exception, pure false)]

def handleClient (callback : Callback κ) : Nat → Action (InetSocket × κ) Fault Unit
  | 0 => Action.throw .outOfFuel
  | fuel + 1 => do
    let goOn ← (serve callback fuel).catching (Fault.handlerFor (serveHandlers fuel))
    if goOn then handleClient callback fuel else pure ()

/-! ## What keep-alive asks for -/

/-- Successive calls of `read_request` return the requests, each of them leaving the bytes of the
ones behind it. -/
def Framed : InetSocket → List Request → Prop
  | _, [] => True
  | s, req :: reqs => ∃ s', Converges (fun fuel => readRequest fuel s) (.ok req, s') ∧
      s'.pending = reqs.flatMap Request.bytes ∧ Framed s' reqs

/-- A callback that always returns, with its state passed on. -/
def replying (f : Request → SockAddr → κ → Response × κ) : Callback κ := fun req addr st =>
  (.ok (f req addr st).1, (f req addr st).2)

/-- The responses can be serialized. -/
def Serializable (f : Request → SockAddr → κ → Response × κ) : Prop :=
  ∀ req addr st, (f req addr st).1.serialize = .ok (f req addr st).1.bytes

/-- `handle_client` ends, and the callback was called with exactly these requests in turn. -/
def PassesExactly (s : InetSocket) (reqs : List Request) : Prop :=
  ∀ (κ : Type) (f : Request → SockAddr → κ → Response × κ) (st : κ), Serializable f → ∃ s',
    Converges (fun fuel => handleClient (replying f) fuel (s, st))
      (.ok (), (s', reqs.foldl (fun st req => (f req s.remoteAddr st).2) st))

/-- The blocks of the first of some requests: they hold this request and nothing else, and one of
them has the end of its head. The last request may also be cut inside its CRLFCRLF, if it has no
body and the peer closes behind it. -/
def OwnBlock (ending : Ending) (req : Request) (reqs : List Request) (own : List BString) : Prop :=
  own.flatten = req.bytes ∧
    (HeadEndsInBlock requestKind req own ∨ reqs = [] ∧ ending = .closed ∧ req.body = [])

/-- Every request has blocks of its own. -/
def OwnBlocks (ending : Ending) : List BString → List Request → Prop
  | _, [] => True
  | blocks, req :: reqs => ∃ own rest, blocks = own ++ rest ∧ OwnBlock ending req reqs own ∧
      OwnBlocks ending rest reqs

/-- The `send`s of a socket all take something. -/
def SendsSucceed (s : InetSocket) : Prop :=
  ∃ ks : List Nat, (∀ k ∈ ks, 0 < k) ∧ s.sends = ks.map .sent

/-! ## One round -/

/-- A request that can be counted is printed and passed on. -/
theorem nextRequest_of_small {s u : InetSocket} {req : Request} {fuel : Nat}
    (hread : readRequest fuel s = (.ok req, u)) (hsmall : req.bytes.length < 2 ^ 31) :
    nextRequest fuel s = (.ok req, u) := by
  rw [nextRequest, Action.bind_of_ok hread, req.serialize_of_size hsmall,
    Action.ofExcept_ok_bind_run, b2s_eq, if_pos hsmall]
  rfl

/-- On a longer one the index of `b2s` overflows, if not that of `s2b` before. -/
theorem nextRequest_of_large {s u : InetSocket} {req : Request} {fuel : Nat}
    (hread : readRequest fuel s = (.ok req, u)) (hlarge : 2 ^ 31 ≤ req.bytes.length) :
    nextRequest fuel s = (.error .undefined, u) := by
  rw [nextRequest, Action.bind_of_ok hread]
  rcases req.serialize_cases with hok | hundef
  · rw [hok, Action.ofExcept_ok_bind_run, b2s_eq, if_neg (by omega), Action.ofExcept_error_bind_run]
  · rw [hundef, Action.ofExcept_error_bind_run]

theorem nextRequest_of_error {s u : InetSocket} {f : Fault} {fuel : Nat}
    (hread : readRequest fuel s = (.error f, u)) : nextRequest fuel s = (.error f, u) :=
  Action.bind_of_error hread

theorem nextRequest_converges {s u : InetSocket} {req : Request}
    (hread : Converges (fun fuel => readRequest fuel s) (.ok req, u))
    (hsmall : req.bytes.length < 2 ^ 31) :
    Converges (fun fuel => nextRequest fuel s) (.ok req, u) := by
  obtain ⟨n, hn⟩ := hread
  exact ⟨n, fun m hm => nextRequest_of_small (hn m hm) hsmall⟩

theorem nextRequest_converges_error {s u : InetSocket} {f : Fault}
    (hread : Converges (fun fuel => readRequest fuel s) (.error f, u)) :
    Converges (fun fuel => nextRequest fuel s) (.error f, u) := by
  obtain ⟨n, hn⟩ := hread
  exact ⟨n, fun m hm => nextRequest_of_error (hn m hm)⟩

theorem nextRequest_settles : Settles .outOfFuel nextRequest := fun n m hnm =>
  .bind (readMessage_settles requestKind n m hnm) fun _ => .bind .rfl fun _ => .bind .rfl fun _ =>
    .rfl

theorem serve_converges {s s₁ : InetSocket} {req : Request}
    (hread : Converges (fun fuel => readRequest fuel s) (.ok req, s₁))
    (hsmall : req.bytes.length < 2 ^ 31) (hsends : SendsSucceed s₁)
    {f : Request → SockAddr → κ → Response × κ} (hf : Serializable f) (st : κ) :
    ∃ s₂, Converges (fun fuel => serve (replying f) fuel (s, st))
        (.ok true, (s₂, (f req s₁.remoteAddr st).2)) ∧
      s₂ = { s₁ with sends := s₂.sends, wire := s₂.wire } ∧ SendsSucceed s₂ := by
  obtain ⟨ks, hks, hs⟩ := hsends
  obtain ⟨s₂, hwrite, hs₂, hsuf⟩ :=
    writeAll_converges (f req s₁.remoteAddr st).1.bytes hks s₁ hs
  simp only [← writeResponse_of_serialize (hf req s₁.remoteAddr st)] at hwrite
  refine ⟨s₂, ?_, ?_, ?_⟩
  · refine ((nextRequest_converges hread hsmall).onFst st).bind ?_
    simp only [Action.get_bind_run]
    refine Converges.bind (Converges.const _) ?_
    exact (hwrite.onFst _).bind (Converges.const _)
  · rw [hs₂]
  · obtain ⟨t, ht⟩ := hsuf
    rw [hs] at ht
    obtain ⟨used, left, rfl, -, hleft⟩ := List.map_eq_append_iff.mp ht.symm
    exact ⟨left, fun k hk => hks k (by simp [hk]), hleft.symm⟩

/-- A round that answers a request. -/
theorem handleClient_converges_next {s : InetSocket} {callback : Callback κ} {st : κ}
    {u : InetSocket × κ} {r : Except Fault Unit × InetSocket × κ}
    (hserve : Converges (fun fuel => serve callback fuel (s, st)) (.ok true, u))
    (hrest : Converges (fun fuel => handleClient callback fuel u) r) :
    Converges (fun fuel => handleClient callback fuel (s, st)) r := by
  refine Converges.of_succ ((hserve.catching_ok _).bind ?_) fun fuel => rfl
  simpa using hrest

/-- A round that finds no further request. -/
theorem handleClient_converges_end {s : InetSocket} (callback : Callback κ) (st : κ)
    (h : Delivers s) (harr : s.arrivals = []) :
    Converges (fun fuel => handleClient callback fuel (s, st)) (.ok (), (s, st)) := by
  obtain ⟨e, he, hread⟩ := readMessage_converges_end requestKind h harr
  have hserve : Converges (fun fuel => serve callback fuel (s, st)) (.error (.thrown e), (s, st)) :=
    ((nextRequest_converges_error hread).onFst st).bind_error
  have hbreak (fuel : Nat) :
      Fault.handlerFor (serveHandlers (κ := κ) fuel) (.thrown e) = some (pure false) := by
    rcases he with rfl | rfl <;> rfl
  exact Converges.of_succ ((hserve.catching_error hbreak).bind (Converges.const _)) fun fuel => rfl

/-- A round that ends in undefined behaviour. -/
theorem handleClient_converges_undefined {s u : InetSocket} {req : Request}
    (hread : Converges (fun fuel => readRequest fuel s) (.ok req, u))
    (hlarge : 2 ^ 31 ≤ req.bytes.length) (callback : Callback κ) (st : κ) :
    Converges (fun fuel => handleClient callback fuel (s, st)) (.error .undefined, (u, st)) := by
  have hnext : Converges (fun fuel => nextRequest fuel s) (.error .undefined, u) := by
    obtain ⟨n, hn⟩ := hread
    exact ⟨n, fun m hm => nextRequest_of_large (hn m hm) hlarge⟩
  have hserve : Converges (fun fuel => serve callback fuel (s, st)) (.error .undefined, (u, st)) :=
    (hnext.onFst st).bind_error
  exact Converges.of_succ (hserve.catching_unmatched _ fun _ => rfl).bind_error fun fuel => rfl

/-! ## The requests of a connection -/

theorem bytes_ne_nil (req : Request) : req.bytes ≠ [] := by
  rw [Request.bytes, Request.serializeHead_eq_block, block_cons]
  simp [CRLF_eq]

theorem flatMap_bytes_eq_nil {reqs : List Request} (h : reqs.flatMap Request.bytes = []) :
    reqs = [] := by
  cases reqs with
  | nil => rfl
  | cons req reqs => simp [bytes_ne_nil] at h

theorem Delivers.arrivals_eq_nil {s : InetSocket} (h : Delivers s) (hnil : s.pending = []) :
    s.arrivals = [] := by
  rcases harr : s.arrivals with _ | ⟨c, rest⟩
  · rfl
  · have hc := (h.sizes c (by simp [harr])).1
    simp only [pending, harr, List.flatten_cons, List.append_eq_nil_iff] at hnil
    simp [hnil.1] at hc

/-- A read that leaves the bytes of the other requests used blocks of its own. -/
theorem ownBlock_of_read {s s' : InetSocket} {req : Request} {reqs : List Request} (h : Delivers s)
    (hlen : req.contentLength = .ok req.body.length)
    (hbytes : s.pending = req.bytes ++ reqs.flatMap Request.bytes)
    (hleft : s'.pending = reqs.flatMap Request.bytes)
    (hread : Converges (fun fuel => readRequest fuel s) (.ok req, s')) :
    req.Transparent ∧ ∃ own rest, s.arrivals = own ++ rest ∧ s' = s.leaving rest ∧
      OwnBlock s.ending req reqs own := by
  obtain ⟨fuel, hfuel⟩ := hread.exists_fuel
  obtain ⟨header, parsed, hparsed, hmsg, hmessage⟩ := readMessage_eq_ok requestKind h fuel hfuel
  have hd : Delimited (requestKind.serializeHead req) := by
    rw [← hmsg, requestKind.serializeHead_setBody]
    exact requestKind.delimited _ _ hparsed
  have transparent (hheader : header = requestKind.serializeHead req) : req.Transparent := by
    rw [hheader] at hparsed
    exact Request.survives_iff.mp ⟨parsed, hparsed, hmsg⟩
  cases hmessage with
  | closed ending taken body =>
    have hreqs : reqs = [] := flatMap_bytes_eq_nil (by simpa [pending] using hleft.symm)
    subst hreqs
    have hall : s.arrivals.flatten = req.bytes := by simpa [pending] using hbytes
    have hheader : header = requestKind.serializeHead req := by
      have hbody : req.body = [] := body
      rw [taken, hall, Request.bytes, hbody, List.append_nil]
      rfl
    exact ⟨transparent hheader, s.arrivals, [], by simp, rfl, hall, .inr ⟨rfl, ending, body⟩⟩
  | @found pre x y mid post arrivals first taken body bound =>
    have hown : (pre ++ (x ++ terminator ++ y) :: mid).flatten = req.bytes := by
      rw [pending, arrivals, List.flatten_append] at hbytes
      rw [pending, leaving_arrivals] at hleft
      rw [hleft] at hbytes
      exact List.append_cancel_right hbytes
    obtain ⟨hheader, hends⟩ :=
      headEndsInBlock_of_found requestKind hd hlen hown (List.append_nil _).symm body bound
    exact ⟨transparent (taken.trans hheader), _, post, arrivals, rfl, hown, .inl hends⟩

/-- The first request is read alone, and its blocks are used up. -/
theorem readRequest_converges {s : InetSocket} {req : Request} {reqs : List Request}
    {own rest : List BString} (h : Delivers s) (ht : req.Transparent)
    (hlen : req.contentLength = .ok req.body.length) (harr : s.arrivals = own ++ rest)
    (hrest : rest.flatten = reqs.flatMap Request.bytes)
    (hown : OwnBlock s.ending req reqs own) :
    Converges (fun fuel => readRequest fuel s) (.ok req, s.leaving rest) := by
  have hsurvives : Survives requestKind req := Request.survives_iff.mpr ht
  obtain ⟨hbytes, hends | ⟨rfl, hend, hbody⟩⟩ := hown
  · exact readMessage_converges_of_headEndsInBlock requestKind h hsurvives hlen harr hbytes hends
  · have hdel : Delivers (s.leaving rest) := h.leaving ⟨own, harr.symm⟩
    have hnil : rest = [] := hdel.arrivals_eq_nil (by simpa [pending] using hrest)
    subst hnil
    rw [List.append_nil] at harr
    rw [← harr] at hbytes
    exact readMessage_converges_of_headArrives requestKind h hsurvives hlen hbytes
      (.inr ⟨hend, hbody⟩)

theorem ownBlocks_of_framed {s : InetSocket} {reqs : List Request} (h : Delivers s)
    (hlen : ∀ req ∈ reqs, req.contentLength = .ok req.body.length)
    (hbytes : s.pending = reqs.flatMap Request.bytes) (hframed : Framed s reqs) :
    (∀ req ∈ reqs, req.Transparent) ∧ OwnBlocks s.ending s.arrivals reqs := by
  induction reqs generalizing s with
  | nil => exact ⟨by simp, trivial⟩
  | cons req reqs ih =>
    obtain ⟨hfirst, hothers⟩ := List.forall_mem_cons.mp hlen
    obtain ⟨s', hread, hleft, hframed⟩ := hframed
    obtain ⟨ht, own, rest, harr, rfl, hown⟩ := ownBlock_of_read h hfirst hbytes hleft hread
    have hdel : Delivers (s.leaving rest) := h.leaving ⟨own, harr.symm⟩
    obtain ⟨hts, howns⟩ := ih hdel hothers hleft hframed
    exact ⟨List.forall_mem_cons.mpr ⟨ht, hts⟩, own, rest, harr, hown, howns⟩

/-- The bytes behind the blocks of the first request are those of the others. -/
theorem flatten_rest {s : InetSocket} {req : Request} {reqs : List Request}
    {own rest : List BString} (hbytes : s.pending = (req :: reqs).flatMap Request.bytes)
    (harr : s.arrivals = own ++ rest) (hown : OwnBlock s.ending req reqs own) :
    rest.flatten = reqs.flatMap Request.bytes := by
  rw [pending, harr, List.flatten_append, hown.1, List.flatMap_cons] at hbytes
  exact List.append_cancel_left hbytes

/-- The first of several requests with blocks of their own is read, and the others are left. -/
theorem readRequest_of_ownBlocks {s : InetSocket} {req : Request} {reqs : List Request}
    (h : Delivers s) (ht : req.Transparent) (hlen : req.contentLength = .ok req.body.length)
    (hbytes : s.pending = (req :: reqs).flatMap Request.bytes)
    (howns : OwnBlocks s.ending s.arrivals (req :: reqs)) :
    ∃ rest, Converges (fun fuel => readRequest fuel s) (.ok req, s.leaving rest) ∧
      rest.flatten = reqs.flatMap Request.bytes ∧ Delivers (s.leaving rest) ∧
        OwnBlocks s.ending rest reqs := by
  obtain ⟨own, rest, harr, hown, howns⟩ := howns
  have hrest := flatten_rest hbytes harr hown
  exact ⟨rest, readRequest_converges h ht hlen harr hrest hown, hrest,
    h.leaving ⟨own, harr.symm⟩, howns⟩

theorem framed_of_ownBlocks {s : InetSocket} {reqs : List Request} (h : Delivers s)
    (hlen : ∀ req ∈ reqs, req.contentLength = .ok req.body.length)
    (hbytes : s.pending = reqs.flatMap Request.bytes)
    (ht : ∀ req ∈ reqs, req.Transparent) (howns : OwnBlocks s.ending s.arrivals reqs) :
    Framed s reqs := by
  induction reqs generalizing s with
  | nil => trivial
  | cons req reqs ih =>
    obtain ⟨hfirst, hothers⟩ := List.forall_mem_cons.mp hlen
    obtain ⟨htfirst, htothers⟩ := List.forall_mem_cons.mp ht
    obtain ⟨rest, hread, hrest, hdel, howns⟩ :=
      readRequest_of_ownBlocks h htfirst hfirst hbytes howns
    exact ⟨s.leaving rest, hread, hrest, ih hdel hothers hrest htothers howns⟩

/-- The first of several requests with blocks of their own is answered, and the others are left. -/
theorem serve_of_ownBlocks {s : InetSocket} {req : Request} {reqs : List Request} (h : Delivers s)
    (hsends : SendsSucceed s) (ht : req.Transparent)
    (hlen : req.contentLength = .ok req.body.length) (hsmall : req.bytes.length < 2 ^ 31)
    (hbytes : s.pending = (req :: reqs).flatMap Request.bytes)
    (howns : OwnBlocks s.ending s.arrivals (req :: reqs))
    {f : Request → SockAddr → κ → Response × κ} (hf : Serializable f) (st : κ) :
    ∃ s₂, Converges (fun fuel => serve (replying f) fuel (s, st))
        (.ok true, (s₂, (f req s.remoteAddr st).2)) ∧
      Delivers s₂ ∧ SendsSucceed s₂ ∧ s₂.pending = reqs.flatMap Request.bytes ∧
        OwnBlocks s₂.ending s₂.arrivals reqs ∧ s₂.remoteAddr = s.remoteAddr := by
  obtain ⟨rest, hread, hrest, hdel, howns⟩ := readRequest_of_ownBlocks h ht hlen hbytes howns
  obtain ⟨s₂, hserve, hs₂, hsends₂⟩ := serve_converges hread hsmall hsends hf st
  have harr₂ : s₂.arrivals = rest := by rw [hs₂]; rfl
  have hend₂ : s₂.ending = s.ending := by rw [hs₂]; rfl
  have haddr₂ : s₂.remoteAddr = s.remoteAddr := by rw [hs₂]; rfl
  have hdel₂ : Delivers s₂ :=
    ⟨by rw [harr₂]; exact hdel.sizes, by rw [hend₂]; exact h.ending⟩
  exact ⟨s₂, hserve, hdel₂, hsends₂, by rw [pending, harr₂, hrest], by rwa [hend₂, harr₂], haddr₂⟩

theorem passesExactly_of_ownBlocks {s : InetSocket} {reqs : List Request} (h : Delivers s)
    (hsends : SendsSucceed s) (hlen : ∀ req ∈ reqs, req.contentLength = .ok req.body.length)
    (hsmall : ∀ req ∈ reqs, req.bytes.length < 2 ^ 31)
    (hbytes : s.pending = reqs.flatMap Request.bytes)
    (ht : ∀ req ∈ reqs, req.Transparent) (howns : OwnBlocks s.ending s.arrivals reqs) :
    PassesExactly s reqs := by
  intro κ f st hf
  induction reqs generalizing s st with
  | nil => exact ⟨s, handleClient_converges_end _ st h (h.arrivals_eq_nil hbytes)⟩
  | cons req reqs ih =>
    obtain ⟨hlen, hlens⟩ := List.forall_mem_cons.mp hlen
    obtain ⟨hsmall, hsmalls⟩ := List.forall_mem_cons.mp hsmall
    obtain ⟨ht, hts⟩ := List.forall_mem_cons.mp ht
    obtain ⟨s₂, hserve, hdel₂, hsends₂, hbytes₂, howns₂, haddr₂⟩ :=
      serve_of_ownBlocks h hsends ht hlen hsmall hbytes howns hf st
    obtain ⟨s', hconv⟩ := ih hdel₂ hsends₂ hlens hsmalls hbytes₂ hts howns₂
      (f req s.remoteAddr st).2
    rw [haddr₂] at hconv
    exact ⟨s', handleClient_converges_next hserve hconv⟩

/-- `handle_client` comes to a request that it cannot print. -/
theorem handleClient_undefined_of_ownBlocks {s : InetSocket} {reqs : List Request} (h : Delivers s)
    (hsends : SendsSucceed s) (hlen : ∀ req ∈ reqs, req.contentLength = .ok req.body.length)
    (hlarge : ∃ req ∈ reqs, 2 ^ 31 ≤ req.bytes.length)
    (hbytes : s.pending = reqs.flatMap Request.bytes)
    (ht : ∀ req ∈ reqs, req.Transparent) (howns : OwnBlocks s.ending s.arrivals reqs)
    {f : Request → SockAddr → κ → Response × κ} (hf : Serializable f) (st : κ) :
    ∃ t, Converges (fun fuel => handleClient (replying f) fuel (s, st)) (.error .undefined, t) := by
  induction reqs generalizing s st with
  | nil =>
    obtain ⟨req, hreq, -⟩ := hlarge
    cases hreq
  | cons req reqs ih =>
    obtain ⟨hlen, hlens⟩ := List.forall_mem_cons.mp hlen
    obtain ⟨ht, hts⟩ := List.forall_mem_cons.mp ht
    by_cases hsmall : req.bytes.length < 2 ^ 31
    · have hlarge' : ∃ req ∈ reqs, 2 ^ 31 ≤ req.bytes.length := by
        obtain ⟨req', hmem, hreq'⟩ := hlarge
        rcases List.mem_cons.mp hmem with rfl | hmem
        · omega
        · exact ⟨req', hmem, hreq'⟩
      obtain ⟨s₂, hserve, hdel₂, hsends₂, hbytes₂, howns₂, -⟩ :=
        serve_of_ownBlocks h hsends ht hlen hsmall hbytes howns hf st
      obtain ⟨t, hconv⟩ := ih hdel₂ hsends₂ hlens hlarge' hbytes₂ hts howns₂
        (f req s.remoteAddr st).2
      exact ⟨t, handleClient_converges_next hserve hconv⟩
    · obtain ⟨rest, hread, -⟩ := readRequest_of_ownBlocks h ht hlen hbytes howns
      exact ⟨_, handleClient_converges_undefined hread (by omega) _ st⟩

/-- Keep-alive framing: the reads of a connection give the requests that were sent, each one
starting behind the one before, and the callback gets exactly these, if and only if the parser
gives every head back, every request has blocks of its own, and an `int` can count its bytes. -/
theorem keepAlive_iff (reqs : List Request) (s : InetSocket) (h : Delivers s)
    (hsends : SendsSucceed s) (hlen : ∀ req ∈ reqs, req.contentLength = .ok req.body.length)
    (hbytes : s.pending = reqs.flatMap Request.bytes) :
    Framed s reqs ∧ PassesExactly s reqs ↔
      (∀ req ∈ reqs, req.Transparent ∧ req.bytes.length < 2 ^ 31) ∧
        OwnBlocks s.ending s.arrivals reqs := by
  constructor
  · rintro ⟨hframed, hpasses⟩
    obtain ⟨ht, howns⟩ := ownBlocks_of_framed h hlen hbytes hframed
    refine ⟨fun req hreq => ⟨ht req hreq, ?_⟩, howns⟩
    by_contra hlarge
    have hnew : (Response.new .OK []).serialize = .ok (Response.new .OK []).bytes :=
      Response.serialize_of_small (by decide)
    have hf : Serializable fun _ _ (st : Unit) => (Response.new .OK [], st) := fun _ _ _ => hnew
    obtain ⟨t, hundef⟩ := handleClient_undefined_of_ownBlocks h hsends hlen
      ⟨req, hreq, by omega⟩ hbytes ht howns hf ()
    obtain ⟨s', hconv⟩ := hpasses Unit _ () hf
    cases hconv.unique hundef
  · rintro ⟨hreqs, howns⟩
    have ht := fun req hreq => (hreqs req hreq).1
    have hsmall := fun req hreq => (hreqs req hreq).2
    exact ⟨framed_of_ownBlocks h hlen hbytes ht howns,
      passesExactly_of_ownBlocks h hsends hlen hsmall hbytes ht howns⟩

theorem ownBlock_greeting (reqs : List Request) (ending : Ending) :
    OwnBlock ending greeting reqs [greeting.bytes] :=
  ⟨by decide, .inl ⟨[], greeting.bytes, [], rfl, by decide, by decide, by decide⟩⟩

/-- Two greetings, each in a block of its own. -/
theorem two_greetings_framed :
    Framed (arriving [greeting.bytes, greeting.bytes] .closed) [greeting, greeting] ∧
      PassesExactly (arriving [greeting.bytes, greeting.bytes] .closed)
        [greeting, greeting] := by
  refine (keepAlive_iff [greeting, greeting] _ (delivers_arriving (by decide) (.inl rfl))
    ⟨[], by simp, rfl⟩ (by decide) (by decide)).mpr ⟨?_, ?_⟩
  · intro req hreq
    obtain rfl : req = greeting := by simpa using hreq
    exact ⟨greeting_transparent, by decide⟩
  · exact ⟨[greeting.bytes], _, rfl, ownBlock_greeting _ _,
      [greeting.bytes], [], rfl, ownBlock_greeting _ _, trivial⟩

/-- Two greetings that arrive in one block: the first read takes both. -/
theorem two_greetings_swallowed :
    ¬ Framed (arriving [greeting.bytes ++ greeting.bytes] .closed)
      [greeting, greeting] := by
  intro h
  have hdel : Delivers (arriving [greeting.bytes ++ greeting.bytes] .closed) :=
    delivers_arriving (by decide) (.inl rfl)
  obtain ⟨-, own, rest, harr, ⟨hown, -⟩, -⟩ := ownBlocks_of_framed hdel (by decide) (by decide) h
  rcases own with _ | ⟨b, own⟩
  · exact bytes_ne_nil greeting hown.symm
  · obtain ⟨rfl, hrest⟩ := List.cons.inj harr
    obtain ⟨rfl, -⟩ := List.append_eq_nil_iff.mp hrest.symm
    rw [List.flatten_singleton] at hown
    exact bytes_ne_nil greeting (List.append_right_eq_self.mp hown)

end P2PFileSharing.Http
