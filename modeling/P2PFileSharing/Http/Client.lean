import P2PFileSharing.Http.EndOfStream
import P2PFileSharing.Http.Writer

/-!
# The HTTP client

`send_request` writes a request and reads the response. When the connection turns out to be lost it
connects again and tries once more, at most six times. Which errors count as a lost connection is
decided by the exception that `throw_exception` makes of them.
-/

namespace P2PFileSharing.Http

open Library InetSocket Split

/-- How an attempt to connect ends. -/
inductive ConnectResult where
  /-- `socket` gives no descriptor -/
  | noSocket
  /-- `connect` fails with this `errno`, and leaves this socket -/
  | failed (err : Nat) (sock : InetSocket)
  | connected (sock : InetSocket)

/-- An `http_client` and what is around it. -/
structure HttpClient where
  /-- The socket whose descriptor the client has, if it is one. -/
  sock : Option InetSocket
  /-- The results of the next attempts to connect; after them there are no descriptors left. -/
  connects : List ConnectResult
  /-- The sockets that the process has open. -/
  openSockets : Nat

/-- What a descriptor that is no socket does: every `send` fails, and `poll` finds nothing. Two
failed sends take the writers beyond their data. -/
def badDescriptor : InetSocket :=
  { arrivals := [], ending := .silent, sends := [.failed 9, .failed 9], wire := [],
    remoteAddr := .new }

namespace HttpClient

def onSock {α : Type} (x : Action InetSocket Fault α) : Action HttpClient Fault α := fun c =>
  match c.sock with
  | some s => ((x s).1, { c with sock := some (x s).2 })
  | none => ((x badDescriptor).1, c)

/-- `sock.connect_server(server_sockaddr)`: the descriptor of a new socket replaces the old one. -/
def connectServer : Action HttpClient Fault Unit := fun c =>
  match c.connects with
  | [] => (.error (.thrown .socketException), { c with sock := none })
  | .noSocket :: rest =>
    (.error (.thrown .socketException), { c with sock := none, connects := rest })
  | .failed err s :: rest =>
    let c := { c with sock := some s, connects := rest, openSockets := c.openSockets + 1 }
    match throwException err with
    | some e => (.error (.thrown e), c)
    | none => (.ok (), c)
  | .connected s :: rest =>
    (.ok (), { c with sock := some s, connects := rest, openSockets := c.openSockets + 1 })

def reconnect : Action HttpClient Fault Unit := connectServer

def connect : Action HttpClient Fault Unit :=
  Action.catching connectServer fun f =>
    (f.handlerFor [(.isConnectedException, ())]).map fun _ => pure ()

/-- `close` of a descriptor that is no socket fails. -/
def disconnect : Action HttpClient Fault Unit :=
  Action.modify fun c =>
    match c.sock with
    | some _ => { c with sock := none, openSockets := c.openSockets - 1 }
    | none => c

/-- The `catch` list of `send_request`, with what each handler throws in the end. -/
def retryHandlers : List (ExnClass × ExnClass) :=
  [(.sockNotConnectedException, .sockNotConnectedException),
    (.brokenPipeException, .brokenPipeException),
    (.connResetException, .connResetException)]

/-- The body of the `try` block. -/
def exchange (fuel : Nat) (req : Request) : Action InetSocket Fault Response := do
  writeRequest fuel req
  readResponse fuel

/-- The body of the handlers, where `again` is the next round of the loop. -/
def retrying (retryCount : Nat) (again : Action HttpClient Fault Response) (f : Fault) :
    Option (Action HttpClient Fault Response) :=
  (f.handlerFor retryHandlers).map fun e =>
    if retryCount > 5 then Action.throw (.thrown e)
    else do
      reconnect
      again

/-- The loop of `send_request`. -/
def sendLoop (req : Request) : Nat → Nat → Action HttpClient Fault Response
  | 0, _ => Action.throw .outOfFuel
  | fuel + 1, retryCount =>
    Action.catching (onSock (exchange fuel req))
      (retrying retryCount (sendLoop req fuel (retryCount + 1)))

def sendRequest (fuel : Nat) (req : Request) : Action HttpClient Fault Response :=
  sendLoop req fuel 0

end HttpClient

/-! ## A connection that is lost -/

/-- The errors that `send_request` means to retry after. -/
inductive Loss where
  | notConnected
  | brokenPipe
  | connReset
  deriving DecidableEq, Repr

namespace Loss

/-- The value on Linux. -/
def errno : Loss → Nat
  | notConnected => 107
  | brokenPipe => 32
  | connReset => 104

/-- The exception class that is named after the error. -/
def exn : Loss → ExnClass
  | notConnected => .sockNotConnectedException
  | brokenPipe => .brokenPipeException
  | connReset => .connResetException

/-- The exception that `throw_exception` makes of the error. -/
def thrown : Loss → ExnClass
  | notConnected | connReset => .invalidSocketDescriptorException
  | brokenPipe => .connRefusedException

theorem throwException_errno (l : Loss) : throwException l.errno = some l.thrown := by
  cases l <;> decide

/-- None of the handlers takes it. -/
theorem thrown_not_retried (l : Loss) :
    (Fault.thrown l.thrown).handlerFor HttpClient.retryHandlers = none := by
  cases l <;> decide

theorem thrown_ne_exn (l l' : Loss) : l.thrown ≠ l'.exn := by
  cases l <;> cases l' <;> decide

end Loss

/-- The blocks have no end of a header part, or fewer bytes behind it than it announces. -/
def Unfinished (blocks : List BString) : Prop :=
  (∀ c ∈ blocks, ¬ terminator <:+: c) ∨ ∃ res value,
    Response.parseHead (headPart blocks).1 = .ok res ∧ res.contentLength = .ok value ∧
      (headPart blocks).2.2.flatten.length <
        max 0 (toInt32 (toInt32 value - (headPart blocks).2.1.length))

/-- A socket that takes the request, and whose `recv` fails before the response is there. -/
structure Lost (s : InetSocket) (l : Loss) : Prop where
  sends : s.sends = []
  sizes : ∀ c ∈ s.arrivals, 0 < c.length ∧ c.length ≤ 1024
  ending : s.ending = .failed l.errno
  unfinished : Unfinished s.arrivals

/-- A socket that takes the request and delivers the response. -/
structure Answered (req : Request) (s : InetSocket) (res : Response) : Prop where
  sends : s.sends = []
  returns : Returns (fun fuel => HttpClient.exchange fuel req) s res

/-! ## One attempt -/

variable {req : Request} {res : Response} {s t : InetSocket} {l : Loss}

theorem readBytes_failed (count : Nat) {err : Nat} {e : ExnClass} (harr : s.arrivals = [])
    (hend : s.ending = .failed err) (he : throwException err = some e) :
    readBytes count s = (.error (.thrown e), s) := by
  simp [readBytes, harr, hend, he]

theorem Lost.readResponse (h : Lost s l) :
    ∃ t, Converges (fun fuel => readResponse fuel s) (.error (.thrown l.thrown), t) := by
  have hend (rest : List BString) (hrest : rest = []) : readBytes 1024 (s.leaving rest) =
      (.error (.thrown l.thrown), s.leaving rest) :=
    readBytes_failed 1024 hrest h.ending l.throwException_errno
  by_cases hcut : ∃ c ∈ s.arrivals, terminator <:+: c
  · rcases h.unfinished with huncut | ⟨res, value, hres, hvalue, hshort⟩
    · obtain ⟨c, hc, hterm⟩ := hcut
      exact absurd hterm (huncut c hc)
    · obtain ⟨n, hhead⟩ := readHead_converges_cut h.sizes hcut []
      rw [List.nil_append] at hhead
      have hne : (headPart s.arrivals).1 ≠ [] := by
        refine headPart_ne_nil (fun c hc => (h.sizes c hc).1) ?_
        obtain ⟨c, hc, -⟩ := hcut
        exact List.ne_nil_of_mem hc
      have hsizes : ∀ c ∈ (s.leaving (headPart s.arrivals).2.2).arrivals,
          0 < c.length ∧ c.length ≤ 1024 := fun c hc => h.sizes c ((headPart_suffix _).subset hc)
      have hbody := readBody_converges_short hsizes (remaining_lt responseKind _) hshort
        (headPart s.arrivals).2.1 fun len acc hlen _ => (Converges.const _).of_succ fun fuel => by
          rw [readBody, if_pos hlen]
          exact Action.bind_of_error (hend [] rfl)
      exact ⟨_, readMessage_converges_no_body hhead hne hres hvalue hbody⟩
  · have huncut : ∀ c ∈ s.arrivals, ¬ terminator <:+: c := fun c hc hterm => hcut ⟨c, hc, hterm⟩
    have hhead := readHead_converges_uncut h.sizes huncut []
      ((Converges.const _).of_succ fun fuel => Action.bind_of_error (hend [] rfl))
    exact ⟨_, hhead.bind_error⟩

/-- Writing a request that can be serialized leaves what is to be read. -/
theorem writeRequest_converges {data : BString} (hreq : req.serialize = .ok data)
    (h : s.sends = []) : ∃ t, Converges (fun fuel => writeRequest fuel req s) (.ok (), t) ∧
      t = { s with wire := t.wire } := by
  have hpositive : ∀ k ∈ ([] : List Nat), 0 < k := fun k hk => absurd hk List.not_mem_nil
  obtain ⟨t, hconv, ht, hsends⟩ := writeAll_converges data hpositive s h
  rw [h, List.suffix_nil] at hsends
  simp only [writeRequest_of_serialize hreq]
  refine ⟨t, hconv, ?_⟩
  rw [hsends, ← h] at ht
  rw [ht]

theorem Lost.exchange (h : Lost s l) {data : BString} (hreq : req.serialize = .ok data) : ∃ t,
    Converges (fun fuel => HttpClient.exchange fuel req s) (.error (.thrown l.thrown), t) := by
  obtain ⟨t, hwrite, ht⟩ := writeRequest_converges hreq h.sends
  have hlost : Lost t l := by
    rw [ht]
    exact ⟨h.sends, h.sizes, h.ending, h.unfinished⟩
  obtain ⟨u, hread⟩ := hlost.readResponse
  exact ⟨u, hwrite.bind hread⟩

/-- A request that is answered could be serialized. -/
theorem Answered.serialize (h : Answered req s res) : req.serialize = .ok req.bytes := by
  obtain ⟨t, hconv⟩ := h.returns
  obtain ⟨fuel, hfuel⟩ := hconv.exists_fuel
  rcases req.serialize_cases with hok | hundef
  · exact hok
  · obtain ⟨_, u, hwrite, -⟩ := Action.bind_eq_ok.mp hfuel
    rw [writeRequest, hundef] at hwrite
    cases hwrite

namespace HttpClient

variable {c : HttpClient}

theorem onSock_converges {α : Type} {x : Nat → Action InetSocket Fault α} {r : Except Fault α}
    (hsock : c.sock = some s) (h : Converges (fun fuel => x fuel s) (r, t)) :
    Converges (fun fuel => onSock (x fuel) c) (r, { c with sock := some t }) := by
  obtain ⟨n, hn⟩ := h
  refine ⟨n, fun m hm => ?_⟩
  simp only [onSock, hsock, hn m hm]

theorem sendRequest_answered (hsock : c.sock = some s) (h : Answered req s res) :
    ∃ c', Converges (fun fuel => sendRequest fuel req c) (.ok res, c') ∧
      c'.connects = c.connects := by
  obtain ⟨t, hconv⟩ := h.returns
  have hattempt := (onSock_converges hsock hconv).catching_ok fun fuel =>
    retrying 0 (sendLoop req fuel 1)
  exact ⟨_, hattempt.of_succ fun fuel => rfl, rfl⟩

/-- After a lost connection no handler is there for the exception. -/
theorem sendRequest_lost (hsock : c.sock = some s) (h : Lost s l) {data : BString}
    (hreq : req.serialize = .ok data) :
    ∃ c', Converges (fun fuel => sendRequest fuel req c) (.error (.thrown l.thrown), c') := by
  obtain ⟨t, hconv⟩ := h.exchange hreq
  have hnone (fuel : Nat) : retrying 0 (sendLoop req fuel 1) (.thrown l.thrown) = none := by
    rw [retrying, l.thrown_not_retried, Option.map_none]
  have hattempt := (onSock_converges hsock hconv).catching_unmatched
    (fun fuel => retrying 0 (sendLoop req fuel 1)) hnone
  exact ⟨_, hattempt.of_succ fun fuel => rfl⟩

/-! ## Any number of attempts -/

/-- The client is connected to the first of these sockets, and will be to the others in turn. -/
def Faces (c : HttpClient) (socks : List InetSocket) (more : List ConnectResult) : Prop :=
  ∃ s rest, socks = s :: rest ∧ c.sock = some s ∧ c.connects = rest.map .connected ++ more

/-- After at most six lost connections the response is returned, with one reconnect for each; after
the seventh the exception is thrown that is named after its error. -/
def RetriesLost (c : HttpClient) (req : Request) (res : Response)
    (lost : List (InetSocket × Loss)) (more : List ConnectResult) : Prop :=
  (lost.length ≤ 6 → ∃ c', Converges (fun fuel => sendRequest fuel req c) (.ok res, c') ∧
    c'.connects = more) ∧
  ∀ p, lost[6]? = some p → ∃ c',
    Converges (fun fuel => sendRequest fuel req c) (.error (.thrown p.2.exn), c')

/-- This is so if and only if no connection is lost. -/
theorem retries_lost_iff {lost : List (InetSocket × Loss)} {good : InetSocket}
    {more : List ConnectResult} (hlost : ∀ p ∈ lost, Lost p.1 p.2) (hgood : Answered req good res)
    (hfaces : c.Faces (lost.map Prod.fst ++ [good]) more) :
    c.RetriesLost req res lost more ↔ lost = [] := by
  obtain ⟨s, rest, hsocks, hsock, hconnects⟩ := hfaces
  constructor
  · rintro ⟨hfew, hmany⟩
    by_contra hne
    obtain ⟨p, lost, rfl⟩ := List.exists_cons_of_ne_nil hne
    obtain ⟨rfl, -⟩ := List.cons.inj hsocks
    obtain ⟨c', hthrown⟩ := sendRequest_lost hsock (hlost p List.mem_cons_self)
      hgood.serialize
    by_cases hlen : (p :: lost).length ≤ 6
    · obtain ⟨c'', hok, -⟩ := hfew hlen
      cases hok.unique hthrown
    · have hseventh : 6 < (p :: lost).length := by omega
      obtain ⟨c'', hnamed⟩ := hmany _ (List.getElem?_eq_getElem hseventh)
      have heq := (Prod.mk.inj (hthrown.unique hnamed)).1
      exact Loss.thrown_ne_exn _ _ (Fault.thrown.inj (Except.error.inj heq))
  · rintro rfl
    obtain ⟨rfl, rfl⟩ := List.cons.inj hsocks
    obtain ⟨c', hok, hsame⟩ := sendRequest_answered hsock hgood
    refine ⟨fun _ => ⟨c', hok, hsame.trans hconnects⟩, fun p hp => ?_⟩
    cases hp

/-- A response with the body `hi`. -/
def answer : Response :=
  ((Response.new .OK (lit "ok")).addHeader (lit "Content-Length") (lit "2")).setBody (lit "hi")

/-- A socket that the answer arrives on. -/
theorem answered_answer : Answered greeting (arriving [answer.bytes] .silent) answer := by
  refine ⟨rfl, ?_⟩
  have hser : greeting.serialize = .ok greeting.bytes := Request.serialize_of_small (by decide)
  obtain ⟨t, hwrite, ht⟩ := writeRequest_converges hser (s := arriving [answer.bytes] .silent) rfl
  have harr : t.arrivals = [answer.bytes] := by rw [ht]; rfl
  have hend : t.ending = .silent := by rw [ht]; rfl
  have hsizes : ∀ c ∈ [answer.bytes], 0 < c.length ∧ c.length ≤ 1024 := by decide
  have hdelivers : Delivers t := ⟨harr ▸ hsizes, .inr hend⟩
  have htransparent : answer.Transparent :=
    ⟨⟨by decide, HeaderMap.transparent_iff.mpr (by decide)⟩, by decide, by decide, by decide,
      by decide⟩
  have hhead : HeadArrives responseKind answer t :=
    .inl ⟨[], answer.bytes, [], harr, by decide, by decide, by decide⟩
  obtain ⟨u, hread⟩ := (readResponse_returns_iff hdelivers (by decide)
    (by rw [harr]; decide)).mpr ⟨htransparent, hhead⟩
  exact ⟨u, hwrite.bind hread⟩

/-- A client on such a socket. -/
def answeredAtOnce : HttpClient :=
  { sock := some (arriving [answer.bytes] .silent), connects := [], openSockets := 1 }

theorem answered_without_reconnect : answeredAtOnce.RetriesLost greeting answer [] [] :=
  (retries_lost_iff (fun _ hp => absurd hp List.not_mem_nil) answered_answer
    ⟨_, [], rfl, rfl, rfl⟩).mpr rfl

/-- A client whose first connection is reset; the next one would bring the answer. -/
def resetOnce : HttpClient :=
  { sock := some (arriving [] (.failed Loss.connReset.errno)),
    connects := [.connected (arriving [answer.bytes] .silent)], openSockets := 1 }

/-- The answer is never asked for. -/
theorem reset_not_retried : ¬ resetOnce.RetriesLost greeting answer
    [(arriving [] (.failed Loss.connReset.errno), .connReset)] [] := by
  rintro ⟨hfew, -⟩
  obtain ⟨c', hok, -⟩ := hfew (by decide)
  have hlost : Lost (arriving [] (.failed Loss.connReset.errno)) .connReset :=
    ⟨rfl, fun _ hc => absurd hc List.not_mem_nil, rfl, .inl fun _ hc => absurd hc List.not_mem_nil⟩
  obtain ⟨c'', hthrown⟩ := sendRequest_lost (c := resetOnce) rfl hlost answered_answer.serialize
  cases hok.unique hthrown

end HttpClient

end P2PFileSharing.Http
