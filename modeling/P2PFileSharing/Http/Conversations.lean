import P2PFileSharing.Http.Client
import P2PFileSharing.Http.Network
import P2PFileSharing.Http.Transit
import P2PFileSharing.Library.Simulation

/-!
# Conversations of clients with a server

Over connections that deliver everything, with the end of each head in one block, the clients could
as well call the callbacks of the server themselves.
-/

namespace P2PFileSharing.Http

open Library InetSocket

variable {ι κ ω : Type} [DecidableEq ι]

/-- The next request is the one that has arrived, or there is none. -/
theorem Transit.nextRequest {reqs : List Request} {wire : BString} {s : InetSocket}
    (h : Transit requestKind reqs wire s.arrivals) (hs : Delivers s) :
    (∃ req, reqs = [req] ∧ wire = [] ∧ Carried requestKind req ∧
      Converges (fun fuel => nextRequest fuel s) (.ok req, s.leaving [])) ∨
    ∃ e, (e = .remoteEndClosedException ∨ e = .socketTimeOutException) ∧
      Converges (fun fuel => nextRequest fuel s) (.error (.thrown e), s) := by
  obtain ⟨req, hreqs, hwire, hcarried, hconv⟩ | ⟨e, he, hconv⟩ := h.read hs
  · exact .inl ⟨req, hreqs, hwire, hcarried, nextRequest_converges hconv hcarried.small⟩
  · exact .inr ⟨e, he, nextRequest_converges_error hconv⟩

/-! ## What a connection has to do with a call -/

/-- The request that the thread has not read yet. -/
def unread : Call Request Response ω → List Request
  | .asked req => [req]
  | _ => []

/-- The request that the callback has, and where it is. -/
def atWork : Call Request Response ω → Option (Request × ω)
  | .working req w => some (req, w)
  | _ => none

/-- The connection stands for the line. Where the callback is, `good` holds. -/
structure Tracks (good : ω → Prop) (addr : SockAddr) (c : Connection ω)
    (l : Line Request Response ω) : Prop where
  awaits : c.awaits = false ↔ l.call = .idle
  left : c.left = l.left
  work : c.work = atWork l.call
  good : ∀ req w, l.call = .working req w → good w
  closed : c.closed = l.closed
  requests : Transit requestKind (unread l.call) c.client.wire c.server.arrivals
  responses : Transit responseKind l.call.ready c.server.wire c.client.arrivals
  client : Reliable c.client
  server : Reliable c.server
  addr : c.server.remoteAddr = addr

/-- The thread is at work for a client that waits. -/
theorem Tracks.working {good : ω → Prop} {addr : SockAddr} {c : Connection ω}
    {l : Line Request Response ω} {req : Request} {w : ω} (h : Tracks good addr c l)
    (hwork : c.work = some (req, w)) : l.call = .working req w := by
  have hat := hwork.symm.trans h.work
  cases hcall : l.call with
  | working req' w' => simpa [atWork, hcall, eq_comm] using hat
  | idle => simp [atWork, hcall] at hat
  | asked => simp [atWork, hcall] at hat
  | answered => simp [atWork, hcall] at hat

/-- What the callbacks are to the calls. -/
def Worker.service (worker : Worker κ ω) (addr : ι → SockAddr) :
    Service ι Request Response κ ω where
  enter i req := worker.enter req (addr i)
  act := worker.act
  result w :=
    match worker.result w with
    | some (.ok res) => some res
    | _ => none

/-- The callbacks keep `good` and `inv` and return responses that can be carried. -/
structure Worker.AnswersWell (worker : Worker κ ω) (good : ω → Prop) (inv : κ → Prop) : Prop where
  enter : ∀ req addr, Carried requestKind req → good (worker.enter req addr)
  act : ∀ w st w' st', good w → inv st → worker.act w st = some (w', st') → good w' ∧ inv st'
  result : ∀ w r, good w → worker.result w = some r →
    ∃ res, r = .ok res ∧ Carried responseKind res

namespace Network

/-- The network stands for the calls. -/
structure Matches (good : ω → Prop) (addr : ι → SockAddr) (inv : κ → Prop) (s : Network ι κ ω)
    (a : Calls ι Request Response κ ω) : Prop where
  lines : ∀ i, Tracks good (addr i) (s.conn i) (a.line i)
  state : s.state = a.state
  inv : inv s.state

/-- What is asked can be carried, and what is on the wire is delivered as the readers need it. -/
def Allowed (s : Network ι κ ω) : NetEvent ι → Prop
  | .ask _ req => Carried requestKind req
  | .carry i blocks => Delivery (s.conn i).client.wire blocks
  | .carryBack i blocks => Delivery (s.conn i).server.wire blocks
  | .read _ | .act _ | .write _ | .receive _ | .disconnect _ => True

variable {good : ω → Prop} {addr : ι → SockAddr} {inv : κ → Prop} {s t : Network ι κ ω}
  {a : Calls ι Request Response κ ω} {worker : Worker κ ω} {fuel : Nat} {i : ι}

/-- One connection and its line go on, and perhaps the state. -/
theorem Matches.set (h : Matches good addr inv s a) {c : Connection ω}
    {l : Line Request Response ω} (hc : Tracks good (addr i) c l) {st : κ} (hst : inv st) :
    Matches good addr inv { s.set i c with state := st } { a.setLine i l with state := st } := by
  refine ⟨fun j => ?_, rfl, hst⟩
  by_cases hj : j = i
  · subst hj
    simpa using hc
  · simpa [set_of_ne _ _ hj, Calls.setLine_of_ne _ _ hj] using h.lines j

theorem Matches.set_line (h : Matches good addr inv s a) {c : Connection ω}
    {l : Line Request Response ω} (hc : Tracks good (addr i) c l) :
    Matches good addr inv (s.set i c) (a.setLine i l) :=
  ⟨(h.set hc h.inv).lines, h.state, h.inv⟩

/-- A connection goes on, and its line stays where it is. -/
theorem Matches.set_same (h : Matches good addr inv s a) {c : Connection ω}
    (hc : Tracks good (addr i) c (a.line i)) : Matches good addr inv (s.set i c) a := by
  have hset := h.set_line hc
  rwa [Calls.setLine, Function.update_eq_self] at hset

/-- The event of the calls can stand for the event of the network. -/
def Stands (e : NetEvent ι) : CallEvent ι Request → Prop
  | .ask i req => e = .ask i req
  | .act i => e = .act i
  | .enter _ | .answer _ | .take _ | .leave _ | .close _ => True

/-- A step that is matched by one event of the calls, or by none. -/
def Follows (worker : Worker κ ω) (good : ω → Prop) (addr : ι → SockAddr) (inv : κ → Prop)
    (fuel : Nat) (s : Network ι κ ω) (e : NetEvent ι) (a : Calls ι Request Response κ ω)
    (t : Network ι κ ω) : Prop :=
  ∃ ds b, Machine.run (Calls.step (worker.service addr)) a ds = some b ∧
    Matches good addr inv t b ∧
    Machine.AllSteps (Calls.step (worker.service addr)) (fun u d => u = a ∧ Stands e d) a ds ∧
    Machine.log (Calls.step (worker.service addr)) (Calls.entries (worker.service addr)) a ds =
      entries worker fuel s e

/-- One event of the calls. -/
theorem follows_one {e : NetEvent ι} {d : CallEvent ι Request} {b : Calls ι Request Response κ ω}
    (hstep : Calls.step (worker.service addr) a d = some b) (hb : Matches good addr inv t b)
    (hstands : Stands e d)
    (hentries : Calls.entries (worker.service addr) a d = entries worker fuel s e) :
    Follows worker good addr inv fuel s e a t := by
  refine ⟨[d], b, by simp [Machine.run, hstep], hb, fun _ _ => ⟨⟨rfl, hstands⟩, trivial⟩, ?_⟩
  simp [Machine.log, hstep, hentries]

/-- Nothing that the calls see. -/
theorem follows_none {e : NetEvent ι} (ha : Matches good addr inv t a)
    (hentries : entries worker fuel s e = []) : Follows worker good addr inv fuel s e a t :=
  ⟨[], a, rfl, ha, trivial, hentries.symm⟩

theorem follows_ask {req : Request} (h : Matches good addr inv s a)
    (hcarried : Carried requestKind req) (hstep : step worker fuel s (.ask i req) = some t) :
    Follows worker good addr inv fuel s (.ask i req) a t := by
  have hi := h.lines i
  rw [step] at hstep
  split at hstep
  next => cases hstep
  next hfree =>
    simp only [Bool.or_eq_true, not_or, Bool.not_eq_true] at hfree
    obtain ⟨hawaits, hleft⟩ := hfree
    split at hstep
    next u hwrite =>
      cases hstep
      rcases hline : a.line i with ⟨call, left, closed⟩
      rw [hline] at hi
      obtain rfl : call = .idle := hi.awaits.mp hawaits
      obtain rfl : left = false := hi.left.symm.trans hleft
      obtain rfl := writeRequest_whole hi.client.sends hcarried hwrite
      have hcall : Calls.step (worker.service addr) a (.ask i req) =
          some (a.setLine i ⟨.asked req, false, closed⟩) := by rw [Calls.step, hline]
      refine follows_one hcall (h.set_line ?_) rfl rfl
      exact ⟨by simp, hleft, hi.work, by simp, hi.closed, hi.requests.write hcarried, hi.responses,
        hi.client.with_wire _, hi.server, hi.addr⟩
    next => cases hstep

theorem Matches.carry {blocks : List BString} (h : Matches good addr inv s a)
    (hblocks : Delivery (s.conn i).client.wire blocks) :
    Matches good addr inv (s.set i { s.conn i with
      client := { (s.conn i).client with
        wire := (s.conn i).client.wire.drop blocks.flatten.length },
      server := { (s.conn i).server with
        arrivals := (s.conn i).server.arrivals ++ blocks } }) a := by
  have hi := h.lines i
  refine h.set_same ⟨hi.awaits, hi.left, hi.work, hi.good, hi.closed, ?_, hi.responses,
    hi.client.with_wire _, hi.server.arriving hblocks, hi.addr⟩
  simp only [hblocks.whole, List.drop_length]
  exact hi.requests.carry hblocks

theorem Matches.carryBack {blocks : List BString} (h : Matches good addr inv s a)
    (hblocks : Delivery (s.conn i).server.wire blocks) :
    Matches good addr inv (s.set i { s.conn i with
      server := { (s.conn i).server with
        wire := (s.conn i).server.wire.drop blocks.flatten.length },
      client := { (s.conn i).client with
        arrivals := (s.conn i).client.arrivals ++ blocks } }) a := by
  have hi := h.lines i
  refine h.set_same ⟨hi.awaits, hi.left, hi.work, hi.good, hi.closed, hi.requests, ?_,
    hi.client.arriving hblocks, hi.server.with_wire _, hi.addr⟩
  simp only [hblocks.whole, List.drop_length]
  exact hi.responses.carry hblocks

theorem follows_carry {blocks : List BString} (h : Matches good addr inv s a)
    (hblocks : Delivery (s.conn i).client.wire blocks)
    (hstep : step worker fuel s (.carry i blocks) = some t) :
    Follows worker good addr inv fuel s (.carry i blocks) a t := by
  rw [step] at hstep
  split at hstep
  next =>
    cases hstep
    exact follows_none (h.carry hblocks) rfl
  next => cases hstep

theorem follows_carryBack {blocks : List BString} (h : Matches good addr inv s a)
    (hblocks : Delivery (s.conn i).server.wire blocks)
    (hstep : step worker fuel s (.carryBack i blocks) = some t) :
    Follows worker good addr inv fuel s (.carryBack i blocks) a t := by
  rw [step] at hstep
  split at hstep
  next =>
    cases hstep
    exact follows_none (h.carryBack hblocks) rfl
  next => cases hstep

theorem follows_disconnect (h : Matches good addr inv s a)
    (hstep : step worker fuel s (.disconnect i) = some t) :
    Follows worker good addr inv fuel s (.disconnect i) a t := by
  have hi := h.lines i
  rw [step] at hstep
  split at hstep
  next => cases hstep
  next =>
    cases hstep
    by_cases hleft : (a.line i).left = true
    · exact follows_none (h.set_same ⟨hi.awaits, hleft.symm, hi.work, hi.good, hi.closed,
        hi.requests, hi.responses, hi.client, hi.server.ended, hi.addr⟩) rfl
    · have hcall : Calls.step (worker.service addr) a (.leave i) =
          some (a.setLine i { a.line i with left := true }) := by rw [Calls.step, if_neg hleft]
      exact follows_one hcall (h.set_line ⟨hi.awaits, rfl, hi.work, hi.good, hi.closed,
        hi.requests, hi.responses, hi.client, hi.server.ended, hi.addr⟩) trivial rfl

theorem follows_receive (h : Matches good addr inv s a)
    (hstep : step worker fuel s (.receive i) = some t) :
    Follows worker good addr inv fuel s (.receive i) a t := by
  have hi := h.lines i
  rw [step] at hstep
  split at hstep
  next => cases hstep
  next hwaiting =>
    simp only [Bool.or_eq_true, Bool.not_eq_true', not_or, Bool.not_eq_true,
      Bool.not_eq_false] at hwaiting
    obtain ⟨hawaits, hleft⟩ := hwaiting
    rcases hline : a.line i with ⟨call, left, closed⟩
    rw [hline] at hi
    obtain rfl : left = false := hi.left.symm.trans hleft
    have hresponses := hi.responses
    have hread := hresponses.read hi.client.delivers
    have hsettles := readMessage_settles responseKind
    split at hstep
    next res u hrun =>
      cases hstep
      obtain ⟨res', hready, hwire, -, hconv⟩ | ⟨e, -, hconv⟩ := hread
      · cases hsettles.eq_of_converges hrun (by simp) hconv
        obtain rfl : call = .answered res := by
          cases call with
          | answered res' => simpa [Call.ready] using hready
          | idle => cases hready
          | asked => cases hready
          | working => cases hready
        have hcall : Calls.step (worker.service addr) a (.take i) =
            some (a.setLine i ⟨.idle, false, closed⟩) := by rw [Calls.step, hline]
        refine follows_one hcall (h.set_line ⟨by simp, hleft, hi.work, by simp, hi.closed,
          hi.requests, ?_, hi.client.leaving_nil, hi.server, hi.addr⟩) trivial ?_
        · rw [hwire]
          exact .none
        · simp [Calls.entries, entries, hline, hrun]
      · cases hsettles.eq_of_converges hrun (by simp) hconv
    next e u hrun =>
      cases hstep
      obtain ⟨res', -, -, -, hconv⟩ | ⟨e', -, hconv⟩ := hread
      · cases hsettles.eq_of_converges hrun (by simp) hconv
      · cases hsettles.eq_of_converges hrun (by simp) hconv
        have hcall : Calls.step (worker.service addr) a (.leave i) =
            some (a.setLine i ⟨call, true, closed⟩) := by simp [Calls.step, hline]
        refine follows_one hcall (h.set_line ⟨hi.awaits, rfl, hi.work, hi.good, hi.closed,
          hi.requests, hi.responses, hi.client, hi.server, hi.addr⟩) trivial ?_
        simp [Calls.entries, entries, hrun]
    next => cases hstep

/-- The request that has arrived is read. -/
theorem Matches.read (hworker : worker.AnswersWell good inv) {req : Request} {left : Bool}
    (h : Matches good addr inv s a) (hline : a.line i = ⟨.asked req, left, false⟩)
    (hcarried : Carried requestKind req) (hwire : (s.conn i).client.wire = []) :
    Matches good addr inv
      (s.set i { s.conn i with
        server := (s.conn i).server.leaving [], work := some (req, worker.enter req (addr i)) })
      (a.setLine i ⟨.working req (worker.enter req (addr i)), left, false⟩) := by
  have hi := h.lines i
  rw [hline] at hi
  refine h.set_line ⟨by simpa using hi.awaits, hi.left, rfl, fun req' w hw => ?_, hi.closed, ?_,
    hi.responses, hi.client, hi.server.leaving_nil, hi.addr⟩
  · cases hw
    exact hworker.enter req (addr i) hcarried
  · rw [hwire]
    exact .none

theorem follows_read (hworker : worker.AnswersWell good inv) (h : Matches good addr inv s a)
    (hstep : step worker fuel s (.read i) = some t) :
    Follows worker good addr inv fuel s (.read i) a t := by
  have hi := h.lines i
  obtain ⟨hopen, hidle, hresult⟩ := read_cases hstep
  rcases hline : a.line i with ⟨call, left, closed⟩
  rw [hline] at hi
  obtain rfl : closed = false := hi.closed.symm.trans hopen
  have hsettles := nextRequest_settles
  have hrequests := hi.requests
  have hread := hrequests.nextRequest hi.server.delivers
  rcases hresult with ⟨req, u, hreq, rfl⟩ | ⟨f, u, hreq, hhandle⟩
  · obtain ⟨req', hunread, hwire, hcarried, hconv⟩ | ⟨e, -, hconv⟩ := hread
    · cases hsettles.eq_of_converges hreq (by simp) hconv
      obtain rfl : call = .asked req := by
        cases call with
        | asked req' => simpa [unread] using hunread
        | idle => cases hunread
        | working => cases hunread
        | answered => cases hunread
      have hcall : Calls.step (worker.service addr) a (.enter i) = some (a.setLine i
          ⟨.working req (worker.enter req (addr i)), left, false⟩) := by
        rw [Calls.step, hline]
        rfl
      have haddr : ((s.conn i).server.leaving []).remoteAddr = addr i := hi.addr
      rw [haddr]
      exact follows_one hcall (h.read hworker hline hcarried hwire) trivial rfl
    · cases hsettles.eq_of_converges hreq (by simp) hconv
  · have hfuel : f ≠ .outOfFuel := by
      rintro rfl
      cases hhandle
    obtain ⟨req', -, -, -, hconv⟩ | ⟨e, he, hconv⟩ := hread
    · cases hsettles.eq_of_converges hreq (by simpa using hfuel) hconv
    · cases hsettles.eq_of_converges hreq (by simpa using hfuel) hconv
      have hclose : Calls.step (worker.service addr) a (.close i) =
          some (a.setLine i ⟨call, left, true⟩) := by simp [Calls.step, hline]
      have hbreak : Fault.handlerFor (serveHandlers (κ := κ) fuel) (.thrown e) =
          some (pure false) := by
        rcases he with rfl | rfl
        · rfl
        · rfl
      rw [handle, hbreak] at hhandle
      cases hhandle
      exact follows_one hclose (h.set_line ⟨hi.awaits, hi.left, hi.work, hi.good, rfl,
        hi.requests, hi.responses, hi.client.ended, hi.server, hi.addr⟩) trivial rfl

theorem Matches.act (hworker : worker.AnswersWell good inv) {req : Request} {w w' : ω} {st : κ}
    {left closed : Bool} (h : Matches good addr inv s a)
    (hline : a.line i = ⟨.working req w, left, closed⟩)
    (hact : worker.act w s.state = some (w', st)) :
    Matches good addr inv { s.set i { s.conn i with work := some (req, w') } with state := st }
      { a.setLine i ⟨.working req w', left, closed⟩ with state := st } := by
  have hi := h.lines i
  rw [hline] at hi
  obtain ⟨hgood, hst⟩ := hworker.act w s.state w' st (hi.good req w rfl) h.inv hact
  have htracks : Tracks good (addr i) { s.conn i with work := some (req, w') }
      ⟨.working req w', left, closed⟩ := by
    refine ⟨by simpa using hi.awaits, hi.left, rfl, fun req' v hv => ?_, hi.closed, hi.requests,
      hi.responses, hi.client, hi.server, hi.addr⟩
    cases hv
    exact hgood
  exact h.set htracks hst

theorem follows_act (hworker : worker.AnswersWell good inv) (h : Matches good addr inv s a)
    (hstep : step worker fuel s (.act i) = some t) :
    Follows worker good addr inv fuel s (.act i) a t := by
  rw [step] at hstep
  split at hstep
  next req w hwork =>
    obtain ⟨⟨w', st⟩, hact, rfl⟩ := Option.map_eq_some_iff.mp hstep
    rcases hline : a.line i with ⟨call, left, closed⟩
    have hcall := (h.lines i).working hwork
    rw [hline] at hcall
    obtain rfl : call = .working req w := hcall
    have hevent : Calls.step (worker.service addr) a (.act i) =
        some { a.setLine i ⟨.working req w', left, closed⟩ with state := st } := by
      simp [Calls.step, hline, Worker.service, ← h.state, hact]
    exact follows_one hevent (h.act hworker hline hact) rfl rfl
  next => cases hstep

/-- The callback has returned, and the response is on the wire. -/
theorem Matches.write {req : Request} {w : ω} {res : Response} {left closed : Bool}
    (h : Matches good addr inv s a) (hline : a.line i = ⟨.working req w, left, closed⟩)
    (hres : Carried responseKind res) :
    Matches good addr inv
      (s.set i { s.conn i with
        server := { (s.conn i).server with wire := (s.conn i).server.wire ++ res.bytes },
        work := none })
      (a.setLine i ⟨.answered res, left, closed⟩) := by
  have hi := h.lines i
  rw [hline] at hi
  exact h.set_line ⟨by simpa using hi.awaits, hi.left, rfl, by simp, hi.closed, hi.requests,
    hi.responses.write hres, hi.client, hi.server.with_wire _, hi.addr⟩

theorem follows_write (hworker : worker.AnswersWell good inv) (h : Matches good addr inv s a)
    (hstep : step worker fuel s (.write i) = some t) :
    Follows worker good addr inv fuel s (.write i) a t := by
  have hi := h.lines i
  rw [step] at hstep
  split at hstep
  next req w hwork =>
    rcases hline : a.line i with ⟨call, left, closed⟩
    have hcall := hi.working hwork
    have hgood := hi.good req w hcall
    rw [hline] at hcall
    obtain rfl : call = .working req w := hcall
    split at hstep
    next res hresult =>
      obtain ⟨res', hok, hres⟩ := hworker.result w _ hgood hresult
      cases hok
      have hsettles := writeLoop_settles res.bytes (toInt32 res.bytes.length)
      have hsent := writeLoop_converges_whole hi.server.sends hres.small
      rw [writeResponse_of_serialize (res.serialize_of_size hres.small)] at hstep
      split at hstep
      next u hwrite =>
        cases hstep
        obtain rfl := (Prod.mk.inj (hsettles.eq_of_converges hwrite (by simp) hsent)).2
        have hevent : Calls.step (worker.service addr) a (.answer i) =
            some (a.setLine i ⟨.answered res, left, closed⟩) := by
          simp [Calls.step, hline, Worker.service, hresult]
        refine follows_one hevent (h.write hline hres) trivial ?_
        simp [Calls.entries, entries, hline, hwork, Worker.service, hresult]
      next f u hwrite =>
        have hfuel : f ≠ .outOfFuel := by
          rintro rfl
          cases hstep
        cases hsettles.eq_of_converges hwrite (by simpa using hfuel) hsent
    next e hresult =>
      obtain ⟨res, hok, -⟩ := hworker.result w _ hgood hresult
      cases hok
    next => cases hstep
  next => cases hstep

theorem follows_step (hworker : worker.AnswersWell good inv) {e : NetEvent ι}
    (h : Matches good addr inv s a) (hallowed : s.Allowed e)
    (hstep : step worker fuel s e = some t) : Follows worker good addr inv fuel s e a t := by
  cases e with
  | ask i req => exact follows_ask h hallowed hstep
  | carry i blocks => exact follows_carry h hallowed hstep
  | read i => exact follows_read hworker h hstep
  | act i => exact follows_act hworker h hstep
  | write i => exact follows_write hworker h hstep
  | carryBack i blocks => exact follows_carryBack h hallowed hstep
  | receive i => exact follows_receive h hstep
  | disconnect i => exact follows_disconnect h hstep

omit [DecidableEq ι] in
theorem matches_opened (serverAddr : SockAddr) (addr : ι → SockAddr) {st : κ} (hst : inv st) :
    Matches good addr inv (opened serverAddr addr st) (Calls.start st) := by
  have hreliable (addr : SockAddr) : Reliable ⟨[], .silent, [], [], addr⟩ :=
    ⟨rfl, fun _ hc => absurd hc List.not_mem_nil, .inr rfl⟩
  exact ⟨fun i => ⟨by simp [opened, Calls.start], rfl, rfl, by simp [Calls.start], rfl, .none,
    .none, hreliable _, hreliable _, rfl⟩, rfl, hst⟩

/-- Every run is a run of calls, with the same entries in the same order. What the steps of the
network meet can be carried over to those of the calls. -/
theorem run_matches_of (hworker : worker.AnswersWell good inv)
    {ok : Network ι κ ω → NetEvent ι → Prop}
    {ok' : Calls ι Request Response κ ω → CallEvent ι Request → Prop}
    (carry : ∀ s a e d, Matches good addr inv s a → ok s e → Stands e d → ok' a d)
    {serverAddr : SockAddr} {st : κ} (hst : inv st) {es : List (NetEvent ι)}
    (hallowed : Machine.AllSteps (step worker fuel) Allowed (opened serverAddr addr st) es)
    (hok : Machine.AllSteps (step worker fuel) ok (opened serverAddr addr st) es)
    (hrun : Machine.run (step worker fuel) (opened serverAddr addr st) es = some t) :
    ∃ ds a, Machine.run (Calls.step (worker.service addr)) (.start st) ds = some a ∧
      Matches good addr inv t a ∧
      Machine.AllSteps (Calls.step (worker.service addr)) ok' (.start st) ds ∧
      Machine.log (Calls.step (worker.service addr)) (Calls.entries (worker.service addr))
          (.start st) ds =
        Machine.log (step worker fuel) (entries worker fuel) (opened serverAddr addr st) es := by
  refine Machine.exists_run_of_simulation ?_ (matches_opened serverAddr addr hst)
    (hallowed.and hok) hrun
  intro s a e t h hboth hstep
  obtain ⟨ds, b, hds, hb, hstands, hlog⟩ := follows_step hworker h hboth.1 hstep
  refine ⟨ds, b, hds, hb, hstands.mono fun u d hd => ?_, hlog⟩
  obtain ⟨rfl, hd⟩ := hd
  exact carry s u e d h hboth.2 hd

theorem run_matches (hworker : worker.AnswersWell good inv) {serverAddr : SockAddr} {st : κ}
    (hst : inv st) {es : List (NetEvent ι)}
    (hallowed : Machine.AllSteps (step worker fuel) Allowed (opened serverAddr addr st) es)
    (hrun : Machine.run (step worker fuel) (opened serverAddr addr st) es = some t) :
    ∃ ds a, Machine.run (Calls.step (worker.service addr)) (.start st) ds = some a ∧
      Matches good addr inv t a ∧
      Machine.log (Calls.step (worker.service addr)) (Calls.entries (worker.service addr))
          (.start st) ds =
        Machine.log (step worker fuel) (entries worker fuel) (opened serverAddr addr st) es := by
  have hall := hallowed.mono (Q := fun _ _ => True) fun _ _ _ => trivial
  have hcarry (s : Network ι κ ω) (a : Calls ι Request Response κ ω) (e : NetEvent ι)
      (d : CallEvent ι Request) : Matches good addr inv s a → True → Stands e d → True :=
    fun _ _ _ => trivial
  obtain ⟨ds, a, hcalls, hmatches, -, hlog⟩ := run_matches_of hworker hcarry hst hallowed hall hrun
  exact ⟨ds, a, hcalls, hmatches, hlog⟩

/-- However the steps of clients, network and threads interleave, and wherever a client or a thread
gives up: the clients could as well have called the callbacks themselves. The callbacks make the
same steps, and on each connection the requests that were answered are the first ones that were
written, the responses that were read are the first ones that were given for them, and at most one
request has no response yet. -/
theorem answered_in_turn (hworker : worker.AnswersWell good inv) {serverAddr : SockAddr} {st : κ}
    (hst : inv st) {es : List (NetEvent ι)} {log : List (CallEntry ι Request Response)}
    (hallowed : Machine.AllSteps (step worker fuel) Allowed (opened serverAddr addr st) es)
    (hrun : Machine.run (step worker fuel) (opened serverAddr addr st) es = some t)
    (hlog : log = Machine.log (step worker fuel) (entries worker fuel)
      (opened serverAddr addr st) es) :
    (∃ ds a, Machine.run (Calls.step (worker.service addr)) (.start st) ds = some a ∧
      a.state = t.state ∧ Machine.log (Calls.step (worker.service addr))
        (Calls.entries (worker.service addr)) (.start st) ds = log) ∧
    ∀ i, ∃ waiting ready, waiting.length + ready.length ≤ 1 ∧
      Calls.askedBy i log = (Calls.answersTo i log).map Prod.fst ++ waiting ∧
      (Calls.answersTo i log).map Prod.snd = Calls.returnedTo i log ++ ready ∧
      ((t.conn i).awaits = false → waiting = [] ∧ ready = []) := by
  subst hlog
  obtain ⟨ds, a, hcalls, hmatches, hsame⟩ := run_matches hworker hst hallowed hrun
  have haccounts := Calls.accounts_of_run hcalls
  rw [hsame] at haccounts
  refine ⟨⟨ds, a, hcalls, hmatches.state.symm, hsame⟩, fun i => ?_⟩
  refine ⟨_, _, ?_, haccounts.asked i, haccounts.answered i, fun hidle => ?_⟩
  · cases (a.line i).call with
    | idle => simp [Call.waiting, Call.ready]
    | asked req => simp [Call.waiting, Call.ready]
    | working req w => simp [Call.waiting, Call.ready]
    | answered res => simp [Call.waiting, Call.ready]
  · rw [(hmatches.lines i).awaits.mp hidle]
    exact ⟨rfl, rfl⟩

/-! ## Two clients -/

theorem carried_greeting : Carried requestKind greeting :=
  ⟨Request.survives_iff.mpr greeting_transparent, by decide, by decide⟩

theorem carried_answer : Carried responseKind HttpClient.answer := by
  have htransparent : HttpClient.answer.Transparent :=
    ⟨⟨by decide, HeaderMap.transparent_iff.mpr (by decide)⟩, by decide, by decide, by decide,
      by decide⟩
  exact ⟨Response.survives_iff.mpr htransparent, by decide, by decide⟩

/-- A callback that counts its calls. -/
def counting : Worker Nat (Request × SockAddr ⊕ Except ExnClass Response) :=
  .ofCallback (replying fun _ _ n => (HttpClient.answer, n + 1))

theorem counting_answersWell :
    counting.AnswersWell (fun w => ∀ r, w = .inr r → r = .ok HttpClient.answer) fun _ => True := by
  constructor
  · intro req addr _ r hr
    cases hr
  · intro w st w' st' _ _ hact
    rcases w with ⟨req, addr⟩ | r
    · cases hact
      exact ⟨fun r hr => (Sum.inr.inj hr).symm, trivial⟩
    · cases hact
  · intro w r hgood hresult
    rcases w with ⟨req, addr⟩ | r'
    · cases hresult
    · cases hresult
      exact ⟨_, hgood r rfl, carried_answer⟩

/-- Two clients greet the server, and the second one is answered first. -/
def twoGreetings : List (NetEvent Bool) :=
  [.ask false greeting, .ask true greeting, .carry true [greeting.bytes], .read true,
    .carry false [greeting.bytes], .read false, .act true, .write true, .act false,
    .carryBack true [HttpClient.answer.bytes], .write false, .receive true]

/-- A sufficient form of `Allowed`: one request and one response only, and they arrive at once. -/
def AtOnce (asked : Request) (answer : Response) (s : Network ι κ ω) : NetEvent ι → Prop
  | .ask _ req => req = asked
  | .carry i blocks => (s.conn i).client.wire = asked.bytes ∧ blocks = [asked.bytes]
  | .carryBack i blocks => (s.conn i).server.wire = answer.bytes ∧ blocks = [answer.bytes]
  | .read _ | .act _ | .write _ | .receive _ | .disconnect _ => True

instance (asked : Request) (answer : Response) (s : Network ι κ ω) :
    DecidablePred (s.AtOnce asked answer)
  | .ask _ _ => inferInstanceAs (Decidable (_ = _))
  | .carry _ _ | .carryBack _ _ => inferInstanceAs (Decidable (_ ∧ _))
  | .read _ | .act _ | .write _ | .receive _ | .disconnect _ => inferInstanceAs (Decidable True)

omit [DecidableEq ι] in
theorem AtOnce.allowed {asked : Request} {answer : Response} {e : NetEvent ι}
    (hasked : Carried requestKind asked) (hanswer : Carried responseKind answer)
    (hlen : asked.bytes.length ≤ 1024 ∧ answer.bytes.length ≤ 1024)
    (h : s.AtOnce asked answer e) : s.Allowed e := by
  cases e with
  | ask i req =>
    obtain rfl : req = asked := h
    exact hasked
  | carry i blocks =>
    obtain ⟨hwire, rfl⟩ := h
    rw [Allowed, hwire]
    exact hasked.delivery hlen.1
  | carryBack i blocks =>
    obtain ⟨hwire, rfl⟩ := h
    rw [Allowed, hwire]
    exact hanswer.delivery hlen.2
  | read | act | write | receive | disconnect => trivial

/-- No client has sent anything yet. -/
def twoClients : Network Bool Nat (Request × SockAddr ⊕ Except ExnClass Response) :=
  opened .new (fun _ => .new) 0

theorem twoGreetings_allowed :
    Machine.AllSteps (step counting 4) Allowed twoClients twoGreetings := by
  have hatOnce : Machine.AllSteps (step counting 4) (AtOnce greeting HttpClient.answer) twoClients
      twoGreetings := by decide +kernel
  exact hatOnce.mono fun _ _ h => h.allowed carried_greeting carried_answer (by decide)

theorem twoGreetings_run :
    ∃ t, Machine.run (step counting 4) twoClients twoGreetings = some t ∧ t.state = 2 ∧
      (t.conn true).awaits = false ∧ (t.conn false).awaits = true ∧ (t.conn false).left = false ∧
        (t.conn false).closed = false := by
  have hfacts : (Machine.run (step counting 4) twoClients twoGreetings).map (fun t =>
      (t.state, (t.conn true).awaits, (t.conn false).awaits, (t.conn false).left,
        (t.conn false).closed)) = some (2, false, true, false, false) := by decide +kernel
  obtain ⟨t, ht, hfacts⟩ := Option.map_eq_some_iff.mp hfacts
  simp only [Prod.mk.injEq] at hfacts
  exact ⟨t, ht, hfacts⟩

/-- The second client has its response, and the first one waits for its own. -/
theorem twoGreetings_in_turn : ∃ t log,
    Machine.run (step counting 4) twoClients twoGreetings = some t ∧
    (t.conn true).awaits = false ∧
    (∃ ds a, Machine.run (Calls.step (counting.service fun _ => .new)) (.start 0) ds = some a ∧
      a.state = t.state ∧ Machine.log (Calls.step (counting.service fun _ => .new))
        (Calls.entries (counting.service fun _ => .new)) (.start 0) ds = log) ∧
    ∀ i, ∃ waiting ready, waiting.length + ready.length ≤ 1 ∧
      Calls.askedBy i log = (Calls.answersTo i log).map Prod.fst ++ waiting ∧
      (Calls.answersTo i log).map Prod.snd = Calls.returnedTo i log ++ ready ∧
      ((t.conn i).awaits = false → waiting = [] ∧ ready = []) := by
  obtain ⟨t, hrun, -, hdone, -⟩ := twoGreetings_run
  exact ⟨t, _, hrun, hdone, answered_in_turn counting_answersWell trivial twoGreetings_allowed hrun
    rfl⟩

end Network

end P2PFileSharing.Http
