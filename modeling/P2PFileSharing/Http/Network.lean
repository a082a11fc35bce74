import P2PFileSharing.Http.Server
import P2PFileSharing.Library.Calls

/-!
# Clients, a server and the network

Any number of clients, each with a connection of its own, and a server with a thread for each of
them. A client writes a request and reads the response, again and again; the thread repeats the
body of the loop in `handle_client`. The callbacks of the threads run at the same time, and their
steps have a state in common. The network takes its time and cuts what it delivers into blocks.
-/

namespace P2PFileSharing.Http

open Library InetSocket

variable {ι κ ω : Type} [DecidableEq ι]

/-- A callback, as a thread runs it: step by step, until it returns or throws. -/
structure Worker (κ ω : Type) where
  enter : Request → SockAddr → ω
  act : ω → κ → Option (ω × κ)
  result : ω → Option (Except ExnClass Response)

/-- A callback that runs alone returns or throws, with this result and leaving this state. -/
inductive Worker.Returns (worker : Worker κ ω) : ω → κ → Except ExnClass Response → κ → Prop
  | now {w : ω} {st : κ} {r : Except ExnClass Response} (result : worker.result w = some r) :
      Returns worker w st r st
  | after {w w' : ω} {st st' st'' : κ} {r : Except ExnClass Response}
      (act : worker.act w st = some (w', st')) (rest : Returns worker w' st' r st'') :
      Returns worker w st r st''

/-- A connection, with the two threads that use it. -/
structure Connection (ω : Type) where
  client : InetSocket
  server : InetSocket
  /-- The client has written a request and not read the response. -/
  awaits : Bool
  /-- The client has given up, or has closed its socket. -/
  left : Bool
  /-- What the thread of the server has read, and where its callback is. -/
  work : Option (Request × ω)
  /-- `handle_client` has come to its end. -/
  closed : Bool

structure Network (ι κ ω : Type) where
  conn : ι → Connection ω
  /-- The state that the callbacks share. -/
  state : κ

inductive NetEvent (ι : Type) where
  /-- A client writes a request. -/
  | ask (i : ι) (req : Request)
  /-- Bytes of a client arrive at the server, in these blocks. -/
  | carry (i : ι) (blocks : List BString)
  /-- A thread of the server reads a request and prints it. -/
  | read (i : ι)
  /-- The callback of a thread makes a step. -/
  | act (i : ι)
  /-- A thread writes the response. -/
  | write (i : ι)
  /-- Bytes of the server arrive at a client, in these blocks. -/
  | carryBack (i : ι) (blocks : List BString)
  /-- A client reads the response. -/
  | receive (i : ι)
  /-- A client closes its socket. -/
  | disconnect (i : ι)

namespace Network

/-- All clients are connected, and the threads have just been started. -/
def opened (serverAddr : SockAddr) (addr : ι → SockAddr) (st : κ) : Network ι κ ω where
  conn i :=
    { client := ⟨[], .silent, [], [], serverAddr⟩, server := ⟨[], .silent, [], [], addr i⟩,
      awaits := false, left := false, work := none, closed := false }
  state := st

def set (s : Network ι κ ω) (i : ι) (c : Connection ω) : Network ι κ ω :=
  { s with conn := Function.update s.conn i c }

@[simp] theorem set_self (s : Network ι κ ω) (i : ι) (c : Connection ω) :
    (s.set i c).conn i = c := by
  simp [set]

@[simp] theorem set_state (s : Network ι κ ω) (i : ι) (c : Connection ω) :
    (s.set i c).state = s.state := rfl

theorem set_of_ne (s : Network ι κ ω) {i j : ι} (c : Connection ω) (h : j ≠ i) :
    (s.set i c).conn j = s.conn j := by
  simp [set, h]

/-- The `catch` list of `handle_client`. A thread that leaves the loop closes its socket, and the
client will find the end of the stream. -/
def handle (fuel : Nat) (s : Network ι κ ω) (i : ι) (c : Connection ω) (f : Fault) :
    Option (Network ι κ ω) :=
  match Fault.handlerFor (serveHandlers fuel) f with
  | none => none
  | some handler =>
    match handler (c.server, s.state) with
    | (.ok true, u, st) => some { s.set i { c with server := u } with state := st }
    | (.ok false, u, st) =>
      some { s.set i { c with
        server := u, client := { c.client with ending := .closed }, closed := true } with
          state := st }
    | _ => none

variable (worker : Worker κ ω) (fuel : Nat)

def step (s : Network ι κ ω) : NetEvent ι → Option (Network ι κ ω)
  | .ask i req =>
    let c := s.conn i
    if c.awaits || c.left then none
    else
      match writeRequest fuel req c.client with
      | (.ok (), u) => some (s.set i { c with client := u, awaits := true })
      | _ => none
  | .carry i blocks =>
    let c := s.conn i
    if blocks.flatten <+: c.client.wire then
      some (s.set i { c with
        client := { c.client with wire := c.client.wire.drop blocks.flatten.length },
        server := { c.server with arrivals := c.server.arrivals ++ blocks } })
    else none
  | .read i =>
    let c := s.conn i
    if c.closed || c.work.isSome then none
    else
      match nextRequest fuel c.server with
      | (.ok req, u) =>
        some (s.set i { c with server := u, work := some (req, worker.enter req u.remoteAddr) })
      | (.error f, u) => s.handle fuel i { c with server := u } f
  | .act i =>
    let c := s.conn i
    match c.work with
    | some (req, w) =>
      (worker.act w s.state).map fun r =>
        { s.set i { c with work := some (req, r.1) } with state := r.2 }
    | none => none
  | .write i =>
    let c := s.conn i
    match c.work with
    | some (_, w) =>
      match worker.result w with
      | some (.ok res) =>
        match writeResponse fuel res c.server with
        | (.ok (), u) => some (s.set i { c with server := u, work := none })
        | (.error f, u) => s.handle fuel i { c with server := u, work := none } f
      | some (.error e) => s.handle fuel i { c with work := none } (.thrown e)
      | none => none
    | none => none
  | .carryBack i blocks =>
    let c := s.conn i
    if blocks.flatten <+: c.server.wire then
      some (s.set i { c with
        server := { c.server with wire := c.server.wire.drop blocks.flatten.length },
        client := { c.client with arrivals := c.client.arrivals ++ blocks } })
    else none
  | .receive i =>
    let c := s.conn i
    if !c.awaits || c.left then none
    else
      match readResponse fuel c.client with
      | (.ok _, u) => some (s.set i { c with client := u, awaits := false })
      | (.error (.thrown _), u) => some (s.set i { c with client := u, left := true })
      | _ => none
  | .disconnect i =>
    let c := s.conn i
    if c.awaits && !c.left then none
    else some (s.set i { c with server := { c.server with ending := .closed }, left := true })

/-- What a step does for the calls of the clients. -/
def entries (s : Network ι κ ω) : NetEvent ι → List (CallEntry ι Request Response)
  | .ask i req => [.asked i req]
  | .write i =>
    match (s.conn i).work with
    | some (req, w) =>
      match worker.result w with
      | some (.ok res) => [.answered i req res]
      | _ => []
    | none => []
  | .receive i =>
    match (readResponse fuel (s.conn i).client).1 with
    | .ok res => [.returned i res]
    | .error _ => []
  | .carry _ _ | .read _ | .act _ | .carryBack _ _ | .disconnect _ => []

/-- What reading a request leaves. -/
theorem read_cases {worker : Worker κ ω} {fuel : Nat} {s t : Network ι κ ω} {i : ι}
    (h : step worker fuel s (.read i) = some t) : (s.conn i).closed = false ∧
      (s.conn i).work = none ∧
      ((∃ req u, nextRequest fuel (s.conn i).server = (.ok req, u) ∧ t = s.set i { s.conn i with
        server := u, work := some (req, worker.enter req u.remoteAddr) }) ∨
      ∃ f u, nextRequest fuel (s.conn i).server = (.error f, u) ∧
        s.handle fuel i { s.conn i with server := u } f = some t) := by
  rw [step] at h
  split at h
  next => cases h
  next hidle =>
    simp only [Bool.or_eq_true, not_or, Bool.not_eq_true, Option.isSome_eq_false_iff,
      Option.isNone_iff_eq_none] at hidle
    refine ⟨hidle.1, hidle.2, ?_⟩
    split at h
    next req u hread => exact .inl ⟨req, u, hread, (Option.some.inj h).symm⟩
    next f u hread => exact .inr ⟨f, u, hread, h⟩

end Network

/-- A callback that runs in one step. -/
def Worker.ofCallback (callback : Callback κ) :
    Worker κ (Request × SockAddr ⊕ Except ExnClass Response) where
  enter req addr := .inl (req, addr)
  act
    | .inl (req, addr), st => some (.inr (callback req addr st).1, (callback req addr st).2)
    | .inr _, _ => none
  result
    | .inl _ => none
    | .inr r => some r

end P2PFileSharing.Http
