import P2PFileSharing.Http.Client
import P2PFileSharing.Library.Machine
import P2PFileSharing.Peer.TrackerClient

/-!
# The connections of the tracker client

Each call opens a socket. `connect_server` does not close it when it throws, a retry opens another
one over it, and whether a call comes to `disconnect` depends on the response.
-/

namespace P2PFileSharing.Peer

open Http Library InetSocket

/-- `http_client`, where each loop may make `fuel` rounds and `send_request` one more. -/
def netClient (fuel : Nat) : HttpClient Http.HttpClient where
  connect := Http.HttpClient.connect
  sendRequest := Http.HttpClient.sendRequest (fuel + 1)
  disconnect := Http.HttpClient.disconnect

/-- The calls of `tracker_client`. -/
inductive TrackerCall where
  | signup (uname passwd : Str)
  | login (uname passwd : Str)
  | createGroup (gid : Str)
  | joinGroup (gid : Str)
  | leaveGroup (gid : Str)
  | logout
  | shareFile (fname gid : Str) (usAddr : SockAddr)
  | getPeers (fname gid : Str) (usAddr : SockAddr)
  deriving DecidableEq

namespace TrackerCall

/-- A call, with the `auth_token` that the client has afterwards. -/
def run {σ : Type} (client : HttpClient σ) (authToken : Str) : TrackerCall → Action σ Fault Str
  | signup uname passwd => do
    TrackerClient.signup client uname passwd
    return authToken
  | login uname passwd => TrackerClient.login client uname passwd
  | createGroup gid => do
    TrackerClient.createGroup client authToken gid
    return authToken
  | joinGroup gid => do
    TrackerClient.joinGroup client authToken gid
    return authToken
  | leaveGroup gid => do
    TrackerClient.leaveGroup client authToken gid
    return authToken
  | logout => do
    TrackerClient.logout client authToken
    return authToken
  | shareFile fname gid usAddr => do
    TrackerClient.shareFile client authToken fname gid usAddr
    return authToken
  | getPeers fname gid usAddr => do
    let _ ← TrackerClient.getPeers client authToken fname gid usAddr
    return authToken

end TrackerCall

/-- `auth_token` and `client` of a `tracker_client`. -/
structure ClientState where
  authToken : Str
  client : Http.HttpClient

/-- The client after a call that returns or throws. -/
def ClientState.step (fuel : Nat) (s : ClientState) (call : TrackerCall) : Option ClientState :=
  match call.run (netClient fuel) s.authToken s.client with
  | (.ok authToken, client) => some ⟨authToken, client⟩
  | (.error (.thrown _), client) => some { s with client }
  | (.error _, _) => none

def SameOpen (s t : ClientState) : Prop := t.client.openSockets = s.client.openSockets

/-- As many sockets are open after each call as before the first one. -/
def Balanced (fuel : Nat) (s : ClientState) (calls : List TrackerCall) : Prop :=
  Machine.AllStates (ClientState.step fuel) (SameOpen s) s calls

/-! ## What a call meets -/

/-- The socket that an attempt to connect opens. -/
def opened : ConnectResult → Option InetSocket
  | .noSocket => none
  | .failed _ sock => some sock
  | .connected sock => some sock

/-- `connect` returns. -/
def Connects : ConnectResult → Prop
  | .noSocket => False
  | .failed err _ => ∀ e, throwException err = some e → e = .isConnectedException
  | .connected _ => True

namespace TrackerCall

def request (authToken : Str) : TrackerCall → Request
  | signup uname passwd => TrackerClient.signupRequest uname passwd
  | login uname passwd => TrackerClient.loginRequest uname passwd
  | createGroup gid => TrackerClient.createGroupRequest authToken gid
  | joinGroup gid => TrackerClient.joinGroupRequest authToken gid
  | leaveGroup gid => TrackerClient.leaveGroupRequest authToken gid
  | logout => TrackerClient.logoutRequest authToken
  | shareFile fname gid usAddr => TrackerClient.shareFileRequest authToken fname gid usAddr
  | getPeers fname gid usAddr => TrackerClient.getPeersRequest authToken fname gid usAddr

/-- With this response the call comes to `disconnect`. -/
def Closes (res : Response) : TrackerCall → Prop
  | login _ _ => res.status = .OK ∧ ∃ token, res.getHeader (lit "Authorization") = .ok token
  | logout => True
  | getPeers _ _ _ => False
  | _ => res.status = .OK

end TrackerCall

/-- No socket is opened, or `connect` returns, the first exchange gives a response, and the call
closes the connection after it. -/
def Closed (fuel : Nat) (req : Request) (closes : Response → Prop) : List ConnectResult → Prop
  | [] => True
  | result :: _ => ∀ sock, opened result = some sock →
    Connects result ∧ ∃ res t, Http.HttpClient.exchange fuel req sock = (.ok res, t) ∧ closes res

/-! ## Connecting and disconnecting -/

section Connecting

variable {c c' : Http.HttpClient} {result : ConnectResult} {rest : List ConnectResult}
  {sock : InetSocket} {e : ExnClass}

/-- The client with a new socket. -/
def withSocket (c : Http.HttpClient) (sock : InetSocket) (rest : List ConnectResult) :
    Http.HttpClient :=
  { c with sock := some sock, connects := rest, openSockets := c.openSockets + 1 }

theorem isConnected_takes_iff (e : ExnClass) :
    ExnClass.isConnectedException.takes e = true ↔ e = .isConnectedException := by
  cases e <;> decide

theorem connect_of_thrown (h : Http.HttpClient.connectServer c = (.error (.thrown e), c'))
    (he : e ≠ .isConnectedException) :
    Http.HttpClient.connect c = (.error (.thrown e), c') := by
  refine Action.catching_of_unmatched h ?_
  rw [Fault.handlerFor, handlerFor_singleton, if_neg, Option.map_none]
  rwa [isConnected_takes_iff]

theorem connect_of_isConnected
    (h : Http.HttpClient.connectServer c = (.error (.thrown .isConnectedException), c')) :
    Http.HttpClient.connect c = (.ok (), c') :=
  Action.catching_of_error h rfl

/-- Either the next attempt to connect gets no descriptor, or it opens a socket. -/
theorem connects_cases (c : Http.HttpClient) :
    (∀ result ∈ c.connects.head?, opened result = none) ∨
      ∃ result rest sock, c.connects = result :: rest ∧ opened result = some sock := by
  rcases hconnects : c.connects with _ | ⟨result, rest⟩
  · exact .inl fun result hresult => nomatch hresult
  · cases hopened : opened result with
    | none =>
      left
      intro result' hresult
      cases hresult
      exact hopened
    | some sock => exact .inr ⟨result, rest, sock, rfl, hopened⟩

/-- Without a descriptor nothing is opened. -/
theorem connectServer_noSocket (h : ∀ result ∈ c.connects.head?, opened result = none) :
    ∃ c', Http.HttpClient.connectServer c = (.error (.thrown .socketException), c') ∧
      c'.openSockets = c.openSockets := by
  rcases hconnects : c.connects with _ | ⟨_ | ⟨err, sock⟩ | sock, rest⟩
  · refine ⟨{ c with sock := none, connects := [] }, ?_, rfl⟩
    simp [Http.HttpClient.connectServer, hconnects]
  · refine ⟨{ c with sock := none, connects := rest }, ?_, rfl⟩
    simp [Http.HttpClient.connectServer, hconnects]
  · rw [hconnects] at h
    cases h _ rfl
  · rw [hconnects] at h
    cases h _ rfl

/-- With a descriptor a socket is open, whether the function returns or throws. -/
theorem connectServer_opened (h : c.connects = result :: rest) (hsock : opened result = some sock) :
    Http.HttpClient.connectServer c = (.ok (), withSocket c sock rest) ∧ Connects result ∨
      ∃ e, Http.HttpClient.connectServer c = (.error (.thrown e), withSocket c sock rest) ∧
        (Connects result ↔ e = .isConnectedException) := by
  cases result with
  | noSocket => cases hsock
  | failed err sock' =>
    cases hsock
    cases he : throwException err with
    | none =>
      refine .inl ⟨by simp [Http.HttpClient.connectServer, h, he, withSocket], ?_⟩
      simp [Connects, he]
    | some e =>
      refine .inr ⟨e, by simp [Http.HttpClient.connectServer, h, he, withSocket], ?_⟩
      simp [Connects, he]
  | connected sock' =>
    cases hsock
    exact .inl ⟨by simp [Http.HttpClient.connectServer, h, withSocket], trivial⟩

theorem connect_opened (h : c.connects = result :: rest) (hsock : opened result = some sock) :
    (Connects result ∧ Http.HttpClient.connect c = (.ok (), withSocket c sock rest)) ∨
      (¬ Connects result ∧
        ∃ e, Http.HttpClient.connect c = (.error (.thrown e), withSocket c sock rest)) := by
  obtain ⟨hok, hconnects⟩ | ⟨e, hthrown, hconnects⟩ := connectServer_opened h hsock
  · exact .inl ⟨hconnects, Action.catching_of_ok hok⟩
  · by_cases he : e = .isConnectedException
    · subst he
      exact .inl ⟨hconnects.mpr rfl, connect_of_isConnected hthrown⟩
    · exact .inr ⟨fun hc => he (hconnects.mp hc), e, connect_of_thrown hthrown he⟩

theorem openSockets_disconnect (c : Http.HttpClient) :
    (Http.HttpClient.disconnect c).2.openSockets =
      if c.sock.isSome then c.openSockets - 1 else c.openSockets := by
  rcases hsock : c.sock with _ | sock
  · simp [Http.HttpClient.disconnect, hsock]
  · simp [Http.HttpClient.disconnect, hsock]

end Connecting

/-! ## Sending a request -/

section Sending

/-- No socket is closed. -/
def Grows (c c' : Http.HttpClient) : Prop := c.openSockets ≤ c'.openSockets

instance : Std.Refl Grows := ⟨fun c => Nat.le_refl c.openSockets⟩

instance : IsTrans Http.HttpClient Grows := ⟨fun _ _ _ h h' => Nat.le_trans h h'⟩

variable {c c' : Http.HttpClient} {req : Request} {res : Response} {sock : InetSocket}

theorem openSockets_onSock {α : Type} (x : Action InetSocket Fault α) (c : Http.HttpClient) :
    (Http.HttpClient.onSock x c).2.openSockets = c.openSockets := by
  rcases hsock : c.sock with _ | sock
  · simp [Http.HttpClient.onSock, hsock]
  · simp [Http.HttpClient.onSock, hsock]

/-- Either no socket is opened and the function throws, or there is one more. -/
theorem openSockets_reconnect (c : Http.HttpClient) :
    (∃ e c', Http.HttpClient.reconnect c = (.error e, c') ∧ c'.openSockets = c.openSockets) ∨
      (Http.HttpClient.reconnect c).2.openSockets = c.openSockets + 1 := by
  obtain hnone | ⟨result, rest, sock, hconnects, hsock⟩ := connects_cases c
  · obtain ⟨c', hthrown, hsame⟩ := connectServer_noSocket hnone
    exact .inl ⟨_, c', hthrown, hsame⟩
  · right
    obtain ⟨hok, -⟩ | ⟨e, hthrown, -⟩ := connectServer_opened hconnects hsock
    · rw [Http.HttpClient.reconnect, hok]
      rfl
    · rw [Http.HttpClient.reconnect, hthrown]
      rfl

theorem within_reconnect : Action.Within Grows Http.HttpClient.reconnect := by
  intro c
  obtain ⟨e, c', hthrown, hsame⟩ | hmore := openSockets_reconnect c
  · rw [hthrown]
    exact hsame.ge
  · exact Nat.le_of_lt (Nat.lt_of_succ_le hmore.ge)

theorem within_sendLoop (req : Request) (fuel retryCount : Nat) :
    Action.Within Grows (Http.HttpClient.sendLoop req fuel retryCount) := by
  induction fuel generalizing retryCount with
  | zero => exact Action.within_throw _
  | succ fuel ih =>
    refine Action.Within.catching (fun c => (openSockets_onSock _ c).ge) fun f k hk => ?_
    obtain ⟨e, -, rfl⟩ := Option.map_eq_some_iff.mp hk
    split
    · exact Action.within_throw _
    · exact within_reconnect.bind fun _ => ih (retryCount + 1)

/-- A response that comes after a retry comes with one more socket. -/
theorem sendLoop_retried {fuel retryCount : Nat}
    (hfirst : ∀ res t, Http.HttpClient.onSock (Http.HttpClient.exchange fuel req) c ≠ (.ok res, t))
    (h : Http.HttpClient.sendLoop req (fuel + 1) retryCount c = (.ok res, c')) :
    c.openSockets < c'.openSockets := by
  have hsame := openSockets_onSock (Http.HttpClient.exchange fuel req) c
  rcases hattempt : Http.HttpClient.onSock (Http.HttpClient.exchange fuel req) c with ⟨f | res, c1⟩
  · rw [hattempt] at hsame
    rw [Http.HttpClient.sendLoop] at h
    cases hhandler : Http.HttpClient.retrying retryCount
        (Http.HttpClient.sendLoop req fuel (retryCount + 1)) f with
    | none =>
      rw [Action.catching_of_unmatched hattempt hhandler] at h
      cases h
    | some k =>
      rw [Action.catching_of_error hattempt hhandler] at h
      obtain ⟨e, -, rfl⟩ := Option.map_eq_some_iff.mp hhandler
      split at h
      · cases h
      · obtain ⟨_, c2, hreconnect, hagain⟩ := Action.bind_eq_ok.mp h
        have hgrows := within_sendLoop req fuel (retryCount + 1) c2
        rw [hagain, Grows] at hgrows
        obtain ⟨e, c3, hthrown, -⟩ | hmore := openSockets_reconnect c1
        · cases hreconnect.symm.trans hthrown
        · rw [hreconnect] at hmore
          dsimp only at hsame hmore hgrows
          omega
  · exact absurd hattempt (hfirst res c1)

/-- What sending a request comes to: the first exchange gives the response, or a socket more stays
open behind the response, or there is no response. -/
theorem sendRequest_cases (fuel : Nat) (req : Request) (hsock : c.sock = some sock) :
    (∃ res t, Http.HttpClient.exchange fuel req sock = (.ok res, t) ∧
      (netClient fuel).sendRequest req c = (.ok res, { c with sock := some t })) ∨
    ((∀ res t, Http.HttpClient.exchange fuel req sock ≠ (.ok res, t)) ∧
      ((∃ f c', (netClient fuel).sendRequest req c = (.error f, c') ∧
          c.openSockets ≤ c'.openSockets) ∨
        ∃ res c', (netClient fuel).sendRequest req c = (.ok res, c') ∧
          c.openSockets < c'.openSockets)) := by
  have honSock : Http.HttpClient.onSock (Http.HttpClient.exchange fuel req) c =
      ((Http.HttpClient.exchange fuel req sock).1,
        { c with sock := some (Http.HttpClient.exchange fuel req sock).2 }) := by
    simp [Http.HttpClient.onSock, hsock]
  rcases hexchange : Http.HttpClient.exchange fuel req sock with ⟨f | res, t⟩
  · rw [hexchange] at honSock
    refine .inr ⟨fun res t h => (by cases h), ?_⟩
    rcases hsend : (netClient fuel).sendRequest req c with ⟨f | res, c'⟩
    · have hgrows := within_sendLoop req (fuel + 1) 0 c
      rw [show Http.HttpClient.sendLoop req (fuel + 1) 0 c = _ from hsend] at hgrows
      exact .inl ⟨f, c', rfl, hgrows⟩
    · refine .inr ⟨res, c', rfl, sendLoop_retried (fun res t h => ?_) hsend⟩
      rw [honSock] at h
      cases h
  · rw [hexchange] at honSock
    exact .inl ⟨res, t, rfl, Action.catching_of_ok honSock⟩

end Sending

/-! ## A call -/

section Calls

variable {fuel : Nat} {req : Request} {closes : Response → Prop}

/-- What follows a response disconnects if `closes` holds, and otherwise leaves the client alone. -/
def Finishes {α : Type} (x : Action Http.HttpClient Fault α) (closes : Prop) : Prop :=
  ∀ c, (closes → (x c).2 = (Http.HttpClient.disconnect c).2) ∧ (¬ closes → (x c).2 = c)

theorem checkStatus_of_OK {res : Response} (h : res.status = .OK) (c : Http.HttpClient) :
    TrackerClient.checkStatus res c = (.ok (), c) := by
  rw [show TrackerClient.checkStatus res = pure () from if_pos h, Action.pure_run]

theorem checkStatus_of_ne {res : Response} (h : res.status ≠ .OK) (c : Http.HttpClient) :
    TrackerClient.checkStatus res c = (.error (TrackerClient.refusal res), c) := by
  rw [show TrackerClient.checkStatus res = Action.throw _ from if_neg h, Action.throw_run]

theorem finishes_call (res : Response) :
    Finishes (TrackerClient.checkStatus res >>= fun _ => (netClient fuel).disconnect)
      (res.status = .OK) := by
  intro c
  refine ⟨fun h => ?_, fun h => ?_⟩
  · rw [Action.bind_of_ok (checkStatus_of_OK h c)]
    rfl
  · rw [Action.bind_of_error (checkStatus_of_ne h c)]

/-- The status is looked at behind `disconnect`. -/
theorem finishes_logout (res : Response) :
    Finishes ((netClient fuel).disconnect >>= fun _ => TrackerClient.checkStatus res) True := by
  intro c
  refine ⟨fun _ => ?_, fun h => absurd trivial h⟩
  rw [Action.bind_of_ok (show (netClient fuel).disconnect c = (.ok (), _) from rfl)]
  by_cases h : res.status = .OK
  · rw [checkStatus_of_OK h]
    rfl
  · rw [checkStatus_of_ne h]
    rfl

theorem finishes_login (res : Response) :
    Finishes (if res.status = .OK then
        Action.ofExcept ((res.getHeader (lit "Authorization")).mapError Fault.thrown) >>=
          fun authToken => (netClient fuel).disconnect >>= fun _ => pure authToken
      else Action.throw (TrackerClient.refusal res))
      (res.status = .OK ∧ ∃ token, res.getHeader (lit "Authorization") = .ok token) := by
  intro c
  by_cases hstatus : res.status = .OK
  · rw [if_pos hstatus]
    cases res.getHeader (lit "Authorization") with
    | error e =>
      refine ⟨fun h => ?_, fun _ => rfl⟩
      obtain ⟨-, token, ⟨⟩⟩ := h
    | ok token => exact ⟨fun _ => rfl, fun h => absurd ⟨hstatus, token, rfl⟩ h⟩
  · rw [if_neg hstatus]
    exact ⟨fun h => absurd h.1 hstatus, fun _ => rfl⟩

theorem finishes_getPeers (res : Response) :
    Finishes (if res.status = .OK then Action.ofExcept (TrackerClient.peersOfBody res.body)
      else Action.throw (TrackerClient.refusal res)) False := by
  intro c
  refine ⟨fun h => h.elim, fun _ => ?_⟩
  by_cases hstatus : res.status = .OK
  · rw [if_pos hstatus, Action.ofExcept_run]
  · rw [if_neg hstatus, Action.throw_run]

/-- At most one socket is closed. -/
theorem Finishes.openSockets {α : Type} {x : Action Http.HttpClient Fault α} {closes : Prop}
    (hx : Finishes x closes) {c : Http.HttpClient} (hsock : c.sock.isSome) :
    (closes ∧ (x c).2.openSockets = c.openSockets - 1) ∨
      (¬ closes ∧ (x c).2.openSockets = c.openSockets) := by
  obtain ⟨hcloses, hkeeps⟩ := hx c
  by_cases h : closes
  · exact .inl ⟨h, by rw [hcloses h, openSockets_disconnect, if_pos hsock]⟩
  · exact .inr ⟨h, by rw [hkeeps h]⟩

theorem Finishes.openSockets_ge {α : Type} {x : Action Http.HttpClient Fault α} {closes : Prop}
    (hx : Finishes x closes) (c : Http.HttpClient) :
    c.openSockets - 1 ≤ (x c).2.openSockets := by
  obtain ⟨hcloses, hkeeps⟩ := hx c
  by_cases h : closes
  · rw [hcloses h, openSockets_disconnect]
    split_ifs
    · exact Nat.le_refl _
    · exact Nat.sub_le _ _
  · rw [hkeeps h]
    exact Nat.sub_le _ _

/-- A socket that is open is closed if the first exchange over it gives a response that `closes`
has. -/
theorem openSockets_afterConnect_iff {α : Type} {k : Response → Action Http.HttpClient Fault α}
    (hk : ∀ res, Finishes (k res) (closes res)) {c : Http.HttpClient} {sock : InetSocket}
    (hsock : c.sock = some sock) (hopen : 0 < c.openSockets) :
    (((netClient fuel).sendRequest req >>= k) c).2.openSockets + 1 = c.openSockets ↔
      ∃ res t, Http.HttpClient.exchange fuel req sock = (.ok res, t) ∧ closes res := by
  obtain ⟨res, t, hexchange, hsent⟩ | ⟨hnever, hsent⟩ := sendRequest_cases fuel req hsock
  · have honly : (∃ res t, Http.HttpClient.exchange fuel req sock = (.ok res, t) ∧ closes res) ↔
        closes res := by
      rw [hexchange]
      constructor
      · rintro ⟨_, _, ⟨⟩, hcloses⟩
        exact hcloses
      · exact fun hcloses => ⟨res, t, rfl, hcloses⟩
    rw [Action.bind_of_ok hsent, honly]
    obtain ⟨hcloses, hdone⟩ | ⟨hopens, hdone⟩ := (hk res).openSockets
      (c := { c with sock := some t }) rfl
    · refine iff_of_true ?_ hcloses
      dsimp only at hdone
      omega
    · refine iff_of_false ?_ hopens
      dsimp only at hdone
      omega
  · refine iff_of_false ?_ fun ⟨res, t, hexchange, _⟩ => hnever res t hexchange
    obtain ⟨f, c', hsent, hgrows⟩ | ⟨res, c', hsent, hgrows⟩ := hsent
    · rw [Action.bind_of_error hsent]
      dsimp only
      omega
    · rw [Action.bind_of_ok hsent]
      have hleft := (hk res).openSockets_ge c'
      omega

theorem closed_of_noSocket {connects : List ConnectResult}
    (h : ∀ result ∈ connects.head?, opened result = none) : Closed fuel req closes connects := by
  cases connects with
  | nil => trivial
  | cons result rest =>
    intro sock hsock
    cases (h result rfl).symm.trans hsock

/-- One socket is opened and closed again, or none is opened. -/
theorem openSockets_exchange_iff {α : Type} {k : Response → Action Http.HttpClient Fault α}
    (hk : ∀ res, Finishes (k res) (closes res)) (c : Http.HttpClient) :
    (((netClient fuel).connect >>= fun _ => (netClient fuel).sendRequest req >>= k) c).2.openSockets
      = c.openSockets ↔ Closed fuel req closes c.connects := by
  obtain hnone | ⟨result, rest, sock, hconnects, hsock⟩ := connects_cases c
  · obtain ⟨c', hthrown, hsame⟩ := connectServer_noSocket hnone
    have hconnect : (netClient fuel).connect c = _ := connect_of_thrown hthrown (by decide)
    rw [Action.bind_of_error hconnect]
    exact iff_of_true hsame (closed_of_noSocket hnone)
  · rw [hconnects, Closed, hsock]
    simp only [Option.some.injEq, forall_eq']
    obtain ⟨hreturns, hok⟩ | ⟨hthrows, e, hthrown⟩ := connect_opened hconnects hsock
    · have hconnect : (netClient fuel).connect c = _ := hok
      rw [Action.bind_of_ok hconnect, and_iff_right hreturns]
      refine Iff.trans ?_ (openSockets_afterConnect_iff hk (c := withSocket c sock rest) rfl
        (Nat.succ_pos _))
      exact Nat.succ_inj.symm
    · have hconnect : (netClient fuel).connect c = _ := hthrown
      rw [Action.bind_of_error hconnect]
      exact iff_of_false (Nat.succ_ne_self _) fun hclosed => hthrows hclosed.1

theorem openSockets_call_iff (authToken : Str) (c : Http.HttpClient) :
    ((TrackerClient.call (netClient fuel) req >>= fun _ => pure authToken) c).2.openSockets
      = c.openSockets ↔ Closed fuel req (fun res => res.status = .OK) c.connects := by
  rw [Action.bind_pure_state]
  exact openSockets_exchange_iff finishes_call c

/-- When a call closes what it opens. -/
theorem openSockets_run_iff (authToken : Str) (call : TrackerCall) (c : Http.HttpClient) :
    (call.run (netClient fuel) authToken c).2.openSockets = c.openSockets ↔
      Closed fuel (call.request authToken) call.Closes c.connects := by
  cases call with
  | signup uname passwd => exact openSockets_call_iff authToken c
  | login uname passwd => exact openSockets_exchange_iff finishes_login c
  | createGroup gid => exact openSockets_call_iff authToken c
  | joinGroup gid => exact openSockets_call_iff authToken c
  | leaveGroup gid => exact openSockets_call_iff authToken c
  | logout =>
    rw [TrackerCall.run, Action.bind_pure_state]
    exact openSockets_exchange_iff finishes_logout c
  | shareFile fname gid usAddr => exact openSockets_call_iff authToken c
  | getPeers fname gid usAddr =>
    rw [TrackerCall.run, Action.bind_pure_state]
    exact openSockets_exchange_iff finishes_getPeers c

theorem client_of_step {s t : ClientState} {call : TrackerCall}
    (h : ClientState.step fuel s call = some t) :
    t.client = (call.run (netClient fuel) s.authToken s.client).2 := by
  rw [ClientState.step] at h
  split at h
  · next hrun =>
    cases h
    rw [hrun]
  · next hrun =>
    cases h
    rw [hrun]
  · cases h

end Calls

/-! ## Runs -/

/-- The call opens no socket, or connects, gets its response without a retry and disconnects. -/
def ClientState.Closes (fuel : Nat) (s : ClientState) (call : TrackerCall) : Prop :=
  Closed fuel (call.request s.authToken) call.Closes s.client.connects

/-- The connections are balanced over a run exactly when every call of it closes its own. -/
theorem balanced_iff (fuel : Nat) (s : ClientState) (calls : List TrackerCall) :
    Balanced fuel s calls ↔
      Machine.AllSteps (ClientState.step fuel) (ClientState.Closes fuel) s calls := by
  have hstep {t u : ClientState} {call : TrackerCall} (ht : SameOpen s t)
      (hu : ClientState.step fuel t call = some u) : SameOpen s u ↔ t.Closes fuel call := by
    rw [SameOpen, client_of_step hu, ← ht]
    exact openSockets_run_iff t.authToken call t.client
  have hstart : SameOpen s s := rfl
  refine Machine.allStates_iff_allSteps (fun t ht => ht) ?_ ?_ hstart calls
  · intro t call u ht hcloses hu
    exact (hstep ht hu).mpr hcloses
  · intro t call u ht hopen hu hsame
    exact hopen ((hstep ht hu).mp hsame)

/-- The connection of a tracker that knows one peer. -/
def onePeerSocket : InetSocket :=
  { arrivals := [lit "HTTP/2.0 200 OK\r\nContent-Length: 9\r\n\r\n", lit "[\x7bann:7\x7d]"]
    ending := .silent, sends := [], wire := [], remoteAddr := .new }

/-- A list of peers that is received leaves its connection open. -/
theorem getPeers_stays_open : ¬ ∀ fuel s calls, Balanced fuel s calls := by
  intro hall
  let start : ClientState := ⟨[], ⟨none, [.connected onePeerSocket], 0⟩⟩
  have hbalanced := hall 8 start [.getPeers (lit "a") (lit "b") .new]
  have hopen : (ClientState.step 8 start (.getPeers (lit "a") (lit "b") .new)).map
      (·.client.openSockets) = some 1 := by decide +kernel
  obtain ⟨t, hstep, hone⟩ := Option.map_eq_some_iff.mp hopen
  have hzero := hbalanced.2 t hstep
  cases hone.symm.trans hzero

end P2PFileSharing.Peer
