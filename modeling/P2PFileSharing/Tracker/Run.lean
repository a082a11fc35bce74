import P2PFileSharing.Library.History
import P2PFileSharing.Tracker.Outcome
import P2PFileSharing.Tracker.System

/-!
# Steps of a run, taken apart

A request is refused, or its operation is performed; every operation goes one of the ways of its
relation. An invariant of runs needs one case for each of them.
-/

namespace P2PFileSharing.Tracker

open Http Library

/-! ## Operations -/

/-- The ways of all operations: the outcome, and what is there afterwards. -/
inductive Performed (order : AssignOrder) (s : Tracker) :
    Operation → Except ExnClass Response → Contents → Prop where
  | signup {uid pass r c}
    (h : Single s (.createUser uid pass) (ok "successful")
      (fun tables => { s.contents with tables }) r c) : Performed order s (.signup uid pass) r c
  | loginFails {uid passwd remoteAddr e c} (h : Login s uid passwd (.error e) c) :
    Performed order s (.login uid passwd remoteAddr) (.error e) c
  | loggedIn {uid passwd remoteAddr token c} (h : Login s uid passwd (.ok token) c) :
    Performed order s (.login uid passwd remoteAddr)
      (.ok ((ok "successful").addHeader (lit "Authorization") token))
      { c with address := c.address.insert uid remoteAddr }
  | logout {token} :
    Performed order s (.logout token) (.ok (ok "successful"))
      { s.contents with
        address := s.address.erase (tokentToUserid s.tokenMap token)
        tokenMap := s.tokenMap.erase token }
  | createGroup {uid gid r c} (h : CreateGroup s gid uid r c) :
    Performed order s (.createGroup uid gid) (r.map fun _ => ok "successful") c
  | joinGroup {uid gid r c} (h : Single s (.addMember uid gid) () (joined s uid gid) r c) :
    Performed order s (.joinGroup uid gid) (r.map fun _ => ok "successful") c
  | leaveGroup {uid gid r c} (h : LeaveGroup s uid gid r c) :
    Performed order s (.leaveGroup uid gid) (r.map fun _ => ok "successful") c
  | shareFile {uid gid fname serverAddr r c} (h : ShareFile order s uid gid fname serverAddr r c) :
    Performed order s (.shareFile uid gid fname serverAddr) r c
  | peers {uid gid fname serverAddr r c} (h : Peers order s uid gid fname serverAddr r c) :
    Performed order s (.peers uid gid fname serverAddr) r c

theorem performed (order : AssignOrder) (s : Tracker) (op : Operation) :
    Performed order s op (op.perform order s).1 (op.perform order s).2.contents := by
  cases op with
  | signup uid pass => exact .signup (signup_cases s order uid pass)
  | login uid passwd remoteAddr =>
    have h := login_cases s uid passwd
    rcases hrun : login uid passwd s with ⟨e | token, t⟩
    · rw [hrun] at h
      rw [Operation.perform, Action.bind_of_error hrun]
      exact .loginFails h
    · rw [hrun] at h
      rw [Operation.perform, Action.bind_of_ok hrun]
      exact .loggedIn h
  | logout token => exact .logout
  | createGroup uid gid =>
    rw [Operation.perform, done_run]
    exact .createGroup (createGroup_cases s gid uid)
  | joinGroup uid gid =>
    rw [Operation.perform, done_run]
    exact .joinGroup (joinGroup_cases s uid gid)
  | leaveGroup uid gid =>
    rw [Operation.perform, done_run]
    exact .leaveGroup (leaveGroup_cases s uid gid)
  | shareFile uid gid fname serverAddr =>
    exact .shareFile (shareFile_cases order s uid gid fname serverAddr)
  | peers uid gid fname serverAddr => exact .peers (peers_cases order s uid gid fname serverAddr)

/-! ## The tables of the groups -/

section SameGroups

variable {s : Tracker} {uid : Str}

/-- The groups and their members stay. -/
def SameGroups (tables tables' : Tables) : Prop :=
  tables'.group = tables.group ∧ tables'.member = tables.member

theorem SameGroups.trans {tables tables' tables'' : Tables} (h : SameGroups tables tables')
    (h' : SameGroups tables' tables'') : SameGroups tables tables'' :=
  ⟨h'.1.trans h.1, h'.2.trans h.2⟩

theorem sameGroups_inserted {clash : Row → Row → Prop} [DecidableRel clash] {tables : Tables}
    {table : Table clash} {row : Row} {put : Table clash → Tables}
    (hput : ∀ t, SameGroups tables (put t)) :
    SameGroups tables (inserted tables table row put).2 := by
  rw [inserted]
  split
  · exact hput _
  · exact ⟨rfl, rfl⟩

theorem sameGroups_of_reply (hreg : s.db.Regular) {k : Nat} {st : Statement}
    {tables tables' : Tables} {r : Except ExnClass (List Row)}
    (h : s.db.reply k st tables = (r, tables')) (hst : SameGroups tables (st.plain tables).2) :
    SameGroups tables tables' := by
  rcases hreg.later k with hplain | hfails
  · rw [Database.reply_of_plain hplain] at h
    cases h
    exact hst
  · rw [Database.reply_of_fails hfails] at h
    cases h
    exact ⟨rfl, rfl⟩

theorem NoToken.sameGroups {passwd : Str} {tables : Tables} (h : s.NoToken uid passwd tables)
    (hreg : s.db.Regular) : SameGroups s.db.tables tables := by
  obtain ⟨rows, tables0, h0, -, ⟨e, h1⟩ | h1⟩ := h
  · exact (sameGroups_of_reply hreg h0 ⟨rfl, rfl⟩).trans (sameGroups_of_reply hreg h1 ⟨rfl, rfl⟩)
  · exact (sameGroups_of_reply hreg h0 ⟨rfl, rfl⟩).trans (sameGroups_of_reply hreg h1 ⟨rfl, rfl⟩)

theorem Login.sameGroups {passwd : Str} {r : Except ExnClass Str} {c : Contents}
    (h : Login s uid passwd r c) (hreg : s.db.Regular) :
    c.groups = s.groups ∧ SameGroups s.db.tables c.tables := by
  have hinsert (tables : Tables) : SameGroups tables
      ((Statement.insertToken (generateToken uid passwd) uid).plain tables).2 :=
    sameGroups_inserted fun _ => ⟨rfl, rfl⟩
  cases h with
  | userFails h0 => exact ⟨rfl, sameGroups_of_reply hreg h0 ⟨rfl, rfl⟩⟩
  | refused h0 hrows => exact ⟨rfl, sameGroups_of_reply hreg h0 ⟨rfl, rfl⟩⟩
  | found h0 hrows h1 =>
    exact ⟨rfl, (sameGroups_of_reply hreg h0 ⟨rfl, rfl⟩).trans
      (sameGroups_of_reply hreg h1 ⟨rfl, rfl⟩)⟩
  | tokenFails hno h2 =>
    exact ⟨rfl, (hno.sameGroups hreg).trans (sameGroups_of_reply hreg h2 (hinsert _))⟩
  | issued hno h2 =>
    exact ⟨rfl, (hno.sameGroups hreg).trans (sameGroups_of_reply hreg h2 (hinsert _))⟩

end SameGroups

/-! ## Answers -/

/-- The answers to requests that are refused. -/
def refusals : List Response :=
  [badRequest "user id missing", badRequest "token missing", badRequest "missing group id",
    badRequest "header missing", .new .UNAUTHORIZED (lit "invalid token"),
    .new .NOT_FOUND (lit "resource not found"), .new .METHOD_NOT_ALLOWED (lit "method not allowed")]

section Refusals

variable {tokenMap : OrdMap Str Str} {req : Request} {remoteAddr : SockAddr}
  {missing res : Response}

theorem need_error {key : String} (h : need req missing key = .error res) : res = missing := by
  rw [need] at h
  split at h
  · cases h
  · cases h
    rfl

theorem bind_error {ε α β : Type} {x : Except ε α} {f : α → Except ε β} {e : ε}
    (h : (x >>= f) = .error e) : x = .error e ∨ ∃ a, x = .ok a ∧ f a = .error e := by
  cases x with
  | error e' =>
    cases h
    exact .inl rfl
  | ok a => exact .inr ⟨a, rfl, h⟩

theorem needToken_error (h : needToken tokenMap req missing = .error res) :
    res = missing ∨ res = .new .UNAUTHORIZED (lit "invalid token") := by
  rcases bind_error h with h | ⟨token, -, h⟩
  · exact .inl (need_error h)
  · split at h
    · cases h
      exact .inr rfl
    · cases h

theorem needGroup_error (h : needGroup tokenMap req missing = .error res) :
    res = missing ∨ res = .new .UNAUTHORIZED (lit "invalid token") := by
  rcases bind_error h with h | ⟨⟨token, uid⟩, -, h⟩
  · exact needToken_error h
  · rcases bind_error h with h | ⟨gid, -, ⟨⟩⟩
    exact .inl (need_error h)

theorem needFile_error {op : Str → Str → Str → Str → Operation}
    (h : needFile tokenMap req missing op = .error res) :
    res = missing ∨ res = .new .UNAUTHORIZED (lit "invalid token") := by
  rcases bind_error h with h | ⟨⟨uid, gid⟩, -, h⟩
  · exact needGroup_error h
  · rcases bind_error h with h | ⟨fname, -, h⟩
    · exact .inl (need_error h)
    · rcases bind_error h with h | ⟨serverAddr, -, ⟨⟩⟩
      exact .inl (need_error h)

/-- A request is refused with one of seven answers. -/
theorem mem_refusals (h : classify tokenMap req remoteAddr = .error res) : res ∈ refusals := by
  have hcred {k : Str → Str → Operation}
      (h : (need req (badRequest "user id missing") "Username" >>= fun uid =>
        need req (badRequest "user id missing") "Password" >>= fun pass => .ok (k uid pass)) =
          .error res) : res ∈ refusals := by
    rcases bind_error h with h | ⟨uid, -, h⟩
    · simp [need_error h, refusals]
    · rcases bind_error h with h | ⟨pass, -, ⟨⟩⟩
      simp [need_error h, refusals]
  have hgroup {missing : Response} {k : Str × Str → Operation} (hmissing : missing ∈ refusals)
      (h : (needGroup tokenMap req missing >>= fun p => .ok (k p)) = .error res) :
      res ∈ refusals := by
    rcases bind_error h with h | ⟨p, -, ⟨⟩⟩
    rcases needGroup_error h with rfl | rfl
    · exact hmissing
    · simp [refusals]
  have hfile {op : Str → Str → Str → Str → Operation}
      (h : needFile tokenMap req (badRequest "header missing") op = .error res) :
      res ∈ refusals := by
    rcases needFile_error h with rfl | rfl <;> simp [refusals]
  unfold classify at h
  split at h
  · split_ifs at h
    · exact hfile h
    · cases h
      simp [refusals]
  · unfold classifyPost at h
    split_ifs at h
    · exact hcred h
    · exact hcred h
    · rcases bind_error h with h | ⟨p, -, ⟨⟩⟩
      rcases needToken_error h with rfl | rfl <;> simp [refusals]
    · exact hgroup (by simp [refusals]) h
    · exact hgroup (by simp [refusals]) h
    · exact hgroup (by simp [refusals]) h
    · exact hfile h
    · cases h
      simp [refusals]
  · cases h
    simp [refusals]

end Refusals

theorem refusals_status : ∀ res ∈ refusals, res.status ≠ .OK := by decide

/-- The handlers of the endpoints. -/
def endpointHandlers : List (List (ExnClass × Response)) :=
  [signupHandlers, loginHandlers, logoutHandlers, createGroupHandlers, joinGroupHandlers,
    leaveGroupHandlers, shareFileHandlers, peersHandlers]

theorem mem_endpointHandlers (op : Operation) : op.handlers ∈ endpointHandlers := by
  cases op <;> simp [Operation.handlers, endpointHandlers]

theorem handlers_status (op : Operation) : ∀ h ∈ op.handlers, h.2.status ≠ .OK := by
  have hall : ∀ hs ∈ endpointHandlers, ∀ h ∈ hs, h.2.status ≠ .OK := by decide
  exact hall _ (mem_endpointHandlers op)

/-- What an operation throws is not answered OK. -/
theorem answered_ok {op : Operation} {r : Except ExnClass Response} {res : Response}
    (h : answered op.handlers r = .ok res) (hok : res.status = .OK) : r = .ok res := by
  cases r with
  | ok res' => exact h
  | error e =>
    exfalso
    rw [answered] at h
    cases hhandler : handlerFor op.handlers e with
    | some res' =>
      obtain ⟨c, hc, -⟩ := exists_of_handlerFor hhandler
      rw [hhandler] at h
      cases h
      exact handlers_status op _ hc hok
    | none =>
      rw [hhandler] at h
      dsimp only at h
      split at h
      · cases h
        exact absurd hok (by decide)
      · cases h

/-- The answers that are the same for every request. -/
def fixedAnswers : List Response :=
  refusals ++ (endpointHandlers.flatMap fun hs => hs.map Prod.snd) ++
    [ok "successful", ok "file name entry added",
      .new .FORBIDDEN (lit "user not part of group or no such group"),
      .new .INTERNAL_SERVER_ERROR (lit "server error")]

/-- The answer to a login. -/
def granting (token : Str) : Response := (ok "successful").addHeader (lit "Authorization") token

/-- What an operation returns: one of the fixed answers, the token of a login, or a list of
peers. -/
theorem perform_answers {order : AssignOrder} {s : Tracker} {op : Operation} {res : Response}
    (hres : (op.perform order s).1 = .ok res) :
    res ∈ fixedAnswers ∨
    (∃ uid passwd addr token c, op = .login uid passwd addr ∧ Login s uid passwd (.ok token) c ∧
      c.tables = (op.perform order s).2.contents.tables ∧ res = granting token) ∨
    ∃ uid gid fname serverAddr peers,
      op = .peers uid gid fname serverAddr ∧ res = listing peers := by
  have hfixed : ok "successful" ∈ fixedAnswers ∧ ok "file name entry added" ∈ fixedAnswers ∧
      Response.new .FORBIDDEN (lit "user not part of group or no such group") ∈ fixedAnswers := by
    decide +kernel
  -- an operation that returns nothing of its own has a fixed answer
  have done {r : Except ExnClass Unit} (h : .ok res = r.map fun _ => ok "successful") :
      res ∈ fixedAnswers := by
    cases r with
    | error e => cases h
    | ok _ =>
      cases h
      exact hfixed.1
  have h := performed order s op
  rw [hres] at h
  generalize hr : (Except.ok res : Except ExnClass Response) = r at h
  generalize (op.perform order s).2.contents = c at h ⊢
  cases h with
  | signup h =>
    cases h with
    | fails h0 => cases hr
    | done h0 =>
      cases hr
      exact .inl hfixed.1
  | loginFails h => cases hr
  | loggedIn h =>
    cases hr
    exact .inr (.inl ⟨_, _, _, _, _, rfl, h, rfl, rfl⟩)
  | logout =>
    cases hr
    exact .inl hfixed.1
  | createGroup h => exact .inl (done hr)
  | joinGroup h => exact .inl (done hr)
  | leaveGroup h => exact .inl (done hr)
  | shareFile h =>
    cases h with
    | shared hg hu hf hn =>
      cases hr
      exact .inl hfixed.2.1
    | _ => cases hr
  | peers h =>
    cases h with
    | noMember hn hno =>
      cases hr
      exact .inl hfixed.2.2
    | listed hn hg hu hf hother =>
      cases hr
      exact .inr (.inr ⟨_, _, _, _, _, rfl, rfl⟩)
    | _ => cases hr

/-- The outcome of an operation is an answer with OK. -/
def isOk : Except ExnClass Response → Bool
  | .ok res => res.status = .OK
  | .error _ => false

/-- `callback` answers OK. -/
def AnswersOk (order : AssignOrder) (req : Request) (remoteAddr : SockAddr) (s : Tracker) : Prop :=
  ∃ res, (callback order req remoteAddr s).1 = .ok res ∧ res.status = .OK

instance (order : AssignOrder) (req : Request) (remoteAddr : SockAddr) (s : Tracker) :
    Decidable (AnswersOk order req remoteAddr s) :=
  match h : (callback order req remoteAddr s).1 with
  | .ok res => decidable_of_iff (res.status = .OK) (by simp [AnswersOk, h])
  | .error e => .isFalse (by simp [AnswersOk, h])

/-- An answer with OK is what an operation has returned. -/
theorem exists_perform_of_ok {order : AssignOrder} {req : Request} {remoteAddr : SockAddr}
    {s : Tracker} {res : Response} (hres : (callback order req remoteAddr s).1 = .ok res)
    (hok : res.status = .OK) :
    ∃ op, classify s.tokenMap req remoteAddr = .ok op ∧ (op.perform order s).1 = .ok res := by
  rw [callback_eq] at hres
  cases hc : classify s.tokenMap req remoteAddr with
  | error res' =>
    rw [hc] at hres
    cases hres
    exact absurd hok (refusals_status res (mem_refusals hc))
  | ok op =>
    rw [hc] at hres
    exact ⟨op, rfl, answered_ok hres hok⟩

/-- A request is answered OK exactly when its operation returns and answers OK. -/
theorem answersOk_iff {order : AssignOrder} {req : Request} {remoteAddr : SockAddr} {s : Tracker} :
    AnswersOk order req remoteAddr s ↔ ∃ op res, classify s.tokenMap req remoteAddr = .ok op ∧
      (op.perform order s).1 = .ok res ∧ res.status = .OK := by
  constructor
  · rintro ⟨res, hres, hok⟩
    obtain ⟨op, hc, hperform⟩ := exists_perform_of_ok hres hok
    exact ⟨op, res, hc, hperform, hok⟩
  · rintro ⟨op, res, hc, hres, hok⟩
    refine ⟨res, ?_, hok⟩
    rw [callback_eq, hc, react, Operation.respond, hres, answered]

theorem answersOk_iff_of_classify {order : AssignOrder} {req : Request} {remoteAddr : SockAddr}
    {s : Tracker} {op : Operation} (hc : classify s.tokenMap req remoteAddr = .ok op) :
    AnswersOk order req remoteAddr s ↔ isOk (op.perform order s).1 = true := by
  rw [answersOk_iff, hc]
  constructor
  · rintro ⟨_, res, ⟨⟩, hres, hok⟩
    simp [hres, isOk, hok]
  · intro h
    rcases hres : (op.perform order s).1 with e | res
    · simp [hres, isOk] at h
    · exact ⟨op, res, rfl, hres, by simpa [hres, isOk] using h⟩

/-! ## Steps -/

namespace System

/-- What one step does. -/
inductive Step (order : AssignOrder) : System → Event → System → Prop where
  | refused {s req remoteAddr res} (hc : classify s.tokenMap req remoteAddr = .error res) :
    Step order (.up s) (.request req remoteAddr) (.up s)
  | performed {s req remoteAddr op} (hc : classify s.tokenMap req remoteAddr = .ok op) :
    Step order (.up s) (.request req remoteAddr) (settle (op.respond order s))
  | started {sys} : Step order sys .restart (settle (start sys.db))

theorem step_cases {order : AssignOrder} {sys sys' : System} {event : Event}
    (h : step order sys event = some sys') : Step order sys event sys' := by
  cases event with
  | restart =>
    rw [step_restart] at h
    cases h
    exact .started
  | request req remoteAddr =>
    cases sys with
    | down db => cases h
    | up s =>
      cases h
      rw [callback_eq]
      cases hc : classify s.tokenMap req remoteAddr with
      | error res => exact .refused hc
      | ok op => exact .performed hc

/-- The entries of a log in which every operation that is answered OK leaves its own. -/
def record {δ : Type} (order : AssignOrder) (entries : Tracker → Operation → List δ) :
    System → Event → List δ
  | .up s, .request req remoteAddr =>
    match classify s.tokenMap req remoteAddr with
    | .ok op => if AnswersOk order req remoteAddr s then entries s op else []
    | .error _ => []
  | _, _ => []

section Record

variable {δ : Type} {order : AssignOrder} {entries : Tracker → Operation → List δ} {s : Tracker}
  {req : Request} {remoteAddr : SockAddr}

theorem record_refused {res : Response} (hc : classify s.tokenMap req remoteAddr = .error res) :
    record order entries (.up s) (.request req remoteAddr) = [] := by
  rw [record, hc]

theorem record_performed {op : Operation} (hc : classify s.tokenMap req remoteAddr = .ok op) :
    record order entries (.up s) (.request req remoteAddr) =
      if isOk (op.perform order s).1 then entries s op else [] := by
  rw [record, hc]
  exact if_congr (answersOk_iff_of_classify hc) rfl rfl

theorem record_restart {sys : System} : record order entries sys .restart = [] := by
  cases sys <;> rfl

end Record

/-- `P` holds of what the process holds, or `Q` of the tables where there is none. -/
def Holds (P : Contents → Prop) (Q : Tables → Prop) : System → Prop
  | up s => P s.contents
  | down db => Q db.tables

section Holds

variable {P P' : Contents → Prop} {Q Q' : Tables → Prop} {order : AssignOrder} {sys sys' : System}
  {event : Event}

theorem holds_settle {α : Type} {r : Except ExnClass α × Tracker} (hP : P r.2.contents)
    (hQ : Q r.2.contents.tables) : Holds P Q (settle r) := by
  obtain ⟨e | a, t⟩ := r
  · exact hQ
  · exact hP

theorem Holds.tables (h : Holds P Q sys) (weaken : ∀ c, P c → Q c.tables) : Q sys.db.tables := by
  cases sys with
  | up s => exact weaken _ h
  | down db => exact h

/-- A start of the process makes everything of the tables, which stay the same. -/
theorem holds_start {db : Database} (hreg : db.Regular) (hP : P (loaded db.tables))
    (hQ : Q db.tables) : Holds P Q (settle (start db)) := by
  have h := start_cases hreg
  rcases hrun : start db with ⟨r, t⟩
  rw [hrun] at h
  dsimp only at h
  generalize hc : t.contents = c at h
  cases h with
  | fails hk htables =>
    change Q t.contents.tables
    rwa [hc, htables]
  | loaded =>
    change P t.contents
    rwa [hc]

/-- What a step makes of a property: one case for a request that is refused, one for an operation,
one for a start. -/
theorem Holds.step (h : Holds P Q sys) (hreg : sys.db.Regular)
    (weaken : ∀ c, P c → Q c.tables) (weaken' : ∀ c, P' c → Q' c.tables)
    (refused : ∀ s req remoteAddr res, sys = .up s → event = .request req remoteAddr →
      classify s.tokenMap req remoteAddr = .error res → P s.contents → P' s.contents)
    (performed : ∀ s req remoteAddr op, sys = .up s → event = .request req remoteAddr →
      classify s.tokenMap req remoteAddr = .ok op → P s.contents →
        P' (op.perform order s).2.contents)
    (started : event = .restart → ∀ tables, Q tables → P' (loaded tables))
    (hstep : System.step order sys event = some sys') : Holds P' Q' sys' := by
  cases step_cases hstep with
  | refused hc => exact refused _ _ _ _ rfl rfl hc h
  | performed hc =>
    have hP' := performed _ _ _ _ rfl rfl hc h
    exact holds_settle hP' (weaken' _ hP')
  | started =>
    have hP' := started rfl _ (h.tables weaken)
    exact holds_start hreg hP' (weaken' _ hP')

end Holds

end System

end P2PFileSharing.Tracker
