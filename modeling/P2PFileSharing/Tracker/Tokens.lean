import P2PFileSharing.Tracker.Logout
import P2PFileSharing.Tracker.Run

/-!
# Who a token belongs to

A token is the name and the password of its user run together, so different users can come to the
same token. The token table refuses the second one: it keeps a token with its first user for good,
and the second user cannot log in.
-/

namespace P2PFileSharing.Tracker

open Http Library

/-! ## The answer to a login -/

section Login

variable {s t : Tracker} {uid passwd token : Str} {r : Except ExnClass Str} {c : Contents}

/-- A login that returns a token has given it to the user. -/
theorem Login.granted (h : Login s uid passwd (.ok token) c) :
    c.tokenMap = s.tokenMap.insert token uid := by
  cases h <;> rfl

/-- The user has a token in the table, or nobody has the one that he would be given. -/
def TokenFree (tables : Tables) (uid passwd : Str) : Prop :=
  (∃ row ∈ tables.token, row.2 = uid) ∨ ∀ row ∈ tables.token, row.1 ≠ generateToken uid passwd

instance (tables : Tables) (uid passwd : Str) : Decidable (TokenFree tables uid passwd) :=
  inferInstanceAs (Decidable ((∃ row ∈ tables.token.rows, row.2 = uid) ∨
    ∀ row ∈ tables.token.rows, row.1 ≠ generateToken uid passwd))

/-- The rows of a user are those that name him with his password. -/
theorem wrongPassword_iff (tables : Tables) (uid passwd : Str) :
    WrongPassword passwd (tables.user.rows.filter (fun r => r.1 = uid)) ↔
      (uid, passwd) ∉ tables.user := by
  constructor
  · intro hwrong hin
    have hmem : (uid, passwd) ∈ tables.user.rows.filter (fun r => r.1 = uid) := by
      simpa using Table.mem_def.mp hin
    obtain ⟨row, hrow⟩ := Option.isSome_iff_exists.mp
      (List.isSome_head?.mpr (List.ne_nil_of_mem hmem))
    obtain ⟨hrows, huid⟩ := List.mem_filter.mp (List.mem_of_mem_head? hrow)
    have hsame : row = (uid, passwd) :=
      Table.eq_of_clash (fun _ _ => Eq.symm) hrows hin (of_decide_eq_true huid)
    exact hwrong row hrow (by rw [hsame])
  · rintro hno row hrow rfl
    obtain ⟨hrows, huid⟩ := List.mem_filter.mp (List.mem_of_mem_head? hrow)
    rw [← of_decide_eq_true huid] at hno
    exact hno hrows

/-- Where the statements are taken plainly, no token is found only for a user with this password who
has none. -/
theorem NoToken.plain {tables : Tables} (hno : s.NoToken uid passwd tables)
    (hnil : s.db.script = []) : tables = s.db.tables ∧
      (uid, passwd) ∈ s.db.tables.user ∧ ∀ row ∈ s.db.tables.token, row.2 ≠ uid := by
  have hplain := plain_of_nil hnil
  obtain ⟨rows, tables0, h0, hpass, h1⟩ := hno
  obtain ⟨hrows, rfl⟩ := Database.rows_of_reply (hplain 0) rfl h0
  cases hrows
  rw [wrongPassword_iff, not_not] at hpass
  rcases h1 with ⟨e, h1⟩ | h1
  · cases (Database.rows_of_reply (hplain 1) rfl h1).1
  · obtain ⟨hrows, rfl⟩ := Database.rows_of_reply (hplain 1) rfl h1
    refine ⟨rfl, hpass, fun row hrow huid => ?_⟩
    have hmem : row ∈ s.db.tables.token.rows.filter (fun r => r.2 = uid) := by
      simpa [huid] using Table.mem_def.mp hrow
    rw [← Except.ok.inj hrows] at hmem
    cases hmem

/-- Where every statement is taken plainly, a login returns a token exactly to a user with this
password who has a token already or can be given one. -/
theorem login_ok_iff (hnil : s.db.script = []) : (∃ token, (login uid passwd s).1 = .ok token) ↔
    (uid, passwd) ∈ s.db.tables.user ∧ TokenFree s.db.tables uid passwd := by
  have hplain := plain_of_nil hnil
  have h := login_cases s uid passwd
  generalize (login uid passwd s).1 = r at h ⊢
  generalize (login uid passwd s).2.contents = c at h
  cases h with
  | userFails h0 => cases (Database.rows_of_reply (hplain 0) rfl h0).1
  | refused h0 hrows =>
    cases (Database.rows_of_reply (hplain 0) rfl h0).1
    rw [wrongPassword_iff] at hrows
    simp [hrows]
  | @found rows row rest tables tables' h0 hrows h1 =>
    obtain ⟨hr, rfl⟩ := Database.rows_of_reply (hplain 0) rfl h0
    cases hr
    rw [wrongPassword_iff, not_not] at hrows
    have hr := Except.ok.inj (Database.rows_of_reply (hplain 1) rfl h1).1
    have hmem : row ∈ s.db.tables.token.rows.filter (fun r => r.2 = uid) := by
      rw [← hr]
      exact List.mem_cons_self
    obtain ⟨hrow, huid⟩ := List.mem_filter.mp hmem
    exact iff_of_true ⟨_, rfl⟩ ⟨hrows, .inl ⟨row, hrow, of_decide_eq_true huid⟩⟩
  | tokenFails hno h2 =>
    obtain ⟨rfl, -, hnone⟩ := hno.plain hnil
    obtain ⟨⟨row, hrow, hclash⟩, -⟩ := Database.clash_of_reply (hplain 2) rfl h2
    have htaken : row.1 = generateToken uid passwd := hclash.resolve_right (hnone row hrow)
    refine iff_of_false (by simp) ?_
    rintro ⟨-, ⟨row', hrow', huid⟩ | hfree⟩
    · exact hnone row' hrow' huid
    · exact hfree row hrow htaken
  | issued hno h2 =>
    obtain ⟨rfl, huser, hnone⟩ := hno.plain hnil
    obtain ⟨table, hins, -⟩ := Database.inserted_of_reply (hplain 2) rfl h2
    refine iff_of_true ⟨_, rfl⟩ ⟨huser, .inr fun row hrow htaken => ?_⟩
    exact (Table.insert_eq_some.mp hins).1 row hrow (.inl htaken)

end Login

/-! ## Requests with a name and a password -/

/-- A request to `resource` that brings a name and a password. -/
structure Credentials (resource : String) (req : Request) (uid passwd : Str) : Prop where
  method : req.method = .POST
  resource : req.resource = lit resource
  username : req.getHeader (lit "Username") = .ok uid
  password : req.getHeader (lit "Password") = .ok passwd

/-- A sign-up that is answered OK. -/
def SignsUp (order : AssignOrder) (uid passwd : Str) (req : Request) (remoteAddr : SockAddr)
    (s t : Tracker) : Prop :=
  Credentials "/signup" req uid passwd ∧
    ∃ res, callback order req remoteAddr s = (.ok res, t) ∧ res.status = .OK

/-- The request is answered OK with a token that belongs to the user. -/
def LogsIn (order : AssignOrder) (uid : Str) (req : Request) (remoteAddr : SockAddr) (s : Tracker) :
    Prop :=
  ∃ res t, callback order req remoteAddr s = (.ok res, t) ∧ res.status = .OK ∧
    ∃ token, res.getHeader (lit "Authorization") = .ok token ∧ t.tokenMap.find? token = some uid

/-- The request is a login of the user that returns the token. -/
def Issues (order : AssignOrder) (token uid : Str) (sys : System) (event : Event) : Prop :=
  Grants order token sys event ∧ ∃ req remoteAddr, event = .request req remoteAddr ∧
    req.getHeader (lit "Username") = .ok uid

section Credentials

variable {order : AssignOrder} {tokenMap : OrdMap Str Str} {req : Request} {uid passwd token : Str}
  {remoteAddr : SockAddr} {s t : Tracker} {op : Operation} {sys sys' : System} {event : Event}

theorem need_of_getHeader {key : String} {value : Str} (h : req.getHeader (lit key) = .ok value)
    (missing : Response) : need req missing key = .ok value := by
  rw [need, h]

theorem Credentials.classify_signup (h : Credentials "/signup" req uid passwd) :
    classify tokenMap req remoteAddr = .ok (.signup uid passwd) := by
  rw [classify, h.method]
  simp +decide only [classifyPost, h.resource, if_true, need_of_getHeader h.username,
    need_of_getHeader h.password]
  rfl

theorem Credentials.classify_login (h : Credentials "/login" req uid passwd) :
    classify tokenMap req remoteAddr = .ok (.login uid passwd remoteAddr) := by
  rw [classify, h.method]
  simp +decide only [classifyPost, h.resource, if_true, if_false, need_of_getHeader h.username,
    need_of_getHeader h.password]
  rfl

/-- A login request that is not refused is a login of the user that it names. -/
theorem login_of_classify (hm : req.method = .POST) (hr : req.resource = lit "/login")
    (huid : req.getHeader (lit "Username") = .ok uid)
    (h : classify tokenMap req remoteAddr = .ok op) :
    ∃ passwd, op = .login uid passwd remoteAddr := by
  rw [classify, hm] at h
  simp +decide only [classifyPost, hr, if_true, if_false, need_of_getHeader huid] at h
  obtain ⟨_, ⟨⟩, h⟩ := exists_of_bind_eq_ok h
  obtain ⟨passwd, -, ⟨⟩⟩ := exists_of_bind_eq_ok h
  exact ⟨passwd, rfl⟩

/-- A login that is answered OK carries the token, and the token is the user's. -/
theorem perform_login_ok {res : Response} (hres : (Operation.perform order
      (.login uid passwd remoteAddr) s).1 = .ok res) :
    ∃ token, res = (ok "successful").addHeader (lit "Authorization") token ∧
      (login uid passwd s).1 = .ok token ∧
        ((Operation.login uid passwd remoteAddr).perform order s).2.tokenMap.find? token =
          some uid := by
  have h := login_cases s uid passwd
  rw [Operation.perform] at hres ⊢
  rcases hrun : login uid passwd s with ⟨e | token, t⟩
  · rw [Action.bind_of_error hrun] at hres
    cases hres
  · rw [hrun] at h
    rw [Action.bind_of_ok hrun] at hres ⊢
    cases hres
    refine ⟨token, rfl, rfl, ?_⟩
    have hmap : t.tokenMap = s.tokenMap.insert token uid := h.granted
    change t.tokenMap.find? token = some uid
    rw [hmap, OrdMap.find?_insert_self]

theorem Credentials.logsIn_iff (h : Credentials "/login" req uid passwd) :
    LogsIn order uid req remoteAddr s ↔ ∃ token, (login uid passwd s).1 = .ok token := by
  rw [LogsIn, callback_eq, h.classify_login, react]
  constructor
  · rintro ⟨res, t, hrun, hok, -⟩
    obtain ⟨token, -, htoken, -⟩ := perform_login_ok (answered_ok (congrArg Prod.fst hrun) hok)
    exact ⟨token, htoken⟩
  · rintro ⟨token, htoken⟩
    have hres : ((Operation.login uid passwd remoteAddr).perform order s).1 =
        .ok ((ok "successful").addHeader (lit "Authorization") token) := by
      rw [Operation.perform, Action.bind_of_ok (Prod.ext htoken rfl)]
      rfl
    obtain ⟨token', -, htoken', hmap⟩ := perform_login_ok hres
    rw [htoken] at htoken'
    cases htoken'
    refine ⟨_, _, by rw [Operation.respond, hres, answered], rfl, token, ?_, hmap⟩
    simp [Response.getHeader, Response.addHeader]

/-- Whoever has been signed up is in the table. -/
theorem SignsUp.user (h : SignsUp order uid passwd req remoteAddr s t) (hnil : s.db.script = []) :
    (uid, passwd) ∈ t.db.tables.user ∧ t.db.script = [] := by
  obtain ⟨hcred, res, hrun, hok⟩ := h
  have hdb := callback_via exec_consumes order req remoteAddr s
  rw [hrun] at hdb
  rw [callback_eq, hcred.classify_signup, react] at hrun
  have hres := answered_ok (congrArg Prod.fst hrun) hok
  obtain rfl : ((Operation.signup uid passwd).perform order s).2 = t := congrArg Prod.snd hrun
  refine ⟨?_, hdb.nil hnil⟩
  have hsignup := signup_cases s order uid passwd
  rw [hres] at hsignup
  change (uid, passwd) ∈ ((Operation.signup uid passwd).perform order s).2.contents.tables.user
  generalize ((Operation.signup uid passwd).perform order s).2.contents = c at hsignup ⊢
  cases hsignup with
  | done h0 =>
    obtain ⟨table, hins, rfl⟩ := Database.inserted_of_reply (plain_of_nil hnil 0) rfl h0
    exact (Table.mem_of_insert hins).mpr (.inr rfl)

/-- The token that is issued belongs to the user. -/
theorem Issues.known (h : Issues order token uid sys event)
    (hstep : System.step order sys event = some sys') :
    ∃ s, sys' = .up s ∧ s.tokenMap.find? token = some uid := by
  obtain ⟨hgrants, req, remoteAddr, rfl, huid⟩ := h
  cases sys with
  | down db => exact absurd hgrants (fun h => h)
  | up s =>
    obtain ⟨hm, hr, res, t, hrun, hok, htoken⟩ := hgrants
    cases hstep
    refine ⟨t, by rw [hrun]; rfl, ?_⟩
    rw [callback_eq] at hrun
    cases hc : classify s.tokenMap req remoteAddr with
    | error res' =>
      rw [hc] at hrun
      cases hrun
      exact absurd hok (refusals_status _ (mem_refusals hc))
    | ok op =>
      obtain ⟨passwd, rfl⟩ := login_of_classify hm hr huid hc
      rw [hc, react] at hrun
      obtain ⟨token', rfl, -, hmap⟩ := perform_login_ok (answered_ok (congrArg Prod.fst hrun) hok)
      obtain rfl : token' = token := by
        simpa [Response.getHeader, Response.addHeader] using htoken
      rwa [← show _ = t from congrArg Prod.snd hrun]

end Credentials

/-! ## The token map and the token table -/

/-- Every token of the map is in the table, with the same user. -/
def TokensHeld (c : Contents) : Prop :=
  ∀ token uid, c.tokenMap.find? token = some uid → (token, uid) ∈ c.tables.token

/-- The process gives the token to nobody but this user. -/
def KeptBy (token uid : Str) : System → Prop
  | .up s => ∀ uid', s.tokenMap.find? token = some uid' → uid' = uid
  | .down _ => True

/-- What every run keeps from the first process on. -/
structure TokensKept (sys : System) : Prop where
  regular : sys.db.Regular
  held : sys.Holds TokensHeld (fun _ => True)

section Held

variable {order : AssignOrder} {s : Tracker} {sys sys' : System} {event : Event} {token uid : Str}

/-- Token and user determine each other. -/
theorem token_fst_iff_snd (tables : Tables) {a b : Row} (ha : a ∈ tables.token)
    (hb : b ∈ tables.token) : a.1 = b.1 ↔ a.2 = b.2 := by
  have symm (a b : Row) : SameTokenOrUid a b → SameTokenOrUid b a := Or.imp Eq.symm Eq.symm
  constructor
  · intro h
    rw [Table.eq_of_clash symm ha hb (.inl h)]
  · intro h
    rw [Table.eq_of_clash symm ha hb (.inr h)]

/-- A login gives out what is in the table. -/
theorem Login.held {passwd : Str} {c : Contents} (h : Login s uid passwd (.ok token) c)
    (hreg : s.db.Regular) : (token, uid) ∈ c.tables.token := by
  cases h with
  | @found rows row rest tables tables' h0 hrows h1 =>
    obtain ⟨hr, rfl⟩ := Database.rows_of_reply (hreg.plain_of_ok h1) rfl h1
    have hmem : row ∈ tables'.token.rows.filter (fun r => r.2 = uid) := by
      rw [← Except.ok.inj hr]
      exact List.mem_cons_self
    obtain ⟨hrow, huid⟩ := List.mem_filter.mp hmem
    rwa [← of_decide_eq_true huid]
  | issued hno h2 =>
    obtain ⟨table, hins, rfl⟩ := Database.inserted_of_reply (hreg.plain_of_ok h2) rfl h2
    exact (Table.mem_of_insert hins).mpr (.inr rfl)

theorem perform_tokensHeld (order : AssignOrder) (op : Operation) (hreg : s.db.Regular)
    (hs : TokensHeld s.contents) : TokensHeld (op.perform order s).2.contents := by
  intro token uid hfind
  have hkeep : (token, uid) ∈ s.db.tables.token →
      (token, uid) ∈ (op.perform order s).2.contents.tables.token :=
    (perform_via exec_keepsTokens order op s hreg).2 _
  have old (hmap : (op.perform order s).2.contents.tokenMap = s.tokenMap) :
      (token, uid) ∈ (op.perform order s).2.contents.tables.token := by
    rw [hmap] at hfind
    exact hkeep (hs token uid hfind)
  have h := performed order s op
  generalize (op.perform order s).1 = r at h
  generalize (op.perform order s).2.contents = c at h hfind hkeep old ⊢
  cases h with
  | signup h => exact old (h.tokenMap fun _ => rfl)
  | loginFails h =>
    rcases h.tokenMap with hmap | ⟨token', ⟨⟩, -⟩
    exact old hmap
  | @loggedIn uid' passwd remoteAddr token' c h =>
    have hmap : c.tokenMap = s.tokenMap.insert token' uid' := h.granted
    change c.tokenMap.find? token = some uid at hfind
    rw [hmap, OrdMap.find?_insert] at hfind
    split at hfind
    · rename_i htoken
      cases hfind
      rw [htoken]
      exact h.held hreg
    · exact hkeep (hs token uid hfind)
  | logout =>
    rw [OrdMap.find?_erase] at hfind
    split at hfind
    · cases hfind
    · exact hkeep (hs token uid hfind)
  | createGroup h => exact old h.tokenMap
  | joinGroup h => exact old (h.tokenMap fun _ => rfl)
  | leaveGroup h => exact old h.tokenMap
  | shareFile h => exact old h.tokenMap
  | peers h => exact old h.tokenMap

theorem tokensHeld_loaded (tables : Tables) : TokensHeld (loaded tables) := by
  intro token uid hfind
  rcases OrdMap.exists_of_find?_foldl_insert hfind with ⟨row, hrow, rfl, rfl⟩ | hempty
  · exact hrow
  · cases hempty

theorem TokensKept.step (h : TokensKept sys) (hstep : System.step order sys event = some sys') :
    TokensKept sys' := by
  refine ⟨(step_via exec_keepsTokens hstep h.regular).1, ?_⟩
  refine h.held.step h.regular (fun _ _ => trivial) (fun _ _ => trivial) ?_ ?_ ?_ hstep
  · exact fun s req remoteAddr res _ _ _ hs => hs
  · rintro s req remoteAddr op rfl _ _ hs
    exact perform_tokensHeld order op h.regular hs
  · exact fun _ tables _ => tokensHeld_loaded tables

theorem tokensKept_of_run {script : List Behaviour} {events : List Event}
    (hscript : ∀ b ∈ script, b = .plain ∨ b = .fails)
    (hrun : Machine.run (System.step order) (System.boot script) events = some sys) :
    TokensKept sys := by
  refine Machine.run_invariant (fun sys event sys' h hstep => h.step hstep) ?_ hrun
  have hreg : (⟨.new, script⟩ : Database).Regular := hscript
  have hboot : System.Reachable order script (System.boot script) := ⟨[], rfl⟩
  exact ⟨regular_of_reachable hboot hscript,
    System.holds_start hreg (tokensHeld_loaded _) trivial⟩

/-- A token in the table stays with its user. -/
theorem TokensKept.keptBy (h : TokensKept sys) (hrow : (token, uid) ∈ sys.db.tables.token) :
    KeptBy token uid sys := by
  cases sys with
  | down db => trivial
  | up s =>
    intro uid' hfind
    exact (token_fst_iff_snd s.db.tables (h.held token uid' hfind) hrow).mp rfl

end Held

/-- A token never changes hands. In a run in which SQLite takes every text plainly or fails, every
pair of the token map is a row of the token table, tokens and users of the table determine each
other, and from the login on that returns a token no process gives it to another user. -/
theorem token_never_changes_hands {order : AssignOrder} {script : List Behaviour}
    {events : List Event} {sys : System} (hscript : ∀ b ∈ script, b = .plain ∨ b = .fails)
    (hrun : Machine.run (System.step order) (System.boot script) events = some sys) :
    (∀ s, sys = .up s → ∀ token uid, s.tokenMap.find? token = some uid →
      (token, uid) ∈ s.db.tables.token) ∧
    (∀ a ∈ sys.db.tables.token, ∀ b ∈ sys.db.tables.token, a.1 = b.1 ↔ a.2 = b.2) ∧
    ∀ token uid event sys' later, Issues order token uid sys event →
      System.step order sys event = some sys' →
        Machine.AllStates (System.step order) (KeptBy token uid) sys' later := by
  have hsys := tokensKept_of_run hscript hrun
  refine ⟨?_, fun a ha b hb => token_fst_iff_snd _ ha hb, ?_⟩
  · rintro s rfl
    exact hsys.held
  · intro token uid event sys' later hissues hstep
    obtain ⟨s, rfl, hfind⟩ := hissues.known hstep
    have hup := hsys.step hstep
    -- the row of the token is never removed, and the map follows the table
    have weaken (sys : System) (h : TokensKept sys ∧ (token, uid) ∈ sys.db.tables.token) :
        KeptBy token uid sys := h.1.keptBy h.2
    have all : Machine.AllSteps (System.step order) (fun _ _ => True) (.up s) later :=
      Machine.allSteps_of_forall (fun _ _ => trivial) _ later
    refine Machine.allStates_of_allSteps weaken ?_ ⟨hup, hup.held token uid hfind⟩ all
    rintro sys event sys' ⟨hkept, hrow⟩ - hstep
    exact ⟨hkept.step hstep, (step_via exec_keepsTokens hstep hkept.regular).2 _ hrow⟩

def signingUp (uid passwd : String) : Request :=
  posting "/signup" [("Username", uid), ("Password", passwd)]

def loggingIn (uid passwd : String) : Request :=
  posting "/login" [("Username", uid), ("Password", passwd)]

/-- The first login of a user, and a restart behind it. -/
theorem token_kept_after_restart : ∃ s t,
    Machine.run (System.step .rightFirst) (System.boot [])
      [.request (signingUp "ann" "pw") .new] = some (.up s) ∧
    System.step .rightFirst (.up s) (.request (loggingIn "ann" "pw") .new) = some (.up t) ∧
    Machine.AllStates (System.step .rightFirst) (KeptBy (lit "annpw") (lit "ann")) (.up t)
      [.restart] := by
  obtain ⟨s, hrun, hcheck⟩ := System.exists_run .rightFirst []
    [.request (signingUp "ann" "pw") .new]
    (fun s => (callback .rightFirst (loggingIn "ann" "pw") .new s).1 =
      .ok ((ok "successful").addHeader (lit "Authorization") (lit "annpw"))) (by decide +kernel)
  have hres := of_decide_eq_true hcheck
  have hstep : System.step .rightFirst (.up s) (.request (loggingIn "ann" "pw") .new) =
      some (.up (callback .rightFirst (loggingIn "ann" "pw") .new s).2) := by
    rw [System.step, ← Prod.eta (callback .rightFirst (loggingIn "ann" "pw") .new s), hres]
    rfl
  refine ⟨s, _, hrun, hstep, (token_never_changes_hands (by simp) hrun).2.2 _ _ _ _ _ ?_ hstep⟩
  exact ⟨⟨rfl, rfl, _, _, Prod.ext hres rfl, rfl, by decide⟩, _, _, rfl, by decide⟩

/-! ## Logging in after a sign-up -/

/-- Where every statement is taken plainly, a user who has signed up can log in, at any time later,
if and only if he has a token already or nobody else has the one that he would be given. -/
theorem registered_user_logs_in_iff {order : AssignOrder} {pre mid : List Event} {s t u : Tracker}
    {uid passwd : Str} {signup login : Request} {remoteAddr remoteAddr' : SockAddr}
    (hpre : Machine.run (System.step order) (System.boot []) pre = some (.up s))
    (hsignup : SignsUp order uid passwd signup remoteAddr s t)
    (hmid : Machine.run (System.step order) (.up t) mid = some (.up u))
    (hlogin : Credentials "/login" login uid passwd) :
    LogsIn order uid login remoteAddr' u ↔ TokenFree u.db.tables uid passwd := by
  have hs : s.db.script = [] := (reachable_via exec_consumes ⟨pre, hpre⟩).nil rfl
  obtain ⟨huser, ht⟩ := hsignup.user hs
  have hkeep :
      Consumes t.db u.db ∧ KeepsHeld (fun tables => (uid, passwd) ∈ tables.user) t.db u.db :=
    ⟨run_via exec_consumes hmid, run_via (exec_keepsHeld (plain_keepsUser _)) hmid⟩
  have hu : u.db.script = [] := hkeep.1.nil ht
  have huser' : (uid, passwd) ∈ u.db.tables.user := (hkeep.2 (regular_of_nil ht)).2 huser
  rw [hlogin.logsIn_iff, login_ok_iff hu, and_iff_right huser']

theorem credentials_loggingIn_annp :
    Credentials "/login" (loggingIn "annp" "w") (lit "annp") (lit "w") :=
  ⟨rfl, rfl, by decide, by decide⟩

/-- The second of two users whose tokens are the same, before the first one has logged in. -/
theorem second_user_logs_in_first : ∃ s t,
    Machine.run (System.step .rightFirst) (System.boot [])
      [.request (signingUp "ann" "pw") .new] = some (.up s) ∧
    SignsUp .rightFirst (lit "annp") (lit "w") (signingUp "annp" "w") .new s t ∧
    LogsIn .rightFirst (lit "annp") (loggingIn "annp" "w") .new t := by
  obtain ⟨s, hrun, hcheck⟩ := System.exists_run .rightFirst []
    [.request (signingUp "ann" "pw") .new]
    (fun s => (callback .rightFirst (signingUp "annp" "w") .new s).1 = .ok (ok "successful") ∧
      TokenFree (callback .rightFirst (signingUp "annp" "w") .new s).2.db.tables (lit "annp")
        (lit "w"))
    (by decide +kernel)
  obtain ⟨hres, hfree⟩ := of_decide_eq_true hcheck
  have hsignup : SignsUp .rightFirst (lit "annp") (lit "w") (signingUp "annp" "w") .new s
      (callback .rightFirst (signingUp "annp" "w") .new s).2 :=
    ⟨⟨rfl, rfl, by decide, by decide⟩, _, Prod.ext hres rfl, rfl⟩
  have hmid : Machine.run (System.step .rightFirst)
      (.up (callback .rightFirst (signingUp "annp" "w") .new s).2) [] = some (.up _) := rfl
  exact ⟨s, _, hrun, hsignup,
    (registered_user_logs_in_iff hrun hsignup hmid credentials_loggingIn_annp).mpr hfree⟩

/-- After the first one has logged in, the second one cannot. -/
theorem second_user_locked_out : ∃ s t u,
    Machine.run (System.step .rightFirst) (System.boot [])
      [.request (signingUp "ann" "pw") .new] = some (.up s) ∧
    SignsUp .rightFirst (lit "annp") (lit "w") (signingUp "annp" "w") .new s t ∧
    Machine.run (System.step .rightFirst) (.up t) [.request (loggingIn "ann" "pw") .new] =
      some (.up u) ∧
    ¬ LogsIn .rightFirst (lit "annp") (loggingIn "annp" "w") .new u := by
  obtain ⟨s, hrun, hcheck⟩ := System.exists_run .rightFirst []
    [.request (signingUp "ann" "pw") .new]
    (fun s => (callback .rightFirst (signingUp "annp" "w") .new s).1 = .ok (ok "successful") ∧
      (callback .rightFirst (loggingIn "ann" "pw") .new
        (callback .rightFirst (signingUp "annp" "w") .new s).2).1 =
          .ok ((ok "successful").addHeader (lit "Authorization") (lit "annpw")) ∧
      (login (lit "annp") (lit "w") (callback .rightFirst (loggingIn "ann" "pw") .new
        (callback .rightFirst (signingUp "annp" "w") .new s).2).2).1 =
          .error .constraintFailedException) (by decide +kernel)
  obtain ⟨hres, hlogin, hthrown⟩ := of_decide_eq_true hcheck
  refine ⟨s, _, (callback .rightFirst (loggingIn "ann" "pw") .new
    (callback .rightFirst (signingUp "annp" "w") .new s).2).2, hrun,
    ⟨⟨rfl, rfl, by decide, by decide⟩, _, Prod.ext hres rfl, rfl⟩, ?_, ?_⟩
  · refine Machine.run_cons.mpr ⟨_, ?_, rfl⟩
    rw [System.step, ← Prod.eta (callback .rightFirst (loggingIn "ann" "pw") .new _), hlogin]
    rfl
  · rw [credentials_loggingIn_annp.logsIn_iff, hthrown]
    rintro ⟨token, ⟨⟩⟩

end P2PFileSharing.Tracker
