import P2PFileSharing.Tracker.Outcome
import P2PFileSharing.Tracker.System

/-!
# Tokens after a logout

A token is known while it is in the token map. Logging out takes it from the map, and the token
table keeps it: the next tracker that is constructed on the database knows it again.
-/

namespace P2PFileSharing.Tracker

open Http Library

/-- The requests that are answered only to those who have a token. -/
def TokenGuarded (req : Request) : Prop :=
  match req.method with
  | .GET => req.resource = lit "/peers"
  | .POST => req.resource ∈ [lit "/logout", lit "/create_group", lit "/join_group",
      lit "/leave_group", lit "/share_file"]
  | .UNDEFINED => False

/-- The token that a request brings. -/
def Carries (req : Request) (token : Str) : Prop := req.getHeader (lit "Authorization") = .ok token

/-- Whoever brings the token to a guarded endpoint is told that he is not authorised. -/
def Refuses (order : AssignOrder) (token : Str) : System → Prop
  | .up s => ∀ req remoteAddr res t, TokenGuarded req → Carries req token →
      callback order req remoteAddr s = (.ok res, t) → res.status = .UNAUTHORIZED
  | .down _ => True

/-- A login returns the token. -/
def Grants (order : AssignOrder) (token : Str) : System → Event → Prop
  | .up s, .request req remoteAddr => req.method = .POST ∧ req.resource = lit "/login" ∧
      ∃ res t, callback order req remoteAddr s = (.ok res, t) ∧ res.status = .OK ∧
        res.getHeader (lit "Authorization") = .ok token
  | _, _ => False

/-- A new tracker comes up. -/
def Restarts : System → Event → Prop
  | sys, .restart => ∃ t, start sys.db = (.ok (), t)
  | _, .request .. => False

/-- A logout with the token that is answered OK. -/
def LogsOut (order : AssignOrder) (token : Str) (req : Request) (remoteAddr : SockAddr)
    (s t : Tracker) : Prop :=
  req.method = .POST ∧ req.resource = lit "/logout" ∧ Carries req token ∧
    ∃ res, callback order req remoteAddr s = (.ok res, t) ∧ res.status = .OK

/-! ## Requests with a token -/

section Classify

variable {tokenMap : OrdMap Str Str} {req : Request} {token uid : Str}

theorem need_of_carries (hc : Carries req token) (missing : Response) :
    need req missing "Authorization" = .ok token := by
  rw [need, hc]

theorem needToken_of_unknown (hc : Carries req token) (htoken : token ∉ tokenMap)
    (missing : Response) :
    needToken tokenMap req missing = .error (.new .UNAUTHORIZED (lit "invalid token")) := by
  rw [needToken, need_of_carries hc]
  simp [bind, Except.bind, OrdMap.notMem_iff.mp htoken]

theorem needGroup_of_unknown (hc : Carries req token) (htoken : token ∉ tokenMap)
    (missing : Response) :
    needGroup tokenMap req missing = .error (.new .UNAUTHORIZED (lit "invalid token")) := by
  rw [needGroup, needToken_of_unknown hc htoken]
  rfl

theorem needFile_of_unknown (hc : Carries req token) (htoken : token ∉ tokenMap)
    (missing : Response) (op : Str → Str → Str → Str → Operation) :
    needFile tokenMap req missing op = .error (.new .UNAUTHORIZED (lit "invalid token")) := by
  rw [needFile, needGroup_of_unknown hc htoken]
  rfl

theorem needToken_of_known (hc : Carries req token) (htoken : tokenMap.find? token = some uid)
    (missing : Response) :
    needToken tokenMap req missing = .ok (token, uid) := by
  rw [needToken, need_of_carries hc]
  simp [bind, Except.bind, htoken]

/-- A guarded request with an unknown token is refused before anything else is looked at. -/
theorem classify_of_unknown (hg : TokenGuarded req) (hc : Carries req token)
    (htoken : token ∉ tokenMap) (remoteAddr : SockAddr) :
    classify tokenMap req remoteAddr = .error (.new .UNAUTHORIZED (lit "invalid token")) := by
  rw [classify]
  rw [TokenGuarded] at hg
  cases hm : req.method with
  | UNDEFINED =>
    rw [hm] at hg
    exact absurd hg (fun h => h)
  | GET =>
    rw [hm] at hg
    dsimp only at hg ⊢
    rw [if_pos hg, needFile_of_unknown hc htoken]
  | POST =>
    rw [hm] at hg
    simp only [List.mem_cons, List.not_mem_nil, or_false] at hg
    rcases hg with h | h | h | h | h <;>
      simp +decide only [classifyPost, h, if_true, if_false, needToken_of_unknown hc htoken,
        needGroup_of_unknown hc htoken, needFile_of_unknown hc htoken]

/-- A request that creates a group without a name. -/
def nameless (token : Str) : Request :=
  (Request.new .POST (lit "/create_group")).addHeader (lit "Authorization") token

theorem guarded_nameless (token : Str) : TokenGuarded (nameless token) := by
  change lit "/create_group" ∈ [lit "/logout", lit "/create_group", _, _, _]
  exact List.mem_cons_of_mem _ List.mem_cons_self

theorem carries_nameless (token : Str) : Carries (nameless token) token := by
  simp [Carries, nameless, Request.getHeader, Request.addHeader]

theorem classify_nameless (htoken : token ∈ tokenMap) (remoteAddr : SockAddr) :
    classify tokenMap (nameless token) remoteAddr =
      .error (.new .BAD_REQUEST (lit "missing group id")) := by
  obtain ⟨uid, huid⟩ := OrdMap.mem_iff_exists.mp htoken
  have hneed := needToken_of_known (carries_nameless token) huid
  have hgid (missing : Response) : need (nameless token) missing "Group-Id" = .error missing := by
    rw [need, nameless, Request.getHeader, Request.addHeader,
      OrdMap.find?_insert_of_ne _ _ (by decide)]
    rfl
  have hgroup (missing : Response) :
      needGroup tokenMap (nameless token) missing = .error missing := by
    rw [needGroup, hneed]
    change (need (nameless token) missing "Group-Id" >>= fun gid => .ok (uid, gid)) = _
    rw [hgid]
    rfl
  have hres : (nameless token).resource = lit "/create_group" := rfl
  rw [classify]
  change classifyPost tokenMap (nameless token) remoteAddr = _
  simp +decide only [classifyPost, hres, if_true, if_false, hgroup]

theorem classify_logout (hm : req.method = .POST) (hr : req.resource = lit "/logout")
    (hc : Carries req token) (htoken : token ∈ tokenMap) (remoteAddr : SockAddr) :
    classify tokenMap req remoteAddr = .ok (.logout token) := by
  obtain ⟨uid, huid⟩ := OrdMap.mem_iff_exists.mp htoken
  rw [classify, hm]
  simp +decide only [classifyPost, hr, if_true, if_false, needToken_of_known hc huid]
  rfl

theorem exists_of_bind_eq_ok {ε α β : Type} {x : Except ε α} {f : α → Except ε β} {b : β}
    (h : (x >>= f) = .ok b) : ∃ a, x = .ok a ∧ f a = .ok b := by
  cases x with
  | error e => cases h
  | ok a => exact ⟨a, rfl, h⟩

/-- Only a login request is a login. -/
theorem of_classify_login {remoteAddr addr : SockAddr} {passwd : Str}
    (h : classify tokenMap req remoteAddr = .ok (.login uid passwd addr)) :
    req.method = .POST ∧ req.resource = lit "/login" := by
  have hgroup {x : Except Response (Str × Str)} {op : Str × Str → Operation}
      (hop : ∀ a, op a ≠ .login uid passwd addr) :
      (x >>= fun a => .ok (op a)) ≠ .ok (.login uid passwd addr) := by
    intro hbind
    obtain ⟨a, -, ha⟩ := exists_of_bind_eq_ok hbind
    exact hop a (Except.ok.inj ha)
  have hfile {missing : Response} {op : Str → Str → Str → Str → Operation}
      (hop : ∀ a b c d, op a b c d ≠ .login uid passwd addr) :
      needFile tokenMap req missing op ≠ .ok (.login uid passwd addr) := by
    intro hneed
    obtain ⟨_, -, hneed⟩ := exists_of_bind_eq_ok hneed
    obtain ⟨_, -, hneed⟩ := exists_of_bind_eq_ok hneed
    obtain ⟨_, -, hneed⟩ := exists_of_bind_eq_ok hneed
    exact hop _ _ _ _ (Except.ok.inj hneed)
  rw [classify] at h
  cases hm : req.method with
  | UNDEFINED =>
    rw [hm] at h
    cases h
  | GET =>
    rw [hm] at h
    dsimp only at h
    split at h
    · exact absurd h (hfile (by intros; exact Operation.noConfusion))
    · cases h
  | POST =>
    rw [hm] at h
    refine ⟨rfl, ?_⟩
    dsimp only at h
    unfold classifyPost at h
    split_ifs at h with _ hlogin
    · obtain ⟨_, -, h⟩ := exists_of_bind_eq_ok h
      obtain ⟨_, -, h⟩ := exists_of_bind_eq_ok h
      cases h
    · exact hlogin
    · exact absurd h (hgroup (by intro a; exact Operation.noConfusion))
    · exact absurd h (hgroup (by intro a; exact Operation.noConfusion))
    · exact absurd h (hgroup (by intro a; exact Operation.noConfusion))
    · exact absurd h (hgroup (by intro a; exact Operation.noConfusion))
    · exact absurd h (hfile (by intros; exact Operation.noConfusion))

end Classify

/-! ## The token map -/

section TokenMap

variable {s : Tracker} {uid gid : Str} {c : Contents}

theorem Single.tokenMap {α : Type} {st : Statement} {a : α} {after : Tables → Contents}
    {r : Except ExnClass α} (h : Single s st a after r c)
    (hafter : ∀ tables, (after tables).tokenMap = s.tokenMap) : c.tokenMap = s.tokenMap := by
  cases h with
  | fails h0 => rfl
  | done h0 => exact hafter _

theorem CreateGroup.tokenMap {r : Except ExnClass Unit} (h : CreateGroup s gid uid r c) :
    c.tokenMap = s.tokenMap := by
  cases h <;> rfl

theorem LeaveGroup.tokenMap {r : Except ExnClass Unit} (h : LeaveGroup s uid gid r c) :
    c.tokenMap = s.tokenMap := by
  cases h <;> rfl

theorem ShareFile.tokenMap {order : AssignOrder} {fname serverAddr : Str}
    {r : Except ExnClass Response} (h : ShareFile order s uid gid fname serverAddr r c) :
    c.tokenMap = s.tokenMap := by
  cases h <;> rfl

theorem Peers.tokenMap {order : AssignOrder} {fname serverAddr : Str}
    {r : Except ExnClass Response} (h : Peers order s uid gid fname serverAddr r c) :
    c.tokenMap = s.tokenMap := by
  cases h <;> rfl

/-- A login that returns a token has put it into the map. -/
theorem Login.tokenMap {passwd : Str} {r : Except ExnClass Str} (h : Login s uid passwd r c) :
    c.tokenMap = s.tokenMap ∨
      ∃ token, r = .ok token ∧ c.tokenMap = s.tokenMap.insert token uid := by
  cases h with
  | userFails h0 => exact .inl rfl
  | refused h0 hrows => exact .inl rfl
  | found h0 hrows h1 => exact .inr ⟨_, rfl, rfl⟩
  | tokenFails hno h2 => exact .inl rfl
  | issued hno h2 => exact .inr ⟨_, rfl, rfl⟩

/-- A token is new in the map only where a login has returned it. -/
theorem perform_tokenMap (order : AssignOrder) (op : Operation) {token : Str}
    (h : token ∈ (op.perform order s).2.contents.tokenMap) : token ∈ s.tokenMap ∨
      ∃ uid passwd addr t, op = .login uid passwd addr ∧ login uid passwd s = (.ok token, t) ∧
        op.perform order s =
          (.ok ((ok "successful").addHeader (lit "Authorization") token),
            t.withAddress uid addr) := by
  have same (hmap : (op.perform order s).2.contents.tokenMap = s.tokenMap) :
      token ∈ s.tokenMap := by
    rwa [hmap] at h
  cases op with
  | signup uid pass => exact .inl (same ((signup_cases s order uid pass).tokenMap fun _ => rfl))
  | login uid passwd addr =>
    have hmap := (login_cases s uid passwd).tokenMap
    rw [Operation.perform] at h ⊢
    rcases hrun : login uid passwd s with ⟨e | auth, t⟩
    · rw [hrun] at hmap
      rw [Action.bind_of_error hrun] at h
      rcases hmap with hmap | ⟨_, ⟨⟩, -⟩
      rw [hmap] at h
      exact .inl h
    · rw [hrun] at hmap
      rw [Action.bind_of_ok hrun] at h ⊢
      change token ∈ t.contents.tokenMap at h
      rcases hmap with hmap | ⟨_, ⟨⟩, hmap⟩
      · rw [hmap] at h
        exact .inl h
      · rw [hmap, OrdMap.mem_insert] at h
        rcases h with rfl | hold
        · exact .inr ⟨uid, passwd, addr, t, rfl, hrun, rfl⟩
        · exact .inl hold
  | logout token' => exact .inl ((OrdMap.mem_erase _ _ _).mp h).2
  | createGroup uid gid =>
    refine .inl (same ?_)
    rw [Operation.perform, done_run]
    exact (createGroup_cases s gid uid).tokenMap
  | joinGroup uid gid =>
    refine .inl (same ?_)
    rw [Operation.perform, done_run]
    exact (joinGroup_cases s uid gid).tokenMap fun _ => rfl
  | leaveGroup uid gid =>
    refine .inl (same ?_)
    rw [Operation.perform, done_run]
    exact (leaveGroup_cases s uid gid).tokenMap
  | shareFile uid gid fname serverAddr =>
    exact .inl (same (shareFile_cases order s uid gid fname serverAddr).tokenMap)
  | peers uid gid fname serverAddr =>
    exact .inl (same (peers_cases order s uid gid fname serverAddr).tokenMap)

end TokenMap

/-! ## The token table -/

/-- The token is in the table. -/
def Stored (tables : Tables) (token : Str) : Prop := ∃ row ∈ tables.token, row.1 = token

/-- As long as texts are taken plainly or fail, no row leaves the token table. -/
def KeepsTokens (db db' : Database) : Prop :=
  db.Regular → db'.Regular ∧ ∀ row ∈ db.tables.token, row ∈ db'.tables.token

instance : Std.Refl KeepsTokens := ⟨fun _ h => ⟨h, fun _ hrow => hrow⟩⟩

instance : IsTrans Database KeepsTokens := by
  refine ⟨fun db db' db'' h h' hreg => ?_⟩
  obtain ⟨hreg', hrows⟩ := h hreg
  obtain ⟨hreg'', hrows'⟩ := h' hreg'
  exact ⟨hreg'', fun row hrow => hrows' row (hrows row hrow)⟩

theorem keepsTokens_inserted {clash : Row → Row → Prop} [DecidableRel clash] {tables : Tables}
    {table : Table clash} {row row' : Row} {put : Table clash → Tables}
    (hput : ∀ table', table.insert row = some table' → row' ∈ (put table').token)
    (hrow : row' ∈ tables.token) : row' ∈ (inserted tables table row put).2.token := by
  cases hins : table.insert row with
  | none =>
    rw [inserted_none hins]
    exact hrow
  | some table' =>
    rw [inserted_some hins]
    exact hput table' hins

theorem plain_keepsTokens (st : Statement) {tables : Tables} {row : Row}
    (hrow : row ∈ tables.token) :
    row ∈ (st.plain tables).2.token := by
  cases st with
  | insertGroup gid oid => exact keepsTokens_inserted (fun _ _ => hrow) hrow
  | addMember uid gid => exact keepsTokens_inserted (fun _ _ => hrow) hrow
  | createUser uid passwd => exact keepsTokens_inserted (fun _ _ => hrow) hrow
  | insertToken token uid =>
    exact keepsTokens_inserted (fun _ hins => (Table.mem_of_insert hins).mpr (.inl hrow)) hrow
  | _ => exact hrow

theorem exec_keepsTokens (st : Statement) (db : Database) :
    KeepsTokens db (Database.exec st db).2 := by
  intro hreg
  rw [Database.exec_eq]
  refine ⟨hreg.advance _, fun row hrow => ?_⟩
  rcases hreg.later 0 with h0 | h0
  · rw [Database.reply_of_plain h0]
    exact plain_keepsTokens st hrow
  · rw [Database.reply_of_fails h0]
    exact hrow

/-- The token that a login returns is in the table. -/
theorem Login.stored {s : Tracker} {uid passwd token : Str} {r : Except ExnClass Str} {c : Contents}
    (h : Login s uid passwd r c) (hreg : s.db.Regular) (hr : r = .ok token) :
    Stored c.tables token := by
  have plain {k : Nat} {st : Statement} {tables tables' : Tables} {rows : List Row}
      (hreply : s.db.reply k st tables = (.ok rows, tables')) : s.db.later k = .plain := by
    refine (hreg.later k).resolve_right fun hfails => ?_
    rw [Database.reply_of_fails hfails] at hreply
    cases hreply
  cases h with
  | userFails h0 => cases hr
  | refused h0 hrows => cases hr
  | tokenFails hno h2 => cases hr
  | @found rows row rest tables tables' h0 hrows h1 =>
    cases hr
    obtain ⟨hfilter, rfl⟩ := Database.rows_of_reply (plain h1) rfl h1
    have hrow : row ∈ tables'.token.rows.filter (fun r => r.2 = uid) := by
      rw [← Except.ok.inj hfilter]
      exact List.mem_cons_self
    exact ⟨row, List.mem_of_mem_filter hrow, rfl⟩
  | issued hno h2 =>
    cases hr
    obtain ⟨table, hins, rfl⟩ := Database.inserted_of_reply (plain h2) rfl h2
    exact ⟨_, (Table.mem_of_insert hins).mpr (.inr rfl), rfl⟩

/-! ## Runs -/

section Runs

variable {order : AssignOrder} {script : List Behaviour} {sys sys' : System} {event : Event}
  {token : Str}

/-- The token is in the map of the running process. -/
def Known (token : Str) : System → Prop
  | .up s => token ∈ s.tokenMap
  | .down _ => False

/-- A token is refused exactly as long as it is not known. -/
theorem refuses_iff : Refuses order token sys ↔ ¬ Known token sys := by
  cases sys with
  | down db => exact iff_of_true trivial (fun h => h)
  | up s =>
    constructor
    · intro hrefuses hknown
      have hrun : callback order (nameless token) .new s =
          (.ok (.new .BAD_REQUEST (lit "missing group id")), s) := by
        rw [callback_eq, classify_nameless hknown]
        rfl
      have hstatus := hrefuses (nameless token) .new _ s (guarded_nameless token)
        (carries_nameless token) hrun
      exact absurd hstatus (by decide)
    · intro hunknown req remoteAddr res t hg hc hrun
      rw [callback_eq, classify_of_unknown hg hc hunknown] at hrun
      cases hrun
      rfl

/-- A new tracker knows the tokens of the table. -/
theorem known_settle_start {db : Database} (hreg : db.Regular) :
    Known token (System.settle (start db)) ↔
      (∃ t, start db = (.ok (), t)) ∧ Stored (System.settle (start db)).db.tables token := by
  have h := start_cases hreg
  rcases hrun : start db with ⟨r, t⟩
  rw [hrun] at h
  dsimp only at h
  generalize hc : t.contents = c at h
  cases h with
  | fails hk htables => simp [System.settle, Known]
  | loaded =>
    have hmap : t.tokenMap = loadTokens db.tables.token.rows := congrArg Contents.tokenMap hc
    have htables : t.db.tables = db.tables := congrArg Contents.tables hc
    rw [and_iff_right ⟨t, rfl⟩, System.db_settle, System.settle, Known, hmap, loadTokens, htables]
    refine OrdMap.mem_foldl_insert.trans (or_iff_left ?_)
    exact OrdMap.notMem_empty token

/-- A token that a step makes known comes from a login or a restart, and is in the table. -/
theorem step_known (hstep : System.step order sys event = some sys') (hknown : Known token sys') :
    Known token sys ∨ (Grants order token sys event ∨ Restarts sys event) ∧
      (sys.db.Regular → Stored sys'.db.tables token) := by
  cases event with
  | restart =>
    rw [System.step_restart] at hstep
    cases hstep
    have hup : ∃ t, start sys.db = (.ok (), t) := by
      cases hsettle : System.settle (start sys.db) with
      | down db =>
        rw [hsettle] at hknown
        exact absurd hknown (fun h => h)
      | up t =>
        obtain ⟨_, hrun⟩ := System.settle_eq_up.mp hsettle
        exact ⟨t, hrun⟩
    exact .inr ⟨.inr (by cases sys <;> exact hup),
      fun hreg => ((known_settle_start hreg).mp hknown).2⟩
  | request req remoteAddr =>
    cases sys with
    | down db => cases hstep
    | up s =>
      cases hstep
      cases hsettle : System.settle (callback order req remoteAddr s) with
      | down db =>
        rw [hsettle] at hknown
        exact absurd hknown (fun h => h)
      | up t =>
        rw [hsettle] at hknown
        obtain ⟨res, hrun⟩ := System.settle_eq_up.mp hsettle
        have hreact := hrun
        rw [callback_eq] at hreact
        cases hop : classify s.tokenMap req remoteAddr with
        | error res' =>
          rw [hop] at hreact
          cases hreact
          exact .inl hknown
        | ok op =>
          rw [hop, react, Operation.respond] at hreact
          have hstate : (op.perform order s).2 = t := congrArg Prod.snd hreact
          rw [← hstate] at hknown
          rcases perform_tokenMap order op hknown with hold | ⟨uid, passwd, addr, u, rfl, hlogin,
            hperform⟩
          · exact .inl hold
          · obtain ⟨hm, hr⟩ := of_classify_login hop
            rw [hperform] at hreact
            cases hreact
            refine .inr ⟨.inl ⟨hm, hr, _, _, hrun, rfl, ?_⟩, fun hreg => ?_⟩
            · simp [Response.getHeader, Response.addHeader]
            · have hstored := (login_cases s uid passwd).stored hreg (congrArg Prod.fst hlogin)
              rw [hlogin] at hstored
              exact hstored

/-- What a run keeps from the first process on: every token that is known is in the table. -/
structure Recorded (sys : System) : Prop where
  regular : sys.db.Regular
  stored : ∀ token, Known token sys → Stored sys.db.tables token

/-- What holds between a logout and the next login or restart: the token is not known, and still in
the table. -/
structure Forgotten (token : Str) (sys : System) : Prop where
  regular : sys.db.Regular
  stored : Stored sys.db.tables token
  unknown : ¬ Known token sys

theorem step_stored (hreg : sys.db.Regular) (hstep : System.step order sys event = some sys')
    (hstored : Stored sys.db.tables token) : Stored sys'.db.tables token := by
  obtain ⟨row, hrow, hid⟩ := hstored
  exact ⟨row, (step_via exec_keepsTokens hstep hreg).2 row hrow, hid⟩

theorem recorded_of_run {events : List Event} (hscript : ∀ b ∈ script, b = .plain ∨ b = .fails)
    (hrun : Machine.run (System.step order) (System.boot script) events = some sys) :
    Recorded sys := by
  refine Machine.run_invariant ?_ ?_ hrun
  · intro sys event sys' h hstep
    refine ⟨(step_via exec_keepsTokens hstep h.regular).1, fun token hknown => ?_⟩
    rcases step_known hstep hknown with hold | ⟨-, hstored⟩
    · exact step_stored h.regular hstep (h.stored token hold)
    · exact hstored h.regular
  · have hreg : (⟨.new, script⟩ : Database).Regular := hscript
    have hboot : System.Reachable order script (System.boot script) := ⟨[], rfl⟩
    exact ⟨regular_of_reachable hboot hscript,
      fun token hknown => ((known_settle_start hreg).mp hknown).2⟩

/-- Only a known token can be logged out, and it is not known any more. -/
theorem LogsOut.tokenMap {req : Request} {remoteAddr : SockAddr} {s t : Tracker}
    (h : LogsOut order token req remoteAddr s t) :
    token ∈ s.tokenMap ∧ token ∉ t.tokenMap ∧ t.db = s.db := by
  obtain ⟨hm, hr, hc, res, hrun, hok⟩ := h
  have hin : token ∈ s.tokenMap := by
    by_contra hunknown
    have hg : TokenGuarded req := by
      rw [TokenGuarded, hm, hr]
      exact List.mem_cons_self
    rw [callback_eq, classify_of_unknown hg hc hunknown] at hrun
    cases hrun
    cases hok
  rw [callback_eq, classify_logout hm hr hc hin] at hrun
  cases hrun
  refine ⟨hin, ?_, rfl⟩
  intro hknown
  exact ((OrdMap.mem_erase _ _ _).mp hknown).1 rfl

theorem LogsOut.forgotten {req : Request} {remoteAddr : SockAddr} {s t : Tracker}
    (h : LogsOut order token req remoteAddr s t) (hs : Recorded (.up s)) :
    Forgotten token (.up t) := by
  obtain ⟨hin, hout, hdb⟩ := h.tokenMap
  have hreg := hs.regular
  have hstored := hs.stored token hin
  rw [show (System.up s).db = (System.up t).db from hdb.symm] at hreg hstored
  exact ⟨hreg, hstored, hout⟩

theorem Forgotten.step (h : Forgotten token sys) (hgrants : ¬ Grants order token sys event)
    (hrestarts : ¬ Restarts sys event) (hstep : System.step order sys event = some sys') :
    Forgotten token sys' := by
  refine ⟨(step_via exec_keepsTokens hstep h.regular).1, step_stored h.regular hstep h.stored, ?_⟩
  intro hknown
  rcases step_known hstep hknown with hold | ⟨hg | hr, -⟩
  · exact h.unknown hold
  · exact hgrants hg
  · exact hrestarts hr

theorem Forgotten.restart (h : Forgotten token sys) (hrestarts : Restarts sys event)
    (hstep : System.step order sys event = some sys') : Known token sys' := by
  cases event with
  | request req remoteAddr => cases sys <;> exact absurd hrestarts (fun h => h)
  | restart =>
    have hstored := step_stored h.regular hstep h.stored
    rw [System.step_restart] at hstep
    cases hstep
    refine (known_settle_start h.regular).mpr ⟨?_, hstored⟩
    cases sys <;> exact hrestarts

/-- Logout is final: while no login returns the token again, it is refused in every state of the run
if no new tracker comes up. Where SQLite takes every text plainly or fails, it is refused in every
state of the run only then. -/
theorem logout_final_iff {pre mid : List Event} {req : Request} {remoteAddr : SockAddr}
    {s t : Tracker}
    (hpre : Machine.run (System.step order) (System.boot script) pre = some (.up s))
    (hlogout : LogsOut order token req remoteAddr s t)
    (hmid : Machine.AllSteps (System.step order) (fun sys event => ¬ Grants order token sys event)
      (.up t) mid) :
    (Machine.AllSteps (System.step order) (fun sys event => ¬ Restarts sys event) (.up t) mid →
      Machine.AllStates (System.step order) (Refuses order token) (.up t) mid) ∧
    ((∀ b ∈ script, b = .plain ∨ b = .fails) →
      Machine.AllStates (System.step order) (Refuses order token) (.up t) mid →
        Machine.AllSteps (System.step order) (fun sys event => ¬ Restarts sys event) (.up t)
          mid) := by
  constructor
  · intro hrestarts
    have hunknown : ¬ Known token (.up t) := hlogout.tokenMap.2.1
    refine Machine.allStates_of_allSteps (fun sys (h : ¬ Known token sys) => refuses_iff.mpr h) ?_
      hunknown (hmid.and hrestarts)
    rintro sys event sys' hunknown ⟨hgrants, hrestarts⟩ hstep hknown
    rcases step_known hstep hknown with hold | ⟨hg | hr, -⟩
    · exact hunknown hold
    · exact hgrants hg
    · exact hrestarts hr
  · intro hscript
    have hs : Recorded (.up s) := recorded_of_run hscript hpre
    refine (Machine.allStates_iff_allSteps_of (fun sys (h : Forgotten token sys) => ?_) ?_ ?_
      (hlogout.forgotten hs) hmid).mp
    · exact refuses_iff.mpr h.unknown
    · exact fun sys event sys' h hgrants hrestarts hstep => h.step hgrants hrestarts hstep
    · intro sys event sys' h _ hrestarts hstep
      rw [refuses_iff, not_not]
      exact h.restart (not_not.mp hrestarts) hstep

end Runs

def loggingOut : Request := posting "/logout" [("Authorization", "annpw")]

theorem logsOut_of_check {s : Tracker}
    (h : (callback .rightFirst loggingOut .new s).1 = .ok (ok "successful")) :
    LogsOut .rightFirst (lit "annpw") loggingOut .new s
      (callback .rightFirst loggingOut .new s).2 :=
  ⟨rfl, rfl, by rw [Carries]; decide, _, Prod.ext h rfl, rfl⟩

/-- Creating a group with the token, after the logout and without a restart. -/
theorem token_refused_after_logout : ∃ s t,
    Machine.run (System.step .rightFirst) (System.boot []) founding = some (.up s) ∧
      LogsOut .rightFirst (lit "annpw") loggingOut .new s t ∧
        Machine.AllStates (System.step .rightFirst) (Refuses .rightFirst (lit "annpw")) (.up t)
          [.request (nameless (lit "annpw")) .new] := by
  obtain ⟨s, hrun, hcheck⟩ := System.exists_run .rightFirst [] founding
    (fun s => (callback .rightFirst loggingOut .new s).1 =
      .ok (ok "successful")) (by decide +kernel)
  have hlogout := logsOut_of_check (of_decide_eq_true hcheck)
  refine ⟨s, _, hrun, hlogout, (logout_final_iff hrun hlogout ?_).1 ?_⟩
  · rintro sys -
    refine ⟨?_, trivial⟩
    rintro ⟨-, hr, -⟩
    exact absurd hr (by decide)
  · exact fun sys _ => ⟨fun h => h, trivial⟩

/-- The next tracker on the database accepts the token, without a login. -/
theorem token_accepted_after_restart : ∃ s t,
    Machine.run (System.step .rightFirst) (System.boot []) founding = some (.up s) ∧
      LogsOut .rightFirst (lit "annpw") loggingOut .new s t ∧
        ¬ Machine.AllStates (System.step .rightFirst) (Refuses .rightFirst (lit "annpw")) (.up t)
          [.restart] := by
  obtain ⟨s, hrun, hcheck⟩ := System.exists_run .rightFirst [] founding
    (fun s => (callback .rightFirst loggingOut .new s).1 = .ok (ok "successful") ∧
      (start (callback .rightFirst loggingOut .new s).2.db).1 = .ok ()) (by decide +kernel)
  obtain ⟨hok, hstart⟩ := of_decide_eq_true hcheck
  have hlogout := logsOut_of_check hok
  refine ⟨s, _, hrun, hlogout, fun hrefuses => ?_⟩
  have hforgotten := hlogout.forgotten (recorded_of_run (by simp) hrun)
  have hup : Restarts (.up (callback .rightFirst loggingOut .new s).2) .restart :=
    ⟨_, Prod.ext hstart rfl⟩
  have hknown := hforgotten.restart hup (System.step_restart .rightFirst _)
  exact refuses_iff.mp (hrefuses.2 _ (System.step_restart .rightFirst _)) hknown

end P2PFileSharing.Tracker
