import P2PFileSharing.Http.Chunking
import P2PFileSharing.Tracker.Calls

/-!
# Answers on their way back

Most answers are fixed texts. The answer to a login carries a token, which is put together from
what a parser has read, or was so when it was stored; a list of peers goes into the body.
-/

namespace P2PFileSharing.Tracker

open Http Library

/-! ## The answers -/

theorem fixedAnswers_transparent : ∀ res ∈ fixedAnswers,
    res.Transparent ∧ res.contentLength = .ok res.body.length := by
  have hcheck : ∀ res ∈ fixedAnswers, CrlfFree res.statusTxt ∧
      (∀ e ∈ res.headers.entries, e.1 = e.2.key ∧ e.2.Transparent) ∧ res.headers.entries ≠ [] ∧
        res.statusTxt ≠ [] ∧ res.statusTxt.getLast? ≠ some 32 ∧
          res.serializeHead.length < 2 ^ 31 ∧ res.contentLength = .ok res.body.length := by
    decide +kernel
  intro res hres
  obtain ⟨hline, hheaders, hne, htxt, hlast, hsmall, hlength⟩ := hcheck res hres
  exact ⟨⟨⟨hline, HeaderMap.transparent_iff.mpr hheaders⟩, hne, htxt, hlast, hsmall⟩, hlength⟩

theorem successful_transparent : (ok "successful").Transparent ∧
    (ok "successful").serializeHead.length ≤ 100 := by
  have hok : ok "successful" ∈ fixedAnswers ∧ (ok "successful").serializeHead.length ≤ 100 := by
    decide +kernel
  exact ⟨(fixedAnswers_transparent _ hok.1).1, hok.2⟩

/-- The answer to a login comes back if its token does and is not too long. -/
theorem granting_transparent {token : Str} (htoken : Intact token) (hlen : token.length ≤ 10 ^ 9) :
    (granting token).Transparent ∧
      (granting token).contentLength = .ok (granting token).body.length := by
  obtain ⟨htransparent, hsize⟩ := successful_transparent
  have hkey : CrlfFree (lit "Authorization") ∧ 58 ∉ lit "Authorization" ∧
      (lit "Authorization").length = 13 ∧ lit "Authorization" ≠ lit "Content-Length" := by decide
  refine ⟨htransparent.addHeader ⟨hkey.1, hkey.2.1⟩ htoken (by omega), ?_⟩
  rw [granting, Response.contentLength_addHeader_of_ne _ _ hkey.2.2.2]
  rfl

/-- A list of peers comes back, whatever its text is. -/
theorem listing_transparent {peers : Str} (hlen : peers.length < 2 ^ 31) :
    (listing peers).Transparent ∧
      (listing peers).contentLength = .ok (listing peers).body.length := by
  obtain ⟨htransparent, hsize⟩ := successful_transparent
  have hkey : (CrlfFree (lit "Content-Length") ∧ 58 ∉ lit "Content-Length") ∧
      (lit "Content-Length").length = 14 := by decide
  have hdigits : (toDecimal peers.length).length ≤ 10 := length_toDecimal_le (by omega)
  constructor
  · have hheader := htransparent.addHeader hkey.1 (intact_toDecimal peers.length) (by omega)
    exact hheader.setBody _
  · have hlength : (listing peers).contentLength =
        ((ok "successful").addHeader (lit "Content-Length")
          (toDecimal peers.length)).contentLength := rfl
    rw [hlength, Response.contentLength_addHeader_self, stoll_toDecimal (by omega), listing,
      Response.setBody]
    rfl

section Answers

variable {order : AssignOrder} {s t : Tracker} {req : Request} {remoteAddr : SockAddr}
  {res : Response}

/-- What a request is answered with. -/
theorem callback_answers (hreg : s.db.Regular)
    (h : callback order req remoteAddr s = (.ok res, t)) :
    res ∈ fixedAnswers ∨ (∃ token uid, res = granting token ∧ (token, uid) ∈ t.db.tables.token) ∨
      ∃ peers, res = listing peers := by
  have hcrash : Response.new .INTERNAL_SERVER_ERROR (lit "server error") ∈ fixedAnswers := by
    decide +kernel
  rw [callback_eq] at h
  cases hc : classify s.tokenMap req remoteAddr with
  | error res' =>
    rw [hc] at h
    cases h
    exact .inl (List.mem_append_left _ (List.mem_append_left _ (mem_refusals hc)))
  | ok op =>
    rw [hc, react] at h
    obtain rfl : (op.perform order s).2 = t := congrArg Prod.snd h
    have hres : answered op.handlers (op.perform order s).1 = .ok res := congrArg Prod.fst h
    cases hperform : (op.perform order s).1 with
    | ok res' =>
      rw [hperform, answered] at hres
      cases hres
      rcases perform_answers hperform with hmem |
        ⟨uid, passwd, addr, token, c, -, hlogin, htables, rfl⟩ | ⟨_, _, _, _, peers, -, rfl⟩
      · exact .inl hmem
      · have hrow := hlogin.held hreg
        rw [htables] at hrow
        exact .inr (.inl ⟨token, uid, rfl, hrow⟩)
      · exact .inr (.inr ⟨peers, rfl⟩)
    | error e =>
      rw [hperform, answered] at hres
      cases hhandler : handlerFor op.handlers e with
      | some res' =>
        rw [hhandler] at hres
        cases hres
        obtain ⟨handler, hhandlers, -⟩ := exists_of_handlerFor hhandler
        refine .inl (List.mem_append_left _ (List.mem_append_right _ ?_))
        exact List.mem_flatMap.mpr ⟨_, mem_endpointHandlers op, List.mem_map_of_mem hhandlers⟩
      | none =>
        rw [hhandler] at hres
        dsimp only at hres
        split at hres
        · cases hres
          exact .inl hcrash
        · cases hres

end Answers

/-! ## The stored tokens -/

/-- Every stored token comes back from the line of a header. -/
def TokensIntact (tables : Tables) : Prop := ∀ row ∈ tables.token, Intact row.1

/-- The request comes from a parser. -/
def Parsed (req : Request) : Prop := ∃ bytes, Request.deserialize bytes = .ok req

def Event.Parsed : Event → Prop
  | .request req _ => Tracker.Parsed req
  | .restart => True

/-- The token that a statement inserts, if it inserts one, comes back from the line of a header. -/
def Statement.IssuesIntact : Statement → Prop
  | insertToken token _ => Intact token
  | _ => True

section TokensIntact

variable {order : AssignOrder} {s : Tracker} {req : Request} {remoteAddr : SockAddr}
  {tables tables' : Tables} {op : Operation}

theorem plain_tokensIntact {st : Statement} (hst : st.IssuesIntact) (hs : TokensIntact tables) :
    TokensIntact (st.plain tables).2 := by
  have same {tables' : Tables} (h : tables'.token = tables.token) : TokensIntact tables' := by
    rw [TokensIntact, h]
    exact hs
  cases st with
  | insertToken token uid =>
    apply held_inserted TokensIntact _ hs
    intro table hins row hrow
    rcases (Table.mem_of_insert hins).mp hrow with hold | rfl
    · exact hs row hold
    · exact hst
  | insertGroup gid oid => exact held_inserted TokensIntact (fun _ _ => same rfl) hs
  | addMember uid gid => exact held_inserted TokensIntact (fun _ _ => same rfl) hs
  | createUser uid passwd => exact held_inserted TokensIntact (fun _ _ => same rfl) hs
  | _ => exact hs

theorem reply_tokensIntact (hreg : s.db.Regular) {k : Nat} {st : Statement}
    {r : Except ExnClass (List Row)} (h : s.db.reply k st tables = (r, tables'))
    (hst : st.IssuesIntact) (hs : TokensIntact tables) : TokensIntact tables' := by
  rcases hreg.later k with hplain | hfails
  · rw [Database.reply_of_plain hplain] at h
    cases h
    exact plain_tokensIntact hst hs
  · rw [Database.reply_of_fails hfails] at h
    cases h
    exact hs

theorem Login.tokensIntact {uid passwd : Str} {r : Except ExnClass Str} {c : Contents}
    (h : Login s uid passwd r c) (hreg : s.db.Regular) (htoken : Intact (generateToken uid passwd))
    (hs : TokensIntact s.db.tables) : TokensIntact c.tables := by
  have noToken {tables : Tables} (hno : s.NoToken uid passwd tables) : TokensIntact tables := by
    obtain ⟨rows, tables0, h0, -, ⟨e, h1⟩ | h1⟩ := hno
    · exact reply_tokensIntact hreg h1 trivial (reply_tokensIntact hreg h0 trivial hs)
    · exact reply_tokensIntact hreg h1 trivial (reply_tokensIntact hreg h0 trivial hs)
  cases h with
  | userFails h0 => exact reply_tokensIntact hreg h0 trivial hs
  | refused h0 hrows => exact reply_tokensIntact hreg h0 trivial hs
  | found h0 hrows h1 =>
    exact reply_tokensIntact hreg h1 trivial (reply_tokensIntact hreg h0 trivial hs)
  | tokenFails hno h2 => exact reply_tokensIntact hreg h2 htoken (noToken hno)
  | issued hno h2 => exact reply_tokensIntact hreg h2 htoken (noToken hno)

theorem Single.tokensIntact {α : Type} {st : Statement} {a : α} {after : Tables → Contents}
    {r : Except ExnClass α} {c : Contents} (h : Single s st a after r c) (hreg : s.db.Regular)
    (hst : st.IssuesIntact) (hafter : ∀ tables, (after tables).tables = tables)
    (hs : TokensIntact s.db.tables) : TokensIntact c.tables := by
  cases h with
  | fails h0 => exact reply_tokensIntact hreg h0 hst hs
  | done h0 =>
    rw [hafter]
    exact reply_tokensIntact hreg h0 hst hs

theorem perform_tokensIntact (order : AssignOrder) (op : Operation) (hreg : s.db.Regular)
    (hop : ∀ uid passwd addr, op = .login uid passwd addr → Intact (generateToken uid passwd))
    (hs : TokensIntact s.db.tables) : TokensIntact (op.perform order s).2.contents.tables := by
  have h := performed order s op
  generalize (op.perform order s).1 = r at h
  generalize (op.perform order s).2.contents = c at h ⊢
  cases h with
  | signup h => exact h.tokensIntact hreg trivial (fun _ => rfl) hs
  | loginFails h => exact h.tokensIntact hreg (hop _ _ _ rfl) hs
  | loggedIn h =>
    have hlogin := h.tokensIntact hreg (hop _ _ _ rfl) hs
    exact hlogin
  | logout => exact hs
  | createGroup h =>
    cases h with
    | groupFails h0 => exact reply_tokensIntact hreg h0 trivial hs
    | memberFails h0 h1 =>
      exact reply_tokensIntact hreg h1 trivial (reply_tokensIntact hreg h0 trivial hs)
    | created h0 h1 =>
      exact reply_tokensIntact hreg h1 trivial (reply_tokensIntact hreg h0 trivial hs)
  | joinGroup h => exact h.tokensIntact hreg trivial (fun _ => rfl) hs
  | leaveGroup h =>
    cases h with
    | memberFails h0 => exact reply_tokensIntact hreg h0 trivial hs
    | left h0 howner => exact reply_tokensIntact hreg h0 trivial hs
    | membersFail h0 howner h1 =>
      exact reply_tokensIntact hreg h1 trivial (reply_tokensIntact hreg h0 trivial hs)
    | groupFails h0 howner h1 h2 =>
      exact reply_tokensIntact hreg h2 trivial
        (reply_tokensIntact hreg h1 trivial (reply_tokensIntact hreg h0 trivial hs))
    | deleted h0 howner h1 h2 =>
      exact reply_tokensIntact hreg h2 trivial
        (reply_tokensIntact hreg h1 trivial (reply_tokensIntact hreg h0 trivial hs))
  | shareFile h => cases h <;> exact hs
  | peers h => cases h <;> exact hs

/-- The token that a parsed request can be given is put together from two of its headers. -/
theorem Parsed.generateToken_intact {tokenMap : OrdMap Str Str} {uid passwd : Str} {addr : SockAddr}
    (h : Parsed req) (hc : classify tokenMap req remoteAddr = .ok (.login uid passwd addr)) :
    Intact (generateToken uid passwd) := by
  obtain ⟨bytes, hreq⟩ := h
  have hproper := Request.proper_of_deserialize hreq
  have hcred := credentials_of_classify hc
  exact (hproper.intact_of_getHeader hcred.username).append
    (hproper.intact_of_getHeader hcred.password)

/-- What every run of parsed requests keeps. -/
structure TokensSound (sys : System) : Prop where
  regular : sys.db.Regular
  tokens : TokensIntact sys.db.tables

/-- A start leaves the tables. -/
theorem start_tables {db : Database} (hreg : db.Regular) : (start db).2.db.tables = db.tables := by
  have h := start_cases hreg
  change (start db).2.contents.tables = db.tables
  generalize (start db).1 = r at h
  generalize (start db).2.contents = c at h ⊢
  cases h with
  | fails hk htables => exact htables
  | loaded => rfl

theorem TokensSound.step {sys sys' : System} {event : Event} (h : TokensSound sys)
    (hevent : event.Parsed) (hstep : System.step order sys event = some sys') :
    TokensSound sys' := by
  refine ⟨(step_via exec_keepsTokens hstep h.regular).1, ?_⟩
  cases System.step_cases hstep with
  | refused hc => exact h.tokens
  | @performed s req remoteAddr op hc =>
    rw [System.db_settle]
    refine perform_tokensIntact order op h.regular ?_ h.tokens
    rintro uid passwd addr rfl
    exact Parsed.generateToken_intact hevent hc
  | started =>
    rw [System.db_settle]
    rw [start_tables h.regular]
    exact h.tokens

theorem tokensSound_of_run {script : List Behaviour} {events : List Event} {sys : System}
    (hscript : ∀ b ∈ script, b = .plain ∨ b = .fails) (hevents : ∀ event ∈ events, event.Parsed)
    (hrun : Machine.run (System.step order) (System.boot script) events = some sys) :
    TokensSound sys := by
  have hreg : (⟨.new, script⟩ : Database).Regular := hscript
  have hreach : System.Reachable order script (System.boot script) := ⟨[], rfl⟩
  have hboot : TokensSound (System.boot script) := by
    refine ⟨regular_of_reachable hreach hscript, ?_⟩
    rw [System.boot, System.db_settle, start_tables hreg]
    intro row hrow
    exact absurd hrow (Table.notMem_empty row)
  exact Machine.run_invariant_of (fun sys event sys' h hevent hstep => h.step hevent hstep) hboot
    hevents hrun

end TokensIntact

/-- Every answer reaches the client. In a run in which the requests come from the parser and SQLite
takes every text plainly or fails, and keeps no row of more than `10 ^ 9` bytes (its
`SQLITE_MAX_LENGTH`), `read_response` gives back every response of `callback` with a body of
fewer than `2 ^ 31` bytes, however its bytes are cut into blocks behind the head. -/
theorem replies_reach_the_client {order : AssignOrder} {script : List Behaviour}
    {events : List Event}
    {s t : Tracker} {req : Request} {remoteAddr : SockAddr} {res : Response} {sock : InetSocket}
    (hscript : ∀ b ∈ script, b = .plain ∨ b = .fails) (hevents : ∀ event ∈ events, event.Parsed)
    (hrun : Machine.run (System.step order) (System.boot script) events = some (.up s))
    (hreq : Parsed req) (hres : callback order req remoteAddr s = (.ok res, t))
    (hrows : ∀ row ∈ t.db.tables.token, row.1.length ≤ 10 ^ 9)
    (hbody : res.body.length < 2 ^ 31) (hsock : Delivers sock)
    (hbytes : sock.arrivals.flatten = res.bytes)
    (hcut : Unsplit responseKind res sock.arrivals) :
    Returns readResponse sock res := by
  have hsound := tokensSound_of_run hscript hevents hrun
  have hafter : TokensSound (.up t) := by
    have hstep : System.step order (.up s) (.request req remoteAddr) = some (.up t) := by
      rw [System.step, hres]
      rfl
    have hevent : Event.Parsed (.request req remoteAddr) := hreq
    exact hsound.step hevent hstep
  have htransparent : res.Transparent ∧ res.contentLength = .ok res.body.length := by
    rcases callback_answers hsound.regular hres with hmem | ⟨token, uid, rfl, hrow⟩ | ⟨peers, rfl⟩
    · exact fixedAnswers_transparent res hmem
    · exact granting_transparent (hafter.tokens _ hrow) (hrows _ hrow)
    · exact listing_transparent (by simpa [listing, Response.setBody] using hbody)
  refine (readResponse_returns_iff hsock htransparent.2 hbytes).mpr ⟨htransparent.1, .inl ?_⟩
  exact hcut.headEndsInBlock hbytes hbody

/-- The token of a first login, in one block. -/
theorem token_reaches_the_client : ∃ s t,
    Machine.run (System.step .rightFirst) (System.boot []) [.request (signingUp "ann" "pw") .new] =
      some (.up s) ∧
    callback .rightFirst (loggingIn "ann" "pw") .new s = (.ok (granting (lit "annpw")), t) ∧
    Returns readResponse (arriving [(granting (lit "annpw")).bytes] .silent)
      (granting (lit "annpw")) := by
  obtain ⟨s, hrun, hcheck⟩ :=
    System.exists_run .rightFirst [] [.request (signingUp "ann" "pw") .new]
    (fun s => (callback .rightFirst (loggingIn "ann" "pw") .new s).1 =
      .ok (granting (lit "annpw")) ∧
      ∀ row ∈ (callback .rightFirst (loggingIn "ann" "pw") .new s).2.db.tables.token.rows,
        row.1.length ≤ 10 ^ 9) (by decide +kernel)
  obtain ⟨hanswer, hrows⟩ := of_decide_eq_true hcheck
  have hres : callback .rightFirst (loggingIn "ann" "pw") .new s = (.ok (granting (lit "annpw")),
      (callback .rightFirst (loggingIn "ann" "pw") .new s).2) := Prod.ext hanswer rfl
  have hparsed : Request.deserialize (signingUp "ann" "pw").bytes = .ok (signingUp "ann" "pw") ∧
      Request.deserialize (loggingIn "ann" "pw").bytes = .ok (loggingIn "ann" "pw") := by
    decide +kernel
  have hsock : Delivers (arriving [(granting (lit "annpw")).bytes] .silent) :=
    delivers_arriving (by decide +kernel) (.inr rfl)
  have hcut : Unsplit responseKind (granting (lit "annpw")) [(granting (lit "annpw")).bytes] :=
    ⟨[], _, [], rfl, by decide +kernel, by decide +kernel⟩
  refine ⟨s, _, hrun, hres, replies_reach_the_client (by simp) ?_ hrun ⟨_, hparsed.2⟩ hres hrows
    (by decide) hsock (List.append_nil _) hcut⟩
  rintro event hevent
  obtain rfl := List.mem_singleton.mp hevent
  exact ⟨_, hparsed.1⟩

end P2PFileSharing.Tracker
