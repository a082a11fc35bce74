import P2PFileSharing.Peer.TrackerClient
import P2PFileSharing.Tracker.Membership
import P2PFileSharing.Tracker.Tokens

/-!
# Calls of the client

The request of a call goes through the codec to the tracker. What is left of a header on this way
is what the tracker stores and compares.
-/

namespace P2PFileSharing.Tracker

open Http Library Peer Util

/-- A client whose requests are serialized, parsed and given to `callback`. -/
def overCodec (order : AssignOrder) (remoteAddr : SockAddr) : HttpClient Tracker where
  connect := pure ()
  sendRequest req := do
    let received ← Action.ofExcept req.throughCodec
    Action.mapError Fault.thrown (callback order received remoteAddr)
  disconnect := pure ()

section Sending

variable {order : AssignOrder} {remoteAddr : SockAddr} {req received : Request} {s t : Tracker}

theorem sendRequest_run (h : req.throughCodec = .ok received) :
    (overCodec order remoteAddr).sendRequest req s =
      ((callback order received remoteAddr s).1.mapError Fault.thrown,
        (callback order received remoteAddr s).2) := by
  change (Action.ofExcept req.throughCodec >>= fun received =>
    Action.mapError Fault.thrown (callback order received remoteAddr)) s = _
  rw [h]
  rfl

theorem sendRequest_of_error {f : Fault} (h : req.throughCodec = .error f) :
    (overCodec order remoteAddr).sendRequest req s = (.error f, s) :=
  Action.bind_of_error (Prod.ext h rfl)

theorem sendRequest_eq_ok {res : Response} :
    (overCodec order remoteAddr).sendRequest req s = (.ok res, t) ↔
      ∃ received, req.throughCodec = .ok received ∧
        callback order received remoteAddr s = (.ok res, t) := by
  cases harrives : req.throughCodec with
  | error f =>
    simp [sendRequest_of_error harrives]
  | ok received =>
    rw [sendRequest_run harrives]
    rcases hrun : callback order received remoteAddr s with ⟨e | res', t'⟩
    · simp [Except.mapError, hrun]
    · simp [Except.mapError, hrun]

theorem checkStatus_eq_ok {res : Response} :
    (TrackerClient.checkStatus res : Action Tracker Fault Unit) s = (.ok (), t) ↔
      res.status = .OK ∧ s = t := by
  rw [TrackerClient.checkStatus]
  split
  · simp [*]
  · simp [*]

/-- A call that returns: its request has arrived, and was answered OK. -/
theorem call_eq_ok (h : TrackerClient.call (overCodec order remoteAddr) req s = (.ok (), t)) :
    ∃ received res, req.throughCodec = .ok received ∧
      callback order received remoteAddr s = (.ok res, t) ∧ res.status = .OK := by
  obtain ⟨_, _, ⟨⟩, hrest⟩ := Action.bind_eq_ok.mp h
  obtain ⟨res, t', hsend, hrest'⟩ := Action.bind_eq_ok.mp hrest
  obtain ⟨_, t'', hstatus, hend⟩ := Action.bind_eq_ok.mp hrest'
  cases hend
  obtain ⟨hok, rfl⟩ := checkStatus_eq_ok.mp hstatus
  obtain ⟨received, harrives, hrun⟩ := sendRequest_eq_ok.mp hsend
  exact ⟨received, res, harrives, hrun, hok⟩

end Sending

/-! ## Names and passwords -/

section Passwords

variable {order : AssignOrder} {remoteAddr : SockAddr} {req received : Request} {s t : Tracker}
  {u p : Str}

/-- What arrives is a login of a registered user with his password, who has a token or can be given
one. -/
def Admits (s : Tracker) (req : Request) : Prop :=
  ∃ received uid passwd, req.throughCodec = .ok received ∧
    Credentials "/login" received uid passwd ∧ (uid, passwd) ∈ s.db.tables.user ∧
      TokenFree s.db.tables uid passwd

theorem credentials_of_classify {tokenMap : OrdMap Str Str} {uid passwd : Str} {addr : SockAddr}
    (h : classify tokenMap req remoteAddr = .ok (.login uid passwd addr)) :
    Credentials "/login" req uid passwd := by
  obtain ⟨hm, hr⟩ := of_classify_login h
  rw [classify, hm] at h
  simp +decide only [classifyPost, hr, if_true, if_false] at h
  obtain ⟨uid', huid, h⟩ := exists_of_bind_eq_ok h
  obtain ⟨passwd', hpasswd, ⟨⟩⟩ := exists_of_bind_eq_ok h
  exact ⟨hm, hr, getHeader_of_need huid, getHeader_of_need hpasswd⟩

/-- Only the answer to a login carries a token. -/
theorem login_of_authorization {op : Operation} {res : Response} {token : Str}
    (hres : (op.perform order s).1 = .ok res)
    (htoken : res.getHeader (lit "Authorization") = .ok token) :
    ∃ uid passwd addr, op = .login uid passwd addr := by
  have hfixed : ∀ res ∈ fixedAnswers, ∀ e ∈ res.headers.entries, e.1 ≠ lit "Authorization" := by
    decide +kernel
  rcases perform_answers hres with hmem | ⟨uid, passwd, addr, -, -, hop, -⟩ | ⟨_, _, _, _, peers,
    -, rfl⟩
  · exfalso
    rw [Response.getHeader] at htoken
    split at htoken
    · exact hfixed res hmem _ (OrdMap.mem_entries.mpr ‹_›) rfl
    · cases htoken
  · exact ⟨uid, passwd, addr, hop⟩
  · simp +decide [listing, ok, Response.setBody, Response.addHeader, Response.getHeader,
      Response.new, OrdMap.find?_insert] at htoken

theorem login_eq_ok {q token : Str} :
    TrackerClient.login (overCodec order remoteAddr) u q s = (.ok token, t) ↔
      ∃ received res,
        (TrackerClient.loginRequest u q).throughCodec = .ok received ∧
        callback order received remoteAddr s = (.ok res, t) ∧ res.status = .OK ∧
          res.getHeader (lit "Authorization") = .ok token := by
  rw [TrackerClient.login]
  constructor
  · intro h
    obtain ⟨_, _, ⟨⟩, hrest⟩ := Action.bind_eq_ok.mp h
    obtain ⟨res, t', hsend, hrest'⟩ := Action.bind_eq_ok.mp hrest
    obtain ⟨received, harrives, hrun⟩ := sendRequest_eq_ok.mp hsend
    by_cases hok : res.status = .OK
    · rw [if_pos hok] at hrest'
      obtain ⟨token', t'', htoken, hend⟩ := Action.bind_eq_ok.mp hrest'
      obtain ⟨htoken, rfl⟩ := Action.ofExcept_eq_ok.mp htoken
      cases hend
      refine ⟨received, res, harrives, hrun, hok, ?_⟩
      cases hget : res.getHeader (lit "Authorization") with
      | error e =>
        rw [hget] at htoken
        cases htoken
      | ok token' =>
        rw [hget] at htoken
        cases htoken
        rfl
    · rw [if_neg hok] at hrest'
      cases hrest'
  · rintro ⟨received, res, harrives, hrun, hok, htoken⟩
    have hsend := sendRequest_eq_ok.mpr ⟨received, harrives, hrun⟩
    refine Action.bind_eq_ok.mpr ⟨(), s, rfl, Action.bind_eq_ok.mpr ⟨res, t, hsend, ?_⟩⟩
    rw [if_pos hok, htoken]
    rfl

/-- The client is given a token exactly where what arrives is admitted. -/
theorem login_ok_iff_admits (hsql : s.db.script = []) {q : Str} :
    (∃ token, (TrackerClient.login (overCodec order remoteAddr) u q s).1 = .ok token) ↔
      Admits s (TrackerClient.loginRequest u q) := by
  constructor
  · rintro ⟨token, htoken⟩
    rcases hlogin : TrackerClient.login (overCodec order remoteAddr) u q s with ⟨result, t⟩
    rw [hlogin] at htoken
    subst htoken
    obtain ⟨received, res, harrives, hrun, hok, hheader⟩ := login_eq_ok.mp hlogin
    obtain ⟨op, hc, hperform⟩ := exists_perform_of_ok (congrArg Prod.fst hrun) hok
    obtain ⟨uid, passwd, addr, rfl⟩ := login_of_authorization hperform hheader
    obtain ⟨token', -, hlogin, -⟩ := perform_login_ok hperform
    exact ⟨received, uid, passwd, harrives, credentials_of_classify hc,
      (login_ok_iff hsql).mp ⟨token', hlogin⟩⟩
  · rintro ⟨received, uid, passwd, harrives, hcred, hadmits⟩
    obtain ⟨res, t, hrun, hok, token, htoken, -⟩ :=
      hcred.logsIn_iff.mpr ((login_ok_iff hsql).mpr hadmits)
    have hlogin := login_eq_ok.mpr ⟨received, res, harrives, hrun, hok, htoken⟩
    exact ⟨token, congrArg Prod.fst hlogin⟩

/-- A request with too long a head that arrives is refused, if the header that it needs would come
last or is not sent at all. -/
theorem refused_of_overlong {method : Method} {resource : String} {headers : List (String × Str)}
    (hresource : CrlfFree (lit resource) ∧ 32 ∉ lit resource)
    (hkeys : ∀ h ∈ headers, CrlfFree (lit h.1) ∧ 58 ∉ lit h.1)
    (hvalues : ∀ h ∈ headers, CrlfFree h.2)
    (hlarge : 2 ^ 31 ≤ (TrackerClient.requestTo method resource headers).serializeHead.length)
    (hreceived : (TrackerClient.requestTo method resource headers).throughCodec = .ok received)
    (keys : List String) (last : String) (hsame : headers.map Prod.fst = keys)
    (hlast : lit last ∈ ("Content-Length" :: keys).map lit ∧
      ∀ key ∈ ("Content-Length" :: keys).map lit, key ≤ lit last)
    (hneeded : neededHeader (lit resource) ∈ ("Content-Length" :: keys).map lit →
      neededHeader (lit resource) = lit last) (tokenMap : OrdMap Str Str) :
    ∃ res, classify tokenMap received remoteAddr = .error res := by
  refine classify_refuses fun hmem => ?_
  rcases TrackerClient.received_of_overlong hresource hkeys hvalues hlarge hreceived hsame hlast.1
    hlast.2 with hnone | ⟨-, hr, hrest⟩
  · rw [hnone] at hmem
    exact OrdMap.notMem_empty _ hmem
  · rw [hr] at hmem
    obtain ⟨hin, hne⟩ := hrest _ hmem
    exact hne (hneeded hin)

/-- A name and a password that arrive are what the codec leaves of them. -/
theorem credentials_arrive {resource : String}
    (hresource : CrlfFree (lit resource) ∧ 32 ∉ lit resource)
    (hu : CrlfFree u) (hp : CrlfFree p)
    (hsmall : (TrackerClient.requestTo .POST resource
      [("Username", u), ("Password", p)]).serializeHead.length < 2 ^ 31) :
    ∃ received, (TrackerClient.requestTo .POST resource
        [("Username", u), ("Password", p)]).throughCodec = .ok received ∧
      Credentials resource received (carriedValue u) (carriedValue p) := by
  refine ⟨_, TrackerClient.throughCodec_requestTo hresource ?_ ?_ hsmall, ?_⟩
  · simp +decide
  · simp [hu, hp]
  · constructor
    · rfl
    · rfl
    · simp +decide [TrackerClient.requestTo, TrackerClient.carriedHeaders, Request.getHeader,
        Request.addHeader, OrdMap.find?_insert]
    · simp +decide [TrackerClient.requestTo, TrackerClient.carriedHeaders, Request.getHeader,
        Request.addHeader]

theorem length_credentials (resource : String) (u p : Str) :
    (TrackerClient.requestTo .POST resource
      [("Username", u), ("Password", p)]).serializeHead.length =
        (lit resource).length + u.length + p.length + 61 := by
  have hkeys : (lit "Username").length = 8 ∧ (lit "Password").length = 8 := by decide
  have hpost : Method.POST.toStr.length = 4 := by decide
  rw [TrackerClient.length_requestTo (by simp +decide), hpost]
  simp only [List.map_cons, List.map_nil, List.sum_cons, List.sum_nil, hkeys.1, hkeys.2]
  omega

/-- A sign-up that is answered OK has been small enough for the parser. -/
theorem signup_small (hu : CrlfFree u) (hp : CrlfFree p)
    (h : TrackerClient.signup (overCodec order remoteAddr) u p s = (.ok (), t)) :
    (TrackerClient.signupRequest u p).serializeHead.length < 2 ^ 31 := by
  obtain ⟨received, res, harrives, hrun, hok⟩ := call_eq_ok h
  obtain ⟨op, hc, -⟩ := exists_perform_of_ok (congrArg Prod.fst hrun) hok
  by_contra hlarge
  obtain ⟨res', hrefused⟩ := refused_of_overlong (by decide) (by simp +decide) (by simp [hu, hp])
    (Nat.le_of_not_lt hlarge) harrives ["Username", "Password"] "Username" rfl (by decide)
    (by decide) s.tokenMap
  rw [hrefused] at hc
  cases hc

/-- After a sign-up of the user, a login comes through the codec exactly if its head has fewer than
`2 ^ 31` bytes: the next one that the parser could read would need a longer name. -/
theorem login_defined_iff {q : Str} (hu : CrlfFree u) (hq : CrlfFree q)
    (hsignup : (TrackerClient.signupRequest u p).serializeHead.length < 2 ^ 31) :
    (TrackerClient.loginRequest u q).throughCodec ≠ .error .undefined ↔
      (TrackerClient.loginRequest u q).serializeHead.length < 2 ^ 31 := by
  have hresource : CrlfFree (lit "/login") ∧ 32 ∉ lit "/login" := by decide
  constructor
  · intro hdefined
    have hsurvives := Request.throughCodec_defined_iff.mp hdefined
    by_contra hlarge
    have hlength := hsurvives.length rfl (TrackerClient.requestTo_proper hresource
      (by simp +decide) (by simp [hu, hq])) (Nat.le_of_not_lt hlarge)
    have hpassword : (TrackerClient.loginRequest u q).headers.find? (lit "Password") =
        some ⟨lit "Password", q⟩ := OrdMap.find?_insert_self _ _ _
    have hpart := hsurvives.1 _ (Request.part_of_header hpassword)
    have hkey : (lit "Password").length = 8 := by decide
    have hpaths : (lit "/signup").length = 7 ∧ (lit "/login").length = 6 := by decide
    have hsep : (lit ":" ++ SPACE).length = 2 ∧ CRLF.length = 2 := by decide
    rw [TrackerClient.signupRequest, length_credentials, hpaths.1] at hsignup
    rw [TrackerClient.loginRequest, length_credentials, hpaths.2] at hlength
    simp only [Header.serialize, List.length_append, hkey] at hpart hsep
    omega
  · intro hsmall
    obtain ⟨received, hreceived, -⟩ := credentials_arrive hresource hu hq hsmall
    rw [TrackerClient.loginRequest, hreceived]
    simp

end Passwords

/-- The rows of two passwords of a user are the same row. -/
theorem eq_of_mem_user {tables : Tables} {uid p q : Str} (hp : (uid, p) ∈ tables.user)
    (hq : (uid, q) ∈ tables.user) : q = p := by
  have hsame : (uid, q) = (uid, p) := Table.eq_of_clash (fun _ _ => Eq.symm) hq hp rfl
  exact congrArg Prod.snd hsame

theorem Credentials.unique {resource : String} {req : Request} {uid uid' passwd passwd' : Str}
    (h : Credentials resource req uid passwd) (h' : Credentials resource req uid' passwd') :
    uid' = uid ∧ passwd' = passwd :=
  ⟨Except.ok.inj (h'.username.symm.trans h.username),
    Except.ok.inj (h'.password.symm.trans h.password)⟩

/-- The login of a user whose row is known. -/
theorem admits_iff {s : Tracker} {req received : Request} {uid p q : Str}
    (hreceived : req.throughCodec = .ok received) (hlogin : Credentials "/login" received uid q)
    (huser : (uid, p) ∈ s.db.tables.user) :
    Admits s req ↔ q = p ∧ TokenFree s.db.tables uid p := by
  constructor
  · rintro ⟨received', uid', q', hreceived', hlogin', hmem, hfree⟩
    obtain rfl : received = received' := Except.ok.inj (hreceived.symm.trans hreceived')
    obtain ⟨rfl, rfl⟩ := hlogin.unique hlogin'
    have hsame : q' = p := eq_of_mem_user huser hmem
    exact ⟨hsame, by rwa [hsame] at hfree⟩
  · rintro ⟨rfl, hfree⟩
    exact ⟨received, uid, q, hreceived, hlogin, huser, hfree⟩

/-- Where SQL takes every text plainly, a login after a sign-up has its behaviour defined and is
accepted only with the same password, exactly if its head has fewer than `2 ^ 31` bytes, and the
passwords are the same, or differ up to their first colons, or the user has no token and his token
is not free. -/
theorem password_exact_iff {order : AssignOrder} {s t v : Tracker} {mid : List Event}
    {u p q : Str} {remoteAddr remoteAddr' : SockAddr} (hsql : s.db.script = [])
    (hu : CrlfFree u) (hp : CrlfFree p) (hq : CrlfFree q)
    (hsignup : TrackerClient.signup (overCodec order remoteAddr) u p s = (.ok (), t))
    (hmid : Machine.run (System.step order) (.up t) mid = some (.up v)) :
    ((TrackerClient.loginRequest u q).throughCodec ≠ .error .undefined ∧
        ((∃ token, (TrackerClient.login (overCodec order remoteAddr') u q v).1 = .ok token) →
          q = p)) ↔
      (TrackerClient.loginRequest u q).serializeHead.length < 2 ^ 31 ∧
        (q = p ∨ carriedValue q ≠ carriedValue p ∨
          ¬ TokenFree v.db.tables (carriedValue u) (carriedValue p)) := by
  have hsmall := signup_small hu hp hsignup
  obtain ⟨received, res, harrives, hrun, hok⟩ := call_eq_ok hsignup
  have ht : Consumes s.db t.db := by
    have hdb := callback_via exec_consumes order received remoteAddr s
    rwa [hrun] at hdb
  have hv : v.db.script = [] := (run_via exec_consumes hmid : Consumes t.db v.db).nil (ht.nil hsql)
  rw [login_defined_iff hu hq hsmall, login_ok_iff_admits hv]
  refine and_congr_right fun hsmall' => ?_
  have hresource : (CrlfFree (lit "/signup") ∧ 32 ∉ lit "/signup") ∧
      CrlfFree (lit "/login") ∧ 32 ∉ lit "/login" := by decide
  obtain ⟨received', harrives', hcred⟩ := credentials_arrive hresource.1 hu hp hsmall
  obtain rfl : received' = received := Except.ok.inj (harrives'.symm.trans harrives)
  have huser : (carriedValue u, carriedValue p) ∈ v.db.tables.user := by
    obtain ⟨huser, hnil⟩ := SignsUp.user ⟨hcred, res, hrun, hok⟩ hsql
    exact (run_via (exec_keepsHeld (plain_keepsUser _)) hmid (regular_of_nil hnil)).2 huser
  obtain ⟨asked, hasked, hlogin⟩ := credentials_arrive hresource.2 hu hq hsmall'
  have hadmits : Admits v (TrackerClient.loginRequest u q) ↔ carriedValue q = carriedValue p ∧
      TokenFree v.db.tables (carriedValue u) (carriedValue p) := admits_iff hasked hlogin huser
  rw [hadmits, imp_iff_or_not, not_and_or]

/-- A tracker that has just been started on an empty database. -/
def fresh : Tracker := (start ⟨.new, []⟩).2

/-- A user who signs up with one password, and a login with another one. -/
def signedUp (uid passwd : String) : Tracker :=
  (TrackerClient.signup (overCodec .rightFirst .new) (lit uid) (lit passwd) fresh).2

theorem signup_answered : ∀ passwd ∈ ["pw", "pw:1"],
    (TrackerClient.signup (overCodec .rightFirst .new) (lit "ann") (lit passwd) fresh).1 =
      .ok () := by
  decide +kernel

/-- Two passwords that differ behind their first colon. -/
theorem other_password_accepted : ∃ t,
    System.boot [] = .up fresh ∧ (∀ row ∈ fresh.db.tables.user, row.1 ≠ lit "ann") ∧
    (∀ w ∈ [lit "ann", lit "pw:1", lit "pw:2"], 13 ∉ w ∧ 10 ∉ w ∧ trim w = w) ∧
    TrackerClient.signup (overCodec .rightFirst .new) (lit "ann") (lit "pw:1") fresh = (.ok (), t) ∧
    (TrackerClient.login (overCodec .rightFirst .new) (lit "ann") (lit "pw:2") t).1 =
      .ok (lit "annpw") ∧ lit "pw:2" ≠ lit "pw:1" := by
  refine ⟨signedUp "ann" "pw:1", rfl, by decide +kernel, by decide, ?_, by decide +kernel,
    by decide⟩
  exact Prod.ext (signup_answered _ (by decide)) rfl

/-- Two passwords without colons. -/
theorem exact_without_colons :
    (TrackerClient.loginRequest (lit "ann") (lit "px")).throughCodec ≠ .error .undefined ∧
      ((∃ token, (TrackerClient.login (overCodec .rightFirst .new) (lit "ann") (lit "px")
        (signedUp "ann" "pw")).1 = .ok token) → lit "px" = lit "pw") := by
  have hsignup : TrackerClient.signup (overCodec .rightFirst .new) (lit "ann") (lit "pw") fresh =
      (.ok (), signedUp "ann" "pw") := Prod.ext (signup_answered _ (by decide)) rfl
  have hmid : Machine.run (System.step .rightFirst) (.up (signedUp "ann" "pw")) [] =
      some (.up (signedUp "ann" "pw")) := rfl
  exact (password_exact_iff rfl (by decide) (by decide) (by decide) hsignup hmid).mpr
    ⟨by decide +kernel, .inr (.inl (by decide))⟩

end P2PFileSharing.Tracker
