import P2PFileSharing.Tracker.Model

/-!
# Requests as operations

A request is refused from its method, its resource, its headers and the known tokens alone, or it
names an operation. `callback` refuses the first kind without touching the tracker, and performs
the operation of the second kind and answers what it throws.
-/

namespace P2PFileSharing.Tracker

open Http Library

inductive Operation where
  | signup (uid pass : Str)
  | login (uid passwd : Str) (remoteAddr : SockAddr)
  | logout (token : Str)
  | createGroup (uid gid : Str)
  | joinGroup (uid gid : Str)
  | leaveGroup (uid gid : Str)
  | shareFile (uid gid fname serverAddr : Str)
  | peers (uid gid fname serverAddr : Str)
  deriving DecidableEq, Repr

namespace Operation

def perform (order : AssignOrder) : Operation → TrackerM Response
  | signup uid pass => do
    let _ ← sql (.createUser uid pass)
    return ok "successful"
  | login uid passwd remoteAddr => do
    let auth ← Tracker.login uid passwd
    Action.modify fun s => s.withAddress uid remoteAddr
    return (ok "successful").addHeader (lit "Authorization") auth
  | logout token => do
    Tracker.logout token
    return ok "successful"
  | createGroup uid gid => do
    Tracker.createGroup gid uid
    return ok "successful"
  | joinGroup uid gid => do
    Tracker.joinGroup uid gid
    return ok "successful"
  | leaveGroup uid gid => do
    Tracker.leaveGroup uid gid
    return ok "successful"
  | shareFile uid gid fname serverAddr => do
    Tracker.shareFile uid gid fname
    setAddress order uid serverAddr
    return ok "file name entry added"
  | peers uid gid fname serverAddr => do
    setAddress order uid serverAddr
    Action.catching
      (do
        let peers ← getPeers uid gid fname
        return listing peers)
      (answers [(.invalidGidException,
        .new .FORBIDDEN (lit "user not part of group or no such group"))])

def handlers : Operation → List (ExnClass × Response)
  | signup .. => signupHandlers
  | login .. => loginHandlers
  | logout .. => logoutHandlers
  | createGroup .. => createGroupHandlers
  | joinGroup .. => joinGroupHandlers
  | leaveGroup .. => leaveGroupHandlers
  | shareFile .. => shareFileHandlers
  | peers .. => peersHandlers

end Operation

/-- A header, or the answer to a request that does not have it. -/
def need (req : Request) (missing : Response) (key : String) : Except Response Str :=
  match req.getHeader (lit key) with
  | .ok value => .ok value
  | .error _ => .error missing

/-- The token of a request and its user. -/
def needToken (tokenMap : OrdMap Str Str) (req : Request) (missing : Response) :
    Except Response (Str × Str) := do
  let authToken ← need req missing "Authorization"
  match tokenMap.find? authToken with
  | none => .error (.new .UNAUTHORIZED (lit "invalid token"))
  | some uid => .ok (authToken, uid)

/-- A request that needs a token and a group id. -/
def needGroup (tokenMap : OrdMap Str Str) (req : Request) (missing : Response) :
    Except Response (Str × Str) := do
  let (_, uid) ← needToken tokenMap req missing
  let gid ← need req missing "Group-Id"
  .ok (uid, gid)

/-- A request about a file. -/
def needFile (tokenMap : OrdMap Str Str) (req : Request) (missing : Response)
    (op : Str → Str → Str → Str → Operation) : Except Response Operation := do
  let (uid, gid) ← needGroup tokenMap req missing
  let fname ← need req missing "File-Name"
  let serverAddr ← need req missing "Server-Address"
  .ok (op uid gid fname serverAddr)

def badRequest (text : String) : Response := .new .BAD_REQUEST (lit text)

def classifyPost (tokenMap : OrdMap Str Str) (req : Request) (remoteAddr : SockAddr) :
    Except Response Operation :=
  if req.resource = lit "/signup" then do
    let uid ← need req (badRequest "user id missing") "Username"
    let pass ← need req (badRequest "user id missing") "Password"
    .ok (.signup uid pass)
  else if req.resource = lit "/login" then do
    let uid ← need req (badRequest "user id missing") "Username"
    let passwd ← need req (badRequest "user id missing") "Password"
    .ok (.login uid passwd remoteAddr)
  else if req.resource = lit "/logout" then do
    let (authToken, _) ← needToken tokenMap req (badRequest "token missing")
    .ok (.logout authToken)
  else if req.resource = lit "/create_group" then do
    let (uid, gid) ← needGroup tokenMap req (badRequest "missing group id")
    .ok (.createGroup uid gid)
  else if req.resource = lit "/join_group" then do
    let (uid, gid) ← needGroup tokenMap req (badRequest "token missing")
    .ok (.joinGroup uid gid)
  else if req.resource = lit "/leave_group" then do
    let (uid, gid) ← needGroup tokenMap req (badRequest "token missing")
    .ok (.leaveGroup uid gid)
  else if req.resource = lit "/share_file" then
    needFile tokenMap req (badRequest "header missing") .shareFile
  else .error (.new .NOT_FOUND (lit "resource not found"))

/-- The operation that a request asks for, or the answer that refuses it. -/
def classify (tokenMap : OrdMap Str Str) (req : Request) (remoteAddr : SockAddr) :
    Except Response Operation :=
  match req.method with
  | .GET =>
    if req.resource = lit "/peers" then
      needFile tokenMap req (badRequest "header missing") .peers
    else .error (.new .NOT_FOUND (lit "resource not found"))
  | .POST => classifyPost tokenMap req remoteAddr
  | .UNDEFINED => .error (.new .METHOD_NOT_ALLOWED (lit "method not allowed"))

/-- What becomes of the outcome of an operation: its own handlers come first, then `callback`
takes every `std::exception`. -/
def answered (handlers : List (ExnClass × Response)) :
    Except ExnClass Response → Except ExnClass Response
  | .ok res => .ok res
  | .error e =>
    match handlerFor handlers e with
    | some res => .ok res
    | none =>
      if ExnClass.exception.takes e then
        .ok (.new .INTERNAL_SERVER_ERROR (lit "server error"))
      else .error e

/-- An operation with its answer. -/
def Operation.respond (order : AssignOrder) (op : Operation) : TrackerM Response := fun s =>
  (answered op.handlers (op.perform order s).1, (op.perform order s).2)

/-- What a request leads to once it is classified. -/
def react (order : AssignOrder) : Except Response Operation → TrackerM Response
  | .error res => pure res
  | .ok op => op.respond order

theorem answers_of_some {hs : List (ExnClass × Response)} {e : ExnClass} {res : Response}
    (h : handlerFor hs e = some res) : answers hs e = some (pure res) := by
  simp [answers, h]

theorem answers_of_none {hs : List (ExnClass × Response)} {e : ExnClass}
    (h : handlerFor hs e = none) : answers hs e = none := by
  simp [answers, h]

/-! ## The endpoints perform the operations -/

section Follows

variable (order : AssignOrder) {hs : List (ExnClass × Response)} {req : Request}
  {missing : Response} {s : Tracker}

/-- An endpoint does what the classification of its request says. -/
def Follows (hs : List (ExnClass × Response)) (s : Tracker) (x : TrackerM Response) :
    Except Response Operation → Prop
  | .ok op => x s = op.perform order s ∧ hs = op.handlers
  | .error res => x s = (.ok res, s) ∨
      x s = (.error .noSuchHeaderException, s) ∧
        handlerFor hs .noSuchHeaderException = some res

variable {order}

theorem follows_header (hmissing : handlerFor hs .noSuchHeaderException = some missing)
    (key : String) {k : Str → TrackerM Response} {c : Str → Except Response Operation}
    (h : ∀ v, Follows order hs s (k v) (c v)) :
    Follows order hs s (header req key >>= k) (need req missing key >>= c) := by
  rw [header, need]
  unfold Request.getHeader
  split
  · exact h _
  · exact .inr ⟨rfl, hmissing⟩

/-- Only the state that the endpoint starts in matters. -/
theorem Follows.congr {x y : TrackerM Response} {c : Except Response Operation} (hxy : x s = y s)
    (h : Follows order hs s y c) : Follows order hs s x c := by
  unfold Follows at h ⊢
  rwa [hxy]

theorem follows_withToken (hmissing : handlerFor hs .noSuchHeaderException = some missing)
    {k : Str → Str → TrackerM Response} {c : Str × Str → Except Response Operation}
    (h : ∀ token uid, Follows order hs s (k token uid) (c (token, uid))) :
    Follows order hs s (withToken req k) (needToken s.tokenMap req missing >>= c) := by
  rw [withToken, needToken, bind_assoc]
  refine follows_header hmissing "Authorization" fun token => ?_
  cases hfind : s.tokenMap.find? token with
  | none =>
    have hnot : token ∉ s.tokenMap := OrdMap.notMem_iff.mpr hfind
    exact .inl (by rw [Action.get_bind_run, if_pos hnot, Action.pure_run])
  | some uid =>
    have hmem : token ∈ s.tokenMap := OrdMap.mem_iff_exists.mpr ⟨uid, hfind⟩
    refine (h token uid).congr ?_
    rw [Action.get_bind_run, if_neg (not_not.mpr hmem), tokentToUserid, hfind, Option.getD_some]

theorem follows_group (hmissing : handlerFor hs .noSuchHeaderException = some missing)
    {k : Str → Str → TrackerM Response} {c : Str × Str → Except Response Operation}
    (h : ∀ uid gid, Follows order hs s (k uid gid) (c (uid, gid))) :
    Follows order hs s (withToken req fun _ uid => header req "Group-Id" >>= k uid)
      (needGroup s.tokenMap req missing >>= c) := by
  simp only [needGroup, bind_assoc]
  refine follows_withToken hmissing fun _ uid => ?_
  exact follows_header hmissing "Group-Id" fun gid => h uid gid

theorem follows_file (hmissing : handlerFor hs .noSuchHeaderException = some missing)
    {k : Str → Str → Str → Str → TrackerM Response} {op : Str → Str → Str → Str → Operation}
    (h : ∀ uid gid fname serverAddr,
      Follows order hs s (k uid gid fname serverAddr) (.ok (op uid gid fname serverAddr))) :
    Follows order hs s
      (withToken req fun _ uid => header req "Group-Id" >>= fun gid =>
        header req "File-Name" >>= fun fname => header req "Server-Address" >>= k uid gid fname)
      (needFile s.tokenMap req missing op) := by
  rw [needFile]
  refine follows_group hmissing fun uid gid => ?_
  refine follows_header hmissing "File-Name" fun fname => ?_
  exact follows_header hmissing "Server-Address" fun serverAddr => h uid gid fname serverAddr

/-- What `callback` makes of an endpoint. -/
theorem Follows.react_eq {x : TrackerM Response} {c : Except Response Operation}
    (h : Follows order hs s x c) :
    Action.catching (x.catching (answers hs))
      (answers [(.exception, .new .INTERNAL_SERVER_ERROR (lit "server error"))]) s =
      react order c s := by
  rcases c with res | op
  · rcases h with h | ⟨h, hres⟩
    · rw [Action.catching_of_ok (Action.catching_of_ok h)]
      rfl
    · exact Action.catching_of_ok (Action.catching_of_error h (answers_of_some hres))
  · obtain ⟨h, rfl⟩ := h
    rw [react, Operation.respond, ← h]
    rcases hrun : x s with ⟨e | res, t⟩
    · rw [answered]
      cases hhandler : handlerFor op.handlers e with
      | some res =>
        exact Action.catching_of_ok (Action.catching_of_error hrun (answers_of_some hhandler))
      | none =>
        have hout := Action.catching_of_unmatched hrun (answers_of_none hhandler)
        by_cases htakes : ExnClass.exception.takes e = true
        · rw [Action.catching_of_error hout (answers_of_some
            ((handlerFor_singleton _ _ e).trans (if_pos htakes)))]
          simp [htakes]
        · rw [Action.catching_of_unmatched hout (answers_of_none
            ((handlerFor_singleton _ _ e).trans (if_neg htakes)))]
          simp [htakes]
    · exact Action.catching_of_ok (Action.catching_of_ok hrun)

end Follows

/-- `callback` refuses a request, or performs the operation that it asks for. -/
theorem callback_eq (order : AssignOrder) (req : Request) (remoteAddr : SockAddr) (s : Tracker) :
    callback order req remoteAddr s = react order (classify s.tokenMap req remoteAddr) s := by
  rw [callback, classify]
  cases hm : req.method with
  | UNDEFINED => rfl
  | GET =>
    by_cases hpeers : req.resource = lit "/peers"
    · rw [get, if_pos hpeers, if_pos hpeers]
      exact Follows.react_eq (follows_file (by decide) fun uid gid fname serverAddr => ⟨rfl, rfl⟩)
    · rw [get, if_neg hpeers, if_neg hpeers]
      rfl
  | POST =>
    dsimp only
    unfold post classifyPost
    split_ifs
    · exact Follows.react_eq (follows_header (by decide) _ fun uid =>
        follows_header (by decide) _ fun pass => ⟨rfl, rfl⟩)
    · exact Follows.react_eq (follows_header (by decide) _ fun uid =>
        follows_header (by decide) _ fun passwd => ⟨rfl, rfl⟩)
    · exact Follows.react_eq (follows_withToken (by decide) fun token uid => ⟨rfl, rfl⟩)
    · exact Follows.react_eq (follows_group (by decide) fun uid gid => ⟨rfl, rfl⟩)
    · exact Follows.react_eq (follows_group (by decide) fun uid gid => ⟨rfl, rfl⟩)
    · exact Follows.react_eq (follows_group (by decide) fun uid gid => ⟨rfl, rfl⟩)
    · exact Follows.react_eq (follows_file (by decide) fun uid gid fname serverAddr => ⟨rfl, rfl⟩)
    · rfl

/-! ## Requests that are refused -/

/-- A header that no request for the resource can do without. -/
def neededHeader (resource : Str) : Str :=
  if resource = lit "/signup" ∨ resource = lit "/login" then lit "Username"
  else if resource = lit "/logout" then lit "Authorization"
  else if resource = lit "/share_file" ∨ resource = lit "/peers" then lit "Server-Address"
  else lit "Group-Id"

section Refusals

variable {tokenMap : OrdMap Str Str} {req : Request} {remoteAddr : SockAddr}

theorem need_of_missing (missing : Response) {key : String} (h : lit key ∉ req.headers) :
    need req missing key = .error missing := by
  rw [need, Request.getHeader, OrdMap.notMem_iff.mp h]

theorem needToken_refuses (missing : Response) (h : lit "Authorization" ∉ req.headers) :
    needToken tokenMap req missing = .error missing := by
  rw [needToken, need_of_missing missing h]
  rfl

theorem needGroup_refuses (missing : Response) (h : lit "Group-Id" ∉ req.headers)
    (k : Str × Str → Except Response Operation) :
    ∃ res, (needGroup tokenMap req missing >>= k) = .error res := by
  rw [needGroup, need_of_missing missing h]
  cases needToken tokenMap req missing with
  | error res => exact ⟨res, rfl⟩
  | ok found => exact ⟨missing, rfl⟩

theorem needFile_refuses (missing : Response) (op : Str → Str → Str → Str → Operation)
    (h : lit "Server-Address" ∉ req.headers) :
    ∃ res, needFile tokenMap req missing op = .error res := by
  rw [needFile, need_of_missing missing h]
  cases needGroup tokenMap req missing with
  | error res => exact ⟨res, rfl⟩
  | ok found =>
    cases need req missing "File-Name" with
    | error res => exact ⟨res, rfl⟩
    | ok fname => exact ⟨missing, rfl⟩

/-- A request without the header that it needs names no operation. -/
theorem classify_refuses (h : neededHeader req.resource ∉ req.headers) :
    ∃ res, classify tokenMap req remoteAddr = .error res := by
  have hneeded {resource : String} {key : Str} (hr : req.resource = lit resource)
      (hkey : neededHeader (lit resource) = key) : key ∉ req.headers := by
    rwa [← hkey, ← hr]
  rw [classify]
  cases req.method with
  | UNDEFINED => exact ⟨_, rfl⟩
  | GET =>
    dsimp only
    split_ifs with hpeers
    · exact needFile_refuses _ _ (hneeded hpeers (by decide))
    · exact ⟨_, rfl⟩
  | POST =>
    dsimp only
    unfold classifyPost
    split_ifs with hsignup hlogin hlogout hcreate hjoin hleave hshare
    · rw [need_of_missing _ (hneeded hsignup (by decide))]
      exact ⟨_, rfl⟩
    · rw [need_of_missing _ (hneeded hlogin (by decide))]
      exact ⟨_, rfl⟩
    · rw [needToken_refuses _ (hneeded hlogout (by decide))]
      exact ⟨_, rfl⟩
    · exact needGroup_refuses _ (hneeded hcreate (by decide)) _
    · exact needGroup_refuses _ (hneeded hjoin (by decide)) _
    · exact needGroup_refuses _ (hneeded hleave (by decide)) _
    · exact needFile_refuses _ _ (hneeded hshare (by decide))
    · exact ⟨_, rfl⟩

end Refusals

end P2PFileSharing.Tracker
