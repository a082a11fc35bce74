import P2PFileSharing.Http.Server
import P2PFileSharing.Tracker.Database

/-!
# The tracker

The groups, the tokens and the addresses that the tracker keeps in memory beside its database,
with the operations on them and the endpoints that call these operations.
-/

namespace P2PFileSharing

open Http Library

namespace Tracker

structure File where
  seeders : OrdSet Str
  leechers : OrdSet Str
  fname : Str
  groupId : Str
  deriving DecidableEq

/-- A `file` as `std::map` creates it for a new key. -/
instance : Inhabited File := ⟨⟨∅, ∅, [], []⟩⟩

structure Group where
  id : Str
  ownerId : Str
  members : OrdSet Str
  files : OrdMap Str File
  deriving DecidableEq

/-- A `group` as `std::map` creates it for a new key. -/
instance : Inhabited Group := ⟨⟨[], [], ∅, ∅⟩⟩

end Tracker

structure Tracker where
  db : Tracker.Database
  groups : OrdMap Str Tracker.Group
  tokenMap : OrdMap Str Str
  address : OrdMap Str SockAddr
  deriving DecidableEq

namespace Tracker

/-- The two sides of `address[..] = sock_addr(stoll(..))` are evaluated in an order that C++11
leaves open. -/
inductive AssignOrder where
  | leftFirst
  | rightFirst
  deriving DecidableEq, Repr

/-- What a request does to the tracker. -/
abbrev TrackerM := Action Tracker ExnClass

/-- `map[key]`, which creates a value for a new key. -/
def subscript {κ ν : Type} [LinearOrder κ] [Inhabited ν] (m : OrdMap κ ν) (k : κ) : ν :=
  (m.find? k).getD default

@[simp] theorem subscript_insert_self {κ ν : Type} [LinearOrder κ] [Inhabited ν] (m : OrdMap κ ν)
    (k : κ) (v : ν) : subscript (m.insert k v) k = v := by
  rw [subscript, OrdMap.find?_insert_self, Option.getD_some]

theorem subscript_of_find? {κ ν : Type} [LinearOrder κ] [Inhabited ν] {m : OrdMap κ ν} {k : κ}
    {v : ν} (h : m.find? k = some v) : subscript m k = v := by
  rw [subscript, h, Option.getD_some]

def withGroup (s : Tracker) (gid : Str) (f : Group → Group) : Tracker :=
  { s with groups := s.groups.insert gid (f (subscript s.groups gid)) }

def withFile (s : Tracker) (gid fname : Str) (f : File → File) : Tracker :=
  s.withGroup gid fun g => { g with files := g.files.insert fname (f (subscript g.files fname)) }

def withAddress (s : Tracker) (uid : Str) (addr : SockAddr) : Tracker :=
  { s with address := s.address.insert uid addr }

def tokentToUserid (tokenMap : OrdMap Str Str) (token : Str) : Str :=
  (tokenMap.find? token).getD []

/-! ## Operations -/

/-- Execute a statement on the database. -/
def sql (st : Statement) : TrackerM (List Row) := fun s =>
  ((Database.exec st s.db).1, { s with db := (Database.exec st s.db).2 })

def createGroup (gid oid : Str) : TrackerM Unit := do
  let _ ← sql (.insertGroup gid oid)
  let _ ← sql (.addMember oid gid)
  Action.modify fun s => { s with groups := s.groups.insert gid ⟨gid, oid, OrdSet.add ∅ oid, ∅⟩ }

def deleteGroup (gid : Str) : TrackerM Unit := do
  let _ ← sql (.removeAllMembers gid)
  let _ ← sql (.removeGroup gid)
  Action.modify fun s => { s with groups := s.groups.erase gid }

def joinGroup (uid gid : Str) : TrackerM Unit := do
  let _ ← sql (.addMember uid gid)
  Action.modify fun s => s.withGroup gid fun g => { g with members := g.members.add uid }

def leaveGroup (uid gid : Str) : TrackerM Unit := do
  let _ ← sql (.removeMember uid gid)
  Action.modify fun s => s.withGroup gid fun g => { g with members := g.members.erase uid }
  let s ← Action.get
  if uid = (subscript s.groups gid).ownerId then deleteGroup gid

def generateToken (uid passwd : Str) : Str := uid ++ passwd

/-- `token_client::get_token` -/
def getToken (uid : Str) : TrackerM Str := do
  match ← sql (.getToken uid) with
  | [] => Action.throw .sqliteException
  | row :: _ => return row.1

/-- The handler of `login` for a user who has no token. -/
def newToken (uid passwd : Str) : TrackerM Str := do
  let token := generateToken uid passwd
  let _ ← sql (.insertToken token uid)
  return token

/-- `login` behind its check of the password. -/
def issueToken (uid passwd : Str) : TrackerM Str := do
  let token ← Action.catching (getToken uid)
    (handlerFor [(.sqliteException, newToken uid passwd)])
  Action.modify fun s => { s with tokenMap := s.tokenMap.insert token uid }
  return token

def login (uid passwd : Str) : TrackerM Str := do
  match ← sql (.getUser uid) with
  | [] => Action.throw .invalidCredException
  | row :: _ => if row.2 ≠ passwd then Action.throw .invalidCredException else issueToken uid passwd

/-- `delete_token` builds the text of a statement and does not execute it. -/
def logout (token : Str) : TrackerM Unit :=
  Action.modify fun s =>
    { s with
      address := s.address.erase (tokentToUserid s.tokenMap token)
      tokenMap := s.tokenMap.erase token }

/-- The checks that `share_file` and `get_peers` begin with. -/
def findGroup (uid gid : Str) : TrackerM Group := do
  match (← Action.get).groups.find? gid with
  | none => Action.throw .invalidGidException
  | some g => if uid ∈ g.members then return g else Action.throw .invalidGidException

def shareFile (uid gid fname : Str) : TrackerM Unit := do
  let g ← findGroup uid gid
  if fname ∈ g.files then Action.throw .fnameConflictException
  else Action.modify fun s => s.withFile gid fname fun _ => ⟨OrdSet.add ∅ uid, ∅, fname, gid⟩

/-- The loop that lists the peers. A peer without an address is given a default one. -/
def listPeers (uid : Str) : List Str → Str → TrackerM Str
  | [], members => return members
  | id :: ids, members => do
    if id = uid then listPeers uid ids members
    else
      let addr := subscript (← Action.get).address id
      Action.modify fun s => s.withAddress id addr
      listPeers uid ids
        (members ++ lit ",\x7b" ++ id ++ lit ":" ++ intToDecimal addr.uid ++ lit "\x7d")

def getPeers (uid gid fname : Str) : TrackerM Str := do
  let g ← findGroup uid gid
  match g.files.find? fname with
  | none => Action.throw .noSuchFileException
  | some f =>
    let leechers := f.leechers.add uid
    Action.modify fun s => s.withFile gid fname fun f => { f with leechers }
    let members ← listPeers uid (leechers.toList ++ f.seeders.toList) []
    if members = [] then Action.throw .outOfRange
    else return lit "[" ++ members.drop 1 ++ lit "]"

/-- `address[uid] = sock_addr(stoll(text))` -/
def setAddress (order : AssignOrder) (uid text : Str) : TrackerM Unit := do
  if order = .leftFirst then
    Action.modify fun s => s.withAddress uid (subscript s.address uid)
  let number ← Action.ofExcept (stoll text)
  Action.modify fun s => s.withAddress uid (SockAddr.ofUid number)

/-! ## Endpoints -/

/-- The handlers of a `catch` list that answer with a response. -/
def answers (handlers : List (ExnClass × Response)) : ExnClass → Option (TrackerM Response) :=
  fun e => (handlerFor handlers e).map pure

def header (req : Request) (key : String) : TrackerM Str :=
  Action.ofExcept (req.getHeader (lit key))

def ok (text : String) : Response := .new .OK (lit text)

/-- The answer with a list of peers, which `s2b` makes the body of if it has fewer than `2 ^ 31`
bytes. -/
def listing (peers : Str) : Response :=
  ((ok "successful").addHeader (lit "Content-Length") (toDecimal peers.length)).setBody peers

/-- The token of a request and the user that it belongs to; the endpoints that need one begin
with this. `verified` only asks whether the token is known. -/
def withToken (req : Request) (k : Str → Str → TrackerM Response) : TrackerM Response := do
  let authToken ← header req "Authorization"
  let s ← Action.get
  if authToken ∉ s.tokenMap then return .new .UNAUTHORIZED (lit "invalid token")
  else k authToken (tokentToUserid s.tokenMap authToken)

def postSignup (req : Request) : TrackerM Response := do
  let uid ← header req "Username"
  let pass ← header req "Password"
  let _ ← sql (.createUser uid pass)
  return ok "successful"

def postLogin (req : Request) (remoteAddr : SockAddr) : TrackerM Response := do
  let uid ← header req "Username"
  let passwd ← header req "Password"
  let auth ← login uid passwd
  Action.modify fun s => s.withAddress uid remoteAddr
  return (ok "successful").addHeader (lit "Authorization") auth

def postLogout (req : Request) : TrackerM Response :=
  withToken req fun authToken _ => do
    logout authToken
    return ok "successful"

def postCreateGroup (req : Request) : TrackerM Response :=
  withToken req fun _ uid => do
    let gid ← header req "Group-Id"
    createGroup gid uid
    return ok "successful"

def postJoinGroup (req : Request) : TrackerM Response :=
  withToken req fun _ uid => do
    let gid ← header req "Group-Id"
    joinGroup uid gid
    return ok "successful"

def postLeaveGroup (req : Request) : TrackerM Response :=
  withToken req fun _ uid => do
    let gid ← header req "Group-Id"
    leaveGroup uid gid
    return ok "successful"

def postShareFile (order : AssignOrder) (req : Request) : TrackerM Response :=
  withToken req fun _ uid => do
    let gid ← header req "Group-Id"
    let fname ← header req "File-Name"
    let serverAddr ← header req "Server-Address"
    shareFile uid gid fname
    setAddress order uid serverAddr
    return ok "file name entry added"

def getPeersResponse (order : AssignOrder) (req : Request) : TrackerM Response :=
  withToken req fun _ uid => do
    let gid ← header req "Group-Id"
    let fname ← header req "File-Name"
    let serverAddr ← header req "Server-Address"
    setAddress order uid serverAddr
    Action.catching
      (do
        let peers ← getPeers uid gid fname
        return listing peers)
      (answers [(.invalidGidException,
        .new .FORBIDDEN (lit "user not part of group or no such group"))])

def signupHandlers : List (ExnClass × Response) :=
  [(.noSuchHeaderException, .new .BAD_REQUEST (lit "user id missing")),
    (.constraintFailedException, .new .CONFLICT (lit "username no available")),
    (.sqliteException, .new .INTERNAL_SERVER_ERROR (lit "server error"))]

def loginHandlers : List (ExnClass × Response) :=
  [(.noSuchHeaderException, .new .BAD_REQUEST (lit "user id missing")),
    (.invalidCredException, .new .UNAUTHORIZED (lit "invalid cred")),
    (.sqliteException, .new .INTERNAL_SERVER_ERROR (lit "server error"))]

def logoutHandlers : List (ExnClass × Response) :=
  [(.noSuchHeaderException, .new .BAD_REQUEST (lit "token missing"))]

def createGroupHandlers : List (ExnClass × Response) :=
  [(.constraintFailedException, .new .CONFLICT (lit "group id taken")),
    (.noSuchHeaderException, .new .BAD_REQUEST (lit "missing group id"))]

def joinGroupHandlers : List (ExnClass × Response) :=
  [(.noSuchHeaderException, .new .BAD_REQUEST (lit "token missing")),
    (.constraintFailedException, .new .CONFLICT (lit "cannot join group twice")),
    (.sqliteException, .new .INTERNAL_SERVER_ERROR (lit "server error"))]

def leaveGroupHandlers : List (ExnClass × Response) :=
  [(.noSuchHeaderException, .new .BAD_REQUEST (lit "token missing")),
    (.sqliteException, .new .INTERNAL_SERVER_ERROR (lit "server error"))]

def shareFileHandlers : List (ExnClass × Response) :=
  [(.noSuchHeaderException, .new .BAD_REQUEST (lit "header missing")),
    (.invalidGidException, .new .BAD_REQUEST (lit "invalid gid")),
    (.fnameConflictException, .new .BAD_REQUEST (lit "file already shared"))]

def peersHandlers : List (ExnClass × Response) :=
  [(.noSuchHeaderException, .new .BAD_REQUEST (lit "header missing")),
    (.invalidUidException, .new .BAD_REQUEST (lit "invalid group id")),
    (.noSuchFileException, .new .BAD_REQUEST (lit "invalid file name"))]

def post (order : AssignOrder) (req : Request) (remoteAddr : SockAddr) : TrackerM Response :=
  if req.resource = lit "/signup" then (postSignup req).catching (answers signupHandlers)
  else if req.resource = lit "/login" then
    (postLogin req remoteAddr).catching (answers loginHandlers)
  else if req.resource = lit "/logout" then (postLogout req).catching (answers logoutHandlers)
  else if req.resource = lit "/create_group" then
    (postCreateGroup req).catching (answers createGroupHandlers)
  else if req.resource = lit "/join_group" then
    (postJoinGroup req).catching (answers joinGroupHandlers)
  else if req.resource = lit "/leave_group" then
    (postLeaveGroup req).catching (answers leaveGroupHandlers)
  else if req.resource = lit "/share_file" then
    (postShareFile order req).catching (answers shareFileHandlers)
  else return .new .NOT_FOUND (lit "resource not found")

def get (order : AssignOrder) (req : Request) (_remoteAddr : SockAddr) : TrackerM Response :=
  if req.resource = lit "/peers" then (getPeersResponse order req).catching (answers peersHandlers)
  else return .new .NOT_FOUND (lit "resource not found")

def callback (order : AssignOrder) : Callback Tracker := fun req remoteAddr =>
  Action.catching
    (match req.method with
      | .GET => get order req remoteAddr
      | .POST => post order req remoteAddr
      | .UNDEFINED => return .new .METHOD_NOT_ALLOWED (lit "method not allowed"))
    (answers [(.exception, .new .INTERNAL_SERVER_ERROR (lit "server error"))])

/-! ## Starting -/

/-- The loop of the constructor over the rows of the token table. -/
def loadTokens (rows : List Row) : OrdMap Str Str :=
  rows.foldl (fun tokenMap row => tokenMap.insert row.1 row.2) ∅

def loadMembers (rows : List Row) : OrdSet Str :=
  rows.foldl (fun members mem => members.add mem.1) ∅

/-- The loop of the constructor over the rows of the group table. -/
def loadGroups : List Row → TrackerM Unit
  | [] => return
  | row :: rows => do
    let members ← sql (.getMemberList row.1)
    Action.modify fun s =>
      { s with groups := s.groups.insert row.1 ⟨row.1, row.2, loadMembers members, ∅⟩ }
    loadGroups rows

/-- The body of the constructor. It catches every `std::exception`, which the exceptions of a
statement are not. -/
def load : TrackerM Unit := do
  let _ ← sql .createGroupTable
  let _ ← sql .createUserTable
  let _ ← sql .createTokenTable
  let _ ← sql .createMembersTable
  let groupTable ← sql .getGroupList
  let tokenTable ← sql .getTokenList
  Action.modify fun s => { s with tokenMap := loadTokens tokenTable }
  loadGroups groupTable

/-- A tracker that is constructed on a database. -/
def start (db : Database) : Except ExnClass Unit × Tracker := load ⟨db, ∅, ∅, ∅⟩

end Tracker

end P2PFileSharing
