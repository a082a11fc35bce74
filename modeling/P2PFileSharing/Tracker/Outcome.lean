import P2PFileSharing.Tracker.Operation

/-!
# What the operations do

Each operation has a relation with one constructor for each way it can go: what its statements
reply, what it returns or throws, and what it leaves in the tracker. What is proved about the
tracker later is a case analysis over these relations.
-/

namespace P2PFileSharing.Tracker

open Http Library

/-- Everything that the tracker holds. -/
structure Contents where
  groups : OrdMap Str Group
  tokenMap : OrdMap Str Str
  address : OrdMap Str SockAddr
  tables : Tables
  deriving DecidableEq

def contents (s : Tracker) : Contents := ⟨s.groups, s.tokenMap, s.address, s.db.tables⟩

namespace Contents

def withGroup (c : Contents) (gid : Str) (f : Group → Group) : Contents :=
  { c with groups := c.groups.insert gid (f (subscript c.groups gid)) }

def withFile (c : Contents) (gid fname : Str) (f : File → File) : Contents :=
  c.withGroup gid fun g => { g with files := g.files.insert fname (f (subscript g.files fname)) }

end Contents

/-- A group that does not exist has no members. -/
theorem mem_subscript {groups : OrdMap Str Group} {uid gid : Str}
    (h : uid ∈ (subscript groups gid).members) :
    ∃ g, groups.find? gid = some g ∧ uid ∈ g.members := by
  rw [subscript] at h
  cases hg : groups.find? gid with
  | none =>
    rw [hg] at h
    exact absurd h (OrdMap.notMem_empty uid)
  | some g =>
    rw [hg] at h
    exact ⟨g, rfl, h⟩

/-- The tracker after a statement. -/
def store (s : Tracker) (tables : Tables) : Tracker := { s with db := s.db.advance tables }

section Statements

variable {s : Tracker} {tables : Tables} {st : Statement}

theorem sql_of_reply {r : Except ExnClass (List Row)}
    (h : s.db.reply 0 st s.db.tables = (r, tables)) :
    sql st s = (r, s.store tables) := by
  rw [sql, Database.exec_eq, h]
  rfl

/-- The next statement meets what the one before it has left. -/
theorem reply_store (k : Nat) (st : Statement) (tables' : Tables) :
    (s.store tables).db.reply k st tables' = s.db.reply (k + 1) st tables' :=
  Database.reply_advance k st

end Statements

/-! ## Creating a group -/

/-- An operation that returns nothing of its own. -/
theorem done_run (x : TrackerM Unit) (res : Response) (s : Tracker) :
    (x >>= fun _ => (pure res : TrackerM Response)) s = ((x s).1.map (fun _ => res), (x s).2) := by
  rcases hx : x s with ⟨e | _, t⟩
  · rw [Action.bind_of_error hx]
    rfl
  · rw [Action.bind_of_ok hx]
    rfl

inductive CreateGroup (s : Tracker) (gid uid : Str) : Except ExnClass Unit → Contents → Prop where
  | groupFails {e tables}
    (h0 : s.db.reply 0 (.insertGroup gid uid) s.db.tables = (.error e, tables)) :
    CreateGroup s gid uid (.error e) { s.contents with tables }
  | memberFails {rows e tables tables'}
    (h0 : s.db.reply 0 (.insertGroup gid uid) s.db.tables = (.ok rows, tables))
    (h1 : s.db.reply 1 (.addMember uid gid) tables = (.error e, tables')) :
    CreateGroup s gid uid (.error e) { s.contents with tables := tables' }
  | created {rows rows' tables tables'}
    (h0 : s.db.reply 0 (.insertGroup gid uid) s.db.tables = (.ok rows, tables))
    (h1 : s.db.reply 1 (.addMember uid gid) tables = (.ok rows', tables')) :
    CreateGroup s gid uid (.ok ())
      { s.contents with
        groups := s.groups.insert gid ⟨gid, uid, OrdSet.add ∅ uid, ∅⟩
        tables := tables' }

theorem createGroup_cases (s : Tracker) (gid uid : Str) :
    CreateGroup s gid uid (createGroup gid uid s).1 (createGroup gid uid s).2.contents := by
  rcases h0 : s.db.reply 0 (.insertGroup gid uid) s.db.tables with ⟨e | rows, tables⟩
  · rw [createGroup, Action.bind_of_error (sql_of_reply h0)]
    exact .groupFails h0
  · rw [createGroup, Action.bind_of_ok (sql_of_reply h0)]
    rcases h1 : s.db.reply 1 (.addMember uid gid) tables with ⟨e | rows', tables'⟩
    · rw [Action.bind_of_error (sql_of_reply ((reply_store 0 _ _).trans h1))]
      exact .memberFails h0 h1
    · rw [Action.bind_of_ok (sql_of_reply ((reply_store 0 _ _).trans h1))]
      exact .created h0 h1

/-! ## Signing up and joining a group -/

/-- A single statement, with what is returned and left behind when it returns. -/
inductive Single {α : Type} (s : Tracker) (st : Statement) (a : α) (after : Tables → Contents) :
    Except ExnClass α → Contents → Prop where
  | fails {e tables} (h0 : s.db.reply 0 st s.db.tables = (.error e, tables)) :
    Single s st a after (.error e) { s.contents with tables }
  | done {rows tables} (h0 : s.db.reply 0 st s.db.tables = (.ok rows, tables)) :
    Single s st a after (.ok a) (after tables)

theorem single_cases {α : Type} {s : Tracker} {st : Statement} {a : α} {after : Tables → Contents}
    {k : List Row → TrackerM α} {f : Tracker → Tracker} (hk : ∀ rows s, k rows s = (.ok a, f s))
    (hf : ∀ tables, (f (s.store tables)).contents = after tables) :
    Single s st a after ((sql st >>= k) s).1 ((sql st >>= k) s).2.contents := by
  rcases h0 : s.db.reply 0 st s.db.tables with ⟨e | rows, tables⟩
  · rw [Action.bind_of_error (sql_of_reply h0)]
    exact .fails h0
  · rw [Action.bind_of_ok (sql_of_reply h0), hk, hf]
    exact .done h0

theorem signup_cases (s : Tracker) (order : AssignOrder) (uid pass : Str) :
    Single s (.createUser uid pass) (ok "successful") (fun tables => { s.contents with tables })
      (((Operation.signup uid pass).perform order s).1)
      (((Operation.signup uid pass).perform order s).2.contents) :=
  single_cases (fun _ _ => rfl) fun _ => rfl

/-- What joining a group leaves behind. -/
def joined (s : Tracker) (uid gid : Str) (tables : Tables) : Contents :=
  { s.contents.withGroup gid fun g => { g with members := g.members.add uid } with tables }

theorem joinGroup_cases (s : Tracker) (uid gid : Str) :
    Single s (.addMember uid gid) () (joined s uid gid) (joinGroup uid gid s).1
      (joinGroup uid gid s).2.contents :=
  single_cases (fun _ _ => rfl) fun _ => rfl

/-! ## Leaving a group -/

/-- What is there once the member has been removed from the group in memory. -/
def left (s : Tracker) (uid gid : Str) (tables : Tables) : Contents :=
  { s.contents.withGroup gid fun g => { g with members := g.members.erase uid } with tables }

/-- The owner of a group. A group that does not exist has an owner with an empty id. -/
def owner (s : Tracker) (gid : Str) : Str := (subscript s.groups gid).ownerId

inductive LeaveGroup (s : Tracker) (uid gid : Str) : Except ExnClass Unit → Contents → Prop where
  | memberFails {e tables}
    (h0 : s.db.reply 0 (.removeMember uid gid) s.db.tables = (.error e, tables)) :
    LeaveGroup s uid gid (.error e) { s.contents with tables }
  | left {rows tables}
    (h0 : s.db.reply 0 (.removeMember uid gid) s.db.tables = (.ok rows, tables))
    (howner : uid ≠ s.owner gid) :
    LeaveGroup s uid gid (.ok ()) (left s uid gid tables)
  | membersFail {rows e tables tables'}
    (h0 : s.db.reply 0 (.removeMember uid gid) s.db.tables = (.ok rows, tables))
    (howner : uid = s.owner gid)
    (h1 : s.db.reply 1 (.removeAllMembers gid) tables = (.error e, tables')) :
    LeaveGroup s uid gid (.error e) (Tracker.left s uid gid tables')
  | groupFails {rows rows' e tables tables' tables''}
    (h0 : s.db.reply 0 (.removeMember uid gid) s.db.tables = (.ok rows, tables))
    (howner : uid = s.owner gid)
    (h1 : s.db.reply 1 (.removeAllMembers gid) tables = (.ok rows', tables'))
    (h2 : s.db.reply 2 (.removeGroup gid) tables' = (.error e, tables'')) :
    LeaveGroup s uid gid (.error e) (Tracker.left s uid gid tables'')
  | deleted {rows rows' rows'' tables tables' tables''}
    (h0 : s.db.reply 0 (.removeMember uid gid) s.db.tables = (.ok rows, tables))
    (howner : uid = s.owner gid)
    (h1 : s.db.reply 1 (.removeAllMembers gid) tables = (.ok rows', tables'))
    (h2 : s.db.reply 2 (.removeGroup gid) tables' = (.ok rows'', tables'')) :
    LeaveGroup s uid gid (.ok ())
      { Tracker.left s uid gid tables'' with
        groups := (Tracker.left s uid gid tables'').groups.erase gid }

theorem leaveGroup_cases (s : Tracker) (uid gid : Str) :
    LeaveGroup s uid gid (leaveGroup uid gid s).1 (leaveGroup uid gid s).2.contents := by
  rcases h0 : s.db.reply 0 (.removeMember uid gid) s.db.tables with ⟨e | rows, tables⟩
  · rw [leaveGroup, Action.bind_of_error (sql_of_reply h0)]
    exact .memberFails h0
  · rw [leaveGroup, Action.bind_of_ok (sql_of_reply h0), Action.modify_bind_run,
      Action.get_bind_run]
    set u : Tracker := (s.store tables).withGroup gid _ with hu
    have hreply (k : Nat) (st : Statement) (tables' : Tables) :
        u.db.reply k st tables' = s.db.reply (k + 1) st tables' := reply_store k st tables'
    have howner : (subscript u.groups gid).ownerId = s.owner gid := by
      simp [hu, withGroup, store, owner]
    rw [howner]
    split_ifs with hown
    · rw [deleteGroup]
      rcases h1 : s.db.reply 1 (.removeAllMembers gid) tables with ⟨e | rows', tables'⟩
      · rw [Action.bind_of_error (sql_of_reply ((hreply 0 _ _).trans h1))]
        exact .membersFail h0 hown h1
      · rw [Action.bind_of_ok (sql_of_reply ((hreply 0 _ _).trans h1))]
        have hreply' (st : Statement) :
            (u.store tables').db.reply 0 st tables' = s.db.reply 2 st tables' :=
          (reply_store 0 st tables').trans (hreply 1 st tables')
        rcases h2 : s.db.reply 2 (.removeGroup gid) tables' with ⟨e | rows'', tables''⟩
        · rw [Action.bind_of_error (sql_of_reply ((hreply' _).trans h2))]
          exact .groupFails h0 hown h1 h2
        · rw [Action.bind_of_ok (sql_of_reply ((hreply' _).trans h2))]
          exact .deleted h0 hown h1 h2
    · exact .left h0 hown

/-! ## Logging in -/

/-- `get_user` gives nobody, or somebody with another password. -/
def WrongPassword (passwd : Str) (rows : List Row) : Prop := ∀ row ∈ rows.head?, row.2 ≠ passwd

/-- The password is right, but `get_token` throws; `tables` are there then. -/
def NoToken (s : Tracker) (uid passwd : Str) (tables : Tables) : Prop :=
  ∃ rows tables0, s.db.reply 0 (.getUser uid) s.db.tables = (.ok rows, tables0) ∧
    ¬ WrongPassword passwd rows ∧
      ((∃ e, s.db.reply 1 (.getToken uid) tables0 = (.error e, tables)) ∨
        s.db.reply 1 (.getToken uid) tables0 = (.ok [], tables))

theorem NoToken.unique {s : Tracker} {uid passwd : Str} {tables tables' : Tables}
    (h : s.NoToken uid passwd tables) (h' : s.NoToken uid passwd tables') : tables' = tables := by
  obtain ⟨rows, tables0, h0, -, h1⟩ := h
  obtain ⟨rows', tables0', h0', -, h1'⟩ := h'
  rw [h0] at h0'
  cases h0'
  rcases h1 with ⟨e, h1⟩ | h1 <;> rw [h1] at h1' <;> rcases h1' with ⟨e', h1'⟩ | h1' <;>
    cases h1' <;> rfl

inductive Login (s : Tracker) (uid passwd : Str) : Except ExnClass Str → Contents → Prop where
  | userFails {e tables} (h0 : s.db.reply 0 (.getUser uid) s.db.tables = (.error e, tables)) :
    Login s uid passwd (.error e) { s.contents with tables }
  | refused {rows tables} (h0 : s.db.reply 0 (.getUser uid) s.db.tables = (.ok rows, tables))
    (hrows : WrongPassword passwd rows) :
    Login s uid passwd (.error .invalidCredException) { s.contents with tables }
  | found {rows row rest tables tables'}
    (h0 : s.db.reply 0 (.getUser uid) s.db.tables = (.ok rows, tables))
    (hrows : ¬ WrongPassword passwd rows)
    (h1 : s.db.reply 1 (.getToken uid) tables = (.ok (row :: rest), tables')) :
    Login s uid passwd (.ok row.1)
      { s.contents with
        tokenMap := s.tokenMap.insert row.1 uid
        tables := tables' }
  | tokenFails {e tables tables'} (hno : s.NoToken uid passwd tables)
    (h2 : s.db.reply 2 (.insertToken (generateToken uid passwd) uid) tables = (.error e, tables')) :
    Login s uid passwd (.error e) { s.contents with tables := tables' }
  | issued {rows tables tables'} (hno : s.NoToken uid passwd tables)
    (h2 : s.db.reply 2 (.insertToken (generateToken uid passwd) uid) tables = (.ok rows, tables')) :
    Login s uid passwd (.ok (generateToken uid passwd))
      { s.contents with
        tokenMap := s.tokenMap.insert (generateToken uid passwd) uid
        tables := tables' }

theorem getToken_cases (s : Tracker) (uid : Str) :
    (∃ tables, ((∃ e, s.db.reply 0 (.getToken uid) s.db.tables = (.error e, tables)) ∨
        s.db.reply 0 (.getToken uid) s.db.tables = (.ok [], tables)) ∧
        getToken uid s = (.error .sqliteException, s.store tables)) ∨
      ∃ row rest tables, s.db.reply 0 (.getToken uid) s.db.tables = (.ok (row :: rest), tables) ∧
        getToken uid s = (.ok row.1, s.store tables) := by
  rcases h0 : s.db.reply 0 (.getToken uid) s.db.tables with ⟨e | rows, tables⟩
  · refine .inl ⟨tables, .inl ⟨e, rfl⟩, ?_⟩
    rcases Database.error_of_reply (congrArg Prod.fst h0) with rfl | ⟨-, hquery⟩
    · rw [getToken, Action.bind_of_error (sql_of_reply h0)]
    · cases hquery
  · rw [getToken, Action.bind_of_ok (sql_of_reply h0)]
    cases rows with
    | nil => exact .inl ⟨tables, .inr rfl, rfl⟩
    | cons row rest => exact .inr ⟨row, rest, tables, rfl, rfl⟩

theorem newToken_cases (s : Tracker) (uid passwd : Str) :
    Single s (.insertToken (generateToken uid passwd) uid) (generateToken uid passwd)
      (fun tables => { s.contents with tables })
      (newToken uid passwd s).1 (newToken uid passwd s).2.contents :=
  single_cases (fun _ _ => rfl) fun _ => rfl

theorem issueToken_cases {s : Tracker} {uid passwd : Str} {rows : List Row} {tables : Tables}
    (h0 : s.db.reply 0 (.getUser uid) s.db.tables = (.ok rows, tables))
    (hrows : ¬ WrongPassword passwd rows) :
    Login s uid passwd (issueToken uid passwd (s.store tables)).1
      (issueToken uid passwd (s.store tables)).2.contents := by
  rw [issueToken]
  rcases getToken_cases (s.store tables) uid with ⟨tables', hno, hget⟩ | ⟨row, rest, tables', h1,
    hget⟩
  · rw [reply_store] at hno
    have hno : s.NoToken uid passwd tables' := ⟨rows, tables, h0, hrows, hno⟩
    have hinsert := newToken_cases ((s.store tables).store tables') uid passwd
    rcases hrun : newToken uid passwd ((s.store tables).store tables') with ⟨r, t⟩
    have hcatch : (getToken uid).catching (handlerFor [(.sqliteException, newToken uid passwd)])
        (s.store tables) = (r, t) := (Action.catching_of_error hget rfl).trans hrun
    rw [hrun] at hinsert
    dsimp only at hinsert
    generalize hc : t.contents = c at hinsert
    have hreply (st : Statement) :
        ((s.store tables).store tables').db.reply 0 st tables' = s.db.reply 2 st tables' :=
      (reply_store 0 st tables').trans (reply_store 1 st tables')
    cases hinsert with
    | fails h2 =>
      rw [Action.bind_of_error hcatch, hc]
      exact .tokenFails hno ((hreply _).symm.trans h2)
    | done h2 =>
      have hafter (token : Str) :
          ({ t with tokenMap := t.tokenMap.insert token uid } : Tracker).contents =
          { t.contents with tokenMap := t.contents.tokenMap.insert token uid } := rfl
      rw [Action.bind_of_ok hcatch, Action.modify_bind_run, Action.pure_run, hafter, hc]
      exact .issued hno ((hreply _).symm.trans h2)
  · rw [Action.bind_of_ok (Action.catching_of_ok hget)]
    exact .found h0 hrows ((reply_store 0 _ _).symm.trans h1)

theorem login_cases (s : Tracker) (uid passwd : Str) :
    Login s uid passwd (login uid passwd s).1 (login uid passwd s).2.contents := by
  rcases h0 : s.db.reply 0 (.getUser uid) s.db.tables with ⟨e | rows, tables⟩
  · rw [login, Action.bind_of_error (sql_of_reply h0)]
    exact .userFails h0
  · rw [login, Action.bind_of_ok (sql_of_reply h0)]
    cases rows with
    | nil => exact .refused h0 (by simp [WrongPassword])
    | cons row rest =>
      dsimp only
      split_ifs with hpass
      · exact .refused h0 (by simpa [WrongPassword] using hpass)
      · exact issueToken_cases h0 (by simpa [WrongPassword] using hpass)

/-! ## Sharing a file and listing its peers -/

/-- The group exists and has the user as a member. -/
def IsMember (s : Tracker) (uid gid : Str) : Prop :=
  ∃ g, s.groups.find? gid = some g ∧ uid ∈ g.members

theorem findGroup_cases (s : Tracker) (uid gid : Str) :
    ¬ s.IsMember uid gid ∧ findGroup uid gid s = (.error .invalidGidException, s) ∨
      ∃ g, s.groups.find? gid = some g ∧ uid ∈ g.members ∧ findGroup uid gid s = (.ok g, s) := by
  rw [findGroup, Action.get_bind_run]
  cases hg : s.groups.find? gid with
  | none =>
    refine .inl ⟨?_, rfl⟩
    rintro ⟨g, hg', -⟩
    simp [hg] at hg'
  | some g =>
    by_cases hu : uid ∈ g.members
    · exact .inr ⟨g, rfl, hu, by simp [hu]⟩
    · refine .inl ⟨?_, by simp [hu]⟩
      rintro ⟨g', hg', hu'⟩
      rw [hg] at hg'
      cases hg'
      exact hu hu'

theorem stoll_error {text : Str} {e : ExnClass} (h : stoll text = .error e) :
    e = .invalidArgument ∨ e = .outOfRange := by
  rw [stoll] at h
  split at h
  · cases h
    exact .inl rfl
  · split at h
    · cases h
    · cases h
      exact .inr rfl

/-- The address that is left behind when its number cannot be read. -/
def addressUnread (order : AssignOrder) (s : Tracker) (uid : Str) : OrdMap Str SockAddr :=
  match order with
  | .leftFirst => s.address.insert uid (subscript s.address uid)
  | .rightFirst => s.address

theorem setAddress_cases (order : AssignOrder) (s : Tracker) (uid text : Str) :
    (∃ e, stoll text = .error e ∧ setAddress order uid text s =
      (.error e, { s with address := addressUnread order s uid })) ∨
    ∃ n, stoll text = .ok n ∧ setAddress order uid text s =
      (.ok (), s.withAddress uid (SockAddr.ofUid n)) := by
  cases hn : stoll text with
  | error e =>
    refine .inl ⟨e, rfl, ?_⟩
    cases order <;> simp [setAddress, hn, addressUnread, withAddress]
  | ok n =>
    refine .inr ⟨n, rfl, ?_⟩
    cases order <;> simp [setAddress, hn, withAddress, OrdMap.insert_insert]

inductive ShareFile (order : AssignOrder) (s : Tracker) (uid gid fname serverAddr : Str) :
    Except ExnClass Response → Contents → Prop where
  | noMember (hno : ¬ s.IsMember uid gid) :
    ShareFile order s uid gid fname serverAddr (.error .invalidGidException) s.contents
  | conflict {g} (hg : s.groups.find? gid = some g) (hu : uid ∈ g.members) (hf : fname ∈ g.files) :
    ShareFile order s uid gid fname serverAddr (.error .fnameConflictException) s.contents
  | badNumber {g e} (hg : s.groups.find? gid = some g) (hu : uid ∈ g.members)
    (hf : fname ∉ g.files) (hn : stoll serverAddr = .error e) :
    ShareFile order s uid gid fname serverAddr (.error e)
      { s.contents.withFile gid fname fun _ => ⟨OrdSet.add ∅ uid, ∅, fname, gid⟩ with
        address := addressUnread order s uid }
  | shared {g n} (hg : s.groups.find? gid = some g) (hu : uid ∈ g.members)
    (hf : fname ∉ g.files) (hn : stoll serverAddr = .ok n) :
    ShareFile order s uid gid fname serverAddr (.ok (ok "file name entry added"))
      { s.contents.withFile gid fname fun _ => ⟨OrdSet.add ∅ uid, ∅, fname, gid⟩ with
        address := s.address.insert uid (SockAddr.ofUid n) }

theorem shareFile_cases (order : AssignOrder) (s : Tracker) (uid gid fname serverAddr : Str) :
    ShareFile order s uid gid fname serverAddr
      ((Operation.shareFile uid gid fname serverAddr).perform order s).1
      ((Operation.shareFile uid gid fname serverAddr).perform order s).2.contents := by
  rw [Operation.perform]
  rcases findGroup_cases s uid gid with ⟨hno, hfind⟩ | ⟨g, hg, hu, hfind⟩
  · have hshare : shareFile uid gid fname s = (.error .invalidGidException, s) := by
      rw [shareFile, Action.bind_of_error hfind]
    rw [Action.bind_of_error hshare]
    exact .noMember hno
  · by_cases hf : fname ∈ g.files
    · have hshare : shareFile uid gid fname s = (.error .fnameConflictException, s) := by
        rw [shareFile, Action.bind_of_ok hfind, if_pos hf, Action.throw_run]
      rw [Action.bind_of_error hshare]
      exact .conflict hg hu hf
    · have hshare : shareFile uid gid fname s =
          (.ok (), s.withFile gid fname fun _ => ⟨OrdSet.add ∅ uid, ∅, fname, gid⟩) := by
        rw [shareFile, Action.bind_of_ok hfind, if_neg hf, Action.modify_run]
      rw [Action.bind_of_ok hshare]
      rcases setAddress_cases order (s.withFile gid fname fun _ =>
        ⟨OrdSet.add ∅ uid, ∅, fname, gid⟩)
        uid serverAddr with ⟨e, hn, hset⟩ | ⟨n, hn, hset⟩
      · rw [Action.bind_of_error hset]
        exact .badNumber hg hu hf hn
      · rw [Action.bind_of_ok hset]
        exact .shared hg hu hf hn

/-- The list of the peers is empty, and no address is touched, exactly when nobody else is in
it. -/
theorem listPeers_cases (uid : Str) (ids : List Str) (members : Str) (s : Tracker) :
    ∃ rest address, listPeers uid ids members s = (.ok (members ++ rest), { s with address }) ∧
      ((∀ id ∈ ids, id = uid) → rest = [] ∧ address = s.address) ∧
      ((∃ id ∈ ids, id ≠ uid) → rest ≠ []) := by
  induction ids generalizing members s with
  | nil => exact ⟨[], s.address, by rw [List.append_nil]; rfl, by simp, by simp⟩
  | cons id ids ih =>
    by_cases hid : id = uid
    · obtain ⟨rest, address, hrun, hnone, hsome⟩ := ih members s
      refine ⟨rest, address, ?_, ?_, ?_⟩
      · rw [listPeers, if_pos hid, hrun]
      · intro h
        exact hnone (fun id' hid' => h id' (List.mem_cons_of_mem id hid'))
      · rintro ⟨id', hid', hne⟩
        rcases List.mem_cons.mp hid' with rfl | hmem
        · exact absurd hid hne
        · exact hsome ⟨id', hmem, hne⟩
    · obtain ⟨rest, address, hrun, -, -⟩ := ih (members ++ lit ",\x7b" ++ id ++ lit ":" ++
        intToDecimal (subscript s.address id).uid ++ lit "\x7d")
        (s.withAddress id (subscript s.address id))
      refine ⟨lit ",\x7b" ++ id ++ lit ":" ++ intToDecimal (subscript s.address id).uid ++
        lit "\x7d" ++ rest, address, ?_, ?_, ?_⟩
      · rw [listPeers, if_neg hid, Action.get_bind_run, Action.modify_bind_run, hrun]
        simp [withAddress]
      · intro h
        exact absurd (h id List.mem_cons_self) hid
      · intro _
        simp [lit]

/-- Nobody else takes part in sharing the file. -/
def Alone (f : File) (uid : Str) : Prop := ∀ id, id ∈ f.leechers ∨ id ∈ f.seeders → id = uid

inductive GetPeers (s : Tracker) (uid gid fname : Str) :
    Except ExnClass Str → Contents → Prop where
  | noMember (hno : ¬ s.IsMember uid gid) :
    GetPeers s uid gid fname (.error .invalidGidException) s.contents
  | noFile {g} (hg : s.groups.find? gid = some g) (hu : uid ∈ g.members) (hf : fname ∉ g.files) :
    GetPeers s uid gid fname (.error .noSuchFileException) s.contents
  | alone {g f} (hg : s.groups.find? gid = some g) (hu : uid ∈ g.members)
    (hf : g.files.find? fname = some f) (halone : Alone f uid) :
    GetPeers s uid gid fname (.error .outOfRange)
      (s.contents.withFile gid fname fun f' => { f' with leechers := f.leechers.add uid })
  | listed {g f peers address} (hg : s.groups.find? gid = some g) (hu : uid ∈ g.members)
    (hf : g.files.find? fname = some f) (hother : ¬ Alone f uid) :
    GetPeers s uid gid fname (.ok peers)
      { s.contents.withFile gid fname fun f' => { f' with leechers := f.leechers.add uid } with
        address }

theorem getPeers_cases (s : Tracker) (uid gid fname : Str) :
    GetPeers s uid gid fname (getPeers uid gid fname s).1
      (getPeers uid gid fname s).2.contents := by
  rcases findGroup_cases s uid gid with ⟨hno, hfind⟩ | ⟨g, hg, hu, hfind⟩
  · rw [getPeers, Action.bind_of_error hfind]
    exact .noMember hno
  · rw [getPeers, Action.bind_of_ok hfind]
    cases hf : g.files.find? fname with
    | none => exact .noFile hg hu (OrdMap.notMem_iff.mpr hf)
    | some f =>
      dsimp only
      rw [Action.modify_bind_run]
      obtain ⟨rest, address, hrun, hnone, hsome⟩ := listPeers_cases uid
        ((f.leechers.add uid).toList ++ f.seeders.toList) []
        (s.withFile gid fname fun f' => { f' with leechers := f.leechers.add uid })
      rw [Action.bind_of_ok hrun]
      have hids (id : Str) : id ∈ (f.leechers.add uid).toList ++ f.seeders.toList ↔
          id = uid ∨ id ∈ f.leechers ∨ id ∈ f.seeders := by
        rw [List.mem_append, OrdSet.mem_toList, OrdSet.mem_toList, OrdSet.mem_add, or_assoc]
      by_cases halone : Alone f uid
      · obtain ⟨rfl, rfl⟩ := hnone fun x hx => ((hids x).mp hx).elim (fun h => h) (halone x)
        exact .alone hg hu hf halone
      · have hother : ∃ id ∈ (f.leechers.add uid).toList ++ f.seeders.toList, id ≠ uid := by
          unfold Alone at halone
          push Not at halone
          obtain ⟨id, hid, hne⟩ := halone
          exact ⟨id, (hids id).mpr (.inr hid), hne⟩
        rw [if_neg (by simpa using hsome hother)]
        exact .listed hg hu hf halone

inductive Peers (order : AssignOrder) (s : Tracker) (uid gid fname serverAddr : Str) :
    Except ExnClass Response → Contents → Prop where
  | badNumber {e} (hn : stoll serverAddr = .error e) :
    Peers order s uid gid fname serverAddr (.error e)
      { s.contents with address := addressUnread order s uid }
  | noMember {n} (hn : stoll serverAddr = .ok n) (hno : ¬ s.IsMember uid gid) :
    Peers order s uid gid fname serverAddr
      (.ok (.new .FORBIDDEN (lit "user not part of group or no such group")))
      { s.contents with address := s.address.insert uid (SockAddr.ofUid n) }
  | noFile {n g} (hn : stoll serverAddr = .ok n) (hg : s.groups.find? gid = some g)
    (hu : uid ∈ g.members) (hf : fname ∉ g.files) :
    Peers order s uid gid fname serverAddr (.error .noSuchFileException)
      { s.contents with address := s.address.insert uid (SockAddr.ofUid n) }
  | alone {n g f} (hn : stoll serverAddr = .ok n) (hg : s.groups.find? gid = some g)
    (hu : uid ∈ g.members) (hf : g.files.find? fname = some f) (halone : Alone f uid) :
    Peers order s uid gid fname serverAddr (.error .outOfRange)
      { s.contents.withFile gid fname fun f' => { f' with leechers := f.leechers.add uid } with
        address := s.address.insert uid (SockAddr.ofUid n) }
  | listed {n g f peers address} (hn : stoll serverAddr = .ok n)
    (hg : s.groups.find? gid = some g) (hu : uid ∈ g.members)
    (hf : g.files.find? fname = some f) (hother : ¬ Alone f uid) :
    Peers order s uid gid fname serverAddr (.ok (listing peers))
      { s.contents.withFile gid fname fun f' => { f' with leechers := f.leechers.add uid } with
        address }

theorem peers_cases (order : AssignOrder) (s : Tracker) (uid gid fname serverAddr : Str) :
    Peers order s uid gid fname serverAddr
      ((Operation.peers uid gid fname serverAddr).perform order s).1
      ((Operation.peers uid gid fname serverAddr).perform order s).2.contents := by
  rw [Operation.perform]
  rcases setAddress_cases order s uid serverAddr with ⟨e, hn, hset⟩ | ⟨n, hn, hset⟩
  · rw [Action.bind_of_error hset]
    exact .badNumber hn
  · rw [Action.bind_of_ok hset]
    have hget := getPeers_cases (s.withAddress uid (SockAddr.ofUid n)) uid gid fname
    rcases hrun : getPeers uid gid fname (s.withAddress uid (SockAddr.ofUid n)) with ⟨r, t⟩
    rw [hrun] at hget
    dsimp only at hget
    generalize hc : t.contents = c at hget
    cases hget with
    | noMember hno =>
      rw [Action.catching_of_error (Action.bind_of_error hrun) rfl, Action.pure_run, hc]
      exact .noMember hn hno
    | noFile hg hu hf =>
      rw [Action.catching_of_unmatched (Action.bind_of_error hrun) rfl, hc]
      exact .noFile hn hg hu hf
    | alone hg hu hf halone =>
      rw [Action.catching_of_unmatched (Action.bind_of_error hrun) rfl, hc]
      exact .alone hn hg hu hf halone
    | @listed g f peers address hg hu hf hother =>
      have hlist : (getPeers uid gid fname >>= fun peers =>
          (pure (listing peers) : TrackerM Response)) (s.withAddress uid (SockAddr.ofUid n)) =
            (.ok (listing peers), t) := Action.bind_of_ok hrun
      rw [Action.catching_of_ok hlist, hc]
      exact .listed hn hg hu hf hother

/-! ## Starting -/

/-- A start reads the tables, and its first statement that fails ends it. -/
inductive Loads (db : Database) (after : Contents) : Except ExnClass Unit → Contents → Prop where
  | fails {k e c} (hk : db.later k = .fails) (htables : c.tables = db.tables) :
    Loads db after (.error e) c
  | loaded : Loads db after (.ok ()) after

/-- The groups that a start makes of the tables. -/
def loadedGroups (tables : Tables) (rows : List Row) (init : OrdMap Str Group) : OrdMap Str Group :=
  rows.foldl (fun groups row => groups.insert row.1
    ⟨row.1, row.2, loadMembers (tables.member.rows.filter (fun r => r.2 = row.1)), ∅⟩) init

theorem mem_loadMembers {rows : List Row} {uid : Str} :
    uid ∈ loadMembers rows ↔ ∃ row ∈ rows, row.1 = uid := by
  refine OrdMap.mem_foldl_insert.trans (or_iff_left ?_)
  exact OrdMap.notMem_empty uid

theorem Loads.read {s : Tracker} (hreg : s.db.Regular) {st : Statement} {rows : List Row}
    (hst : st.plain s.db.tables = (.rows rows, s.db.tables)) {k : List Row → TrackerM Unit}
    {after : Contents} (hk : Loads (s.store s.db.tables).db after
      (k rows (s.store s.db.tables)).1 (k rows (s.store s.db.tables)).2.contents) :
    Loads s.db after ((sql st >>= k) s).1 ((sql st >>= k) s).2.contents := by
  rcases hreg.later 0 with h0 | h0
  · have hreply : s.db.reply 0 st s.db.tables = (.ok rows, s.db.tables) := by
      rw [Database.reply_of_plain h0, hst]
      rfl
    rw [Action.bind_of_ok (sql_of_reply hreply)]
    rcases hrun : k rows (s.store s.db.tables) with ⟨r, t⟩
    rw [hrun] at hk
    dsimp only at hk ⊢
    generalize t.contents = c at hk
    cases hk with
    | fails hk htables => exact .fails ((Database.later_advance _).symm.trans hk) htables
    | loaded => exact .loaded
  · rw [Action.bind_of_error (sql_of_reply (Database.reply_of_fails h0 st s.db.tables))]
    exact .fails h0 rfl

theorem loadGroups_cases {s : Tracker} (hreg : s.db.Regular) (rows : List Row) :
    Loads s.db { s.contents with groups := loadedGroups s.db.tables rows s.groups }
      (loadGroups rows s).1 (loadGroups rows s).2.contents := by
  induction rows generalizing s with
  | nil => exact .loaded
  | cons row rows ih =>
    apply Loads.read hreg rfl
    exact ih (s := ⟨s.db.advance s.db.tables, s.groups.insert row.1
      ⟨row.1, row.2, loadMembers (s.db.tables.member.rows.filter (fun r => r.2 = row.1)), ∅⟩,
      s.tokenMap, s.address⟩) (hreg.advance _)

/-- What the tracker holds when it has started on a database. -/
def loaded (tables : Tables) : Contents :=
  ⟨loadedGroups tables tables.group.rows ∅, loadTokens tables.token.rows, ∅, tables⟩

theorem start_cases {db : Database} (hreg : db.Regular) :
    Loads db (loaded db.tables) (start db).1 (start db).2.contents := by
  have reg {db : Database} (h : db.Regular) : (db.advance db.tables).Regular := h.advance db.tables
  have h1 := reg hreg
  have h2 := reg h1
  have h3 := reg h2
  have h4 := reg h3
  have h5 := reg h4
  -- the four tables are created, the groups and the tokens are read
  apply Loads.read (s := ⟨db, ∅, ∅, ∅⟩) hreg rfl
  apply Loads.read h1 rfl
  apply Loads.read h2 rfl
  apply Loads.read h3 rfl
  apply Loads.read h4 rfl
  apply Loads.read h5 rfl
  exact loadGroups_cases (s := ⟨_, ∅, loadTokens db.tables.token.rows, ∅⟩) (reg h5)
    db.tables.group.rows

end P2PFileSharing.Tracker
