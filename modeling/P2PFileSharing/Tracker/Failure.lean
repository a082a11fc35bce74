import P2PFileSharing.Tracker.Outcome
import P2PFileSharing.Tracker.System

/-!
# Requests that fail

A request that is not answered OK should leave the tracker as it was. Some operations change the
groups, the addresses or the tables before the step that fails, and undo nothing.
-/

namespace P2PFileSharing.Tracker

open Http Library

/-- If a request is answered, but not with OK, the tracker holds what it held before. -/
def FailsCleanly (order : AssignOrder) (req : Request) (remoteAddr : SockAddr) (s : Tracker) :
    Prop :=
  ∀ res t, callback order req remoteAddr s = (.ok res, t) → res.status ≠ .OK →
    t.contents = s.contents

instance (order : AssignOrder) (req : Request) (remoteAddr : SockAddr) (s : Tracker) :
    Decidable (FailsCleanly order req remoteAddr s) :=
  match h : callback order req remoteAddr s with
  | (.ok res, t) =>
    decidable_of_iff (res.status ≠ .OK → t.contents = s.contents) (by simp [FailsCleanly, h])
  | (.error e, t) => .isTrue (by simp [FailsCleanly, h])

/-- A statement that throws, but has changed the tables all the same. -/
def SingleSpoils (s : Tracker) (st : Statement) : Prop :=
  ∃ e tables, s.db.reply 0 st s.db.tables = (.error e, tables) ∧ tables ≠ s.db.tables

/-- Creating a group, when a constraint refuses the group, or the member after the group has been
inserted, and the tables are not as they were. -/
def CreateSpoils (s : Tracker) (uid gid : Str) : Prop :=
  (∃ tables, s.db.reply 0 (.insertGroup gid uid) s.db.tables =
      (.error .constraintFailedException, tables) ∧ tables ≠ s.db.tables) ∨
    ∃ rows tables tables',
      s.db.reply 0 (.insertGroup gid uid) s.db.tables = (.ok rows, tables) ∧
        s.db.reply 1 (.addMember uid gid) tables = (.error .constraintFailedException, tables') ∧
          tables' ≠ s.db.tables

/-- The group is there without the member, and the tables are as they were. -/
def Untouched (s : Tracker) (uid gid : Str) (tables : Tables) : Prop :=
  (gid ∈ s.groups ∧ uid ∉ (subscript s.groups gid).members) ∧ tables = s.db.tables

/-- Leaving a group, when a statement fails: the one that removes the member, or one that removes
the group of the owner, and something has been removed before it. -/
def LeaveSpoils (s : Tracker) (uid gid : Str) : Prop :=
  (∃ tables, s.db.reply 0 (.removeMember uid gid) s.db.tables = (.error .sqliteException, tables) ∧
      tables ≠ s.db.tables) ∨
    ∃ rows tables, s.db.reply 0 (.removeMember uid gid) s.db.tables = (.ok rows, tables) ∧
      uid = s.owner gid ∧
        ((∃ tables', s.db.reply 1 (.removeAllMembers gid) tables =
            (.error .sqliteException, tables') ∧ ¬ Untouched s uid gid tables') ∨
          ∃ rows' tables' tables'',
            s.db.reply 1 (.removeAllMembers gid) tables = (.ok rows', tables') ∧
              s.db.reply 2 (.removeGroup gid) tables' = (.error .sqliteException, tables'') ∧
                ¬ Untouched s uid gid tables'')

/-- Logging in, when it is refused or a statement fails, and the tables are not as they were. -/
def LoginSpoils (s : Tracker) (uid passwd : Str) : Prop :=
  SingleSpoils s (.getUser uid) ∨
    (∃ rows tables, s.db.reply 0 (.getUser uid) s.db.tables = (.ok rows, tables) ∧
      WrongPassword passwd rows ∧ tables ≠ s.db.tables) ∨
    ∃ tables tables', s.NoToken uid passwd tables ∧
      s.db.reply 2 (.insertToken (generateToken uid passwd) uid) tables =
        (.error .sqliteException, tables') ∧ tables' ≠ s.db.tables

/-- The address that a request for peers brings is a new one. -/
def NewAddress (s : Tracker) (uid : Str) (n : Int) : Prop :=
  s.address.find? uid ≠ some (SockAddr.ofUid n)

/-- Asking for the peers of a file, when no list of peers comes of it. -/
def PeersSpoil (order : AssignOrder) (s : Tracker) (uid gid fname serverAddr : Str) : Prop :=
  (∃ e, stoll serverAddr = .error e ∧ order = .leftFirst ∧ uid ∉ s.address) ∨
    ∃ n, stoll serverAddr = .ok n ∧
      (¬ s.IsMember uid gid ∧ s.NewAddress uid n ∨
        ∃ g, s.groups.find? gid = some g ∧ uid ∈ g.members ∧
          (fname ∉ g.files ∧ s.NewAddress uid n ∨
            ∃ f, g.files.find? fname = some f ∧ Alone f uid ∧
              (s.NewAddress uid n ∨ uid ∉ f.leechers)))

/-- The operations that leave something behind although their answer is not OK. -/
def Spoils (order : AssignOrder) (s : Tracker) : Operation → Prop
  | .signup uid pass => SingleSpoils s (.createUser uid pass)
  | .login uid passwd _ => LoginSpoils s uid passwd
  | .logout _ => False
  | .createGroup uid gid => CreateSpoils s uid gid
  | .joinGroup uid gid => SingleSpoils s (.addMember uid gid)
  | .leaveGroup uid gid => LeaveSpoils s uid gid
  | .shareFile uid gid fname serverAddr =>
    ∃ g, s.groups.find? gid = some g ∧ uid ∈ g.members ∧ fname ∉ g.files ∧
      ∃ e, stoll serverAddr = .error e
  | .peers uid gid fname serverAddr => PeersSpoil order s uid gid fname serverAddr

/-- The outcome of an operation is answered, but not with OK. -/
def Fails (handlers : List (ExnClass × Response)) (r : Except ExnClass Response) : Prop :=
  ∃ res, answered handlers r = .ok res ∧ res.status ≠ .OK

theorem failsCleanly_iff {order : AssignOrder} {req : Request} {remoteAddr : SockAddr}
    {s : Tracker} : FailsCleanly order req remoteAddr s ↔
      ∀ op, classify s.tokenMap req remoteAddr = .ok op →
        Fails op.handlers (op.perform order s).1 →
          (op.perform order s).2.contents = s.contents := by
  rw [FailsCleanly, callback_eq]
  cases classify s.tokenMap req remoteAddr with
  | error res =>
    simp only [reduceCtorEq, false_implies, implies_true, iff_true]
    rintro res t ⟨⟩ -
    rfl
  | ok op =>
    constructor
    · rintro h _ ⟨⟩ ⟨res, hres, hstatus⟩
      exact h res _ (by rw [react, Operation.respond, hres]) hstatus
    · rintro h res t hrun hstatus
      rw [react, Operation.respond, Prod.mk.injEq] at hrun
      obtain ⟨hres, rfl⟩ := hrun
      exact h op rfl ⟨res, hres, hstatus⟩

/-! ## When a change is none -/

theorem insert_subscript_eq {κ ν : Type} [LinearOrder κ] [Inhabited ν] {m : OrdMap κ ν} {k : κ}
    {f : ν → ν} :
    m.insert k (f (subscript m k)) = m ↔ k ∈ m ∧ f (subscript m k) = subscript m k := by
  rw [OrdMap.insert_eq_self, OrdMap.mem_iff_exists, subscript]
  cases m.find? k with
  | none => simp
  | some v => simp [eq_comm]

theorem tables_eq (s : Tracker) (tables : Tables) :
    { s.contents with tables } = s.contents ↔ tables = s.db.tables := by
  simp [contents]

/-- Taking a member out of a group changes nothing exactly when the group is there without the
member, and the tables stay the same. -/
theorem left_eq (s : Tracker) (uid gid : Str) (tables : Tables) :
    left s uid gid tables = s.contents ↔ Untouched s uid gid tables := by
  have hgroups : (left s uid gid tables).groups = s.groups ↔
      gid ∈ s.groups ∧ uid ∉ (subscript s.groups gid).members := by
    have h := insert_subscript_eq (m := s.groups) (k := gid)
      (f := fun g => { g with members := g.members.erase uid })
    refine h.trans (and_congr_right fun _ => ?_)
    rw [← OrdMap.erase_eq_self]
    exact ⟨congrArg Group.members, fun hsame => by rw [hsame]⟩
  rw [Untouched, ← hgroups]
  constructor
  · intro h
    exact ⟨congrArg Contents.groups h, congrArg Contents.tables h⟩
  · rintro ⟨h, rfl⟩
    exact congrArg (fun groups => (⟨groups, s.tokenMap, s.address, s.db.tables⟩ : Contents)) h

theorem addressUnread_eq {order : AssignOrder} {s : Tracker} {uid : Str} :
    addressUnread order s uid = s.address ↔ order = .rightFirst ∨ uid ∈ s.address := by
  cases order with
  | leftFirst => simpa [addressUnread] using insert_subscript_eq (m := s.address) (f := fun a => a)
  | rightFirst => simp [addressUnread]

/-! ## One operation -/

theorem not_fails_ok {handlers : List (ExnClass × Response)} {res : Response}
    (h : res.status = .OK) : ¬ Fails handlers (.ok res) := by
  rintro ⟨res', hres, hstatus⟩
  cases hres
  exact hstatus h

theorem not_fails_error {handlers : List (ExnClass × Response)} {e : ExnClass}
    (h : answered handlers (.error e) = .error e) : ¬ Fails handlers (.error e) := by
  rintro ⟨res, hres, -⟩
  rw [h] at hres
  cases hres

/-- A single statement, both exceptions of which are answered. -/
theorem single_clean_iff {α : Type} {s : Tracker} {st : Statement} {a : α}
    {after : Tables → Contents} {r : Except ExnClass α} {c : Contents} {failed : Prop}
    (h : Single s st a after r c) (hsqlite : r = .error .sqliteException → failed)
    (hconstraint : r = .error .constraintFailedException → failed) (hok : r = .ok a → ¬ failed) :
    (failed → c = s.contents) ↔ ¬ SingleSpoils s st := by
  rw [SingleSpoils]
  cases h with
  | fails h0 =>
    have hfailed : failed := by
      rcases Database.error_of_reply (congrArg Prod.fst h0) with rfl | ⟨rfl, -⟩
      · exact hsqlite rfl
      · exact hconstraint rfl
    rw [forall_prop_of_true hfailed, tables_eq]
    simp [h0]
  | done h0 =>
    refine iff_of_true (fun hfailed => absurd hfailed (hok rfl)) ?_
    simp [h0]

theorem createGroup_clean_iff {s : Tracker} {uid gid : Str} {r : Except ExnClass Unit}
    {c : Contents}
    (h : CreateGroup s gid uid r c) :
    (Fails createGroupHandlers (r.map (fun _ => ok "successful")) → c = s.contents) ↔
      ¬ CreateSpoils s uid gid := by
  have hcrash : ¬ Fails createGroupHandlers (.error .sqliteException) := not_fails_error rfl
  have hfails : Fails createGroupHandlers (.error .constraintFailedException) := ⟨_, rfl, by decide⟩
  rw [CreateSpoils]
  cases h with
  | groupFails h0 =>
    rcases Database.error_of_reply (congrArg Prod.fst h0) with rfl | ⟨rfl, -⟩
    · exact iff_of_true (fun h => absurd h hcrash) (by simp [h0])
    · refine (forall_prop_of_true hfails).trans ((tables_eq _ _).trans ?_)
      simp [h0]
  | memberFails h0 h1 =>
    rcases Database.error_of_reply (congrArg Prod.fst h1) with rfl | ⟨rfl, -⟩
    · exact iff_of_true (fun h => absurd h hcrash) (by simp [h0, h1])
    · refine (forall_prop_of_true hfails).trans ((tables_eq _ _).trans ?_)
      simp [h0, h1]
  | created h0 h1 =>
    refine iff_of_true (fun h => absurd h (not_fails_ok rfl)) ?_
    simp [h0, h1]

theorem leaveGroup_clean_iff {s : Tracker} {uid gid : Str} {r : Except ExnClass Unit} {c : Contents}
    (h : LeaveGroup s uid gid r c) :
    (Fails leaveGroupHandlers (r.map (fun _ => ok "successful")) → c = s.contents) ↔
      ¬ LeaveSpoils s uid gid := by
  have hcrash : ¬ Fails leaveGroupHandlers (.error .constraintFailedException) :=
    not_fails_error rfl
  have hfails : Fails leaveGroupHandlers (.error .sqliteException) := ⟨_, rfl, by decide⟩
  rw [LeaveSpoils]
  cases h with
  | memberFails h0 =>
    rcases Database.error_of_reply (congrArg Prod.fst h0) with rfl | ⟨rfl, -⟩
    · refine (forall_prop_of_true hfails).trans ((tables_eq _ _).trans ?_)
      simp [h0]
    · exact iff_of_true (fun h => absurd h hcrash) (by simp [h0])
  | left h0 howner =>
    refine iff_of_true (fun h => absurd h (not_fails_ok rfl)) ?_
    simp [h0, howner]
  | membersFail h0 howner h1 =>
    rcases Database.error_of_reply (congrArg Prod.fst h1) with rfl | ⟨rfl, -⟩
    · refine (forall_prop_of_true hfails).trans ((left_eq _ _ _ _).trans ?_)
      simp [h0, ← howner, h1]
    · exact iff_of_true (fun h => absurd h hcrash) (by simp [h0, h1])
  | groupFails h0 howner h1 h2 =>
    rcases Database.error_of_reply (congrArg Prod.fst h2) with rfl | ⟨rfl, -⟩
    · refine (forall_prop_of_true hfails).trans ((left_eq _ _ _ _).trans ?_)
      simp [h0, ← howner, h1, h2]
    · exact iff_of_true (fun h => absurd h hcrash) (by simp [h0, h1, h2])
  | deleted h0 howner h1 h2 =>
    refine iff_of_true (fun h => absurd h (not_fails_ok rfl)) ?_
    simp [h0, h1, h2]

/-- Once no token has been found, only the statement that inserts a new one matters. -/
theorem loginSpoils_iff_of_noToken {s : Tracker} {uid passwd : Str} {tables : Tables}
    (hno : s.NoToken uid passwd tables) : LoginSpoils s uid passwd ↔
      ∃ tables', s.db.reply 2 (.insertToken (generateToken uid passwd) uid) tables =
        (.error .sqliteException, tables') ∧ tables' ≠ s.db.tables := by
  have hsame {tables' : Tables} : s.NoToken uid passwd tables' ↔ tables' = tables :=
    ⟨hno.unique, fun h => h ▸ hno⟩
  obtain ⟨rows, tables0, h0, hrows, -⟩ := hno
  simp [LoginSpoils, SingleSpoils, h0, hrows, hsame]

theorem login_clean_iff {s : Tracker} {uid passwd : Str} {r : Except ExnClass Str} {c : Contents}
    (h : Login s uid passwd r c) {f : Str → Response} (hf : ∀ token, (f token).status = .OK) :
    (Fails loginHandlers (r.map f) → c = s.contents) ↔ ¬ LoginSpoils s uid passwd := by
  have hcrash : ¬ Fails loginHandlers (.error .constraintFailedException) := not_fails_error rfl
  have hsqlite : Fails loginHandlers (.error .sqliteException) := ⟨_, rfl, by decide⟩
  have hcred : Fails loginHandlers (.error .invalidCredException) := ⟨_, rfl, by decide⟩
  cases h with
  | userFails h0 =>
    rcases Database.error_of_reply (congrArg Prod.fst h0) with rfl | ⟨-, hquery⟩
    · refine (forall_prop_of_true hsqlite).trans ((tables_eq _ _).trans ?_)
      simp [LoginSpoils, SingleSpoils, NoToken, h0]
    · cases hquery
  | refused h0 hrows =>
    refine (forall_prop_of_true hcred).trans ((tables_eq _ _).trans ?_)
    simp [LoginSpoils, SingleSpoils, NoToken, h0, hrows]
  | found h0 hrows h1 =>
    refine iff_of_true (fun h => absurd h (not_fails_ok (hf _))) ?_
    simp [LoginSpoils, SingleSpoils, NoToken, h0, hrows, h1]
  | tokenFails hno h2 =>
    rw [loginSpoils_iff_of_noToken hno]
    rcases Database.error_of_reply (congrArg Prod.fst h2) with rfl | ⟨rfl, -⟩
    · refine (forall_prop_of_true hsqlite).trans ((tables_eq _ _).trans ?_)
      simp [h2]
    · exact iff_of_true (fun h => absurd h hcrash) (by simp [h2])
  | issued hno h2 =>
    rw [loginSpoils_iff_of_noToken hno]
    exact iff_of_true (fun h => absurd h (not_fails_ok (hf _))) (by simp [h2])

theorem shareFile_clean_iff {order : AssignOrder} {s : Tracker} {uid gid fname serverAddr : Str}
    {r : Except ExnClass Response} {c : Contents}
    (h : ShareFile order s uid gid fname serverAddr r c) :
    (Fails shareFileHandlers r → c = s.contents) ↔
      ¬ Spoils order s (.shareFile uid gid fname serverAddr) := by
  rw [Spoils]
  cases h with
  | noMember hno =>
    refine iff_of_true (fun _ => rfl) ?_
    rintro ⟨g, hg, hu, -⟩
    exact hno ⟨g, hg, hu⟩
  | conflict hg hu hf =>
    refine iff_of_true (fun _ => rfl) ?_
    rintro ⟨g', hg', -, hf', -⟩
    rw [hg] at hg'
    cases hg'
    exact hf' hf
  | @badNumber g e hg hu hf hn =>
    have hfails : Fails shareFileHandlers (.error e) := by
      rcases stoll_error hn with rfl | rfl <;> exact ⟨_, rfl, by decide⟩
    refine iff_of_false (fun h => ?_) (not_not.mpr ⟨g, hg, hu, hf, e, hn⟩)
    have hsame := congrArg (fun c => (subscript c.groups gid).files) (h hfails)
    simp only [contents, Contents.withFile, Contents.withGroup, subscript_insert_self,
      subscript_of_find? hg] at hsame
    refine hf ?_
    rw [← hsame, OrdMap.mem_insert]
    exact .inl rfl
  | shared hg hu hf hn =>
    refine iff_of_true (fun h => absurd h (not_fails_ok rfl)) ?_
    rintro ⟨-, -, -, -, e, he⟩
    rw [hn] at he
    cases he

theorem address_eq (s : Tracker) (address : OrdMap Str SockAddr) :
    { s.contents with address } = s.contents ↔ address = s.address := by
  simp [contents]

/-- Counting a user among the leechers of a file that is there changes nothing exactly when the
user is among them. -/
theorem leecher_eq {s : Tracker} {gid fname : Str} {g : Group} {f : File}
    (hg : s.groups.find? gid = some g) (hf : g.files.find? fname = some f) (uid : Str)
    (address : OrdMap Str SockAddr) :
    { s.contents.withFile gid fname fun f' => { f' with leechers := f.leechers.add uid } with
      address } = s.contents ↔ uid ∈ f.leechers ∧ address = s.address := by
  simp only [contents, Contents.withFile, Contents.withGroup, Contents.mk.injEq, true_and, and_true,
    subscript_of_find? hg, subscript_of_find? hf]
  refine and_congr_left fun _ => ?_
  rw [OrdMap.insert_eq_self, hg, Option.some_inj, ← OrdSet.add_eq_self]
  constructor
  · intro h
    have hsame := congrArg (fun g => subscript g.files fname) h
    simp only [subscript_insert_self, subscript_of_find? hf] at hsame
    exact (congrArg File.leechers hsame).symm
  · intro h
    rw [h, OrdMap.insert_eq_self.mpr hf]

theorem peers_clean_iff {order : AssignOrder} {s : Tracker} {uid gid fname serverAddr : Str}
    {r : Except ExnClass Response} {c : Contents}
    (h : Peers order s uid gid fname serverAddr r c) :
    (Fails peersHandlers r → c = s.contents) ↔
      ¬ Spoils order s (.peers uid gid fname serverAddr) := by
  rw [Spoils, PeersSpoil]
  cases h with
  | @badNumber e hn =>
    have hfails : Fails peersHandlers (.error e) := by
      rcases stoll_error hn with rfl | rfl <;> exact ⟨_, rfl, by decide⟩
    rw [forall_prop_of_true hfails, address_eq, addressUnread_eq]
    cases order <;> simp [hn]
  | @noMember n hn hno =>
    have hfails : Fails peersHandlers
        (.ok (.new .FORBIDDEN (lit "user not part of group or no such group"))) :=
      ⟨_, rfl, by decide⟩
    have hnot (g : Group) (hg : s.groups.find? gid = some g) : uid ∉ g.members :=
      fun hu => hno ⟨g, hg, hu⟩
    rw [forall_prop_of_true hfails, address_eq, OrdMap.insert_eq_self]
    simp +contextual [hn, hno, hnot, NewAddress]
  | @noFile n g hn hg hu hf =>
    have hfails : Fails peersHandlers (.error .noSuchFileException) := ⟨_, rfl, by decide⟩
    have hmember : s.IsMember uid gid := ⟨g, hg, hu⟩
    rw [forall_prop_of_true hfails, address_eq, OrdMap.insert_eq_self]
    simp [hn, hg, hu, hf, hmember, OrdMap.notMem_iff.mp hf, NewAddress]
  | @alone n g f hn hg hu hf halone =>
    have hfails : Fails peersHandlers (.error .outOfRange) := ⟨_, rfl, by decide⟩
    have hmember : s.IsMember uid gid := ⟨g, hg, hu⟩
    have hin : fname ∈ g.files := OrdMap.mem_iff_exists.mpr ⟨f, hf⟩
    rw [forall_prop_of_true hfails]
    refine Iff.trans (leecher_eq hg hf uid _) ?_
    rw [OrdMap.insert_eq_self]
    simp [hn, hg, hu, hf, hmember, hin, halone, NewAddress, and_comm]
  | @listed n g f peers address hn hg hu hf hother =>
    have hmember : s.IsMember uid gid := ⟨g, hg, hu⟩
    have hin : fname ∈ g.files := OrdMap.mem_iff_exists.mpr ⟨f, hf⟩
    refine iff_of_true (fun h => absurd h (not_fails_ok rfl)) ?_
    simp [hn, hg, hu, hf, hmember, hin, hother]

/-- An operation leaves nothing behind when it fails, unless it is one that spoils. -/
theorem clean_iff (order : AssignOrder) (s : Tracker) (op : Operation) :
    (Fails op.handlers (op.perform order s).1 → (op.perform order s).2.contents = s.contents) ↔
      ¬ Spoils order s op := by
  cases op with
  | signup uid pass =>
    refine single_clean_iff (signup_cases s order uid pass) (fun hr => ?_) (fun hr => ?_)
      fun hr => ?_
    · rw [hr]
      exact ⟨_, rfl, by decide⟩
    · rw [hr]
      exact ⟨_, rfl, by decide⟩
    · rw [hr]
      exact not_fails_ok rfl
  | login uid passwd remoteAddr =>
    have h := login_cases s uid passwd
    rw [Operation.perform]
    rcases hrun : login uid passwd s with ⟨e | auth, t⟩
    · rw [Action.bind_of_error hrun]
      rw [hrun] at h
      exact login_clean_iff h (f := (ok "successful").addHeader (lit "Authorization")) fun _ => rfl
    · rw [Action.bind_of_ok hrun]
      rw [hrun] at h
      have hclean := login_clean_iff h (f := (ok "successful").addHeader (lit "Authorization"))
        fun _ => rfl
      exact iff_of_true (fun hfails => absurd hfails (not_fails_ok rfl))
        (hclean.mp fun hfails => absurd hfails (not_fails_ok rfl))
  | logout token =>
    exact iff_of_true (fun hfails => absurd hfails (not_fails_ok rfl)) (fun h => h)
  | createGroup uid gid =>
    rw [Operation.perform, done_run]
    exact createGroup_clean_iff (createGroup_cases s gid uid)
  | joinGroup uid gid =>
    rw [Operation.perform, done_run]
    refine single_clean_iff (joinGroup_cases s uid gid) (fun hr => ?_) (fun hr => ?_) fun hr => ?_
    · rw [hr]
      exact ⟨_, rfl, by decide⟩
    · rw [hr]
      exact ⟨_, rfl, by decide⟩
    · rw [hr]
      exact not_fails_ok rfl
  | leaveGroup uid gid =>
    rw [Operation.perform, done_run]
    exact leaveGroup_clean_iff (leaveGroup_cases s uid gid)
  | shareFile uid gid fname serverAddr =>
    exact shareFile_clean_iff (shareFile_cases order s uid gid fname serverAddr)
  | peers uid gid fname serverAddr =>
    exact peers_clean_iff (peers_cases order s uid gid fname serverAddr)

/-! ## Runs -/

/-- A request that asks for an operation that spoils. -/
def Spoiling (order : AssignOrder) : System → Event → Prop
  | .up s, .request req remoteAddr =>
    ∃ op, classify s.tokenMap req remoteAddr = .ok op ∧ Spoils order s op
  | _, _ => False

/-- A request that fails cleanly, where a process is there to answer it. -/
def Clean (order : AssignOrder) : System → Event → Prop
  | .up s, .request req remoteAddr => FailsCleanly order req remoteAddr s
  | _, _ => True

theorem clean_iff_not_spoiling (order : AssignOrder) (sys : System) (event : Event) :
    Clean order sys event ↔ ¬ Spoiling order sys event := by
  cases sys with
  | down db => exact iff_of_true trivial (fun h => h)
  | up s =>
    cases event with
    | restart => exact iff_of_true trivial (fun h => h)
    | request req remoteAddr =>
      refine failsCleanly_iff.trans ?_
      rw [Spoiling, not_exists]
      refine forall_congr' fun op => ?_
      rw [not_and]
      exact imp_congr_right fun _ => clean_iff order s op

end P2PFileSharing.Tracker
