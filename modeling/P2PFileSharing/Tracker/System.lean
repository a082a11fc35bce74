import P2PFileSharing.Library.Machine
import P2PFileSharing.Tracker.Operation

/-!
# Runs of the tracker

The process answers requests until an exception leaves `callback`, which ends it. A new process
can be started on the database at any time. The answers, and the next state, follow from the
events alone once it is fixed how SQLite takes the texts.
-/

namespace P2PFileSharing.Tracker

open Http Library

inductive Event where
  | request (req : Request) (remoteAddr : SockAddr)
  /-- The process ends, if it is there, and a new one is started. -/
  | restart

inductive System where
  | up (s : Tracker)
  | down (db : Database)
  deriving DecidableEq

namespace System

def db : System → Database
  | up s => s.db
  | down db => db

/-- An exception that nothing catches ends the process. The database stays. -/
def settle {α : Type} : Except ExnClass α × Tracker → System
  | (.ok _, t) => up t
  | (.error _, t) => down t.db

@[simp] theorem db_settle {α : Type} (r : Except ExnClass α × Tracker) :
    (settle r).db = r.2.db := by
  obtain ⟨e | a, t⟩ := r <;> rfl

theorem settle_eq_up {α : Type} {r : Except ExnClass α × Tracker} {t : Tracker} :
    settle r = up t ↔ ∃ a, r = (.ok a, t) := by
  obtain ⟨e | a, t'⟩ := r <;> simp [settle]

def step (order : AssignOrder) : System → Event → Option System
  | up s, .request req remoteAddr => some (settle (callback order req remoteAddr s))
  | down _, .request .. => none
  | sys, .restart => some (settle (start sys.db))

theorem step_restart (order : AssignOrder) (sys : System) :
    step order sys .restart = some (settle (start sys.db)) := by
  cases sys <;> rfl

/-- The first process, on an empty database. -/
def boot (script : List Behaviour) : System := settle (start ⟨.new, script⟩)

/-- The state `sys` that some run from an empty database ends in. -/
def Reachable (order : AssignOrder) (script : List Behaviour) (sys : System) : Prop :=
  ∃ events, Machine.run (step order) (boot script) events = some sys

/-- The run of `events` ends in a running process that passes a check. -/
def endsIn (order : AssignOrder) (script : List Behaviour) (events : List Event)
    (check : Tracker → Bool) : Bool :=
  match Machine.run (step order) (boot script) events with
  | some (.up s) => check s
  | _ => false

theorem exists_run (order : AssignOrder) (script : List Behaviour) (events : List Event)
    (check : Tracker → Bool) (h : endsIn order script events check = true) :
    ∃ s, Machine.run (step order) (boot script) events = some (.up s) ∧ check s = true := by
  rw [endsIn] at h
  split at h
  · exact ⟨_, ‹_›, h⟩
  · cases h

theorem exists_reachable (order : AssignOrder) (script : List Behaviour) (events : List Event)
    (check : Tracker → Bool) (h : endsIn order script events check = true) :
    ∃ s, Reachable order script (.up s) ∧ check s = true := by
  obtain ⟨s, hrun, hcheck⟩ := exists_run order script events check h
  exact ⟨s, ⟨events, hrun⟩, hcheck⟩

end System

/-- A POST request with these headers. -/
def posting (resource : String) (headers : List (String × String)) : Request :=
  headers.foldl (fun r h => r.addHeader (lit h.1) (lit h.2)) (.new .POST (lit resource))

/-- A user, who signs up, logs in and creates a group. -/
def founding : List Event :=
  [.request (posting "/signup" [("Username", "ann"), ("Password", "pw")]) .new,
    .request (posting "/login" [("Username", "ann"), ("Password", "pw")]) .new,
    .request (posting "/create_group" [("Authorization", "annpw"), ("Group-Id", "g")]) .new]

/-! ## What a run does to the database

A relation between databases that every statement keeps is kept by every operation, and so by
every run. -/

/-- The databases of two trackers are related. -/
def Via (R : Database → Database → Prop) (s t : Tracker) : Prop := R s.db t.db

theorem sql_via {R : Database → Database → Prop} (hR : ∀ st db, R db (Database.exec st db).2)
    (st : Statement) : Action.Within (Via R) (sql st) :=
  fun s => hR st s.db

section Via

variable {R : Database → Database → Prop} [Std.Refl R]

instance : Std.Refl (Via R) := ⟨fun s => refl_of R s.db⟩

theorem modify_via {f : Tracker → Tracker} (h : ∀ s, (f s).db = s.db) :
    Action.Within (Via R) (Action.modify f : TrackerM Unit) := by
  apply Action.within_modify
  intro s
  rw [Via, h]
  exact refl_of R s.db

variable [IsTrans Database R]

instance : IsTrans Tracker (Via R) := ⟨fun _ _ _ hst htu => trans_of R hst htu⟩

theorem modify_then_via {α : Type} {f : Tracker → Tracker} {k : Unit → TrackerM α}
    (hk : Action.Within (Via R) (k ())) (h : ∀ s, (f s).db = s.db) :
    Action.Within (Via R) (Action.modify f >>= k) :=
  (modify_via h).bind fun _ => hk

theorem findGroup_via (uid gid : Str) : Action.Within (Via R) (findGroup uid gid) := by
  refine Action.within_get.bind fun s => ?_
  split
  · exact Action.within_throw _
  · split
    · exact Action.within_pure _
    · exact Action.within_throw _

theorem shareFile_via (uid gid fname : Str) :
    Action.Within (Via R) (shareFile uid gid fname) := by
  refine (findGroup_via uid gid).bind fun g => ?_
  split
  · exact Action.within_throw _
  · exact modify_via fun _ => rfl

theorem listPeers_via (uid : Str) (ids : List Str) (members : Str) :
    Action.Within (Via R) (listPeers uid ids members) := by
  induction ids generalizing members with
  | nil => exact Action.within_pure _
  | cons id ids ih =>
    rw [listPeers]
    split
    · exact ih members
    · exact Action.within_get.bind fun s => modify_then_via (ih _) fun _ => rfl

theorem getPeers_via (uid gid fname : Str) : Action.Within (Via R) (getPeers uid gid fname) := by
  refine (findGroup_via uid gid).bind fun g => ?_
  split
  · exact Action.within_throw _
  · refine modify_then_via ((listPeers_via _ _ _).bind fun members => ?_) fun _ => rfl
    split
    · exact Action.within_throw _
    · exact Action.within_pure _

theorem setAddress_via (order : AssignOrder) (uid text : Str) :
    Action.Within (Via R) (setAddress order uid text) := by
  have hset : Action.Within (Via R) (Action.ofExcept (stoll text) >>= fun number =>
      Action.modify fun s => s.withAddress uid (SockAddr.ofUid number)) :=
    (Action.within_ofExcept _).bind fun number => modify_via fun _ => rfl
  cases order with
  | leftFirst => exact modify_then_via hset fun _ => rfl
  | rightFirst => exact hset

variable (hR : ∀ st db, R db (Database.exec st db).2)
include hR

theorem deleteGroup_via (gid : Str) : Action.Within (Via R) (deleteGroup gid) := by
  refine (sql_via hR _).bind fun _ => (sql_via hR _).bind fun _ => ?_
  exact modify_via fun _ => rfl

theorem leaveGroup_via (uid gid : Str) : Action.Within (Via R) (leaveGroup uid gid) := by
  refine (sql_via hR _).bind fun _ =>
    modify_then_via (Action.within_get.bind fun s => ?_) fun _ => rfl
  split
  · exact deleteGroup_via hR gid
  · exact Action.within_pure ()

theorem getToken_via (uid : Str) : Action.Within (Via R) (getToken uid) := by
  refine (sql_via hR _).bind fun rows => ?_
  cases rows with
  | nil => exact Action.within_throw _
  | cons row rest => exact Action.within_pure _

theorem issueToken_via (uid passwd : Str) : Action.Within (Via R) (issueToken uid passwd) := by
  refine ((getToken_via hR uid).catching ?_).bind fun token =>
    modify_then_via (Action.within_pure token) fun _ => rfl
  intro e k hk
  rw [handlerFor_singleton] at hk
  split at hk
  · cases hk
    exact (sql_via hR _).bind fun _ => Action.within_pure _
  · cases hk

theorem login_via (uid passwd : Str) : Action.Within (Via R) (login uid passwd) := by
  refine (sql_via hR _).bind fun rows => ?_
  cases rows with
  | nil => exact Action.within_throw _
  | cons row rest =>
    dsimp only
    split
    · exact Action.within_throw _
    · exact issueToken_via hR uid passwd

theorem perform_via (order : AssignOrder) (op : Operation) :
    Action.Within (Via R) (op.perform order) := by
  have done (res : Response) : Action.Within (Via R) (pure res : TrackerM Response) :=
    Action.within_pure res
  cases op with
  | signup uid pass => exact (sql_via hR _).bind fun _ => done _
  | login uid passwd remoteAddr =>
    exact (login_via hR uid passwd).bind fun _ => modify_then_via (done _) fun _ => rfl
  | logout token => exact Action.Within.bind (modify_via fun _ => rfl) fun _ => done _
  | createGroup uid gid =>
    exact Action.Within.bind ((sql_via hR _).bind fun _ => (sql_via hR _).bind fun _ =>
      modify_via fun _ => rfl) fun _ => done _
  | joinGroup uid gid =>
    exact Action.Within.bind ((sql_via hR _).bind fun _ => modify_via fun _ => rfl)
      fun _ => done _
  | leaveGroup uid gid => exact (leaveGroup_via hR uid gid).bind fun _ => done _
  | shareFile uid gid fname serverAddr =>
    exact (shareFile_via uid gid fname).bind fun _ =>
      (setAddress_via order uid serverAddr).bind fun _ => done _
  | peers uid gid fname serverAddr =>
    refine (setAddress_via order uid serverAddr).bind fun _ => ?_
    refine ((getPeers_via uid gid fname).bind fun _ => done _).catching ?_
    intro e k hk
    obtain ⟨res, -, rfl⟩ := Option.map_eq_some_iff.mp hk
    exact done res

theorem callback_via (order : AssignOrder) (req : Request) (remoteAddr : SockAddr) :
    Action.Within (Via R) (callback order req remoteAddr) := by
  intro s
  rw [callback_eq]
  cases classify s.tokenMap req remoteAddr with
  | error res => exact Action.within_pure res s
  | ok op => exact perform_via hR order op s

theorem loadGroups_via (rows : List Row) : Action.Within (Via R) (loadGroups rows) := by
  induction rows with
  | nil => exact Action.within_pure ()
  | cons row rows ih =>
    exact (sql_via hR _).bind fun members => modify_then_via ih fun _ => rfl

theorem load_via : Action.Within (Via R) load :=
  (sql_via hR _).bind fun _ => (sql_via hR _).bind fun _ => (sql_via hR _).bind fun _ =>
    (sql_via hR _).bind fun _ => (sql_via hR _).bind fun groupTable =>
      (sql_via hR _).bind fun _ =>
        modify_then_via (loadGroups_via hR groupTable) fun _ => rfl

/-- What every statement keeps, every step keeps. -/
theorem step_via {order : AssignOrder} {sys sys' : System} {event : Event}
    (h : System.step order sys event = some sys') : R sys.db sys'.db := by
  cases event with
  | request req remoteAddr =>
    cases sys with
    | up s =>
      cases h
      rw [System.db_settle]
      exact callback_via hR order req remoteAddr s
    | down db => cases h
  | restart =>
    rw [System.step_restart] at h
    cases h
    rw [System.db_settle]
    exact load_via hR ⟨sys.db, ∅, ∅, ∅⟩

/-- What every statement keeps, every run keeps. -/
theorem run_via {order : AssignOrder} {sys sys' : System} {events : List Event}
    (h : Machine.run (System.step order) sys events = some sys') : R sys.db sys'.db := by
  refine Machine.run_invariant (P := fun sys' => R sys.db sys'.db) ?_ (refl_of R sys.db) h
  intro sys' event sys'' hsys hstep
  exact trans_of R hsys (step_via hR hstep)

theorem reachable_via {order : AssignOrder} {script : List Behaviour} {sys : System}
    (h : System.Reachable order script sys) : R ⟨.new, script⟩ sys.db := by
  obtain ⟨events, hrun⟩ := h
  have hboot : R ⟨.new, script⟩ (System.boot script).db := by
    rw [System.boot, System.db_settle]
    exact load_via hR ⟨⟨.new, script⟩, ∅, ∅, ∅⟩
  exact trans_of R hboot (run_via hR hrun)

end Via

/-- The statements that were executed have used up the beginning of the script. -/
def Consumes (db db' : Database) : Prop := db'.script <:+ db.script

instance : Std.Refl Consumes := ⟨fun db => List.suffix_refl db.script⟩

instance : IsTrans Database Consumes := ⟨fun _ _ _ h h' => h'.trans h⟩

theorem exec_consumes (st : Statement) (db : Database) : Consumes db (Database.exec st db).2 :=
  List.tail_suffix db.script

/-- Statements that are all taken plainly leave nothing of the script. -/
theorem Consumes.nil {db db' : Database} (h : Consumes db db') (hnil : db.script = []) :
    db'.script = [] := by
  rw [Consumes, hnil] at h
  exact List.suffix_nil.mp h

/-- SQLite takes every text plainly or fails without an effect, from the first process on. -/
theorem regular_of_reachable {order : AssignOrder} {script : List Behaviour} {sys : System}
    (h : System.Reachable order script sys) (hscript : ∀ b ∈ script, b = .plain ∨ b = .fails) :
    sys.db.Regular :=
  fun b hb => hscript b ((reachable_via exec_consumes h).subset hb)

/-! ## Rows that stay -/

/-- What is held by the tables stays held, as long as texts are taken plainly or fail. -/
def KeepsHeld (held : Tables → Prop) (db db' : Database) : Prop :=
  db.Regular → db'.Regular ∧ (held db.tables → held db'.tables)

section KeepsHeld

variable {held : Tables → Prop}

instance : Std.Refl (KeepsHeld held) := ⟨fun _ h => ⟨h, fun hheld => hheld⟩⟩

instance : IsTrans Database (KeepsHeld held) := by
  refine ⟨fun db db' db'' h h' hreg => ?_⟩
  obtain ⟨hreg', hheld⟩ := h hreg
  obtain ⟨hreg'', hheld'⟩ := h' hreg'
  exact ⟨hreg'', fun hdb => hheld' (hheld hdb)⟩

theorem exec_keepsHeld (hplain : ∀ st tables, held tables → held (Statement.plain tables st).2)
    (st : Statement) (db : Database) : KeepsHeld held db (Database.exec st db).2 := by
  intro hreg
  rw [Database.exec_eq]
  refine ⟨hreg.advance _, fun hheld => ?_⟩
  rcases hreg.later 0 with h0 | h0
  · rw [Database.reply_of_plain h0]
    exact hplain st _ hheld
  · rwa [Database.reply_of_fails h0]

/-- An insertion keeps what the rows of its table decide, and what does not depend on them. -/
theorem held_inserted (held : Tables → Prop) {clash : Row → Row → Prop} [DecidableRel clash]
    {tables : Tables}
    {table : Table clash} {row : Row} {put : Table clash → Tables}
    (hput : ∀ table', table.insert row = some table' → held (put table')) (h : held tables) :
    held (inserted tables table row put).2 := by
  cases hins : table.insert row with
  | none => rwa [inserted_none hins]
  | some table' =>
    rw [inserted_some hins]
    exact hput table' hins

end KeepsHeld

/-- Nothing removes a user. -/
theorem plain_keepsUser (row : Row) (st : Statement) (tables : Tables) (h : row ∈ tables.user) :
    row ∈ (st.plain tables).2.user := by
  cases st with
  | createUser uid passwd =>
    apply held_inserted (fun tables => row ∈ tables.user) _ h
    exact fun table hins => (Table.mem_of_insert hins).mpr (.inl h)
  | insertGroup gid oid => exact held_inserted (fun tables => row ∈ tables.user) (fun _ _ => h) h
  | addMember uid gid => exact held_inserted (fun tables => row ∈ tables.user) (fun _ _ => h) h
  | insertToken token uid => exact held_inserted (fun tables => row ∈ tables.user) (fun _ _ => h) h
  | _ => exact h

end P2PFileSharing.Tracker
