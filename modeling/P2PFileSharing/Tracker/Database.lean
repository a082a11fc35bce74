import P2PFileSharing.Cpp.Exception
import P2PFileSharing.Cpp.Str
import P2PFileSharing.Library.Table

/-!
# The database of the tracker

The four tables with their keys, and the statements that the SQLite clients execute on them. The
clients paste their arguments into the texts of the statements, so it is left open how SQLite takes
a text: it acts on the arguments as plain values, or fails, or does something else altogether.
-/

namespace P2PFileSharing.Tracker

open Library

/-- A row of one of the tables. Each of them has two columns. -/
abbrev Row := Str × Str

/-- `PRIMARY KEY(ID)` -/
abbrev SameId (a b : Row) : Prop := a.1 = b.1

/-- `TOKEN PRIMARY KEY`, `UID UNIQUE` -/
abbrev SameTokenOrUid (a b : Row) : Prop := a.1 = b.1 ∨ a.2 = b.2

structure Tables where
  /-- `ID`, `OWNER_ID` -/
  group : Table SameId
  /-- `ID`, `GID`, with `PRIMARY KEY(ID, GID)` -/
  member : Table (Eq (α := Row))
  /-- `ID`, `PASSWORD` -/
  user : Table SameId
  /-- `TOKEN`, `UID` -/
  token : Table SameTokenOrUid
  deriving DecidableEq

namespace Tables

def new : Tables := ⟨∅, ∅, ∅, ∅⟩

end Tables

/-- The statements of `group_client`, `user_client` and `token_client` that the tracker executes. -/
inductive Statement where
  | createGroupTable
  | createMembersTable
  | createUserTable
  | createTokenTable
  | insertGroup (gid oid : Str)
  | removeGroup (gid : Str)
  | getGroupList
  | addMember (uid gid : Str)
  | removeMember (uid gid : Str)
  | removeAllMembers (gid : Str)
  | getMemberList (gid : Str)
  | createUser (uid passwd : Str)
  | getUser (uid : Str)
  | insertToken (token uid : Str)
  | getToken (uid : Str)
  | getTokenList
  deriving DecidableEq, Repr

namespace Statement

/-- The statements that are executed with a callback for the rows. -/
def isQuery : Statement → Bool
  | getGroupList | getMemberList _ | getUser _ | getToken _ | getTokenList => true
  | _ => false

end Statement

/-- What `sqlite3_exec` reports. -/
inductive SqlResult where
  | rows (rows : List Row)
  | constraint
  | error
  deriving DecidableEq, Repr

/-- An insertion that a uniqueness constraint may refuse. -/
def inserted {clash : Row → Row → Prop} [DecidableRel clash] (tables : Tables) (t : Table clash)
    (r : Row) (store : Table clash → Tables) : SqlResult × Tables :=
  match t.insert r with
  | some t' => (.rows [], store t')
  | none => (.constraint, tables)

section Inserted

variable {clash : Row → Row → Prop} [DecidableRel clash] {tables : Tables} {t t' : Table clash}
  {r : Row} {store : Table clash → Tables}

theorem inserted_some (h : t.insert r = some t') :
    inserted tables t r store = (.rows [], store t') := by
  rw [inserted, h]

theorem inserted_none (h : t.insert r = none) :
    inserted tables t r store = (.constraint, tables) := by
  rw [inserted, h]

end Inserted

/-- A statement that acts on its arguments as plain values. The tables are there. -/
def Statement.plain (tables : Tables) : Statement → SqlResult × Tables
  | createGroupTable | createMembersTable | createUserTable | createTokenTable => (.rows [], tables)
  | insertGroup gid oid =>
    inserted tables tables.group (gid, oid) fun group => { tables with group }
  | removeGroup gid =>
    (.rows [], { tables with group := tables.group.delete (fun r => r.1 = gid) })
  | getGroupList => (.rows tables.group.rows, tables)
  | addMember uid gid =>
    inserted tables tables.member (uid, gid) fun member => { tables with member }
  | removeMember uid gid =>
    (.rows [], { tables with member := tables.member.delete (fun r => r.1 = uid ∧ r.2 = gid) })
  | removeAllMembers gid =>
    (.rows [], { tables with member := tables.member.delete (fun r => r.2 = gid) })
  | getMemberList gid => (.rows (tables.member.rows.filter (fun r => r.2 = gid)), tables)
  | createUser uid passwd =>
    inserted tables tables.user (uid, passwd) fun user => { tables with user }
  | getUser uid => (.rows (tables.user.rows.filter (fun r => r.1 = uid)), tables)
  | insertToken token uid =>
    inserted tables tables.token (token, uid) fun token => { tables with token }
  | getToken uid => (.rows (tables.token.rows.filter (fun r => r.2 = uid)), tables)
  | getTokenList => (.rows tables.token.rows, tables)

/-- How SQLite takes the next text. -/
inductive Behaviour where
  | plain
  /-- `sqlite3_exec` fails without an effect. -/
  | fails
  /-- The arguments change the meaning of the text. -/
  | other (result : SqlResult) (tables : Tables)
  deriving DecidableEq

/-- What a statement reports, and what it makes of the tables. -/
def Behaviour.act (b : Behaviour) (st : Statement) (tables : Tables) : SqlResult × Tables :=
  match b with
  | .plain => st.plain tables
  | .fails => (.error, tables)
  | .other result tables' => (result, tables')

/-- The tables, and how the next statements will be taken; after them all are taken plainly. -/
structure Database where
  tables : Tables
  script : List Behaviour
  deriving DecidableEq

namespace Database

/-- The behaviour that the statement number `k` from now on meets. -/
def later (db : Database) (k : Nat) : Behaviour := (db.script.drop k).headD .plain

def perform (st : Statement) (db : Database) : SqlResult × Tables := (db.later 0).act st db.tables

/-- What `exec` returns or throws. Without a callback for the rows a constraint has an exception
of its own. -/
def outcome (st : Statement) : SqlResult → Except ExnClass (List Row)
  | .rows rows => .ok rows
  | .constraint => .error (if st.isQuery then .sqliteException else .constraintFailedException)
  | .error => .error .sqliteException

def advance (db : Database) (tables : Tables) : Database := ⟨tables, db.script.tail⟩

def exec (st : Statement) : Action Database ExnClass (List Row) := fun db =>
  (outcome st (perform st db).1, db.advance (perform st db).2)

/-- What the statement number `k` from now on returns or throws when it meets `tables`, and what it
makes of them. -/
def reply (db : Database) (k : Nat) (st : Statement) (tables : Tables) :
    Except ExnClass (List Row) × Tables :=
  (outcome st ((db.later k).act st tables).1, ((db.later k).act st tables).2)

/-- Every text is taken plainly or fails without an effect. -/
def Regular (db : Database) : Prop := ∀ b ∈ db.script, b = .plain ∨ b = .fails

instance (db : Database) : Decidable db.Regular :=
  inferInstanceAs (Decidable (∀ b ∈ db.script, b = .plain ∨ b = .fails))

variable {db : Database} {tables tables' : Tables} {st : Statement} {k : Nat}

@[simp] theorem later_advance (k : Nat) : (db.advance tables).later k = db.later (k + 1) := by
  rw [later, later, advance, List.drop_tail]

@[simp] theorem reply_advance (k : Nat) (st : Statement) :
    (db.advance tables).reply k st tables' = db.reply (k + 1) st tables' := by
  rw [reply, reply, later_advance]

theorem exec_eq (st : Statement) (db : Database) :
    exec st db = ((db.reply 0 st db.tables).1, db.advance (db.reply 0 st db.tables).2) :=
  rfl

theorem Regular.advance (h : db.Regular) (tables : Tables) : (db.advance tables).Regular :=
  fun b hb => h b (List.mem_of_mem_tail hb)

theorem Regular.later (h : db.Regular) (k : Nat) : db.later k = .plain ∨ db.later k = .fails := by
  rw [Database.later]
  cases hdrop : db.script.drop k with
  | nil => exact .inl rfl
  | cons b rest => exact h b (List.mem_of_mem_drop (by rw [hdrop]; exact List.mem_cons_self))

/-! ## What a statement replies -/

/-- A statement throws one of the two exceptions, and a query only the first. -/
theorem error_of_reply {e : ExnClass} (h : (db.reply k st tables).1 = .error e) :
    e = .sqliteException ∨ e = .constraintFailedException ∧ st.isQuery = false := by
  rw [reply] at h
  cases hact : ((db.later k).act st tables).1 with
  | rows rows =>
    rw [hact] at h
    cases h
  | error =>
    rw [hact] at h
    cases h
    exact .inl rfl
  | constraint =>
    rw [hact, outcome] at h
    cases hquery : st.isQuery <;> rw [hquery] at h <;> cases h
    · exact .inr ⟨rfl, rfl⟩
    · exact .inl rfl

theorem reply_of_fails (h : db.later k = .fails) (st : Statement) (tables : Tables) :
    db.reply k st tables = (.error .sqliteException, tables) := by
  rw [reply, h]
  rfl

theorem reply_of_plain (h : db.later k = .plain) (st : Statement) (tables : Tables) :
    db.reply k st tables = (outcome st (st.plain tables).1, (st.plain tables).2) := by
  rw [reply, h]
  rfl

section Plain

variable {clash : Row → Row → Prop} [DecidableRel clash] {table : Table clash} {row : Row}
  {put : Table clash → Tables}

/-- An insertion that is taken plainly returns when the row finds its place. -/
theorem inserted_of_reply (h : db.later k = .plain)
    (hst : st.plain tables = inserted tables table row put) {rows : List Row}
    (hreply : db.reply k st tables = (.ok rows, tables')) :
    ∃ table', table.insert row = some table' ∧ tables' = put table' := by
  rw [reply_of_plain h, hst] at hreply
  cases hins : table.insert row with
  | none =>
    rw [inserted_none hins] at hreply
    cases hreply
  | some table' =>
    rw [inserted_some hins] at hreply
    cases hreply
    exact ⟨table', rfl, rfl⟩

/-- It throws when a row is in its way, and changes nothing. -/
theorem clash_of_reply (h : db.later k = .plain)
    (hst : st.plain tables = inserted tables table row put) {e : ExnClass}
    (hreply : db.reply k st tables = (.error e, tables')) :
    (∃ x ∈ table, clash x row) ∧ tables' = tables := by
  rw [reply_of_plain h, hst] at hreply
  cases hins : table.insert row with
  | none =>
    rw [inserted_none hins] at hreply
    exact ⟨Table.insert_eq_none.mp hins, (congrArg Prod.snd hreply).symm⟩
  | some table' =>
    rw [inserted_some hins] at hreply
    cases hreply

/-- Every other statement returns. -/
theorem rows_of_reply (h : db.later k = .plain) {rows : List Row} {tables'' : Tables}
    (hst : st.plain tables = (.rows rows, tables'')) {r : Except ExnClass (List Row)}
    (hreply : db.reply k st tables = (r, tables')) : r = .ok rows ∧ tables' = tables'' := by
  rw [reply_of_plain h, hst] at hreply
  cases hreply
  exact ⟨rfl, rfl⟩

end Plain

/-- Of the texts that are taken plainly or fail, only the former return. -/
theorem Regular.plain_of_ok (h : db.Regular) {rows : List Row}
    (hreply : db.reply k st tables = (.ok rows, tables')) : db.later k = .plain := by
  apply (h.later k).resolve_right
  intro hfails
  rw [reply_of_fails hfails] at hreply
  cases hreply

/-- A statement that throws has changed nothing. -/
theorem Regular.tables_of_error (h : db.Regular) {e : ExnClass}
    (hreply : db.reply k st tables = (.error e, tables')) : tables' = tables := by
  rcases h.later k with hplain | hfails
  · cases st with
    | insertGroup gid oid => exact (clash_of_reply hplain rfl hreply).2
    | addMember uid gid => exact (clash_of_reply hplain rfl hreply).2
    | createUser uid passwd => exact (clash_of_reply hplain rfl hreply).2
    | insertToken token uid => exact (clash_of_reply hplain rfl hreply).2
    | _ => cases (rows_of_reply hplain rfl hreply).1
  · rw [reply_of_fails hfails] at hreply
    cases hreply
    rfl

end Database

theorem plain_of_nil {db : Database} (h : db.script = []) (k : Nat) : db.later k = .plain := by
  rw [Database.later, h, List.drop_nil, List.headD_nil]

theorem regular_of_nil {db : Database} (h : db.script = []) : db.Regular := by
  rw [Database.Regular, h]
  exact fun b hb => absurd hb List.not_mem_nil

end P2PFileSharing.Tracker
