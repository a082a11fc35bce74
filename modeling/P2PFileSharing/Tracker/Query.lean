import P2PFileSharing.Cpp.Str
import P2PFileSharing.Library.Quoting

/-!
# The texts of the queries

The SQLite clients paste their arguments between quotes into the text of a query, and
`sqlite3_exec` gets the text up to its first zero. A query says what it is meant to say exactly
when no argument contains a quote or a zero.
-/

namespace P2PFileSharing.Tracker

open Library Quoting

/-- The methods of `group_client`, `user_client` and `token_client` that build a query. -/
inductive Query where
  -- group_client
  | createGroupTable
  | createMembersTable
  | deleteGroupTable
  | deleteMembersTable
  | insertGroup (gid oid : Str)
  | removeGroup (gid : Str)
  | getGroupList
  | addMember (uid gid : Str)
  | removeMember (uid gid : Str)
  | removeAllMembers (gid : Str)
  | getMemberList (gid : Str)
  -- user_client
  | createUserTable
  /-- `user_client::delete_group_table` -/
  | deleteUserTable
  | createUser (uid passwd : Str)
  | deleteUser (uid : Str)
  | getUser (uid : Str)
  -- token_client
  | createTokenTable
  | insertToken (token uid : Str)
  /-- This one is built and not executed. -/
  | deleteToken (token : Str)
  | getUid (token : Str)
  | getToken (uid : Str)
  | getTokenList
  deriving DecidableEq, Repr

namespace Query

/-! ## The texts -/

def createText (table columns : Str) : Str :=
  lit "CREATE TABLE IF NOT EXISTS '" ++ table ++ lit "'(" ++ columns ++ lit ");"

def dropText (table : Str) : Str := lit "DROP TABLE IF EXISTS '" ++ table ++ lit "';"

def insertText (table a b : Str) : Str :=
  lit "INSERT INTO '" ++ table ++ lit "' VALUES('" ++ a ++ lit "', '" ++ b ++ lit "');"

def deleteText (table condition : Str) : Str :=
  lit "DELETE FROM '" ++ table ++ lit "' WHERE " ++ condition ++ lit ";"

def selectText (table condition : Str) : Str :=
  lit "SELECT * FROM '" ++ table ++ lit "' WHERE " ++ condition ++ lit ";"

def selectAllText (table : Str) : Str := lit "SELECT * FROM '" ++ table ++ lit "';"

/-- A value in quotes behind a column and a comparison. -/
def comparing (column value : Str) : Str := column ++ lit "'" ++ value ++ lit "'"

/-- The text that a method puts together. -/
def text : Query → Str
  | createGroupTable =>
    createText (lit "GROUP") (lit "ID CHAR(50) PRIMARY KEY NOT NULL,OWNER_ID CHAR(50) NOT NULL")
  | createMembersTable =>
    createText (lit "MEMBER")
      (lit "ID CHAR(50) NOT NULL,GID CHAR(50) NOT NULL,PRIMARY KEY(ID, GID)")
  | deleteGroupTable => dropText (lit "GROUP")
  | deleteMembersTable => dropText (lit "MEMBER")
  | insertGroup gid oid => insertText (lit "GROUP") gid oid
  | removeGroup gid => deleteText (lit "GROUP") (comparing (lit "ID = ") gid)
  | getGroupList => selectAllText (lit "GROUP")
  | addMember uid gid => insertText (lit "MEMBER") uid gid
  | removeMember uid gid => deleteText (lit "MEMBER")
      (comparing (lit "ID = ") uid ++ lit " AND " ++ comparing (lit "GID = ") gid)
  | removeAllMembers gid => deleteText (lit "MEMBER") (comparing (lit "GID = ") gid)
  | getMemberList gid => selectText (lit "MEMBER") (comparing (lit "GID = ") gid)
  | createUserTable =>
    createText (lit "USER") (lit "ID CHAR(50) PRIMARY KEY NOT NULL,PASSWORD CHAR(50) NOT NULL")
  | deleteUserTable => dropText (lit "USER")
  | createUser uid passwd => insertText (lit "USER") uid passwd
  | deleteUser uid => deleteText (lit "USER") (comparing (lit "ID = ") uid)
  | getUser uid => selectText (lit "USER") (comparing (lit "ID=") uid)
  | createTokenTable =>
    createText (lit "TOKEN")
      (lit "TOKEN CHAR(50) PRIMARY KEY NOT NULL,UID CHAR(50) UNIQUE NOT NULL")
  | insertToken token uid => insertText (lit "TOKEN") token uid
  | deleteToken token => deleteText (lit "TOKEN") (comparing (lit "ID = ") token)
  | getUid token => selectText (lit "TOKEN") (comparing (lit "ID = ") token)
  | getToken uid => selectText (lit "TOKEN") (comparing (lit "UID = ") uid)
  | getTokenList => selectAllText (lit "TOKEN")

def args : Query → List Str
  | createGroupTable | createMembersTable | deleteGroupTable | deleteMembersTable | getGroupList
  | createUserTable | deleteUserTable | createTokenTable | getTokenList => []
  | insertGroup a b | addMember a b | removeMember a b | createUser a b | insertToken a b => [a, b]
  | removeGroup a | removeAllMembers a | getMemberList a | deleteUser a | getUser a | deleteToken a
  | getUid a | getToken a => [a]

/-! ## What the texts are meant to say -/

/-- `'` -/
abbrev quote : UInt8 := 39

/-- `;` -/
abbrev semicolon : UInt8 := 59

/-- The table and the arguments of a query are the values of a template. -/
def template : Query → Template quote
  | createGroupTable => .pasting [lit "CREATE TABLE IF NOT EXISTS "] [lit "GROUP"]
      (lit "(" ++ lit "ID CHAR(50) PRIMARY KEY NOT NULL,OWNER_ID CHAR(50) NOT NULL" ++ lit ");")
      (by decide)
  | createMembersTable => .pasting [lit "CREATE TABLE IF NOT EXISTS "] [lit "MEMBER"]
      (lit "(" ++ lit "ID CHAR(50) NOT NULL,GID CHAR(50) NOT NULL,PRIMARY KEY(ID, GID)" ++ lit ");")
      (by decide)
  | createUserTable => .pasting [lit "CREATE TABLE IF NOT EXISTS "] [lit "USER"]
      (lit "(" ++ lit "ID CHAR(50) PRIMARY KEY NOT NULL,PASSWORD CHAR(50) NOT NULL" ++ lit ");")
      (by decide)
  | createTokenTable => .pasting [lit "CREATE TABLE IF NOT EXISTS "] [lit "TOKEN"]
      (lit "(" ++ lit "TOKEN CHAR(50) PRIMARY KEY NOT NULL,UID CHAR(50) UNIQUE NOT NULL" ++
        lit ");")
      (by decide)
  | deleteGroupTable => dropping (lit "GROUP")
  | deleteMembersTable => dropping (lit "MEMBER")
  | deleteUserTable => dropping (lit "USER")
  | insertGroup gid oid => inserting (lit "GROUP") gid oid
  | addMember uid gid => inserting (lit "MEMBER") uid gid
  | createUser uid passwd => inserting (lit "USER") uid passwd
  | insertToken token uid => inserting (lit "TOKEN") token uid
  | removeGroup gid => deleting (lit "GROUP") gid
  | deleteUser uid => deleting (lit "USER") uid
  | deleteToken token => deleting (lit "TOKEN") token
  | removeMember uid gid =>
    .pasting [lit "DELETE FROM ", lit " WHERE " ++ lit "ID = ", lit " AND " ++ lit "GID = "]
      [lit "MEMBER", uid, gid] (lit ";") (by decide)
  | removeAllMembers gid => .pasting [lit "DELETE FROM ", lit " WHERE " ++ lit "GID = "]
      [lit "MEMBER", gid] (lit ";") (by decide)
  | getGroupList => .pasting [lit "SELECT * FROM "] [lit "GROUP"] (lit ";") (by decide)
  | getTokenList => .pasting [lit "SELECT * FROM "] [lit "TOKEN"] (lit ";") (by decide)
  | getMemberList gid => .pasting [lit "SELECT * FROM ", lit " WHERE " ++ lit "GID = "]
      [lit "MEMBER", gid] (lit ";") (by decide)
  | getUser uid => .pasting [lit "SELECT * FROM ", lit " WHERE " ++ lit "ID="]
      [lit "USER", uid] (lit ";") (by decide)
  | getUid token => .pasting [lit "SELECT * FROM ", lit " WHERE " ++ lit "ID = "]
      [lit "TOKEN", token] (lit ";") (by decide)
  | getToken uid => .pasting [lit "SELECT * FROM ", lit " WHERE " ++ lit "UID = "]
      [lit "TOKEN", uid] (lit ";") (by decide)
where
  dropping (table : Str) : Template quote :=
    .pasting [lit "DROP TABLE IF EXISTS "] [table] (lit ";") (by decide)
  inserting (table a b : Str) : Template quote :=
    .pasting [lit "INSERT INTO ", lit " VALUES(", lit ", "] [table, a, b] (lit ");") (by decide)
  deleting (table a : Str) : Template quote :=
    .pasting [lit "DELETE FROM ", lit " WHERE " ++ lit "ID = "] [table, a] (lit ";") (by decide)

/-- The text is that of the template, with the values as they are. -/
theorem text_eq_render (query : Query) : query.text = query.template.render := by
  have hcreate : lit "CREATE TABLE IF NOT EXISTS '" =
      lit "CREATE TABLE IF NOT EXISTS " ++ [quote] := by decide
  have hopen : lit "'(" = quote :: lit "(" := by decide
  have hdrop : lit "DROP TABLE IF EXISTS '" = lit "DROP TABLE IF EXISTS " ++ [quote] := by decide
  have hend : lit "';" = quote :: lit ";" := by decide
  have hinsert : lit "INSERT INTO '" = lit "INSERT INTO " ++ [quote] := by decide
  have hvalues : lit "' VALUES('" = quote :: lit " VALUES(" ++ [quote] := by decide
  have hcomma : lit "', '" = quote :: lit ", " ++ [quote] := by decide
  have hclose : lit "');" = quote :: lit ");" := by decide
  have hdelete : lit "DELETE FROM '" = lit "DELETE FROM " ++ [quote] := by decide
  have hselect : lit "SELECT * FROM '" = lit "SELECT * FROM " ++ [quote] := by decide
  have hwhere : lit "' WHERE " = quote :: lit " WHERE " := by decide
  have hquote : lit "'" = [quote] := by decide
  cases query <;>
    simp only [text, createText, dropText, insertText, deleteText, selectText, selectAllText,
      comparing, template, template.dropping, template.inserting, template.deleting,
      Template.render, Template.pasting, List.zip_cons_cons, List.zip_nil_left, List.flatMap_cons,
      List.flatMap_nil, List.append_assoc, List.cons_append, List.nil_append, hcreate, hopen, hdrop,
      hend, hinsert, hvalues, hcomma, hclose, hdelete, hselect, hwhere, hquote]

/-- The values are the table and the arguments. -/
theorem values_template (query : Query) : ∃ table, quote ∉ table ∧ 0 ∉ table ∧
    query.template.parts.map Prod.snd = table :: query.args := by
  cases query <;> exact ⟨_, by decide, by decide, rfl⟩

/-- There is no zero outside of the values. -/
theorem texts_template (query : Query) : 0 ∉ query.template.last ∧
    ∀ f ∈ query.template.parts.map Prod.fst, 0 ∉ f := by
  have hall : (query.template.last :: query.template.parts.map Prod.fst).all
      (fun f => !f.contains 0) = true := by
    cases query <;> rfl
  simpa using hall

/-- The only semicolon outside of the literals is at the end. -/
def OneStatement (ts : List (Token UInt8)) : Prop :=
  ts.getLast? = some (.plain semicolon) ∧ ts.count (.plain semicolon) = 1

theorem oneStatement_template (query : Query) : OneStatement query.template.tokens := by
  rw [OneStatement, Template.getLast?_tokens, Template.count_tokens]
  cases query <;> exact ⟨rfl, rfl⟩

/-- The text that `sqlite3_exec` gets is one statement, with the table and the arguments as they are
for its literals. -/
def MeansArguments (query : Query) : Prop := ∃ ts,
  lex quote (cString query.text) = some ts ∧ OneStatement ts ∧ ts = query.template.tokens

/-- A query is one statement about its arguments if and only if none of them contains a quote or a
zero. -/
theorem means_arguments_iff (query : Query) :
    query.MeansArguments ↔ ∀ a ∈ query.args, quote ∉ a ∧ 0 ∉ a := by
  obtain ⟨table, htable, hzero, hvalues⟩ := query.values_template
  obtain ⟨hlast, hparts⟩ := query.texts_template
  have hmeans : query.MeansArguments ↔
      lex quote (cString query.text) = some query.template.tokens := by
    constructor
    · rintro ⟨ts, hts, -, rfl⟩
      exact hts
    · intro h
      exact ⟨_, h, query.oneStatement_template, rfl⟩
  have hquotes : (∀ p ∈ query.template.parts, quote ∉ p.2) ↔ ∀ a ∈ query.args, quote ∉ a := by
    rw [← List.forall_mem_map (f := Prod.snd) (P := fun v => quote ∉ v), hvalues,
      List.forall_mem_cons, and_iff_right htable]
  have hzeros : 0 ∉ query.template.render ↔ ∀ a ∈ query.args, 0 ∉ a := by
    rw [Template.mem_render_iff (by decide) hlast hparts, hvalues]
    simp [hzero]
  rw [hmeans, Template.lex_prefix_iff query.template (by
    rw [← text_eq_render]
    exact cString_isPrefix _), text_eq_render, cString_eq_self, hquotes, hzeros, and_comm]
  exact forall₂_and.symm

/-- A user id that ends its literal and goes on with a condition of its own. -/
theorem condition_in_user_id : ¬ (getUser (lit "x' OR '1'='1")).MeansArguments := by
  rintro ⟨ts, hlex, -, rfl⟩
  revert hlex
  decide

end Query

end P2PFileSharing.Tracker
