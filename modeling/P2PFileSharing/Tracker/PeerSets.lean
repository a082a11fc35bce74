import P2PFileSharing.Tracker.Containment
import P2PFileSharing.Tracker.Listing
import P2PFileSharing.Tracker.Run

/-!
# Who is listed with a file

A group keeps its members, and beside them each of its files keeps its seeders and leechers. Only
members come into these lists, but leaving the group takes nobody out of them.
-/

namespace P2PFileSharing.Tracker

open Http Library

/-- Everybody who is listed with a file of the group is a member. -/
def Group.Closed (g : Group) : Prop :=
  ∀ fname f, g.files.find? fname = some f → ∀ id, f.Lists id → id ∈ g.members

def FilesClosed (groups : OrdMap Str Group) : Prop :=
  ∀ gid g, groups.find? gid = some g → g.Closed

/-- The process hands out nobody who is not a member of the group. -/
def NoStalePeers : System → Prop
  | .up s => FilesClosed s.groups
  | .down _ => True

/-- The user is listed with a file of the group. -/
def Listed (s : Tracker) (uid gid : Str) : Prop :=
  ∃ g fname f, s.groups.find? gid = some g ∧ g.files.find? fname = some f ∧ f.Lists uid

/-- SQLite takes the member out of its table. -/
def RemovesMember (s : Tracker) (uid gid : Str) : Prop :=
  ∃ rows tables, s.db.reply 0 (.removeMember uid gid) s.db.tables = (.ok rows, tables)

/-- The owner leaves, and SQLite takes the group out of its tables as well. -/
def RemovesGroup (s : Tracker) (uid gid : Str) : Prop :=
  uid = s.owner gid ∧ ∃ rows tables rows' tables' rows'' tables'',
    s.db.reply 0 (.removeMember uid gid) s.db.tables = (.ok rows, tables) ∧
      s.db.reply 1 (.removeAllMembers gid) tables = (.ok rows', tables') ∧
        s.db.reply 2 (.removeGroup gid) tables' = (.ok rows'', tables'')

/-- A listed user leaves, while the group and the process stay. -/
def LeavesListed (s : Tracker) : Operation → Prop
  | .leaveGroup uid gid => s.Listed uid gid ∧ s.RemovesMember uid gid ∧ ¬ s.RemovesGroup uid gid ∧
      ¬ LeaveCrashes s uid gid
  | _ => False

def Forgets : System → Event → Prop
  | .up s, .request req remoteAddr =>
    ∃ op, classify s.tokenMap req remoteAddr = .ok op ∧ LeavesListed s op
  | _, _ => False

/-! ## Groups -/

section Closed

variable {groups : OrdMap Str Group} {g : Group} {gid : Str}

theorem FilesClosed.insert (h : FilesClosed groups) (hg : g.Closed) :
    FilesClosed (groups.insert gid g) := by
  intro gid' g' hfind
  rw [OrdMap.find?_insert] at hfind
  split at hfind
  · cases hfind
    exact hg
  · exact h gid' g' hfind

theorem FilesClosed.erase (h : FilesClosed groups) (gid : Str) :
    FilesClosed (groups.erase gid) := by
  intro gid' g' hfind
  rw [OrdMap.find?_erase] at hfind
  split at hfind
  · cases hfind
  · exact h gid' g' hfind

theorem Group.closed_of_empty {members : OrdSet Str} {id ownerId : Str} :
    (⟨id, ownerId, members, ∅⟩ : Group).Closed := by
  intro fname f hf
  cases hf

theorem FilesClosed.closed_subscript (h : FilesClosed groups) (gid : Str) :
    (subscript groups gid).Closed := by
  rw [Tracker.subscript]
  cases hg : groups.find? gid with
  | none => exact Group.closed_of_empty
  | some g => exact h gid g hg

/-- More members do no harm. -/
theorem Group.Closed.members {members : OrdSet Str} (h : g.Closed)
    (hmembers : ∀ id ∈ g.members, id ∈ members) : ({ g with members } : Group).Closed :=
  fun fname f hf id hid => hmembers id (h fname f hf id hid)

/-- A file may come in that lists members only. -/
theorem Group.Closed.file {fname : Str} {f : File} (h : g.Closed)
    (hf : ∀ id, f.Lists id → id ∈ g.members) :
    ({ g with files := g.files.insert fname f } : Group).Closed := by
  intro fname' f' hfind
  change (g.files.insert fname f).find? fname' = some f' at hfind
  rw [OrdMap.find?_insert] at hfind
  split at hfind
  · cases hfind
    exact hf
  · exact h fname' f' hfind

end Closed

/-! ## One operation -/

section Operations

variable {order : AssignOrder} {s : Tracker} {uid gid fname serverAddr : Str} {c : Contents}

/-- The group without the user is closed exactly when he is not listed. -/
theorem filesClosed_left_iff (hs : FilesClosed s.groups) (tables : Tables) :
    FilesClosed (left s uid gid tables).groups ↔ ¬ s.Listed uid gid := by
  change FilesClosed (s.groups.insert gid
    { subscript s.groups gid with members := (subscript s.groups gid).members.erase uid }) ↔ _
  constructor
  · rintro h ⟨g, fname, f, hg, hf, hlists⟩
    have hin := h gid _ (OrdMap.find?_insert_self _ _ _) fname f
      (by rwa [subscript_of_find? hg]) uid hlists
    exact ((OrdMap.mem_erase _ _ _).mp hin).1 rfl
  · intro hlisted
    apply hs.insert
    intro fname f hf id hlists
    have hin : id ∈ (subscript s.groups gid).members := hs.closed_subscript gid fname f hf id hlists
    refine (OrdMap.mem_erase _ _ _).mpr ⟨?_, hin⟩
    rintro rfl
    obtain ⟨g, hg, -⟩ := mem_subscript hin
    rw [subscript_of_find? hg] at hf
    exact hlisted ⟨g, fname, f, hg, hf, hlists⟩

theorem LeaveGroup.filesClosed_iff {r : Except ExnClass Unit} (h : LeaveGroup s uid gid r c)
    (hs : FilesClosed s.groups) : FilesClosed c.groups ↔
      ¬ (s.Listed uid gid ∧ s.RemovesMember uid gid ∧ ¬ s.RemovesGroup uid gid) := by
  have stays {tables : Tables} (hmember : s.RemovesMember uid gid)
      (hgroup : ¬ s.RemovesGroup uid gid) : FilesClosed (Tracker.left s uid gid tables).groups ↔
        ¬ (s.Listed uid gid ∧ s.RemovesMember uid gid ∧ ¬ s.RemovesGroup uid gid) := by
    rw [filesClosed_left_iff hs, and_iff_left ⟨hmember, hgroup⟩]
  cases h with
  | memberFails h0 =>
    refine iff_of_true hs ?_
    rintro ⟨-, ⟨rows, tables, h0'⟩, -⟩
    rw [h0] at h0'
    cases h0'
  | left h0 howner => exact stays ⟨_, _, h0⟩ fun hgroup => howner hgroup.1
  | membersFail h0 howner h1 =>
    apply stays ⟨_, _, h0⟩
    simp [RemovesGroup, h0, h1]
  | groupFails h0 howner h1 h2 =>
    apply stays ⟨_, _, h0⟩
    simp [RemovesGroup, h0, h1, h2]
  | deleted h0 howner h1 h2 =>
    refine iff_of_true ?_ ?_
    · change FilesClosed ((s.groups.insert gid _).erase gid)
      intro gid' g hg
      rw [OrdMap.find?_erase] at hg
      split at hg
      · cases hg
      · rename_i hgid
        rw [OrdMap.find?_insert_of_ne _ _ hgid] at hg
        exact hs gid' g hg
    · rintro ⟨-, -, hgroup⟩
      exact hgroup ⟨howner, _, _, _, _, _, _, h0, h1, h2⟩

/-- A file that lists the user beside members only. -/
theorem FilesClosed.withFile {f : File → File} (hs : FilesClosed s.groups)
    (hf : ∀ id, (f (subscript (subscript s.groups gid).files fname)).Lists id →
      id ∈ (subscript s.groups gid).members) :
    FilesClosed (s.contents.withFile gid fname f).groups :=
  hs.insert ((hs.closed_subscript gid).file hf)

theorem ShareFile.filesClosed {r : Except ExnClass Response}
    (h : ShareFile order s uid gid fname serverAddr r c) (hs : FilesClosed s.groups) :
    FilesClosed c.groups := by
  have shared {g : Group} (hg : s.groups.find? gid = some g) (hu : uid ∈ g.members) :
      FilesClosed (s.contents.withFile gid fname fun _ =>
        ⟨OrdSet.add ∅ uid, ∅, fname, gid⟩).groups := by
    apply hs.withFile
    rintro id (hid | hid)
    · exact absurd hid (OrdMap.notMem_empty id)
    · obtain rfl : id = uid := by simpa using hid
      rwa [subscript_of_find? hg]
  cases h with
  | noMember hno => exact hs
  | conflict hg hu hf => exact hs
  | badNumber hg hu hf hn => exact shared hg hu
  | shared hg hu hf hn => exact shared hg hu

theorem Peers.filesClosed {r : Except ExnClass Response}
    (h : Peers order s uid gid fname serverAddr r c) (hs : FilesClosed s.groups) :
    FilesClosed c.groups := by
  have listed {g : Group} {f : File} (hg : s.groups.find? gid = some g) (hu : uid ∈ g.members)
      (hf : g.files.find? fname = some f) : FilesClosed
        (s.contents.withFile gid fname fun f' =>
          { f' with leechers := f.leechers.add uid }).groups := by
    apply hs.withFile
    rw [subscript_of_find? hg, subscript_of_find? hf]
    rintro id (hid | hid)
    · rcases (OrdSet.mem_add _ _ _).mp hid with rfl | hid
      · exact hu
      · exact hs gid g hg fname f hf id (.inl hid)
    · exact hs gid g hg fname f hf id (.inr hid)
  cases h with
  | badNumber hn => exact hs
  | noMember hn hno => exact hs
  | noFile hn hg hu hf => exact hs
  | alone hn hg hu hf halone => exact listed hg hu hf
  | listed hn hg hu hf hother => exact listed hg hu hf

/-- Only leaving a group can leave somebody behind. -/
theorem Performed.filesClosed_iff {op : Operation} {r : Except ExnClass Response}
    (h : Performed order s op r c) (hs : FilesClosed s.groups) :
    (¬ Crashes s op → FilesClosed c.groups) ↔ ¬ LeavesListed s op := by
  have always {op : Operation} {c : Contents} (hop : ¬ LeavesListed s op)
      (hclosed : FilesClosed c.groups) :
      (¬ Crashes s op → FilesClosed c.groups) ↔ ¬ LeavesListed s op :=
    iff_of_true (fun _ => hclosed) hop
  cases h with
  | signup h =>
    refine always (fun hop => hop) ?_
    cases h <;> exact hs
  | loginFails h =>
    refine always (fun hop => hop) ?_
    cases h <;> exact hs
  | loggedIn h =>
    refine always (fun hop => hop) ?_
    cases h <;> exact hs
  | logout => exact always (fun hop => hop) hs
  | createGroup h =>
    refine always (fun hop => hop) ?_
    cases h with
    | groupFails h0 => exact hs
    | memberFails h0 h1 => exact hs
    | created h0 h1 => exact hs.insert Group.closed_of_empty
  | @joinGroup uid gid r c h =>
    refine always (fun hop => hop) ?_
    cases h with
    | fails h0 => exact hs
    | done h0 =>
      apply hs.insert
      apply (hs.closed_subscript gid).members
      exact fun id hid => (OrdSet.mem_add _ _ _).mpr (.inr hid)
  | leaveGroup h =>
    rw [h.filesClosed_iff hs, LeavesListed, Crashes]
    tauto
  | shareFile h => exact always (fun hop => hop) (h.filesClosed hs)
  | peers h => exact always (fun hop => hop) (h.filesClosed hs)

end Operations

/-! ## Runs -/

section Runs

variable {order : AssignOrder} {s : Tracker} {sys sys' : System} {event : Event}

/-- A new process has no files. -/
def NoFiles (s : Tracker) : Prop := ∀ gid g, s.groups.find? gid = some g → g.files = ∅

def KeepsNoFiles (s t : Tracker) : Prop := NoFiles s → NoFiles t

instance : Std.Refl KeepsNoFiles := ⟨fun _ h => h⟩

instance : IsTrans Tracker KeepsNoFiles := ⟨fun _ _ _ h h' hs => h' (h hs)⟩

theorem sql_keepsNoFiles (st : Statement) : Action.Within KeepsNoFiles (sql st) := fun _ h => h

theorem loadGroups_keepsNoFiles (rows : List Row) :
    Action.Within KeepsNoFiles (loadGroups rows) := by
  induction rows with
  | nil => exact Action.within_pure ()
  | cons row rows ih =>
    refine (sql_keepsNoFiles _).bind fun members => Action.Within.bind ?_ fun _ => ih
    apply Action.within_modify
    intro s hs gid g hg
    change (s.groups.insert row.1 _).find? gid = some g at hg
    rw [OrdMap.find?_insert] at hg
    split at hg
    · cases hg
      rfl
    · exact hs gid g hg

theorem load_keepsNoFiles : Action.Within KeepsNoFiles load :=
  (sql_keepsNoFiles _).bind fun _ => (sql_keepsNoFiles _).bind fun _ =>
    (sql_keepsNoFiles _).bind fun _ => (sql_keepsNoFiles _).bind fun _ =>
      (sql_keepsNoFiles _).bind fun groupTable => (sql_keepsNoFiles _).bind fun _ =>
        Action.Within.bind (Action.within_modify fun _ h => h) fun _ =>
          loadGroups_keepsNoFiles groupTable

theorem noFiles_start (db : Database) : NoFiles (start db).2 := by
  apply load_keepsNoFiles
  intro gid g hg
  cases hg

theorem noStalePeers_start (db : Database) : NoStalePeers (System.settle (start db)) := by
  have hfiles := noFiles_start db
  rcases hrun : start db with ⟨e | a, t⟩
  · trivial
  · intro gid g hg
    rw [hrun] at hfiles
    obtain ⟨id, ownerId, members, files⟩ := g
    obtain rfl : files = ∅ := hfiles gid _ hg
    exact Group.closed_of_empty

theorem noStalePeers_respond_iff (order : AssignOrder) (hs : FilesClosed s.groups)
    (op : Operation) :
    NoStalePeers (System.settle (op.respond order s)) ↔ ¬ LeavesListed s op := by
  rw [← (performed order s op).filesClosed_iff hs, ← handled_iff order s op, ← answered_eq_ok_iff,
    Operation.respond]
  cases answered op.handlers (op.perform order s).1 with
  | error e => exact iff_of_true trivial fun h => absurd h (by simp)
  | ok res => exact ⟨fun h _ => h, fun h => h ⟨res, rfl⟩⟩

/-- A step leaves a former member behind exactly when a listed user leaves his group. -/
theorem noStalePeers_step_iff (h : NoStalePeers sys)
    (hstep : System.step order sys event = some sys') :
    NoStalePeers sys' ↔ ¬ Forgets sys event := by
  cases System.step_cases hstep with
  | refused hc => exact iff_of_true h (by simp [Forgets, hc])
  | performed hc => simp [noStalePeers_respond_iff order h, Forgets, hc]
  | started =>
    refine iff_of_true (noStalePeers_start sys.db) ?_
    cases sys <;> exact fun hforgets => hforgets

end Runs

/-- In a run from an empty database, however SQLite takes the texts, everybody who is listed with a
file is a member of its group in every state, if and only if no user leaves a group who is listed
with one of its files, unless the group goes with him. -/
theorem no_stale_peers_iff (order : AssignOrder) (script : List Behaviour) (events : List Event) :
    Machine.AllStates (System.step order) NoStalePeers (System.boot script) events ↔
      Machine.AllSteps (System.step order) (fun sys event => ¬ Forgets sys event)
        (System.boot script) events := by
  refine Machine.allStates_iff_allSteps (fun _ h => h) ?_ ?_ (noStalePeers_start _) events
  · intro sys event sys' h hok hstep
    exact (noStalePeers_step_iff h hstep).mpr hok
  · intro sys event sys' h hbad hstep hgood
    exact hbad ((noStalePeers_step_iff h hstep).mp hgood)

/-- A member who shares a file and leaves the group of somebody else. -/
def leavingSeeder : List Event :=
  founding ++ [.request (posting "/signup" [("Username", "bob"), ("Password", "pw")]) .new,
    .request (posting "/login" [("Username", "bob"), ("Password", "pw")]) .new,
    .request (posting "/join_group" [("Authorization", "bobpw"), ("Group-Id", "g")]) .new,
    .request (posting "/share_file" [("Authorization", "bobpw"), ("Group-Id", "g"),
      ("File-Name", "f"), ("Server-Address", "7")]) .new,
    .request (posting "/leave_group" [("Authorization", "bobpw"), ("Group-Id", "g")]) .new]

/-- He is a seeder of the file still. -/
theorem seeder_left_behind : ∃ s, System.Reachable .rightFirst [] (.up s) ∧
    ¬ NoStalePeers (.up s) := by
  obtain ⟨s, hs, hcheck⟩ := System.exists_reachable .rightFirst [] leavingSeeder
    (fun s => lit "bob" ∈ (subscript (subscript s.groups (lit "g")).files (lit "f")).seeders ∧
      lit "bob" ∉ (subscript s.groups (lit "g")).members ∧ lit "g" ∈ s.groups ∧
        lit "f" ∈ (subscript s.groups (lit "g")).files) (by decide +kernel)
  obtain ⟨hseeder, hmember, hgroup, hfile⟩ := of_decide_eq_true hcheck
  obtain ⟨g, hg⟩ := OrdMap.mem_iff_exists.mp hgroup
  rw [subscript_of_find? hg] at hseeder hmember hfile
  obtain ⟨f, hf⟩ := OrdMap.mem_iff_exists.mp hfile
  rw [subscript_of_find? hf] at hseeder
  exact ⟨s, hs, fun h => hmember (h _ g hg _ f hf _ (.inr hseeder))⟩

end P2PFileSharing.Tracker
