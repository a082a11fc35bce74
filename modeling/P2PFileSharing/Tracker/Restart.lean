import P2PFileSharing.Tracker.Run

/-!
# Groups and restarts

The tracker keeps each group twice: in memory, and as rows of two tables from which a new tracker
is constructed. The two agree as long as nobody joins or leaves a group that does not exist.
-/

namespace P2PFileSharing.Tracker

open Http Library

/-- What a restart has to bring back of a group. -/
def Group.kept (g : Group) : Str × Str × OrdSet Str := (g.id, g.ownerId, g.members)

/-- A tracker that is constructed on the database has the same groups, with the same owners and
members. -/
def GroupsSurvive : System → Prop
  | .up s => ∃ t, start s.db = (.ok (), t) ∧
      ∀ gid, (t.groups.find? gid).map Group.kept = (s.groups.find? gid).map Group.kept
  | .down _ => True

/-- The groups in memory are the ones in the tables. -/
structure Mirrors (groups : OrdMap Str Group) (tables : Tables) : Prop where
  stored : ∀ gid g, groups.find? gid = some g → g.id = gid ∧ (gid, g.ownerId) ∈ tables.group ∧
    ∀ uid, uid ∈ g.members ↔ (uid, gid) ∈ tables.member
  loaded : ∀ row ∈ tables.group, row.1 ∈ groups

/-- Everybody in the member table belongs to a group of the group table. -/
def Tables.Closed (tables : Tables) : Prop :=
  ∀ row ∈ tables.member, ∃ g ∈ tables.group, g.1 = row.2

/-- What every request keeps that does not stray. -/
structure Consistent (c : Contents) : Prop where
  mirrors : Mirrors c.groups c.tables
  closed : c.tables.Closed

section Mirrors

variable {groups groups' : OrdMap Str Group} {tables : Tables} {gid : Str}

theorem Mirrors.mem_iff (h : Mirrors groups tables) :
    gid ∈ groups ↔ ∃ row ∈ tables.group, row.1 = gid := by
  constructor
  · intro hgid
    obtain ⟨g, hg⟩ := OrdMap.mem_iff_exists.mp hgid
    exact ⟨_, (h.stored gid g hg).2.1, rfl⟩
  · rintro ⟨row, hrow, rfl⟩
    exact h.loaded row hrow

/-- Groups that mirror the same tables agree. -/
theorem Mirrors.kept_eq (h : Mirrors groups tables) (h' : Mirrors groups' tables) (gid : Str) :
    (groups.find? gid).map Group.kept = (groups'.find? gid).map Group.kept := by
  by_cases hgid : gid ∈ groups
  · obtain ⟨g, hg⟩ := OrdMap.mem_iff_exists.mp hgid
    obtain ⟨g', hg'⟩ := OrdMap.mem_iff_exists.mp (h'.mem_iff.mpr (h.mem_iff.mp hgid))
    obtain ⟨hid, howner, hmembers⟩ := h.stored gid g hg
    obtain ⟨hid', howner', hmembers'⟩ := h'.stored gid g' hg'
    have hrow : (gid, g.ownerId) = (gid, g'.ownerId) :=
      Table.eq_of_clash (fun _ _ => Eq.symm) howner howner' rfl
    have hsame : g.members = g'.members := by
      apply OrdSet.ext_mem
      intro uid
      rw [hmembers, hmembers']
    have howners : g.ownerId = g'.ownerId := congrArg Prod.snd hrow
    rw [hg, hg', Option.map_some, Option.map_some, Group.kept, Group.kept, hid, hid', howners,
      hsame]
  · have hgid' : gid ∉ groups' := fun h'' => hgid (h.mem_iff.mpr (h'.mem_iff.mp h''))
    rw [OrdMap.notMem_iff.mp hgid, OrdMap.notMem_iff.mp hgid']

/-- Only what a restart has to bring back matters. -/
theorem Mirrors.congr (h : Mirrors groups tables)
    (hkept : ∀ gid, (groups'.find? gid).map Group.kept = (groups.find? gid).map Group.kept) :
    Mirrors groups' tables := by
  refine ⟨fun gid g' hg' => ?_, fun row hrow => ?_⟩
  · have hsome := hkept gid
    rw [hg', Option.map_some] at hsome
    obtain ⟨g, hg, hk⟩ := Option.map_eq_some_iff.mp hsome.symm
    obtain ⟨hid, howner, hmembers⟩ := h.stored gid g hg
    simp only [Group.kept, Prod.mk.injEq] at hk
    obtain ⟨hid', howner', hmembers'⟩ := hk
    rw [← hid', ← howner', ← hmembers']
    exact ⟨hid, howner, hmembers⟩
  · obtain ⟨g, hg⟩ := OrdMap.mem_iff_exists.mp (h.loaded row hrow)
    have hsome := hkept row.1
    rw [hg, Option.map_some] at hsome
    obtain ⟨g', hg', -⟩ := Option.map_eq_some_iff.mp hsome
    exact OrdMap.mem_iff_exists.mpr ⟨g', hg'⟩

/-- A tracker starts with the groups of the tables. -/
theorem mirrors_loaded (tables : Tables) : Mirrors (loaded tables).groups tables := by
  refine ⟨fun gid g hg => ?_, fun row hrow => ?_⟩
  · rcases OrdMap.exists_of_find?_foldl_insert hg with ⟨row, hrow, rfl, rfl⟩ | hempty
    · refine ⟨rfl, hrow, fun uid => ?_⟩
      rw [mem_loadMembers]
      simp [Table.mem_def]
    · cases hempty
  · exact OrdMap.mem_foldl_insert.mpr (.inl ⟨row, hrow, rfl⟩)

end Mirrors

/-! ## One operation -/

section Operations

variable {s : Tracker} {uid gid fname : Str}

/-- Only the groups and their two tables matter. -/
theorem Consistent.congr {c c' : Contents} (h : Consistent c) (hgroups : c'.groups = c.groups)
    (hgroup : c'.tables.group = c.tables.group) (hmember : c'.tables.member = c.tables.member) :
    Consistent c' := by
  obtain ⟨⟨hstored, hloaded⟩, hclosed⟩ := h
  refine ⟨⟨?_, ?_⟩, ?_⟩
  · rwa [hgroups, hgroup, hmember]
  · rwa [hgroups, hgroup]
  · rwa [Tables.Closed, hgroup, hmember]

/-- Files and addresses may change. -/
theorem Consistent.withFile {c : Contents} (h : Consistent c) {g : Group}
    (hg : c.groups.find? gid = some g) (fname : Str) (f : File → File)
    (address : OrdMap Str SockAddr) : Consistent { c.withFile gid fname f with address } := by
  refine ⟨h.mirrors.congr fun gid' => ?_, h.closed⟩
  rw [Contents.withFile, Contents.withGroup, OrdMap.find?_insert]
  by_cases hgid : gid' = gid
  · rw [if_pos hgid, hgid, hg, subscript_of_find? hg]
    rfl
  · rw [if_neg hgid]

/-- One group and its rows are written. -/
theorem Consistent.setGroup {c c' : Contents} (h : Consistent c) {g : Group}
    (hgroups : c'.groups = c.groups.insert gid g) (hid : g.id = gid)
    (hgroup : ∀ row, row ∈ c'.tables.group ↔ row ∈ c.tables.group ∨ row = (gid, g.ownerId))
    (hmembers : ∀ u, u ∈ g.members ↔ (u, gid) ∈ c'.tables.member)
    (hothers : ∀ u gid', gid' ≠ gid →
      ((u, gid') ∈ c'.tables.member ↔ (u, gid') ∈ c.tables.member)) : Consistent c' := by
  refine ⟨⟨fun gid' g' hg' => ?_, fun row hrow => ?_⟩, fun row hrow => ?_⟩
  · rw [hgroups, OrdMap.find?_insert] at hg'
    split at hg'
    · rename_i hgid
      subst hgid
      cases hg'
      exact ⟨hid, (hgroup _).mpr (.inr rfl), hmembers⟩
    · rename_i hgid
      obtain ⟨hid', howner', hmembers'⟩ := h.mirrors.stored gid' g' hg'
      refine ⟨hid', (hgroup _).mpr (.inl howner'), fun u => ?_⟩
      rw [hmembers', hothers u gid' hgid]
  · rw [hgroups, OrdMap.mem_insert]
    rcases (hgroup row).mp hrow with hold | rfl
    · exact .inr (h.mirrors.loaded row hold)
    · exact .inl rfl
  · obtain ⟨u, gid'⟩ := row
    by_cases hgid : gid' = gid
    · exact ⟨(gid, g.ownerId), (hgroup _).mpr (.inr rfl), hgid.symm⟩
    · obtain ⟨row', hrow', hid'⟩ := h.closed _ ((hothers u gid' hgid).mp hrow)
      exact ⟨row', (hgroup _).mpr (.inl hrow'), hid'⟩

/-- One group is removed with all of its rows. -/
theorem Consistent.dropGroup {c c' : Contents} (h : Consistent c) (gid : Str)
    (hgroups : ∀ gid', c'.groups.find? gid' = if gid' = gid then none else c.groups.find? gid')
    (hgroup : ∀ row, row ∈ c'.tables.group ↔ row ∈ c.tables.group ∧ row.1 ≠ gid)
    (hmember : ∀ row, row ∈ c'.tables.member ↔ row ∈ c.tables.member ∧ row.2 ≠ gid) :
    Consistent c' := by
  refine ⟨⟨fun gid' g' hg' => ?_, fun row hrow => ?_⟩, fun row hrow => ?_⟩
  · rw [hgroups] at hg'
    split at hg'
    · cases hg'
    · rename_i hgid
      obtain ⟨hid', howner', hmembers'⟩ := h.mirrors.stored gid' g' hg'
      refine ⟨hid', (hgroup _).mpr ⟨howner', hgid⟩, fun u => ?_⟩
      rw [hmembers', hmember]
      exact (and_iff_left hgid).symm
  · obtain ⟨hold, hgid⟩ := (hgroup row).mp hrow
    rw [OrdMap.mem_iff_exists, hgroups, if_neg hgid]
    exact OrdMap.mem_iff_exists.mp (h.mirrors.loaded row hold)
  · obtain ⟨hold, hgid⟩ := (hmember row).mp hrow
    obtain ⟨row', hrow', hid'⟩ := h.closed row hold
    exact ⟨row', (hgroup _).mpr ⟨hrow', hid'.trans_ne hgid⟩, hid'⟩

theorem CreateGroup.consistent {r : Except ExnClass Unit} {c : Contents}
    (h : CreateGroup s gid uid r c) (hnil : s.db.script = []) (hs : Consistent s.contents) :
    Consistent c := by
  cases h with
  | groupFails h0 =>
    obtain ⟨-, rfl⟩ := Database.clash_of_reply (plain_of_nil hnil 0) rfl h0
    exact hs
  | memberFails h0 h1 =>
    obtain ⟨group, hgroup, rfl⟩ := Database.inserted_of_reply (plain_of_nil hnil 0) rfl h0
    obtain ⟨⟨_, hin, rfl⟩, -⟩ := Database.clash_of_reply (plain_of_nil hnil 1) rfl h1
    obtain ⟨row, hrow, hid⟩ := hs.closed _ hin
    exact absurd hid ((Table.insert_eq_some.mp hgroup).1 row hrow)
  | created h0 h1 =>
    obtain ⟨group, hgroup, rfl⟩ := Database.inserted_of_reply (plain_of_nil hnil 0) rfl h0
    obtain ⟨member, hmember, rfl⟩ := Database.inserted_of_reply (plain_of_nil hnil 1) rfl h1
    have hfree (u : Str) : (u, gid) ∉ s.db.tables.member := by
      intro hin
      obtain ⟨row, hrow, hid⟩ := hs.closed _ hin
      exact (Table.insert_eq_some.mp hgroup).1 row hrow hid
    refine hs.setGroup rfl rfl (fun row => Table.mem_of_insert hgroup) (fun u => ?_) ?_
    · refine Iff.trans ?_ (Table.mem_of_insert hmember).symm
      rw [OrdSet.mem_add, or_iff_left (OrdMap.notMem_empty u), or_iff_right (hfree u),
        Prod.mk.injEq, and_iff_left rfl]
    · intro u gid' hgid
      refine (Table.mem_of_insert hmember).trans (or_iff_left ?_)
      exact fun hrow => hgid (congrArg Prod.snd hrow)

theorem Single.consistent {r : Except ExnClass Unit} {c : Contents}
    (h : Single s (.addMember uid gid) () (joined s uid gid) r c) (hnil : s.db.script = [])
    (hgid : gid ∈ s.groups) (hs : Consistent s.contents) : Consistent c := by
  cases h with
  | fails h0 =>
    obtain ⟨-, rfl⟩ := Database.clash_of_reply (plain_of_nil hnil 0) rfl h0
    exact hs
  | done h0 =>
    obtain ⟨member, hins, rfl⟩ := Database.inserted_of_reply (plain_of_nil hnil 0) rfl h0
    obtain ⟨g, hg⟩ := OrdMap.mem_iff_exists.mp hgid
    obtain ⟨hid, howner, hmembers⟩ := hs.mirrors.stored gid g hg
    refine hs.setGroup (g := { g with members := g.members.add uid }) ?_ hid (fun row => ?_)
      (fun u => ?_) ?_
    · exact congrArg
        (fun g' : Group => s.groups.insert gid { g' with members := g'.members.add uid })
        (subscript_of_find? hg)
    · refine (or_iff_left_of_imp ?_).symm
      rintro rfl
      exact howner
    · refine Iff.trans ?_ (Table.mem_of_insert hins).symm
      rw [OrdSet.mem_add, hmembers, Prod.mk.injEq, and_iff_left rfl, or_comm]
      rfl
    · intro u gid' hne
      refine (Table.mem_of_insert hins).trans (or_iff_left ?_)
      exact fun hrow => hne (congrArg Prod.snd hrow)

theorem owner_of_notMem (h : gid ∉ s.groups) : s.owner gid = [] := by
  rw [owner, subscript, OrdMap.notMem_iff.mp h]
  rfl

theorem LeaveGroup.consistent {r : Except ExnClass Unit} {c : Contents}
    (h : LeaveGroup s uid gid r c)
    (hnil : s.db.script = []) (hgid : gid ∈ s.groups ∨ uid = []) (hs : Consistent s.contents) :
    Consistent c := by
  have hplain := plain_of_nil hnil
  cases h with
  | memberFails h0 => cases (Database.rows_of_reply (hplain 0) rfl h0).1
  | membersFail h0 howner h1 => cases (Database.rows_of_reply (hplain 1) rfl h1).1
  | groupFails h0 howner h1 h2 => cases (Database.rows_of_reply (hplain 2) rfl h2).1
  | left h0 howner =>
    obtain ⟨-, rfl⟩ := Database.rows_of_reply (hplain 0) rfl h0
    have hmem : gid ∈ s.groups := by
      by_contra hno
      exact howner ((hgid.resolve_left hno).trans (owner_of_notMem hno).symm)
    obtain ⟨g, hg⟩ := OrdMap.mem_iff_exists.mp hmem
    obtain ⟨hid, howner', hmembers⟩ := hs.mirrors.stored gid g hg
    refine hs.setGroup (g := { g with members := g.members.erase uid }) ?_ hid (fun row => ?_)
      (fun u => ?_) ?_
    · exact congrArg
        (fun g' : Group => s.groups.insert gid { g' with members := g'.members.erase uid })
        (subscript_of_find? hg)
    · refine (or_iff_left_of_imp ?_).symm
      rintro rfl
      exact howner'
    · refine Iff.trans ?_ Table.mem_delete.symm
      simp [hmembers, and_comm, contents]
    · intro u gid' hne
      refine Table.mem_delete.trans (and_iff_left ?_)
      simp [hne]
  | deleted h0 howner h1 h2 =>
    obtain ⟨-, rfl⟩ := Database.rows_of_reply (hplain 0) rfl h0
    obtain ⟨-, rfl⟩ := Database.rows_of_reply (hplain 1) rfl h1
    obtain ⟨-, rfl⟩ := Database.rows_of_reply (hplain 2) rfl h2
    refine hs.dropGroup gid (fun gid' => ?_) (fun row => ?_) (fun row => ?_)
    · rw [OrdMap.find?_erase]
      split
      · rfl
      · rename_i hne
        exact OrdMap.find?_insert_of_ne _ _ hne
    · refine Table.mem_delete.trans ?_
      simp [contents]
    · refine Table.mem_delete.trans ((and_congr_left' Table.mem_delete).trans ?_)
      simp only [decide_eq_false_iff_not]
      exact ⟨fun h => ⟨h.1.1, h.2⟩, fun h => ⟨⟨h.1, fun hin => h.2 hin.2⟩, h.2⟩⟩

theorem ShareFile.consistent {order : AssignOrder} {serverAddr : Str} {r : Except ExnClass Response}
    {c : Contents} (h : ShareFile order s uid gid fname serverAddr r c)
    (hs : Consistent s.contents) : Consistent c := by
  cases h with
  | noMember hno => exact hs
  | conflict hg hu hf => exact hs
  | badNumber hg hu hf hn => exact hs.withFile hg _ _ _
  | shared hg hu hf hn => exact hs.withFile hg _ _ _

theorem Peers.consistent {order : AssignOrder} {serverAddr : Str} {r : Except ExnClass Response}
    {c : Contents} (h : Peers order s uid gid fname serverAddr r c) (hs : Consistent s.contents) :
    Consistent c := by
  cases h with
  | badNumber hn => exact hs.congr rfl rfl rfl
  | noMember hn hno => exact hs.congr rfl rfl rfl
  | noFile hn hg hu hf => exact hs.congr rfl rfl rfl
  | alone hn hg hu hf halone => exact hs.withFile hg _ _ _
  | listed hn hg hu hf hother => exact hs.withFile hg _ _ _

end Operations

/-- An operation on a group that does not exist. For the empty user the group that `leave_group`
creates is one of his own, which is removed again. -/
def Strays (s : Tracker) : Operation → Prop
  | .joinGroup _ gid => gid ∉ s.groups
  | .leaveGroup uid gid => gid ∉ s.groups ∧ uid ≠ []
  | _ => False

theorem perform_consistent {s : Tracker} (hnil : s.db.script = []) (hs : Consistent s.contents)
    (order : AssignOrder) (op : Operation) (hop : ¬ Strays s op) :
    Consistent (op.perform order s).2.contents := by
  cases op with
  | signup uid pass =>
    have hsame (tables : Tables) :
        SameGroups tables ((Statement.createUser uid pass).plain tables).2 :=
      sameGroups_inserted fun _ => ⟨rfl, rfl⟩
    have h := signup_cases s order uid pass
    generalize (Operation.perform order (.signup uid pass) s).1 = r at h
    generalize (Operation.perform order (.signup uid pass) s).2.contents = c at h ⊢
    cases h with
    | fails h0 =>
      obtain ⟨hgroup, hmember⟩ := sameGroups_of_reply (regular_of_nil hnil) h0 (hsame _)
      exact hs.congr rfl hgroup hmember
    | done h0 =>
      obtain ⟨hgroup, hmember⟩ := sameGroups_of_reply (regular_of_nil hnil) h0 (hsame _)
      exact hs.congr rfl hgroup hmember
  | login uid passwd remoteAddr =>
    obtain ⟨hgroups, hgroup, hmember⟩ := (login_cases s uid passwd).sameGroups (regular_of_nil hnil)
    rw [Operation.perform]
    rcases hrun : login uid passwd s with ⟨e | token, t⟩
    · rw [hrun] at hgroups hgroup hmember
      rw [Action.bind_of_error hrun]
      exact hs.congr hgroups hgroup hmember
    · rw [hrun] at hgroups hgroup hmember
      rw [Action.bind_of_ok hrun]
      exact hs.congr hgroups hgroup hmember
  | logout token => exact hs.congr rfl rfl rfl
  | createGroup uid gid =>
    rw [Operation.perform, done_run]
    exact (createGroup_cases s gid uid).consistent hnil hs
  | joinGroup uid gid =>
    rw [Operation.perform, done_run]
    exact (joinGroup_cases s uid gid).consistent hnil (not_not.mp hop) hs
  | leaveGroup uid gid =>
    rw [Operation.perform, done_run]
    have hgid : gid ∈ s.groups ∨ uid = [] := by
      by_contra hno
      rw [not_or] at hno
      exact hop hno
    exact (leaveGroup_cases s uid gid).consistent hnil hgid hs
  | shareFile uid gid fname serverAddr =>
    exact (shareFile_cases order s uid gid fname serverAddr).consistent hs
  | peers uid gid fname serverAddr =>
    exact (peers_cases order s uid gid fname serverAddr).consistent hs

/-- The group that is strayed into is in memory only. -/
theorem perform_strays {s : Tracker} (hnil : s.db.script = []) (hs : Consistent s.contents)
    (order : AssignOrder) {op : Operation} (hop : Strays s op) :
    ∃ res gid, (op.perform order s).1 = .ok res ∧ gid ∈ (op.perform order s).2.contents.groups ∧
      ∀ row ∈ (op.perform order s).2.contents.tables.group, row.1 ≠ gid := by
  have hplain := plain_of_nil hnil
  have hout {gid : Str} (hgid : gid ∉ s.groups) : ∀ row ∈ s.db.tables.group, row.1 ≠ gid := by
    rintro row hrow rfl
    exact hgid (hs.mirrors.loaded row hrow)
  cases op with
  | joinGroup uid gid =>
    rw [Operation.perform, done_run]
    have h := joinGroup_cases s uid gid
    generalize (joinGroup uid gid s).1 = r at h
    generalize (joinGroup uid gid s).2 = t at h ⊢
    generalize t.contents = c at h ⊢
    cases h with
    | fails h0 =>
      obtain ⟨⟨row, hrow, rfl⟩, -⟩ := Database.clash_of_reply (hplain 0) rfl h0
      obtain ⟨row', hrow', hid⟩ := hs.closed _ hrow
      exact absurd hid (hout hop row' hrow')
    | done h0 =>
      obtain ⟨member, -, rfl⟩ := Database.inserted_of_reply (hplain 0) rfl h0
      exact ⟨_, gid, rfl, (OrdMap.mem_insert _ _ _ _).mpr (.inl rfl), hout hop⟩
  | leaveGroup uid gid =>
    rw [Operation.perform, done_run]
    have h := leaveGroup_cases s uid gid
    generalize (leaveGroup uid gid s).1 = r at h
    generalize (leaveGroup uid gid s).2 = t at h ⊢
    generalize t.contents = c at h ⊢
    obtain ⟨hgid, huid⟩ := hop
    have howner : uid ≠ s.owner gid := by rwa [owner_of_notMem hgid]
    cases h with
    | memberFails h0 => cases (Database.rows_of_reply (hplain 0) rfl h0).1
    | left h0 _ =>
      obtain ⟨-, rfl⟩ := Database.rows_of_reply (hplain 0) rfl h0
      exact ⟨_, gid, rfl, (OrdMap.mem_insert _ _ _ _).mpr (.inl rfl), hout hgid⟩
    | membersFail h0 hown h1 => exact absurd hown howner
    | groupFails h0 hown h1 h2 => exact absurd hown howner
    | deleted h0 hown h1 h2 => exact absurd hown howner
  | _ => exact absurd hop (fun h => h)

/-! ## Runs -/

/-- A request that strays. -/
def Straying : System → Event → Prop
  | .up s, .request req remoteAddr =>
    ∃ op, classify s.tokenMap req remoteAddr = .ok op ∧ Strays s op
  | _, _ => False

/-- What a run keeps as long as no request strays. -/
structure Sound (sys : System) : Prop where
  plain : sys.db.script = []
  closed : sys.db.tables.Closed
  consistent : ∀ s, sys = .up s → Consistent s.contents

theorem start_of_nil {db : Database} (hnil : db.script = []) :
    ∃ t, start db = (.ok (), t) ∧ t.contents = loaded db.tables := by
  have h := start_cases (regular_of_nil hnil)
  rcases hrun : start db with ⟨r, t⟩
  rw [hrun] at h
  dsimp only at h
  generalize hc : t.contents = c at h
  cases h with
  | fails hk htables =>
    rw [plain_of_nil hnil] at hk
    cases hk
  | loaded => exact ⟨t, rfl, hc⟩

theorem groupsSurvive_of_mirrors {s : Tracker} (hnil : s.db.script = [])
    (h : Mirrors s.groups s.db.tables) : GroupsSurvive (.up s) := by
  obtain ⟨t, hstart, ht⟩ := start_of_nil hnil
  refine ⟨t, hstart, Mirrors.kept_eq ?_ h⟩
  rw [show t.groups = (loaded s.db.tables).groups from congrArg Contents.groups ht]
  exact mirrors_loaded s.db.tables

/-- A group that is in memory only is lost. -/
theorem not_groupsSurvive {s : Tracker} {gid : Str} (hnil : s.db.script = []) (hin : gid ∈ s.groups)
    (hout : ∀ row ∈ s.db.tables.group, row.1 ≠ gid) : ¬ GroupsSurvive (.up s) := by
  rintro ⟨t, hstart, hkept⟩
  obtain ⟨t', hstart', ht'⟩ := start_of_nil hnil
  rw [hstart] at hstart'
  cases hstart'
  have hloaded : Mirrors t.groups s.db.tables := by
    rw [show t.groups = (loaded s.db.tables).groups from congrArg Contents.groups ht']
    exact mirrors_loaded s.db.tables
  have hnone : gid ∉ t.groups := by
    intro hgid
    obtain ⟨row, hrow, hid⟩ := hloaded.mem_iff.mp hgid
    exact hout row hrow hid
  have hsame := hkept gid
  obtain ⟨g, hg⟩ := OrdMap.mem_iff_exists.mp hin
  rw [OrdMap.notMem_iff.mp hnone, hg] at hsame
  cases hsame

theorem Sound.survive {sys : System} (h : Sound sys) : GroupsSurvive sys := by
  cases sys with
  | up s => exact groupsSurvive_of_mirrors h.plain (h.consistent s rfl).mirrors
  | down db => trivial

theorem sound_settle_start {db : Database} (hnil : db.script = []) (hclosed : db.tables.Closed) :
    Sound (System.settle (start db)) := by
  obtain ⟨t, hstart, ht⟩ := start_of_nil hnil
  have hscript : t.db.script = [] := by
    have h := load_via exec_consumes ⟨db, ∅, ∅, ∅⟩
    rw [Via, ← start, hstart] at h
    exact h.nil hnil
  have htables : t.db.tables = db.tables := congrArg Contents.tables ht
  rw [hstart]
  refine ⟨hscript, by rwa [System.db_settle, htables], ?_⟩
  rintro s ⟨⟩
  rw [ht]
  exact ⟨mirrors_loaded db.tables, hclosed⟩

theorem sound_boot : Sound (System.boot []) :=
  sound_settle_start rfl fun row hrow => absurd hrow (Table.notMem_empty row)

theorem Sound.step {order : AssignOrder} {sys sys' : System} {event : Event} (h : Sound sys)
    (hevent : ¬ Straying sys event) (hstep : System.step order sys event = some sys') :
    Sound sys' := by
  have hscript : sys'.db.script = [] := (step_via exec_consumes hstep).nil h.plain
  cases event with
  | restart =>
    rw [System.step_restart] at hstep
    cases hstep
    exact sound_settle_start h.plain h.closed
  | request req remoteAddr =>
    cases sys with
    | down db => cases hstep
    | up s =>
      have hconsistent : Consistent (callback order req remoteAddr s).2.contents := by
        rw [callback_eq]
        cases hop : classify s.tokenMap req remoteAddr with
        | error res => exact h.consistent s rfl
        | ok op =>
          refine perform_consistent h.plain (h.consistent s rfl) order op ?_
          exact fun hstrays => hevent ⟨op, hop, hstrays⟩
      cases hstep
      refine ⟨hscript, ?_, ?_⟩
      · rw [System.db_settle]
        exact hconsistent.closed
      · intro t ht
        obtain ⟨res, hrun⟩ := System.settle_eq_up.mp ht
        rwa [hrun] at hconsistent

theorem Sound.spoiled {order : AssignOrder} {sys sys' : System} {event : Event} (h : Sound sys)
    (hevent : Straying sys event) (hstep : System.step order sys event = some sys') :
    ¬ GroupsSurvive sys' := by
  cases sys with
  | down db => exact absurd hevent (fun h => h)
  | up s =>
    cases event with
    | restart => exact absurd hevent (fun h => h)
    | request req remoteAddr =>
      obtain ⟨op, hop, hstrays⟩ := hevent
      obtain ⟨res, gid, hres, hin, hout⟩ :=
        perform_strays h.plain (h.consistent s rfl) order hstrays
      have hrun : callback order req remoteAddr s = (.ok res, (op.perform order s).2) := by
        rw [callback_eq, hop, react, Operation.respond, hres, answered]
      rw [System.step, hrun] at hstep
      cases hstep
      exact not_groupsSurvive ((perform_via exec_consumes order op s).nil h.plain) hin hout

/-- Groups survive a restart, in every state of a run in which every statement is taken plainly, if
and only if no request of the run strays. -/
theorem groups_survive_iff_not_straying (order : AssignOrder) (events : List Event) :
    Machine.AllStates (System.step order) GroupsSurvive (System.boot []) events ↔
      Machine.AllSteps (System.step order) (fun sys event => ¬ Straying sys event)
        (System.boot []) events := by
  refine Machine.allStates_iff_allSteps (fun sys (h : Sound sys) => h.survive) ?_ ?_ sound_boot
    events
  · exact fun sys event sys' h hevent hstep => h.step hevent hstep
  · exact fun sys event sys' h hevent hstep => h.spoiled (not_not.mp hevent) hstep

/-- A user, who joins a group that does not exist. -/
def joiningNowhere : List Event :=
  [.request (posting "/signup" [("Username", "ann"), ("Password", "pw")]) .new,
    .request (posting "/login" [("Username", "ann"), ("Password", "pw")]) .new,
    .request (posting "/join_group" [("Authorization", "annpw"), ("Group-Id", "g")]) .new]

theorem group_lost_after_join :
    ¬ Machine.AllStates (System.step .rightFirst) GroupsSurvive
      (System.boot []) joiningNowhere := by
  intro h
  obtain ⟨s, hrun, hcheck⟩ := System.exists_run .rightFirst [] joiningNowhere
    (fun s => s.db.script = [] ∧ lit "g" ∈ s.groups ∧ s.db.tables.group.rows = [])
    (by decide +kernel)
  obtain ⟨hnil, hin, hrows⟩ := of_decide_eq_true hcheck
  refine not_groupsSurvive hnil hin ?_ (h.last hrun)
  intro row hrow
  rw [Table.mem_def, hrows] at hrow
  cases hrow

end P2PFileSharing.Tracker
