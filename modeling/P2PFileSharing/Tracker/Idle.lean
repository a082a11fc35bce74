import P2PFileSharing.Tracker.Failure
import P2PFileSharing.Tracker.Listing

/-!
# Operations that change nothing

For each operation on groups, the states that it leaves as they are: a statement fails without an
effect, or what would be written is there already.
-/

namespace P2PFileSharing.Tracker

open Library

/-- Creating the group would change nothing: a statement fails, or both are answered without an
effect and the group is there with the user as its only member. -/
def CreateIdle (s : Tracker) (uid gid : Str) : Prop :=
  (∃ e, s.db.reply 0 (.insertGroup gid uid) s.db.tables = (.error e, s.db.tables)) ∨
    ∃ rows tables, s.db.reply 0 (.insertGroup gid uid) s.db.tables = (.ok rows, tables) ∧
      ((∃ e, s.db.reply 1 (.addMember uid gid) tables = (.error e, s.db.tables)) ∨
        s.groups.find? gid = some ⟨gid, uid, OrdSet.add ∅ uid, ∅⟩ ∧
          ∃ rows', s.db.reply 1 (.addMember uid gid) tables = (.ok rows', s.db.tables))

/-- Joining the group would change nothing: the statement fails, or the user is a member. -/
def JoinIdle (s : Tracker) (uid gid : Str) : Prop :=
  ∃ r, s.db.reply 0 (.addMember uid gid) s.db.tables = (r, s.db.tables) ∧
    ((∃ e, r = .error e) ∨ s.IsMember uid gid)

/-- Leaving the group would change nothing. -/
def LeaveIdle (s : Tracker) (uid gid : Str) : Prop :=
  (∃ e, s.db.reply 0 (.removeMember uid gid) s.db.tables = (.error e, s.db.tables)) ∨
    ∃ rows tables, s.db.reply 0 (.removeMember uid gid) s.db.tables = (.ok rows, tables) ∧
      (uid ≠ s.owner gid ∧ Untouched s uid gid tables ∨
        uid = s.owner gid ∧
          ((∃ e tables', s.db.reply 1 (.removeAllMembers gid) tables = (.error e, tables') ∧
              Untouched s uid gid tables') ∨
            ∃ rows' tables', s.db.reply 1 (.removeAllMembers gid) tables = (.ok rows', tables') ∧
              ((∃ e tables'', s.db.reply 2 (.removeGroup gid) tables' = (.error e, tables'') ∧
                  Untouched s uid gid tables'') ∨
                gid ∉ s.groups ∧
                  ∃ rows'', s.db.reply 2 (.removeGroup gid) tables' = (.ok rows'', s.db.tables))))

/-- Sharing the file would change nothing: the user is no member of the group, or the name is
taken. -/
def ShareIdle (s : Tracker) (uid gid fname : Str) : Prop :=
  ¬ ∃ g, s.groups.find? gid = some g ∧ uid ∈ g.members ∧ fname ∉ g.files

/-- Asking for the peers would change nothing: there is no such file for the user, or he is among
its leechers already and each of the others has an address. -/
def PeersIdle (s : Tracker) (uid gid fname : Str) : Prop :=
  ∀ f, s.sharedFile uid gid fname = some f →
    uid ∈ f.leechers ∧ ∀ id ∈ f.peersOf uid, id ∈ s.address

section Idle

variable {s : Tracker} {uid gid fname : Str}

theorem isMember_iff :
    s.IsMember uid gid ↔ gid ∈ s.groups ∧ uid ∈ (subscript s.groups gid).members := by
  constructor
  · rintro ⟨g, hg, hu⟩
    exact ⟨OrdMap.mem_iff_exists.mpr ⟨g, hg⟩, by rwa [subscript_of_find? hg]⟩
  · exact fun h => mem_subscript h.2

/-! ## Groups -/

theorem created_eq (s : Tracker) (gid : Str) (g : Group) (tables : Tables) :
    ({ s.contents with groups := s.groups.insert gid g, tables } : Contents) = s.contents ↔
      s.groups.find? gid = some g ∧ tables = s.db.tables := by
  simp [contents, OrdMap.insert_eq_self]

theorem joined_eq (s : Tracker) (uid gid : Str) (tables : Tables) :
    joined s uid gid tables = s.contents ↔ s.IsMember uid gid ∧ tables = s.db.tables := by
  have hgroups : (joined s uid gid tables).groups = s.groups ↔ s.IsMember uid gid := by
    rw [isMember_iff]
    have h := insert_subscript_eq (m := s.groups) (k := gid)
      (f := fun g => { g with members := g.members.add uid })
    refine h.trans (and_congr_right fun _ => ?_)
    rw [← OrdSet.add_eq_self]
    exact ⟨congrArg Group.members, fun hsame => by rw [hsame]⟩
  rw [← hgroups]
  constructor
  · intro h
    exact ⟨congrArg Contents.groups h, congrArg Contents.tables h⟩
  · rintro ⟨h, rfl⟩
    exact congrArg (fun groups => (⟨groups, s.tokenMap, s.address, s.db.tables⟩ : Contents)) h

theorem deleted_eq (s : Tracker) (uid gid : Str) (tables : Tables) :
    ({ left s uid gid tables with groups := (left s uid gid tables).groups.erase gid } : Contents) =
      s.contents ↔ gid ∉ s.groups ∧ tables = s.db.tables := by
  have hgroups : (left s uid gid tables).groups.erase gid = s.groups.erase gid := by
    refine OrdMap.ext_find? fun k => ?_
    rw [OrdMap.find?_erase, OrdMap.find?_erase]
    split
    · rfl
    · exact OrdMap.find?_insert_of_ne _ _ ‹_›
  rw [hgroups, ← OrdMap.erase_eq_self]
  constructor
  · intro h
    exact ⟨congrArg Contents.groups h, congrArg Contents.tables h⟩
  · rintro ⟨h, rfl⟩
    exact congrArg (fun groups => (⟨groups, s.tokenMap, s.address, s.db.tables⟩ : Contents)) h

theorem createGroup_idle_iff (s : Tracker) (uid gid : Str) :
    (createGroup gid uid s).2.contents = s.contents ↔ CreateIdle s uid gid := by
  have h := createGroup_cases s gid uid
  generalize (createGroup gid uid s).1 = r at h
  generalize (createGroup gid uid s).2.contents = c at h ⊢
  rw [CreateIdle]
  cases h with
  | groupFails h0 =>
    refine (tables_eq _ _).trans ?_
    simp [h0]
  | memberFails h0 h1 =>
    refine (tables_eq _ _).trans ?_
    simp [h0, h1]
  | created h0 h1 =>
    refine (created_eq s gid _ _).trans ?_
    simp [h0, h1]

theorem joinGroup_idle_iff (s : Tracker) (uid gid : Str) :
    (joinGroup uid gid s).2.contents = s.contents ↔ JoinIdle s uid gid := by
  have h := joinGroup_cases s uid gid
  generalize (joinGroup uid gid s).1 = r at h
  generalize (joinGroup uid gid s).2.contents = c at h ⊢
  rw [JoinIdle]
  cases h with
  | fails h0 =>
    refine (tables_eq _ _).trans ?_
    simp [h0]
  | done h0 =>
    refine (joined_eq s uid gid _).trans ?_
    simp [h0, and_comm]

theorem leaveGroup_idle_iff (s : Tracker) (uid gid : Str) :
    (leaveGroup uid gid s).2.contents = s.contents ↔ LeaveIdle s uid gid := by
  have h := leaveGroup_cases s uid gid
  generalize (leaveGroup uid gid s).1 = r at h
  generalize (leaveGroup uid gid s).2.contents = c at h ⊢
  rw [LeaveIdle]
  cases h with
  | memberFails h0 =>
    refine (tables_eq _ _).trans ?_
    simp [h0]
  | left h0 howner =>
    refine (left_eq s uid gid _).trans ?_
    simp [h0, howner]
  | membersFail h0 howner h1 =>
    refine (left_eq s uid gid _).trans ?_
    simp [h0, ← howner, h1]
  | groupFails h0 howner h1 h2 =>
    refine (left_eq s uid gid _).trans ?_
    simp [h0, ← howner, h1, h2]
  | deleted h0 howner h1 h2 =>
    refine (deleted_eq s uid gid _).trans ?_
    simp [h0, ← howner, h1, h2]

/-! ## Files -/

/-- A file is shared, or nothing happens. -/
theorem shareFile_state (s : Tracker) (uid gid fname : Str) :
    (∃ g, s.groups.find? gid = some g ∧ uid ∈ g.members ∧ fname ∉ g.files) ∧
        (∃ t, Tracker.shareFile uid gid fname s = (.ok (), t) ∧ t.address = s.address) ∨
      ¬ (∃ g, s.groups.find? gid = some g ∧ uid ∈ g.members ∧ fname ∉ g.files) ∧
        ∃ e, Tracker.shareFile uid gid fname s = (.error e, s) := by
  rcases findGroup_cases s uid gid with ⟨hno, hfind⟩ | ⟨g, hg, hu, hfind⟩
  · refine .inr ⟨?_, _, by rw [shareFile, Action.bind_of_error hfind]⟩
    rintro ⟨g, hg, hu, -⟩
    exact hno ⟨g, hg, hu⟩
  · by_cases hf : fname ∈ g.files
    · refine .inr ⟨?_, _, by rw [shareFile, Action.bind_of_ok hfind, if_pos hf, Action.throw_run]⟩
      rintro ⟨g', hg', -, hf'⟩
      rw [hg] at hg'
      cases hg'
      exact hf' hf
    · refine .inl ⟨⟨g, hg, hu, hf⟩,
        s.withFile gid fname fun _ => ⟨OrdSet.add ∅ uid, ∅, fname, gid⟩, ?_, rfl⟩
      rw [shareFile, Action.bind_of_ok hfind, if_neg hf, Action.modify_run]

/-- Adding a file under a new name is seen in the groups. -/
theorem withFile_ne {g : Group} {f : File → File} (hg : s.groups.find? gid = some g)
    (hf : fname ∉ g.files) : (s.withFile gid fname f).contents ≠ s.contents := by
  intro h
  have hgroups : s.groups.insert gid _ = s.groups := congrArg Contents.groups h
  rw [OrdMap.insert_eq_self, hg, Option.some_inj, subscript_of_find? hg] at hgroups
  apply hf
  rw [hgroups]
  exact (OrdMap.mem_insert _ _ _ _).mpr (.inl rfl)

theorem shareFile_idle_iff (s : Tracker) (uid gid fname : Str) :
    (Tracker.shareFile uid gid fname s).2.contents = s.contents ↔ ShareIdle s uid gid fname := by
  rw [ShareIdle]
  rcases findGroup_cases s uid gid with ⟨hno, hfind⟩ | ⟨g, hg, hu, hfind⟩
  · rw [shareFile, Action.bind_of_error hfind]
    refine iff_of_true rfl ?_
    rintro ⟨g, hg, hu, -⟩
    exact hno ⟨g, hg, hu⟩
  · rw [shareFile, Action.bind_of_ok hfind]
    by_cases hf : fname ∈ g.files
    · rw [if_pos hf]
      simp [hg, hf]
    · rw [if_neg hf, Action.modify_run]
      exact iff_of_false (withFile_ne hg hf) fun h => h ⟨g, hg, hu, hf⟩

/-- Listing the peers gives every one of them an address. -/
theorem listPeers_address (uid : Str) (ids : List Str) (members : Str) (s : Tracker) (k : Str) :
    k ∈ (listPeers uid ids members s).2.address ↔ k ∈ s.address ∨ k ∈ ids ∧ k ≠ uid := by
  induction ids generalizing members s with
  | nil => simp [listPeers]
  | cons id ids ih =>
    by_cases hid : id = uid
    · rw [listPeers, if_pos hid, ih, List.mem_cons]
      grind
    · rw [listPeers, if_neg hid, Action.get_bind_run, Action.modify_bind_run, ih, List.mem_cons,
        withAddress, OrdMap.mem_insert]
      grind

theorem listPeers_idle_iff (uid : Str) (ids : List Str) (members : Str) (s : Tracker) :
    (listPeers uid ids members s).2.address = s.address ↔
      ∀ id ∈ ids, id ≠ uid → id ∈ s.address := by
  constructor
  · intro h id hid hne
    rw [← h]
    exact (listPeers_address uid ids members s id).mpr (.inr ⟨hid, hne⟩)
  · intro h
    induction ids generalizing members with
    | nil => rfl
    | cons id ids ih =>
      obtain ⟨hfirst, hids⟩ := List.forall_mem_cons.mp h
      by_cases hid : id = uid
      · rw [listPeers, if_pos hid]
        exact ih members hids
      · have hsame : s.withAddress id (subscript s.address id) = s := by
          rw [withAddress, (insert_subscript_eq (f := fun addr => addr)).mpr ⟨hfirst hid, rfl⟩]
        rw [listPeers, if_neg hid, Action.get_bind_run, Action.modify_bind_run, hsame]
        exact ih _ hids

theorem getPeers_idle_iff (s : Tracker) (uid gid fname : Str) :
    (Tracker.getPeers uid gid fname s).2.contents = s.contents ↔ PeersIdle s uid gid fname := by
  rw [PeersIdle]
  rcases findGroup_cases s uid gid with ⟨hno, hfind⟩ | ⟨g, hg, hu, hfind⟩
  · rw [getPeers, Action.bind_of_error hfind, sharedFile_of_not_isMember hno]
    simp
  · rw [getPeers, Action.bind_of_ok hfind, sharedFile_of_find? hg hu]
    cases hf : g.files.find? fname with
    | none => simp
    | some f =>
      dsimp only
      rw [Action.modify_bind_run]
      set t := s.withFile gid fname fun f' => { f' with leechers := f.leechers.add uid } with ht
      obtain ⟨address, -, hrun⟩ := listPeers_run uid
        ((f.leechers.add uid).toList ++ f.seeders.toList) [] t
      have haddress := listPeers_idle_iff uid ((f.leechers.add uid).toList ++ f.seeders.toList) [] t
      rw [hrun] at haddress
      rw [Action.bind_of_ok hrun]
      have hstate : { t with address }.contents = s.contents ↔
          uid ∈ f.leechers ∧ ∀ id ∈ f.peersOf uid, id ∈ s.address := by
        refine (leecher_eq hg hf uid address).trans (and_congr_right fun _ => haddress.trans ?_)
        refine forall_congr' fun id => ?_
        rw [File.peersOf, List.mem_filter, and_imp, decide_eq_true_eq]
        rfl
      simp only [Option.some.injEq, forall_eq']
      split
      · exact hstate
      · exact hstate

end Idle

end P2PFileSharing.Tracker
