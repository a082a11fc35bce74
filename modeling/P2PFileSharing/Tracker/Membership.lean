import P2PFileSharing.Tracker.Tokens

/-!
# Who belongs to a group

Members are kept in memory and in a table, and a group can be in one of the two only. Whatever
request or restart has brought a member there, he has joined the group, and has not left it nor has
it been dissolved since.
-/

namespace P2PFileSharing.Tracker

open Http Library

/-! ## What the answers have promised -/

/-- What a request that is answered OK does to the members of a group. -/
inductive Deed where
  | joined (uid gid : Str)
  | left (uid gid : Str)
  /-- The owner has left. -/
  | dissolved (gid : Str)
  deriving DecidableEq, Repr

/-- Creating a group joins it; the owner who leaves a group dissolves it. -/
def Operation.deeds (s : Tracker) : Operation → List Deed
  | createGroup uid gid | joinGroup uid gid => [.joined uid gid]
  | leaveGroup uid gid =>
    if uid = s.owner gid then [.left uid gid, .dissolved gid] else [.left uid gid]
  | _ => []

def deeds (order : AssignOrder) : System → Event → List Deed :=
  System.record order fun s op => op.deeds s

/-- The user has created or joined the group, and since then neither left it nor has it been
dissolved. -/
def Belongs (uid gid : Str) (log : List Deed) : Prop :=
  Since (fun d => d = .joined uid gid) (fun d => d = .left uid gid ∨ d = .dissolved gid) log

/-- Everybody in a group or in a row of its table belongs to it. -/
structure Warranted (log : List Deed) (c : Contents) : Prop where
  members : ∀ gid g, c.groups.find? gid = some g → ∀ uid ∈ g.members, Belongs uid gid log
  rows : ∀ row ∈ c.tables.member, Belongs row.1 row.2 log

def RowsWarranted (log : List Deed) (tables : Tables) : Prop :=
  ∀ row ∈ tables.member, Belongs row.1 row.2 log

/-- Somebody is a member of the group, in memory or in the table. -/
def Enrolled (c : Contents) (uid gid : Str) : Prop :=
  (∃ g, c.groups.find? gid = some g ∧ uid ∈ g.members) ∨ (uid, gid) ∈ c.tables.member

/-- The new deeds are that the user joins, or leave him in the group that he was in. -/
def Earned (c : Contents) (new : List Deed) (uid gid : Str) : Prop :=
  new = [.joined uid gid] ∨ Enrolled c uid gid ∧ ∀ d ∈ new,
    ¬ (d = .left uid gid ∨ d = .dissolved gid)

section Warranted

variable {log new : List Deed} {c c' : Contents} {uid gid : Str}

theorem Warranted.belongs (h : Warranted log c) (hin : Enrolled c uid gid) :
    Belongs uid gid log := by
  rcases hin with ⟨g, hg, hu⟩ | hrow
  · exact h.members gid g hg uid hu
  · exact h.rows _ hrow

theorem Warranted.earned (h : Warranted log c) (hearned : Earned c new uid gid) :
    Belongs uid gid (log ++ new) := by
  rcases hearned with rfl | ⟨hin, hkeep⟩
  · exact since_snoc rfl
  · exact (h.belongs hin).append hkeep

/-- Whoever is in a group afterwards has to have earned it. -/
theorem Warranted.append (h : Warranted log c)
    (hearned : ∀ uid gid, Enrolled c' uid gid → Earned c new uid gid) :
    Warranted (log ++ new) c' :=
  ⟨fun gid g hg uid hu => h.earned (hearned uid gid (.inl ⟨g, hg, hu⟩)),
    fun row hrow => h.earned (hearned row.1 row.2 (.inr hrow))⟩

/-- Groups whose members stay, or become fewer. -/
theorem enrolled_of_insert {g : Group} {uid' gid' : Str} (h : Enrolled c' uid' gid')
    (hgroups : c'.groups = c.groups.insert gid g)
    (hg : ∀ u ∈ g.members, u ∈ (subscript c.groups gid).members)
    (hrows : ∀ row ∈ c'.tables.member, row ∈ c.tables.member) : Enrolled c uid' gid' := by
  rcases h with ⟨g', hg', hu⟩ | hrow
  · rw [hgroups, OrdMap.find?_insert] at hg'
    split at hg'
    · rename_i hgid
      cases hg'
      rw [hgid]
      exact .inl (mem_subscript (hg uid' hu))
    · exact .inl ⟨g', hg', hu⟩
  · exact .inr (hrows _ hrow)

theorem Enrolled.earned (h : Enrolled c uid gid) : Earned c [] uid gid :=
  .inr ⟨h, by simp⟩

end Warranted

/-! ## One operation -/

section Operations

variable {s : Tracker} {uid gid : Str} {c : Contents} {r : Except ExnClass Unit}

theorem CreateGroup.earned (h : CreateGroup s gid uid r c) (hreg : s.db.Regular) (uid' gid' : Str)
    (hin : Enrolled c uid' gid') : Earned s.contents
      (if isOk (r.map fun _ => ok "successful") then [.joined uid gid] else []) uid' gid' := by
  cases h with
  | groupFails h0 =>
    cases hreg.tables_of_error h0
    exact hin.earned
  | memberFails h0 h1 =>
    cases hreg.tables_of_error h1
    obtain ⟨group, -, rfl⟩ := Database.inserted_of_reply (hreg.plain_of_ok h0) rfl h0
    exact Enrolled.earned hin
  | created h0 h1 =>
    obtain ⟨group, -, rfl⟩ := Database.inserted_of_reply (hreg.plain_of_ok h0) rfl h0
    obtain ⟨member, hmember, rfl⟩ := Database.inserted_of_reply (hreg.plain_of_ok h1) rfl h1
    change Earned s.contents [.joined uid gid] uid' gid'
    rcases hin with ⟨g, hg, hu⟩ | hrow
    · rw [OrdMap.find?_insert] at hg
      split at hg
      · rename_i hgid
        cases hg
        obtain rfl : uid' = uid := by simpa using hu
        rw [hgid]
        exact .inl rfl
      · exact .inr ⟨.inl ⟨g, hg, hu⟩, by simp⟩
    · rcases (Table.mem_of_insert hmember).mp hrow with hold | hnew
      · exact .inr ⟨.inr hold, by simp⟩
      · cases hnew
        exact .inl rfl

theorem Single.earned (h : Single s (.addMember uid gid) () (joined s uid gid) r c)
    (hreg : s.db.Regular) (uid' gid' : Str) (hin : Enrolled c uid' gid') : Earned s.contents
      (if isOk (r.map fun _ => ok "successful") then [.joined uid gid] else []) uid' gid' := by
  cases h with
  | fails h0 =>
    cases hreg.tables_of_error h0
    exact hin.earned
  | done h0 =>
    obtain ⟨member, hmember, rfl⟩ := Database.inserted_of_reply (hreg.plain_of_ok h0) rfl h0
    change Earned s.contents [.joined uid gid] uid' gid'
    by_cases hnew : uid' = uid ∧ gid' = gid
    · rw [hnew.1, hnew.2]
      exact .inl rfl
    refine .inr ⟨?_, by simp⟩
    rcases hin with ⟨g, hg, hu⟩ | hrow
    · change (s.groups.insert gid _).find? gid' = some g at hg
      rw [OrdMap.find?_insert] at hg
      split at hg
      · rename_i hgid
        cases hg
        have hold : uid' ∈ (subscript s.groups gid).members := by
          refine ((OrdSet.mem_add _ _ _).mp hu).resolve_left ?_
          exact fun huid => hnew ⟨huid, hgid⟩
        rw [hgid]
        exact .inl (mem_subscript hold)
      · exact .inl ⟨g, hg, hu⟩
    · refine .inr (((Table.mem_of_insert hmember).mp hrow).resolve_right ?_)
      intro hrow
      cases hrow
      exact hnew ⟨rfl, rfl⟩

/-- Nobody comes in where a member has been taken out. -/
theorem enrolled_of_left {tables : Tables}
    (hrows : ∀ row ∈ tables.member, row ∈ s.db.tables.member) (uid' gid' : Str)
    (hin : Enrolled (left s uid gid tables) uid' gid') : Enrolled s.contents uid' gid' :=
  enrolled_of_insert hin rfl (fun _ hu => ((OrdMap.mem_erase _ _ _).mp hu).2) hrows

theorem not_enrolled_left {tables : Tables} (hrows : (uid, gid) ∉ tables.member) :
    ¬ Enrolled (left s uid gid tables) uid gid := by
  rintro (⟨g, hg, hu⟩ | hrow)
  · change (s.groups.insert gid _).find? gid = some g at hg
    rw [OrdMap.find?_insert_self] at hg
    cases hg
    exact ((OrdMap.mem_erase _ _ _).mp hu).1 rfl
  · exact hrows hrow

/-- With its owner a group is gone, and the other groups are what they were. -/
theorem enrolled_of_dissolved {tables : Tables} (uid' gid' : Str)
    (hrows : ∀ row ∈ tables.member, row.2 ≠ gid ∧ row ∈ s.db.tables.member)
    (hin : Enrolled
      { left s uid gid tables with groups := (left s uid gid tables).groups.erase gid } uid' gid') :
    gid' ≠ gid ∧ Enrolled s.contents uid' gid' := by
  rcases hin with ⟨g, hg, hu⟩ | hrow
  · change ((s.groups.insert gid _).erase gid).find? gid' = some g at hg
    rw [OrdMap.find?_erase] at hg
    split at hg
    · cases hg
    · rename_i hgid
      rw [OrdMap.find?_insert_of_ne _ _ hgid] at hg
      exact ⟨hgid, .inl ⟨g, hg, hu⟩⟩
  · exact ⟨(hrows _ hrow).1, .inr (hrows _ hrow).2⟩

theorem LeaveGroup.earned (h : LeaveGroup s uid gid r c) (hreg : s.db.Regular) (uid' gid' : Str)
    (hin : Enrolled c uid' gid') : Earned s.contents
      (if isOk (r.map fun _ => ok "successful") then (Operation.leaveGroup uid gid).deeds s else [])
      uid' gid' := by
  have hdelete {row : Row} {p : Row → Bool} {table : Table (Eq (α := Row))}
      (hrow : row ∈ table.delete p) : row ∈ table := (Table.mem_delete.mp hrow).1
  cases h with
  | memberFails h0 =>
    cases hreg.tables_of_error h0
    exact hin.earned
  | membersFail h0 howner h1 =>
    cases hreg.tables_of_error h1
    obtain ⟨-, rfl⟩ := Database.rows_of_reply (hreg.plain_of_ok h0) rfl h0
    exact (enrolled_of_left (fun row hrow => hdelete hrow) _ _ hin).earned
  | groupFails h0 howner h1 h2 =>
    cases hreg.tables_of_error h2
    obtain ⟨-, rfl⟩ := Database.rows_of_reply (hreg.plain_of_ok h0) rfl h0
    obtain ⟨-, rfl⟩ := Database.rows_of_reply (hreg.plain_of_ok h1) rfl h1
    exact (enrolled_of_left (fun row hrow => hdelete (hdelete hrow)) _ _ hin).earned
  | left h0 howner =>
    obtain ⟨-, rfl⟩ := Database.rows_of_reply (hreg.plain_of_ok h0) rfl h0
    have hdeeds : (Operation.leaveGroup uid gid).deeds s = [.left uid gid] := if_neg howner
    rw [hdeeds]
    change Earned s.contents [.left uid gid] uid' gid'
    refine .inr ⟨enrolled_of_left (fun row hrow => hdelete hrow) _ _ hin, ?_⟩
    have hother : ¬ (uid' = uid ∧ gid' = gid) := by
      rintro ⟨rfl, rfl⟩
      refine not_enrolled_left (fun hrow => ?_) hin
      simpa using (Table.mem_delete.mp hrow).2
    simp only [List.mem_singleton, forall_eq, Deed.left.injEq, reduceCtorEq, or_false]
    exact fun h => hother ⟨h.1.symm, h.2.symm⟩
  | deleted h0 howner h1 h2 =>
    obtain ⟨-, rfl⟩ := Database.rows_of_reply (hreg.plain_of_ok h0) rfl h0
    obtain ⟨-, rfl⟩ := Database.rows_of_reply (hreg.plain_of_ok h1) rfl h1
    obtain ⟨-, rfl⟩ := Database.rows_of_reply (hreg.plain_of_ok h2) rfl h2
    have hdeeds : (Operation.leaveGroup uid gid).deeds s = [.left uid gid, .dissolved gid] :=
      if_pos howner
    rw [hdeeds]
    change Earned s.contents [.left uid gid, .dissolved gid] uid' gid'
    have hother : gid' ≠ gid ∧ Enrolled s.contents uid' gid' := by
      refine enrolled_of_dissolved uid' gid' (fun row hrow => ⟨?_, hdelete (hdelete hrow)⟩) hin
      simpa using (Table.mem_delete.mp hrow).2
    refine .inr ⟨hother.2, ?_⟩
    simp [hother.1.symm]

end Operations

/-- Whoever is in a group after an operation has earned it. -/
theorem perform_earned {s : Tracker} (hreg : s.db.Regular) (order : AssignOrder) (op : Operation)
    (uid' gid' : Str) (hin : Enrolled (op.perform order s).2.contents uid' gid') :
    Earned s.contents (if isOk (op.perform order s).1 then op.deeds s else []) uid' gid' := by
  have same {c : Contents} (hgroups : c.groups = s.groups)
      (hrows : c.tables.member = s.db.tables.member)
      (hin : Enrolled c uid' gid') : Enrolled s.contents uid' gid' := by
    unfold Enrolled at hin ⊢
    rwa [hgroups, hrows] at hin
  have nodeeds {r : Except ExnClass Response} {op : Operation} (hdeeds : op.deeds s = [])
      (hin : Enrolled s.contents uid' gid') :
      Earned s.contents (if isOk r then op.deeds s else []) uid' gid' := by
    rw [hdeeds, ite_self]
    exact hin.earned
  have hsignup (uid pass : Str) (tables : Tables) :
      SameGroups tables ((Statement.createUser uid pass).plain tables).2 :=
    sameGroups_inserted fun _ => ⟨rfl, rfl⟩
  have hfile {gid fname : Str} {f : File → File} {address : OrdMap Str SockAddr}
      (hin : Enrolled { s.contents.withFile gid fname f with address } uid' gid') :
      Enrolled s.contents uid' gid' :=
    enrolled_of_insert hin rfl (fun _ hu => hu) fun _ hrow => hrow
  have h := performed order s op
  generalize (op.perform order s).1 = r at h ⊢
  generalize (op.perform order s).2.contents = c at h hin
  cases h with
  | signup h =>
    apply nodeeds rfl
    cases h with
    | fails h0 => exact same rfl (sameGroups_of_reply hreg h0 (hsignup _ _ _)).2 hin
    | done h0 => exact same rfl (sameGroups_of_reply hreg h0 (hsignup _ _ _)).2 hin
  | loginFails h => exact nodeeds rfl (same (h.sameGroups hreg).1 (h.sameGroups hreg).2.2 hin)
  | loggedIn h => exact nodeeds rfl (same (h.sameGroups hreg).1 (h.sameGroups hreg).2.2 hin)
  | logout => exact nodeeds rfl (same rfl rfl hin)
  | createGroup h => exact h.earned hreg uid' gid' hin
  | joinGroup h => exact h.earned hreg uid' gid' hin
  | leaveGroup h => exact h.earned hreg uid' gid' hin
  | shareFile h =>
    apply nodeeds rfl
    cases h with
    | noMember hno => exact hin
    | conflict hg hu hf => exact hin
    | badNumber hg hu hf hn => exact hfile hin
    | shared hg hu hf hn => exact hfile hin
  | peers h =>
    apply nodeeds rfl
    cases h with
    | badNumber hn => exact same rfl rfl hin
    | noMember hn hno => exact same rfl rfl hin
    | noFile hn hg hu hf => exact same rfl rfl hin
    | alone hn hg hu hf halone => exact hfile hin
    | listed hn hg hu hf hother => exact hfile hin

/-! ## Runs -/

section Runs

variable {order : AssignOrder} {log : List Deed} {tables : Tables} {sys sys' : System}
  {event : Event}

theorem warranted_loaded (h : RowsWarranted log tables) : Warranted log (loaded tables) := by
  refine ⟨fun gid g hg uid hu => ?_, h⟩
  rcases OrdMap.exists_of_find?_foldl_insert hg with ⟨row, -, rfl, rfl⟩ | hempty
  · obtain ⟨mem, hmem, rfl⟩ := mem_loadMembers.mp hu
    obtain ⟨hrow, hgid⟩ := List.mem_filter.mp hmem
    obtain ⟨uid, gid⟩ := mem
    obtain rfl : gid = row.1 := of_decide_eq_true hgid
    exact h _ hrow
  · cases hempty

/-- What every run keeps of the members from the first process on. -/
structure MembersWarranted (log : List Deed) (sys : System) : Prop where
  regular : sys.db.Regular
  warranted : sys.Holds (Warranted log) (RowsWarranted log)

theorem MembersWarranted.step (h : MembersWarranted log sys)
    (hstep : System.step order sys event = some sys') :
    MembersWarranted (log ++ deeds order sys event) sys' := by
  refine ⟨(step_via exec_keepsTokens hstep h.regular).1, ?_⟩
  refine h.warranted.step h.regular (fun _ hc => hc.rows) (fun _ hc => hc.rows) ?_ ?_ ?_ hstep
  · rintro s req remoteAddr res rfl rfl hc hs
    rwa [deeds, System.record_refused hc, List.append_nil]
  · rintro s req remoteAddr op rfl rfl hc hs
    rw [deeds, System.record_performed hc]
    exact hs.append (perform_earned h.regular order op)
  · rintro rfl tables htables
    rw [deeds, System.record_restart, List.append_nil]
    exact warranted_loaded htables

theorem membersWarranted_of_run {script : List Behaviour} {events : List Event}
    (hscript : ∀ b ∈ script, b = .plain ∨ b = .fails)
    (hrun : Machine.run (System.step order) (System.boot script) events = some sys) :
    MembersWarranted (Machine.log (System.step order) (deeds order) (System.boot script) events)
      sys := by
  have hboot : System.Reachable order script (System.boot script) := ⟨[], rfl⟩
  have hreg : (⟨.new, script⟩ : Database).Regular := hscript
  have hempty : RowsWarranted [] Tables.new := by
    intro row hrow
    exact absurd hrow (Table.notMem_empty row)
  have hstart : MembersWarranted [] (System.boot script) :=
    ⟨regular_of_reachable hboot hscript, System.holds_start hreg (warranted_loaded hempty) hempty⟩
  exact Machine.run_log_invariant (P := fun sys log => MembersWarranted log sys)
    (fun sys event sys' log h hstep => h.step hstep) hstart hrun

end Runs

/-- A request to see or to share a file of a group, with a token of the user. -/
structure AboutFile (tokenMap : OrdMap Str Str) (req : Request) (uid gid : Str) : Prop where
  endpoint : req.method = .POST ∧ req.resource = lit "/share_file" ∨
    req.method = .GET ∧ req.resource = lit "/peers"
  token : ∃ token, req.getHeader (lit "Authorization") = .ok token ∧ tokenMap.find? token = some uid
  group : req.getHeader (lit "Group-Id") = .ok gid

section AboutFile

variable {order : AssignOrder} {tokenMap : OrdMap Str Str} {req : Request} {remoteAddr : SockAddr}
  {uid gid : Str} {op : Operation} {s : Tracker}

theorem AboutFile.needGroup (h : AboutFile tokenMap req uid gid) (missing : Response) :
    needGroup tokenMap req missing = .ok (uid, gid) := by
  obtain ⟨token, htoken, hfind⟩ := h.token
  rw [Tracker.needGroup, needToken, need_of_getHeader htoken, need_of_getHeader h.group]
  dsimp only [bind, Except.bind]
  rw [hfind]

theorem getHeader_of_need {missing : Response} {key : String} {value : Str}
    (h : need req missing key = .ok value) : req.getHeader (lit key) = .ok value := by
  rw [need] at h
  split at h
  · rename_i hget
    cases h
    exact hget
  · cases h

theorem AboutFile.operation (h : AboutFile tokenMap req uid gid)
    (hc : classify tokenMap req remoteAddr = .ok op) :
    ∃ fname serverAddr, req.getHeader (lit "File-Name") = .ok fname ∧
      (req.method = .POST ∧ op = .shareFile uid gid fname serverAddr ∨
        req.method = .GET ∧ op = .peers uid gid fname serverAddr) := by
  have file {k : Str → Str → Str → Str → Operation}
      (h' : needFile tokenMap req (badRequest "header missing") k = .ok op) :
      ∃ fname serverAddr, req.getHeader (lit "File-Name") = .ok fname ∧
        op = k uid gid fname serverAddr := by
    rw [needFile, h.needGroup] at h'
    obtain ⟨_, ⟨⟩, h'⟩ := exists_of_bind_eq_ok h'
    obtain ⟨fname, hfname, h'⟩ := exists_of_bind_eq_ok h'
    obtain ⟨serverAddr, -, ⟨⟩⟩ := exists_of_bind_eq_ok h'
    exact ⟨fname, serverAddr, getHeader_of_need hfname, rfl⟩
  rcases h.endpoint with ⟨hm, hr⟩ | ⟨hm, hr⟩
  · rw [classify, hm] at hc
    simp +decide only [classifyPost, hr, if_true, if_false] at hc
    obtain ⟨fname, serverAddr, hfname, hop⟩ := file hc
    exact ⟨fname, serverAddr, hfname, .inl ⟨hm, hop⟩⟩
  · rw [classify, hm] at hc
    simp only [hr, if_true] at hc
    obtain ⟨fname, serverAddr, hfname, hop⟩ := file hc
    exact ⟨fname, serverAddr, hfname, .inr ⟨hm, hop⟩⟩

/-- Only members see and share files. -/
theorem AboutFile.isMember (h : AboutFile s.tokenMap req uid gid)
    (hok : AnswersOk order req remoteAddr s) : s.IsMember uid gid := by
  obtain ⟨op, res, hc, hres, hstatus⟩ := answersOk_iff.mp hok
  obtain ⟨fname, serverAddr, -, ⟨-, rfl⟩ | ⟨-, rfl⟩⟩ := h.operation hc
  · have hcases := shareFile_cases order s uid gid fname serverAddr
    rw [hres] at hcases
    generalize ((Operation.shareFile uid gid fname serverAddr).perform order s).2.contents =
      c at hcases
    cases hcases with
    | shared hg hu hf hn => exact ⟨_, hg, hu⟩
  · have hcases := peers_cases order s uid gid fname serverAddr
    rw [hres] at hcases
    generalize ((Operation.peers uid gid fname serverAddr).perform order s).2.contents = c at hcases
    cases hcases with
    | noMember hn hno => exact absurd hstatus (by decide)
    | listed hn hg hu hf hother => exact ⟨_, hg, hu⟩

end AboutFile

/-- In a run in which SQLite takes every text plainly or fails, a user who is shown or who shares a
file of a group has created or joined the group, and since then neither left it nor has it been
dissolved by its owner. -/
theorem files_only_for_members {order : AssignOrder} {script : List Behaviour} {events : List Event}
    {s : Tracker} {req : Request} {remoteAddr : SockAddr} {uid gid : Str}
    (hscript : ∀ b ∈ script, b = .plain ∨ b = .fails)
    (hrun : Machine.run (System.step order) (System.boot script) events = some (.up s))
    (hreq : AboutFile s.tokenMap req uid gid) (hok : AnswersOk order req remoteAddr s) :
    Belongs uid gid
      (Machine.log (System.step order) (deeds order) (System.boot script) events) := by
  have hkept : Warranted _ s.contents := (membersWarranted_of_run hscript hrun).warranted
  obtain ⟨g, hg, hu⟩ := hreq.isMember hok
  exact hkept.members gid g hg uid hu

def sharing (token gid fname serverAddr : String) : Request :=
  posting "/share_file" [("Authorization", token), ("Group-Id", gid), ("File-Name", fname),
    ("Server-Address", serverAddr)]

/-- The owner of a group shares a file after a restart. -/
theorem founder_belongs : Belongs (lit "ann") (lit "g")
    (Machine.log (System.step .rightFirst) (deeds .rightFirst) (System.boot [])
      (founding ++ [.restart])) := by
  obtain ⟨s, hrun, hcheck⟩ := System.exists_run .rightFirst [] (founding ++ [.restart])
    (fun s => s.tokenMap.find? (lit "annpw") = some (lit "ann") ∧
      AnswersOk .rightFirst (sharing "annpw" "g" "f" "7") .new s) (by decide +kernel)
  obtain ⟨htoken, hok⟩ := of_decide_eq_true hcheck
  exact files_only_for_members (by simp) hrun
    ⟨.inl ⟨rfl, rfl⟩, ⟨_, by decide, htoken⟩, by decide⟩ hok

end P2PFileSharing.Tracker
