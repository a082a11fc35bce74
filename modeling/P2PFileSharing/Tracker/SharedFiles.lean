import P2PFileSharing.Tracker.Membership

/-!
# Shared files stay

The files of a group are kept in memory only. No request takes a file out of a group, except that of
an owner who leaves, which takes the whole group. But a user can come into a group that nobody has
created, and when it is created later, it is made anew.
-/

namespace P2PFileSharing.Tracker

open Http Library

/-- What a request that is answered OK does to the files of a group. -/
inductive Share where
  | shared (uid gid fname : Str)
  /-- The owner has left, and the group is deleted. -/
  | deleted (gid : Str)
  deriving DecidableEq, Repr

def Operation.shares (s : Tracker) : Operation → List Share
  | shareFile uid gid fname _ => [.shared uid gid fname]
  | leaveGroup uid gid => if uid = s.owner gid then [.deleted gid] else []
  | _ => []

def shares (order : AssignOrder) : System → Event → List Share :=
  System.record order fun s op => op.shares s

/-- The user has shared the file, and the group has not been deleted since. -/
def StillShared (uid gid fname : Str) (log : List Share) : Prop :=
  Since (fun d => d = .shared uid gid fname) (fun d => d = .deleted gid) log

/-- The user is listed as a seeder of the file. -/
def Seeds (groups : OrdMap Str Group) (uid gid fname : Str) : Prop :=
  ∃ g f, groups.find? gid = some g ∧ g.files.find? fname = some f ∧ uid ∈ f.seeders

/-- Everything that is still shared is listed. -/
def AllSeeded (log : List Share) (groups : OrdMap Str Group) : Prop :=
  ∀ uid gid fname, StillShared uid gid fname log → Seeds groups uid gid fname

def SharesListed : System × List Share → Prop
  | (.up s, log) => AllSeeded log s.groups
  | (.down _, _) => True

/-- SQLite takes the group, which has a file that is still shared, into its tables. -/
def Operation.Overwrites (log : List Share) (s : Tracker) : Operation → Prop
  | createGroup uid gid => (∃ user fname, StillShared user gid fname log) ∧
      ∃ rows tables rows' tables', s.db.reply 0 (.insertGroup gid uid) s.db.tables =
        (.ok rows, tables) ∧
        s.db.reply 1 (.addMember uid gid) tables = (.ok rows', tables')
  | _ => False

def Overwrites : System × List Share → Request × SockAddr → Prop
  | (.up s, log), (req, remoteAddr) =>
    ∃ op, classify s.tokenMap req remoteAddr = .ok op ∧ op.Overwrites log s
  | (.down _, _), _ => False

/-- A step of a process that is not started again, with the log beside it. -/
def serve (order : AssignOrder) (p : System × List Share) (e : Request × SockAddr) :
    Option (System × List Share) :=
  Machine.logged (System.step order) (shares order) p (.request e.1 e.2)

/-! ## Groups -/

section Seeds

variable {groups : OrdMap Str Group} {c : Contents} {uid gid fname gid' fname' : Str} {g : Group}
  {log new : List Share}

theorem Seeds.insert_of_ne (h : Seeds groups uid gid fname) (hgid : gid ≠ gid') :
    Seeds (groups.insert gid' g) uid gid fname := by
  obtain ⟨g, f, hg, hf, hu⟩ := h
  exact ⟨g, f, (OrdMap.find?_insert_of_ne _ _ hgid).trans hg, hf, hu⟩

/-- A group that keeps its files. -/
theorem Seeds.insert (h : Seeds groups uid gid fname)
    (hfiles : g.files = (subscript groups gid').files) :
    Seeds (groups.insert gid' g) uid gid fname := by
  by_cases hgid : gid = gid'
  · subst hgid
    obtain ⟨g₀, f, hg, hf, hu⟩ := h
    rw [subscript_of_find? hg] at hfiles
    exact ⟨g, f, OrdMap.find?_insert_self .., hfiles ▸ hf, hu⟩
  · exact h.insert_of_ne hgid

theorem Seeds.erase (h : Seeds groups uid gid fname) (hgid : gid ≠ gid') :
    Seeds (groups.erase gid') uid gid fname := by
  obtain ⟨g, f, hg, hf, hu⟩ := h
  exact ⟨g, f, by rwa [OrdMap.find?_erase, if_neg hgid], hf, hu⟩

theorem seeds_withFile {f : File → File}
    (hu : uid ∈ (f (subscript (subscript c.groups gid).files fname)).seeders) :
    Seeds (c.withFile gid fname f).groups uid gid fname :=
  ⟨_, _, OrdMap.find?_insert_self .., OrdMap.find?_insert_self .., hu⟩

/-- A file that is changed keeps its seeders, or is no seeded one. -/
theorem Seeds.withFile {f : File → File} (h : Seeds c.groups uid gid fname)
    (hsame : gid = gid' → fname = fname' →
      uid ∈ (f (subscript (subscript c.groups gid').files fname')).seeders) :
    Seeds (c.withFile gid' fname' f).groups uid gid fname := by
  by_cases hgid : gid = gid'
  · subst hgid
    by_cases hfname : fname = fname'
    · subst hfname
      exact seeds_withFile (hsame rfl rfl)
    · obtain ⟨g, f₀, hg, hf, hu⟩ := h
      refine ⟨_, f₀, OrdMap.find?_insert_self .., ?_, hu⟩
      rw [subscript_of_find? hg]
      exact (OrdMap.find?_insert_of_ne _ _ hfname).trans hf
  · exact h.insert_of_ne hgid

theorem AllSeeded.mono (h : AllSeeded log groups) {groups' : OrdMap Str Group}
    (hseeds : ∀ uid gid fname, Seeds groups uid gid fname → Seeds groups' uid gid fname) :
    AllSeeded log groups' :=
  fun uid gid fname hshared => hseeds _ _ _ (h uid gid fname hshared)

end Seeds

/-! ## One operation -/

section Operations

variable {order : AssignOrder} {s : Tracker} {log : List Share} {uid gid fname serverAddr : Str}
  {c : Contents}

theorem CreateGroup.allSeeded {r : Except ExnClass Unit} (h : CreateGroup s gid uid r c)
    (hs : AllSeeded log s.groups) (hop : ¬ (Operation.createGroup uid gid).Overwrites log s) :
    AllSeeded log c.groups := by
  cases h with
  | groupFails h0 => exact hs
  | memberFails h0 h1 => exact hs
  | created h0 h1 =>
    intro user gid' fname hshared
    refine (hs user gid' fname hshared).insert_of_ne ?_
    rintro rfl
    exact hop ⟨⟨user, fname, hshared⟩, _, _, _, _, h0, h1⟩

/-- The new group has no files. -/
theorem CreateGroup.overwritten {r : Except ExnClass Unit} (h : CreateGroup s gid uid r c)
    (hop : (Operation.createGroup uid gid).Overwrites log s) :
    r = .ok () ∧ ¬ AllSeeded log c.groups := by
  obtain ⟨⟨user, fname, hshared⟩, rows, tables, rows', tables', h0', h1'⟩ := hop
  cases h with
  | groupFails h0 =>
    rw [h0] at h0'
    cases h0'
  | memberFails h0 h1 =>
    rw [h0] at h0'
    cases h0'
    rw [h1] at h1'
    cases h1'
  | created h0 h1 =>
    refine ⟨rfl, fun hseeded => ?_⟩
    obtain ⟨g, f, hg, hf, -⟩ := hseeded user gid fname hshared
    rw [OrdMap.find?_insert_self] at hg
    cases hg
    cases hf

theorem seeds_left (tables : Tables) {user gid' : Str} (h : Seeds s.groups user gid' fname) :
    Seeds (left s uid gid tables).groups user gid' fname :=
  h.insert rfl

theorem LeaveGroup.allSeeded {r : Except ExnClass Unit} (h : LeaveGroup s uid gid r c)
    (hs : AllSeeded log s.groups) : AllSeeded (log ++
      if isOk (r.map fun _ => ok "successful") then (Operation.leaveGroup uid gid).shares s else [])
      c.groups := by
  have kept (tables : Tables) : AllSeeded (log ++ []) (Tracker.left s uid gid tables).groups := by
    rw [List.append_nil]
    exact hs.mono fun _ _ _ => seeds_left tables
  cases h with
  | memberFails h0 =>
    change AllSeeded (log ++ []) s.groups
    rwa [List.append_nil]
  | membersFail h0 howner h1 => exact kept _
  | groupFails h0 howner h1 h2 => exact kept _
  | left h0 howner =>
    have hshares : (Operation.leaveGroup uid gid).shares s = [] := if_neg howner
    rw [hshares]
    exact kept _
  | deleted h0 howner h1 h2 =>
    have hshares : (Operation.leaveGroup uid gid).shares s = [.deleted gid] := if_pos howner
    rw [hshares]
    change AllSeeded (log ++ [.deleted gid]) _
    intro user gid' fname hshared
    rcases since_snoc_iff.mp hshared with hnew | ⟨hold, hgid⟩
    · cases hnew
    · refine (seeds_left _ (hs user gid' fname hold)).erase ?_
      rintro rfl
      exact hgid rfl

theorem ShareFile.allSeeded {r : Except ExnClass Response}
    (h : ShareFile order s uid gid fname serverAddr r c) (hs : AllSeeded log s.groups) :
    AllSeeded (log ++ if isOk r then (Operation.shareFile uid gid fname serverAddr).shares s
      else []) c.groups := by
  have others {g : Group} (hg : s.groups.find? gid = some g) (hf : fname ∉ g.files)
      {user gid' fname' : Str} (hseeds : Seeds s.groups user gid' fname') : Seeds
        (s.contents.withFile gid fname fun _ => ⟨OrdSet.add ∅ uid, ∅, fname, gid⟩).groups user gid'
        fname' := by
    refine Seeds.withFile (c := s.contents) hseeds ?_
    rintro rfl rfl
    obtain ⟨g', f', hg', hf', -⟩ := hseeds
    rw [hg] at hg'
    cases hg'
    exact absurd (OrdMap.mem_iff_exists.mpr ⟨f', hf'⟩) hf
  have added : Seeds
      (s.contents.withFile gid fname fun _ => ⟨OrdSet.add ∅ uid, ∅, fname, gid⟩).groups uid gid
      fname := seeds_withFile ((OrdSet.mem_add _ _ _).mpr (.inl rfl))
  cases h with
  | noMember hno =>
    change AllSeeded (log ++ []) s.groups
    rwa [List.append_nil]
  | conflict hg hu hf =>
    change AllSeeded (log ++ []) s.groups
    rwa [List.append_nil]
  | badNumber hg hu hf hn =>
    change AllSeeded (log ++ []) _
    rw [List.append_nil]
    exact hs.mono fun _ _ _ => others hg hf
  | shared hg hu hf hn =>
    change AllSeeded (log ++ [.shared uid gid fname]) _
    intro user gid' fname' hshared
    rcases since_snoc_iff.mp hshared with hnew | ⟨hold, -⟩
    · cases hnew
      exact added
    · exact others hg hf (hs user gid' fname' hold)

theorem Peers.allSeeded {r : Except ExnClass Response}
    (h : Peers order s uid gid fname serverAddr r c)
    (hs : AllSeeded log s.groups) : AllSeeded log c.groups := by
  have listed {g : Group} {f : File} (hg : s.groups.find? gid = some g)
      (hf : g.files.find? fname = some f) : AllSeeded log (s.contents.withFile gid fname
        fun f' => { f' with leechers := f.leechers.add uid }).groups := by
    refine hs.mono fun user gid' fname' hseeds => Seeds.withFile (c := s.contents) hseeds ?_
    rintro rfl rfl
    obtain ⟨g', f', hg', hf', hu⟩ := hseeds
    rw [hg] at hg'
    cases hg'
    rw [hf] at hf'
    cases hf'
    change user ∈ (subscript (subscript s.groups gid').files fname').seeders
    rwa [subscript_of_find? hg, subscript_of_find? hf]
  cases h with
  | badNumber hn => exact hs
  | noMember hn hno => exact hs
  | noFile hn hg hu hf => exact hs
  | alone hn hg hu hf halone => exact listed hg hf
  | listed hn hg hu hf hother => exact listed hg hf

/-- Only the creation of a group can take a file away. -/
theorem Performed.allSeeded {op : Operation} {r : Except ExnClass Response}
    (h : Performed order s op r c) (hs : AllSeeded log s.groups) (hop : ¬ op.Overwrites log s) :
    AllSeeded (log ++ if isOk r then op.shares s else []) c.groups := by
  have unlogged {op : Operation} (hshares : op.shares s = []) (hc : AllSeeded log c.groups) :
      AllSeeded (log ++ if isOk r then op.shares s else []) c.groups := by
    rwa [hshares, ite_self, List.append_nil]
  cases h with
  | signup h =>
    refine unlogged rfl ?_
    cases h <;> exact hs
  | loginFails h =>
    refine unlogged rfl ?_
    cases h <;> exact hs
  | loggedIn h =>
    refine unlogged rfl ?_
    cases h <;> exact hs
  | logout => exact unlogged rfl hs
  | createGroup h => exact unlogged rfl (h.allSeeded hs hop)
  | @joinGroup uid gid r c h =>
    refine unlogged rfl ?_
    cases h with
    | fails h0 => exact hs
    | done h0 => exact hs.mono fun _ _ _ hseeds => hseeds.insert rfl
  | leaveGroup h => exact h.allSeeded hs
  | shareFile h => exact h.allSeeded hs
  | peers h => exact unlogged rfl (h.allSeeded hs)

end Operations

/-! ## Runs -/

section Runs

variable {order : AssignOrder} {p p' : System × List Share} {e : Request × SockAddr}

theorem serve_eq_some (h : serve order p e = some p') :
    System.Step order p.1 (.request e.1 e.2) p'.1 ∧
      p'.2 = p.2 ++ shares order p.1 (.request e.1 e.2) := by
  obtain ⟨hstep, hlog⟩ := Machine.logged_eq_some.mp h
  exact ⟨System.step_cases hstep, hlog⟩

theorem SharesListed.serve_iff (h : SharesListed p) (hserve : serve order p e = some p') :
    SharesListed p' ↔ ¬ Overwrites p e := by
  obtain ⟨sys, log⟩ := p
  obtain ⟨sys', log'⟩ := p'
  obtain ⟨req, remoteAddr⟩ := e
  obtain ⟨hstep, hlog⟩ := serve_eq_some hserve
  dsimp only at hstep hlog
  subst hlog
  cases hstep with
  | @refused s _ _ res hc =>
    rw [shares, System.record_refused hc, List.append_nil]
    exact iff_of_true h (by simp [Overwrites, hc])
  | @performed s _ _ op hc =>
    rw [shares, System.record_performed hc]
    have hop : Overwrites (.up s, log) (req, remoteAddr) ↔ op.Overwrites log s := by
      simp [Overwrites, hc]
    rw [hop]
    by_cases hover : op.Overwrites log s
    · refine iff_of_false ?_ (not_not_intro hover)
      cases op with
      | createGroup uid gid =>
        obtain ⟨hreturns, hbad⟩ := (createGroup_cases s gid uid).overwritten hover
        have hrun : (Operation.createGroup uid gid).perform order s =
            (.ok (ok "successful"), (createGroup gid uid s).2) := by
          rw [Operation.perform, done_run, hreturns]
          rfl
        rw [Operation.respond, hrun]
        change ¬ AllSeeded (log ++ []) _
        rwa [List.append_nil]
      | _ => exact absurd hover id
    · refine iff_of_true ?_ hover
      have hseeded := (performed order s op).allSeeded h hover
      rw [Operation.respond]
      cases answered op.handlers (op.perform order s).1 with
      | error e => trivial
      | ok res => exact hseeded

end Runs

/-- In a run of a process on any database, however SQLite takes the texts, every file that has been
shared with an OK stays listed with its seeder until the owner of the group leaves and takes the
group with him, if and only if no group is created that has such a file. -/
theorem shared_files_stay_iff (order : AssignOrder) (db : Database)
    (requests : List (Request × SockAddr)) :
    Machine.AllStates (serve order) SharesListed (System.settle (start db), []) requests ↔
      Machine.AllSteps (serve order) (fun p e => ¬ Overwrites p e) (System.settle (start db), [])
        requests := by
  have hstart : SharesListed (System.settle (start db), []) := by
    cases hsys : System.settle (start db) with
    | up s =>
      rintro uid gid fname ⟨past, d, later, hlog, -⟩
      simp at hlog
    | down db => trivial
  refine Machine.allStates_iff_allSteps (fun _ h => h) ?_ ?_ hstart requests
  · exact fun p e p' h hok hserve => (h.serve_iff hserve).mpr hok
  · exact fun p e p' h hbad hserve hgood => hbad ((h.serve_iff hserve).mp hgood)

theorem run_serve (order : AssignOrder) (p : System × List Share)
    (requests : List (Request × SockAddr)) :
    Machine.run (serve order) p requests =
      Machine.run (Machine.logged (System.step order) (shares order)) p
        (requests.map fun e => .request e.1 e.2) := by
  induction requests generalizing p with
  | nil => rfl
  | cons e requests ih =>
    rw [List.map_cons, Machine.run, Machine.run, serve]
    simp only [ih]

/-- A user joins a group that nobody has created, and shares a file there. Then the group is
created. -/
def creatingLate : List (Request × SockAddr) :=
  [(signingUp "bob" "pw", .new), (loggingIn "bob" "pw", .new),
    (posting "/join_group" [("Authorization", "bobpw"), ("Group-Id", "g")], .new),
    (sharing "bobpw" "g" "f" "7", .new), (signingUp "ann" "pw", .new), (loggingIn "ann" "pw", .new),
    (posting "/create_group" [("Authorization", "annpw"), ("Group-Id", "g")], .new)]

/-- His file is gone. -/
theorem shared_file_overwritten :
    ¬ Machine.AllStates (serve .rightFirst) SharesListed (System.settle (start ⟨.new, []⟩), [])
      creatingLate := by
  intro h
  obtain ⟨s, hrun, hcheck⟩ := System.exists_run .rightFirst []
    (creatingLate.map fun e => .request e.1 e.2)
    (fun s => (s.groups.find? (lit "g")).map Group.files = some ∅) (by decide +kernel)
  have hlog : Machine.log (System.step .rightFirst) (shares .rightFirst) (System.boot [])
      (creatingLate.map fun e => .request e.1 e.2) = [.shared (lit "bob") (lit "g") (lit "f")] := by
    decide +kernel
  have hserve : Machine.run (Machine.logged (System.step .rightFirst) (shares .rightFirst))
      (System.boot [], []) (creatingLate.map fun e => .request e.1 e.2) = some (.up s, _) :=
    Machine.run_logged [] hrun
  rw [hlog, ← run_serve] at hserve
  have hseeded : AllSeeded [.shared (lit "bob") (lit "g") (lit "f")] s.groups := h.last hserve
  obtain ⟨g, f, hg, hf, -⟩ := hseeded _ _ _ ⟨[], _, [], rfl, rfl, by simp⟩
  have hfiles := of_decide_eq_true hcheck
  rw [hg, Option.map_some, Option.some_inj] at hfiles
  rw [hfiles] at hf
  cases hf

end P2PFileSharing.Tracker
