import P2PFileSharing.Tracker.Membership
import P2PFileSharing.Tracker.PeerSets

/-!
# Where the peers are

Peers are listed with the number of the address that one map has for them. Requests about files
store the address of an upload server there, logins the one of their connection, and a logout takes
it away.
-/

namespace P2PFileSharing.Tracker

open Http Library

/-! ## What was sent -/

/-- The user with the number of his upload server, in a request about a file. -/
def Operation.brings : Operation → List (Str × Int)
  | shareFile uid _ _ serverAddr | peers uid _ _ serverAddr =>
    match stoll serverAddr with
    | .ok n => [(uid, n)]
    | .error _ => []
  | _ => []

/-- The numbers that were sent with requests that were answered OK. -/
def sent (order : AssignOrder) : System → Event → List (Str × Int) :=
  System.record order fun _ op => op.brings

def LastSent (id : Str) (n : Int) (log : List (Str × Int)) : Prop :=
  Since (fun d => d = (id, n)) (fun d => d.1 = id) log

instance (id : Str) (n : Int) (log : List (Str × Int)) : Decidable (LastSent id n log) :=
  inferInstanceAs (Decidable (Since (fun d => d = (id, n)) (fun d => d.1 = id) log))

/-- The answers to requests for the peers of a file pair each peer with what he has sent last. -/
def PeersAsSent (order : AssignOrder) : System × List (Str × Int) → Prop
  | (.up s, log) => ∀ req remoteAddr uid gid fname res,
      AboutFile s.tokenMap req uid gid → req.method = .GET →
        req.getHeader (lit "File-Name") = .ok fname →
          (callback order req remoteAddr s).1 = .ok res → res.status = .OK →
            ∃ f peers, s.sharedFile uid gid fname = some f ∧ res.body = peersText peers ∧
              peers.map Prod.fst = f.peersOf uid ∧ ∀ peer ∈ peers, LastSent peer.1 peer.2 log
  | (.down _, _) => True

/-! ## What goes wrong -/

/-- The user is listed with a file of some group. -/
def TakesPart (groups : OrdMap Str Group) (id : Str) : Prop :=
  ∃ e ∈ groups.entries, ∃ file ∈ e.2.files.entries, file.2.Lists id

instance (groups : OrdMap Str Group) (id : Str) : Decidable (TakesPart groups id) :=
  inferInstanceAs (Decidable (∃ e ∈ groups.entries, ∃ file ∈ e.2.files.entries, file.2.Lists id))

instance (passwd : Str) (rows : List Row) : Decidable (WrongPassword passwd rows) :=
  inferInstanceAs (Decidable (∀ row ∈ rows.head?, row.2 ≠ passwd))

/-- SQLite finds the user with this password, and has a token of his or stores a new one. -/
def accepts (s : Tracker) (uid passwd : Str) : Bool :=
  match s.db.reply 0 (.getUser uid) s.db.tables with
  | (.error _, _) => false
  | (.ok rows, tables) =>
    if WrongPassword passwd rows then false
    else
      match s.db.reply 1 (.getToken uid) tables with
      | (.ok (_ :: _), _) => true
      | (_, tables') => (s.db.reply 2 (.insertToken (generateToken uid passwd) uid) tables').1.isOk

/-- The user is listed, or becomes so, with a number that is not the one that he has sent last: he
logs in from somewhere else, or logs out, or is listed without an OK for what he sends. -/
def Operation.Misplaces (log : List (Str × Int)) (s : Tracker) : Operation → Prop
  | login uid passwd remoteAddr => s.accepts uid passwd = true ∧ TakesPart s.groups uid ∧
      ¬ LastSent uid remoteAddr.uid log
  | logout token => TakesPart s.groups (tokentToUserid s.tokenMap token) ∧
      ¬ LastSent (tokentToUserid s.tokenMap token) 0 log
  | shareFile uid gid fname serverAddr => (stoll serverAddr).toOption = none ∧
      (∃ g ∈ s.groups.find? gid, uid ∈ g.members ∧ fname ∉ g.files) ∧
        ¬ LastSent uid (number s.address uid) log
  | peers uid gid fname serverAddr => (∃ n ∈ (stoll serverAddr).toOption, ¬ LastSent uid n log) ∧
      (s.sharedFile uid gid fname = none ∧ TakesPart s.groups uid ∨
        ∃ f ∈ s.sharedFile uid gid fname, f.peersOf uid = [])
  | _ => False

instance (log : List (Str × Int)) (s : Tracker) : (op : Operation) → Decidable (op.Misplaces log s)
  | .login .. => inferInstanceAs (Decidable (_ ∧ _ ∧ _))
  | .logout _ => inferInstanceAs (Decidable (_ ∧ _))
  | .shareFile .. => inferInstanceAs (Decidable (_ ∧ _ ∧ _))
  | .peers .. => inferInstanceAs (Decidable (_ ∧ _))
  | .signup .. | .createGroup .. | .joinGroup .. | .leaveGroup .. =>
    inferInstanceAs (Decidable False)

def Misplaces : System × List (Str × Int) → Event → Prop
  | (.up s, log), .request req remoteAddr =>
    ∃ op ∈ (classify s.tokenMap req remoteAddr).toOption, op.Misplaces log s
  | _, _ => False

instance : (p : System × List (Str × Int)) → (event : Event) → Decidable (Misplaces p event)
  | (.up _, _), .request .. => inferInstanceAs (Decidable (∃ _ ∈ _, _))
  | (.up _, _), .restart => inferInstanceAs (Decidable False)
  | (.down _, _), _ => inferInstanceAs (Decidable False)

section TakesPart

variable {groups : OrdMap Str Group} {g : Group} {gid fname id : Str}

theorem takesPart_iff : TakesPart groups id ↔ ∃ gid g fname f, groups.find? gid = some g ∧
    g.files.find? fname = some f ∧ f.Lists id := by
  constructor
  · rintro ⟨⟨gid, g⟩, hg, ⟨fname, f⟩, hf, hlists⟩
    exact ⟨gid, g, fname, f, OrdMap.mem_entries.mp hg, OrdMap.mem_entries.mp hf, hlists⟩
  · rintro ⟨gid, g, fname, f, hg, hf, hlists⟩
    exact ⟨(gid, g), OrdMap.mem_entries.mpr hg, (fname, f), OrdMap.mem_entries.mpr hf, hlists⟩

/-- Whoever takes part with a group that is replaced took part before, or is in the new one. -/
theorem TakesPart.of_insert (h : TakesPart (groups.insert gid g) id) :
    TakesPart groups id ∨ ∃ fname f, g.files.find? fname = some f ∧ f.Lists id := by
  obtain ⟨gid', g', fname, f, hg, hf, hlists⟩ := takesPart_iff.mp h
  rw [OrdMap.find?_insert] at hg
  split at hg
  · cases hg
    exact .inr ⟨fname, f, hf, hlists⟩
  · exact .inl (takesPart_iff.mpr ⟨gid', g', fname, f, hg, hf, hlists⟩)

theorem TakesPart.of_erase (h : TakesPart (groups.erase gid) id) : TakesPart groups id := by
  obtain ⟨gid', g', fname, f, hg, hf, hlists⟩ := takesPart_iff.mp h
  rw [OrdMap.find?_erase] at hg
  split at hg
  · cases hg
  · exact takesPart_iff.mpr ⟨gid', g', fname, f, hg, hf, hlists⟩

theorem takesPart_subscript {f : File} (hf : (subscript groups gid).files.find? fname = some f)
    (hlists : f.Lists id) : TakesPart groups id := by
  rw [subscript] at hf
  cases hg : groups.find? gid with
  | none =>
    rw [hg] at hf
    cases hf
  | some g =>
    rw [hg] at hf
    exact takesPart_iff.mpr ⟨gid, g, fname, f, hg, hf, hlists⟩

/-- The files of a group that is replaced with the same files. -/
theorem TakesPart.of_files (h : TakesPart (groups.insert gid g) id)
    (hfiles : g.files = (subscript groups gid).files) : TakesPart groups id := by
  rcases h.of_insert with h | ⟨fname, f, hf, hlists⟩
  · exact h
  · rw [hfiles] at hf
    exact takesPart_subscript hf hlists

theorem TakesPart.of_withFile {c : Contents} {f : File → File}
    (h : TakesPart (c.withFile gid fname f).groups id) :
    TakesPart c.groups id ∨ (f (subscript (subscript c.groups gid).files fname)).Lists id := by
  rcases TakesPart.of_insert h with h | ⟨fname', f', hf, hlists⟩
  · exact .inl h
  · change ((subscript c.groups gid).files.insert fname _).find? fname' = some f' at hf
    rw [OrdMap.find?_insert] at hf
    split at hf
    · cases hf
      exact .inr hlists
    · exact .inl (takesPart_subscript hf hlists)

end TakesPart

/-! ## One operation -/

/-- Everybody who is listed with a file has the number that he has sent last. -/
def Placed (log : List (Str × Int)) (c : Contents) : Prop :=
  ∀ id, TakesPart c.groups id → LastSent id (number c.address id) log

section Operations

variable {order : AssignOrder} {s : Tracker} {log : List (Str × Int)} {c c' : Contents}
  {uid gid fname serverAddr : Str}

/-- A login that returns a token is one that is accepted. -/
theorem Login.accepts_iff {passwd : Str} {r : Except ExnClass Str} (h : Login s uid passwd r c) :
    s.accepts uid passwd = true ↔ ∃ token, r = .ok token := by
  have noToken {tables : Tables} (hno : s.NoToken uid passwd tables) : s.accepts uid passwd =
      (s.db.reply 2 (.insertToken (generateToken uid passwd) uid) tables).1.isOk := by
    obtain ⟨rows, tables0, h0, hrows, h1⟩ := hno
    rcases h1 with ⟨e, h1⟩ | h1 <;> simp [accepts, h0, hrows, h1]
  cases h with
  | userFails h0 => simp [accepts, h0]
  | refused h0 hrows => simp [accepts, h0, hrows]
  | found h0 hrows h1 => simp [accepts, h0, hrows, h1]
  | tokenFails hno h2 => simp [noToken hno, h2, Except.isOk, Except.toBool]
  | issued hno h2 => simp [noToken hno, h2, Except.isOk, Except.toBool]

theorem Placed.same (h : Placed log c) (haddress : ∀ id, number c'.address id = number c.address id)
    (hgroups : ∀ id, TakesPart c'.groups id → TakesPart c.groups id) : Placed log c' := by
  intro id hid
  rw [haddress]
  exact h id (hgroups id hid)

/-- Only one user has another number now, or is listed anew. -/
theorem Placed.moved (h : Placed log c) (uid : Str) (n : Int)
    (haddress : ∀ id, number c'.address id = if id = uid then n else number c.address id)
    (hgroups : ∀ id, TakesPart c'.groups id → TakesPart c.groups id ∨ id = uid)
    (huid : TakesPart c'.groups uid → LastSent uid n log) : Placed log c' := by
  intro id hid
  rw [haddress]
  split
  · rename_i heq
    rw [heq] at hid ⊢
    exact huid hid
  · rename_i hne
    exact h id ((hgroups id hid).resolve_right hne)

/-- He has the number that he has just sent. -/
theorem Placed.announced (h : Placed log c) (uid : Str) (n : Int)
    (haddress : ∀ id, number c'.address id = if id = uid then n else number c.address id)
    (hgroups : ∀ id, TakesPart c'.groups id → TakesPart c.groups id ∨ id = uid) :
    Placed (log ++ [(uid, n)]) c' := by
  intro id hid
  rw [haddress]
  split
  · rename_i heq
    rw [heq]
    exact since_snoc rfl
  · rename_i hne
    apply (h id ((hgroups id hid).resolve_right hne)).append
    intro d hd
    rw [List.mem_singleton.mp hd]
    exact Ne.symm hne

theorem number_addressUnread (order : AssignOrder) (s : Tracker) (uid id : Str) :
    number (addressUnread order s uid) id = number s.address id := by
  cases order with
  | leftFirst => exact number_insert_subscript s.address uid id
  | rightFirst => rfl

theorem ShareFile.placed {r : Except ExnClass Response}
    (h : ShareFile order s uid gid fname serverAddr r c) (hs : Placed log s.contents)
    (hop : ¬ (Operation.shareFile uid gid fname serverAddr).Misplaces log s) :
    Placed (log ++ if isOk r then (Operation.shareFile uid gid fname serverAddr).brings else [])
      c := by
  have hgroups {id : Str} (hid : TakesPart (s.contents.withFile gid fname
      fun _ => ⟨OrdSet.add ∅ uid, ∅, fname, gid⟩).groups id) :
      TakesPart s.groups id ∨ id = uid := by
    rcases hid.of_withFile with hid | hlists | hseeds
    · exact .inl hid
    · exact absurd hlists (OrdMap.notMem_empty id)
    · exact .inr (by simpa using hseeds)
  have failed {e : ExnClass} {c : Contents} (hc : Placed log c) : Placed
      (log ++ if isOk (.error e) then (Operation.shareFile uid gid fname serverAddr).brings else [])
      c := by
    change Placed (log ++ []) c
    rwa [List.append_nil]
  cases h with
  | noMember hno => exact failed hs
  | conflict hg hu hf => exact failed hs
  | @badNumber g e hg hu hf hn =>
    have hlast : LastSent uid (number s.address uid) log := by
      by_contra hlast
      exact hop ⟨by rw [hn]; rfl, ⟨g, hg, hu, hf⟩, hlast⟩
    apply failed
    apply hs.moved uid (number s.address uid)
    · intro id
      change number (addressUnread order s uid) id = _
      rw [number_addressUnread]
      split
      · rename_i heq
        rw [heq]
      · rfl
    · exact fun id => hgroups
    · exact fun _ => hlast
  | @shared g n hg hu hf hn =>
    have hbrings : (Operation.shareFile uid gid fname serverAddr).brings = [(uid, n)] := by
      simp [Operation.brings, hn]
    rw [hbrings]
    apply hs.announced uid n
    · exact number_insert s.address uid (SockAddr.ofUid n)
    · exact fun id => hgroups

/-- Only the user himself takes part anew when he is put among the leechers of a file. -/
theorem TakesPart.of_leecher {g : Group} {f : File} (hg : c.groups.find? gid = some g)
    (hf : g.files.find? fname = some f) {id : Str} (hid : TakesPart (c.withFile gid fname
      fun f' => { f' with leechers := f.leechers.add uid }).groups id) :
    TakesPart c.groups id ∨ id = uid := by
  rcases hid.of_withFile with hid | hleeches | hseeds
  · exact .inl hid
  · rcases (OrdSet.mem_add _ _ _).mp hleeches with rfl | hleeches
    · exact .inr rfl
    · exact .inl (takesPart_iff.mpr ⟨gid, g, fname, f, hg, hf, .inl hleeches⟩)
  · change id ∈ (subscript (subscript c.groups gid).files fname).seeders at hseeds
    rw [subscript_of_find? hg, subscript_of_find? hf] at hseeds
    exact .inl (takesPart_iff.mpr ⟨gid, g, fname, f, hg, hf, .inr hseeds⟩)

theorem Peers.placed {r : Except ExnClass Response} (h : Peers order s uid gid fname serverAddr r c)
    (hs : Placed log s.contents)
    (hop : ¬ (Operation.peers uid gid fname serverAddr).Misplaces log s)
    (hnumber : ∀ n, stoll serverAddr = .ok n →
      ∀ id, number c.address id = if id = uid then n else number s.address id) :
    Placed (log ++ if isOk r then (Operation.peers uid gid fname serverAddr).brings else []) c := by
  have unanswered {n : Int} (hn : stoll serverAddr = .ok n)
      (hwhy : s.sharedFile uid gid fname = none ∧ TakesPart s.groups uid ∨
        ∃ f ∈ s.sharedFile uid gid fname, f.peersOf uid = []) : LastSent uid n log := by
    by_contra hlast
    exact hop ⟨⟨n, by rw [hn]; rfl, hlast⟩, hwhy⟩
  have failed {r : Except ExnClass Response} (hr : isOk r = false) {c : Contents}
      (hc : Placed log c) : Placed
        (log ++ if isOk r then (Operation.peers uid gid fname serverAddr).brings else []) c := by
    rwa [hr, if_neg Bool.false_ne_true, List.append_nil]
  cases h with
  | badNumber hn =>
    apply failed rfl
    exact hs.same (number_addressUnread order s uid) fun id hid => hid
  | @noMember n hn hno =>
    apply failed rfl
    apply hs.moved uid n (hnumber n hn)
    · exact fun id hid => .inl hid
    · exact fun hid => unanswered hn (.inl ⟨sharedFile_of_not_isMember hno, hid⟩)
  | @noFile n g hn hg hu hf =>
    have hnone : s.sharedFile uid gid fname = none :=
      (sharedFile_of_find? hg hu).trans (OrdMap.notMem_iff.mp hf)
    apply failed rfl
    apply hs.moved uid n (hnumber n hn)
    · exact fun id hid => .inl hid
    · exact fun hid => unanswered hn (.inl ⟨hnone, hid⟩)
  | @alone n g f hn hg hu hf halone =>
    have hfile : s.sharedFile uid gid fname = some f := (sharedFile_of_find? hg hu).trans hf
    apply failed rfl
    apply hs.moved uid n (hnumber n hn)
    · exact fun id => TakesPart.of_leecher (c := s.contents) hg hf
    · exact fun _ => unanswered hn (.inr ⟨f, hfile, peersOf_eq_nil.mpr halone⟩)
  | @listed n g f peers address hn hg hu hf hother =>
    have hbrings : (Operation.peers uid gid fname serverAddr).brings = [(uid, n)] := by
      simp [Operation.brings, hn]
    rw [hbrings]
    apply hs.announced uid n (hnumber n hn)
    exact fun id => TakesPart.of_leecher (c := s.contents) hg hf

theorem Login.placed {passwd token : Str} {remoteAddr : SockAddr}
    (h : Login s uid passwd (.ok token) c) (hs : Placed log s.contents)
    (hop : ¬ (Operation.login uid passwd remoteAddr).Misplaces log s) :
    Placed log { c with address := c.address.insert uid remoteAddr } := by
  have hgroups : c.groups = s.groups := by cases h <;> rfl
  have haddress : c.address = s.address := by cases h <;> rfl
  apply hs.moved uid remoteAddr.uid
  · intro id
    rw [number_insert, haddress]
    rfl
  · intro id hid
    rw [hgroups] at hid
    exact .inl hid
  · intro hid
    rw [hgroups] at hid
    by_contra hlast
    exact hop ⟨h.accepts_iff.mpr ⟨token, rfl⟩, hid, hlast⟩

theorem CreateGroup.placed {r : Except ExnClass Unit} (h : CreateGroup s gid uid r c)
    (hs : Placed log s.contents) : Placed log c := by
  cases h with
  | groupFails h0 => exact hs
  | memberFails h0 h1 => exact hs
  | created h0 h1 =>
    refine hs.same (fun id => rfl) ?_
    intro id hid
    apply hid.of_insert.resolve_right
    rintro ⟨fname, f, hf, -⟩
    cases hf

theorem LeaveGroup.placed {r : Except ExnClass Unit} (h : LeaveGroup s uid gid r c)
    (hs : Placed log s.contents) : Placed log c := by
  have hleft (tables : Tables) : Placed log (s.left uid gid tables) :=
    hs.same (fun id => rfl) fun id hid => hid.of_files rfl
  cases h with
  | memberFails h0 => exact hs
  | left h0 howner => exact hleft _
  | membersFail h0 howner h1 => exact hleft _
  | groupFails h0 howner h1 h2 => exact hleft _
  | deleted h0 howner h1 h2 => exact (hleft _).same (fun id => rfl) fun id hid => hid.of_erase

theorem perform_placed (order : AssignOrder) (op : Operation) (hs : Placed log s.contents)
    (hop : ¬ op.Misplaces log s) :
    Placed (log ++ if isOk (op.perform order s).1 then op.brings else [])
      (op.perform order s).2.contents := by
  have silent {op : Operation} {r : Except ExnClass Response} {c : Contents} (hop : op.brings = [])
      (hc : Placed log c) : Placed (log ++ if isOk r then op.brings else []) c := by
    rwa [hop, ite_self, List.append_nil]
  have hnumber : ∀ uid gid fname serverAddr n, op = .peers uid gid fname serverAddr →
      stoll serverAddr = .ok n → ∀ id, number (op.perform order s).2.contents.address id =
        if id = uid then n else number s.address id := by
    rintro uid gid fname serverAddr n rfl hn
    exact (peers_listing order s hn).1
  have h := performed order s op
  generalize (op.perform order s).1 = r at h ⊢
  generalize (op.perform order s).2.contents = c at h hnumber ⊢
  cases h with
  | signup h =>
    apply silent rfl
    cases h <;> exact hs
  | loginFails h =>
    apply silent rfl
    cases h <;> exact hs
  | loggedIn h => exact silent rfl (h.placed hs hop)
  | @logout token =>
    apply silent rfl
    apply hs.moved (tokentToUserid s.tokenMap token) 0 (number_erase _ _)
    · exact fun id hid => .inl hid
    · intro hid
      by_contra hlast
      exact hop ⟨hid, hlast⟩
  | createGroup h => exact silent rfl (h.placed hs)
  | joinGroup h =>
    apply silent rfl
    cases h with
    | fails h0 => exact hs
    | done h0 => exact hs.same (fun id => rfl) fun id hid => hid.of_files rfl
  | leaveGroup h => exact silent rfl (h.placed hs)
  | shareFile h => exact h.placed hs hop
  | peers h => exact h.placed hs hop fun n hn => hnumber _ _ _ _ n rfl hn

end Operations

/-! ## Runs -/

section Runs

variable {order : AssignOrder} {p p' : System × List (Str × Int)} {event : Event}

def System.Placed (p : System × List (Str × Int)) : Prop :=
  p.1.Holds (Tracker.Placed p.2) fun _ => True

/-- A new process lists nobody. -/
theorem placed_start (db : Database) (log : List (Str × Int)) :
    System.Placed (System.settle (start db), log) := by
  have hfiles := noFiles_start db
  apply System.holds_settle _ trivial
  intro id hid
  obtain ⟨gid, g, fname, f, hg, hf, -⟩ := takesPart_iff.mp hid
  rw [hfiles gid g hg] at hf
  cases hf

theorem System.Placed.step (h : System.Placed p) (hok : ¬ Misplaces p event)
    (hstep : Machine.logged (System.step order) (sent order) p event = some p') :
    System.Placed p' := by
  obtain ⟨sys, log⟩ := p
  obtain ⟨sys', log'⟩ := p'
  obtain ⟨hstep, rfl⟩ := Machine.logged_eq_some.mp hstep
  dsimp only at hstep ⊢
  cases System.step_cases hstep with
  | refused hc =>
    rw [sent, System.record_refused hc, List.append_nil]
    exact h
  | @performed s req remoteAddr op hc =>
    rw [sent, System.record_performed hc]
    have hop : ¬ op.Misplaces log s := fun hop => hok ⟨op, by rw [hc]; rfl, hop⟩
    exact System.holds_settle (perform_placed order op h hop) trivial
  | started => exact placed_start _ _

/-- Whoever is placed is listed with what he has sent last. -/
theorem System.Placed.peersAsSent (h : System.Placed p) : PeersAsSent order p := by
  obtain ⟨s | db, log⟩ := p
  · intro req remoteAddr uid gid fname res hreq hget hfname hres hok
    obtain ⟨op, hc, hperform⟩ := exists_perform_of_ok hres hok
    obtain ⟨fname', serverAddr, hfname', ⟨hpost, -⟩ | ⟨-, rfl⟩⟩ := hreq.operation hc
    · rw [hget] at hpost
      cases hpost
    obtain rfl : fname' = fname := Except.ok.inj (hfname'.symm.trans hfname)
    obtain ⟨f, hf, -, hbody⟩ := peers_answered hperform hok
    refine ⟨f, (f.peersOf uid).map fun id => (id, number s.address id), hf, hbody, ?_, ?_⟩
    · rw [List.map_map]
      exact List.map_id _
    · intro peer hpeer
      obtain ⟨id, hid, rfl⟩ := List.mem_map.mp hpeer
      apply h id
      obtain ⟨g, hg, hfile⟩ := Option.bind_eq_some_iff.mp hf
      split at hfile
      · exact takesPart_iff.mpr ⟨gid, g, fname', f, hg, hfile, (mem_peersOf.mp hid).1⟩
      · cases hfile
  · trivial

end Runs

/-- A user who shares a file at number 7, and a second member of his group. -/
def twoMembers : List Event :=
  founding ++ [.request (sharing "annpw" "g" "f" "7") .new,
    .request (signingUp "bob" "pw") .new, .request (loggingIn "bob" "pw") .new,
    .request (posting "/join_group" [("Authorization", "bobpw"), ("Group-Id", "g")]) .new]

def askingPeers (token gid fname serverAddr : String) : Request :=
  { sharing token gid fname serverAddr with method := .GET, resource := lit "/peers" }

def loggingInElsewhere : List Event :=
  twoMembers ++ [.request (loggingIn "ann" "pw") (SockAddr.ofUid 9)]

end P2PFileSharing.Tracker
