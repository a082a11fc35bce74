import P2PFileSharing.Tracker.Outcome

/-!
# The list of the peers

The text that `/peers` answers with names everybody else who is listed with the file, with the
number of his address. Making the list leaves every number as it is: a peer without an address is
given the default one, which he was read with before.
-/

namespace P2PFileSharing.Tracker

open Http Library

/-- The number that is read for a user. -/
def number (address : OrdMap Str SockAddr) (id : Str) : Int := (subscript address id).uid

def peerText (peer : Str × Int) : Str :=
  lit ",\x7b" ++ peer.1 ++ lit ":" ++ intToDecimal peer.2 ++ lit "\x7d"

/-- The comma before the first peer is cut off. -/
def peersText (peers : List (Str × Int)) : Str :=
  lit "[" ++ (peers.flatMap peerText).drop 1 ++ lit "]"

def File.Lists (f : File) (id : Str) : Prop := id ∈ f.leechers ∨ id ∈ f.seeders

instance (f : File) (id : Str) : Decidable (f.Lists id) :=
  inferInstanceAs (Decidable (id ∈ f.leechers ∨ id ∈ f.seeders))

/-- Those who are listed to the user, as soon as he is a leecher himself. -/
def File.peersOf (f : File) (uid : Str) : List Str :=
  ((f.leechers.add uid).toList ++ f.seeders.toList).filter (fun id => id ≠ uid)

/-- The file, if the user is a member of its group. -/
def sharedFile (s : Tracker) (uid gid fname : Str) : Option File :=
  (s.groups.find? gid).bind fun g => if uid ∈ g.members then g.files.find? fname else none

section Listing

variable {s : Tracker} {uid gid fname id : Str} {f : File} {g : Group}
  {address : OrdMap Str SockAddr}

@[simp] theorem number_insert (address : OrdMap Str SockAddr) (uid : Str) (addr : SockAddr)
    (id : Str) :
    number (address.insert uid addr) id = if id = uid then addr.uid else number address id := by
  rw [number, subscript, OrdMap.find?_insert]
  split <;> rfl

@[simp] theorem number_erase (address : OrdMap Str SockAddr) (uid id : Str) :
    number (address.erase uid) id = if id = uid then 0 else number address id := by
  rw [number, subscript, OrdMap.find?_erase]
  split <;> rfl

/-- Inserting what is read changes nothing that is read. -/
theorem number_insert_subscript (address : OrdMap Str SockAddr) (uid id : Str) :
    number (address.insert uid (subscript address uid)) id = number address id := by
  rw [number_insert]
  split
  · rename_i hid
    rw [hid, number]
  · rfl

theorem mem_peersOf : id ∈ f.peersOf uid ↔ f.Lists id ∧ id ≠ uid := by
  simp only [File.peersOf, File.Lists, List.mem_filter, List.mem_append, OrdSet.mem_toList,
    OrdSet.mem_add, decide_eq_true_eq]
  tauto

theorem peersOf_eq_nil : f.peersOf uid = [] ↔ Alone f uid := by
  rw [List.eq_nil_iff_forall_not_mem]
  simp only [mem_peersOf, File.Lists, Alone, not_and, not_not]

theorem sharedFile_of_find? (hg : s.groups.find? gid = some g) (hu : uid ∈ g.members) :
    s.sharedFile uid gid fname = g.files.find? fname := by
  rw [sharedFile, hg, Option.bind_some, if_pos hu]

theorem sharedFile_of_not_isMember (h : ¬ s.IsMember uid gid) :
    s.sharedFile uid gid fname = none := by
  rw [sharedFile]
  cases hg : s.groups.find? gid with
  | none => rfl
  | some g =>
    rw [Option.bind_some, if_neg]
    exact fun hu => h ⟨g, hg, hu⟩

theorem listPeers_run (uid : Str) (ids : List Str) (members : Str) (s : Tracker) :
    ∃ address, (∀ id, number address id = number s.address id) ∧
      listPeers uid ids members s = (.ok (members ++ ((ids.filter (fun id => id ≠ uid)).map
        (fun id => (id, number s.address id))).flatMap peerText), { s with address }) := by
  induction ids generalizing members s with
  | nil => exact ⟨s.address, fun _ => rfl, by simp [listPeers]⟩
  | cons id ids ih =>
    by_cases hid : id = uid
    · obtain ⟨address, hnumber, hrun⟩ := ih members s
      refine ⟨address, hnumber, ?_⟩
      rw [listPeers, if_pos hid, hrun, List.filter_cons_of_neg (by simpa using hid)]
    · set t := s.withAddress id (subscript s.address id) with ht
      have hsame (id' : Str) : number t.address id' = number s.address id' :=
        number_insert_subscript s.address id id'
      obtain ⟨address, hnumber, hrun⟩ := ih (members ++ peerText (id, number s.address id)) t
      refine ⟨address, fun id' => (hnumber id').trans (hsame id'), ?_⟩
      rw [listPeers, if_neg hid, Action.get_bind_run, Action.modify_bind_run]
      have htext : members ++ lit ",\x7b" ++ id ++ lit ":" ++
          intToDecimal (subscript s.address id).uid ++ lit "\x7d" =
            members ++ peerText (id, number s.address id) := by
        simp only [peerText, number, List.append_assoc]
      rw [htext, hrun, List.filter_cons_of_pos (by simpa using hid), List.map_cons,
        List.flatMap_cons, List.append_assoc]
      simp only [hsame]
      rfl

/-- `get_peers` leaves the numbers, and lists the peers with them. -/
theorem getPeers_listing (s : Tracker) (uid gid fname : Str) :
    (∀ id, number (getPeers uid gid fname s).2.address id = number s.address id) ∧
      ∀ peers, (getPeers uid gid fname s).1 = .ok peers →
        ∃ f, s.sharedFile uid gid fname = some f ∧ f.peersOf uid ≠ [] ∧
          peers = peersText ((f.peersOf uid).map fun id => (id, number s.address id)) := by
  rcases findGroup_cases s uid gid with ⟨-, hfind⟩ | ⟨g, hg, hu, hfind⟩
  · rw [getPeers, Action.bind_of_error hfind]
    exact ⟨fun _ => rfl, fun peers hpeers => by cases hpeers⟩
  · rw [getPeers, Action.bind_of_ok hfind]
    cases hf : g.files.find? fname with
    | none => exact ⟨fun _ => rfl, fun peers hpeers => by cases hpeers⟩
    | some f =>
      dsimp only
      rw [Action.modify_bind_run]
      obtain ⟨address, hnumber, hrun⟩ := listPeers_run uid
        ((f.leechers.add uid).toList ++ f.seeders.toList) []
        (s.withFile gid fname fun f' => { f' with leechers := f.leechers.add uid })
      rw [Action.bind_of_ok hrun, List.nil_append]
      split
      · exact ⟨hnumber, fun peers hpeers => by cases hpeers⟩
      · rename_i hmembers
        refine ⟨hnumber, ?_⟩
        rintro peers ⟨⟩
        refine ⟨f, (sharedFile_of_find? hg hu).trans hf, ?_, rfl⟩
        intro hnil
        rw [File.peersOf] at hnil
        rw [hnil] at hmembers
        exact hmembers rfl

/-- The address that a request for the peers brings is the only one that changes. -/
theorem peers_listing (order : AssignOrder) (s : Tracker) {serverAddr : Str} {n : Int}
    (hn : stoll serverAddr = .ok n) :
    (∀ id, number ((Operation.peers uid gid fname serverAddr).perform order s).2.address id =
        if id = uid then n else number s.address id) ∧
      ∀ res, ((Operation.peers uid gid fname serverAddr).perform order s).1 = .ok res →
        res.status = .OK → ∃ f, s.sharedFile uid gid fname = some f ∧ f.peersOf uid ≠ [] ∧
          res.body = peersText ((f.peersOf uid).map fun id => (id, number s.address id)) := by
  rw [Operation.perform]
  rcases setAddress_cases order s uid serverAddr with ⟨e, he, -⟩ | ⟨m, hm, hset⟩
  · rw [hn] at he
    cases he
  obtain rfl : n = m := Except.ok.inj (hn.symm.trans hm)
  rw [Action.bind_of_ok hset]
  set t := s.withAddress uid (SockAddr.ofUid n) with ht
  have hsame (id : Str) : number t.address id = if id = uid then n else number s.address id :=
    number_insert s.address uid (SockAddr.ofUid n) id
  obtain ⟨hnumber, hlist⟩ := getPeers_listing t uid gid fname
  rcases hrun : getPeers uid gid fname t with ⟨e | peers, u⟩
  · rw [hrun] at hnumber
    have hout :=
      Action.bind_of_error (f := fun peers => (pure (listing peers) : TrackerM Response)) hrun
    cases hhandler : handlerFor [(ExnClass.invalidGidException, Response.new .FORBIDDEN
        (lit "user not part of group or no such group"))] e with
    | none =>
      rw [Action.catching_of_unmatched hout (answers_of_none hhandler)]
      exact ⟨fun id => (hnumber id).trans (hsame id), fun res hres => by cases hres⟩
    | some res' =>
      rw [Action.catching_of_error hout (answers_of_some hhandler)]
      refine ⟨fun id => (hnumber id).trans (hsame id), ?_⟩
      rintro res ⟨⟩ hok
      obtain ⟨c, hc, -⟩ := exists_of_handlerFor hhandler
      cases List.mem_singleton.mp hc
      exact absurd hok (by decide)
  · rw [hrun] at hnumber
    have hout :=
      Action.bind_of_ok (f := fun peers => (pure (listing peers) : TrackerM Response)) hrun
    rw [Action.catching_of_ok hout]
    refine ⟨fun id => (hnumber id).trans (hsame id), ?_⟩
    rintro res ⟨⟩ -
    obtain ⟨f, hf, hother, rfl⟩ := hlist peers (by rw [hrun])
    refine ⟨f, hf, hother, ?_⟩
    have hpeers : ((f.peersOf uid).map fun id => (id, number t.address id)) =
        (f.peersOf uid).map fun id => (id, number s.address id) := by
      apply List.map_congr_left
      intro id hid
      rw [hsame, if_neg (mem_peersOf.mp hid).2]
    rw [hpeers]
    rfl

/-- An answer with OK lists the peers of the file. -/
theorem peers_answered {order : AssignOrder} {serverAddr : Str} {res : Response}
    (hres : ((Operation.peers uid gid fname serverAddr).perform order s).1 = .ok res)
    (hok : res.status = .OK) : ∃ f, s.sharedFile uid gid fname = some f ∧ f.peersOf uid ≠ [] ∧
      res.body = peersText ((f.peersOf uid).map fun id => (id, number s.address id)) := by
  rcases setAddress_cases order s uid serverAddr with ⟨e, -, hset⟩ | ⟨n, hn, -⟩
  · rw [Operation.perform, Action.bind_of_error hset] at hres
    cases hres
  · exact (peers_listing order s hn).2 res hres hok

end Listing

end P2PFileSharing.Tracker
