import P2PFileSharing.Tracker.Addresses
import P2PFileSharing.Tracker.PeerSets

/-!
# Each peer once

`get_peers` lists the leechers of a file and then its seeders. A user can be both, since a member
who asks for the peers of a file becomes a leecher of it, also when he has shared it himself.
-/

namespace P2PFileSharing.Tracker

open Http Library

/-- `get_peers` names everybody who is listed with the file, apart from the user himself, exactly
once, and then the user is a leecher. -/
def ListsEachOnce (s : Tracker) (uid gid fname : Str) (f : File) : Prop :=
  (∃ ids : List Str, ids.Nodup ∧ (∀ id, id ∈ ids ↔ f.Lists id ∧ id ≠ uid) ∧
    (getPeers uid gid fname s).1 = .ok (peersText (ids.map fun id => (id, number s.address id)))) ∧
  ∃ f', (getPeers uid gid fname s).2.sharedFile uid gid fname = some f' ∧ uid ∈ f'.leechers

variable {s : Tracker} {uid gid fname : Str} {f : File}

/-! ## Repeated names make a text longer -/

/-- A list that is written no longer than a list of some of its elements has no others. -/
theorem perm_of_length_flatMap_le {α β : Type*} {p : α → List β} (hp : ∀ a, p a ≠ [])
    {xs ys : List α} (hys : ys.Nodup) (hsub : ys ⊆ xs)
    (hlen : (xs.flatMap p).length ≤ (ys.flatMap p).length) : xs.Perm ys := by
  obtain ⟨ys', hperm, hsublist⟩ := hys.subperm hsub
  obtain ⟨rest, hrest⟩ := hsublist.exists_perm_append
  have hxs : (xs.flatMap p).length = (ys'.flatMap p).length + (rest.flatMap p).length := by
    rw [(hrest.flatMap_right p).length_eq, List.flatMap_append, List.length_append]
  have hys' : (ys'.flatMap p).length = (ys.flatMap p).length :=
    (hperm.flatMap_right p).length_eq
  have hnil : rest.flatMap p = [] := List.eq_nil_of_length_eq_zero (by omega)
  have hempty : rest = [] := by
    rw [List.flatMap_eq_nil_iff] at hnil
    exact List.eq_nil_iff_forall_not_mem.mpr fun a ha => hp a (hnil a ha)
  rw [hempty, List.append_nil] at hrest
  exact hrest.trans hperm

theorem peerText_ne_nil (peer : Str × Int) : peerText peer ≠ [] := by
  simp [peerText, lit]

theorem length_peersText (peers : List (Str × Int)) :
    (peersText peers).length = (peers.flatMap peerText).length - 1 + 2 := by
  have hopen : (lit "[").length = 1 := rfl
  have hclose : (lit "]").length = 1 := rfl
  rw [peersText, List.length_append, List.length_append, List.length_drop, hopen, hclose]
  omega

/-- The text tells whether a name is repeated. -/
theorem perm_of_peersText_eq {address : OrdMap Str SockAddr} {xs ys : List Str} (hxs : xs ≠ [])
    (hys : ys.Nodup) (hmem : ∀ id, id ∈ ys ↔ id ∈ xs)
    (htext : peersText (xs.map fun id => (id, number address id)) =
      peersText (ys.map fun id => (id, number address id))) : xs.Perm ys := by
  set p : Str → Str := fun id => peerText (id, number address id) with hp
  have hflat (zs : List Str) : (zs.map fun id => (id, number address id)).flatMap peerText =
      zs.flatMap p := by rw [List.flatMap_map]
  have hpos {zs : List Str} (hzs : zs ≠ []) : 0 < (zs.flatMap p).length := by
    obtain ⟨z, hz⟩ := List.exists_mem_of_ne_nil zs hzs
    rw [List.length_pos_iff, ne_eq, List.flatMap_eq_nil_iff]
    exact fun h => peerText_ne_nil _ (h z hz)
  have hys' : ys ≠ [] := by
    obtain ⟨x, hx⟩ := List.exists_mem_of_ne_nil xs hxs
    exact List.ne_nil_of_mem ((hmem x).mpr hx)
  have hlen := congrArg List.length htext
  rw [length_peersText, length_peersText, hflat, hflat] at hlen
  have hxpos := hpos hxs
  have hypos := hpos hys'
  have hle : (xs.flatMap p).length ≤ (ys.flatMap p).length := by omega
  exact perm_of_length_flatMap_le (fun id => peerText_ne_nil _) hys (fun id => (hmem id).mp) hle

/-! ## Who is named, and how often -/

/-- Nobody is named twice when nobody else is both a seeder and a leecher. -/
theorem nodup_peersOf : (f.peersOf uid).Nodup ↔
    ∀ id, id ≠ uid → ¬ (id ∈ f.seeders ∧ id ∈ f.leechers) := by
  rw [File.peersOf, List.filter_append, List.nodup_append]
  constructor
  · rintro ⟨-, -, hdisjoint⟩ id hne ⟨hseeds, hleeches⟩
    refine hdisjoint id ?_ id ?_ rfl
    · simp [OrdSet.mem_toList, hleeches, hne]
    · simp [OrdSet.mem_toList, hseeds, hne]
  · intro h
    refine ⟨(OrdSet.nodup_toList _).filter _, (OrdSet.nodup_toList _).filter _, ?_⟩
    rintro id hleeches _ hseeds rfl
    simp only [List.mem_filter, OrdSet.mem_toList, OrdSet.mem_add,
      decide_eq_true_eq] at hleeches hseeds
    exact h id hleeches.2 ⟨hseeds.1, hleeches.1.resolve_left hleeches.2⟩

/-! ## The answer and the leechers -/

theorem find?_withFile {g : Group} (hg : s.groups.find? gid = some g)
    (hf : g.files.find? fname = some f) (change : File → File) :
    (s.contents.withFile gid fname change).groups.find? gid =
      some { g with files := g.files.insert fname (change f) } := by
  have hgroup : subscript s.contents.groups gid = g := subscript_of_find? hg
  rw [Contents.withFile, Contents.withGroup, OrdMap.find?_insert_self, hgroup,
    subscript_of_find? hf]

/-- What is left of the outcomes of `get_peers` where the file is shared with the user. -/
theorem GetPeers.of_shared {r : Except ExnClass Str} {c : Contents}
    (h : GetPeers s uid gid fname r c) (hf : s.sharedFile uid gid fname = some f) :
    ∃ g, s.groups.find? gid = some g ∧ uid ∈ g.members ∧ g.files.find? fname = some f ∧
      c.groups = (s.contents.withFile gid fname fun f' =>
        { f' with leechers := f.leechers.add uid }).groups ∧
      (Alone f uid ∨ ∃ peers, r = .ok peers) := by
  cases h with
  | noMember hno =>
    rw [sharedFile_of_not_isMember hno] at hf
    cases hf
  | noFile hg hu hno =>
    rw [sharedFile_of_find? hg hu, OrdMap.notMem_iff.mp hno] at hf
    cases hf
  | @alone g f' hg hu hfile halone =>
    rw [sharedFile_of_find? hg hu] at hf
    obtain rfl : f' = f := Option.some.inj (hfile.symm.trans hf)
    exact ⟨g, hg, hu, hfile, rfl, .inl halone⟩
  | @listed g f' peers address hg hu hfile hother =>
    rw [sharedFile_of_find? hg hu] at hf
    obtain rfl : f' = f := Option.some.inj (hfile.symm.trans hf)
    exact ⟨g, hg, hu, hfile, rfl, .inr ⟨peers, rfl⟩⟩

/-- Whoever asks for the peers of a file of his group becomes a leecher of it. -/
theorem getPeers_leecher (hf : s.sharedFile uid gid fname = some f) : ∃ f',
    (getPeers uid gid fname s).2.sharedFile uid gid fname = some f' ∧ uid ∈ f'.leechers := by
  obtain ⟨g, hg, hu, hfile, hgroups, -⟩ := (getPeers_cases s uid gid fname).of_shared hf
  have hfind := find?_withFile hg hfile fun f' => { f' with leechers := f.leechers.add uid }
  rw [← hgroups] at hfind
  rw [sharedFile_of_find? hfind hu, OrdMap.find?_insert_self]
  exact ⟨_, rfl, by simp⟩

/-- There is a list to return if there is anybody to name. -/
theorem getPeers_ok (hf : s.sharedFile uid gid fname = some f) (hother : ¬ Alone f uid) :
    (getPeers uid gid fname s).1 =
      .ok (peersText ((f.peersOf uid).map fun id => (id, number s.address id))) := by
  obtain ⟨-, -, -, -, -, hout⟩ := (getPeers_cases s uid gid fname).of_shared hf
  obtain ⟨peers, hpeers⟩ := hout.resolve_left hother
  obtain ⟨f', hf', -, rfl⟩ := (getPeers_listing s uid gid fname).2 peers hpeers
  obtain rfl : f = f' := Option.some.inj (hf.symm.trans hf')
  exact hpeers

theorem ListsEachOnce.nodup (h : s.ListsEachOnce uid gid fname f)
    (hf : s.sharedFile uid gid fname = some f) : f.peersOf uid ≠ [] ∧ (f.peersOf uid).Nodup := by
  obtain ⟨⟨ids, hnodup, hmem, htext⟩, -⟩ := h
  obtain ⟨f', hf', hne, heq⟩ := (getPeers_listing s uid gid fname).2 _ htext
  obtain rfl : f = f' := Option.some.inj (hf.symm.trans hf')
  have hperm : (f.peersOf uid).Perm ids :=
    perm_of_peersText_eq hne hnodup (fun id => (hmem id).trans mem_peersOf.symm) heq.symm
  exact ⟨hne, hperm.nodup_iff.mpr hnodup⟩

/-- The list names everybody else exactly once if and only if there is somebody else, and nobody
else is both a seeder and a leecher. -/
theorem peers_listed_once_iff (hf : s.sharedFile uid gid fname = some f) :
    s.ListsEachOnce uid gid fname f ↔
      (∃ id, f.Lists id ∧ id ≠ uid) ∧
        ∀ id, id ≠ uid → ¬ (id ∈ f.seeders ∧ id ∈ f.leechers) := by
  have hother : (∃ id, f.Lists id ∧ id ≠ uid) ↔ ¬ Alone f uid := by
    simp only [Alone, File.Lists, not_forall, exists_prop, ne_eq]
  rw [hother]
  constructor
  · intro h
    obtain ⟨hne, hnodup⟩ := h.nodup hf
    exact ⟨fun halone => hne (peersOf_eq_nil.mpr halone), nodup_peersOf.mp hnodup⟩
  · rintro ⟨halone, hboth⟩
    exact ⟨⟨f.peersOf uid, nodup_peersOf.mpr hboth, fun id => mem_peersOf, getPeers_ok hf halone⟩,
      getPeers_leecher hf⟩

/-! A file that one member shares -/

/-- The other member is given a list with the sharer. -/
theorem sharer_listed_once : ∃ s f, System.Reachable .rightFirst [] (.up s) ∧
    s.sharedFile (lit "bob") (lit "g") (lit "f") = some f ∧
      s.ListsEachOnce (lit "bob") (lit "g") (lit "f") f := by
  obtain ⟨s, hs, hcheck⟩ := System.exists_reachable .rightFirst [] twoMembers
    (fun s => (s.sharedFile (lit "bob") (lit "g") (lit "f")).map
      (fun f => (f.seeders.toList, f.leechers.toList)) = some ([lit "ann"], [])) (by decide +kernel)
  obtain ⟨f, hf, hlists⟩ := Option.map_eq_some_iff.mp (of_decide_eq_true hcheck)
  obtain ⟨hseeders, hleechers⟩ := Prod.mk.inj hlists
  have hann : lit "ann" ∈ f.seeders := by
    rw [← OrdSet.mem_toList, hseeders]
    exact List.mem_singleton_self _
  refine ⟨s, f, hs, hf, (peers_listed_once_iff hf).mpr ⟨⟨lit "ann", .inr hann, by decide⟩, ?_⟩⟩
  rintro id - ⟨-, hid⟩
  rw [← OrdSet.mem_toList, hleechers] at hid
  exact List.not_mem_nil hid

/-- The sharer, as long as he is alone with it, is given no list; and when he and the other member
have asked for the peers, the other member finds him twice. -/
theorem sharer_alone_and_listed_twice :
    (∃ s f, System.Reachable .rightFirst [] (.up s) ∧
      s.sharedFile (lit "ann") (lit "g") (lit "f") = some f ∧
        (getPeers (lit "ann") (lit "g") (lit "f") s).1 = .error .outOfRange ∧
          ¬ s.ListsEachOnce (lit "ann") (lit "g") (lit "f") f) ∧
    ∃ s f, System.Reachable .rightFirst [] (.up s) ∧
      s.sharedFile (lit "bob") (lit "g") (lit "f") = some f ∧
        (getPeers (lit "bob") (lit "g") (lit "f") s).1 = .ok (lit "[\x7bann:7\x7d,\x7bann:7\x7d]") ∧
          ¬ s.ListsEachOnce (lit "bob") (lit "g") (lit "f") f := by
  constructor
  · obtain ⟨s, hs, hcheck⟩ := System.exists_reachable .rightFirst [] twoMembers
      (fun s => (s.sharedFile (lit "ann") (lit "g") (lit "f")).isSome ∧
        (getPeers (lit "ann") (lit "g") (lit "f") s).1 = .error .outOfRange) (by decide +kernel)
    obtain ⟨hsome, hpeers⟩ := of_decide_eq_true hcheck
    obtain ⟨f, hf⟩ := Option.isSome_iff_exists.mp hsome
    refine ⟨s, f, hs, hf, hpeers, ?_⟩
    rintro ⟨⟨ids, -, -, htext⟩, -⟩
    cases hpeers.symm.trans htext
  · obtain ⟨s, hs, hcheck⟩ := System.exists_reachable .rightFirst []
      (twoMembers ++ [.request (askingPeers "bobpw" "g" "f" "8") .new,
        .request (askingPeers "annpw" "g" "f" "7") .new])
      (fun s => (s.sharedFile (lit "bob") (lit "g") (lit "f")).map (File.peersOf · (lit "bob")) =
          some [lit "ann", lit "ann"] ∧
        (getPeers (lit "bob") (lit "g") (lit "f") s).1 =
          .ok (lit "[\x7bann:7\x7d,\x7bann:7\x7d]")) (by decide +kernel)
    obtain ⟨hids, hpeers⟩ := of_decide_eq_true hcheck
    obtain ⟨f, hf, hids⟩ := Option.map_eq_some_iff.mp hids
    refine ⟨s, f, hs, hf, hpeers, fun h => ?_⟩
    have hnodup := (h.nodup hf).2
    rw [hids] at hnodup
    exact absurd hnodup (by decide)

end P2PFileSharing.Tracker
