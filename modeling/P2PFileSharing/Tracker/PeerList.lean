import P2PFileSharing.Http.Parsing
import P2PFileSharing.Tracker.ListedPeers
import P2PFileSharing.Tracker.Replies

/-!
# Lists of peers, written and read

The tracker writes a peer as `{id:number}`, with commas between the peers. The client cuts the text
at the commas again, and what is between two of them at the colon. No parser lets a colon into an
id, but a comma can be in one. Neither side can convert a list that is too long for an `int`.
-/

namespace P2PFileSharing.Tracker

open Http Library Util Split
open Peer.TrackerClient (decodePeers inner peersOfBody inner_enclosed inner_cons part_of_inner)

/-! ## One peer -/

theorem mem_of_infix_singleton {c : UInt8} {s : Str} (h : [c] <:+: s) : c ∈ s :=
  h.subset (List.mem_singleton_self c)

theorem infix_singleton_of_mem {c : UInt8} {s : Str} (h : c ∈ s) : [c] <:+: s := by
  obtain ⟨x, y, rfl⟩ := List.append_of_mem h
  exact ⟨x, y, by simp⟩

/-- A peer without the comma in front of it. -/
def segment (peer : Str × Int) : Str :=
  lit "\x7b" ++ peer.1 ++ lit ":" ++ intToDecimal peer.2 ++ lit "\x7d"

section Segment

variable {peer : Str × Int} {x y s : Str}

theorem peerText_eq (peer : Str × Int) : peerText peer = [44] ++ segment peer := by
  have hopen : lit ",\x7b" = [44] ++ lit "\x7b" := by decide
  simp only [peerText, segment, hopen, List.append_assoc]

theorem segment_eq (peer : Str × Int) :
    segment peer = 123 :: (peer.1 ++ [58] ++ intToDecimal peer.2 ++ [125]) := by
  have hchars : lit "\x7b" = [123] ∧ lit ":" = [58] ∧ lit "\x7d" = [125] := by decide
  simp only [segment, hchars, List.append_assoc, List.cons_append, List.nil_append]

theorem digit_range {n : Int} {c : UInt8} (hc : c ∈ intToDecimal n) : c = 45 ∨ 48 ≤ c ∧ c ≤ 57 := by
  rw [intToDecimal] at hc
  split at hc
  · rcases List.mem_append.mp hc with hc | hc
    · exact .inl (List.mem_singleton.mp hc)
    · exact .inr (toDecimal_digits _ c hc)
  · exact .inr (toDecimal_digits _ c hc)

theorem intToDecimal_ne_nil (n : Int) : intToDecimal n ≠ [] := by
  rw [intToDecimal]
  split
  · simp [lit]
  · exact toDecimal_ne_nil _

theorem notMem_segment (h : 44 ∉ peer.1) : 44 ∉ segment peer := by
  have hdigits : 44 ∉ intToDecimal peer.2 := by
    intro hmem
    rcases digit_range hmem with hc | ⟨hc, -⟩
    · exact absurd hc (by decide)
    · exact absurd hc (by decide)
  simp [segment_eq, h, hdigits]

/-- The two parts of a peer. -/
theorem tokenize_parts (h : 58 ∉ x) (n : Int) :
    tokenize (x ++ [58] ++ intToDecimal n) [58] = [x, intToDecimal n] := by
  have hdigits : ¬ [58] <:+: intToDecimal n := fun hin =>
    (intact_intToDecimal n).colon (mem_of_infix_singleton hin)
  rw [tokenize_cut (by simp) (free_singleton.mpr h), tokenize_last hdigits,
    if_pos (List.length_pos_of_ne_nil (intToDecimal_ne_nil n))]

end Segment

/-! ## Reading a list -/

section Decode

variable {peer : Str × Int} {peers : List (Str × Int)} {x : Str} {segs : List Str}

theorem decodePeers_segment (hcolon : 58 ∉ peer.1) (hfits : -2 ^ 63 ≤ peer.2 ∧ peer.2 < 2 ^ 63)
    (segs : List Str) : decodePeers (segment peer :: segs) =
      (decodePeers segs).map fun addrs => SockAddr.ofUid peer.2 :: addrs := by
  have hinner : inner (segment peer) =
      .ok (peer.1 ++ [58] ++ intToDecimal peer.2) := by
    rw [segment_eq]
    exact inner_enclosed _ _ _
  have hparts : tokenize (peer.1 ++ [58] ++ intToDecimal peer.2) (lit ":") =
      [peer.1, intToDecimal peer.2] := tokenize_parts hcolon peer.2
  have hnumber := stoll_intToDecimal hfits.1 hfits.2
  simp only [decodePeers, hinner, hparts, hnumber, bind, Except.bind, pure, Except.pure,
    Except.mapError]
  cases decodePeers segs <;> rfl

/-- Without a colon there is no second part. -/
theorem decodePeers_undefined (hcolon : 58 ∉ x) (segs : List Str) :
    decodePeers ((123 :: x) :: segs) = .error .undefined := by
  obtain ⟨t, hinner, hpart⟩ := inner_cons 123 x
  have hnot : ¬ [58] <:+: t := fun hin => hcolon (hpart.subset (mem_of_infix_singleton hin))
  have hparts : tokenize t (lit ":") = if t.length > 0 then [t] else [] := tokenize_last hnot
  simp only [decodePeers, hinner, hparts, bind, Except.bind]
  split_ifs <;> rfl

/-- A comma in the id of the first peer cuts off a piece without a number. -/
theorem decodePeers_comma (hcolon : 58 ∉ peer.1) (hcomma : 44 ∈ peer.1) (rest : Str) :
    decodePeers (tokenize (segment peer ++ rest) [44]) = .error .undefined := by
  obtain ⟨x, y, hid, hx⟩ := exists_cut (infix_singleton_of_mem hcomma)
  have htext : segment peer ++ rest =
      123 :: x ++ [44] ++ (y ++ [58] ++ intToDecimal peer.2 ++ [125] ++ rest) := by
    simp [segment_eq, hid]
  have hfree : Free [44] (123 :: x) := by
    rw [free_singleton] at hx ⊢
    simpa using hx
  rw [htext, tokenize_cut (by simp) hfree]
  apply decodePeers_undefined
  intro hmem
  apply hcolon
  simp [hid, hmem]

theorem tokenize_segment (hcomma : 44 ∉ peer.1) (next : Str × Int) (peers : List (Str × Int)) :
    tokenize (segment peer ++ (next :: peers).flatMap peerText) [44] =
      segment peer :: tokenize (segment next ++ peers.flatMap peerText) [44] := by
  rw [List.flatMap_cons, peerText_eq, List.append_assoc, ← List.append_assoc]
  exact tokenize_cut (by simp) (free_singleton.mpr (notMem_segment hcomma)) _

/-- Without commas in the ids, the whole list is read. -/
theorem decodePeers_of_notMem (hcolon : ∀ p ∈ peer :: peers, 58 ∉ p.1)
    (hfits : ∀ p ∈ peer :: peers, -2 ^ 63 ≤ p.2 ∧ p.2 < 2 ^ 63)
    (hcomma : ∀ p ∈ peer :: peers, 44 ∉ p.1) :
    decodePeers (tokenize (segment peer ++ peers.flatMap peerText) [44]) =
      .ok ((peer :: peers).map fun p => SockAddr.ofUid p.2) := by
  induction peers generalizing peer with
  | nil =>
    rw [List.forall_mem_singleton] at hcolon hfits hcomma
    have hnot : ¬ [44] <:+: segment peer := fun hin =>
      notMem_segment hcomma (mem_of_infix_singleton hin)
    have hsome : (segment peer).length > 0 := by simp [segment_eq]
    rw [List.flatMap_nil, List.append_nil, tokenize_last hnot, if_pos hsome,
      decodePeers_segment hcolon hfits]
    rfl
  | cons next peers ih =>
    rw [List.forall_mem_cons] at hcolon hfits hcomma
    rw [tokenize_segment hcomma.1, decodePeers_segment hcolon.1 hfits.1,
      ih hcolon.2 hfits.2 hcomma.2]
    rfl

/-- The first comma in an id stops it. -/
theorem decodePeers_of_mem (hcolon : ∀ p ∈ peer :: peers, 58 ∉ p.1)
    (hfits : ∀ p ∈ peer :: peers, -2 ^ 63 ≤ p.2 ∧ p.2 < 2 ^ 63)
    (hcomma : ∃ p ∈ peer :: peers, 44 ∈ p.1) :
    decodePeers (tokenize (segment peer ++ peers.flatMap peerText) [44]) = .error .undefined := by
  induction peers generalizing peer with
  | nil =>
    obtain ⟨p, hp, hmem⟩ := hcomma
    obtain rfl := List.mem_singleton.mp hp
    exact decodePeers_comma (hcolon p hp) hmem _
  | cons next peers ih =>
    rw [List.forall_mem_cons] at hcolon hfits
    by_cases hfirst : 44 ∈ peer.1
    · exact decodePeers_comma hcolon.1 hfirst _
    · have hlater : ∃ p ∈ next :: peers, 44 ∈ p.1 := by
        obtain ⟨p, hp, hmem⟩ := hcomma
        rcases List.mem_cons.mp hp with rfl | hp
        · exact absurd hmem hfirst
        · exact ⟨p, hp, hmem⟩
      rw [tokenize_segment hfirst, decodePeers_segment hcolon.1 hfits.1, ih hcolon.2 hfits.2 hlater]
      rfl

/-- The tracker makes the body of the text, and the client reads the peers in it. -/
def readBack (members : Str) : Except Fault (List SockAddr) := do peersOfBody (← s2b members)

theorem readBack_eq (members : Str) : readBack members =
    if members.length < 2 ^ 31 then peersOfBody members else .error .undefined := by
  rw [readBack, s2b_eq]
  split_ifs <;> rfl

/-- How long the text of a list with at least one peer is. -/
def listLength (peers : List (Str × Int)) : Nat :=
  (peers.map fun p => p.1.length + (intToDecimal p.2).length + 4).sum + 1

theorem length_peersText_eq (hne : peers ≠ []) : (peersText peers).length = listLength peers := by
  have hlen (p : Str × Int) :
      (peerText p).length = p.1.length + (intToDecimal p.2).length + 4 := by
    rw [peerText_eq, segment_eq]
    simp
    omega
  rw [length_peersText, listLength, List.length_flatMap, List.map_congr_left fun p _ => hlen p]
  obtain ⟨peer, peers, rfl⟩ := List.exists_cons_of_ne_nil hne
  rw [List.map_cons, List.sum_cons]
  omega

/-- What the client makes of the text of the tracker. -/
theorem readBack_eq_ok_iff (peers : List (Str × Int)) (hne : peers ≠ [])
    (hcolon : ∀ p ∈ peers, 58 ∉ p.1)
    (hfits : ∀ p ∈ peers, -2 ^ 63 ≤ p.2 ∧ p.2 < 2 ^ 63) :
    readBack (peersText peers) = .ok (peers.map fun p => SockAddr.ofUid p.2) ↔
      (∀ p ∈ peers, 44 ∉ p.1) ∧ listLength peers < 2 ^ 31 := by
  rw [readBack_eq, ← length_peersText_eq hne]
  by_cases hsmall : (peersText peers).length < 2 ^ 31
  swap
  · rw [if_neg hsmall]
    exact iff_of_false (by simp) fun h => hsmall h.2
  rw [if_pos hsmall, and_iff_left hsmall, peersOfBody, b2s_eq, if_pos hsmall]
  obtain ⟨peer, peers, rfl⟩ := List.exists_cons_of_ne_nil hne
  have htext : peersText (peer :: peers) =
      91 :: (segment peer ++ peers.flatMap peerText ++ [93]) := by
    have hchars : lit "[" = [91] ∧ lit "]" = [93] := by decide
    simp [peersText, hchars, peerText_eq]
  rw [htext]
  have hinner := inner_enclosed 91 93 (segment peer ++ peers.flatMap peerText)
  simp only [bind, Except.bind, hinner]
  constructor
  · intro hok
    by_contra hcomma
    push Not at hcomma
    rw [show lit "," = [44] from rfl, decodePeers_of_mem hcolon hfits hcomma] at hok
    cases hok
  · exact decodePeers_of_notMem hcolon hfits

/-- The scans of the client over a body count with an `int` index, which is large enough for a body
that can be converted. -/
theorem scans_of_body {body text : Str} (hsmall : body.length < 2 ^ 31)
    (htext : inner body = .ok text) :
    Scanned text (lit ",") ∧ ∀ seg ∈ tokenize text (lit ","), ∀ pair, inner seg = .ok pair →
      Scanned pair (lit ":") := by
  have hlen : text.length < 2 ^ 31 := (part_of_inner htext).length_le.trans_lt hsmall
  refine ⟨scanned (by decide) hlen, fun seg hseg pair hpair => scanned (by decide) ?_⟩
  have hpart := (part_of_inner hpair).trans (infix_of_mem_tokenize (by decide) _ seg hseg)
  exact hpart.length_le.trans_lt hlen

end Decode

/-! ## The lists of the tracker -/

/-- A parser has read the id as the value of a header. -/
def Accepted (id : Str) : Prop := ∃ req key, Parsed req ∧ req.getHeader key = .ok id

theorem Accepted.colon {id : Str} (h : Accepted id) : 58 ∉ id := by
  obtain ⟨req, key, ⟨bytes, hreq⟩, hget⟩ := h
  exact ((Request.proper_of_deserialize hreq).intact_of_getHeader hget).colon

variable {s : Tracker} {uid gid fname : Str}

theorem sharedFile_eq_some {f : File} (h : s.sharedFile uid gid fname = some f) :
    ∃ g, s.groups.find? gid = some g ∧ g.files.find? fname = some f := by
  obtain ⟨g, hg, hf⟩ := Option.bind_eq_some_iff.mp h
  split at hf
  · exact ⟨g, hg, hf⟩
  · cases hf

/-- The peers of a file with their numbers, as they are listed. -/
def peersWithNumbers (s : Tracker) (uid : Str) (f : File) : List (Str × Int) :=
  (f.peersOf uid).map fun id => (id, number s.address id)

/-- The client reads the addresses of the peers, in the order of the list, if and only if there is
no comma in the id of a peer and the list is short enough for the conversions to and from a body. -/
theorem peers_decoded_iff (haccepted : ∀ id, TakesPart s.groups id → Accepted id)
    (hfits : ∀ id, -2 ^ 63 ≤ number s.address id ∧ number s.address id < 2 ^ 63) {members : Str}
    (hpeers : (getPeers uid gid fname s).1 = .ok members) :
    ∃ f, s.sharedFile uid gid fname = some f ∧
      (readBack members = .ok ((peersWithNumbers s uid f).map fun p => SockAddr.ofUid p.2) ↔
        (∀ id ∈ f.peersOf uid, 44 ∉ id) ∧ listLength (peersWithNumbers s uid f) < 2 ^ 31) ∧
      (listLength (peersWithNumbers s uid f) < 2 ^ 31 → ∀ text, inner members = .ok text →
        Scanned text (lit ",") ∧ ∀ seg ∈ tokenize text (lit ","), ∀ pair, inner seg = .ok pair →
          Scanned pair (lit ":")) := by
  obtain ⟨f, hf, hne, rfl⟩ := (getPeers_listing s uid gid fname).2 members hpeers
  obtain ⟨g, hg, hfile⟩ := sharedFile_eq_some hf
  have hsome : peersWithNumbers s uid f ≠ [] := by simpa [peersWithNumbers] using hne
  have hcolon (id : Str) (hid : id ∈ f.peersOf uid) : 58 ∉ id :=
    (haccepted id (takesPart_iff.mpr ⟨gid, g, fname, f, hg, hfile, (mem_peersOf.mp hid).1⟩)).colon
  have hdecode := readBack_eq_ok_iff (peersWithNumbers s uid f) hsome
    (by simpa [peersWithNumbers] using hcolon)
    (by simpa [peersWithNumbers] using fun id _ => hfits id)
  refine ⟨f, hf, ?_, fun hsmall text htext => scans_of_body ?_ htext⟩
  · simpa [peersWithNumbers] using hdecode
  · rw [← peersWithNumbers, length_peersText_eq hsome]
    exact hsmall

/-- Only this user is listed with a file. -/
def OnlyLists (groups : OrdMap Str Group) (id : Str) : Prop :=
  ∀ e ∈ groups.entries, ∀ file ∈ e.2.files.entries,
    file.2.leechers.toList ++ file.2.seeders.toList = [id]

instance decidableOnlyLists (groups : OrdMap Str Group) (id : Str) :
    Decidable (OnlyLists groups id) :=
  inferInstanceAs (Decidable (∀ e ∈ groups.entries, ∀ file ∈ e.2.files.entries,
    file.2.leechers.toList ++ file.2.seeders.toList = [id]))

theorem OnlyLists.eq {groups : OrdMap Str Group} {id id' : Str} (h : OnlyLists groups id)
    (hpart : TakesPart groups id') : id' = id := by
  obtain ⟨e, he, file, hfile, hlists⟩ := hpart
  have hmem : id' ∈ file.2.leechers.toList ++ file.2.seeders.toList := by
    rw [List.mem_append, OrdSet.mem_toList, OrdSet.mem_toList]
    exact hlists
  rw [h e he file hfile] at hmem
  exact List.mem_singleton.mp hmem

theorem fits_of_entries {address : OrdMap Str SockAddr}
    (h : ∀ e ∈ address.entries, -2 ^ 63 ≤ e.2.uid ∧ e.2.uid < 2 ^ 63) (id : Str) :
    -2 ^ 63 ≤ number address id ∧ number address id < 2 ^ 63 := by
  rw [number, subscript]
  cases hfind : address.find? id with
  | none => decide
  | some addr => exact h _ (OrdMap.mem_entries.mpr hfind)

/-- The sharer without a comma. -/
theorem sharer_decoded : ∃ s members, System.Reachable .rightFirst [] (.up s) ∧
    (getPeers (lit "bob") (lit "g") (lit "f") s).1 = .ok members ∧
      readBack members = .ok [SockAddr.ofUid 7] := by
  obtain ⟨s, hs, hcheck⟩ := System.exists_reachable .rightFirst [] twoMembers
    (fun s => OnlyLists s.groups (lit "ann") ∧
      (∀ e ∈ s.address.entries, -2 ^ 63 ≤ e.2.uid ∧ e.2.uid < 2 ^ 63) ∧
        number s.address (lit "ann") = 7 ∧
          (getPeers (lit "bob") (lit "g") (lit "f") s).1 = .ok (lit "[\x7bann:7\x7d]") ∧
            (s.sharedFile (lit "bob") (lit "g") (lit "f")).map (File.peersOf · (lit "bob")) =
              some [lit "ann"]) (by decide +kernel)
  obtain ⟨honly, hfits, hnumber, hmembers, hids⟩ := of_decide_eq_true hcheck
  have hann : Accepted (lit "ann") :=
    ⟨signingUp "ann" "pw", lit "Username", ⟨(signingUp "ann" "pw").bytes, by decide +kernel⟩,
      by decide⟩
  obtain ⟨f, hf, hiff, -⟩ := peers_decoded_iff (fun id hid => (honly.eq hid) ▸ hann)
    (fits_of_entries hfits) hmembers
  rw [hf, Option.map_some, Option.some_inj] at hids
  have hpeers : peersWithNumbers s (lit "bob") f = [(lit "ann", 7)] := by
    rw [peersWithNumbers, hids, List.map_singleton, hnumber]
  rw [hids, hpeers] at hiff
  exact ⟨s, _, hs, hmembers, hiff.mpr (by decide)⟩

/-- A user with a comma in his id, who shares a file, and a second member of his group. -/
def twoMembersWithComma : List Event :=
  [.request (signingUp "a,b" "pw") .new, .request (loggingIn "a,b" "pw") .new,
    .request (posting "/create_group" [("Authorization", "a,bpw"), ("Group-Id", "g")]) .new,
    .request (sharing "a,bpw" "g" "f" "7") .new,
    .request (signingUp "bob" "pw") .new, .request (loggingIn "bob" "pw") .new,
    .request (posting "/join_group" [("Authorization", "bobpw"), ("Group-Id", "g")]) .new]

/-- The list with him in it cannot be read. -/
theorem sharer_with_comma_undefined : ∃ s members, System.Reachable .rightFirst [] (.up s) ∧
    (∀ id, TakesPart s.groups id → Accepted id) ∧
      (getPeers (lit "bob") (lit "g") (lit "f") s).1 = .ok members ∧
        readBack members = .error .undefined := by
  obtain ⟨s, hs, hcheck⟩ := System.exists_reachable .rightFirst [] twoMembersWithComma
    (fun s => OnlyLists s.groups (lit "a,b") ∧
      (getPeers (lit "bob") (lit "g") (lit "f") s).1 = .ok (lit "[\x7ba,b:7\x7d]"))
    (by decide +kernel)
  obtain ⟨honly, hmembers⟩ := of_decide_eq_true hcheck
  have hcomma : Accepted (lit "a,b") :=
    ⟨signingUp "a,b" "pw", lit "Username", ⟨(signingUp "a,b" "pw").bytes, by decide +kernel⟩,
      by decide⟩
  exact ⟨s, _, hs, fun id hid => (honly.eq hid) ▸ hcomma, hmembers, by decide +kernel⟩

end P2PFileSharing.Tracker
