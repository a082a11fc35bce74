import P2PFileSharing.Peer.Leeching
import P2PFileSharing.Tracker.PeerList

/-!
# The keys of the neighbours

`fetch_peers` keys the neighbours by the numbers in the list of the tracker. A downloader gets the
address and the port of its neighbour, makes a number of them again, and reports under that one.
-/

namespace P2PFileSharing.Peer

open Library

/-- The peer, the ids that its download threads have been given, and the `server_addr.uid` of the
downloaders that they have made. -/
structure DownloadThreads where
  peer : PeerState
  peerIds : List Int
  serverUids : OrdMap Int Int

/-- `start_download` -/
def PeerState.startDownload (s : PeerState) : DownloadThreads :=
  ⟨s, s.ndata.entries.map fun p => p.2.addr.uid, ∅⟩

/-- The `server_addr` of `downloader d(ndata[peer_id].addr.ip, ndata[peer_id].addr.port, ..)`. -/
def PeerState.serverAddr (peerId : Int) : Action PeerState Fault SockAddr := do
  let data := ((← Action.get).ndata.find? peerId).getD .new
  Action.modify fun s => { s with ndata := s.ndata.insert peerId data }
  Action.ofExcept (SockAddr.ofIpPort data.addr.ip data.addr.port)

/-- What the thread with an id does. -/
inductive ThreadEvent where
  /-- it makes its downloader, whose `client.connect` throws or not -/
  | start (peerId : Int) (connects : Bool)
  /-- its downloader hands a bitfield to `update_callback` -/
  | report (peerId : Int) (bf : Bitfield)

def DownloadThreads.step (t : DownloadThreads) : ThreadEvent → Option DownloadThreads
  | .start peerId connects =>
    if peerId ∈ t.peerIds then
      match PeerState.serverAddr peerId t.peer with
      | (.ok addr, peer) =>
        some { t with
          peer
          serverUids := if connects then t.serverUids.insert peerId addr.uid else t.serverUids }
      | (.error (.thrown _), peer) => some { t with peer }
      | (.error _, _) => none
    else none
  | .report peerId bf =>
    (t.serverUids.find? peerId).bind fun uid =>
      (PeerState.left (PeerState.updateNdataCallback uid bf t.peer)).map fun peer => { t with peer }

/-- The downloader of the neighbour with a key reports under this key, there are the neighbours of
the start and no others, and they differ in their address or their port. -/
structure OneKey (s : PeerState) (t : DownloadThreads) : Prop where
  reports_key : ∀ k data uid, s.ndata.find? k = some data →
    t.serverUids.find? data.addr.uid = some uid → uid = k
  same_keys : ∀ k, k ∈ t.peer.ndata ↔ k ∈ s.ndata
  distinct : ∀ k k' data data', t.peer.ndata.find? k = some data →
    t.peer.ndata.find? k' = some data' → data.addr.ip = data'.addr.ip →
    data.addr.port = data'.addr.port → k = k'

/-- So it stays, whatever the threads do. -/
def KeepsOneKey (s : PeerState) : Prop :=
  ∀ es, Machine.AllStates DownloadThreads.step (OneKey s) s.startDownload es

/-! ## The list of the tracker -/

/-- Every address of a list has been made of its number. -/
theorem ofUid_of_decodePeers {segs : List Str} {addrs : List SockAddr}
    (h : TrackerClient.decodePeers segs = .ok addrs) : ∀ a ∈ addrs, a = SockAddr.ofUid a.uid := by
  induction segs generalizing addrs with
  | nil =>
    cases h
    simp
  | cons seg segs ih =>
    rw [TrackerClient.decodePeers] at h
    obtain ⟨text, -, hparts⟩ := Action.exceptBind_eq_ok.mp h
    split at hparts
    · obtain ⟨n, -, hrest⟩ := Action.exceptBind_eq_ok.mp hparts
      obtain ⟨more, hmore, hreturn⟩ := Action.exceptBind_eq_ok.mp hrest
      cases hreturn
      exact List.forall_mem_cons.mpr ⟨rfl, ih hmore⟩
    · cases hparts

theorem ofUid_of_peersOfBody {body : BString} {addrs : List SockAddr}
    (h : TrackerClient.peersOfBody body = .ok addrs) : ∀ a ∈ addrs, a = SockAddr.ofUid a.uid := by
  obtain ⟨list, -, hinner⟩ := Action.exceptBind_eq_ok.mp h
  obtain ⟨text, -, hdecode⟩ := Action.exceptBind_eq_ok.mp hinner
  exact ofUid_of_decodePeers hdecode

namespace PeerState

variable {us : UploadServer} {s : PeerState} {addrs : List SockAddr} {k : Int}
  {data : NeighbourData}

theorem mem_fetchPeers (hs : s.Fresh us) :
    k ∈ (s.fetchPeers addrs).ndata ↔ ∃ a ∈ addrs, a.uid = k := by
  rw [fetchPeers, hs.ndata_eq]
  exact OrdMap.mem_foldl_insert.trans (by simp)

theorem addr_fetchPeers (hs : s.Fresh us) (haddrs : ∀ a ∈ addrs, a = SockAddr.ofUid a.uid)
    (h : (s.fetchPeers addrs).ndata.find? k = some data) : data.addr = SockAddr.ofUid k := by
  rw [fetchPeers, hs.ndata_eq] at h
  rcases OrdMap.exists_of_find?_foldl_insert h with ⟨a, ha, rfl, rfl⟩ | hempty
  · exact haddrs a ha
  · cases hempty

end PeerState

/-! ## What the threads do -/

/-- The neighbours are keyed by the number of their address. -/
def Keyed (s : PeerState) : Prop :=
  ∀ k data, s.ndata.find? k = some data → data.addr = SockAddr.ofUid k

theorem keyed_fetchPeers {us : UploadServer} {s : PeerState} {addrs : List SockAddr}
    (hs : s.Fresh us) (haddrs : ∀ a ∈ addrs, a = SockAddr.ofUid a.uid) :
    Keyed (s.fetchPeers addrs) :=
  fun _ _ h => PeerState.addr_fetchPeers hs haddrs h

/-- Every key is the number of an address and a port. -/
def Narrow (s : PeerState) : Prop := ∀ k ∈ s.ndata, 0 ≤ k ∧ k < 2 ^ 48

/-- The neighbours are those of the start, and the downloaders are theirs and have their keys. -/
structure Faithful (s : PeerState) (t : DownloadThreads) : Prop where
  ndata_eq : t.peer.ndata = s.ndata
  peerIds_mem : ∀ k ∈ t.peerIds, k ∈ s.ndata
  serverUids_eq : ∀ k uid, t.serverUids.find? k = some uid → uid = k ∧ k ∈ s.ndata

section Threads

variable {s : PeerState} {t u : DownloadThreads} {k : Int} {data : NeighbourData}

/-- The downloader of a neighbour has the lowest 48 bits of the key. -/
theorem serverAddr_run (hs : Keyed s) (hk : s.ndata.find? k = some data) :
    ∃ addr, PeerState.serverAddr k s = (.ok addr, s) ∧ addr.uid = k % 2 ^ 48 := by
  obtain ⟨addr, haddr, huid⟩ := SockAddr.ofIpPort_ofUid k
  refine ⟨addr, ?_, huid⟩
  have hsame : { s with ndata := s.ndata.insert k data } = s := by
    rw [OrdMap.insert_eq_self.mpr hk]
  calc PeerState.serverAddr k s
      = (SockAddr.ofIpPort ((s.ndata.find? k).getD .new).addr.ip
          ((s.ndata.find? k).getD .new).addr.port,
          { s with ndata := s.ndata.insert k ((s.ndata.find? k).getD .new) }) := rfl
    _ = (.ok addr, s) := by rw [hk, Option.getD_some, hs k data hk, haddr, hsame]

/-- A report under a key there is leaves the neighbours as they are. -/
theorem ndata_of_report {bf : Bitfield} {peer : PeerState} (hk : k ∈ s.ndata)
    (h : PeerState.left (PeerState.updateNdataCallback k bf s) = some peer) :
    peer.ndata = s.ndata := by
  obtain ⟨data, hdata⟩ := OrdMap.mem_iff_exists.mp hk
  have hsame : s.ndata.insert k ((s.ndata.find? k).getD .new) = s.ndata := by
    rw [hdata, Option.getD_some, OrdMap.insert_eq_self.mpr hdata]
  rw [PeerState.updateNdataCallback_run, hsame] at h
  unfold PeerState.left at h
  split at h
  next => cases h
  next heq =>
    cases h
    rw [← (Prod.mk.inj heq).2]

theorem start_step (hs : Keyed t.peer) (hid : k ∈ t.peerIds) (hk : k ∈ t.peer.ndata)
    (connects : Bool) : t.step (.start k connects) = some { t with
      serverUids := if connects then t.serverUids.insert k (k % 2 ^ 48) else t.serverUids } := by
  obtain ⟨data, hdata⟩ := OrdMap.mem_iff_exists.mp hk
  obtain ⟨addr, haddr, huid⟩ := serverAddr_run hs hdata
  simp only [DownloadThreads.step, if_pos hid, haddr, huid]

theorem Faithful.step (hs : Keyed s) (hnarrow : Narrow s) (h : Faithful s t) {e : ThreadEvent}
    (hstep : t.step e = some u) : Faithful s u := by
  cases e with
  | start k connects =>
    by_cases hid : k ∈ t.peerIds
    · have hk := h.peerIds_mem k hid
      have hkeyed : Keyed t.peer := by
        rw [Keyed, h.ndata_eq]
        exact hs
      rw [start_step hkeyed hid (h.ndata_eq.symm ▸ hk)] at hstep
      cases hstep
      refine ⟨h.ndata_eq, h.peerIds_mem, ?_⟩
      have hlow : k % 2 ^ 48 = k := Int.emod_eq_of_lt (hnarrow k hk).1 (hnarrow k hk).2
      cases connects with
      | false => exact h.serverUids_eq
      | true =>
        intro k' uid hfind
        rw [if_pos rfl, OrdMap.find?_insert] at hfind
        split at hfind
        next heq =>
          cases hfind
          subst heq
          exact ⟨hlow, hk⟩
        next => exact h.serverUids_eq k' uid hfind
    · rw [DownloadThreads.step, if_neg hid] at hstep
      cases hstep
  | report k bf =>
    obtain ⟨uid, huid, hreport⟩ := Option.bind_eq_some_iff.mp hstep
    obtain ⟨peer, hpeer, rfl⟩ := Option.map_eq_some_iff.mp hreport
    obtain ⟨rfl, hk⟩ := h.serverUids_eq k uid huid
    have hsame := ndata_of_report (h.ndata_eq.symm ▸ hk) hpeer
    exact ⟨hsame.trans h.ndata_eq, h.peerIds_mem, h.serverUids_eq⟩

theorem Faithful.oneKey (hs : Keyed s) (hnarrow : Narrow s) (h : Faithful s t) : OneKey s t := by
  refine ⟨fun k data uid hk huid => ?_, fun k => by rw [h.ndata_eq], ?_⟩
  · rw [hs k data hk] at huid
    exact (h.serverUids_eq k uid huid).1
  · intro k k' data data' hk hk' hip hport
    rw [h.ndata_eq] at hk hk'
    rw [hs k data hk, hs k' data' hk'] at hip hport
    obtain ⟨addr, haddr, huid⟩ := SockAddr.ofIpPort_ofUid k
    obtain ⟨addr', haddr', huid'⟩ := SockAddr.ofIpPort_ofUid k'
    rw [hip, hport, haddr'] at haddr
    cases haddr
    have hk1 := hnarrow k (OrdMap.mem_iff_exists.mpr ⟨data, hk⟩)
    have hk2 := hnarrow k' (OrdMap.mem_iff_exists.mpr ⟨data', hk'⟩)
    omega

theorem peerIds_startDownload (hs : Keyed s) : k ∈ s.startDownload.peerIds ↔ k ∈ s.ndata := by
  rw [OrdMap.mem_iff_exists]
  constructor
  · intro h
    obtain ⟨⟨key, data⟩, hentry, rfl⟩ := List.mem_map.mp h
    have hfind := OrdMap.mem_entries.mp hentry
    exact ⟨data, by rw [hs key data hfind]; exact hfind⟩
  · rintro ⟨data, hfind⟩
    refine List.mem_map.mpr ⟨(k, data), OrdMap.mem_entries.mpr hfind, ?_⟩
    dsimp only
    rw [hs k data hfind]
    rfl

theorem faithful_startDownload (hs : Keyed s) : Faithful s s.startDownload :=
  ⟨rfl, fun _ hk => (peerIds_startDownload hs).mp hk, fun _ _ h => nomatch h⟩

theorem keepsOneKey_iff (hs : Keyed s) : KeepsOneKey s ↔ Narrow s := by
  constructor
  · intro h k hk
    have hstart := start_step (t := s.startDownload) hs ((peerIds_startDownload hs).mpr hk) hk true
    have hone := ((h [.start k true]).2 _ hstart).first
    obtain ⟨data, hdata⟩ := OrdMap.mem_iff_exists.mp hk
    have hlow := hone.reports_key k data (k % 2 ^ 48) hdata (by
      rw [hs k data hdata]
      exact OrdMap.find?_insert_self _ _ _)
    omega
  · intro hnarrow es
    have hall : Machine.AllSteps DownloadThreads.step (fun _ _ => True) s.startDownload es :=
      Machine.allSteps_of_forall (fun _ _ => trivial) _ es
    exact Machine.allStates_of_allSteps (fun t ht => ht.oneKey hs hnarrow)
      (fun t e u ht _ hu => ht.step hs hnarrow hu) (faithful_startDownload hs) hall

end Threads

/-! ## Lists and their numbers -/

/-- The neighbours of a list of peers keep their keys if and only if every number of the list is
that of an address and a port. -/
theorem one_key_iff {us : UploadServer} {s : PeerState} (hs : s.Fresh us) {body : BString}
    {addrs : List SockAddr} (hbody : TrackerClient.peersOfBody body = .ok addrs) :
    KeepsOneKey (s.fetchPeers addrs) ↔ ∀ a ∈ addrs, 0 ≤ a.uid ∧ a.uid < 2 ^ 48 := by
  rw [keepsOneKey_iff (keyed_fetchPeers hs (ofUid_of_peersOfBody hbody)), Narrow]
  simp only [PeerState.mem_fetchPeers hs]
  exact ⟨fun h a ha => h a.uid ⟨a, ha, rfl⟩, fun h k ⟨a, ha, hk⟩ => hk ▸ h a ha⟩

/-- A list with one small number. -/
theorem small_number_keeps_key : KeepsOneKey (onePiece.fetchPeers [.ofUid 7]) :=
  (one_key_iff (PeerState.fresh_of_loadMeta onePiece_loaded)
    (show TrackerClient.peersOfBody (lit "[\x7bann:7\x7d]") = .ok [.ofUid 7] by decide +kernel)).mpr
    (by decide)

section Sharer

open Tracker

/-- A user shares a file under a number of 49 bits, and a second one joins his group. -/
def wideNumberShared : List Tracker.Event :=
  founding ++ [.request (sharing "annpw" "g" "f" "281474976710663") .new,
    .request (signingUp "bob" "pw") .new, .request (loggingIn "bob" "pw") .new,
    .request (posting "/join_group" [("Authorization", "bobpw"), ("Group-Id", "g")]) .new]

/-- The downloader of the sharer reports under the key 7. -/
theorem wide_number_loses_key : ∃ s members addrs, System.Reachable .rightFirst [] (.up s) ∧
    (getPeers (lit "bob") (lit "g") (lit "f") s).1 = .ok members ∧
      TrackerClient.peersOfBody (listing members).body = .ok addrs ∧
        ¬ KeepsOneKey (onePiece.fetchPeers addrs) := by
  obtain ⟨s, hs, hcheck⟩ := System.exists_reachable .rightFirst [] wideNumberShared
    (fun s => (getPeers (lit "bob") (lit "g") (lit "f") s).1 =
      .ok (lit "[\x7bann:281474976710663\x7d]")) (by decide +kernel)
  have hbody : TrackerClient.peersOfBody (listing (lit "[\x7bann:281474976710663\x7d]")).body =
      .ok [.ofUid 281474976710663] := by decide +kernel
  refine ⟨s, _, _, hs, of_decide_eq_true hcheck, hbody, fun h => ?_⟩
  have hfresh := PeerState.fresh_of_loadMeta onePiece_loaded
  have hkeyed := keyed_fetchPeers hfresh (ofUid_of_peersOfBody hbody)
  have hrange := (keepsOneKey_iff hkeyed).mp h 281474976710663
    ((PeerState.mem_fetchPeers hfresh).mpr ⟨_, List.mem_singleton_self _, rfl⟩)
  omega

end Sharer

end P2PFileSharing.Peer
