import P2PFileSharing.Tracker.Calls
import P2PFileSharing.Tracker.Idle

/-!
# Calls about groups

The client sends the token and the arguments of a call as headers, and the tracker takes the
arguments of an operation from the headers. Two calls do not send the group that they are about.
-/

namespace P2PFileSharing

open Http Library Peer

namespace Tracker

/-- The calls about groups, with their arguments. -/
inductive GroupCall where
  | createGroup (gid : Str)
  | joinGroup (gid : Str)
  | leaveGroup (gid : Str)
  | shareFile (fname gid : Str) (usAddr : SockAddr)
  | getPeers (fname gid : Str) (usAddr : SockAddr)

/-- The token was read from a response, and the tracker knows it as one of the user. -/
structure LoggedIn (s : Tracker) (token uid : Str) : Prop where
  received : ∃ bytes res, Response.deserialize bytes = .ok res ∧
    res.getHeader (lit "Authorization") = .ok token
  known : s.tokenMap.find? token = some uid

/-! ## What the client calls, and what the tracker does -/

namespace GroupCall

/-- The text fields of a call come back from the line of a header, and the address has its number
in a `long long`. -/
def Sendable : GroupCall → Prop
  | createGroup gid | joinGroup gid | leaveGroup gid => Intact gid
  | shareFile fname gid usAddr | getPeers fname gid usAddr =>
    Intact fname ∧ Intact gid ∧ -2 ^ 63 ≤ usAddr.uid ∧ usAddr.uid < 2 ^ 63

def request (authToken : Str) : GroupCall → Request
  | createGroup gid => TrackerClient.createGroupRequest authToken gid
  | joinGroup gid => TrackerClient.joinGroupRequest authToken gid
  | leaveGroup gid => TrackerClient.leaveGroupRequest authToken gid
  | shareFile fname gid usAddr => TrackerClient.shareFileRequest authToken fname gid usAddr
  | getPeers fname gid usAddr => TrackerClient.getPeersRequest authToken fname gid usAddr

/-- The call of the client. -/
def run {σ : Type} (client : HttpClient σ) (authToken : Str) : GroupCall → Action σ Fault Unit
  | createGroup gid => TrackerClient.createGroup client authToken gid
  | joinGroup gid => TrackerClient.joinGroup client authToken gid
  | leaveGroup gid => TrackerClient.leaveGroup client authToken gid
  | shareFile fname gid usAddr => TrackerClient.shareFile client authToken fname gid usAddr
  | getPeers fname gid usAddr => do
    let _ ← TrackerClient.getPeers client authToken fname gid usAddr

/-- The operation of the tracker that has the same name. -/
def operation (uid : Str) : GroupCall → TrackerM Unit
  | createGroup gid => Tracker.createGroup gid uid
  | joinGroup gid => Tracker.joinGroup uid gid
  | leaveGroup gid => Tracker.leaveGroup uid gid
  | shareFile fname gid _ => Tracker.shareFile uid gid fname
  | getPeers fname gid _ => do
    let _ ← Tracker.getPeers uid gid fname

/-- What a call does at the tracker. Joining and leaving do nothing, because the group is not sent;
sharing a file and asking for its peers also set the address of the user. -/
def effect (uid : Str) : GroupCall → TrackerM Unit
  | createGroup gid => Tracker.createGroup gid uid
  | joinGroup _ | leaveGroup _ => pure ()
  | shareFile fname gid usAddr => do
    Tracker.shareFile uid gid fname
    Action.modify fun s => s.withAddress uid (SockAddr.ofUid usAddr.uid)
  | getPeers fname gid usAddr => do
    Action.modify fun s => s.withAddress uid (SockAddr.ofUid usAddr.uid)
    let _ ← Tracker.getPeers uid gid fname

/-- Where the call and the operation leave the same behind: the operation changes nothing that the
call leaves as it is, and the address that the call brings is not a new one. -/
def Agrees (s : Tracker) (uid : Str) : GroupCall → Prop
  | createGroup _ => True
  | joinGroup gid => JoinIdle s uid gid
  | leaveGroup gid => LeaveIdle s uid gid
  | shareFile fname gid usAddr =>
    (∃ g, s.groups.find? gid = some g ∧ uid ∈ g.members ∧ fname ∉ g.files) →
      ¬ s.NewAddress uid usAddr.uid
  | getPeers _ _ usAddr => ¬ s.NewAddress uid usAddr.uid

/-- The operation changes nothing. -/
def Idle (s : Tracker) (uid : Str) : GroupCall → Prop
  | createGroup gid => CreateIdle s uid gid
  | joinGroup gid => JoinIdle s uid gid
  | leaveGroup gid => LeaveIdle s uid gid
  | shareFile fname gid _ => ShareIdle s uid gid fname
  | getPeers fname gid _ => PeersIdle s uid gid fname

theorem idle_iff (call : GroupCall) (s : Tracker) (uid : Str) :
    (call.operation uid s).2.contents = s.contents ↔ call.Idle s uid := by
  cases call with
  | createGroup gid => exact createGroup_idle_iff s uid gid
  | joinGroup gid => exact joinGroup_idle_iff s uid gid
  | leaveGroup gid => exact leaveGroup_idle_iff s uid gid
  | shareFile fname gid usAddr => exact shareFile_idle_iff s uid gid fname
  | getPeers fname gid usAddr =>
    rw [operation, Action.bind_pure_state]
    exact getPeers_idle_iff s uid gid fname

end GroupCall

section Calls

variable {order : AssignOrder} {remoteAddr : SockAddr} {s : Tracker} {token uid : Str}
  {call : GroupCall}

/-- Only the request changes the tracker, not what the client makes of the response. -/
theorem sending_state {α : Type} {req received : Request} {k : Response → Action Tracker Fault α}
    (h : req.throughCodec = .ok received) (hk : ∀ res t, (k res t).2 = t) :
    (((overCodec order remoteAddr).sendRequest req >>= k) s).2 =
      (callback order received remoteAddr s).2 := by
  have hsend : (overCodec order remoteAddr).sendRequest req s = _ := sendRequest_run h
  rcases hrun : callback order received remoteAddr s with ⟨e | res, t⟩
  · rw [hrun] at hsend
    rw [Action.bind_of_error hsend]
  · rw [hrun] at hsend
    rw [Action.bind_of_ok hsend]
    exact hk res t

theorem call_state {req received : Request} (h : req.throughCodec = .ok received) :
    (TrackerClient.call (overCodec order remoteAddr) req s).2 =
      (callback order received remoteAddr s).2 := by
  refine sending_state h fun res t => ?_
  rw [TrackerClient.checkStatus]
  split <;> rfl

theorem getPeers_state {fname gid : Str} {usAddr : SockAddr} {received : Request}
    (h : (TrackerClient.getPeersRequest token fname gid usAddr).throughCodec =
      .ok received) :
    (TrackerClient.getPeers (overCodec order remoteAddr) token fname gid usAddr s).2 =
      (callback order received remoteAddr s).2 := by
  have hk (res : Response) (t : Tracker) : ((if res.status = .OK then
      Action.ofExcept (TrackerClient.peersOfBody res.body)
      else Action.throw (TrackerClient.refusal res) :
          Action Tracker Fault (List SockAddr)) t).2 = t := by
    split <;> rfl
  have hconnect : (overCodec order remoteAddr).connect s = (.ok (), s) := rfl
  rw [TrackerClient.getPeers, Action.bind_of_ok hconnect]
  exact sending_state h hk

theorem GroupCall.run_state {received : Request}
    (h : (call.request token).throughCodec = .ok received) :
    (call.run (overCodec order remoteAddr) token s).2 =
      (callback order received remoteAddr s).2 := by
  cases call with
  | createGroup gid => exact call_state h
  | joinGroup gid => exact call_state h
  | leaveGroup gid => exact call_state h
  | shareFile fname gid usAddr => exact call_state h
  | getPeers fname gid usAddr =>
    rw [GroupCall.run, Action.bind_pure_state]
    exact getPeers_state h

/-- Where the codec fails, the tracker is not reached. -/
theorem sending_of_error {α : Type} {req : Request} {f : Fault}
    {k : Response → Action Tracker Fault α} (h : req.throughCodec = .error f) :
    (((overCodec order remoteAddr).sendRequest req >>= k) s).2 = s := by
  rw [Action.bind_of_error (sendRequest_of_error h)]

theorem call_of_error {req : Request} {f : Fault} (h : req.throughCodec = .error f) :
    (TrackerClient.call (overCodec order remoteAddr) req s).2 = s :=
  sending_of_error h

theorem getPeers_of_error {fname gid : Str} {usAddr : SockAddr} {f : Fault}
    (h : (TrackerClient.getPeersRequest token fname gid usAddr).throughCodec = .error f) :
    (TrackerClient.getPeers (overCodec order remoteAddr) token fname gid usAddr s).2 = s := by
  have hconnect : (overCodec order remoteAddr).connect s = (.ok (), s) := rfl
  rw [TrackerClient.getPeers, Action.bind_of_ok hconnect]
  exact sending_of_error h

theorem GroupCall.run_of_error {f : Fault} (h : (call.request token).throughCodec = .error f) :
    (call.run (overCodec order remoteAddr) token s).2 = s := by
  cases call with
  | createGroup gid => exact call_of_error h
  | joinGroup gid => exact call_of_error h
  | leaveGroup gid => exact call_of_error h
  | shareFile fname gid usAddr => exact call_of_error h
  | getPeers fname gid usAddr =>
    rw [GroupCall.run, Action.bind_pure_state]
    exact getPeers_of_error h

theorem LoggedIn.intact (h : LoggedIn s token uid) : Intact token := by
  obtain ⟨bytes, res, hres, htoken⟩ := h.received
  exact (Response.proper_of_deserialize hres).intact_of_getHeader htoken

/-- The request of a call arrives as it was sent. -/
theorem LoggedIn.arrives (h : LoggedIn s token uid) (hcall : call.Sendable)
    (hsmall : (call.request token).serializeHead.length < 2 ^ 31) :
    (call.request token).throughCodec = .ok (call.request token) := by
  have htoken := h.intact
  cases call with
  | createGroup gid =>
    refine TrackerClient.throughCodec_requestTo_intact (by decide) (by simp +decide) ?_ hsmall
    simp [htoken, show Intact gid from hcall]
  | joinGroup gid =>
    refine TrackerClient.throughCodec_requestTo_intact (by decide) (by simp +decide) ?_ hsmall
    simp [htoken]
  | leaveGroup gid =>
    refine TrackerClient.throughCodec_requestTo_intact (by decide) (by simp +decide) ?_ hsmall
    simp [htoken]
  | shareFile fname gid usAddr =>
    refine TrackerClient.throughCodec_requestTo_intact (by decide) (by simp +decide) ?_ hsmall
    simp [htoken, hcall.1, hcall.2.1, intact_intToDecimal]
  | getPeers fname gid usAddr =>
    refine TrackerClient.throughCodec_requestTo_intact (by decide) (by simp +decide) ?_ hsmall
    simp [htoken, hcall.1, hcall.2.1, intact_intToDecimal]

/-- The request of a call that arrives from too long a head is refused. -/
theorem LoggedIn.overlong_refused (h : LoggedIn s token uid) (hcall : call.Sendable)
    (hlarge : 2 ^ 31 ≤ (call.request token).serializeHead.length) {received : Request}
    (hreceived : (call.request token).throughCodec = .ok received) :
    ∃ res, classify s.tokenMap received remoteAddr = .error res := by
  have htoken := h.intact.line
  cases call with
  | createGroup gid =>
    have hgid : Intact gid := hcall
    exact refused_of_overlong (by decide) (by simp +decide) (by simp [htoken, hgid.line]) hlarge
      hreceived ["Authorization", "Group-Id"] "Group-Id" rfl (by decide) (by decide) _
  | joinGroup gid =>
    exact refused_of_overlong (by decide) (by simp +decide) (by simp [htoken]) hlarge hreceived
      ["Authorization"] "Content-Length" rfl (by decide) (by decide) _
  | leaveGroup gid =>
    exact refused_of_overlong (by decide) (by simp +decide) (by simp [htoken]) hlarge hreceived
      ["Authorization"] "Content-Length" rfl (by decide) (by decide) _
  | shareFile fname gid usAddr =>
    refine refused_of_overlong (by decide) (by simp +decide) ?_ hlarge hreceived
      ["Authorization", "File-Name", "Group-Id", "Server-Address"] "Server-Address" rfl (by decide)
      (by decide) _
    simp [htoken, hcall.1.line, hcall.2.1.line, (intact_intToDecimal _).line]
  | getPeers fname gid usAddr =>
    refine refused_of_overlong (by decide) (by simp +decide) ?_ hlarge hreceived
      ["Authorization", "Group-Id", "File-Name", "Server-Address"] "Server-Address" rfl (by decide)
      (by decide) _
    simp [htoken, hcall.1.line, hcall.2.1.line, (intact_intToDecimal _).line]

/-- A call with too long a head leaves the tracker as it is. -/
theorem LoggedIn.overlong_state (h : LoggedIn s token uid) (hcall : call.Sendable)
    (hlarge : 2 ^ 31 ≤ (call.request token).serializeHead.length) :
    (call.run (overCodec order remoteAddr) token s).2 = s := by
  cases hcodec : (call.request token).throughCodec with
  | error f => exact GroupCall.run_of_error hcodec
  | ok received =>
    obtain ⟨res, hrefused⟩ := h.overlong_refused hcall hlarge hcodec
    rw [GroupCall.run_state hcodec, callback_eq, hrefused]
    rfl

/-- A request for a group that does not name it is refused. -/
theorem needGroup_of_nameless {tokenMap : OrdMap Str Str} {req : Request} {missing : Response}
    (hneed : needToken tokenMap req missing = .ok (token, uid))
    (hgid : req.getHeader (lit "Group-Id") = .error .noSuchHeaderException) :
    needGroup tokenMap req missing = .error missing := by
  rw [needGroup, hneed]
  change (need req missing "Group-Id" >>= fun gid => .ok (uid, gid)) = _
  rw [need, hgid]
  rfl

theorem needGroup_of_named {tokenMap : OrdMap Str Str} {req : Request} {missing : Response}
    {gid : Str}
    (hneed : needToken tokenMap req missing = .ok (token, uid))
    (hgid : req.getHeader (lit "Group-Id") = .ok gid) :
    needGroup tokenMap req missing = .ok (uid, gid) := by
  rw [needGroup, hneed]
  change (need req missing "Group-Id" >>= fun gid => .ok (uid, gid)) = _
  rw [need_of_getHeader hgid]
  rfl

theorem needFile_of_named {tokenMap : OrdMap Str Str} {req : Request} {missing : Response}
    {gid fname serverAddr : Str} (op : Str → Str → Str → Str → Operation)
    (hneed : needToken tokenMap req missing = .ok (token, uid))
    (hgid : req.getHeader (lit "Group-Id") = .ok gid)
    (hfname : req.getHeader (lit "File-Name") = .ok fname)
    (haddr : req.getHeader (lit "Server-Address") = .ok serverAddr) :
    needFile tokenMap req missing op = .ok (op uid gid fname serverAddr) := by
  rw [needFile, needGroup_of_named hneed hgid, need_of_getHeader hfname, need_of_getHeader haddr]
  rfl

/-- A request that carries only the token of a user names no group. -/
theorem LoggedIn.nameless (h : LoggedIn s token uid) (resource : String) (missing : Response) :
    needGroup s.tokenMap (TrackerClient.requestTo .POST resource [("Authorization", token)])
      missing = .error missing := by
  have htoken : Carries (TrackerClient.requestTo .POST resource [("Authorization", token)]) token :=
    TrackerClient.getHeader_requestTo ["Authorization"] rfl (by decide) (by simp)
  exact needGroup_of_nameless (needToken_of_known htoken h.known missing)
    (TrackerClient.getHeader_requestTo_of_notMem ["Authorization"] rfl (by decide))

/-- A request about a file, with its headers in any order. -/
theorem LoggedIn.named (h : LoggedIn s token uid) {method : Method} {resource : String}
    {headers : List (String × Str)} {gid fname serverAddr : Str} (keys : List String)
    (hkeys : headers.map Prod.fst = keys) (hnodup : (("Content-Length" :: keys).map lit).Nodup)
    (htoken : ("Authorization", token) ∈ headers) (hgid : ("Group-Id", gid) ∈ headers)
    (hfname : ("File-Name", fname) ∈ headers) (haddr : ("Server-Address", serverAddr) ∈ headers)
    (missing : Response) (op : Str → Str → Str → Str → Operation) :
    needFile s.tokenMap (TrackerClient.requestTo method resource headers) missing op =
      .ok (op uid gid fname serverAddr) := by
  have sent {key : String} {value : Str} (hmem : (key, value) ∈ headers) :
      (TrackerClient.requestTo method resource headers).getHeader (lit key) = .ok value :=
    TrackerClient.getHeader_requestTo keys hkeys hnodup hmem
  have hneed := needToken_of_known (sent htoken) h.known missing
  exact needFile_of_named op hneed (sent hgid) (sent hfname) (sent haddr)

/-- What the tracker makes of the request of a call. -/
theorem LoggedIn.classify_call (h : LoggedIn s token uid) :
    classify s.tokenMap (call.request token) remoteAddr =
      match call with
      | .createGroup gid => .ok (.createGroup uid gid)
      | .joinGroup _ | .leaveGroup _ => .error (badRequest "token missing")
      | .shareFile fname gid usAddr => .ok (.shareFile uid gid fname (intToDecimal usAddr.uid))
      | .getPeers fname gid usAddr => .ok (.peers uid gid fname (intToDecimal usAddr.uid)) := by
  cases call with
  | createGroup gid =>
    have htoken : Carries (GroupCall.request token (.createGroup gid)) token :=
      TrackerClient.getHeader_requestTo ["Authorization", "Group-Id"] rfl (by decide) (by simp)
    have hgid : (GroupCall.request token (.createGroup gid)).getHeader (lit "Group-Id") = .ok gid :=
      TrackerClient.getHeader_requestTo ["Authorization", "Group-Id"] rfl (by decide) (by simp)
    have hgroup (missing : Response) :=
      needGroup_of_named (needToken_of_known htoken h.known missing) hgid
    have hr : (GroupCall.request token (.createGroup gid)).resource = lit "/create_group" := rfl
    change classifyPost _ _ _ = _
    simp +decide only [classifyPost, hr, if_true, if_false, hgroup]
    rfl
  | joinGroup gid =>
    have hr : (GroupCall.request token (.joinGroup gid)).resource = lit "/join_group" := rfl
    change classifyPost _ _ _ = _
    simp +decide only [classifyPost, hr, if_true, if_false]
    rw [GroupCall.request, TrackerClient.joinGroupRequest, h.nameless]
    rfl
  | leaveGroup gid =>
    have hr : (GroupCall.request token (.leaveGroup gid)).resource = lit "/leave_group" := rfl
    change classifyPost _ _ _ = _
    simp +decide only [classifyPost, hr, if_true, if_false]
    rw [GroupCall.request, TrackerClient.leaveGroupRequest, h.nameless]
    rfl
  | shareFile fname gid usAddr =>
    have hr :
        (GroupCall.request token (.shareFile fname gid usAddr)).resource = lit "/share_file" := rfl
    change classifyPost _ _ _ = _
    simp +decide only [classifyPost, hr, if_true, if_false]
    exact h.named ["Authorization", "File-Name", "Group-Id", "Server-Address"] rfl (by decide)
      (by simp) (by simp) (by simp) (by simp) _ _
  | getPeers fname gid usAddr =>
    have hr : (GroupCall.request token (.getPeers fname gid usAddr)).resource = lit "/peers" := rfl
    have hm : (GroupCall.request token (.getPeers fname gid usAddr)).method = .GET := rfl
    rw [classify, hm]
    dsimp only
    rw [if_pos hr]
    exact h.named ["Authorization", "Group-Id", "File-Name", "Server-Address"] rfl (by decide)
      (by simp) (by simp) (by simp) (by simp) _ _

theorem setAddress_run {text : Str} {n : Int} (h : stoll text = .ok n) :
    setAddress order uid text s = (.ok (), s.withAddress uid (SockAddr.ofUid n)) := by
  rcases setAddress_cases order s uid text with ⟨e, hn, -⟩ | ⟨n', hn, hset⟩
  · rw [h] at hn
    cases hn
  · rw [h] at hn
    cases hn
    exact hset

/-- Answering an exception changes nothing. -/
theorem catching_answers_state (x : TrackerM Response) (hs : List (ExnClass × Response))
    (s : Tracker) :
    (x.catching (answers hs) s).2 = (x s).2 := by
  rcases hx : x s with ⟨e | res, t⟩
  · cases hhandler : handlerFor hs e with
    | none => rw [Action.catching_of_unmatched hx (answers_of_none hhandler)]
    | some res => rw [Action.catching_of_error hx (answers_of_some hhandler), Action.pure_run]
  · rw [Action.catching_of_ok hx]

theorem LoggedIn.callback_state (h : LoggedIn s token uid) (hcall : call.Sendable) :
    (callback order (call.request token) remoteAddr s).2 = (call.effect uid s).2 := by
  rw [callback_eq, h.classify_call]
  cases call with
  | createGroup gid => exact Action.bind_pure_state _ _ s
  | joinGroup gid => rfl
  | leaveGroup gid => rfl
  | shareFile fname gid usAddr =>
    have hn := stoll_intToDecimal hcall.2.2.1 hcall.2.2.2
    change ((Tracker.shareFile uid gid fname >>= fun _ =>
        setAddress order uid _ >>= fun _ => _) s).2 =
      ((Tracker.shareFile uid gid fname >>= fun _ => _) s).2
    rcases hrun : Tracker.shareFile uid gid fname s with ⟨e | _, t⟩
    · rw [Action.bind_of_error hrun, Action.bind_of_error hrun]
    · rw [Action.bind_of_ok hrun, Action.bind_of_ok hrun, Action.bind_of_ok (setAddress_run hn)]
      rfl
  | getPeers fname gid usAddr =>
    have hn := stoll_intToDecimal hcall.2.2.1 hcall.2.2.2
    change ((setAddress order uid _ >>= fun _ => _) s).2 = ((Tracker.getPeers uid gid fname >>= _)
      (s.withAddress uid (SockAddr.ofUid usAddr.uid))).2
    rw [Action.bind_of_ok (setAddress_run hn), catching_answers_state, Action.bind_pure_state]
    exact (Action.bind_pure_state _ _ _).symm

/-- Asking for the peers leaves the user's own address. -/
theorem listPeers_keeps (uid : Str) (ids : List Str) (members : Str) (s : Tracker) :
    (listPeers uid ids members s).2.address.find? uid = s.address.find? uid := by
  induction ids generalizing members s with
  | nil => rfl
  | cons id ids ih =>
    by_cases hid : id = uid
    · rw [listPeers, if_pos hid]
      exact ih members s
    · rw [listPeers, if_neg hid, Action.get_bind_run, Action.modify_bind_run, ih]
      exact OrdMap.find?_insert_of_ne _ _ (Ne.symm hid)

theorem getPeers_keeps (uid gid fname : Str) (s : Tracker) :
    (Tracker.getPeers uid gid fname s).2.address.find? uid = s.address.find? uid := by
  rcases findGroup_cases s uid gid with ⟨-, hfind⟩ | ⟨g, hg, hu, hfind⟩
  · rw [getPeers, Action.bind_of_error hfind]
  · rw [getPeers, Action.bind_of_ok hfind]
    cases hf : g.files.find? fname with
    | none => rfl
    | some f =>
      dsimp only
      rw [Action.modify_bind_run]
      have hlist := listPeers_keeps uid ((f.leechers.add uid).toList ++ f.seeders.toList) []
        (s.withFile gid fname fun f' => { f' with leechers := f.leechers.add uid })
      rcases hrun : listPeers uid ((f.leechers.add uid).toList ++ f.seeders.toList) []
        (s.withFile gid fname fun f' =>
          { f' with leechers := f.leechers.add uid }) with ⟨e | members, t⟩
      · rw [Action.bind_of_error hrun]
        rwa [hrun] at hlist
      · rw [Action.bind_of_ok hrun]
        rw [hrun] at hlist
        split <;> exact hlist

theorem withAddress_eq_iff {addr : SockAddr} :
    s.withAddress uid addr = s ↔ s.address.find? uid = some addr := by
  rw [← OrdMap.insert_eq_self]
  constructor
  · exact congrArg Tracker.address
  · intro h
    rw [withAddress, h]

theorem contents_withAddress_iff {addr : SockAddr} :
    (s.withAddress uid addr).contents = s.contents ↔ s.address.find? uid = some addr := by
  rw [← OrdMap.insert_eq_self]
  constructor
  · exact congrArg Contents.address
  · intro h
    rw [withAddress, h]

theorem GroupCall.effect_eq_iff :
    (call.effect uid s).2.contents = (call.operation uid s).2.contents ↔ call.Agrees s uid := by
  cases call with
  | createGroup gid => exact iff_of_true rfl trivial
  | joinGroup gid => exact eq_comm.trans (joinGroup_idle_iff s uid gid)
  | leaveGroup gid => exact eq_comm.trans (leaveGroup_idle_iff s uid gid)
  | shareFile fname gid usAddr =>
    rw [GroupCall.effect, GroupCall.operation, GroupCall.Agrees, NewAddress, not_not]
    rcases shareFile_state s uid gid fname with ⟨hshares, t, hrun, haddress⟩ | ⟨hno, e, hrun⟩
    · rw [Action.bind_of_ok hrun, hrun, Action.modify_run, contents_withAddress_iff, haddress,
        forall_prop_of_true hshares]
    · rw [Action.bind_of_error hrun, hrun]
      exact iff_of_true rfl fun hshares => absurd hshares hno
  | getPeers fname gid usAddr =>
    rw [GroupCall.effect, GroupCall.operation, GroupCall.Agrees, NewAddress, not_not,
      Action.modify_bind_run, Action.bind_pure_state, Action.bind_pure_state]
    constructor
    · intro h
      have hkeep := getPeers_keeps uid gid fname (s.withAddress uid (SockAddr.ofUid usAddr.uid))
      rw [← getPeers_keeps uid gid fname s]
      refine (congrArg (fun c => c.address.find? uid) h).symm.trans (hkeep.trans ?_)
      exact OrdMap.find?_insert_self _ _ _
    · intro h
      rw [withAddress_eq_iff.mpr h]

end Calls

/-- Client and tracker about groups. A call of a logged-in user whose request has a head of fewer
than `2 ^ 31` bytes does to the tracker what `effect` says, and one with a larger head does
nothing. A call has its behaviour defined and leaves behind the same as the operation of the same
name exactly where `Agrees` says for a smaller head, and for a larger one where the codec can read
it and the operation does nothing either. -/
theorem group_call_agrees_iff {order : AssignOrder} {remoteAddr : SockAddr} {s : Tracker}
    {token uid : Str} {call : GroupCall} (huser : LoggedIn s token uid) (hcall : call.Sendable) :
    ((call.request token).serializeHead.length < 2 ^ 31 →
      (call.run (overCodec order remoteAddr) token s).2 = (call.effect uid s).2) ∧
    (2 ^ 31 ≤ (call.request token).serializeHead.length →
      (call.run (overCodec order remoteAddr) token s).2 = s) ∧
    ((call.request token).throughCodec ≠ .error .undefined ∧
        (call.run (overCodec order remoteAddr) token s).2.contents =
          (call.operation uid s).2.contents ↔
      (call.request token).serializeHead.length < 2 ^ 31 ∧ call.Agrees s uid ∨
        2 ^ 31 ≤ (call.request token).serializeHead.length ∧ (call.request token).Survives ∧
          call.Idle s uid) := by
  have hsmall (h : (call.request token).serializeHead.length < 2 ^ 31) :
      (call.run (overCodec order remoteAddr) token s).2 = (call.effect uid s).2 :=
    (GroupCall.run_state (huser.arrives hcall h)).trans (huser.callback_state hcall)
  have hlarge (h : 2 ^ 31 ≤ (call.request token).serializeHead.length) :
      (call.run (overCodec order remoteAddr) token s).2 = s :=
    huser.overlong_state hcall h
  refine ⟨hsmall, hlarge, ?_⟩
  rcases Nat.lt_or_ge (call.request token).serializeHead.length (2 ^ 31) with hsize | hsize
  · have hdefined : (call.request token).throughCodec ≠ .error .undefined := by
      rw [huser.arrives hcall hsize]
      simp
    rw [hsmall hsize, and_iff_right hdefined, and_iff_right hsize, GroupCall.effect_eq_iff]
    exact (or_iff_left fun h => absurd hsize h.1.not_gt).symm
  · rw [hlarge hsize, Request.throughCodec_defined_iff, and_iff_right hsize, ← call.idle_iff,
      eq_comm]
    exact (or_iff_right fun h => absurd h.1 hsize.not_gt).symm

/-- A second user signs up and logs in. -/
def newcomer : List Event :=
  founding ++ [.request (signingUp "bob" "pw") .new, .request (loggingIn "bob" "pw") .new]

theorem loggedIn_newcomer {s : Tracker} (h : s.tokenMap.find? (lit "bobpw") = some (lit "bob")) :
    LoggedIn s (lit "bobpw") (lit "bob") := by
  have hres : Response.deserialize
      ((ok "successful").addHeader (lit "Authorization") (lit "bobpw")).bytes =
        .ok ((ok "successful").addHeader (lit "Authorization") (lit "bobpw")) := by decide +kernel
  exact ⟨⟨_, _, hres, by decide⟩, h⟩

/-- Joining a group that is there: the operation returns, the call is told that the request is bad,
and what they leave behind is not the same. -/
theorem newcomer_cannot_join : ∃ s, System.Reachable .rightFirst [] (.up s) ∧
    LoggedIn s (lit "bobpw") (lit "bob") ∧ (GroupCall.joinGroup (lit "g")).Sendable ∧
    (joinGroup (lit "bob") (lit "g") s).1 = .ok () ∧
    ((GroupCall.joinGroup (lit "g")).run (overCodec .rightFirst .new) (lit "bobpw") s).1 =
      .error (.thrown .httpException) ∧
    ((GroupCall.joinGroup (lit "g")).run (overCodec .rightFirst .new) (lit "bobpw") s).2.contents ≠
      ((GroupCall.joinGroup (lit "g")).operation (lit "bob") s).2.contents := by
  obtain ⟨s, hs, hcheck⟩ := System.exists_reachable .rightFirst [] newcomer
    (fun s => s.tokenMap.find? (lit "bobpw") = some (lit "bob") ∧
      (joinGroup (lit "bob") (lit "g") s).1 = .ok () ∧
      ((GroupCall.joinGroup (lit "g")).run (overCodec .rightFirst .new) (lit "bobpw") s).1 =
        .error (.thrown .httpException) ∧
      ((GroupCall.joinGroup (lit "g")).run (overCodec .rightFirst .new)
          (lit "bobpw") s).2.contents ≠
        ((GroupCall.joinGroup (lit "g")).operation (lit "bob") s).2.contents) (by decide +kernel)
  obtain ⟨htoken, hcheck⟩ := of_decide_eq_true hcheck
  exact ⟨s, hs, loggedIn_newcomer htoken, ⟨by decide, by decide, by decide⟩, hcheck⟩

/-- Creating a group does the same either way. -/
theorem newcomer_creates_group : ∃ s, System.Reachable .rightFirst [] (.up s) ∧
    ((GroupCall.createGroup (lit "h")).run (overCodec .rightFirst .new)
        (lit "bobpw") s).2.contents =
      ((GroupCall.createGroup (lit "h")).operation (lit "bob") s).2.contents := by
  obtain ⟨s, hs, hcheck⟩ := System.exists_reachable .rightFirst [] newcomer
    (fun s => s.tokenMap.find? (lit "bobpw") = some (lit "bob")) (by decide +kernel)
  have huser := loggedIn_newcomer (of_decide_eq_true hcheck)
  have hcall : (GroupCall.createGroup (lit "h")).Sendable := ⟨by decide, by decide, by decide⟩
  have hagrees := @group_call_agrees_iff .rightFirst .new s _ _ _ huser hcall
  exact ⟨s, hs, (hagrees.2.2.mpr (.inl ⟨by decide +kernel, trivial⟩)).2⟩

end Tracker

end P2PFileSharing
