import P2PFileSharing.Http.Overlong
import P2PFileSharing.SockAddr

/-!
# The tracker client

The calls with which a peer talks to the tracker: each sends one request over a connection of its
own, and turns the status of the response into an exception unless it is OK.
-/

namespace P2PFileSharing.Peer

open Http Library Util

/-- What the calls use of `http_client`. -/
structure HttpClient (σ : Type) where
  connect : Action σ Fault Unit
  sendRequest : Request → Action σ Fault Response
  disconnect : Action σ Fault Unit

namespace TrackerClient

/-! ## Requests -/

/-- A request without a body, with the headers that are added to it. -/
def requestTo (method : Method) (resource : String) (headers : List (String × Str)) : Request :=
  headers.foldl (fun req h => req.addHeader (lit h.1) h.2)
    ((Request.new method (lit resource)).addHeader (lit "Content-Length") (lit "0"))

def signupRequest (uname passwd : Str) : Request :=
  requestTo .POST "/signup" [("Username", uname), ("Password", passwd)]

def loginRequest (uname passwd : Str) : Request :=
  requestTo .POST "/login" [("Username", uname), ("Password", passwd)]

def createGroupRequest (authToken gid : Str) : Request :=
  requestTo .POST "/create_group" [("Authorization", authToken), ("Group-Id", gid)]

/-- The group id of the call is not sent. -/
def joinGroupRequest (authToken _gid : Str) : Request :=
  requestTo .POST "/join_group" [("Authorization", authToken)]

/-- The group id of the call is not sent. -/
def leaveGroupRequest (authToken _gid : Str) : Request :=
  requestTo .POST "/leave_group" [("Authorization", authToken)]

def logoutRequest (authToken : Str) : Request :=
  requestTo .POST "/logout" [("Authorization", authToken)]

def shareFileRequest (authToken fname gid : Str) (usAddr : SockAddr) : Request :=
  requestTo .POST "/share_file" [("Authorization", authToken), ("File-Name", fname),
    ("Group-Id", gid), ("Server-Address", intToDecimal usAddr.uid)]

def getPeersRequest (authToken fname gid : Str) (usAddr : SockAddr) : Request :=
  requestTo .GET "/peers" [("Authorization", authToken), ("Group-Id", gid), ("File-Name", fname),
    ("Server-Address", intToDecimal usAddr.uid)]

/-! ## Calls -/

section Calls

variable {σ : Type} (client : HttpClient σ)

/-- What a status other than OK throws. -/
def refusal (res : Response) : Fault :=
  if res.status = .UNAUTHORIZED then .thrown .invalidCredException else .thrown .httpException

def checkStatus (res : Response) : Action σ Fault Unit :=
  if res.status = .OK then pure () else Action.throw (refusal res)

/-- A call that returns nothing. A connection stays open behind an exception. -/
def call (req : Request) : Action σ Fault Unit := do
  client.connect
  let res ← client.sendRequest req
  checkStatus res
  client.disconnect

def signup (uname passwd : Str) : Action σ Fault Unit := call client (signupRequest uname passwd)

/-- The token that is returned becomes the `auth_token` of the client. -/
def login (uname passwd : Str) : Action σ Fault Str := do
  client.connect
  let res ← client.sendRequest (loginRequest uname passwd)
  if res.status = .OK then
    let authToken ← Action.ofExcept ((res.getHeader (lit "Authorization")).mapError Fault.thrown)
    client.disconnect
    return authToken
  else Action.throw (refusal res)

def createGroup (authToken gid : Str) : Action σ Fault Unit :=
  call client (createGroupRequest authToken gid)

def joinGroup (authToken gid : Str) : Action σ Fault Unit :=
  call client (joinGroupRequest authToken gid)

def leaveGroup (authToken gid : Str) : Action σ Fault Unit :=
  call client (leaveGroupRequest authToken gid)

def logout (authToken : Str) : Action σ Fault Unit := do
  client.connect
  let res ← client.sendRequest (logoutRequest authToken)
  client.disconnect
  checkStatus res

def shareFile (authToken fname gid : Str) (usAddr : SockAddr) : Action σ Fault Unit :=
  call client (shareFileRequest authToken fname gid usAddr)

/-- `substr(1, size - 2)`: the text between the first and the last byte. -/
def inner (s : Str) : Except Fault Str := do
  let rest ← substrFrom s 1
  return if s.length < 2 then rest else rest.take (s.length - 2)

/-- The loop over the segments of a list of peers. `p[1]` is read unchecked. -/
def decodePeers : List Str → Except Fault (List SockAddr)
  | [] => .ok []
  | seg :: segs => do
    match tokenize (← inner seg) (lit ":") with
    | _ :: uid :: _ =>
      let n ← (stoll uid).mapError Fault.thrown
      let addrs ← decodePeers segs
      return SockAddr.ofUid n :: addrs
    | _ => .error .undefined

def peersOfBody (body : BString) : Except Fault (List SockAddr) := do
  let body ← b2s body
  decodePeers (tokenize (← inner body) (lit ","))

/-- The connection is not closed by this call. -/
def getPeers (authToken fname gid : Str) (usAddr : SockAddr) : Action σ Fault (List SockAddr) := do
  client.connect
  let res ← client.sendRequest (getPeersRequest authToken fname gid usAddr)
  if res.status = .OK then Action.ofExcept (peersOfBody res.body)
  else Action.throw (refusal res)

end Calls

/-! ## Texts in brackets -/

theorem inner_enclosed (a b : UInt8) (s : Str) : inner (a :: (s ++ [b])) = .ok s := by
  have hlen : (a :: (s ++ [b])).length = s.length + 2 := by simp
  have hrest : substrFrom (a :: (s ++ [b])) 1 = .ok (s ++ [b]) := by
    rw [substrFrom, if_neg (by omega)]
    rfl
  rw [inner, hrest, hlen]
  simp [bind, Except.bind, pure, Except.pure]

/-- What `substr` leaves of a text that has no end. -/
theorem inner_cons (a : UInt8) (s : Str) : ∃ t, inner (a :: s) = .ok t ∧ t <+: s := by
  have hrest : substrFrom (a :: s) 1 = .ok s := by
    rw [substrFrom, if_neg (by simp)]
    rfl
  rw [inner, hrest]
  simp only [bind, Except.bind, pure, Except.pure, Except.ok.injEq, exists_eq_left']
  split_ifs
  · exact List.prefix_rfl
  · exact List.take_prefix _ _

theorem part_of_inner {s t : Str} (h : inner s = .ok t) : t <:+: s := by
  obtain ⟨rest, hrest, hreturn⟩ := Action.exceptBind_eq_ok.mp h
  obtain ⟨-, -, rfl⟩ := substrFrom_eq_ok.mp hrest
  cases hreturn
  have hdrop := (List.drop_suffix (Int.toNat 1) s).isInfix
  split_ifs
  · exact hdrop
  · exact (List.take_prefix _ _).isInfix.trans hdrop

/-! ## The headers of a request -/

section Headers

variable {method : Method} {resource : String} {headers : List (String × Str)}

theorem requestTo_eq (method : Method) (resource : String) (headers : List (String × Str)) :
    requestTo method resource headers = { Request.new method (lit resource) with
      headers := (("Content-Length", lit "0") :: headers).foldl
        (fun m h => m.insert (lit h.1) ⟨lit h.1, h.2⟩) ∅ } := by
  have hfold (init : HeaderMap) : headers.foldl (fun req h => req.addHeader (lit h.1) h.2)
      { Request.new method (lit resource) with headers := init } =
        { Request.new method (lit resource) with
          headers := headers.foldl (fun m h => m.insert (lit h.1) ⟨lit h.1, h.2⟩) init } := by
    induction headers generalizing init with
    | nil => rfl
    | cons h hs ih => exact ih (init.insert (lit h.1) ⟨lit h.1, h.2⟩)
  exact hfold _

/-- What holds of every header that is added holds of the headers of the request. -/
theorem requestTo_headers (P : Str → Header → Prop)
    (h : ∀ e ∈ ("Content-Length", lit "0") :: headers, P (lit e.1) ⟨lit e.1, e.2⟩) (k : Str)
    (header : Header) (hfind : (requestTo method resource headers).headers.find? k = some header) :
    P k header := by
  rw [requestTo_eq] at hfind
  rcases OrdMap.exists_of_find?_foldl_insert hfind with ⟨e, he, rfl, rfl⟩ | hempty
  · exact h e he
  · cases hempty

/-- Where the keys are different, a header is what was added for its key. -/
theorem getHeader_requestTo (keys : List String) {key : String} {value : Str}
    (hkeys : headers.map Prod.fst = keys) (hnodup : (("Content-Length" :: keys).map lit).Nodup)
    (hmem : (key, value) ∈ headers) :
    (requestTo method resource headers).getHeader (lit key) = .ok value := by
  have hin : lit key ∈ (requestTo method resource headers).headers := by
    rw [requestTo_eq]
    exact OrdMap.mem_foldl_insert.mpr (.inl ⟨_, List.mem_cons_of_mem _ hmem, rfl⟩)
  obtain ⟨h, hfind⟩ := OrdMap.mem_iff_exists.mp hin
  have hsame := hfind
  rw [requestTo_eq] at hsame
  rcases OrdMap.exists_of_find?_foldl_insert hsame with ⟨e, he, hkey, rfl⟩ | hempty
  · have heq : e = (key, value) := by
      have hnodup' : ((("Content-Length", lit "0") :: headers).map fun e => lit e.1).Nodup := by
        rw [← hkeys] at hnodup
        simpa [List.map_map, Function.comp_def] using hnodup
      exact List.inj_on_of_nodup_map hnodup' he (List.mem_cons_of_mem _ hmem) hkey
    rw [Request.getHeader, hfind, heq]
  · cases hempty

/-- A key that was not added has no header. -/
theorem getHeader_requestTo_of_notMem (keys : List String) {key : String}
    (hkeys : headers.map Prod.fst = keys) (hno : lit key ∉ ("Content-Length" :: keys).map lit) :
    (requestTo method resource headers).getHeader (lit key) = .error .noSuchHeaderException := by
  have hnot : lit key ∉ (requestTo method resource headers).headers := by
    rw [requestTo_eq]
    intro hin
    rcases OrdMap.mem_foldl_insert.mp hin with ⟨e, he, hkey⟩ | hempty
    · apply hno
      rw [← hkeys, ← hkey]
      exact List.mem_map_of_mem (List.mem_map_of_mem he)
    · exact OrdMap.notMem_empty _ hempty
  rw [Request.getHeader, OrdMap.notMem_iff.mp hnot]

/-- What the codec leaves of the headers. -/
def carriedHeaders (headers : List (String × Str)) : List (String × Str) :=
  headers.map fun h => (h.1, carriedValue h.2)

theorem requestTo_carried (method : Method) (resource : String) (headers : List (String × Str)) :
    (requestTo method resource headers).headers.carried =
      (requestTo method resource (carriedHeaders headers)).headers := by
  have hfold (es : List (String × Str)) (init : HeaderMap) :
      (es.foldl (fun m h => m.insert (lit h.1) ⟨lit h.1, h.2⟩) init).carried =
        (carriedHeaders es).foldl (fun m h => m.insert (lit h.1) ⟨lit h.1, h.2⟩) init.carried := by
    induction es generalizing init with
    | nil => rfl
    | cons e es ih =>
      refine (ih _).trans ?_
      rw [HeaderMap.carried, OrdMap.map_insert]
      rfl
  have hzero : carriedValue (lit "0") = lit "0" := by decide
  rw [requestTo_eq, requestTo_eq]
  refine (hfold _ _).trans ?_
  rw [carriedHeaders, List.map_cons, hzero]
  rfl

/-- The lines of the head of a request do not run into each other. -/
theorem requestTo_proper (hresource : CrlfFree (lit resource) ∧ 32 ∉ lit resource)
    (hkeys : ∀ h ∈ headers, CrlfFree (lit h.1)) (hvalues : ∀ h ∈ headers, CrlfFree h.2) :
    ∀ l ∈ (requestTo method resource headers).requestLine ::
      headerLines (requestTo method resource headers).headers, ProperLine l := by
  have hlength : CrlfFree (lit "Content-Length") ∧ CrlfFree (lit "0") := by decide
  have hlines : ∀ k h, (requestTo method resource headers).headers.find? k = some h →
      ProperLine h.serialize := by
    refine requestTo_headers (fun k h => ProperLine h.serialize) ?_
    refine List.forall_mem_cons.mpr ⟨properLine_header hlength.1 hlength.2, fun h hh => ?_⟩
    exact properLine_header (hkeys h hh) (hvalues h hh)
  refine List.forall_mem_cons.mpr ⟨⟨?_, ?_⟩, fun l hl => ?_⟩
  · rw [requestTo_eq]
    exact ((crlfFree_method _).join_space hresource.1).join_space (crlfFree_version _)
  · simp [Request.requestLine, SPACE_eq]
  · obtain ⟨e, he, rfl⟩ := List.mem_map.mp hl
    exact hlines e.1 e.2 (OrdMap.mem_entries.mp he)

theorem length_addHeader {r : Request} {key : Str} (hkey : key ∉ r.headers) (value : Str) :
    (r.addHeader key value).serializeHead.length =
      r.serializeHead.length + (key.length + value.length + 4) := by
  have hinsert := OrdMap.length_flatMap_insert (fun p => p.2.serialize ++ CRLF) hkey
    (⟨key, value⟩ : Header)
  have hcrlf : CRLF.length = 2 := rfl
  have hsep : (lit ":" ++ SPACE).length = 2 := by decide
  simp only [Header.serialize, List.length_append, hcrlf] at hinsert hsep
  simp only [Request.serializeHead_eq_block, block, headerLines, List.flatMap_cons,
    List.flatMap_map, Request.addHeader, Request.requestLine, Header.serialize,
    List.length_append] at *
  omega

/-- The size of a head, where the keys are different. -/
theorem length_requestTo (hnodup : (("Content-Length" :: headers.map Prod.fst).map lit).Nodup) :
    (requestTo method resource headers).serializeHead.length =
      method.toStr.length + (lit resource).length + 33 +
        (headers.map fun h => (lit h.1).length + h.2.length + 4).sum := by
  have hfold (hs : List (String × Str)) (r : Request) (hnodup : (hs.map fun h => lit h.1).Nodup)
      (hfresh : ∀ h ∈ hs, lit h.1 ∉ r.headers) :
      (hs.foldl (fun req h => req.addHeader (lit h.1) h.2) r).serializeHead.length =
        r.serializeHead.length + (hs.map fun h => (lit h.1).length + h.2.length + 4).sum := by
    induction hs generalizing r with
    | nil => simp
    | cons h hs ih =>
      obtain ⟨hnot, hnodup⟩ := List.nodup_cons.mp hnodup
      obtain ⟨hfirst, hothers⟩ := List.forall_mem_cons.mp hfresh
      rw [List.foldl_cons, ih _ hnodup fun h' hh' => ?_, length_addHeader hfirst, List.map_cons,
        List.sum_cons, Nat.add_assoc]
      refine fun hmem => ?_
      rcases (OrdMap.mem_insert _ _ _ _).mp hmem with heq | hold
      · exact hnot (List.mem_map.mpr ⟨h', hh', heq⟩)
      · exact hothers h' hh' hold
  have hbase : ((Request.new method (lit resource)).addHeader (lit "Content-Length")
      (lit "0")).serializeHead.length = method.toStr.length + (lit resource).length + 33 := by
    have hlength : (lit "Content-Length").length = 14 ∧ (lit "0").length = 1 := by decide
    have hversion : Version.HTTP_2_0.toStr.length = 8 := by decide
    have hsep : SPACE.length = 1 ∧ CRLF.length = 2 := by decide
    have hnone : headerLines ∅ = [] := rfl
    rw [length_addHeader (OrdMap.notMem_empty _), hlength.1, hlength.2]
    simp only [Request.new, Request.serializeHead_eq_block, block, hnone, Request.requestLine,
      List.flatMap_cons, List.flatMap_nil, List.length_append, List.length_nil, hversion, hsep.1,
      hsep.2]
    omega
  simp only [List.map_cons, List.map_map, List.nodup_cons] at hnodup
  rw [requestTo, hfold headers _ hnodup.2 fun h hh hmem => ?_, hbase]
  rcases (OrdMap.mem_insert _ _ _ _).mp hmem with heq | hold
  · exact hnodup.1 (List.mem_map.mpr ⟨h, hh, heq⟩)
  · exact OrdMap.notMem_empty _ hold

theorem requestTo_keyed (hkeys : ∀ h ∈ headers, 58 ∉ lit h.1) :
    (requestTo method resource headers).headers.Keyed := by
  refine requestTo_headers (fun k h => k = h.key ∧ 58 ∉ h.key) ?_
  exact List.forall_mem_cons.mpr ⟨⟨rfl, by decide⟩, fun h hh => ⟨rfl, hkeys h hh⟩⟩

theorem mem_requestTo {k : Str} : k ∈ (requestTo method resource headers).headers ↔
    k ∈ ("Content-Length" :: headers.map Prod.fst).map lit := by
  rw [requestTo_eq]
  refine OrdMap.mem_foldl_insert.trans ?_
  simp [eq_comm]

/-- A request without a body comes out of the codec with what is left of its headers. -/
theorem throughCodec_requestTo (hresource : CrlfFree (lit resource) ∧ 32 ∉ lit resource)
    (hkeys : ∀ h ∈ headers, CrlfFree (lit h.1) ∧ 58 ∉ lit h.1)
    (hvalues : ∀ h ∈ headers, CrlfFree h.2)
    (hsmall : (requestTo method resource headers).serializeHead.length < 2 ^ 31) :
    (requestTo method resource headers).throughCodec =
      .ok (requestTo method resource (carriedHeaders headers)) := by
  have hkeyed : (requestTo method resource headers).headers.Keyed :=
    requestTo_keyed fun h hh => (hkeys h hh).2
  have hne : (requestTo method resource headers).headers.entries ≠ [] := by
    have hmem : lit "Content-Length" ∈ (requestTo method resource headers).headers :=
      mem_requestTo.mpr (by simp)
    obtain ⟨h, hfind⟩ := OrdMap.mem_iff_exists.mp hmem
    exact List.ne_nil_of_mem (OrdMap.mem_entries.mpr hfind)
  have hspace : 32 ∉ (requestTo method resource headers).resource := by
    rw [requestTo_eq]
    exact hresource.2
  have hversion : (requestTo method resource headers).version ≠ .UNDEFINED := by
    rw [requestTo_eq]
    exact (by decide : Version.HTTP_2_0 ≠ .UNDEFINED)
  have hbody : (requestTo method resource headers).body = [] := by
    rw [requestTo_eq]
    rfl
  refine Request.throughCodec_eq_ok.mpr ⟨Request.serialize_of_small hsmall, ?_⟩
  rw [Request.bytes, hbody, Request.deserialize_head hspace
    (requestTo_proper hresource (fun h hh => (hkeys h hh).1) hvalues) hkeyed hsmall, if_neg hne,
    if_neg hversion, requestTo_carried, requestTo_eq, requestTo_eq]
  rfl

/-- A request with too long a head that comes out has lost its headers, or the last one. -/
theorem received_of_overlong {received : Request}
    (hresource : CrlfFree (lit resource) ∧ 32 ∉ lit resource)
    (hkeys : ∀ h ∈ headers, CrlfFree (lit h.1) ∧ 58 ∉ lit h.1)
    (hvalues : ∀ h ∈ headers, CrlfFree h.2)
    (hlarge : 2 ^ 31 ≤ (requestTo method resource headers).serializeHead.length)
    (hreceived : (requestTo method resource headers).throughCodec = .ok received)
    {keys : List String} {last : String} (hsame : headers.map Prod.fst = keys)
    (hlast : lit last ∈ ("Content-Length" :: keys).map lit)
    (hmax : ∀ key ∈ ("Content-Length" :: keys).map lit, key ≤ lit last) :
    received.headers = ∅ ∨ received.method = method ∧ received.resource = lit resource ∧
      ∀ key ∈ received.headers, key ∈ ("Content-Length" :: keys).map lit ∧ key ≠ lit last := by
  subst hsame
  have hparts : (requestTo method resource headers).method = method ∧
      (requestTo method resource headers).resource = lit resource ∧
      (requestTo method resource headers).body = [] := by
    rw [requestTo_eq]
    exact ⟨rfl, rfl, rfl⟩
  obtain ⟨hm, hr, hbody⟩ := hparts
  have hspace : 32 ∉ (requestTo method resource headers).resource := by
    rw [hr]
    exact hresource.2
  have h := Request.received_of_overlong hspace
    (requestTo_proper hresource (fun h hh => (hkeys h hh).1) hvalues)
    (requestTo_keyed fun h hh => (hkeys h hh).2) hbody hlarge hreceived (mem_requestTo.mpr hlast)
    fun key hkey => hmax key (mem_requestTo.mp hkey)
  rw [hm, hr] at h
  exact h.imp_right fun ⟨hm, hr, hmem⟩ =>
    ⟨hm, hr, fun key hkey => (hmem key hkey).imp_left mem_requestTo.mp⟩

/-- A request whose values are intact comes out as it was put in. -/
theorem throughCodec_requestTo_intact (hresource : CrlfFree (lit resource) ∧ 32 ∉ lit resource)
    (hkeys : ∀ h ∈ headers, CrlfFree (lit h.1) ∧ 58 ∉ lit h.1)
    (hvalues : ∀ h ∈ headers, Intact h.2)
    (hsmall : (requestTo method resource headers).serializeHead.length < 2 ^ 31) :
    (requestTo method resource headers).throughCodec =
      .ok (requestTo method resource headers) := by
  have hsame : carriedHeaders headers = headers := by
    refine (List.map_congr_left fun h hh => ?_).trans (List.map_id headers)
    exact Prod.ext rfl (hvalues h hh).carriedValue_eq
  rw [throughCodec_requestTo hresource hkeys (fun h hh => (hvalues h hh).line) hsmall, hsame]

end Headers

end TrackerClient

end P2PFileSharing.Peer
