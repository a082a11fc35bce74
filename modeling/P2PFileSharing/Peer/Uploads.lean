import P2PFileSharing.Http.Conversations
import P2PFileSharing.Peer.BitfieldChannel
import P2PFileSharing.Peer.ConcurrentReads
import P2PFileSharing.Peer.State

/-!
# Uploads over connections

The upload server with a thread for each connection. The threads share the stream and its buffer,
and the callback of a thread makes the steps of `read_piece` one by one. As long as no other thread
comes between `seekg` and `tellg`, or between `read` and the copy, every peer gets the pieces that
it has asked for, in the order in which it has asked.
-/

namespace P2PFileSharing.Peer

open Http Library UploadServer Util

/-! ## The callback, step by step -/

/-- `stoi(req.get_header("Piece-Id"))` -/
def requestedPiece (req : Request) : Except ExnClass Int := do
  let header ← req.getHeader (lit "Piece-Id")
  stoi header

theorem requestedPiece_of_header {req : Request} {value : Str}
    (h : req.getHeader (lit "Piece-Id") = .ok value) : requestedPiece req = stoi value := by
  rw [requestedPiece, h]
  rfl

/-- Where `callback` is. -/
inductive UploadCall where
  | reading (pieceId : Int) (c : ReadCall)
  /-- There is no number in the request. -/
  | thrown (e : ExnClass)

namespace UploadCall

/-- What `callback` makes of what it has read, or of the exception that it has caught. -/
def answer (bf : Bitfield) : Except ExnClass BString → Except ExnClass Response
  | .ok piece => .ok (served bf piece)
  | .error e =>
    match handlerFor callbackHandlers e with
    | some res => .ok res
    | none => .error e

end UploadCall

/-- The callback of the upload server, when `get_bitfield()` gives `bf`. -/
def uploadWorker (bf : Bitfield) : Http.Worker UploadServer UploadCall where
  enter req _ :=
    match requestedPiece req with
    | .ok pieceId => .reading pieceId .seekEnd
    | .error e => .thrown e
  act
    | .reading _ (.returned _), _ => none
    | .reading pieceId c, server =>
      some (.reading pieceId (c.next pieceId server).1, (c.next pieceId server).2)
    | .thrown _, _ => none
  result
    | .reading _ (.returned result) => some (UploadCall.answer bf result)
    | .reading _ _ => none
    | .thrown e => some (UploadCall.answer bf (.error e))

namespace UploadCall

variable {bf : Bitfield} {w w' : UploadCall} {server server' : UploadServer} {req : Request}

/-- A call that has not returned makes the next step of `read_piece`. -/
theorem act_cases (h : (uploadWorker bf).act w server = some (w', server')) :
    ∃ pieceId c, w = .reading pieceId c ∧ (∀ result, c ≠ .returned result) ∧
      w' = .reading pieceId (c.next pieceId server).1 ∧ server' = (c.next pieceId server).2 := by
  cases w with
  | thrown e => cases h
  | reading pieceId c =>
    cases c with
    | returned result => cases h
    | seekEnd | tell | rewind | read | copy =>
      cases h
      exact ⟨pieceId, _, rfl, by simp, rfl, rfl⟩

theorem act_reading (bf : Bitfield) (pieceId : Int) {c : ReadCall}
    (hc : ∀ result, c ≠ .returned result) (server : UploadServer) :
    (uploadWorker bf).act (.reading pieceId c) server =
      some (.reading pieceId (c.next pieceId server).1, (c.next pieceId server).2) := by
  cases c with
  | returned result => exact absurd rfl (hc result)
  | seekEnd | tell | rewind | read | copy => rfl

/-- The calls that have a result. -/
theorem result_cases {r : Except ExnClass Response} (h : (uploadWorker bf).result w = some r) :
    (∃ pieceId result, w = .reading pieceId (.returned result) ∧ r = answer bf result) ∨
      ∃ e, w = .thrown e ∧ r = answer bf (.error e) := by
  cases w with
  | thrown e => exact .inr ⟨e, rfl, (Option.some.inj h).symm⟩
  | reading pieceId c =>
    cases c with
    | returned result => exact .inl ⟨pieceId, result, rfl, (Option.some.inj h).symm⟩
    | seekEnd | tell | rewind | read | copy => cases h

/-! ## A callback that runs alone -/

/-- What is left of the callback. -/
def rest (bf : Bitfield) : UploadCall → Action UploadServer ExnClass Response
  | .reading pieceId c, server =>
    (answer bf (c.rest pieceId server).1, (c.rest pieceId server).2)
  | .thrown e, server => (answer bf (.error e), server)

/-- A step of `read_piece`, and then what is left. -/
theorem rest_next (bf : Bitfield) (pieceId : Int) (c : ReadCall) (server : UploadServer) :
    rest bf (.reading pieceId (c.next pieceId server).1) (c.next pieceId server).2 =
      rest bf (.reading pieceId c) server := by
  rw [rest, rest, ReadCall.rest_next]

/-- Without other threads, what is left of the callback is what happens. -/
theorem returns_rest (bf : Bitfield) (w : UploadCall) (server : UploadServer) :
    (uploadWorker bf).Returns w server (rest bf w server).1 (rest bf w server).2 := by
  cases w with
  | thrown e => exact .now rfl
  | reading pieceId c =>
    induction hn : c.steps using Nat.strong_induction_on generalizing c server with
    | _ n ih =>
      by_cases hreturned : ∃ result, c = .returned result
      · obtain ⟨result, rfl⟩ := hreturned
        exact .now rfl
      · have hrunning := not_exists.mp hreturned
        have hsteps := ReadCall.steps_next pieceId server hrunning
        have hlater := ih _ (hn ▸ hsteps) (c.next pieceId server).2 (c.next pieceId server).1 rfl
        rw [rest_next] at hlater
        exact .after (act_reading bf pieceId hrunning server) hlater

theorem catching_answer (bf : Bitfield) {x : Action UploadServer ExnClass Response}
    {r : Except ExnClass BString}
    (h : x server = (r.map (served bf), server')) :
    Action.catching x (fun e => (handlerFor callbackHandlers e).map pure) server =
      (answer bf r, server') := by
  rw [Action.catching, h]
  cases r with
  | ok piece => rfl
  | error e =>
    simp only [Except.map, answer]
    cases handlerFor callbackHandlers e with
    | some res => rfl
    | none => rfl

theorem rest_enter (bf : Bitfield) (req : Request) (sock : SockAddr) (server : UploadServer) :
    callback bf req sock server = rest bf ((uploadWorker bf).enter req sock) server := by
  have henter : (uploadWorker bf).enter req sock = match requestedPiece req with
    | .ok pieceId => .reading pieceId .seekEnd
    | .error e => .thrown e := rfl
  rw [callback, henter]
  cases hheader : req.getHeader (lit "Piece-Id") with
  | error e =>
    have hid : requestedPiece req = .error e := by
      rw [requestedPiece, hheader]
      rfl
    rw [hid]
    exact catching_answer bf (r := .error e) rfl
  | ok header =>
    rw [requestedPiece_of_header hheader]
    cases hvalue : stoi header with
    | error e =>
      refine catching_answer bf (r := .error e) ?_
      rw [Action.bind_of_ok (Action.ofExcept_run _ _), hvalue]
      rfl
    | ok pieceId =>
      rcases hread : readPiece pieceId server with ⟨r, server'⟩
      have hrest : rest bf (.reading pieceId .seekEnd) server = (answer bf r, server') := by
        rw [rest, ReadCall.rest, hread]
      rw [hrest]
      refine catching_answer bf ?_
      rw [Action.bind_of_ok (Action.ofExcept_run _ _), hvalue,
        Action.bind_of_ok (Action.ofExcept_run _ _)]
      cases r with
      | ok piece => exact Action.bind_of_ok hread
      | error e => exact Action.bind_of_error hread

end UploadCall

/-- The steps of a thread that runs alone are those of `callback`. -/
theorem uploadWorker_returns (bf : Bitfield) (req : Request) (sock : SockAddr)
    (server : UploadServer) :
    (uploadWorker bf).Returns ((uploadWorker bf).enter req sock) server
      (callback bf req sock server).1 (callback bf req sock server).2 := by
  have hreturns := UploadCall.returns_rest bf ((uploadWorker bf).enter req sock) server
  rwa [← UploadCall.rest_enter] at hreturns

/-! ## What the server sends -/

variable {n : Nat} {bf : Bitfield}

/-- A seeder sets the bits of all pieces, and the bits behind them stay as they were. -/
theorem bytes_of_seeder (hn : 1 ≤ n) (hbf : Bitfield.holding n (List.range n) = .ok bf) :
    bf.container.length = (n - 1) / 8 + 1 ∧
      ∀ x ∈ bf.container, ∃ m < 8, x.toNat = 2 ^ (m + 1) - 1 := by
  have hall : ∀ i ∈ List.range n, (i : Int) < (Bitfield.ofCount n).size := by
    simp [Bitfield.ofCount]
  obtain ⟨bf', hbf', -, hlen, htest⟩ := Bitfield.foldlM_set (Bitfield.roomy_ofCount hn) hall
  obtain rfl : bf' = bf := Except.ok.inj (hbf'.symm.trans hbf)
  rw [Bitfield.length_ofCount hn] at hlen
  refine ⟨hlen, fun x hx => ?_⟩
  obtain ⟨k, hk, rfl⟩ := List.mem_iff_getElem.mp hx
  refine ⟨min 8 (n - 8 * k) - 1, by omega, Nat.eq_of_testBit_eq fun j => ?_⟩
  rw [Nat.testBit_two_pow_sub_one]
  by_cases hj : j < 8
  · have hbit := htest (8 * k + j)
    have hplace : (8 * k + j) / 8 = k ∧ (8 * k + j) % 8 = j := by omega
    rw [Bitfield.test_eq_testBit, Bitfield.test_ofCount, Bool.or_false, hplace.1, hplace.2,
      List.getD_eq_getElem?_getD, List.getElem?_eq_getElem hk, Option.getD_some] at hbit
    rw [hbit, decide_eq_decide, List.mem_range]
    omega
  · have hbyte := (bf'.container[k]).toNat_lt
    rw [Nat.testBit_lt_two_pow (hbyte.trans_le (Nat.pow_le_pow_right (by decide) (by omega))),
      eq_comm, decide_eq_false_iff_not]
    omega

/-- The bitfield of a seeder never has a byte that is lost in its header. -/
theorem fieldSafe_of_seeder (hn : 1 ≤ n) (hbf : Bitfield.holding n (List.range n) = .ok bf) :
    FieldSafe bf.container := by
  have hintact : Intact bf.container := by
    refine intact_of_visible fun x hx => ?_
    obtain ⟨m, hm, hvalue⟩ := (bytes_of_seeder hn hbf).2 x hx
    obtain rfl : x = (2 ^ (m + 1) - 1).toUInt8 := by
      rw [← hvalue]
      simp
    interval_cases m <;> decide
  obtain ⟨hfirst, hlast⟩ := trim_eq_self.mp hintact.trim
  exact ⟨hintact.colon, hintact.line, hfirst, hlast⟩

theorem length_serializeHead_served (bf : Bitfield) {p : BString} (hp : p.length ≤ pieceLength) :
    (served bf p).serializeHead.length ≤ 70 + bf.container.length := by
  have hdigits : (toDecimal p.length).length ≤ 5 + 1 :=
    length_toDecimal_le (hp.trans_lt (by decide))
  have hconst : servedLine.length = 23 ∧ CRLF.length = 2 ∧ (lit ":" ++ SPACE).length = 2 ∧
    (lit "Bit-Field").length = 9 ∧ (lit "Content-Length").length = 14 := by decide
  obtain ⟨h1, h2, h3, h4, h5⟩ := hconst
  rw [List.length_append] at h3
  simp only [serializeHead_served, block, fieldHeader, lengthHeader, Header.serialize,
    List.flatMap_cons, List.flatMap_nil, List.length_append, List.length_nil, h1, h2, h3, h4, h5]
  omega

/-- A piece from a server with a safe bitfield can be carried. -/
theorem carried_served (hsafe : FieldSafe bf.container) (hlen : bf.container.length ≤ 2 ^ 28)
    {p : BString} (hp : p.length ≤ pieceLength) : Carried responseKind (served bf p) := by
  have hkey : lit "Bit-Field" ≠ lit "Content-Length" := by decide
  have hhead := length_serializeHead_served bf hp
  have hpiece : pieceLength = 524288 := rfl
  refine ⟨Response.survives_iff.mpr (transparent_served hsafe hp hlen), ?_, ?_⟩
  · have hlength : (served bf p).contentLength = .ok (p.length : Int) := by
      have hbody (res : Response) : (res.setBody p).contentLength = res.contentLength := rfl
      rw [served, hbody, Response.contentLength_addHeader_of_ne _ _ hkey,
        Response.contentLength_addHeader_self, stoll_toDecimal (by omega)]
      rfl
    exact hlength
  · change ((served bf p).serializeHead ++ p).length < 2 ^ 31
    rw [List.length_append]
    omega

/-- The other answers of the server can be carried, too. -/
theorem carried_refusal : ∀ h ∈ callbackHandlers, Carried responseKind h.2 := by
  have hcheck : ∀ h ∈ callbackHandlers, CrlfFree h.2.statusTxt ∧
      (∀ e ∈ h.2.headers.entries, e.1 = e.2.key ∧ e.2.Transparent) ∧ h.2.headers.entries ≠ [] ∧
        h.2.statusTxt ≠ [] ∧ h.2.statusTxt.getLast? ≠ some 32 ∧
          (h.2.serializeHead ++ h.2.body).length < 1024 ∧
            h.2.contentLength = .ok h.2.body.length := by
    decide +kernel
  intro h hmem
  obtain ⟨hline, hheaders, hne, htxt, hlast, hsmall, hlength⟩ := hcheck h hmem
  have hhead : h.2.serializeHead.length < 2 ^ 31 := by
    rw [List.length_append] at hsmall
    omega
  have htransparent : h.2.Transparent :=
    ⟨⟨hline, HeaderMap.transparent_iff.mpr hheaders⟩, hne, htxt, hlast, hhead⟩
  exact ⟨Response.survives_iff.mpr htransparent, hlength, hsmall.trans (by decide)⟩

/-- What a downloader asks for can be carried. -/
theorem carried_pieceRequest {k : Nat} (hk : k < 2 ^ 31) :
    Carried requestKind (PeerState.pieceRequest k) := by
  have hentries : (PeerState.pieceRequest k).headers.entries =
      [(lit "Content-Length", ⟨lit "Content-Length", lit "0"⟩),
        (lit "Piece-Id", ⟨lit "Piece-Id", toDecimal k⟩)] := rfl
  have hheaders : (PeerState.pieceRequest k).headers.Transparent := by
    have hkey : CrlfFree (lit "Piece-Id") ∧ 58 ∉ lit "Piece-Id" := by decide
    have hlength : Header.Transparent ⟨lit "Content-Length", lit "0"⟩ := by decide
    rw [HeaderMap.transparent_iff, hentries, List.forall_mem_cons, List.forall_mem_singleton]
    exact ⟨⟨rfl, hlength⟩, rfl, (intact_toDecimal k).transparent hkey.1 hkey.2⟩
  have hhead : (PeerState.pieceRequest k).serializeHead.length ≤ 100 := by
    have hdigits : (toDecimal k).length ≤ 9 + 1 := length_toDecimal_le (by omega)
    have hline : (PeerState.pieceRequest k).requestLine = lit "GET /piece HTTP/2.0" := rfl
    have hconst : (lit "GET /piece HTTP/2.0").length = 19 ∧ CRLF.length = 2 ∧
      (lit ":" ++ SPACE).length = 2 ∧ (lit "Piece-Id").length = 8 ∧
      (lit "Content-Length").length = 14 ∧ (lit "0").length = 1 := by decide
    obtain ⟨h1, h2, h3, h4, h5, h6⟩ := hconst
    rw [List.length_append] at h3
    simp only [Request.serializeHead_eq_block, headerLines, hentries, hline, block,
      Header.serialize, List.map_cons, List.map_nil, List.flatMap_cons, List.flatMap_nil,
      List.length_append, List.length_nil, h1, h2, h3, h4, h5, h6]
    omega
  have hresource : 32 ∉ lit "/piece" ∧ CrlfFree (lit "/piece") := by decide
  have hversion : (PeerState.pieceRequest k).version = .HTTP_2_0 := rfl
  have htransparent : (PeerState.pieceRequest k).Transparent :=
    ⟨⟨hresource.1, hresource.2, hheaders⟩, by simp [hentries, hversion], by omega⟩
  have hbody : (PeerState.pieceRequest k).body = [] := rfl
  refine ⟨Request.survives_iff.mpr htransparent, rfl, ?_⟩
  change ((PeerState.pieceRequest k).serializeHead ++ (PeerState.pieceRequest k).body).length < _
  rw [hbody, List.append_nil]
  omega

/-! ## No thread is left without a response -/

/-- The last handler takes it. -/
abbrev Caught (e : ExnClass) : Prop := ExnClass.exception.takes e = true

theorem exists_refusal {e : ExnClass} (h : Caught e) (bf : Bitfield) :
    ∃ c ∈ callbackHandlers, UploadCall.answer bf (.error e) = .ok c.2 := by
  have hsome : (callbackHandlers.find? fun h => h.1.takes e).isSome :=
    List.find?_isSome.mpr ⟨_, List.mem_of_getLast? rfl, h⟩
  obtain ⟨c, hc⟩ := Option.isSome_iff_exists.mp hsome
  refine ⟨c, List.mem_of_find?_eq_some hc, ?_⟩
  rw [UploadCall.answer, handlerFor, hc, Option.map_some]

theorem throws_onTsfs {α : Type} {x : Action FStream ExnClass α} (h : Action.Throws Caught x) :
    Action.Throws Caught (onTsfs x) := by
  intro s e t hrun
  obtain ⟨hx, -⟩ := Prod.mk.inj hrun
  exact h s.tsfs e _ (Prod.ext hx rfl)

theorem throws_sentry : Action.Throws Caught FStream.sentry := by
  refine Action.throws_get.bind fun fs => ?_
  split_ifs
  · exact Action.throws_throw (by decide)
  · exact Action.throws_pure ()

theorem throws_seekg (pos : Int) : Action.Throws Caught (FStream.seekg pos) := by
  refine throws_sentry.bind fun _ => ?_
  split_ifs
  · exact (Action.throws_modify _).bind fun _ => Action.throws_throw (by decide)
  · exact Action.throws_modify _

theorem throws_readBuf (pos : Int) (count : Nat) : Action.Throws Caught (readBuf pos count) := by
  refine (throws_onTsfs (throws_seekg pos)).bind fun _ => Action.throws_get.bind fun s => ?_
  refine (Action.throws_modify _).bind fun _ => ?_
  split_ifs
  · exact Action.throws_throw (by decide)
  · exact Action.throws_pure ()

theorem throws_step (pieceId : Int) (c : ReadCall) : Action.Throws Caught (c.step pieceId) := by
  cases c with
  | seekEnd =>
    have hseek : Action.Throws Caught FStream.seekgEnd :=
      throws_sentry.bind fun _ => Action.throws_modify _
    exact (throws_onTsfs hseek).bind fun _ => Action.throws_pure _
  | tell =>
    have htell : Action.Throws Caught FStream.tellg :=
      throws_sentry.bind fun _ => Action.throws_get.bind fun _ => Action.throws_pure _
    exact (throws_onTsfs htell).bind fun _ => Action.throws_pure _
  | rewind fsize =>
    refine (throws_onTsfs (throws_seekg 0)).bind fun _ => ?_
    split_ifs
    · exact Action.throws_throw (by decide)
    · exact Action.throws_pure _
  | read readCount => exact (throws_readBuf _ _).bind fun _ => Action.throws_pure _
  | copy readCount => exact Action.throws_get.bind fun _ => Action.throws_pure _
  | returned result => exact Action.throws_pure _

theorem requestedPiece_error {req : Request} {e : ExnClass} (h : requestedPiece req = .error e) :
    e = .noSuchHeaderException ∨ e = .invalidArgument ∨ e = .outOfRange := by
  rw [requestedPiece, Request.getHeader] at h
  split at h
  next header _ =>
    change stoi header.value = .error e at h
    rw [stoi] at h
    split at h
    next =>
      cases h
      exact .inr (.inl rfl)
    next =>
      split_ifs at h
      cases h
      exact .inr (.inr rfl)
  next =>
    cases h
    exact .inl rfl

theorem requestedPiece_lt {req : Request} {pieceId : Int} (h : requestedPiece req = .ok pieceId) :
    pieceId < 2 ^ 31 := by
  cases hheader : req.getHeader (lit "Piece-Id") with
  | error e =>
    rw [requestedPiece, hheader] at h
    cases h
  | ok header =>
    rw [requestedPiece_of_header hheader] at h
    exact (stoi_range h).2

/-- No more than a piece is read, and what is thrown is caught. -/
def ReadCall.Bounded : ReadCall → Prop
  | .read readCount | .copy readCount => readCount ≤ pieceLength
  | .returned (.ok piece) => piece.length ≤ pieceLength
  | .returned (.error e) => Caught e
  | .seekEnd | .tell | .rewind _ => True

theorem ReadCall.Bounded.next {c : ReadCall} (h : c.Bounded) (pieceId : Int)
    (server : UploadServer) : (c.next pieceId server).1.Bounded := by
  rcases hstep : c.step pieceId server with ⟨e | c', left⟩
  · rw [next_of_error hstep]
    exact throws_step pieceId c server e left hstep
  · rw [next_of_ok hstep]
    cases c with
    | seekEnd | tell =>
      obtain ⟨a, u, -, hreturn⟩ := Action.bind_eq_ok.mp hstep
      cases hreturn
      trivial
    | rewind fsize =>
      obtain ⟨-, u, -, htest⟩ := Action.bind_eq_ok.mp hstep
      split at htest <;> cases htest
      exact Nat.min_le_left _ _
    | read readCount =>
      obtain ⟨a, u, -, hreturn⟩ := Action.bind_eq_ok.mp hstep
      cases hreturn
      exact h
    | copy readCount =>
      cases hstep
      exact (List.length_take_le _ _).trans h
    | returned result =>
      cases hstep
      exact h

namespace UploadCall

def Bounded : UploadCall → Prop
  | .reading _ c => c.Bounded
  | .thrown e => Caught e

end UploadCall

/-- Whatever the threads do to each other, each of them has a response for its peer in the end, and
the response can be carried. -/
theorem uploadWorker_answersWell (hsafe : FieldSafe bf.container)
    (hlen : bf.container.length ≤ 2 ^ 28) :
    (uploadWorker bf).AnswersWell UploadCall.Bounded fun _ => True := by
  constructor
  · intro req sock _
    rw [uploadWorker]
    dsimp only
    split
    next => trivial
    next e he =>
      change Caught e
      rcases requestedPiece_error he with rfl | rfl | rfl <;> decide
  · intro w server w' server' hw _ hact
    obtain ⟨pieceId, c, rfl, -, rfl, rfl⟩ := UploadCall.act_cases hact
    exact ⟨ReadCall.Bounded.next hw pieceId server, trivial⟩
  · intro w r hw hresult
    have hrefusal {e : ExnClass} (he : Caught e) :
        ∃ res, UploadCall.answer bf (.error e) = .ok res ∧ Carried responseKind res := by
      obtain ⟨c, hmem, hanswer⟩ := exists_refusal he bf
      exact ⟨c.2, hanswer, carried_refusal c hmem⟩
    obtain ⟨pieceId, result, rfl, rfl⟩ | ⟨e, rfl, rfl⟩ := UploadCall.result_cases hresult
    · cases result with
      | ok piece => exact ⟨_, rfl, carried_served hsafe hlen hw⟩
      | error e => exact hrefusal hw
    · exact hrefusal hw

/-! ## Every peer gets the pieces that it has asked for -/

/-- What a peer is to get for a request, when `content` is shared. -/
def reply (bf : Bitfield) (content : BString) (req : Request) : Response :=
  match requestedPiece req with
  | .ok pieceId =>
    if pieceId.toNat * pieceLength < content.length then
      served bf (piece content pieceId.toNat)
    else .new .BAD_REQUEST (lit "Invalid Piece No")
  | .error .noSuchHeaderException => .new .BAD_REQUEST (lit "Piece-Id Required")
  | .error _ => .new .INTERNAL_SERVER_ERROR (lit "server error")

/-- A downloader asks for the piece that it means. -/
theorem requestedPiece_pieceRequest {i : Nat} (hi : i < 2 ^ 31) :
    requestedPiece (PeerState.pieceRequest i) = .ok (i : Int) :=
  (requestedPiece_of_header rfl).trans (stoi_toDecimal hi)

/-- A number in the request is not negative. -/
def Proper (req : Request) : Prop := ∀ pieceId, requestedPiece req = .ok pieceId → 0 ≤ pieceId

/-- A call of `read_piece` on its way to piece `i`. -/
def ReadCall.OnItsWay (content : BString) (i : Nat) : ReadCall → UploadServer → Prop
  | .seekEnd, _ => True
  | .tell, server => server.tsfs.pos = content.length
  | .rewind fsize, _ => fsize = content.length
  | .read readCount, _ =>
    i * pieceLength < content.length ∧ readCount = (piece content i).length
  | .copy readCount, server =>
    i * pieceLength < content.length ∧ server.buf.take readCount = piece content i
  | .returned result, _ => result =
    if i * pieceLength < content.length then .ok (piece content i)
    else .error .invalidPieceNoException

/-- A shared file whose stream has not failed. -/
structure Shared (content : BString) (server : UploadServer) : Prop where
  content_eq : server.tsfs.content = content
  not_failed : server.tsfs.failed = false

theorem Shared.eq {content : BString} {server : UploadServer} (h : Shared content server) :
    server = ⟨⟨content, server.tsfs.pos, false⟩, server.buf⟩ := by
  obtain ⟨⟨content, pos, failed⟩, buf⟩ := server
  cases h.content_eq
  cases h.not_failed
  rfl

/-- A step of a call that no other one is in the way of. -/
theorem ReadCall.OnItsWay.next {content : BString} {i : Nat} {c : ReadCall} {server : UploadServer}
    (h : c.OnItsWay content i server) (hi : i < 2 ^ 31) (hshared : Shared content server)
    (hc : ∀ result, c ≠ .returned result) :
    (c.next i server).1.OnItsWay content i (c.next i server).2 ∧
      Shared content (c.next i server).2 := by
  have hlen := length_piece content i
  rw [hshared.eq]
  cases c with
  | seekEnd => exact ⟨rfl, rfl, rfl⟩
  | tell => exact ⟨congrArg Nat.cast h, rfl, rfl⟩
  | rewind fsize =>
    obtain rfl : fsize = content.length := h
    by_cases hin : i * pieceLength < content.length
    · rw [next_rewind hi hin]
      exact ⟨⟨hin, hlen.symm⟩, rfl, rfl⟩
    · rw [next_rewind_past hi (Nat.not_lt.mp hin)]
      exact ⟨(if_neg hin).symm, rfl, rfl⟩
  | read readCount =>
    obtain ⟨hin, rfl⟩ := h
    rw [next_read hi (by omega), take_piece (le_refl _), List.take_length]
    exact ⟨⟨hin, List.take_left' rfl⟩, rfl, rfl⟩
  | copy readCount =>
    obtain ⟨hin, hbuf⟩ := h
    refine ⟨?_, rfl, rfl⟩
    change Except.ok (server.buf.take readCount) = _
    rw [if_pos hin, hbuf]
  | returned result => exact absurd rfl (hc result)

namespace UploadCall

/-- A callback on its way to the reply. -/
def OnItsWay (content : BString) (req : Request) : UploadCall → UploadServer → Prop
  | .reading pieceId c, server => ∃ i : Nat, pieceId = i ∧ i < 2 ^ 31 ∧
    requestedPiece req = .ok pieceId ∧ c.OnItsWay content i server
  | .thrown e, _ => requestedPiece req = .error e

/-- What comes next depends on where the last step has left the stream or the buffer. -/
def Middle : UploadCall → Prop
  | .reading _ .tell | .reading _ (.copy _) => True
  | .reading _ _ | .thrown _ => False

end UploadCall

theorem UploadCall.OnItsWay.result {content : BString} {req : Request} {w : UploadCall}
    {server : UploadServer} {r : Except ExnClass Response} (h : w.OnItsWay content req server)
    (hresult : (uploadWorker bf).result w = some r) : r = .ok (reply bf content req) := by
  obtain ⟨pieceId, result, rfl, rfl⟩ | ⟨e, rfl, rfl⟩ := UploadCall.result_cases hresult
  · obtain ⟨i, rfl, -, hid, hc⟩ := h
    obtain rfl : result = if i * pieceLength < content.length then .ok (piece content i)
      else .error .invalidPieceNoException := hc
    rw [reply, hid]
    dsimp only
    rw [Int.toNat_natCast]
    split_ifs
    · rfl
    · rfl
  · rw [reply, h]
    rcases requestedPiece_error h with rfl | rfl | rfl <;> rfl

theorem uploadWorker_replies {ι : Type} (bf : Bitfield) (content : BString) (addr : ι → SockAddr) :
    ((uploadWorker bf).service addr).Replies Proper (reply bf content) (Shared content)
      UploadCall.Middle (UploadCall.OnItsWay content) := by
  constructor
  · intro i req server hproper hshared
    change UploadCall.OnItsWay content req ((uploadWorker bf).enter req (addr i)) server
    rw [uploadWorker]
    dsimp only
    split
    next pieceId hid =>
      obtain ⟨k, rfl⟩ := Int.eq_ofNat_of_zero_le (hproper pieceId hid)
      have hlt := requestedPiece_lt hid
      exact ⟨k, rfl, by omega, hid, trivial⟩
    next e he => exact he
  · intro req w server w' server' hsound hshared hact
    have hcall : (uploadWorker bf).act w server = some (w', server') := hact
    obtain ⟨pieceId, c, rfl, hrunning, rfl, rfl⟩ := UploadCall.act_cases hcall
    obtain ⟨i, rfl, hi, hid, hc⟩ := hsound
    obtain ⟨hnext, hshared'⟩ := hc.next hi hshared hrunning
    exact ⟨⟨i, rfl, hi, hid, hnext⟩, hshared'⟩
  · intro req w server server' hsound hmiddle _
    cases w with
    | thrown e => exact hsound
    | reading pieceId c =>
      obtain ⟨i, hi, hint, hid, hc⟩ := hsound
      refine ⟨i, hi, hint, hid, ?_⟩
      cases c with
      | seekEnd => trivial
      | tell => exact absurd trivial hmiddle
      | rewind => exact hc
      | read => exact hc
      | copy => exact absurd trivial hmiddle
      | returned => exact hc
  · intro req w server res hsound hresult
    rw [Http.Worker.service] at hresult
    dsimp only at hresult
    split at hresult
    next res' hresult' =>
      cases hresult
      exact Except.ok.inj (hsound.result hresult')
    next => cases hresult

namespace Uploads

variable {ι : Type} [DecidableEq ι] {content buf : BString} {pos fuel : Nat}
  {serverAddr : SockAddr} {addr : ι → SockAddr} {es : List (NetEvent ι)}
  {t : Network ι UploadServer UploadCall}

/-- No negative number is asked for, and a thread makes a step only when no other one is between
`seekg` and `tellg`, or between `read` and the copy. -/
def Undivided (s : Network ι UploadServer UploadCall) : NetEvent ι → Prop
  | .ask _ req => Proper req
  | .act i => ∀ j req w, j ≠ i → (s.conn j).work = some (req, w) → ¬ w.Middle
  | .carry _ _ | .read _ | .write _ | .carryBack _ _ | .receive _ | .disconnect _ => True

/-- A seeder that shares `content`, before the first peer has sent anything. -/
def seeding (content : BString) (pos : Nat) (buf : BString) (serverAddr : SockAddr)
    (addr : ι → SockAddr) : Network ι UploadServer UploadCall :=
  .opened serverAddr addr ⟨⟨content, pos, false⟩, buf⟩

omit [DecidableEq ι] in
/-- Calls that are not in each other's way, seen from the network. -/
theorem Undivided.calls {s : Network ι UploadServer UploadCall}
    {a : Calls ι Request Response UploadServer UploadCall} {e : NetEvent ι}
    {d : CallEvent ι Request} {good : UploadCall → Prop} {inv : UploadServer → Prop}
    (hmatches : Network.Matches good addr inv s a) (h : Undivided s e)
    (hstands : Network.Stands e d) : Calls.Undivided Proper UploadCall.Middle a d := by
  cases d with
  | ask i req =>
    obtain rfl : e = .ask i req := hstands
    exact h
  | act i =>
    obtain rfl : e = .act i := hstands
    intro j req w hj hcall
    refine h j req w hj ?_
    rw [(hmatches.lines j).work, hcall]
    rfl
  | enter | answer | take | leave | close => trivial

/-- However clients, network and threads interleave: if no thread is in the way of another one, the
responses that a peer has read are the replies to its first requests, in their order. A piece of the
file is answered with its bytes, and every peer that waits for nothing has had all its replies. -/
theorem pieces_in_turn (hn : n = chunkCount pieceLength content) (hne : content ≠ [])
    (hint : n < 2 ^ 31) (hbf : Bitfield.holding n (List.range n) = .ok bf)
    (hallowed : Machine.AllSteps (Network.step (uploadWorker bf) fuel) Network.Allowed
      (seeding content pos buf serverAddr addr) es)
    (hundivided : Machine.AllSteps (Network.step (uploadWorker bf) fuel) Undivided
      (seeding content pos buf serverAddr addr) es)
    (hrun : Machine.run (Network.step (uploadWorker bf) fuel)
      (seeding content pos buf serverAddr addr) es = some t) (i : ι) :
    let log := Machine.log (Network.step (uploadWorker bf) fuel)
      (Network.entries (uploadWorker bf) fuel) (seeding content pos buf serverAddr addr) es
    Calls.returnedTo i log <+: (Calls.askedBy i log).map (reply bf content) ∧
      ((t.conn i).awaits = false →
        Calls.returnedTo i log = (Calls.askedBy i log).map (reply bf content)) := by
  have hsome : 1 ≤ n := by
    rw [hn]
    exact (lt_chunkCount (by decide)).mpr (by simpa using List.length_pos_of_ne_nil hne)
  obtain ⟨hlen, -⟩ := bytes_of_seeder hsome hbf
  have hworker := uploadWorker_answersWell (fieldSafe_of_seeder hsome hbf) (by omega)
  obtain ⟨ds, a, hcalls, hmatches, hsteps, hlog⟩ := Network.run_matches_of hworker
    (fun s a e d hmatches h hstands => h.calls hmatches hstands) trivial hallowed hundivided hrun
  have hshared : Shared content ⟨⟨content, pos, false⟩, buf⟩ := ⟨rfl, rfl⟩
  obtain ⟨hfirst, hdone⟩ := Calls.returned_of_replies (uploadWorker_replies bf content addr)
    hshared hsteps hcalls i
  intro log
  rw [hlog] at hfirst hdone
  exact ⟨hfirst, fun hidle => hdone ((hmatches.lines i).awaits.mp hidle)⟩

/-! ## Two peers -/

/-- Both peers ask for the only piece, and the calls of `read_piece` take turns. -/
def takingTurns : List (NetEvent Bool) :=
  let req := (PeerState.pieceRequest 0).bytes
  let res := (served ⟨[1], 1⟩ [7]).bytes
  [.ask false (PeerState.pieceRequest 0), .ask true (PeerState.pieceRequest 0),
    .carry false [req], .read false, .carry true [req], .read true,
    .act false, .act false, .act true, .act true, .act false, .act true,
    .act true, .act true, .act false, .act false,
    .write false, .write true, .carryBack true [res], .receive true]

instance (w : UploadCall) : Decidable w.Middle :=
  match w with
  | .reading _ .tell | .reading _ (.copy _) => isTrue trivial
  | .reading _ .seekEnd | .reading _ (.rewind _) | .reading _ (.read _)
  | .reading _ (.returned _) | .thrown _ => isFalse id

/-- A sufficient form of `Undivided` for two peers. -/
def TakesTurns (s : Network Bool UploadServer UploadCall) : NetEvent Bool → Prop
  | .ask _ req => req = PeerState.pieceRequest 0
  | .act i => ∀ p ∈ (s.conn !i).work, ¬ p.2.Middle
  | .carry _ _ | .read _ | .write _ | .carryBack _ _ | .receive _ | .disconnect _ => True

instance (s : Network Bool UploadServer UploadCall) : DecidablePred (TakesTurns s)
  | .ask _ _ => inferInstanceAs (Decidable (_ = _))
  | .act i => inferInstanceAs (Decidable (∀ p ∈ (s.conn !i).work, ¬ p.2.Middle))
  | .carry _ _ | .read _ | .write _ | .carryBack _ _ | .receive _ | .disconnect _ =>
    inferInstanceAs (Decidable True)

theorem TakesTurns.undivided {s : Network Bool UploadServer UploadCall} {e : NetEvent Bool}
    (h : TakesTurns s e) : Undivided s e := by
  cases e with
  | ask i req =>
    obtain rfl : req = PeerState.pieceRequest 0 := h
    intro pieceId hid
    rw [requestedPiece_pieceRequest (by decide)] at hid
    cases hid
    exact Int.natCast_nonneg 0
  | act i =>
    intro j req w hj hwork
    obtain rfl : j = !i := by
      cases i <;> cases j <;> simp at hj ⊢
    exact h (req, w) hwork
  | carry | read | write | carryBack | receive | disconnect => trivial

/-- A seeder of a file of one byte. -/
def oneByteSeeder : Network Bool UploadServer UploadCall := seeding [7] 0 [] .new fun _ => .new

theorem takingTurns_allowed :
    Machine.AllSteps (Network.step (uploadWorker ⟨[1], 1⟩) 4) Network.Allowed oneByteSeeder
      takingTurns := by
  have hatOnce : Machine.AllSteps (Network.step (uploadWorker ⟨[1], 1⟩) 4)
      (Network.AtOnce (PeerState.pieceRequest 0) (served ⟨[1], 1⟩ [7])) oneByteSeeder
      takingTurns := by decide +kernel
  exact hatOnce.mono fun _ _ h => h.allowed (carried_pieceRequest (by decide))
    (carried_served (by decide) (by decide) (by decide)) (by decide)

theorem takingTurns_undivided :
    Machine.AllSteps (Network.step (uploadWorker ⟨[1], 1⟩) 4) Undivided oneByteSeeder
      takingTurns := by
  have hturns : Machine.AllSteps (Network.step (uploadWorker ⟨[1], 1⟩) 4) TakesTurns oneByteSeeder
      takingTurns := by decide +kernel
  exact hturns.mono fun _ _ h => h.undivided

/-- The second peer has the byte, and the answer to the first one is on its way. -/
theorem oneByteSeeder_serves : ∃ t log,
    Machine.run (Network.step (uploadWorker ⟨[1], 1⟩) 4) oneByteSeeder takingTurns = some t ∧
    (t.conn true).awaits = false ∧ Calls.askedBy true log = [PeerState.pieceRequest 0] ∧ ∀ i,
    Calls.returnedTo i log <+: (Calls.askedBy i log).map (reply ⟨[1], 1⟩ [7]) ∧
      ((t.conn i).awaits = false →
        Calls.returnedTo i log = (Calls.askedBy i log).map (reply ⟨[1], 1⟩ [7])) := by
  have hrun : (Machine.run (Network.step (uploadWorker ⟨[1], 1⟩) 4) oneByteSeeder
      takingTurns).map (fun t => (t.conn true).awaits) = some false := by decide +kernel
  obtain ⟨t, ht, hdone⟩ := Option.map_eq_some_iff.mp hrun
  have hlog : Calls.askedBy true (Machine.log (Network.step (uploadWorker ⟨[1], 1⟩) 4)
      (Network.entries (uploadWorker ⟨[1], 1⟩) 4) oneByteSeeder takingTurns) =
        [PeerState.pieceRequest 0] := by decide +kernel
  exact ⟨t, _, ht, hdone, hlog, fun i => pieces_in_turn (n := 1) rfl (List.cons_ne_nil 7 [])
    (by decide) rfl takingTurns_allowed takingTurns_undivided ht i⟩

end Uploads

end P2PFileSharing.Peer
