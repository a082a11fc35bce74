import P2PFileSharing.Cpp.Convert
import P2PFileSharing.Library.OrdMap
import P2PFileSharing.Util

/-!
# HTTP messages

Headers, requests and responses with their serializers and parsers. A parser returns the
message, throws, or comes to behaviour that is undefined: it reads a vector element that the
tokenizer did not produce, or an `int` overflows that counts the bytes of a head. A head that is
tokenized has been copied with such an `int` before, so that the index of `tokenize` counts it.
-/

namespace P2PFileSharing.Http

open Library Split Util

inductive Method where
  | GET
  | POST
  | UNDEFINED
  deriving DecidableEq, Repr

inductive Version where
  | HTTP_1_0
  | HTTP_1_1
  | HTTP_2_0
  | UNDEFINED
  deriving DecidableEq, Repr

inductive Status where
  | OK
  | NOT_FOUND
  | BAD_REQUEST
  | UNAUTHORIZED
  | FORBIDDEN
  | METHOD_NOT_ALLOWED
  | CONFLICT
  | LENGTH_REQ
  | INTERNAL_SERVER_ERROR
  | UNDEFINED
  deriving DecidableEq, Repr

def Method.toStr : Method → Str
  | GET => lit "GET"
  | POST => lit "POST"
  | UNDEFINED => lit ""

def toMethod (m : Str) : Method :=
  if m = lit "GET" then .GET
  else if m = lit "POST" then .POST
  else .UNDEFINED

def Version.toStr : Version → Str
  | HTTP_1_0 => lit "HTTP/1.0"
  | HTTP_1_1 => lit "HTTP/1.1"
  | HTTP_2_0 => lit "HTTP/2.0"
  | UNDEFINED => lit ""

def toVersion (v : Str) : Version :=
  if v = lit "HTTP/1.0" then .HTTP_1_0
  else if v = lit "HTTP/1.1" then .HTTP_1_1
  else if v = lit "HTTP/2.0" then .HTTP_2_0
  else .UNDEFINED

def toStatus (code : Str) : Status :=
  if code = lit "200" then .OK
  else if code = lit "404" then .NOT_FOUND
  else if code = lit "400" then .BAD_REQUEST
  else if code = lit "401" then .UNAUTHORIZED
  else if code = lit "403" then .FORBIDDEN
  else if code = lit "405" then .METHOD_NOT_ALLOWED
  else if code = lit "409" then .CONFLICT
  else if code = lit "411" then .LENGTH_REQ
  else if code = lit "500" then .INTERNAL_SERVER_ERROR
  else .UNDEFINED

def Status.toStr : Status → Str
  | OK => lit "200"
  | BAD_REQUEST => lit "400"
  | UNAUTHORIZED => lit "401"
  | FORBIDDEN => lit "403"
  | METHOD_NOT_ALLOWED => lit "405"
  | CONFLICT => lit "409"
  | NOT_FOUND => lit "404"
  | LENGTH_REQ => lit "411"
  | INTERNAL_SERVER_ERROR => lit "500"
  | UNDEFINED => lit "1000"

/-! ## Headers -/

structure Header where
  key : Str
  value : Str
  deriving DecidableEq, Repr

def Header.serialize (h : Header) : Str := h.key ++ (lit ":" ++ SPACE) ++ h.value

/-- `vec[0]` and `vec[1]` are read unchecked. -/
def Header.deserialize (header : Str) : Except Fault Header :=
  match tokenize header (lit ":") with
  | key :: value :: _ => .ok ⟨key, trim value⟩
  | _ => .error .undefined

abbrev HeaderMap := OrdMap Str Header

/-- The lines of the headers. -/
def HeaderMap.serialize (headers : HeaderMap) : Str :=
  headers.entries.flatMap (fun p => p.2.serialize ++ CRLF)

/-- The loop over the header lines; a later line replaces an earlier one with its key. -/
def deserializeHeaders : HeaderMap → List Str → Except Fault HeaderMap
  | headers, [] => .ok headers
  | headers, line :: lines => do
    let h ← Header.deserialize line
    deserializeHeaders (headers.insert h.key h) lines

/-! ## Strings put together -/

/-- `bstr += s2b(part)` for one part after the other. -/
def appendParts : List Str → Except Fault BString
  | [] => .ok []
  | part :: parts => do
    let bs ← s2b part
    let rest ← appendParts parts
    return bs ++ rest

/-- The parts are appended as they are, if `s2b` can count each of them. -/
theorem appendParts_eq (parts : List Str) : appendParts parts =
    if ∀ part ∈ parts, part.length < 2 ^ 31 then .ok parts.flatten else .error .undefined := by
  induction parts with
  | nil => rfl
  | cons part parts ih =>
    rw [appendParts, s2b_eq, ih]
    simp only [List.forall_mem_cons]
    by_cases hpart : part.length < 2 ^ 31
    · rw [if_pos hpart]
      simp only [hpart, true_and]
      split <;> rfl
    · simp only [hpart, false_and, if_false]
      rfl

/-! ## Strings that may be too short -/

/-- `find`, stored into an `int`: `npos` becomes `-1`. -/
def findInt (s pattern : BString) : Int :=
  match find pattern s with
  | some pos => toInt32 pos
  | none => -1

/-- `substr(0, count)`: a negative count becomes a huge one. -/
def substrTo (s : BString) (count : Int) : BString :=
  if count < 0 then s else s.take count.toNat

/-- `substr(pos)`: a position beyond the end throws, a negative one becomes such a position. -/
def substrFrom (s : BString) (pos : Int) : Except Fault BString :=
  if pos < 0 ∨ s.length < pos then .error (.thrown .outOfRange) else .ok (s.drop pos.toNat)

theorem substrFrom_eq_ok {s t : BString} {pos : Int} :
    substrFrom s pos = .ok t ↔ 0 ≤ pos ∧ pos ≤ s.length ∧ t = s.drop pos.toNat := by
  rw [substrFrom]
  split
  · simp only [reduceCtorEq, false_iff]
    omega
  · simp only [Except.ok.injEq, eq_comm]
    constructor
    · intro h
      exact ⟨by omega, by omega, h⟩
    · exact fun h => h.2.2

theorem substrFrom_cons (c : UInt8) (s : BString) : substrFrom (c :: s) 1 = .ok s :=
  substrFrom_eq_ok.mpr ⟨by decide, by rw [List.length_cons]; omega, rfl⟩

/-- The head of a message as text, with one byte of CRLFCRLF, and the body. -/
def cutHead (s : BString) : Except Fault (Str × BString) := do
  let pos := findInt s (← s2b (CRLF ++ CRLF))
  let head ← b2s (substrTo s (← addInt pos 1))
  let body ← substrFrom s (← addInt pos 4)
  return (head, body)

/-- The position of CRLFCRLF can be added to, and the bytes of the head can be counted. -/
def HeadFits (s : BString) : Prop :=
  findInt s (CRLF ++ CRLF) + 4 < 2 ^ 31 ∧
    (substrTo s (findInt s (CRLF ++ CRLF) + 1)).length < 2 ^ 31

instance : DecidablePred HeadFits := fun _ => inferInstanceAs (Decidable (_ ∧ _))

theorem findInt_ge (s pattern : BString) : -2 ^ 31 ≤ findInt s pattern := by
  rw [findInt]
  split
  · have hle := Int.le_bmod (x := (‹Nat› : Int)) (m := 2 ^ 32) (by decide)
    simpa [toInt32] using hle
  · decide

theorem cutHead_eq (s : BString) : cutHead s =
    if HeadFits s then
      (substrFrom s (findInt s (CRLF ++ CRLF) + 4)).map fun body =>
        (substrTo s (findInt s (CRLF ++ CRLF) + 1), body)
    else .error .undefined := by
  have hge := findInt_ge s (CRLF ++ CRLF)
  have hcrlf : s2b (CRLF ++ CRLF) = .ok (CRLF ++ CRLF) := by decide
  rw [cutHead, hcrlf]
  change (addInt _ 1 >>= fun count => b2s (substrTo s count) >>= fun head =>
    addInt _ 4 >>= fun start => substrFrom s start >>= fun body => _) = _
  rw [addInt_eq (by omega), addInt_eq (by omega)]
  by_cases hsum : findInt s (CRLF ++ CRLF) + 4 < 2 ^ 31
  · rw [if_pos (by omega), if_pos hsum]
    change (b2s (substrTo s _) >>= _) = _
    rw [b2s_eq]
    by_cases hlen : (substrTo s (findInt s (CRLF ++ CRLF) + 1)).length < 2 ^ 31
    · rw [if_pos hlen, if_pos (show HeadFits s from ⟨hsum, hlen⟩)]
      rfl
    · rw [if_neg hlen, if_neg fun h : HeadFits s => hlen h.2]
      rfl
  · rw [if_neg hsum, if_neg fun h : HeadFits s => hsum h.1]
    split
    · change (b2s (substrTo s _) >>= _) = _
      rw [b2s_eq]
      split <;> rfl
    · rfl

/-- `catch(std::exception e) { throw parse_exception(..); }` around a whole parser. -/
def asParseException {α : Type} : Except Fault α → Except Fault α
  | .error f =>
    match f.handlerFor [(.exception, ExnClass.parseException)] with
    | some e => .error (.thrown e)
    | none => .error f
  | r => r

@[simp] theorem asParseException_ok {α : Type} (a : α) : asParseException (.ok a) = .ok a := rfl

@[simp] theorem asParseException_undefined {α : Type} :
    asParseException (.error .undefined : Except Fault α) = .error .undefined := rfl

@[simp] theorem asParseException_outOfRange {α : Type} :
    asParseException (.error (.thrown .outOfRange) : Except Fault α) =
      .error (.thrown .parseException) := rfl

theorem asParseException_eq_ok {α : Type} {x : Except Fault α} {a : α} :
    asParseException x = .ok a ↔ x = .ok a := by
  rcases x with f | b
  · rw [asParseException]
    split <;> simp
  · rfl

theorem Header.deserialize_eq_ok {line : Str} {h : Header} :
    Header.deserialize line = .ok h ↔ ∃ key value rest,
      tokenize line (lit ":") = key :: value :: rest ∧ h = ⟨key, trim value⟩ := by
  rw [Header.deserialize]
  split
  · rename_i key value rest htok
    simp only [htok, Except.ok.injEq]
    constructor
    · rintro rfl
      exact ⟨key, value, rest, rfl, rfl⟩
    · rintro ⟨_, _, _, ⟨⟩, rfl⟩
      rfl
  · rename_i hno
    simp only [reduceCtorEq, false_iff]
    rintro ⟨key, value, rest, htok, -⟩
    exact hno key value rest htok

theorem deserializeHeaders_cons {init headers : HeaderMap} {line : Str} {lines : List Str} :
    deserializeHeaders init (line :: lines) = .ok headers ↔ ∃ h,
      Header.deserialize line = .ok h ∧
        deserializeHeaders (init.insert h.key h) lines = .ok headers := by
  rw [deserializeHeaders]
  rcases Header.deserialize line with f | h
  · simp [bind, Except.bind]
  · simp [bind, Except.bind]

/-- What holds of every parsed header line holds of every header of the map, under its key. -/
theorem deserializeHeaders_forall (P : Str → Header → Prop) {init headers : HeaderMap}
    {lines : List Str} (hinit : ∀ k h, init.find? k = some h → P k h)
    (hP : ∀ line ∈ lines, ∀ h, Header.deserialize line = .ok h → P h.key h)
    (h : deserializeHeaders init lines = .ok headers) :
    ∀ k h, headers.find? k = some h → P k h := by
  induction lines generalizing init with
  | nil =>
    cases h
    exact hinit
  | cons line lines ih =>
    obtain ⟨h', hline, hrest⟩ := deserializeHeaders_cons.mp h
    obtain ⟨hfirst, hothers⟩ := List.forall_mem_cons.mp hP
    refine ih (fun k g hg => ?_) hothers hrest
    rw [OrdMap.find?_insert] at hg
    split at hg
    · rename_i hk
      cases hg
      rw [hk]
      exact hfirst h' hline
    · exact hinit k g hg

/-! ## Requests -/

structure Request where
  method : Method
  version : Version
  resource : Str
  headers : HeaderMap
  body : BString
  deriving DecidableEq

namespace Request

/-- The constructor from a method and a resource. -/
def new (method : Method) (resource : Str) : Request := ⟨method, .HTTP_2_0, resource, ∅, []⟩

def addHeader (r : Request) (key value : Str) : Request :=
  { r with headers := r.headers.insert key ⟨key, value⟩ }

def setBody (r : Request) (body : BString) : Request := { r with body }

def getHeader (r : Request) (key : Str) : Except ExnClass Str :=
  match r.headers.find? key with
  | some h => .ok h.value
  | none => .error .noSuchHeaderException

/-- What is appended before the body. -/
def parts (r : Request) : List Str :=
  [r.method.toStr, SPACE, r.resource, SPACE, r.version.toStr, CRLF] ++
    r.headers.entries.map (fun p => p.2.serialize ++ CRLF) ++ [CRLF]

def serialize (r : Request) : Except Fault BString := do
  let bstr ← appendParts r.parts
  return bstr ++ r.body

def serializeHead (r : Request) : BString := r.parts.flatten

/-- The bytes of a request that can be serialized. -/
def bytes (r : Request) : BString := r.serializeHead ++ r.body

theorem serialize_eq (r : Request) : r.serialize =
    if ∀ part ∈ r.parts, part.length < 2 ^ 31 then .ok r.bytes else .error .undefined := by
  rw [serialize, appendParts_eq]
  split <;> rfl

theorem serialize_of_small {r : Request} (h : r.serializeHead.length < 2 ^ 31) :
    r.serialize = .ok r.bytes := by
  rw [serialize_eq, if_pos fun part hpart => ?_]
  exact (List.infix_of_mem_flatten hpart).length_le.trans_lt h

theorem serialize_of_size (r : Request) (h : r.bytes.length < 2 ^ 31) :
    r.serialize = .ok r.bytes := by
  rw [bytes, List.length_append] at h
  exact serialize_of_small (by omega)

theorem serialize_cases (r : Request) :
    r.serialize = .ok r.bytes ∨ r.serialize = .error .undefined := by
  rw [serialize_eq]
  split
  · exact .inl rfl
  · exact .inr rfl

theorem bytes_of_serialize {r : Request} {s : BString} (h : r.serialize = .ok s) :
    r.bytes = s := by
  rcases r.serialize_cases with hok | hundef
  · exact Except.ok.inj (hok.symm.trans h)
  · cases hundef.symm.trans h

def deserialize (req : BString) : Except Fault Request := asParseException do
  let (reqHead, body) ← cutHead req
  match tokenize reqHead CRLF with
  | [] => .error .undefined
  | requestLine :: headerLines =>
    match tokenize requestLine SPACE with
    | m :: resource :: v :: _ =>
      let headers ← deserializeHeaders ∅ headerLines
      return ⟨toMethod m, toVersion v, resource, headers, body⟩
    | _ => .error .undefined

/-- What a parsed request was read from. -/
theorem deserialize_eq_ok {s : BString} {r : Request} :
    deserialize s = .ok r ↔ HeadFits s ∧ ∃ requestLine headerLines m v rest,
      tokenize (substrTo s (findInt s (CRLF ++ CRLF) + 1)) CRLF = requestLine :: headerLines ∧
      tokenize requestLine SPACE = m :: r.resource :: v :: rest ∧
      r.method = toMethod m ∧ r.version = toVersion v ∧
      deserializeHeaders ∅ headerLines = .ok r.headers ∧
      substrFrom s (findInt s (CRLF ++ CRLF) + 4) = .ok r.body := by
  rw [deserialize, asParseException_eq_ok, cutHead_eq]
  by_cases hfits : HeadFits s
  swap
  · simp [hfits, bind, Except.bind]
  rw [if_pos hfits, and_iff_right hfits]
  rcases hbody : substrFrom s (findInt s (CRLF ++ CRLF) + 4) with f | body
  · simp [bind, Except.bind, Except.map]
  rcases hlines : tokenize (substrTo s (findInt s (CRLF ++ CRLF) + 1)) CRLF with _ | ⟨line, lines⟩
  · simp [bind, Except.bind, Except.map, hlines]
  rcases hsegs : tokenize line SPACE with _ | ⟨m, _ | ⟨resource, _ | ⟨v, rest⟩⟩⟩
  · simp [bind, Except.bind, Except.map, hlines, hsegs]
  · simp [bind, Except.bind, Except.map, hlines, hsegs]
  · simp [bind, Except.bind, Except.map, hlines, hsegs]
  rcases hheaders : deserializeHeaders ∅ lines with f | headers
  · simp [bind, Except.bind, Except.map, hlines, hsegs, hheaders]
  · obtain ⟨method, version, res, hs, b⟩ := r
    simp only [bind, Except.bind, pure, Except.pure, Except.map, hlines, hsegs, hheaders,
      Except.ok.injEq, mk.injEq]
    constructor
    · rintro ⟨rfl, rfl, rfl, rfl, rfl⟩
      exact ⟨line, lines, m, v, rest, rfl, hsegs, rfl, rfl, hheaders, rfl⟩
    · rintro ⟨_, _, _, _, _, ⟨⟩, hsegs', rfl, rfl, hheaders', rfl⟩
      rw [hsegs] at hsegs'
      rw [hheaders] at hheaders'
      cases hsegs'
      cases hheaders'
      exact ⟨rfl, rfl, rfl, rfl, rfl⟩

end Request

/-! ## Responses -/

structure Response where
  version : Version
  status : Status
  statusTxt : Str
  headers : HeaderMap
  body : BString
  deriving DecidableEq

namespace Response

def addHeader (r : Response) (key value : Str) : Response :=
  { r with headers := r.headers.insert key ⟨key, value⟩ }

def setBody (r : Response) (body : BString) : Response := { r with body }

/-- The constructor from a status and its text. -/
def new (status : Status) (statusTxt : Str) : Response :=
  addHeader ⟨.HTTP_2_0, status, statusTxt, ∅, []⟩ (lit "Content-Length") (lit "0")

def getHeader (r : Response) (key : Str) : Except ExnClass Str :=
  match r.headers.find? key with
  | some h => .ok h.value
  | none => .error .noSuchHeaderException

/-- What is appended before the body. -/
def parts (r : Response) : List Str :=
  [r.version.toStr, SPACE, r.status.toStr, SPACE, r.statusTxt, CRLF] ++
    r.headers.entries.flatMap (fun p => [p.2.serialize, CRLF]) ++ [CRLF]

def serialize (r : Response) : Except Fault BString := do
  let bstr ← appendParts r.parts
  return bstr ++ r.body

def serializeHead (r : Response) : BString := r.parts.flatten

/-- The bytes of a response that can be serialized. -/
def bytes (r : Response) : BString := r.serializeHead ++ r.body

theorem serialize_eq (r : Response) : r.serialize =
    if ∀ part ∈ r.parts, part.length < 2 ^ 31 then .ok r.bytes else .error .undefined := by
  rw [serialize, appendParts_eq]
  split <;> rfl

theorem serialize_of_small {r : Response} (h : r.serializeHead.length < 2 ^ 31) :
    r.serialize = .ok r.bytes := by
  rw [serialize_eq, if_pos fun part hpart => ?_]
  exact (List.infix_of_mem_flatten hpart).length_le.trans_lt h

theorem serialize_of_size (r : Response) (h : r.bytes.length < 2 ^ 31) :
    r.serialize = .ok r.bytes := by
  rw [bytes, List.length_append] at h
  exact serialize_of_small (by omega)

theorem serialize_cases (r : Response) :
    r.serialize = .ok r.bytes ∨ r.serialize = .error .undefined := by
  rw [serialize_eq]
  split
  · exact .inl rfl
  · exact .inr rfl

theorem bytes_of_serialize {r : Response} {s : BString} (h : r.serialize = .ok s) :
    r.bytes = s := by
  rcases r.serialize_cases with hok | hundef
  · exact Except.ok.inj (hok.symm.trans h)
  · cases hundef.symm.trans h

/-- `" " + segs.at(i)` for the segments of the status text, then `substr(1)`. -/
def joinStatusTxt (segs : List Str) : Except Fault Str :=
  substrFrom (segs.flatMap (fun seg => lit " " ++ seg)) 1

def deserialize (res : BString) : Except Fault Response := asParseException do
  let (resHead, body) ← cutHead res
  match tokenize resHead CRLF with
  | [] => .error .undefined
  | statusLine :: headerLines =>
    match tokenize statusLine SPACE with
    | v :: code :: txt =>
      let statusTxt ← joinStatusTxt txt
      let headers ← deserializeHeaders ∅ headerLines
      return ⟨toVersion v, toStatus code, statusTxt, headers, body⟩
    | _ => .error (.thrown .outOfRange)

/-- What a parsed response was read from. -/
theorem deserialize_eq_ok {s : BString} {r : Response} :
    deserialize s = .ok r ↔ HeadFits s ∧ ∃ statusLine headerLines v code txt,
      tokenize (substrTo s (findInt s (CRLF ++ CRLF) + 1)) CRLF = statusLine :: headerLines ∧
      tokenize statusLine SPACE = v :: code :: txt ∧
      r.version = toVersion v ∧ r.status = toStatus code ∧ joinStatusTxt txt = .ok r.statusTxt ∧
      deserializeHeaders ∅ headerLines = .ok r.headers ∧
      substrFrom s (findInt s (CRLF ++ CRLF) + 4) = .ok r.body := by
  rw [deserialize, asParseException_eq_ok, cutHead_eq]
  by_cases hfits : HeadFits s
  swap
  · simp [hfits, bind, Except.bind]
  rw [if_pos hfits, and_iff_right hfits]
  rcases hbody : substrFrom s (findInt s (CRLF ++ CRLF) + 4) with f | body
  · simp [bind, Except.bind, Except.map]
  rcases hlines : tokenize (substrTo s (findInt s (CRLF ++ CRLF) + 1)) CRLF with _ | ⟨line, lines⟩
  · simp [bind, Except.bind, Except.map, hlines]
  rcases hsegs : tokenize line SPACE with _ | ⟨v, _ | ⟨code, txt⟩⟩
  · simp [bind, Except.bind, Except.map, hlines, hsegs]
  · simp [bind, Except.bind, Except.map, hlines, hsegs]
  rcases htxt : joinStatusTxt txt with f | statusTxt
  · simp [bind, Except.bind, Except.map, hlines, hsegs, htxt]
  rcases hheaders : deserializeHeaders ∅ lines with f | headers
  · simp [bind, Except.bind, Except.map, hlines, hsegs, htxt, hheaders]
  · obtain ⟨version, status, txt', hs, b⟩ := r
    simp only [bind, Except.bind, pure, Except.pure, Except.map, hlines, hsegs, htxt, hheaders,
      Except.ok.injEq, mk.injEq]
    constructor
    · rintro ⟨rfl, rfl, rfl, rfl, rfl⟩
      exact ⟨line, lines, v, code, txt, rfl, hsegs, rfl, rfl, htxt, hheaders, rfl⟩
    · rintro ⟨_, _, _, _, _, ⟨⟩, hsegs', rfl, rfl, htxt', hheaders', rfl⟩
      rw [hsegs] at hsegs'
      cases hsegs'
      rw [htxt] at htxt'
      rw [hheaders] at hheaders'
      cases htxt'
      cases hheaders'
      exact ⟨rfl, rfl, rfl, rfl, rfl⟩

end Response

end P2PFileSharing.Http
