import P2PFileSharing.Http.Codec

/-!
# Whole messages through their own serialization

Serializing a message and parsing the result, head and body together. The parser stores the
position of CRLFCRLF into an `int` and adds to it, keeps one byte of it in the head, cuts a header
line at every colon and drops the first byte of a status text that may be empty.
-/

namespace P2PFileSharing.Http

open Library Split Util

/-- A body comes back whole only from behind a head whose end an `int` can count. -/
theorem small_of_body {s body : BString} {lines : List Str} (hs : s = block lines ++ body)
    (hfits : HeadFits s) (hbody : substrFrom s (findInt s (CRLF ++ CRLF) + 4) = .ok body) :
    (block lines).length < 2 ^ 31 := by
  obtain ⟨hsum, -⟩ := hfits
  obtain ⟨hge, hle, hdrop⟩ := substrFrom_eq_ok.mp hbody
  have hlen := congrArg List.length hdrop
  have hsize := congrArg List.length hs
  rw [List.length_drop] at hlen
  rw [List.length_append] at hsize
  omega

/-! ## Header maps that are meant to be sent -/

/-- Key and value of a header that is meant for a line of its own. -/
structure Header.OneLine (h : Header) : Prop where
  key_ne : h.key ≠ []
  key_colon : 58 ∉ h.key
  key_line : 13 ∉ h.key ∧ 10 ∉ h.key
  value_line : 13 ∉ h.value ∧ 10 ∉ h.value
  value_trim : trim h.value = h.value

instance (h : Header) : Decidable h.OneLine :=
  decidable_of_iff (h.key ≠ [] ∧ 58 ∉ h.key ∧ (13 ∉ h.key ∧ 10 ∉ h.key) ∧
      (13 ∉ h.value ∧ 10 ∉ h.value) ∧ trim h.value = h.value)
    ⟨fun ⟨h1, h2, h3, h4, h5⟩ => ⟨h1, h2, h3, h4, h5⟩,
      fun ⟨h1, h2, h3, h4, h5⟩ => ⟨h1, h2, h3, h4, h5⟩⟩

/-- Every entry is stored under its own key and meant for a line of its own. -/
def HeaderMap.OneLine (headers : HeaderMap) : Prop :=
  ∀ k h, headers.find? k = some h → k = h.key ∧ h.OneLine

/-- No value has a colon. -/
def HeaderMap.ColonFree (headers : HeaderMap) : Prop :=
  ∀ k h, headers.find? k = some h → 58 ∉ h.value

theorem crlfFree_of_notMem {s : Str} (h : 13 ∉ s) : CrlfFree s := by
  rw [crlfFree_iff, CRLF_eq]
  intro hcrlf
  exact h (hcrlf.subset (by simp))

theorem HeaderMap.OneLine.transparent_iff {headers : HeaderMap} (h : headers.OneLine) :
    headers.Transparent ↔ headers.ColonFree := by
  constructor
  · intro ht k header hfind
    exact (ht k header hfind).2.value_colon
  · intro hcolon k header hfind
    obtain ⟨hkey, hline⟩ := h k header hfind
    exact ⟨hkey, crlfFree_of_notMem hline.key_line.1, hline.key_colon,
      crlfFree_of_notMem hline.value_line.1, hcolon k header hfind, hline.value_trim⟩

theorem HeaderMap.oneLine_iff {headers : HeaderMap} : headers.OneLine ↔
    ∀ e ∈ headers.entries, e.1 = e.2.key ∧ e.2.OneLine :=
  ⟨fun h e he => h e.1 e.2 (OrdMap.mem_entries.mp he),
    fun h k v hv => h (k, v) (OrdMap.mem_entries.mpr hv)⟩

theorem HeaderMap.colonFree_iff {headers : HeaderMap} : headers.ColonFree ↔
    ∀ e ∈ headers.entries, 58 ∉ e.2.value :=
  ⟨fun h e he => h e.1 e.2 (OrdMap.mem_entries.mp he),
    fun h k v hv => h (k, v) (OrdMap.mem_entries.mpr hv)⟩

/-! ## Requests -/

namespace Request

variable {r : Request}

/-- The requests that `serialize` is meant for. -/
structure WellFormed (r : Request) : Prop where
  method : r.method ≠ .UNDEFINED
  version : r.version ≠ .UNDEFINED
  resource_ne : r.resource ≠ []
  resource_space : 32 ∉ r.resource
  resource_line : 13 ∉ r.resource ∧ 10 ∉ r.resource
  headers : r.headers.OneLine

/-- The bytes of the request, parsed again. -/
def throughCodec (r : Request) : Except Fault Request := do
  let s ← r.serialize
  deserialize s

theorem throughCodec_eq_ok {received : Request} : r.throughCodec = .ok received ↔
    r.serialize = .ok r.bytes ∧ deserialize r.bytes = .ok received := by
  constructor
  · intro h
    obtain ⟨s, hs, hparse⟩ := Action.exceptBind_eq_ok.mp h
    obtain rfl := bytes_of_serialize hs
    exact ⟨hs, hparse⟩
  · rintro ⟨hs, hparse⟩
    exact Action.exceptBind_eq_ok.mpr ⟨_, hs, hparse⟩

theorem small_of_round_trip (h : deserialize r.bytes = .ok r) :
    r.serializeHead.length < 2 ^ 31 := by
  obtain ⟨hfits, _, _, _, _, _, -, -, -, -, -, hbody⟩ := deserialize_eq_ok.mp h
  rw [serializeHead_eq_block]
  exact small_of_body (by rw [bytes, serializeHead_eq_block]) hfits hbody

end Request

/-- A well-formed request comes back from its own bytes exactly when it has a header, no value of a
header has a colon, and an `int` can count the bytes of its head. -/
theorem request_round_trip_iff {r : Request} (h : r.WellFormed) :
    r.throughCodec = .ok r ↔
      r.headers.entries ≠ [] ∧ r.headers.ColonFree ∧ r.serializeHead.length < 2 ^ 31 := by
  constructor
  · intro hround
    replace hround := (Request.throughCodec_eq_ok.mp hround).2
    have hproper := Request.proper_of_deserialize hround
    have hsmall := Request.small_of_round_trip hround
    refine ⟨fun hnil => ?_, h.headers.transparent_iff.mp hproper.headers, hsmall⟩
    -- the version of a request without headers is read with the CR behind it
    rw [Request.bytes, hproper.deserialize_head hsmall, if_pos hnil, Except.ok.injEq] at hround
    exact h.version (congrArg Request.version hround).symm
  · rintro ⟨hne, hcolon, hsmall⟩
    have hproper : r.Proper := ⟨h.resource_space, crlfFree_of_notMem h.resource_line.1,
      h.headers.transparent_iff.mpr hcolon⟩
    have hround := hproper.deserialize_head hsmall r.body
    rw [if_neg hne, if_neg h.version] at hround
    exact Request.throughCodec_eq_ok.mpr ⟨Request.serialize_of_small hsmall, hround⟩

/-- A request with a body and two headers, one of them empty. -/
def posted : Request :=
  (((Request.new .POST (lit "/")).addHeader (lit "Content-Length") (lit "2")).addHeader
    (lit "Empty") []).setBody (lit "hi")

theorem posted_comes_back : posted.throughCodec = .ok posted :=
  (request_round_trip_iff ⟨by decide, by decide, by decide, by decide, by decide,
    HeaderMap.oneLine_iff.mpr (by decide)⟩).mpr
    ⟨by decide, HeaderMap.colonFree_iff.mpr (by decide), by decide⟩

/-- A request without headers loses its version. -/
theorem version_lost_without_headers : (Request.new .GET (lit "/")).WellFormed ∧
    (Request.new .GET (lit "/")).throughCodec ≠ .ok (Request.new .GET (lit "/")) :=
  ⟨⟨by decide, by decide, by decide, by decide, by decide,
    HeaderMap.oneLine_iff.mpr (by decide)⟩, by decide⟩

/-! ## Responses -/

namespace Response

variable {r : Response}

/-- The responses that `serialize` is meant for. -/
structure WellFormed (r : Response) : Prop where
  version : r.version ≠ .UNDEFINED
  status : r.status ≠ .UNDEFINED
  statusTxt_line : 13 ∉ r.statusTxt ∧ 10 ∉ r.statusTxt
  statusTxt_end : rtrim r.statusTxt = r.statusTxt
  headers : r.headers.OneLine
  colonFree : r.headers.ColonFree

theorem WellFormed.proper (h : r.WellFormed) : r.Proper :=
  ⟨crlfFree_of_notMem h.statusTxt_line.1, h.headers.transparent_iff.mpr h.colonFree⟩

theorem WellFormed.last_ne_space (h : r.WellFormed) : r.statusTxt.getLast? ≠ some 32 := by
  intro hlast
  have hblank := rtrim_eq_self.mp h.statusTxt_end 32 hlast
  exact absurd hblank (by decide)

/-- The bytes of the response, parsed again. -/
def throughCodec (r : Response) : Except Fault Response := do
  let s ← r.serialize
  deserialize s

theorem throughCodec_eq_ok {received : Response} : r.throughCodec = .ok received ↔
    r.serialize = .ok r.bytes ∧ deserialize r.bytes = .ok received := by
  constructor
  · intro h
    obtain ⟨s, hs, hparse⟩ := Action.exceptBind_eq_ok.mp h
    obtain rfl := bytes_of_serialize hs
    exact ⟨hs, hparse⟩
  · rintro ⟨hs, hparse⟩
    exact Action.exceptBind_eq_ok.mpr ⟨_, hs, hparse⟩

theorem small_of_round_trip (h : deserialize r.bytes = .ok r) :
    r.serializeHead.length < 2 ^ 31 := by
  obtain ⟨hfits, _, _, _, _, _, -, -, -, -, -, -, hbody⟩ := deserialize_eq_ok.mp h
  rw [serializeHead_eq_block]
  exact small_of_body (by rw [bytes, serializeHead_eq_block]) hfits hbody

end Response

/-- A well-formed response comes back from its own bytes exactly when it has a header and a status
text, and an `int` can count the bytes of its head. -/
theorem response_round_trip_iff {r : Response} (h : r.WellFormed) :
    r.throughCodec = .ok r ↔
      r.headers.entries ≠ [] ∧ r.statusTxt ≠ [] ∧ r.serializeHead.length < 2 ^ 31 := by
  constructor
  · intro hround
    replace hround := (Response.throughCodec_eq_ok.mp hround).2
    have hsmall := Response.small_of_round_trip hround
    rw [Response.bytes, h.proper.deserialize_head hsmall] at hround
    split_ifs at hround with hnil hempty hlast
    · -- the status text of a response without headers keeps the CR behind it
      have htxt := congrArg Response.statusTxt (Except.ok.inj hround)
      simp at htxt
    · exact absurd hlast h.last_ne_space
    · exact ⟨hnil, hempty, hsmall⟩
  · rintro ⟨hne, htxt, hsmall⟩
    have hround := h.proper.deserialize_head hsmall r.body
    rw [if_neg hne, if_neg htxt, if_neg h.last_ne_space] at hround
    exact Response.throughCodec_eq_ok.mpr ⟨Response.serialize_of_small hsmall, hround⟩

theorem successful_comes_back :
    (Response.new .OK (lit "all went  well")).throughCodec =
      .ok (Response.new .OK (lit "all went  well")) :=
  (response_round_trip_iff ⟨by decide, by decide, by decide, by decide,
    HeaderMap.oneLine_iff.mpr (by decide), HeaderMap.colonFree_iff.mpr (by decide)⟩).mpr
    ⟨by decide, by decide, by decide⟩

/-- A response without a status text is not parsed. -/
theorem empty_statusTxt_refused : (Response.new .OK []).WellFormed ∧
    (Response.new .OK []).throughCodec ≠ .ok (Response.new .OK []) :=
  ⟨⟨by decide, by decide, by decide, by decide, HeaderMap.oneLine_iff.mpr (by decide),
    HeaderMap.colonFree_iff.mpr (by decide)⟩, by decide⟩

end P2PFileSharing.Http
