import P2PFileSharing.Http.RoundTrip
import P2PFileSharing.Peer.UploadServer

/-!
# Bitfields on their way through a header

The upload server sends its bitfield as the raw bytes of a header value, and `download` makes a
bitfield of the value that it finds. A header value that has a colon, CRLF, or a blank at one of
its ends does not come back from its line.
-/

namespace P2PFileSharing.Peer

open Http Library UploadServer Util

/-- The part of `download` that takes the bitfield from a response. A header value that was read is
short enough for `s2b`, which gives its bytes. -/
def receivedBitfield (res : Response) : Except ExnClass Bitfield := do
  if res.status = .BAD_REQUEST then throw .invalidRequestException
  if res.status ≠ .OK then throw .invalidResponseException
  let value ← res.getHeader (lit "Bit-Field")
  return .ofBstring value

/-- The response is parsed back with its status and body, and the bitfield that is taken from it
has at least `n` bits and agrees with `bf` on each of them. -/
def Carries (n : Nat) (bf : Bitfield) (res : Response) : Prop :=
  ∃ parsed got, res.throughCodec = .ok parsed ∧
    parsed.status = res.status ∧ parsed.body = res.body ∧
    receivedBitfield parsed = .ok got ∧ n ≤ got.sizeT ∧ ∀ i < n, got.get i = bf.get i

/-- The bytes that a header value can have. -/
structure FieldSafe (bytes : BString) : Prop where
  no_colon : 58 ∉ bytes
  no_crlf : CrlfFree bytes
  no_blank_first : ∀ c ∈ bytes.head?, isBlank c = false
  no_blank_last : ∀ c ∈ bytes.getLast?, isBlank c = false

instance (bytes : BString) : Decidable (FieldSafe bytes) :=
  have (o : Option UInt8) : Decidable (∀ c ∈ o, isBlank c = false) := o.decidableForallMem
  decidable_of_iff (58 ∉ bytes ∧ CrlfFree bytes ∧ (∀ c ∈ bytes.head?, isBlank c = false) ∧
      ∀ c ∈ bytes.getLast?, isBlank c = false)
    ⟨fun ⟨h1, h2, h3, h4⟩ => ⟨h1, h2, h3, h4⟩, fun ⟨h1, h2, h3, h4⟩ => ⟨h1, h2, h3, h4⟩⟩

variable {n : Nat} {bf : Bitfield} {p : BString}

/-! ## The headers of a served piece -/

def fieldHeader (bf : Bitfield) : Header := ⟨lit "Bit-Field", bf.container⟩

def lengthHeader (p : BString) : Header := ⟨lit "Content-Length", toDecimal p.length⟩

theorem entries_served : (served bf p).headers.entries =
    [(lit "Bit-Field", fieldHeader bf), (lit "Content-Length", lengthHeader p)] := by
  rfl

/-- The line that every served piece starts with. -/
def servedLine : Str := lit "HTTP/2.0 200 successful"

theorem serializeHead_served : (served bf p).serializeHead =
    block [servedLine, (fieldHeader bf).serialize, (lengthHeader p).serialize] := by
  have hline : (served bf p).statusLine = servedLine :=
    (by decide : Version.toStr .HTTP_2_0 ++ SPACE ++ Status.toStr .OK ++ SPACE ++
      lit "successful" = servedLine)
  rw [Response.serializeHead_eq_block, headerLines, entries_served, hline]
  rfl

theorem transparent_lengthHeader : (lengthHeader p).Transparent := by
  have hkey : CrlfFree (lit "Content-Length") ∧ 58 ∉ lit "Content-Length" := by decide
  exact (intact_toDecimal p.length).transparent hkey.1 hkey.2

theorem transparent_fieldHeader : (fieldHeader bf).Transparent ↔ FieldSafe bf.container := by
  constructor
  · rintro ⟨-, -, hline, hcolon, htrim⟩
    obtain ⟨hfirst, hlast⟩ := trim_eq_self.mp htrim
    exact ⟨hcolon, hline, hfirst, hlast⟩
  · rintro ⟨hcolon, hline, hfirst, hlast⟩
    have hkey : CrlfFree (lit "Bit-Field") ∧ 58 ∉ lit "Bit-Field" := by decide
    exact ⟨hkey.1, hkey.2, hline, hcolon, trim_eq_self.mpr ⟨hfirst, hlast⟩⟩

theorem transparent_served (hsafe : FieldSafe bf.container) (hp : p.length ≤ pieceLength)
    (hlen : bf.container.length ≤ 2 ^ 28) : (served bf p).Transparent := by
  have hheaders : (served bf p).headers.Transparent := by
    rw [HeaderMap.transparent_iff, entries_served]
    simp only [List.forall_mem_cons, List.not_mem_nil, false_implies, implies_true, and_true]
    exact ⟨⟨rfl, transparent_fieldHeader.mpr hsafe⟩, rfl, transparent_lengthHeader⟩
  have hdigits : (toDecimal p.length).length ≤ 5 + 1 :=
    length_toDecimal_le (hp.trans_lt (by decide))
  have htext : CrlfFree (lit "successful") ∧ lit "successful" ≠ [] ∧
    (lit "successful").getLast? ≠ some 32 := by decide
  refine ⟨⟨htext.1, hheaders⟩, by simp [entries_served], htext.2.1, htext.2.2, ?_⟩
  have hconst : servedLine.length = 23 ∧ CRLF.length = 2 ∧ (lit ":" ++ SPACE).length = 2 ∧
    (lit "Bit-Field").length = 9 ∧ (lit "Content-Length").length = 14 := by decide
  obtain ⟨h1, h2, h3, h4, h5⟩ := hconst
  rw [List.length_append] at h3
  simp only [serializeHead_served, block, fieldHeader, lengthHeader, Header.serialize,
    List.flatMap_cons, List.flatMap_nil, List.length_append, List.length_nil, h1, h2, h3, h4, h5]
  omega

/-! ## What comes back -/

theorem safe_of_parsed {parsed : Response} {value : Str}
    (hparse : (served bf p).throughCodec = .ok parsed) (hbody : parsed.body = p)
    (hvalue : parsed.getHeader (lit "Bit-Field") = .ok value)
    (hlen : bf.container.length ≤ value.length) : FieldSafe bf.container := by
  obtain ⟨-, first, lines, v, code, txt, hlines, -, -, -, -, hheaders, hrest⟩ :=
    Response.deserialize_eq_ok.mp (Response.throughCodec_eq_ok.mp hparse).2
  have hbytes : (served bf p).bytes =
      block [servedLine, (fieldHeader bf).serialize, (lengthHeader p).serialize] ++ p := by
    rw [Response.bytes, serializeHead_served]
    rfl
  rw [hbytes, hbody] at hrest
  rw [hbytes, substrTo_of_body (by simp) hrest, headText, headText, headText,
    tokenize_cut CRLF_ne_nil (CrlfFree.free_crlf (by decide)), List.cons.injEq] at hlines
  obtain ⟨h, hfind, rfl⟩ :
      ∃ h, parsed.headers.find? (lit "Bit-Field") = some h ∧ h.value = value := by
    rw [Response.getHeader] at hvalue
    split at hvalue
    · rename_i h hfind
      cases hvalue
      exact ⟨h, hfind, rfl⟩
    · cases hvalue
  -- the header comes from one of the lines
  obtain ⟨line, hmem, hline, hkey⟩ := deserializeHeaders_forall
    (fun k h => ∃ line ∈ lines, Header.deserialize line = .ok h ∧ h.key = k) (by simp)
    (fun line hline h hh => ⟨line, hline, hh, rfl⟩) hheaders _ h hfind
  rw [← hlines.2] at hmem
  rcases mem_lines_append hmem with ⟨rfl, hfree⟩ | hshort | hlast
  · have hkey' : 58 ∉ lit "Bit-Field" := by decide
    obtain ⟨hcolon, htrim⟩ := Header.value_of_deserialize hkey' hline hlen
    obtain ⟨hfirst, hlast⟩ := trim_eq_self.mp htrim
    exact ⟨hcolon, hfree.of_part (List.suffix_append _ _).isInfix, hfirst, hlast⟩
  · -- the line is too short for the whole value
    have hroom := Header.length_le_of_deserialize hline
    have hsep : (lit ":" ++ SPACE).length = 2 := by decide
    rw [List.length_append] at hsep
    rw [hkey] at hroom
    simp only [fieldHeader, Header.serialize, List.length_append, hsep] at hshort
    omega
  · -- the line is the one of the other header
    have ht : (lengthHeader p).Transparent := transparent_lengthHeader
    have hother := Header.deserialize_line ht.key_colon (.inr rfl)
    rw [ht.carried_eq] at hother
    have hfree : CrlfFree ((lengthHeader p).serialize ++ [13]) :=
      crlfFree_append.mpr ⟨(properLine_header ht.key_line ht.value_line).1, .singleton 13, by simp⟩
    rw [tokenize_last (crlfFree_iff.mp hfree), if_pos (by simp), List.mem_singleton] at hlast
    rw [hlast, hother, Except.ok.injEq] at hline
    rw [← hline] at hkey
    exact absurd hkey (by decide : lit "Content-Length" ≠ lit "Bit-Field")

theorem receivedBitfield_eq_ok {res : Response} {got : Bitfield}
    (h : receivedBitfield res = .ok got) :
    ∃ value, res.getHeader (lit "Bit-Field") = .ok value ∧ got = .ofBstring value := by
  rw [receivedBitfield] at h
  rcases hvalue : res.getHeader (lit "Bit-Field") with e | value
  · split_ifs at h <;> simp [hvalue, bind, Except.bind] at h
  · refine ⟨value, rfl, ?_⟩
    split_ifs at h <;> simp_all [bind, Except.bind, pure, Except.pure, throw, throwThe,
      MonadExceptOf.throw]

theorem getHeader_served (bf : Bitfield) (p : BString) :
    (served bf p).getHeader (lit "Bit-Field") = .ok bf.container := by
  rw [Response.getHeader, (OrdMap.mem_entries (v := fieldHeader bf)).mp]
  · rfl
  · rw [entries_served]
    exact List.mem_cons_self

theorem receivedBitfield_served (bf : Bitfield) (p : BString) :
    receivedBitfield (served bf p) = .ok (.ofBstring bf.container) := by
  have hstatus : (served bf p).status = .OK := rfl
  simp [receivedBitfield, hstatus, getHeader_served, bind, Except.bind, pure, Except.pure]

/-- A bitfield whose bytes are safe comes back whole. -/
theorem parse_served (hsafe : FieldSafe bf.container) (hp : p.length ≤ pieceLength)
    (hlen : bf.container.length ≤ 2 ^ 28) :
    (served bf p).throughCodec = .ok (served bf p) ∧
      receivedBitfield (served bf p) = .ok (.ofBstring bf.container) := by
  have ht := transparent_served hsafe hp hlen
  exact ⟨Response.throughCodec_eq_ok.mpr
    ⟨Response.serialize_of_small ht.small, ht.deserialize_head p⟩, receivedBitfield_served bf p⟩

theorem size_ofBstring (bs : BString) : (Bitfield.ofBstring bs).size = toInt32 (bs.length * 8) := by
  rw [Bitfield.ofBstring]

/-- The `int` that counts the bits holds no more than `2 ^ 31 - 8` of them. -/
theorem lt_of_size_ofBstring {bs : BString} {k : Nat}
    (h : (k : Int) < (Bitfield.ofBstring bs).size) :
    k < 2 ^ 31 - 8 ∧ k < bs.length * 8 := by
  rw [size_ofBstring, toInt32, Int.bmod_def] at h
  split at h <;> omega

/-! ## The channel -/

theorem safe_of_carries (hn : 1 ≤ n) (hsize : bf.size = n)
    (hlen : bf.container.length = (n - 1) / 8 + 1) (h : Carries n bf (served bf p)) :
    n ≤ 2 ^ 31 - 8 ∧ FieldSafe bf.container := by
  obtain ⟨parsed, got, hparse, -, hbody, hgot, -, hbits⟩ := h
  obtain ⟨value, hvalue, rfl⟩ := receivedBitfield_eq_ok hgot
  have hlast := hbits (n - 1) (by omega)
  have hown : bf.get (n - 1) = .ok (bf.test (n - 1)) := Bitfield.get_of_lt (by omega)
  rw [hown, Bitfield.get] at hlast
  split at hlast
  · cases hlast
  · rename_i hin
    obtain ⟨hint, hroom⟩ := lt_of_size_ofBstring (not_le.mp hin)
    exact ⟨by omega, safe_of_parsed hparse hbody hvalue (by omega)⟩

theorem carries_of_safe (hn : 1 ≤ n) (hmax : n ≤ 2 ^ 31 - 8) (hsize : bf.size = n)
    (hlen : bf.container.length = (n - 1) / 8 + 1) (hsafe : FieldSafe bf.container)
    (hp : p.length ≤ pieceLength) : Carries n bf (served bf p) := by
  obtain ⟨hparse, hgot⟩ := parse_served hsafe hp (by omega)
  have hgotSize : (Bitfield.ofBstring bf.container).size = bf.container.length * 8 := by
    rw [size_ofBstring, toInt32_eq_self] <;> omega
  refine ⟨served bf p, _, hparse, rfl, rfl, hgot, ?_, fun i hi => ?_⟩
  · rw [Bitfield.sizeT, hgotSize]
    omega
  · rw [Bitfield.get_of_lt (by omega), Bitfield.get_of_lt (by omega), Bitfield.test, Bitfield.test,
      Bitfield.ofBstring]

/-- The bitfield of a peer with `n` pieces reaches the downloader exactly when its bytes are
those of a header value and the size of the received bytes fits into an `int`. -/
theorem bitfield_carried_iff {n : Nat} (hn : 1 ≤ n) {owned : List Nat} (howned : ∀ i ∈ owned, i < n)
    {bf : Bitfield} (hbf : Bitfield.holding n owned = .ok bf) {req : Request} {sock : SockAddr}
    {s t : UploadServer} {res : Response} (hserve : callback bf req sock s = (.ok res, t))
    (hok : res.status = .OK) :
    Carries n bf res ↔ n ≤ 2 ^ 31 - 8 ∧ FieldSafe bf.container := by
  obtain ⟨p, rfl, hp⟩ := callback_ok hserve hok
  obtain ⟨bf', hbf', hsize, hlen, -⟩ := Bitfield.holding_spec hn howned
  obtain rfl : bf' = bf := Except.ok.inj (hbf'.symm.trans hbf)
  constructor
  · exact safe_of_carries hn hsize hlen
  · rintro ⟨hmax, hsafe⟩
    exact carries_of_safe hn hmax hsize hlen hsafe hp

/-- A request for piece 0. -/
def pieceZero : Request :=
  (Request.new .GET (lit "/piece")).addHeader (lit "Piece-Id") (lit "0")

theorem pieceZero_header : pieceZero.getHeader (lit "Piece-Id") = .ok (lit "0") := rfl

theorem stoi_zero : stoi (lit "0") = .ok ((0 : Nat) : Int) := by
  have hvalue : strtol (lit "0") = some 0 := by decide
  simp [stoi, hvalue]

theorem pieceZero_served (bf : Bitfield) {content : BString} (hne : content ≠ [])
    (hsize : content.length < 2 ^ 63) (old : Nat) (buf : BString) :
    ∃ t, callback bf pieceZero .new ⟨⟨content, old, false⟩, buf⟩ =
      (.ok (served bf (piece content 0)), t) := by
  have hstart : 0 * pieceLength < content.length := by
    rw [Nat.zero_mul]
    exact List.length_pos_of_ne_nil hne
  exact callback_run bf pieceZero_header stoi_zero hstart hsize .new old buf

/-- A server of a file of one byte. -/
def oneByte : UploadServer := ⟨⟨[7], 0, false⟩, List.replicate pieceLength 0⟩

theorem oneByte_serves (bf : Bitfield) :
    ∃ t, callback bf pieceZero .new oneByte = (.ok (served bf [7]), t) := by
  have hpiece : piece [7] 0 = [7] := List.take_of_length_le (by decide)
  have hrun :=
    pieceZero_served bf (List.cons_ne_nil 7 []) (by decide) 0 (List.replicate pieceLength 0)
  rw [hpiece] at hrun
  exact hrun

/-- The only piece of a seeder. -/
theorem one_piece_carried : Carries 1 ⟨[1], 1⟩ (served ⟨[1], 1⟩ [7]) := by
  obtain ⟨t, hserve⟩ := oneByte_serves ⟨[1], 1⟩
  have howned : ∀ i ∈ [0], i < 1 := fun i hi => (List.mem_singleton.mp hi).le.trans_lt one_pos
  exact (bitfield_carried_iff (le_refl 1) howned rfl hserve rfl).mpr ⟨by omega, by decide⟩

/-- A peer that owns the pieces 1, 3, 4 and 5 of six sends a colon. -/
theorem colon_not_carried : ∃ bf t, Bitfield.holding 6 [1, 3, 4, 5] = .ok bf ∧
    callback bf pieceZero .new oneByte = (.ok (served bf [7]), t) ∧
    ¬ Carries 6 bf (served bf [7]) := by
  obtain ⟨t, hserve⟩ := oneByte_serves ⟨[58], 6⟩
  refine ⟨⟨[58], 6⟩, t, rfl, hserve, fun h => ?_⟩
  have hcolon := (safe_of_carries (by decide : 1 ≤ 6) rfl rfl h).2.no_colon
  exact hcolon (by decide)

end P2PFileSharing.Peer
