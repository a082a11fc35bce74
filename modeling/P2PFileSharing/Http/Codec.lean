import P2PFileSharing.Cpp.Convert
import P2PFileSharing.Http.Framing

/-!
# Which messages survive their own serialization

A parser takes the head up to and including the CR of its last line, so the last line comes back
with a CR behind it. A header loses that CR when its value is trimmed; a first line does not.
-/

namespace P2PFileSharing.Http

open Library Split Util

/-! ## Lines as the parser sees them -/

/-- The lines with a CR behind the last one. -/
def closeLast : List Str → List Str
  | [] => []
  | [l] => [l ++ [13]]
  | l :: l' :: lines => l :: closeLast (l' :: lines)

/-- The part of a head that is split into lines. -/
def headText : List Str → BString
  | [] => [13]
  | [l] => l ++ [13]
  | l :: l' :: lines => l ++ CRLF ++ headText (l' :: lines)

theorem block_eq_headText {lines : List Str} (hne : lines ≠ []) :
    block lines = headText lines ++ [10, 13, 10] := by
  induction lines with
  | nil => exact absurd rfl hne
  | cons l lines ih =>
    cases lines with
    | nil => simp [block, headText, CRLF_eq]
    | cons l' lines => rw [block_cons, ih (by simp), headText, List.append_assoc _ (headText _)]

theorem tokenize_headText {lines : List Str} (hne : lines ≠ []) (h : ∀ l ∈ lines, CrlfFree l) :
    tokenize (headText lines) CRLF = closeLast lines := by
  induction lines with
  | nil => exact absurd rfl hne
  | cons l lines ih =>
    obtain ⟨hl, hlines⟩ := List.forall_mem_cons.mp h
    cases lines with
    | nil =>
      have hfree : CrlfFree (l ++ [13]) := crlfFree_append.mpr ⟨hl, .singleton 13, by simp⟩
      rw [headText, tokenize_last (crlfFree_iff.mp hfree), if_pos (by simp), closeLast]
    | cons l' lines =>
      rw [headText, tokenize_cut CRLF_ne_nil hl.free_crlf, ih (by simp) hlines, closeLast]

/-- A line of a text that continues a part `w`: it is `w` itself, lies inside `w` before a break,
or belongs to the continuation. -/
theorem mem_lines_append {w y t : Str} (h : t ∈ tokenize (w ++ CRLF ++ y) CRLF) :
    t = w ∧ CrlfFree w ∨ t.length + 2 ≤ w.length ∨ t ∈ tokenize y CRLF := by
  induction w using cut_induction CRLF_ne_nil with
  | last w hw =>
    have hfree := crlfFree_iff.mpr hw
    rw [tokenize_cut CRLF_ne_nil hfree.free_crlf, List.mem_cons] at h
    rcases h with rfl | h
    · exact .inl ⟨rfl, hfree⟩
    · exact .inr (.inr h)
  | cut u v hu ih =>
    have hlen : (u ++ CRLF ++ v).length = u.length + 2 + v.length := by
      simp only [List.length_append, CRLF_eq, List.length_cons, List.length_nil]
    rw [List.append_assoc _ v, List.append_assoc _ (v ++ CRLF), tokenize_cut CRLF_ne_nil hu,
      List.mem_cons] at h
    rcases h with rfl | h
    · exact .inr (.inl (by omega))
    · rcases ih h with ⟨rfl, -⟩ | hle | hy
      · exact .inr (.inl (by omega))
      · exact .inr (.inl (by omega))
      · exact .inr (.inr hy)

/-- A parser that finds the body behind a head has found the end of the head. -/
theorem substrTo_of_body {lines : List Str} {body : BString} {pos : Int} (hne : lines ≠ [])
    (h : substrFrom (block lines ++ body) (pos + 4) = .ok body) :
    substrTo (block lines ++ body) (pos + 1) = headText lines := by
  obtain ⟨hge, hle, hbody⟩ := substrFrom_eq_ok.mp h
  have hlen := congrArg List.length hbody
  have hblock := congrArg List.length (block_eq_headText hne)
  rw [List.length_append] at hle
  simp only [List.length_drop, List.length_append, List.length_cons, List.length_nil] at hlen hblock
  have hpos : (pos + 1).toNat = (headText lines).length := by omega
  rw [substrTo, if_neg (by omega), hpos, block_eq_headText hne, List.append_assoc,
    List.take_left' rfl]

theorem findInt_block {lines : List Str} (hne : lines ≠ []) (h : ∀ l ∈ lines, ProperLine l)
    (body : BString) :
    ∃ pos : Nat, pos + 4 = (block lines).length ∧
      findInt (block lines ++ body) (CRLF ++ CRLF) = toInt32 pos := by
  obtain ⟨x, hx, hfree⟩ := delimited_block hne h
  refine ⟨x.length, by simp [hx, terminator_eq], ?_⟩
  rw [findInt, hx, ← terminator_eq_append, find_of_free terminator_ne_nil hfree]

/-- How the parser cuts a message whose head is shorter than `2 ^ 31` bytes, and the lines that it
finds. -/
theorem parse_block {lines : List Str} (hne : lines ≠ []) (h : ∀ l ∈ lines, ProperLine l)
    (hsmall : (block lines).length < 2 ^ 31) (body : BString) :
    cutHead (block lines ++ body) = .ok (headText lines, body) ∧
      tokenize (headText lines) CRLF = closeLast lines := by
  refine ⟨?_, tokenize_headText hne fun l hl => (h l hl).1⟩
  obtain ⟨pos, hpos, hfind⟩ := findInt_block hne h body
  have htext := block_eq_headText hne
  have hlen : (headText lines).length = pos + 1 := by
    rw [htext, List.length_append, List.length_cons] at hpos
    simp only [List.length_cons, List.length_nil] at hpos
    omega
  rw [toInt32_eq_self (by omega) (by omega)] at hfind
  have hhead : substrTo (block lines ++ body) (pos + 1) = headText lines := by
    rw [substrTo, if_neg (by omega), htext, List.append_assoc, List.take_left' (by omega)]
  have hbody : substrFrom (block lines ++ body) (pos + 4) = .ok body := by
    refine substrFrom_eq_ok.mpr ⟨by omega, ?_, ?_⟩
    · rw [List.length_append]
      omega
    · rw [List.drop_left' (by omega)]
  have hfits : HeadFits (block lines ++ body) := by
    rw [HeadFits, hfind, hhead]
    omega
  rw [cutHead_eq, if_pos hfits, hfind, hhead, hbody]
  rfl

/-! ## Headers -/

/-- A header that its line gives back: neither part has CRLF or a colon, and the value has no
blank at either end. -/
structure Header.Transparent (h : Header) : Prop where
  key_line : CrlfFree h.key
  key_colon : 58 ∉ h.key
  value_line : CrlfFree h.value
  value_colon : 58 ∉ h.value
  value_trim : trim h.value = h.value

instance (h : Header) : Decidable h.Transparent :=
  decidable_of_iff (CrlfFree h.key ∧ 58 ∉ h.key ∧ CrlfFree h.value ∧ 58 ∉ h.value ∧
      trim h.value = h.value)
    ⟨fun ⟨h1, h2, h3, h4, h5⟩ => ⟨h1, h2, h3, h4, h5⟩,
      fun ⟨h1, h2, h3, h4, h5⟩ => ⟨h1, h2, h3, h4, h5⟩⟩

/-- Every entry is stored under its own key and comes back from its line. -/
def HeaderMap.Transparent (headers : HeaderMap) : Prop :=
  ∀ k h, headers.find? k = some h → k = h.key ∧ h.Transparent

theorem HeaderMap.transparent_iff {headers : HeaderMap} : headers.Transparent ↔
    ∀ e ∈ headers.entries, e.1 = e.2.key ∧ e.2.Transparent :=
  ⟨fun h e he => h e.1 e.2 (OrdMap.mem_entries.mp he),
    fun h k v hv => h (k, v) (OrdMap.mem_entries.mpr hv)⟩

theorem HeaderMap.Transparent.insert {headers : HeaderMap} {header : Header}
    (h : headers.Transparent) (ht : header.Transparent) :
    HeaderMap.Transparent (OrdMap.insert headers header.key header) := by
  intro k g hfind
  rw [OrdMap.find?_insert] at hfind
  split at hfind
  · cases hfind
    exact ⟨‹_›, ht⟩
  · exact h k g hfind

/-- A value that comes back from the line of its header. -/
structure Intact (value : Str) : Prop where
  line : CrlfFree value
  colon : 58 ∉ value
  trim : Util.trim value = value

theorem Header.Transparent.intact {h : Header} (ht : h.Transparent) : Intact h.value :=
  ⟨ht.value_line, ht.value_colon, ht.value_trim⟩

theorem Intact.transparent {key value : Str} (h : Intact value) (hline : CrlfFree key)
    (hcolon : 58 ∉ key) : (⟨key, value⟩ : Header).Transparent :=
  ⟨hline, hcolon, h.line, h.colon, h.trim⟩

/-- Neither blanks nor colons. -/
theorem intact_of_visible {value : Str} (h : ∀ c ∈ value, isBlank c = false ∧ c ≠ 58) :
    Intact value := by
  refine ⟨crlfFree_iff.mpr fun hcrlf => ?_, fun hmem => (h 58 hmem).2 rfl,
    trim_eq_self.mpr ⟨?_, ?_⟩⟩
  · exact absurd (h 13 (hcrlf.subset (by decide))).1 (by decide)
  · exact fun c hc => (h c (List.mem_of_mem_head? hc)).1
  · exact fun c hc => (h c (List.mem_of_mem_getLast? hc)).1

theorem digit_visible {c : UInt8} (h : 48 ≤ c ∧ c ≤ 57) : isBlank c = false ∧ c ≠ 58 := by
  have hvisible : c ∉ ([58, 32, 10, 13, 9, 12, 11] : Str) := by
    intro hmem
    rw [UInt8.le_iff_toNat_le, UInt8.le_iff_toNat_le] at h
    simp only [List.mem_cons, List.not_mem_nil, or_false] at hmem
    rcases hmem with rfl | rfl | rfl | rfl | rfl | rfl | rfl <;> simp at h
  rw [List.mem_cons, not_or] at hvisible
  exact ⟨decide_eq_false hvisible.2, hvisible.1⟩

theorem intact_toDecimal (n : Nat) : Intact (toDecimal n) :=
  intact_of_visible fun c hc => digit_visible (toDecimal_digits n c hc)

theorem intact_intToDecimal (n : Int) : Intact (intToDecimal n) := by
  apply intact_of_visible
  intro c hc
  rw [intToDecimal] at hc
  split at hc
  · rcases List.mem_append.mp hc with hc | hc
    · obtain rfl : c = 45 := List.mem_singleton.mp hc
      decide
    · exact digit_visible (toDecimal_digits _ c hc)
  · exact digit_visible (toDecimal_digits _ c hc)

/-- Intact values run together, because neither has a blank at an end. -/
theorem Intact.append {a b : Str} (ha : Intact a) (hb : Intact b) : Intact (a ++ b) := by
  obtain ⟨hfirst, hlast⟩ := trim_eq_self.mp ha.trim
  obtain ⟨hfirst', hlast'⟩ := trim_eq_self.mp hb.trim
  refine ⟨crlfFree_append.mpr ⟨ha.line, hb.line, ?_⟩, ?_, trim_eq_self.mpr ⟨?_, ?_⟩⟩
  · rintro ⟨hcr, -⟩
    exact absurd (hlast 13 hcr) (by decide)
  · exact fun hmem => (List.mem_append.mp hmem).elim ha.colon hb.colon
  · intro c hc
    rw [List.head?_append, Option.mem_def, Option.or_eq_some_iff] at hc
    exact hc.elim (hfirst c) fun h => hfirst' c h.2
  · intro c hc
    rw [List.getLast?_append, Option.mem_def, Option.or_eq_some_iff] at hc
    exact hc.elim (hlast' c) fun h => hlast c h.2

theorem colon_eq : lit ":" = [58] := by decide

def beforeColon (s : Str) : Str := s.takeWhile (· ≠ 58)

theorem beforeColon_append {x : Str} (h : 58 ∉ x) (y : Str) : beforeColon (x ++ 58 :: y) = x := by
  induction x with
  | nil => rfl
  | cons c x ih =>
    obtain ⟨hne, hx⟩ := not_or.mp (mt List.mem_cons.mpr h)
    rw [List.cons_append, beforeColon, List.takeWhile_cons_of_pos (by simpa using Ne.symm hne)]
    exact congrArg (c :: ·) (ih hx)

theorem beforeColon_of_notMem {s : Str} (h : 58 ∉ s) : beforeColon s = s := by
  induction s with
  | nil => rfl
  | cons c s ih =>
    obtain ⟨hne, hs⟩ := not_or.mp (mt List.mem_cons.mpr h)
    rw [beforeColon, List.takeWhile_cons_of_pos (by simpa using Ne.symm hne)]
    exact congrArg (c :: ·) (ih hs)

/-- What is left of a value on its way through a line: it is cut at its first colon. -/
def carriedValue (value : Str) : Str := trim (beforeColon value)

def Header.carried (h : Header) : Header := ⟨h.key, carriedValue h.value⟩

def HeaderMap.carried (headers : HeaderMap) : HeaderMap := headers.map Header.carried

theorem Intact.carriedValue_eq {value : Str} (h : Intact value) : carriedValue value = value := by
  rw [carriedValue, beforeColon_of_notMem h.colon, h.trim]

theorem Header.Transparent.carried_eq {h : Header} (ht : h.Transparent) : h.carried = h := by
  rw [Header.carried, ht.intact.carriedValue_eq]

/-- A line with or without the CR behind the last one. -/
theorem Header.deserialize_line {h : Header} (hkey : 58 ∉ h.key) {t : Str}
    (htail : t = [] ∨ t = [13]) : Header.deserialize (h.serialize ++ t) = .ok h.carried := by
  have hsep : lit ":" ++ SPACE = [58, 32] := by decide
  have hline : h.serialize ++ t = h.key ++ [58] ++ (32 :: (h.value ++ t)) := by
    simp [Header.serialize, hsep]
  rw [Header.deserialize_eq_ok, hline, colon_eq,
    tokenize_cut (by simp) (free_singleton.mpr hkey)]
  by_cases hcolon : 58 ∈ h.value
  · obtain ⟨x, y, hx, hfree⟩ := List.eq_append_cons_of_mem hcolon
    have hcut : 32 :: (h.value ++ t) = 32 :: x ++ [58] ++ (y ++ t) := by simp [hx]
    rw [hcut, tokenize_cut (by simp) (free_singleton.mpr (by simp [hfree]))]
    refine ⟨_, _, _, rfl, ?_⟩
    rw [Header.carried, carriedValue, hx, beforeColon_append hfree, trim_cons_blank (by decide)]
  · have hrest : 58 ∉ 32 :: (h.value ++ t) := by
      rcases htail with rfl | rfl <;> simp [hcolon]
    have hfree := free_singleton.mpr hrest
    rw [tokenize_last (hfree.not_infix (by simp)), if_pos (by simp)]
    refine ⟨_, _, _, rfl, ?_⟩
    rw [Header.carried, carriedValue, beforeColon_of_notMem hcolon, trim_cons_blank (by decide)]
    rcases htail with rfl | rfl
    · rw [List.append_nil]
    · rw [trim_append_blank _ (by decide)]

/-- A line has room for the key, the colon and the value that are read from it. -/
theorem Header.length_le_of_deserialize {line : Str} {h : Header}
    (hline : Header.deserialize line = .ok h) :
    h.key.length + 1 + h.value.length ≤ line.length := by
  obtain ⟨key, value, rest, htok, rfl⟩ := Header.deserialize_eq_ok.mp hline
  have hle := length_flatMap_tokenize_le (show lit ":" ≠ [] by decide) line
  have htrim := length_trim_le value
  have hcolon : (lit ":").length = 1 := by decide
  rw [htok] at hle
  simp only [List.flatMap_cons, List.length_append, hcolon] at hle
  dsimp only
  omega

/-- A value that comes back at its full length has no colon and no blank at either end. -/
theorem Header.value_of_deserialize {g h : Header} (hkey : 58 ∉ g.key)
    (hline : Header.deserialize g.serialize = .ok h) (hlen : g.value.length ≤ h.value.length) :
    58 ∉ g.value ∧ trim g.value = g.value := by
  obtain ⟨key, value, rest, htok, rfl⟩ := Header.deserialize_eq_ok.mp hline
  have hsep : lit ":" ++ SPACE = [58, 32] := by decide
  have hform : g.serialize = g.key ++ [58] ++ (32 :: g.value) := by simp [Header.serialize, hsep]
  rw [hform, colon_eq, tokenize_cut (by simp) (free_singleton.mpr hkey), List.cons.injEq] at htok
  have htrim (x : Str) : (trim (32 :: x)).length ≤ x.length := by
    rw [trim_cons_blank (by decide)]
    exact length_trim_le x
  have hcolon : 58 ∉ g.value := by
    intro hmem
    obtain ⟨x, y, hx, hfree⟩ := List.eq_append_cons_of_mem hmem
    have hcut : 32 :: g.value = 32 :: x ++ [58] ++ y := by simp [hx]
    rw [hcut, tokenize_cut (by simp) (free_singleton.mpr (by simp [hfree])),
      List.cons.injEq] at htok
    have hle := htrim x
    rw [htok.2.1] at hle
    rw [hx] at hlen
    simp only [List.length_append, List.length_cons] at hlen
    omega
  have hrest : ¬ [58] <:+: 32 :: g.value := by
    rw [List.singleton_infix_iff]
    simp [hcolon]
  rw [tokenize_last hrest, if_pos (by simp), List.cons.injEq] at htok
  rw [← htok.2.1, trim_cons_blank (by decide)] at hlen
  exact ⟨hcolon, (trim_isPart g.value).eq_of_length_le hlen⟩

theorem deserializeHeaders_closeLast {es : List (Str × Header)}
    (h : ∀ e ∈ es, e.1 = e.2.key ∧ 58 ∉ e.2.key) (init : HeaderMap) :
    deserializeHeaders init (closeLast (es.map (fun p => p.2.serialize))) =
      .ok (es.foldl (fun m e => m.insert e.1 e.2.carried) init) := by
  induction es generalizing init with
  | nil => rfl
  | cons e es ih =>
    obtain ⟨⟨hkey, hcolon⟩, hes⟩ := List.forall_mem_cons.mp h
    have hplain := Header.deserialize_line hcolon (.inl rfl)
    rw [List.append_nil] at hplain
    cases es with
    | nil =>
      refine deserializeHeaders_cons.mpr ⟨_, Header.deserialize_line hcolon (.inr rfl), ?_⟩
      rw [List.foldl_cons, hkey]
      rfl
    | cons e' es =>
      refine deserializeHeaders_cons.mpr ⟨_, hplain, ?_⟩
      rw [List.foldl_cons, hkey]
      exact ih hes _

/-- Every entry is stored under its own key, which has no colon. -/
def HeaderMap.Keyed (headers : HeaderMap) : Prop :=
  ∀ k h, headers.find? k = some h → k = h.key ∧ 58 ∉ h.key

theorem deserializeHeaders_headerLines {headers : HeaderMap} (h : headers.Keyed) :
    deserializeHeaders ∅ (closeLast (headerLines headers)) = .ok headers.carried := by
  have hkeyed : ∀ e ∈ headers.entries, e.1 = e.2.key ∧ 58 ∉ e.2.key :=
    fun e he => h e.1 e.2 (OrdMap.mem_entries.mp he)
  rw [headerLines, deserializeHeaders_closeLast hkeyed,
    ← OrdMap.foldl_insert_entries headers.carried, HeaderMap.carried, OrdMap.map, List.foldl_map]

/-- Transparent headers come back from their lines. -/
theorem HeaderMap.Transparent.carried_eq {headers : HeaderMap} (h : headers.Transparent) :
    headers.carried = headers :=
  OrdMap.map_eq_self fun k header hfind => (h k header hfind).2.carried_eq

theorem HeaderMap.Transparent.keyed {headers : HeaderMap} (h : headers.Transparent) :
    headers.Keyed := by
  intro k header hfind
  obtain ⟨hk, ht⟩ := h k header hfind
  exact ⟨hk, ht.key_colon⟩

/-- Parsed headers are transparent. -/
theorem transparent_of_deserializeHeaders {lines : List Str} {headers : HeaderMap}
    (hlines : ∀ l ∈ lines, CrlfFree l) (h : deserializeHeaders ∅ lines = .ok headers) :
    headers.Transparent := by
  refine deserializeHeaders_forall (fun k h => k = h.key ∧ h.Transparent) (by simp) ?_ h
  intro line hline h hh
  obtain ⟨key, value, rest, htok, rfl⟩ := Header.deserialize_eq_ok.mp hh
  have hcolon : [(58 : UInt8)] ≠ [] := by simp
  rw [colon_eq] at htok
  have hpart (t : Str) (ht : t ∈ key :: value :: rest) : CrlfFree t ∧ 58 ∉ t := by
    rw [← htok] at ht
    exact ⟨(hlines line hline).of_mem_tokenize hcolon ht, notMem_of_mem_tokenize ht⟩
  obtain ⟨hkey, hkey'⟩ := hpart key (by simp)
  obtain ⟨hvalue, hvalue'⟩ := hpart value (by simp)
  exact ⟨rfl, hkey, hkey', hvalue.of_part (trim_isPart value),
    fun hmem => hvalue' ((trim_isPart value).subset hmem), trim_trim value⟩

theorem HeaderMap.Transparent.properLine {headers : HeaderMap} (h : headers.Transparent) :
    ∀ l ∈ headerLines headers, ProperLine l := by
  intro l hl
  obtain ⟨e, he, rfl⟩ := List.mem_map.mp hl
  obtain ⟨-, ht⟩ := HeaderMap.transparent_iff.mp h e he
  exact properLine_header ht.key_line ht.value_line

theorem closeLast_cons (l : Str) (headers : HeaderMap) :
    closeLast (l :: headerLines headers) =
      (if headers.entries = [] then l ++ [13] else l) :: closeLast (headerLines headers) := by
  rw [headerLines]
  rcases headers.entries with _ | ⟨e, es⟩
  · rfl
  · rfl

/-! ## Heads of `2 ^ 31` bytes and more -/

/-- A header is at most one byte longer than the line it was read from. -/
theorem length_header_le {line : Str} {h : Header} (hline : Header.deserialize line = .ok h) :
    h.serialize.length ≤ line.length + 1 := by
  have hle := Header.length_le_of_deserialize hline
  have hsep : (lit ":" ++ SPACE).length = 2 := by decide
  simp only [Header.serialize, List.length_append] at hsep ⊢
  omega

theorem length_headers_le {init headers : HeaderMap} {lines : List Str}
    (h : deserializeHeaders init lines = .ok headers) :
    headers.serialize.length ≤
      init.serialize.length + 2 * (lines.flatMap (· ++ CRLF)).length := by
  induction lines generalizing init with
  | nil =>
    cases h
    simp
  | cons line lines ih =>
    obtain ⟨header, hline, hrest⟩ := deserializeHeaders_cons.mp h
    have hle := length_header_le hline
    have hinsert := OrdMap.length_flatMap_insert_le (fun p => p.2.serialize ++ CRLF) init
      header.key header
    have hrest := ih hrest
    have hcrlf : CRLF.length = 2 := rfl
    simp only [HeaderMap.serialize, List.flatMap_cons, List.length_append, hcrlf] at *
    omega

/-- Parsing a head gives its own lines back only where the position of its end can be added to: a
position that wraps around cuts the head far too short, or leaves more bytes than can be
counted. -/
theorem small_of_parse {lines : List Str} (hne : lines ≠ []) (h : ∀ l ∈ lines, ProperLine l)
    (hfits : HeadFits (block lines))
    (hsize : (block lines).length ≤
      2 * (substrTo (block lines) (findInt (block lines) (CRLF ++ CRLF) + 1)).length + 16) :
    (block lines).length < 2 ^ 31 := by
  obtain ⟨pos, hpos, hfind⟩ := findInt_block hne h []
  rw [List.append_nil] at hfind
  obtain ⟨hsum, hlen⟩ := hfits
  rw [hfind] at hsum hlen hsize
  rcases toInt32_natCast pos with ⟨-, hsame⟩ | ⟨hlarge, hwrap⟩
  · omega
  · exfalso
    by_cases hneg : toInt32 pos + 1 < 0
    · rw [substrTo, if_pos hneg] at hlen
      omega
    · rw [substrTo, if_neg hneg, List.length_take] at hsize
      omega

/-- The size of the head of a message, from the sizes of the parts it was parsed from. -/
theorem length_block_le {first line : Str} {lines : List Str} {headers : HeaderMap} {text : BString}
    (hfirst : first.length ≤ line.length + 4) (hlines : tokenize text CRLF = line :: lines)
    (hheaders : deserializeHeaders ∅ lines = .ok headers) :
    (block (first :: headerLines headers)).length ≤ 2 * text.length + 16 := by
  have hle := length_flatMap_tokenize_le CRLF_ne_nil text
  have hhead := length_headers_le hheaders
  have hcrlf : CRLF.length = 2 := rfl
  have hempty : (HeaderMap.serialize ∅).length = 0 := rfl
  have hblock : block (first :: headerLines headers) =
      first ++ CRLF ++ headers.serialize ++ CRLF := by
    simp [block, headerLines, HeaderMap.serialize, List.flatMap_map]
  rw [hlines, List.flatMap_cons] at hle
  rw [hblock]
  simp only [List.length_append, hcrlf] at hle ⊢
  omega

/-- A head is small if parsing it gives its headers, and a first line that is not much shorter than
its own. -/
theorem small_of_headers {first line : Str} {lines : List Str} {headers : HeaderMap}
    (h : ∀ l ∈ first :: headerLines headers, ProperLine l)
    (hfits : HeadFits (block (first :: headerLines headers)))
    (hlines : tokenize (substrTo (block (first :: headerLines headers))
      (findInt (block (first :: headerLines headers)) (CRLF ++ CRLF) + 1)) CRLF = line :: lines)
    (hheaders : deserializeHeaders ∅ lines = .ok headers)
    (hfirst : first.length ≤ line.length + 4) :
    (block (first :: headerLines headers)).length < 2 ^ 31 :=
  small_of_parse (by simp) h hfits (length_block_le hfirst hlines hheaders)

theorem length_toMethod_le (m : Str) : (toMethod m).toStr.length ≤ m.length := by
  unfold toMethod
  split_ifs with h1 h2 <;> simp_all [Method.toStr, lit]

theorem length_toVersion_le (v : Str) : (toVersion v).toStr.length ≤ v.length := by
  unfold toVersion
  split_ifs with h1 h2 h3 <;> simp_all [Version.toStr, lit]

theorem length_status_le (st : Status) : st.toStr.length ≤ 4 := by
  cases st <;> decide

/-! ## Requests -/

theorem SPACE_eq : SPACE = [32] := by decide

theorem toMethod_toStr (m : Method) : toMethod m.toStr = m := by
  cases m <;> decide

theorem toVersion_toStr (v : Version) : toVersion v.toStr = v := by
  cases v <;> decide

theorem toVersion_toStr_cr (v : Version) : toVersion (v.toStr ++ [13]) = .UNDEFINED := by
  cases v <;> decide

theorem notMem_method (m : Method) : 32 ∉ m.toStr := by
  cases m <;> decide

theorem notMem_version (v : Version) : 32 ∉ v.toStr := by
  cases v <;> decide

theorem length_version_pos {v : Version} (h : v ≠ .UNDEFINED) : v.toStr.length > 0 := by
  cases v <;> simp_all [Version.toStr, lit]

namespace Request

/-- What holds of the fields of every parsed request. -/
structure Proper (r : Request) : Prop where
  resource_space : 32 ∉ r.resource
  resource_line : CrlfFree r.resource
  headers : r.headers.Transparent

variable {r : Request}

theorem Proper.properLine (h : r.Proper) :
    ∀ l ∈ r.requestLine :: headerLines r.headers, ProperLine l := by
  refine List.forall_mem_cons.mpr ⟨⟨?_, ?_⟩, h.headers.properLine⟩
  · exact ((crlfFree_method _).join_space h.resource_line).join_space (crlfFree_version _)
  · simp [requestLine, SPACE_eq]

theorem Proper.delimited (h : r.Proper) : Delimited r.serializeHead := by
  rw [serializeHead_eq_block]
  exact delimited_block (by simp) h.properLine

theorem proper_of_deserialize {s : BString} (h : Request.deserialize s = .ok r) : r.Proper := by
  obtain ⟨-, line, lines, m, v, rest, hlines, hsegs, -, -, hheaders, -⟩ := deserialize_eq_ok.mp h
  have hfree : ∀ l ∈ line :: lines, CrlfFree l := by
    rw [← hlines]
    exact fun l hl => crlfFree_of_mem_lines hl
  obtain ⟨hline, hothers⟩ := List.forall_mem_cons.mp hfree
  have hresource : r.resource ∈ tokenize line SPACE := by simp [hsegs]
  refine ⟨?_, hline.of_mem_tokenize SPACE_ne_nil hresource,
    transparent_of_deserializeHeaders hothers hheaders⟩
  rw [SPACE_eq] at hresource
  exact notMem_of_mem_tokenize hresource

theorem Proper.intact_of_getHeader (h : r.Proper) {key value : Str}
    (hget : r.getHeader key = .ok value) : Intact value := by
  rw [getHeader] at hget
  split at hget
  · rename_i header hfind
    cases hget
    exact (h.headers key header hfind).2.intact
  · cases hget

theorem tokenize_requestLine (hspace : 32 ∉ r.resource) {v : Str} (hv : 32 ∉ v) :
    tokenize (r.method.toStr ++ SPACE ++ r.resource ++ SPACE ++ v) SPACE =
      r.method.toStr :: r.resource :: if v.length > 0 then [v] else [] := by
  have hm := free_singleton.mpr (notMem_method r.method)
  have hr := free_singleton.mpr hspace
  have hfree := free_singleton.mpr hv
  rw [SPACE_eq, List.append_assoc, List.append_assoc, tokenize_cut (by simp) hm,
    ← List.append_assoc, tokenize_cut (by simp) hr, tokenize_last (hfree.not_infix (by simp))]

/-- What the parser makes of the head of a request: without headers the version is lost, with
headers it must not be empty. -/
theorem deserialize_head (hspace : 32 ∉ r.resource)
    (hproper : ∀ l ∈ r.requestLine :: headerLines r.headers, ProperLine l)
    (hkeyed : r.headers.Keyed) (hsmall : r.serializeHead.length < 2 ^ 31) (body : BString) :
    deserialize (r.serializeHead ++ body) =
      if r.headers.entries = [] then
        .ok { r with body, headers := r.headers.carried, version := .UNDEFINED }
      else if r.version = .UNDEFINED then .error .undefined
      else .ok { r with body, headers := r.headers.carried } := by
  rw [serializeHead_eq_block] at hsmall ⊢
  obtain ⟨hcut, hlines⟩ := parse_block (by simp) hproper hsmall body
  have hheaders := deserializeHeaders_headerLines hkeyed
  have hmethod := toMethod_toStr r.method
  rw [closeLast_cons] at hlines
  by_cases hnil : r.headers.entries = []
  · have hcr : 32 ∉ r.version.toStr ++ [13] := by simp [notMem_version]
    have hsegs := tokenize_requestLine hspace hcr
    have hversion := toVersion_toStr_cr r.version
    rw [if_pos hnil] at hlines ⊢
    rw [if_pos (by simp), ← List.append_assoc, ← requestLine] at hsegs
    simp [deserialize, hcut, hlines, hsegs, hheaders, hmethod, hversion, bind, Except.bind, pure,
      Except.pure]
  · have hsegs := tokenize_requestLine hspace (notMem_version r.version)
    have hversion := toVersion_toStr r.version
    rw [if_neg hnil] at hlines ⊢
    rw [← requestLine] at hsegs
    by_cases hv : r.version = .UNDEFINED
    · rw [if_neg (by simp [hv, Version.toStr, lit])] at hsegs
      simp [deserialize, hcut, hlines, hsegs, hv, bind, Except.bind]
    · rw [if_pos (length_version_pos hv)] at hsegs
      simp [deserialize, hcut, hlines, hsegs, hv, hheaders, hmethod, hversion, bind, Except.bind,
        pure, Except.pure]

theorem Proper.deserialize_head (h : r.Proper) (hsmall : r.serializeHead.length < 2 ^ 31)
    (body : BString) : deserialize (r.serializeHead ++ body) =
      if r.headers.entries = [] then .ok { r with body, version := .UNDEFINED }
      else if r.version = .UNDEFINED then .error .undefined
      else .ok { r with body } := by
  rw [Request.deserialize_head h.resource_space h.properLine h.headers.keyed hsmall,
    h.headers.carried_eq]

/-- A request whose head is parsed back has a head of fewer than `2 ^ 31` bytes. -/
theorem small_of_deserialize (h : deserialize r.serializeHead = .ok r) :
    r.serializeHead.length < 2 ^ 31 := by
  have hproper := proper_of_deserialize h
  obtain ⟨hfits, line, lines, m, v, rest, hlines, hsegs, hm, hv, hheaders, -⟩ :=
    deserialize_eq_ok.mp h
  rw [serializeHead_eq_block] at hfits hlines ⊢
  refine small_of_headers hproper.properLine hfits hlines hheaders ?_
  have hle := length_flatMap_tokenize_le SPACE_ne_nil line
  have hspace : SPACE.length = 1 := rfl
  have hmethod := length_toMethod_le m
  have hversion := length_toVersion_le v
  rw [hsegs] at hle
  simp only [List.flatMap_cons, List.length_append, hspace] at hle
  simp only [requestLine, hm, hv, List.length_append, hspace]
  omega

/-- The requests whose head is parsed back. -/
structure Transparent (r : Request) : Prop extends Proper r where
  version : r.headers.entries = [] ↔ r.version = .UNDEFINED
  small : r.serializeHead.length < 2 ^ 31

theorem Transparent.deserialize_head (h : r.Transparent) (body : BString) :
    deserialize (r.serializeHead ++ body) = .ok (r.setBody body) := by
  rw [h.toProper.deserialize_head h.small]
  by_cases hnil : r.headers.entries = []
  · rw [if_pos hnil, ← h.version.mp hnil]
    rfl
  · rw [if_neg hnil, if_neg (mt h.version.mpr hnil)]
    rfl

/-- Parsing the head of a request gives the request back, apart from its body, exactly for
the transparent requests. -/
theorem transparent_iff : r.Transparent ↔
    ∃ parsed, deserialize r.serializeHead = .ok parsed ∧ parsed.setBody r.body = r := by
  constructor
  · intro h
    have hparse := h.deserialize_head []
    rw [List.append_nil] at hparse
    exact ⟨_, hparse, rfl⟩
  · rintro ⟨parsed, hparse, hbody⟩
    have hhead : r.serializeHead = parsed.serializeHead := by rw [← hbody]; rfl
    have hproper : r.Proper := by
      obtain ⟨h1, h2, h3⟩ := proper_of_deserialize hparse
      rw [← hbody]
      exact ⟨h1, h2, h3⟩
    have hsmall : r.serializeHead.length < 2 ^ 31 := by
      rw [hhead] at hparse ⊢
      exact small_of_deserialize hparse
    refine ⟨hproper, ?_, hsmall⟩
    have heq := hproper.deserialize_head hsmall []
    rw [List.append_nil, hparse] at heq
    by_cases hnil : r.headers.entries = []
    · rw [if_pos hnil, Except.ok.injEq] at heq
      rw [heq] at hbody
      have hversion : Version.UNDEFINED = r.version := congrArg Request.version hbody
      simp [hnil, hversion]
    · rw [if_neg hnil] at heq
      by_cases hv : r.version = .UNDEFINED
      · rw [if_pos hv] at heq
        cases heq
      · simp [hnil, hv]

end Request

/-! ## Responses -/

theorem toStatus_toStr (st : Status) : toStatus st.toStr = st := by
  cases st <;> decide

theorem notMem_status (st : Status) : 32 ∉ st.toStr := by
  cases st <;> decide

namespace Response

theorem joinStatusTxt_tokenize (text : Str) : joinStatusTxt (tokenize text SPACE) =
    if text = [] then .error (.thrown .outOfRange)
    else .ok (if text.getLast? = some 32 then text.dropLast else text) := by
  have hspace : lit " " = [32] := by decide
  rw [joinStatusTxt, SPACE_eq, hspace, flatMap_tokenize_singleton]
  by_cases hnil : text = []
  · simp [hnil, substrFrom]
  · by_cases hlast : text.getLast? = some 32
    · simp [hnil, hlast, substrFrom_cons]
    · simp [hnil, hlast, substrFrom_cons]

/-- What holds of the fields of every parsed response. -/
structure Proper (r : Response) : Prop where
  statusTxt_line : CrlfFree r.statusTxt
  headers : r.headers.Transparent

variable {r : Response}

theorem Proper.properLine (h : r.Proper) :
    ∀ l ∈ r.statusLine :: headerLines r.headers, ProperLine l := by
  refine List.forall_mem_cons.mpr ⟨⟨?_, ?_⟩, h.headers.properLine⟩
  · exact ((crlfFree_version _).join_space (crlfFree_status _)).join_space h.statusTxt_line
  · simp [statusLine, SPACE_eq]

theorem Proper.delimited (h : r.Proper) : Delimited r.serializeHead := by
  rw [serializeHead_eq_block]
  exact delimited_block (by simp) h.properLine

theorem proper_of_deserialize {s : BString} (h : Response.deserialize s = .ok r) : r.Proper := by
  obtain ⟨-, line, lines, v, code, txt, hlines, hsegs, -, -, htxt, hheaders, -⟩ :=
    deserialize_eq_ok.mp h
  have hfree : ∀ l ∈ line :: lines, CrlfFree l := by
    rw [← hlines]
    exact fun l hl => crlfFree_of_mem_lines hl
  obtain ⟨hline, hothers⟩ := List.forall_mem_cons.mp hfree
  refine ⟨crlfFree_joinStatusTxt (fun seg hseg => ?_) htxt,
    transparent_of_deserializeHeaders hothers hheaders⟩
  exact hline.of_mem_tokenize SPACE_ne_nil (by simp [hsegs, hseg])

theorem Proper.intact_of_getHeader (h : r.Proper) {key value : Str}
    (hget : r.getHeader key = .ok value) : Intact value := by
  rw [getHeader] at hget
  split at hget
  · rename_i header hfind
    cases hget
    exact (h.headers key header hfind).2.intact
  · cases hget

theorem tokenize_statusLine (v : Version) (st : Status) (text : Str) :
    tokenize (v.toStr ++ SPACE ++ st.toStr ++ SPACE ++ text) SPACE =
      v.toStr :: st.toStr :: tokenize text SPACE := by
  have hv := free_singleton.mpr (notMem_version v)
  have hst := free_singleton.mpr (notMem_status st)
  rw [SPACE_eq, List.append_assoc, List.append_assoc, tokenize_cut (by simp) hv,
    ← List.append_assoc, tokenize_cut (by simp) hst]

/-- What the parser makes of the head of a response: without headers the status text keeps the
CR of its line, an empty status text is refused, and a space at its end is lost. -/
theorem Proper.deserialize_head (h : r.Proper) (hsmall : r.serializeHead.length < 2 ^ 31)
    (body : BString) : deserialize (r.serializeHead ++ body) =
      if r.headers.entries = [] then .ok { r with body, statusTxt := r.statusTxt ++ [13] }
      else if r.statusTxt = [] then .error (.thrown .parseException)
      else if r.statusTxt.getLast? = some 32 then
        .ok { r with body, statusTxt := r.statusTxt.dropLast }
      else .ok { r with body } := by
  rw [serializeHead_eq_block] at hsmall ⊢
  obtain ⟨hcut, hlines⟩ := parse_block (by simp) h.properLine hsmall body
  have hheaders := deserializeHeaders_headerLines h.headers.keyed
  rw [h.headers.carried_eq] at hheaders
  have hversion := toVersion_toStr r.version
  have hstatus := toStatus_toStr r.status
  rw [closeLast_cons] at hlines
  by_cases hnil : r.headers.entries = []
  · have hsegs := tokenize_statusLine r.version r.status (r.statusTxt ++ [13])
    have htxt := joinStatusTxt_tokenize (r.statusTxt ++ [13])
    rw [if_pos hnil] at hlines ⊢
    rw [← List.append_assoc, ← statusLine] at hsegs
    rw [if_neg (by simp), if_neg (by simp)] at htxt
    simp [deserialize, hcut, hlines, hsegs, hheaders, hversion, hstatus, htxt, bind, Except.bind,
      pure, Except.pure]
  · have hsegs := tokenize_statusLine r.version r.status r.statusTxt
    have htxt := joinStatusTxt_tokenize r.statusTxt
    rw [if_neg hnil] at hlines ⊢
    rw [← statusLine] at hsegs
    by_cases hempty : r.statusTxt = []
    · rw [if_pos hempty] at htxt ⊢
      simp [deserialize, hcut, hlines, hsegs, htxt, bind, Except.bind]
    · rw [if_neg hempty] at htxt ⊢
      by_cases hlast : r.statusTxt.getLast? = some 32
      · rw [if_pos hlast] at htxt ⊢
        simp [deserialize, hcut, hlines, hsegs, hheaders, hversion, hstatus, htxt, bind,
          Except.bind, pure, Except.pure]
      · rw [if_neg hlast] at htxt ⊢
        simp [deserialize, hcut, hlines, hsegs, hheaders, hversion, hstatus, htxt, bind,
          Except.bind, pure, Except.pure]

/-- A response whose head is parsed back has a head of fewer than `2 ^ 31` bytes. -/
theorem small_of_deserialize (h : deserialize r.serializeHead = .ok r) :
    r.serializeHead.length < 2 ^ 31 := by
  have hproper := proper_of_deserialize h
  obtain ⟨hfits, line, lines, v, code, txt, hlines, hsegs, hv, hcode, htxt, hheaders, -⟩ :=
    deserialize_eq_ok.mp h
  rw [serializeHead_eq_block] at hfits hlines ⊢
  refine small_of_headers hproper.properLine hfits hlines hheaders ?_
  have hle := length_flatMap_tokenize_le SPACE_ne_nil line
  have hspace : SPACE.length = 1 := rfl
  have hversion := length_toVersion_le v
  have hstatus := length_status_le r.status
  obtain ⟨-, hpos, hdrop⟩ := substrFrom_eq_ok.mp htxt
  have hjoin : (txt.flatMap (fun seg => lit " " ++ seg)).length =
      (txt.flatMap (· ++ SPACE)).length := by
    simp [List.length_flatMap, lit, SPACE]
  rw [hsegs] at hle
  simp only [List.flatMap_cons, List.length_append, hspace] at hle
  rw [hjoin] at hpos
  simp only [statusLine, hv, List.length_append, hspace, hdrop, List.length_drop, hjoin]
  omega

/-- The responses whose head is parsed back. -/
structure Transparent (r : Response) : Prop extends Proper r where
  headers_ne : r.headers.entries ≠ []
  statusTxt_ne : r.statusTxt ≠ []
  statusTxt_last : r.statusTxt.getLast? ≠ some 32
  small : r.serializeHead.length < 2 ^ 31

theorem Transparent.deserialize_head (h : r.Transparent) (body : BString) :
    deserialize (r.serializeHead ++ body) = .ok (r.setBody body) := by
  rw [h.toProper.deserialize_head h.small, if_neg h.headers_ne, if_neg h.statusTxt_ne,
    if_neg h.statusTxt_last]
  rfl

theorem Transparent.setBody (h : r.Transparent) (body : BString) : (r.setBody body).Transparent :=
  ⟨⟨h.statusTxt_line, h.headers⟩, h.headers_ne, h.statusTxt_ne, h.statusTxt_last, h.small⟩

theorem length_serializeHead_addHeader_le (r : Response) (key value : Str) :
    (r.addHeader key value).serializeHead.length ≤
      r.serializeHead.length + (key.length + value.length + 4) := by
  have hinsert := OrdMap.length_flatMap_insert_le (fun p => p.2.serialize ++ CRLF) r.headers key
    ⟨key, value⟩
  have hcrlf : CRLF.length = 2 := rfl
  have hsep : (lit ":" ++ SPACE).length = 2 := by decide
  simp only [Header.serialize, List.length_append, hcrlf] at hinsert hsep
  simp only [serializeHead_eq_block, block, headerLines, List.flatMap_cons, List.flatMap_map,
    addHeader, statusLine, Header.serialize, List.length_append] at *
  omega

/-- One more header. -/
theorem Transparent.addHeader (h : r.Transparent) {key value : Str}
    (hkey : CrlfFree key ∧ 58 ∉ key) (hvalue : Intact value)
    (hsize : r.serializeHead.length + (key.length + value.length + 4) < 2 ^ 31) :
    (r.addHeader key value).Transparent := by
  have hfind : (r.addHeader key value).headers.find? key = some ⟨key, value⟩ :=
    OrdMap.find?_insert_self _ _ _
  have hle := length_serializeHead_addHeader_le r key value
  refine ⟨⟨h.statusTxt_line, h.headers.insert (hvalue.transparent hkey.1 hkey.2)⟩, ?_,
    h.statusTxt_ne, h.statusTxt_last, by omega⟩
  exact List.ne_nil_of_mem (OrdMap.mem_entries.mpr hfind)

/-- Parsing the head of a response gives the response back, apart from its body, exactly for
the transparent responses. -/
theorem transparent_iff : r.Transparent ↔
    ∃ parsed, deserialize r.serializeHead = .ok parsed ∧ parsed.setBody r.body = r := by
  constructor
  · intro h
    have hparse := h.deserialize_head []
    rw [List.append_nil] at hparse
    exact ⟨_, hparse, rfl⟩
  · rintro ⟨parsed, hparse, hbody⟩
    have hhead : r.serializeHead = parsed.serializeHead := by rw [← hbody]; rfl
    have hproper : r.Proper := by
      obtain ⟨h1, h2⟩ := proper_of_deserialize hparse
      rw [← hbody]
      exact ⟨h1, h2⟩
    have hsmall : r.serializeHead.length < 2 ^ 31 := by
      rw [hhead] at hparse ⊢
      exact small_of_deserialize hparse
    have heq := hproper.deserialize_head hsmall []
    rw [List.append_nil, hparse] at heq
    have htxt : parsed.statusTxt = r.statusTxt := by rw [← hbody]; rfl
    split_ifs at heq with hnil hempty hlast
    · rw [Except.ok.injEq] at heq
      simp [heq] at htxt
    · rw [Except.ok.injEq] at heq
      have hlen := congrArg List.length htxt
      have hpos := List.length_pos_of_ne_nil hempty
      rw [heq, List.length_dropLast] at hlen
      omega
    · exact ⟨hproper, hnil, hempty, hlast, hsmall⟩

end Response

end P2PFileSharing.Http
