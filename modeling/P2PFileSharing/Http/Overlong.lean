import P2PFileSharing.Http.Parsing
import P2PFileSharing.Http.RoundTrip

/-!
# Requests with a head that an `int` cannot count

From `2 ^ 31` bytes on, the position of CRLFCRLF cannot be added to, or wraps around when it is
stored. What is left for the parser, if anything, is a piece of the head that ends in front of the
last header.
-/

namespace P2PFileSharing.Http

open Library Split Util

/-! ## Lines that are cut -/

/-- A cut is inside the first line, with the CR behind it, or comes later. -/
theorem tokenize_take_line {l : Str} (h : CrlfFree l) (y : Str) (n : Nat) :
    (∃ t, t <+: l ++ [13] ∧ (tokenize ((l ++ CRLF ++ y).take n) CRLF = [] ∨
      tokenize ((l ++ CRLF ++ y).take n) CRLF = [t])) ∨
      ∃ m, tokenize ((l ++ CRLF ++ y).take n) CRLF = l :: tokenize (y.take m) CRLF := by
  have hline : l ++ CRLF = l ++ [13] ++ [10] := by simp [CRLF_eq]
  have hlen : (l ++ CRLF).length = (l ++ [13]).length + 1 := by simp [hline]
  by_cases hn : n ≤ (l ++ [13]).length
  · refine .inl ⟨(l ++ [13]).take n, List.take_prefix _ _, ?_⟩
    have htake : (l ++ CRLF ++ y).take n = (l ++ [13]).take n := by
      rw [hline, List.append_assoc, List.take_append_of_le_length hn]
    have hfree : CrlfFree (l ++ [13]) := crlfFree_append.mpr ⟨h, .singleton 13, by simp⟩
    have hpart := hfree.of_part (List.take_prefix n (l ++ [13])).isInfix
    rw [htake, tokenize_last (crlfFree_iff.mp hpart)]
    split
    · exact .inr rfl
    · exact .inl rfl
  · refine .inr ⟨n - (l ++ CRLF).length, ?_⟩
    rw [List.take_append, List.take_of_length_le (by omega), tokenize_cut CRLF_ne_nil h.free_crlf]

/-- What is tokenized in front of a cut are lines, or parts of them. -/
theorem part_of_cut {lines : List Str} (h : ∀ l ∈ lines, CrlfFree l) (n : Nat) :
    ∀ t ∈ tokenize ((lines.flatMap (· ++ CRLF)).take n) CRLF, ∃ l ∈ lines, t <+: l ++ [13] := by
  induction lines generalizing n with
  | nil => simp [tokenize, tokenizeLoop]
  | cons l lines ih =>
    obtain ⟨hl, hlines⟩ := List.forall_mem_cons.mp h
    rw [List.flatMap_cons]
    intro t ht
    rcases tokenize_take_line hl (lines.flatMap (· ++ CRLF)) n with ⟨u, hu, hnil | hone⟩ | ⟨m, hcut⟩
    · rw [hnil] at ht
      exact absurd ht List.not_mem_nil
    · rw [hone, List.mem_singleton] at ht
      exact ⟨l, List.mem_cons_self, ht ▸ hu⟩
    · rw [hcut, List.mem_cons] at ht
      rcases ht with rfl | ht
      · exact ⟨t, List.mem_cons_self, List.prefix_append _ _⟩
      · obtain ⟨l', hl', hpart⟩ := ih hlines m t ht
        exact ⟨l', List.mem_cons_of_mem _ hl', hpart⟩

/-- Lines behind the first one are only there if the first one is whole. -/
theorem first_of_cut {first t : Str} {lines ts : List Str} {n : Nat}
    (h : ∀ l ∈ first :: lines, CrlfFree l)
    (htok : tokenize (((first :: lines).flatMap (· ++ CRLF)).take n) CRLF = t :: ts) :
    ts = [] ∨ t = first ∧ ∀ t ∈ ts, ∃ l ∈ lines, t <+: l ++ [13] := by
  obtain ⟨hfirst, hlines⟩ := List.forall_mem_cons.mp h
  rw [List.flatMap_cons] at htok
  rcases tokenize_take_line hfirst (lines.flatMap (· ++ CRLF)) n with
    ⟨u, -, hnil | hone⟩ | ⟨m, hcut⟩
  · rw [hnil] at htok
    cases htok
  · rw [hone] at htok
    cases htok
    exact .inl rfl
  · rw [hcut] at htok
    cases htok
    exact .inr ⟨rfl, part_of_cut hlines m⟩

/-- A header that is read from a part of a line has the key of the line. -/
theorem Header.key_of_part {h g : Header} {t : Str} (hkey : 58 ∉ h.key)
    (hpart : t <+: h.serialize ++ [13]) (hg : Header.deserialize t = .ok g) : g.key = h.key := by
  obtain ⟨key, value, rest, htok, rfl⟩ := Header.deserialize_eq_ok.mp hg
  have hsep : lit ":" ++ SPACE = [58, 32] := by decide
  have hline : h.serialize ++ [13] = h.key ++ [58] ++ (32 :: (h.value ++ [13])) := by
    simp [Header.serialize, hsep]
  rw [hline] at hpart
  rw [colon_eq] at htok
  have hcases := List.prefix_or_prefix_of_prefix hpart (List.prefix_append (h.key ++ [58]) _)
  by_cases hcolon : 58 ∈ t
  · obtain ⟨y, rfl⟩ : h.key ++ [58] <+: t := by
      rcases hcases with hshort | hlong
      · rcases List.prefix_concat_iff.mp hshort with rfl | hin
        · exact List.prefix_rfl
        · exact absurd (hin.subset hcolon) hkey
      · exact hlong
    rw [tokenize_cut (by simp) (free_singleton.mpr hkey), List.cons.injEq] at htok
    exact htok.1.symm
  · -- without a colon there is one token at most
    have hfree := free_singleton.mpr hcolon
    rw [tokenize_last (hfree.not_infix (by simp))] at htok
    split at htok
    · simp at htok
    · cases htok

/-- Headers that are read from parts of some header lines have keys of these lines. -/
theorem keys_of_parts {headers read : HeaderMap} (hkeyed : headers.Keyed)
    {es : List (Str × Header)} (hes : ∀ e ∈ es, e ∈ headers.entries) {ts : List Str}
    (hparts : ∀ t ∈ ts, ∃ l ∈ es.map fun e => e.2.serialize, t <+: l ++ [13])
    (hread : deserializeHeaders ∅ ts = .ok read) : ∀ key ∈ read, ∃ e ∈ es, e.1 = key := by
  intro key hkey
  obtain ⟨g, hfind⟩ := OrdMap.mem_iff_exists.mp hkey
  refine deserializeHeaders_forall (fun k _ => ∃ e ∈ es, e.1 = k) (by simp) ?_ hread key g hfind
  intro t ht g hg
  obtain ⟨l, hl, hpart⟩ := hparts t ht
  obtain ⟨e, he, rfl⟩ := List.mem_map.mp hl
  obtain ⟨hkey', hcolon⟩ := hkeyed e.1 e.2 (OrdMap.mem_entries.mp (hes e he))
  exact ⟨e, he, by rw [Header.key_of_part hcolon hpart hg, ← hkey']⟩

/-! ## Heads of `2 ^ 31` bytes and more -/

/-- What the parser takes for such a head, if it can count it, misses more than `2 ^ 32` bytes. -/
theorem cut_of_overlong {lines : List Str} (hne : lines ≠ []) (h : ∀ l ∈ lines, ProperLine l)
    (hlarge : 2 ^ 31 ≤ (block lines).length) (hfits : HeadFits (block lines)) :
    ∃ n, substrTo (block lines) (findInt (block lines) (CRLF ++ CRLF) + 1) =
      (block lines).take n ∧ n + 2 ^ 32 + 3 ≤ (block lines).length := by
  obtain ⟨pos, hpos, hfind⟩ := findInt_block hne h []
  rw [List.append_nil] at hfind
  obtain ⟨hsum, hlen⟩ := hfits
  rw [hfind] at hsum hlen ⊢
  rcases toInt32_natCast pos with ⟨-, hsame⟩ | ⟨-, hwrap⟩
  · omega
  · by_cases hneg : toInt32 pos + 1 < 0
    · rw [substrTo, if_pos hneg] at hlen
      omega
    · refine ⟨(toInt32 pos + 1).toNat, by rw [substrTo, if_neg hneg], ?_⟩
      omega

/-- The piece ends in front of the last line, which is shorter. -/
theorem take_block_concat {lines : List Str} {last : Str} {n : Nat}
    (hlast : last.length + 4 ≤ 2 ^ 32 + 3)
    (hn : n + 2 ^ 32 + 3 ≤ (block (lines ++ [last])).length) :
    (block (lines ++ [last])).take n = (lines.flatMap (· ++ CRLF)).take n := by
  have hcrlf : CRLF.length = 2 := rfl
  have hblock : block (lines ++ [last]) = lines.flatMap (· ++ CRLF) ++ (last ++ CRLF ++ CRLF) := by
    simp [block]
  rw [hblock] at hn ⊢
  simp only [List.length_append, hcrlf] at hn
  exact List.take_append_of_le_length (by omega)

namespace Request

variable {r received : Request}

/-- Each part can be counted while it is appended, and the parser can read what they make. -/
def Survives (r : Request) : Prop :=
  (∀ part ∈ r.parts, part.length < 2 ^ 31) ∧ Readable r.bytes

theorem throughCodec_defined_iff : r.throughCodec ≠ .error .undefined ↔ r.Survives := by
  rw [Survives, throughCodec, serialize_eq]
  by_cases hparts : ∀ part ∈ r.parts, part.length < 2 ^ 31
  · rw [if_pos hparts, and_iff_right hparts]
    change deserialize r.bytes ≠ .error .undefined ↔ _
    rcases deserialize_cases r.bytes with ⟨hread, ⟨_, hok⟩ | hrefused⟩ | ⟨hread, hundef⟩
    · simp [hread, hok]
    · simp [hread, hrefused]
    · simp [hread, hundef]
  · rw [if_neg hparts]
    exact iff_of_false (fun h => h rfl) fun h => hparts h.1

theorem part_of_header {key : Str} {header : Header} (h : r.headers.find? key = some header) :
    header.serialize ++ CRLF ∈ r.parts := by
  have hmem : (key, header) ∈ r.headers.entries := OrdMap.mem_entries.mpr h
  simp only [parts, List.mem_append, List.mem_map]
  exact .inl (.inr ⟨_, hmem, rfl⟩)

theorem bytes_eq_block (hbody : r.body = []) :
    r.bytes = block (r.requestLine :: headerLines r.headers) := by
  rw [bytes, hbody, List.append_nil, serializeHead_eq_block]

/-- No request with a head between `2 ^ 31` and `2 ^ 32` bytes survives. -/
theorem Survives.length (h : r.Survives) (hbody : r.body = [])
    (hproper : ∀ l ∈ r.requestLine :: headerLines r.headers, ProperLine l)
    (hlarge : 2 ^ 31 ≤ r.serializeHead.length) : 2 ^ 32 + 3 ≤ r.serializeHead.length := by
  obtain ⟨-, hfits, -⟩ := h
  rw [bytes_eq_block hbody] at hfits
  rw [serializeHead_eq_block] at hlarge ⊢
  obtain ⟨n, -, hn⟩ := cut_of_overlong (by simp) hproper hlarge hfits
  omega

/-- A request that is parsed from too long a head has no headers, or it misses the last one. -/
theorem received_of_overlong (hspace : 32 ∉ r.resource)
    (hproper : ∀ l ∈ r.requestLine :: headerLines r.headers, ProperLine l)
    (hkeyed : r.headers.Keyed) (hbody : r.body = []) (hlarge : 2 ^ 31 ≤ r.serializeHead.length)
    (hreceived : r.throughCodec = .ok received) {last : Str} (hlast : last ∈ r.headers)
    (hmax : ∀ key ∈ r.headers, key ≤ last) :
    received.headers = ∅ ∨ received.method = r.method ∧ received.resource = r.resource ∧
      ∀ key ∈ received.headers, key ∈ r.headers ∧ key ≠ last := by
  obtain ⟨hserialize, hparse⟩ := throughCodec_eq_ok.mp hreceived
  obtain ⟨header, hheader⟩ := OrdMap.mem_iff_exists.mp hlast
  obtain ⟨init, hentries, hinit⟩ := OrdMap.entries_of_greatest hheader hmax
  have hlines : r.requestLine :: headerLines r.headers =
      (r.requestLine :: init.map fun e => e.2.serialize) ++ [header.serialize] := by
    simp [headerLines, hentries]
  have hsize : (header.serialize ++ CRLF).length < 2 ^ 31 := by
    rw [serialize_eq] at hserialize
    split at hserialize
    · rename_i hparts
      exact hparts _ (part_of_header hheader)
    · cases hserialize
  rw [serializeHead_eq_block] at hlarge
  rw [bytes_eq_block hbody] at hparse
  obtain ⟨hfits, line, lines, m, v, rest, htok, hsegs, hm, -, hheaders, -⟩ :=
    deserialize_eq_ok.mp hparse
  obtain ⟨n, hcut, hn⟩ := cut_of_overlong (by simp) hproper hlarge hfits
  rw [hlines] at hproper hn
  rw [List.length_append] at hsize
  rw [hcut, hlines, take_block_concat (by omega) hn] at htok
  have hfree : ∀ l ∈ r.requestLine :: init.map fun e => e.2.serialize, CrlfFree l :=
    fun l hl => (hproper l (List.mem_append_left _ hl)).1
  rcases first_of_cut hfree htok with rfl | ⟨rfl, hothers⟩
  · exact .inl (Except.ok.inj hheaders).symm
  · rw [requestLine, tokenize_requestLine hspace (notMem_version r.version)] at hsegs
    simp only [List.cons.injEq] at hsegs
    obtain ⟨rfl, hresource, -⟩ := hsegs
    refine .inr ⟨by rw [hm, toMethod_toStr], hresource.symm, fun key hkey => ?_⟩
    obtain ⟨e, he, rfl⟩ := keys_of_parts hkeyed (by simp +contextual [hentries]) hothers hheaders
      key hkey
    have hmem : e ∈ r.headers.entries := by simp [hentries, he]
    exact ⟨OrdMap.mem_iff_exists.mpr ⟨_, OrdMap.mem_entries.mp hmem⟩, hinit e he⟩

end Request

end P2PFileSharing.Http
