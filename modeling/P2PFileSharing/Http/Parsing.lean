import P2PFileSharing.Http.Message
import P2PFileSharing.Tokenize

/-!
# What the parsers make of malformed messages

Both parsers turn every standard exception into a `parse_exception`, but an exception comes only
from the checked accesses. `lines[0]`, the segments of a request line and the two halves of a
header line are read unchecked, and the sums with the position of CRLFCRLF and the index of `b2s`
are `int`s that may overflow.
-/

namespace P2PFileSharing.Http

open Library Split Util

/-- A parser has returned, or it has thrown a `parse_exception`. -/
def ParsedOrRefused {α : Type} (x : Except Fault α) : Prop :=
  (∃ a, x = .ok a) ∨ x = .error (.thrown .parseException)

/-- `substr(pos+4)` throws. -/
def NoBody (s : BString) : Prop :=
  findInt s (CRLF ++ CRLF) + 4 < 0 ∨ s.length < findInt s (CRLF ++ CRLF) + 4

/-- `tokenize(head, CRLF)` -/
def headLines (s : BString) : List Str := tokenize (substrTo s (findInt s (CRLF ++ CRLF) + 1)) CRLF

/-- A header line gives a key and a value: it has a colon with something behind it. -/
def Header.Splits (line : Str) : Prop := 2 ≤ (tokenize line (lit ":")).length

/-- No `int` overflows, and either the body is missed first, or the request line has three segments
and each header line has two parts. -/
def Request.Readable (s : BString) : Prop :=
  HeadFits s ∧ (NoBody s ∨ ∃ requestLine headerLines, headLines s = requestLine :: headerLines ∧
    3 ≤ (tokenize requestLine SPACE).length ∧ ∀ line ∈ headerLines, Header.Splits line)

/-- No `int` overflows, and either the body is missed first, or there is a status line, and if it
has the three segments that are asked for with a check, each header line has two parts. -/
def Response.Readable (s : BString) : Prop :=
  HeadFits s ∧ (NoBody s ∨ ∃ statusLine headerLines, headLines s = statusLine :: headerLines ∧
    (3 ≤ (tokenize statusLine SPACE).length → ∀ line ∈ headerLines, Header.Splits line))

/-- The loop of `tokenize`, with its `int` index, comes to its end and has found the tokens. -/
def Scanned (str delim : Str) : Prop :=
  Converges (fun fuel => tokenizeFrom str delim fuel 0 [] []) (.ok (tokenize str delim))

variable {s : BString} {α : Type}

theorem parsedOrRefused_ok (a : α) : ParsedOrRefused (.ok a) := .inl ⟨a, rfl⟩

theorem parsedOrRefused_refused :
    ParsedOrRefused (.error (.thrown .parseException) : Except Fault α) := .inr rfl

theorem not_parsedOrRefused_undefined :
    ¬ ParsedOrRefused (.error .undefined : Except Fault α) := by
  simp [ParsedOrRefused]

/-! ## The parts of a parser -/

theorem scanned {str delim : Str} (hd : delim ≠ []) (h : str.length < 2 ^ 31) :
    Scanned str delim :=
  tokenizeFrom_converges hd [] [] h

/-- A head that fits is small enough for every scan of it and of its lines. -/
theorem HeadFits.scanned (h : HeadFits s) :
    Scanned (substrTo s (findInt s (CRLF ++ CRLF) + 1)) CRLF ∧
      ∀ line ∈ headLines s, Scanned line SPACE ∧ Scanned line (lit ":") := by
  refine ⟨Http.scanned (by decide) h.2, fun line hline => ?_⟩
  have hpart := infix_of_mem_tokenize (show CRLF ≠ [] by decide) _ line hline
  have hlen := hpart.length_le.trans_lt h.2
  exact ⟨Http.scanned (by decide) hlen, Http.scanned (by decide) hlen⟩

theorem substrFrom_cases (s : BString) (pos : Int) :
    (pos < 0 ∨ s.length < pos) ∧ substrFrom s pos = .error (.thrown .outOfRange) ∨
      ¬ (pos < 0 ∨ s.length < pos) ∧ ∃ t, substrFrom s pos = .ok t := by
  rw [substrFrom]
  split_ifs with h
  · exact .inl ⟨h, rfl⟩
  · exact .inr ⟨h, _, rfl⟩

theorem Header.deserialize_cases (line : Str) :
    Header.Splits line ∧ (∃ h, Header.deserialize line = .ok h) ∨
      ¬ Header.Splits line ∧ Header.deserialize line = .error .undefined := by
  rw [Header.Splits, Header.deserialize]
  rcases tokenize line (lit ":") with _ | ⟨key, _ | ⟨value, rest⟩⟩
  · exact .inr ⟨by simp, rfl⟩
  · exact .inr ⟨by simp, rfl⟩
  · exact .inl ⟨by simp, _, rfl⟩

/-- The loop over the header lines ends at the first one that has no two parts. -/
theorem deserializeHeaders_cases (init : HeaderMap) (lines : List Str) :
    (∀ line ∈ lines, Header.Splits line) ∧
        (∃ headers, deserializeHeaders init lines = .ok headers) ∨
      (¬ ∀ line ∈ lines, Header.Splits line) ∧
        deserializeHeaders init lines = .error .undefined := by
  induction lines generalizing init with
  | nil => exact .inl ⟨fun _ h => absurd h List.not_mem_nil, _, rfl⟩
  | cons line lines ih =>
    rw [deserializeHeaders, List.forall_mem_cons]
    rcases Header.deserialize_cases line with ⟨hline, h, hok⟩ | ⟨hline, hundef⟩
    · rw [hok, and_iff_right hline]
      exact ih (init.insert h.key h)
    · rw [hundef]
      exact .inr ⟨fun h => hline h.1, rfl⟩

theorem Response.joinStatusTxt_cons (seg : Str) (segs : List Str) :
    ∃ txt, joinStatusTxt (seg :: segs) = .ok txt :=
  ⟨_, substrFrom_cons 32 (seg ++ segs.flatMap fun seg => lit " " ++ seg)⟩

/-! ## The parsers -/

theorem Request.deserialize_cases (s : BString) :
    Request.Readable s ∧ ParsedOrRefused (Request.deserialize s) ∨
      ¬ Request.Readable s ∧ Request.deserialize s = .error .undefined := by
  rw [Request.Readable, NoBody, headLines, Request.deserialize, cutHead_eq]
  by_cases hfits : HeadFits s
  swap
  · rw [if_neg hfits]
    exact .inr ⟨fun h => hfits h.1, rfl⟩
  rw [if_pos hfits, and_iff_right hfits]
  rcases substrFrom_cases s (findInt s (CRLF ++ CRLF) + 4) with ⟨hno, hbody⟩ | ⟨hno, body, hbody⟩
  · rw [hbody]
    exact .inl ⟨.inl hno, parsedOrRefused_refused⟩
  rw [hbody, or_iff_right hno]
  simp only [Except.map, bind, Except.bind]
  rcases tokenize (substrTo s (findInt s (CRLF ++ CRLF) + 1)) CRLF with _ | ⟨line, lines⟩
  · exact .inr ⟨by simp, rfl⟩
  rcases hsegs : tokenize line SPACE with _ | ⟨m, _ | ⟨resource, _ | ⟨v, rest⟩⟩⟩
  case cons.cons.cons =>
    rcases deserializeHeaders_cases ∅ lines with ⟨hlines, headers, hok⟩ | ⟨hlines, hundef⟩
    · simp only [pure, Except.pure, hsegs, hok]
      exact .inl ⟨⟨line, lines, rfl, by simp [hsegs], hlines⟩, parsedOrRefused_ok _⟩
    · simp only [hsegs, hundef]
      refine .inr ⟨?_, rfl⟩
      rintro ⟨_, _, ⟨⟩, -, h⟩
      exact hlines h
  all_goals
    simp only [hsegs]
    refine .inr ⟨?_, rfl⟩
    rintro ⟨_, _, ⟨⟩, h, -⟩
    simp [hsegs] at h

theorem Response.deserialize_cases (s : BString) :
    Response.Readable s ∧ ParsedOrRefused (Response.deserialize s) ∨
      ¬ Response.Readable s ∧ Response.deserialize s = .error .undefined := by
  rw [Response.Readable, NoBody, headLines, Response.deserialize, cutHead_eq]
  by_cases hfits : HeadFits s
  swap
  · rw [if_neg hfits]
    exact .inr ⟨fun h => hfits h.1, rfl⟩
  rw [if_pos hfits, and_iff_right hfits]
  rcases substrFrom_cases s (findInt s (CRLF ++ CRLF) + 4) with ⟨hno, hbody⟩ | ⟨hno, body, hbody⟩
  · rw [hbody]
    exact .inl ⟨.inl hno, parsedOrRefused_refused⟩
  rw [hbody, or_iff_right hno]
  simp only [Except.map, bind, Except.bind]
  rcases tokenize (substrTo s (findInt s (CRLF ++ CRLF) + 1)) CRLF with _ | ⟨line, lines⟩
  · exact .inr ⟨by simp, rfl⟩
  rcases hsegs : tokenize line SPACE with _ | ⟨v, _ | ⟨code, _ | ⟨seg, txt⟩⟩⟩
  case cons.cons.cons =>
    obtain ⟨statusTxt, htxt⟩ := joinStatusTxt_cons seg txt
    rcases deserializeHeaders_cases ∅ lines with ⟨hlines, headers, hok⟩ | ⟨hlines, hundef⟩
    · simp only [pure, Except.pure, hsegs, htxt, hok]
      exact .inl ⟨⟨line, lines, rfl, fun _ => hlines⟩, parsedOrRefused_ok _⟩
    · simp only [hsegs, htxt, hundef]
      refine .inr ⟨?_, rfl⟩
      rintro ⟨_, _, ⟨⟩, h⟩
      exact hlines (h (by simp [hsegs]))
  all_goals
    simp only [hsegs]
    exact .inl ⟨⟨line, lines, rfl, by simp [hsegs]⟩, parsedOrRefused_refused⟩

theorem parsedOrRefused_iff_of_cases {x : Except Fault α} {p : Prop}
    (h : p ∧ ParsedOrRefused x ∨ ¬ p ∧ x = .error .undefined) : ParsedOrRefused x ↔ p := by
  rcases h with ⟨hp, hx⟩ | ⟨hp, rfl⟩
  · exact iff_of_true hx hp
  · exact iff_of_false not_parsedOrRefused_undefined hp

/-- Each of the parsers returns a message or throws a `parse_exception` exactly for the byte strings
that are readable for it. Where the head fits, the index of `tokenize` counts it and its lines. -/
theorem parsers_in_range_iff (s : BString) :
    (ParsedOrRefused (Request.deserialize s) ↔ Request.Readable s) ∧
      (ParsedOrRefused (Response.deserialize s) ↔ Response.Readable s) ∧
      (HeadFits s → Scanned (substrTo s (findInt s (CRLF ++ CRLF) + 1)) CRLF ∧
        ∀ line ∈ headLines s, Scanned line SPACE ∧ Scanned line (lit ":")) :=
  ⟨parsedOrRefused_iff_of_cases (Request.deserialize_cases s),
    parsedOrRefused_iff_of_cases (Response.deserialize_cases s), HeadFits.scanned⟩

/-- Three bytes without CRLFCRLF: there is no line to read. -/
theorem no_line_to_read : ¬ ParsedOrRefused (Request.deserialize (lit "GET")) ∧
    ¬ ParsedOrRefused (Response.deserialize (lit "GET")) := by
  have hreq : Request.deserialize (lit "GET") = .error .undefined := by decide
  have hres : Response.deserialize (lit "GET") = .error .undefined := by decide
  rw [hreq, hres]
  exact ⟨not_parsedOrRefused_undefined, not_parsedOrRefused_undefined⟩

end P2PFileSharing.Http
