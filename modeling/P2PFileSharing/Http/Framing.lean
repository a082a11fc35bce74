import Mathlib.Data.List.Chain
import P2PFileSharing.Http.Message

/-!
# Framing of message heads

A message head is a block of lines, each ended by CRLF, and one empty line. When no line is
empty or contains CRLF itself, the first CRLFCRLF of the block is its end.
-/

namespace P2PFileSharing.Http

open Library Split Util

/-- The end of a message head. -/
def terminator : BString := CRLF ++ CRLF

theorem CRLF_eq : CRLF = [13, 10] := by decide

theorem CRLF_ne_nil : CRLF ≠ [] := by decide

theorem SPACE_ne_nil : SPACE ≠ [] := by decide

theorem terminator_eq : terminator = [13, 10, 13, 10] := by decide

theorem terminator_eq_append : terminator = CRLF ++ CRLF := rfl

theorem terminator_ne_nil : terminator ≠ [] := by decide

/-- No CR in `s` is followed by LF. -/
def CrlfFree (s : Str) : Prop := s.IsChain (fun a b => ¬ (a = 13 ∧ b = 10))

instance : DecidablePred CrlfFree := fun s =>
  inferInstanceAs (Decidable (s.IsChain _))

theorem crlfFree_iff {s : Str} : CrlfFree s ↔ ¬ CRLF <:+: s := by
  rw [CRLF_eq]
  induction s with
  | nil => simp [CrlfFree]
  | cons a s ih =>
    rw [List.infix_cons_iff, not_or, ← ih]
    cases s with
    | nil => simp [CrlfFree]
    | cons b s => simp [CrlfFree, List.isChain_cons_cons, eq_comm]

theorem CrlfFree.of_part {s t : Str} (h : CrlfFree t) (hst : s <:+: t) : CrlfFree s := by
  rw [crlfFree_iff] at h ⊢
  exact fun hs => h (hs.trans hst)

theorem crlfFree_append {s t : Str} : CrlfFree (s ++ t) ↔
    CrlfFree s ∧ CrlfFree t ∧ ¬ (s.getLast? = some 13 ∧ t.head? = some 10) := by
  rw [CrlfFree, CrlfFree, CrlfFree, List.isChain_append]
  refine and_congr_right fun _ => and_congr_right fun _ => ?_
  constructor
  · rintro h ⟨hs, ht⟩
    exact h 13 hs 10 ht ⟨rfl, rfl⟩
  · rintro h a ha b hb ⟨rfl, rfl⟩
    exact h ⟨ha, hb⟩

/-- Joining two parts with a byte that is neither CR nor LF. -/
theorem CrlfFree.join {s t : Str} (hs : CrlfFree s) (ht : CrlfFree t) {c : UInt8} (hr : c ≠ 13)
    (hn : c ≠ 10) : CrlfFree (s ++ c :: t) := by
  have hct : CrlfFree ([c] ++ t) := crlfFree_append.mpr ⟨.singleton c, ht, by simp [hr]⟩
  exact crlfFree_append.mpr ⟨hs, hct, by simp [hn]⟩

/-! ## Blocks of lines -/

/-- Lines, each followed by CRLF, and an empty line. -/
def block (lines : List Str) : BString := lines.flatMap (· ++ CRLF) ++ CRLF

theorem block_cons (l : Str) (lines : List Str) :
    block (l :: lines) = l ++ CRLF ++ block lines := by
  simp [block]

/-- A line that a head can carry. -/
def ProperLine (l : Str) : Prop := CrlfFree l ∧ l ≠ []

/-- CRLF does not start where a proper line does. -/
theorem ProperLine.not_prefix {l : Str} (h : ProperLine l) (y : BString) :
    ¬ CRLF <+: l ++ CRLF ++ y := by
  obtain ⟨hfree, hne⟩ := h
  rw [CRLF_eq]
  rcases l with _ | ⟨a, _ | ⟨b, l⟩⟩
  · exact absurd rfl hne
  · simp
  · have hab : ¬ (a = 13 ∧ b = 10) := (List.isChain_cons_cons.mp hfree).1
    simpa [eq_comm] using hab

/-- CRLFCRLF does not start inside a line. -/
theorem CrlfFree.not_prefix {a : UInt8} {l : Str} (h : CrlfFree (a :: l)) (y : BString) :
    ¬ terminator <+: a :: l ++ CRLF ++ y := by
  rw [CRLF_eq, terminator_eq]
  cases l with
  | nil => simp
  | cons b l =>
    have hab : ¬ (a = 13 ∧ b = 10) := (List.isChain_cons_cons.mp h).1
    intro hpre
    rw [List.append_assoc, List.cons_append, List.cons_append, List.cons_prefix_cons,
      List.cons_prefix_cons] at hpre
    exact hab ⟨hpre.1.symm, hpre.2.1.symm⟩

theorem CrlfFree.free {l : Str} (h : CrlfFree l) : Free terminator l := by
  induction l with
  | nil => trivial
  | cons a l ih => exact ⟨by simpa [terminator_eq_append] using h.not_prefix CRLF, ih h.tail⟩

theorem CrlfFree.free_crlf {l : Str} (h : CrlfFree l) : Free CRLF l := by
  induction l with
  | nil => trivial
  | cons a l ih =>
    refine ⟨?_, ih h.tail⟩
    rw [CRLF_eq]
    cases l with
    | nil => simp
    | cons b l =>
      have hab : ¬ (a = 13 ∧ b = 10) := (List.isChain_cons_cons.mp h).1
      simpa [eq_comm] using hab

/-- In front of text that does not start with CRLF, a line moves the first CRLFCRLF back. -/
theorem free_line_append {l x : Str} (hl : CrlfFree l) (hx : Free terminator x)
    (hstart : ¬ CRLF <+: x ++ terminator) : Free terminator (l ++ CRLF ++ x) := by
  induction l with
  | nil =>
    rw [CRLF_eq] at hstart ⊢
    rw [terminator_eq] at hx hstart ⊢
    exact ⟨by simpa using hstart, by simp, hx⟩
  | cons a l ih => exact ⟨by simpa using hl.not_prefix (x ++ terminator), ih hl.tail⟩

/-- The first CRLFCRLF of a head is its end. -/
def Delimited (head : BString) : Prop := ∃ x, head = x ++ terminator ∧ Free terminator x

theorem delimited_block {lines : List Str} (hne : lines ≠ []) (h : ∀ l ∈ lines, ProperLine l) :
    Delimited (block lines) := by
  induction lines with
  | nil => exact absurd rfl hne
  | cons l lines ih =>
    obtain ⟨hl, hlines⟩ := List.forall_mem_cons.mp h
    cases lines with
    | nil => exact ⟨l, by simp [block, terminator_eq_append], hl.1.free⟩
    | cons l' lines =>
      obtain ⟨x, hx, hfree⟩ := ih (by simp) hlines
      refine ⟨l ++ CRLF ++ x, by rw [block_cons, hx, List.append_assoc _ x], ?_⟩
      have hl' : ProperLine l' := hlines l' (by simp)
      refine free_line_append hl.1 hfree ?_
      rw [← hx, block_cons]
      exact hl'.not_prefix _

/-- A prefix of the stream that ends with the terminator and is no longer than the head is the
head. -/
theorem Delimited.eq_of_prefix {head x y : BString} (h : Delimited head)
    (hpre : x ++ terminator <+: head ++ y) (hlen : (x ++ terminator).length ≤ head.length) :
    x ++ terminator = head := by
  obtain ⟨z, rfl, hz⟩ := h
  rw [hz.eq_of_prefix hpre (by simpa using hlen)]

/-! ## The lines of messages -/

/-- The lines of a header map. -/
def headerLines (headers : HeaderMap) : List Str := headers.entries.map (fun p => p.2.serialize)

def Request.requestLine (r : Request) : Str :=
  r.method.toStr ++ SPACE ++ r.resource ++ SPACE ++ r.version.toStr

def Response.statusLine (r : Response) : Str :=
  r.version.toStr ++ SPACE ++ r.status.toStr ++ SPACE ++ r.statusTxt

theorem Request.serializeHead_eq_block (r : Request) :
    r.serializeHead = block (r.requestLine :: headerLines r.headers) := by
  simp [serializeHead, parts, requestLine, headerLines, block, List.flatMap_def,
    Function.comp_def]

theorem Response.serializeHead_eq_block (r : Response) :
    r.serializeHead = block (r.statusLine :: headerLines r.headers) := by
  simp [serializeHead, parts, statusLine, headerLines, block, List.flatMap_def,
    List.flatten_flatten, Function.comp_def]

theorem properLine_header {h : Header} (hk : CrlfFree h.key) (hv : CrlfFree h.value) :
    ProperLine h.serialize := by
  have hsep : lit ":" ++ SPACE = [58, 32] := by decide
  have hval : CrlfFree ([] ++ 32 :: h.value) := CrlfFree.join .nil hv (by decide) (by decide)
  have hline : CrlfFree (h.key ++ 58 :: ([] ++ 32 :: h.value)) :=
    hk.join hval (by decide) (by decide)
  rw [Header.serialize, hsep]
  exact ⟨by simpa using hline, by simp⟩

theorem CrlfFree.of_mem_tokenize {s delim t : Str} (h : CrlfFree s) (hd : delim ≠ [])
    (ht : t ∈ tokenize s delim) : CrlfFree t :=
  h.of_part (infix_of_mem_tokenize hd s t ht)

theorem crlfFree_of_mem_lines {s l : Str} (hl : l ∈ tokenize s CRLF) : CrlfFree l :=
  crlfFree_iff.mpr (not_infix_of_mem_tokenize CRLF_ne_nil s l hl)

theorem CrlfFree.join_space {s t : Str} (hs : CrlfFree s) (ht : CrlfFree t) :
    CrlfFree (s ++ SPACE ++ t) := by
  have hspace : SPACE = [32] := by decide
  rw [hspace, List.append_assoc]
  exact hs.join ht (by decide) (by decide)

theorem crlfFree_method (m : Method) : CrlfFree m.toStr := by
  rw [crlfFree_iff]
  cases m <;> decide

theorem crlfFree_version (v : Version) : CrlfFree v.toStr := by
  rw [crlfFree_iff]
  cases v <;> decide

theorem crlfFree_status (st : Status) : CrlfFree st.toStr := by
  rw [crlfFree_iff]
  cases st <;> decide

theorem crlfFree_joinStatusTxt {segs : List Str} {txt : Str} (hsegs : ∀ seg ∈ segs, CrlfFree seg)
    (h : Response.joinStatusTxt segs = .ok txt) : CrlfFree txt := by
  have hspace : lit " " = [32] := by decide
  have hjoin : CrlfFree (segs.flatMap (fun seg => lit " " ++ seg)) := by
    clear h
    induction segs with
    | nil => exact .nil
    | cons seg segs ih =>
      obtain ⟨hseg, hothers⟩ := List.forall_mem_cons.mp hsegs
      have hempty : CrlfFree [] := .nil
      have hfirst : CrlfFree (lit " " ++ seg) := hempty.join_space hseg
      refine crlfFree_append.mpr ⟨hfirst, ih hothers, ?_⟩
      cases segs with
      | nil => simp
      | cons seg' segs => simp [hspace]
  obtain ⟨-, -, rfl⟩ := substrFrom_eq_ok.mp h
  exact hjoin.of_part (List.drop_suffix _ _).isInfix

end P2PFileSharing.Http
