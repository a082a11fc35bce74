import P2PFileSharing.Cpp.Str

/-!
# Trimming and tokenizing

The two string helpers that every parser of the program is built from. `tokenize` is a single
left-to-right scan, so its specification follows the cuts of the input at the separator.
-/

namespace P2PFileSharing.Util

open Library Split

/-- The characters of `" \n\r\t\f\v"`. -/
def isBlank (c : UInt8) : Bool := c ∈ [32, 10, 13, 9, 12, 11]

def ltrim (s : Str) : Str := s.dropWhile isBlank

def rtrim (s : Str) : Str := (s.reverse.dropWhile isBlank).reverse

def trim (s : Str) : Str := rtrim (ltrim s)

/-- The loop of `tokenize`. After a match the index jumps over the separator: `skip` counts the
characters that are still to be jumped over. No caller passes an empty separator, on which the
loop would not advance. -/
def tokenizeLoop (delim : Str) : Str → Nat → Str → List Str
  | [], _, temp => if temp.length > 0 then [temp] else []
  | _ :: rest, skip + 1, temp => tokenizeLoop delim rest skip temp
  | c :: rest, 0, temp =>
    if (c :: rest).take delim.length = delim then
      temp :: tokenizeLoop delim rest (delim.length - 1) []
    else tokenizeLoop delim rest 0 (temp ++ [c])

/-- What `tokenize` returns for a string of fewer than `2 ^ 31` bytes: its index is an `int`, which
cannot count a longer one. -/
def tokenize (str delim : Str) : List Str := tokenizeLoop delim str 0 []

example : tokenize (lit "this is test") SPACE = [lit "this", lit "is", lit "test"] := by decide

/-! ## trim -/

theorem length_ltrim_le (s : Str) : (ltrim s).length ≤ s.length :=
  (List.dropWhile_sublist _).length_le

theorem length_rtrim_le (s : Str) : (rtrim s).length ≤ s.length := by
  simpa [rtrim] using (List.dropWhile_sublist (l := s.reverse) isBlank).length_le

theorem length_trim_le (s : Str) : (trim s).length ≤ s.length :=
  (length_rtrim_le _).trans (length_ltrim_le s)

theorem trim_isPart (s : Str) : trim s <:+: s := by
  have hl : ltrim s <:+: s := (List.dropWhile_suffix _).isInfix
  have hr : rtrim (ltrim s) <:+: ltrim s := by
    have hsuf : (ltrim s).reverse.dropWhile isBlank <:+ (ltrim s).reverse :=
      List.dropWhile_suffix _
    rw [← List.reverse_prefix, List.reverse_reverse] at hsuf
    exact hsuf.isInfix
  exact hr.trans hl

theorem ltrim_eq_self {s : Str} : ltrim s = s ↔ ∀ c ∈ s.head?, isBlank c = false := by
  cases s with
  | nil => simp [ltrim]
  | cons c s =>
    by_cases hc : isBlank c = true
    · have hlen : (s.dropWhile isBlank).length ≤ s.length := length_ltrim_le s
      constructor
      · intro h
        have := congrArg List.length h
        simp [ltrim, hc] at this
        omega
      · intro h
        simp [hc] at h
    · simp [ltrim, hc]

theorem rtrim_eq_self {s : Str} : rtrim s = s ↔ ∀ c ∈ s.getLast?, isBlank c = false := by
  have h := ltrim_eq_self (s := s.reverse)
  simp only [List.head?_reverse] at h
  rw [← h, rtrim, ltrim, ← List.reverse_inj, List.reverse_reverse]

/-- A string is its own trim exactly when no blank stands at either end. -/
theorem trim_eq_self {s : Str} : trim s = s ↔
    (∀ c ∈ s.head?, isBlank c = false) ∧ ∀ c ∈ s.getLast?, isBlank c = false := by
  constructor
  · intro h
    have hlen : s.length ≤ (ltrim s).length := by
      have := length_rtrim_le (ltrim s)
      rwa [← trim, h] at this
    have hl : ltrim s = s := (List.dropWhile_sublist _).eq_of_length_le hlen
    rw [trim, hl] at h
    exact ⟨ltrim_eq_self.mp hl, rtrim_eq_self.mp h⟩
  · rintro ⟨hhead, hlast⟩
    rw [trim, ltrim_eq_self.mpr hhead, rtrim_eq_self.mpr hlast]

theorem trim_cons_blank {c : UInt8} (hc : isBlank c = true) (s : Str) :
    trim (c :: s) = trim s := by
  rw [trim, trim, ltrim, ltrim, List.dropWhile_cons_of_pos hc]

theorem trim_append_blank (s : Str) {c : UInt8} (hc : isBlank c = true) :
    trim (s ++ [c]) = trim s := by
  rw [trim, trim, ltrim, ltrim, List.dropWhile_append]
  split
  · rename_i hempty
    rw [List.isEmpty_iff] at hempty
    simp [hc, hempty]
  · simp [rtrim, hc]

/-- What is left after dropping blanks does not start with one. -/
theorem isBlank_head_ltrim (s : Str) : ∀ c ∈ (ltrim s).head?, isBlank c = false := by
  intro c hc
  have h := List.head?_dropWhile_not isBlank s
  rw [Option.mem_def] at hc
  rwa [← ltrim, hc] at h

theorem rtrim_isPrefix (s : Str) : rtrim s <+: s := by
  rw [rtrim, ← List.reverse_suffix, List.reverse_reverse]
  exact List.dropWhile_suffix _

theorem trim_trim (s : Str) : trim (trim s) = trim s := by
  refine trim_eq_self.mpr ⟨fun c hc => ?_, fun c hc => ?_⟩
  · obtain ⟨t, ht⟩ := rtrim_isPrefix (ltrim s)
    refine isBlank_head_ltrim s c ?_
    rw [← ht, ← trim, List.head?_append, Option.mem_def.mp hc]
    rfl
  · rw [trim, rtrim, List.getLast?_reverse] at hc
    exact isBlank_head_ltrim (ltrim s).reverse c hc

/-! ## tokenize -/

theorem tokenizeLoop_skip (delim u y temp : Str) :
    tokenizeLoop delim (u ++ y) u.length temp = tokenizeLoop delim y 0 temp := by
  induction u with
  | nil => rfl
  | cons c u ih => simpa [tokenizeLoop] using ih

theorem take_eq_delim {delim s : Str} : s.take delim.length = delim ↔ delim <+: s := by
  rw [List.prefix_iff_eq_take, eq_comm]

theorem tokenizeLoop_free {delim x : Str} (hd : delim ≠ []) (hx : Free delim x) (y temp : Str) :
    tokenizeLoop delim (x ++ delim ++ y) 0 temp = (temp ++ x) :: tokenizeLoop delim y 0 [] := by
  induction x generalizing temp with
  | nil =>
    cases delim with
    | nil => exact absurd rfl hd
    | cons e d =>
      have hmatch : (e :: (d ++ y)).take (e :: d).length = e :: d := by simp
      simpa [tokenizeLoop, hmatch] using tokenizeLoop_skip (e :: d) d y []
  | cons c x ih =>
    have hnot : ¬ (c :: (x ++ delim ++ y)).take delim.length = delim := by
      rw [take_eq_delim]
      exact hx.not_prefix
    simp only [List.cons_append, tokenizeLoop, if_neg hnot]
    rw [ih hx.2, List.append_assoc, List.singleton_append]

/-- The first cut of the input gives the first token. -/
theorem tokenize_cut {delim x : Str} (hd : delim ≠ []) (hx : Free delim x) (y : Str) :
    tokenize (x ++ delim ++ y) delim = x :: tokenize y delim :=
  tokenizeLoop_free hd hx y []

theorem tokenizeLoop_last {delim s : Str} (h : ¬ delim <:+: s) (temp : Str) :
    tokenizeLoop delim s 0 temp = if (temp ++ s).length > 0 then [temp ++ s] else [] := by
  induction s generalizing temp with
  | nil => simp [tokenizeLoop]
  | cons c s ih =>
    rw [List.infix_cons_iff, not_or] at h
    have hnot : ¬ (c :: s).take delim.length = delim := by
      rw [take_eq_delim]
      exact h.1
    simp only [tokenizeLoop, if_neg hnot, ih h.2, List.append_assoc, List.singleton_append]

/-- What follows the last separator is a token unless it is empty. -/
theorem tokenize_last {delim s : Str} (h : ¬ delim <:+: s) :
    tokenize s delim = if s.length > 0 then [s] else [] :=
  tokenizeLoop_last h []

/-- No token contains the separator. -/
theorem not_infix_of_mem_tokenize {delim : Str} (hd : delim ≠ []) (s : Str) :
    ∀ t ∈ tokenize s delim, ¬ delim <:+: t := by
  induction s using cut_induction hd with
  | last s h =>
    rw [tokenize_last h]
    split_ifs
    · simpa using h
    · simp
  | cut x y hx ih =>
    rw [tokenize_cut hd hx, List.forall_mem_cons]
    exact ⟨hx.not_infix hd, ih⟩

theorem notMem_of_mem_tokenize {c : UInt8} {s t : Str} (ht : t ∈ tokenize s [c]) : c ∉ t := by
  intro hmem
  obtain ⟨u, v, rfl⟩ := List.append_of_mem hmem
  exact not_infix_of_mem_tokenize (by simp) s _ ht ⟨u, v, by simp⟩

/-- Every token is a part of the input. -/
theorem infix_of_mem_tokenize {delim : Str} (hd : delim ≠ []) (s : Str) :
    ∀ t ∈ tokenize s delim, t <:+: s := by
  induction s using cut_induction hd with
  | last s h =>
    rw [tokenize_last h]
    split_ifs <;> simp
  | cut x y hx ih =>
    rw [tokenize_cut hd hx, List.forall_mem_cons]
    refine ⟨⟨[], delim ++ y, by simp⟩, fun t ht => (ih t ht).trans ?_⟩
    exact (List.suffix_append _ y).isInfix

/-- The tokens and a separator for each of them are not longer than the input and a separator. -/
theorem length_flatMap_tokenize_le {delim : Str} (hd : delim ≠ []) (s : Str) :
    ((tokenize s delim).flatMap (· ++ delim)).length ≤ s.length + delim.length := by
  induction s using cut_induction hd with
  | last s h =>
    rw [tokenize_last h]
    split_ifs <;> simp
  | cut x y hx ih =>
    rw [tokenize_cut hd hx, List.flatMap_cons]
    simp only [List.length_append] at ih ⊢
    omega

/-- Putting the separator in front of every token gives the input back, without a separator that
ends it. -/
theorem flatMap_tokenize_singleton (c : UInt8) (s : Str) :
    (tokenize s [c]).flatMap ([c] ++ ·) =
      if s = [] then [] else if s.getLast? = some c then c :: s.dropLast else c :: s := by
  have hd : [c] ≠ [] := by simp
  induction s using cut_induction hd with
  | last s h =>
    rw [tokenize_last h]
    rcases s with _ | ⟨a, s⟩
    · rfl
    · have hlast : (a :: s).getLast? ≠ some c := by
        intro hc
        obtain ⟨t, ht⟩ := List.getLast?_eq_some_iff.mp hc
        exact h ⟨t, [], by simp [ht]⟩
      simp [hlast]
  | cut x y hx ih =>
    rw [tokenize_cut hd hx, List.flatMap_cons, ih]
    rcases List.eq_nil_or_concat y with rfl | ⟨t, b, rfl⟩
    · simp
    · rw [List.concat_eq_append, ← List.append_assoc (x ++ [c])]
      simp only [List.getLast?_concat, List.dropLast_concat]
      by_cases hb : b = c
      · simp [hb]
      · simp [hb]

end P2PFileSharing.Util
