import P2PFileSharing.Cpp.Exception
import P2PFileSharing.Library.Fuel
import P2PFileSharing.Util

/-!
# tokenize as an exact split

The tokens are the parts between the separators, and their join is the input again. The scan
keeps its position in an `int`, which is compared with a `size_t` and gets the length of the
separator added as one: it counts the bytes of a string of less than `2 ^ 31`.
-/

namespace P2PFileSharing.Util

open Library Split

/-- The loop of `tokenize` with its `int` index. As a `size_t`, a negative index is beyond the end
of every string. -/
def tokenizeFrom (str delim : Str) : Nat → Int → Str → List Str → Except Fault (List Str)
  | 0, _, _, _ => .error .outOfFuel
  | fuel + 1, i, temp, vec =>
    if 0 ≤ i ∧ i < str.length then
      if (str.drop i.toNat).take delim.length = delim then
        tokenizeFrom str delim fuel (toInt32 (i + delim.length)) [] (vec ++ [temp])
      else if i = 2 ^ 31 - 1 then .error .undefined
      else tokenizeFrom str delim fuel (i + 1) (temp ++ [str.getD i.toNat 0]) vec
    else .ok (if temp.length > 0 then vec ++ [temp] else vec)

/-- The tokens that the scan returns do not contain the separator, joining them gives the input
back, without a separator that its scan ends on, and parts that were joined come back. -/
def SplitsExactly (delim s : Str) : Prop :=
  ∃ tokens, Converges (fun fuel => tokenizeFrom s delim fuel 0 [] []) (.ok tokens) ∧
    (∀ t ∈ tokens, ¬ delim <:+: t) ∧
    (EndsOnMatch delim s → delim.intercalate tokens ++ delim = s) ∧
    (¬ EndsOnMatch delim s → delim.intercalate tokens = s) ∧
    ∀ parts : List Str, Borderless delim → (∀ t ∈ parts, ¬ delim <:+: t) →
      (∃ t, parts.getLast? = some t ∧ t ≠ []) → delim.intercalate parts = s → tokens = parts

/-- The `int` can count the bytes of the string, or the scan stops at a match that lies at its
end because the index behind it is negative. -/
def Countable (delim s : Str) : Prop :=
  s.length < 2 ^ 31 ∨
    EndsOnMatch delim s ∧ s.length < 2 ^ 31 + delim.length ∧ toInt32 s.length < 0

/-! ## Joining the tokens -/

section Join

variable {delim s : Str} (hd : delim ≠ [])
include hd

theorem tokenize_eq_nil : tokenize s delim = [] ↔ s = [] := by
  induction s using cut_induction hd with
  | last s h =>
    rw [tokenize_last h]
    split_ifs with hs
    · simpa using List.ne_nil_of_length_pos hs
    · simpa using hs
  | cut x y hx =>
    rw [tokenize_cut hd hx]
    simp [hd]

/-- Joining the tokens gives the input, or the input without the separator at its end. -/
theorem intercalate_tokenize (s : Str) :
    (EndsOnMatch delim s → delim.intercalate (tokenize s delim) ++ delim = s) ∧
      (¬ EndsOnMatch delim s → delim.intercalate (tokenize s delim) = s) := by
  induction s using cut_induction hd with
  | last s h =>
    refine ⟨fun hends => absurd hends.isInfix h, fun _ => ?_⟩
    rw [tokenize_last h]
    split_ifs with hs
    · simp
    · simpa [eq_comm] using hs
  | cut x y hx ih =>
    rw [tokenize_cut hd hx, hx.endsOnMatch_iff]
    by_cases hy : y = []
    · subst hy
      simp [tokenize, tokenizeLoop]
    · have hne : tokenize y delim ≠ [] := fun h => hy ((tokenize_eq_nil hd).mp h)
      rw [List.intercalate_cons_of_ne_nil hne]
      constructor
      · rintro (rfl | hends)
        · exact absurd rfl hy
        · rw [List.append_assoc, ih.1 hends]
      · intro hends
        rw [ih.2 fun h => hends (.inr h)]

/-- Parts that were joined with a borderless separator come back, if the last one is not empty. -/
theorem tokenize_intercalate (hborder : Borderless delim) {parts : List Str}
    (hfree : ∀ t ∈ parts, ¬ delim <:+: t) (hlast : ∃ t, parts.getLast? = some t ∧ t ≠ []) :
    tokenize (delim.intercalate parts) delim = parts := by
  induction parts with
  | nil =>
    obtain ⟨t, ht, -⟩ := hlast
    cases ht
  | cons x parts ih =>
    obtain ⟨hx, hfree⟩ := List.forall_mem_cons.mp hfree
    by_cases hnil : parts = []
    · subst hnil
      obtain ⟨t, ht, hne⟩ := hlast
      rw [List.getLast?_singleton, Option.some_inj] at ht
      subst ht
      rw [List.intercalate_singleton, tokenize_last hx, if_pos (List.length_pos_of_ne_nil hne)]
    · have hlast' : ∃ t, parts.getLast? = some t ∧ t ≠ [] := by
        obtain ⟨y, ys, rfl⟩ := List.exists_cons_of_ne_nil hnil
        simpa [List.getLast?_cons_cons] using hlast
      rw [List.intercalate_cons_of_ne_nil hnil, tokenize_cut hd (hborder.free hx),
        ih hfree hlast']

end Join

/-! ## Rounds of the scan -/

section Scan

variable {delim u rest : Str} (pre temp : Str) (vec : List Str)

/-- No separator starts in `u`, which is followed by `rest`. -/
def Unmatched (delim u rest : Str) : Prop := ∀ v, v <:+ u → v ≠ [] → ¬ delim <+: v ++ rest

theorem unmatched_of_free {x y : Str} (hx : Free delim x) : Unmatched delim x (delim ++ y) := by
  rintro v ⟨w, rfl⟩ hv
  obtain ⟨c, v, rfl⟩ := List.exists_cons_of_ne_nil hv
  rw [← List.append_assoc]
  exact hx.of_append.not_prefix

theorem unmatched_of_absent {s : Str} (h : ¬ delim <:+: s) : Unmatched delim s [] := by
  intro v hv _ hpre
  rw [List.append_nil] at hpre
  exact h (hpre.isInfix.trans hv.isInfix)

theorem tokenizeFrom_match (hd : delim ≠ []) (fuel : Nat) :
    tokenizeFrom (pre ++ (delim ++ rest)) delim (fuel + 1) pre.length temp vec =
      tokenizeFrom (pre ++ (delim ++ rest)) delim fuel
        (toInt32 ((pre ++ delim).length : Nat)) [] (vec ++ [temp]) := by
  have hpos := List.length_pos_of_ne_nil hd
  have hin : (0 : Int) ≤ pre.length ∧ (pre.length : Int) < (pre ++ (delim ++ rest)).length := by
    simp only [List.length_append]
    omega
  rw [tokenizeFrom, if_pos hin, Int.toNat_natCast, List.drop_left, if_pos (by simp),
    List.length_append, Int.natCast_add]

theorem tokenizeFrom_char {c : UInt8} (h : ¬ delim <+: c :: rest) (fuel : Nat) :
    tokenizeFrom (pre ++ c :: rest) delim (fuel + 1) pre.length temp vec =
      if pre.length = 2 ^ 31 - 1 then .error .undefined
      else tokenizeFrom (pre ++ c :: rest) delim fuel (pre ++ [c]).length (temp ++ [c]) vec := by
  have hin : (0 : Int) ≤ pre.length ∧ (pre.length : Int) < (pre ++ c :: rest).length := by
    simp only [List.length_append, List.length_cons]
    omega
  have hnot : ¬ (c :: rest).take delim.length = delim := fun hmatch => h (take_eq_delim.mp hmatch)
  rw [tokenizeFrom, if_pos hin, Int.toNat_natCast, List.drop_left, if_neg hnot]
  by_cases hmax : pre.length = 2 ^ 31 - 1
  · rw [if_pos hmax, if_pos (by omega)]
  · rw [if_neg hmax, if_neg (by omega)]
    simp

/-- The scan stops at the end of the string, and where its index is negative. -/
theorem tokenizeFrom_stop {s : Str} {i : Int} (hi : i < 0 ∨ s.length ≤ i) :
    Converges (fun fuel => tokenizeFrom s delim fuel i temp vec)
      (.ok (if temp.length > 0 then vec ++ [temp] else vec)) := by
  refine (Converges.const _).of_succ fun fuel => ?_
  rw [tokenizeFrom, if_neg (by omega)]

/-- Bytes in which no separator starts are appended to the token, as far as the index goes. -/
theorem tokenizeFrom_unmatched {r : Except Fault (List Str)} (hu : Unmatched delim u rest)
    (hlt : (pre ++ u).length < 2 ^ 31)
    (h : Converges (fun fuel => tokenizeFrom (pre ++ (u ++ rest)) delim fuel (pre ++ u).length
      (temp ++ u) vec) r) :
    Converges (fun fuel => tokenizeFrom (pre ++ (u ++ rest)) delim fuel pre.length temp vec) r := by
  induction u generalizing pre temp with
  | nil => simpa using h
  | cons c u ih =>
    have hc : ¬ delim <+: c :: (u ++ rest) := hu (c :: u) List.suffix_rfl (List.cons_ne_nil c u)
    have hu' : Unmatched delim u rest := fun v hv => hu v (hv.trans (List.suffix_cons c u))
    have hassoc : pre ++ c :: u = pre ++ [c] ++ u := by simp
    have hmore := ih (pre ++ [c]) (temp ++ [c]) hu' (hassoc ▸ hlt) (by simpa using h)
    refine Converges.of_succ hmore fun fuel => ?_
    rw [List.cons_append, tokenizeFrom_char pre temp vec hc, if_neg (by simp at hlt; omega)]
    simp

/-- If the index comes to the largest `int` in such bytes, then it overflows. -/
theorem tokenizeFrom_overflow (hu : Unmatched delim u rest) (hpre : pre.length < 2 ^ 31)
    (hge : 2 ^ 31 ≤ (pre ++ u).length) :
    Converges (fun fuel => tokenizeFrom (pre ++ (u ++ rest)) delim fuel pre.length temp vec)
      (.error .undefined) := by
  induction u generalizing pre temp with
  | nil =>
    rw [List.append_nil] at hge
    omega
  | cons c u ih =>
    have hc : ¬ delim <+: c :: (u ++ rest) := hu (c :: u) List.suffix_rfl (List.cons_ne_nil c u)
    have hu' : Unmatched delim u rest := fun v hv => hu v (hv.trans (List.suffix_cons c u))
    by_cases hmax : pre.length = 2 ^ 31 - 1
    · refine Converges.of_succ (Converges.const _) fun fuel => ?_
      rw [List.cons_append, tokenizeFrom_char pre temp vec hc, if_pos hmax]
    · have hmore := ih (pre ++ [c]) (temp ++ [c]) hu' (by simp; omega) (by simpa using hge)
      refine Converges.of_succ hmore fun fuel => ?_
      rw [List.cons_append, tokenizeFrom_char pre temp vec hc, if_neg hmax]
      simp

end Scan

/-! ## Whole scans -/

section Whole

variable {delim x y s : Str} {r : Except Fault (List Str)} (hd : delim ≠ []) (pre : Str)
  (vec : List Str)
include hd

/-- The scan up to the index behind the first separator. -/
theorem tokenizeFrom_cut (hx : Free delim x) (hlt : (pre ++ x).length < 2 ^ 31)
    (h : Converges (fun fuel => tokenizeFrom (pre ++ (x ++ delim ++ y)) delim fuel
      (toInt32 ((pre ++ x ++ delim).length : Nat)) [] (vec ++ [x])) r) :
    Converges (fun fuel => tokenizeFrom (pre ++ (x ++ delim ++ y)) delim fuel pre.length [] vec)
      r := by
  rw [List.append_assoc x] at h ⊢
  refine tokenizeFrom_unmatched pre [] vec (unmatched_of_free hx) hlt ?_
  rw [← List.append_assoc pre x] at h ⊢
  exact h.of_succ fun fuel => tokenizeFrom_match (pre ++ x) x vec hd fuel

/-- An index behind a separator that still counts the bytes. -/
theorem tokenizeFrom_cut_of_lt (hx : Free delim x) (hlt : (pre ++ x ++ delim).length < 2 ^ 31)
    (h : Converges (fun fuel => tokenizeFrom (pre ++ x ++ delim ++ y) delim fuel
      (pre ++ x ++ delim).length [] (vec ++ [x])) r) :
    Converges (fun fuel => tokenizeFrom (pre ++ (x ++ delim ++ y)) delim fuel pre.length [] vec)
      r := by
  refine tokenizeFrom_cut hd pre vec hx (by rw [List.length_append] at hlt; omega) ?_
  rw [toInt32_eq_self (by omega) (by omega)]
  simpa using h

theorem tokenize_of_free (hx : Free delim x) : tokenize (x ++ delim) delim = [x] := by
  have hcut := tokenize_cut hd hx []
  rwa [List.append_nil] at hcut

/-- An index behind a separator that is negative ends the scan. -/
theorem tokenizeFrom_cut_of_neg (hx : Free delim x) (hlt : (pre ++ x).length < 2 ^ 31)
    (hneg : toInt32 ((pre ++ x ++ delim).length : Nat) < 0) :
    Converges (fun fuel => tokenizeFrom (pre ++ (x ++ delim ++ y)) delim fuel pre.length [] vec)
      (.ok (vec ++ tokenize (x ++ delim) delim)) := by
  rw [tokenize_of_free hd hx]
  refine tokenizeFrom_cut hd pre vec hx hlt ?_
  simpa using tokenizeFrom_stop [] (vec ++ [x]) (.inl hneg)

/-- Below `2 ^ 31` the scan returns the tokens. -/
theorem tokenizeFrom_converges (hlt : (pre ++ s).length < 2 ^ 31) :
    Converges (fun fuel => tokenizeFrom (pre ++ s) delim fuel pre.length [] vec)
      (.ok (vec ++ tokenize s delim)) := by
  induction s using cut_induction hd generalizing pre vec with
  | last s h =>
    have hscan := tokenizeFrom_unmatched pre [] vec (unmatched_of_absent h) hlt
      (tokenizeFrom_stop _ vec (.inr (by simp)))
    rw [List.append_nil, List.nil_append] at hscan
    rw [tokenize_last h]
    split_ifs at hscan ⊢ with hs
    · exact hscan
    · rwa [List.append_nil]
  | cut x y hx ih =>
    have hlt' : (pre ++ x ++ delim ++ y).length < 2 ^ 31 := by simpa using hlt
    have hrest := ih _ (vec ++ [x]) hlt'
    rw [List.append_assoc vec, List.singleton_append, ← tokenize_cut hd hx] at hrest
    exact tokenizeFrom_cut_of_lt hd pre vec hx (by rw [List.length_append] at hlt'; omega) hrest

/-- So it does for a longer string that ends with a match, if the index behind it is negative. -/
theorem tokenizeFrom_endsOnMatch (h : EndsOnMatch delim s)
    (hlast : (pre ++ s).length < 2 ^ 31 + delim.length)
    (hneg : toInt32 ((pre ++ s).length : Nat) < 0) :
    Converges (fun fuel => tokenizeFrom (pre ++ s) delim fuel pre.length [] vec)
      (.ok (vec ++ tokenize s delim)) := by
  induction h generalizing pre vec with
  | @last x hx =>
    rw [← List.append_assoc] at hneg
    have hscan := tokenizeFrom_cut_of_neg (y := []) hd pre vec hx
      (by simp only [List.length_append] at hlast ⊢; omega) hneg
    rwa [List.append_nil] at hscan
  | @cut x y hx hy ih =>
    have hlen := hy.isInfix.length_le
    have hassoc : pre ++ (x ++ delim ++ y) = pre ++ x ++ delim ++ y := by simp
    rw [hassoc] at hlast hneg
    have hrest := ih _ (vec ++ [x]) hlast hneg
    rw [List.append_assoc vec, List.singleton_append, ← tokenize_cut hd hx] at hrest
    exact tokenizeFrom_cut_of_lt hd pre vec hx (by rw [List.length_append] at hlast; omega) hrest

/-- From `2 ^ 31` bytes on, the index overflows, or the scan stops behind a match that ends there.
An index that is not negative again would need a separator of more than `2 ^ 31` bytes. -/
theorem tokenizeFrom_long (hpre : pre.length < 2 ^ 31) (hge : 2 ^ 31 ≤ (pre ++ s).length)
    (hshort : delim.length ≤ 2 ^ 31 ∨ (pre ++ s).length < 2 ^ 32) :
    Converges (fun fuel => tokenizeFrom (pre ++ s) delim fuel pre.length [] vec)
        (.error .undefined) ∨
      ∃ p z, s = p ++ z ∧ EndsOnMatch delim p ∧ 2 ^ 31 ≤ (pre ++ p).length ∧
        (pre ++ p).length < 2 ^ 31 + delim.length ∧
        Converges (fun fuel => tokenizeFrom (pre ++ s) delim fuel pre.length [] vec)
          (.ok (vec ++ tokenize p delim)) := by
  induction s using cut_induction hd generalizing pre vec with
  | last s h =>
    have hover := tokenizeFrom_overflow pre [] vec (unmatched_of_absent h) hpre hge
    rw [List.append_nil] at hover
    exact .inl hover
  | cut x y hx ih =>
    have hassoc : pre ++ (x ++ delim ++ y) = pre ++ x ++ delim ++ y := by simp
    by_cases hover : 2 ^ 31 ≤ (pre ++ x).length
    · refine .inl ?_
      rw [List.append_assoc x]
      exact tokenizeFrom_overflow pre [] vec (unmatched_of_free hx) hpre hover
    · by_cases hback : (pre ++ x ++ delim).length < 2 ^ 31
      · rw [hassoc] at hge hshort
        obtain hundef | ⟨p, z, rfl, hp, hpge, hplt, hok⟩ := ih _ (vec ++ [x]) hback hge hshort
        · exact .inl (tokenizeFrom_cut_of_lt hd pre vec hx hback hundef)
        · refine .inr ⟨x ++ delim ++ p, z, by simp, .cut hx hp, by simpa using hpge,
            by simpa using hplt, ?_⟩
          rw [List.append_assoc vec, List.singleton_append, ← tokenize_cut hd hx] at hok
          exact tokenizeFrom_cut_of_lt hd pre vec hx hback hok
      · have hlen : (pre ++ x ++ delim).length < 2 ^ 32 := by
          rw [hassoc] at hshort
          simp only [List.length_append] at hshort hover ⊢
          omega
        have hneg : toInt32 ((pre ++ x ++ delim).length : Nat) < 0 := by
          have hint := toInt32_natCast (pre ++ x ++ delim).length
          omega
        have hstop := tokenizeFrom_cut_of_neg (y := y) hd pre vec hx (by omega) hneg
        refine .inr ⟨x ++ delim, y, rfl, .last hx, ?_, ?_, hstop⟩
        · rw [← List.append_assoc]
          omega
        · simp only [List.length_append] at hover ⊢
          omega

end Whole

/-! ## Exact splits -/

section Exact

variable {delim s : Str} (hd : delim ≠ [])
include hd

theorem splitsExactly_of_converges
    (h : Converges (fun fuel => tokenizeFrom s delim fuel 0 [] []) (.ok (tokenize s delim))) :
    SplitsExactly delim s := by
  obtain ⟨hends, hrest⟩ := intercalate_tokenize hd s
  refine ⟨_, h, not_infix_of_mem_tokenize hd s, hends, hrest, ?_⟩
  rintro parts hborder hfree hlast rfl
  exact tokenize_intercalate hd hborder hfree hlast

theorem Countable.splitsExactly (h : Countable delim s) : SplitsExactly delim s := by
  refine splitsExactly_of_converges hd ?_
  rcases h with hlt | ⟨hends, hlast, hneg⟩
  · exact tokenizeFrom_converges hd [] [] hlt
  · exact tokenizeFrom_endsOnMatch hd [] [] hends hlast hneg

theorem SplitsExactly.countable (hshort : delim.length ≤ 2 ^ 31 ∨ s.length < 2 ^ 32)
    (h : SplitsExactly delim s) : Countable delim s := by
  obtain ⟨tokens, hconv, -, hends, hrest, -⟩ := h
  rcases Nat.lt_or_ge s.length (2 ^ 31) with hlt | hge
  · exact .inl hlt
  obtain hundef | ⟨p, z, rfl, hp, hpge, hplt, hok⟩ :=
    tokenizeFrom_long hd [] [] (by decide) hge hshort
  · cases hconv.unique hundef
  · cases hconv.unique hok
    have hjoin := (intercalate_tokenize hd p).1 hp
    rw [List.nil_append] at hpge hplt hends hrest
    by_cases hs : EndsOnMatch delim (p ++ z)
    · rw [← hends hs, hjoin]
      refine .inr ⟨hp, hplt, ?_⟩
      have hint := toInt32_natCast p.length
      rw [List.length_append] at hshort
      omega
    · have hlen := congrArg List.length (hrest hs)
      have hjoined := congrArg List.length hjoin
      have hpos := List.length_pos_of_ne_nil hd
      rw [List.length_append] at hlen hjoined
      omega

/-- `tokenize` is an exact split of the strings whose bytes its index counts, and of no others.
(A separator of more than `2 ^ 31` bytes can send the index back to the start of a string of
`2 ^ 32`.) -/
theorem splitsExactly_iff (s : Str) : (Countable delim s → SplitsExactly delim s) ∧
    (delim.length ≤ 2 ^ 31 ∨ s.length < 2 ^ 32 → SplitsExactly delim s → Countable delim s) :=
  ⟨fun h => h.splitsExactly hd, fun hshort h => h.countable hd hshort⟩

end Exact

/-- A stray carriage return in front of a separator. -/
theorem stray_return_split : SplitsExactly CRLF (lit "a\r\r\nb\r\n") ∧
    Countable CRLF (lit "a\r\r\nb\r\n") := by
  have hd : CRLF ≠ [] := by decide
  have hsplit := (splitsExactly_iff hd (lit "a\r\r\nb\r\n")).1 (.inl (by decide))
  exact ⟨hsplit, (splitsExactly_iff hd _).2 (.inl (by decide)) hsplit⟩

/-- The index cannot count `2 ^ 31 + 1` bytes without a separator. -/
theorem long_string_overflows : ¬ SplitsExactly (lit ":") (List.replicate (2 ^ 31 + 1) 97) := by
  intro h
  obtain ⟨n, hn⟩ : ∃ n, n = 2 ^ 31 + 1 := ⟨_, rfl⟩
  rw [← hn] at h
  have hcolon : 58 ∉ List.replicate n (97 : UInt8) := fun hmem =>
    absurd (List.eq_of_mem_replicate hmem) (by decide)
  rcases h.countable (by decide) (.inl (by decide)) with hlt | ⟨hends, -, -⟩
  · rw [List.length_replicate] at hlt
    omega
  · exact hcolon (hends.isInfix.subset (by decide))

end P2PFileSharing.Util
