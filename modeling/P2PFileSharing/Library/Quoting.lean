import Mathlib.Data.List.Count
import Mathlib.Data.List.Infix
import Mathlib.Tactic.SplitIfs

/-!
# Texts with quoted literals

A quote begins a literal and ends it, and two quotes inside of a literal stand for one. A template
is a text with values between quotes in it. Pasting the values in as they are gives the text that
the template stands for exactly when no value contains a quote.
-/

namespace P2PFileSharing.Library.Quoting

variable {α : Type*}

inductive Token (α : Type*) where
  | plain (c : α)
  | literal (value : List α)
  deriving DecidableEq, Repr

/-- Where a scanner stands: outside of the literals, inside of one, or behind a quote in one, which
ends it or is the first of two. -/
inductive Mode (α : Type*) where
  | outside
  | inside (value : List α)
  | closing (value : List α)

section Scanner

variable [DecidableEq α] (q : α)

/-- The tokens of a text, if all its literals end. -/
def lexFrom : Mode α → List α → Option (List (Token α))
  | .outside, [] => some []
  | .outside, c :: s =>
    if c = q then lexFrom (.inside []) s else (lexFrom .outside s).map (.plain c :: ·)
  | .inside _, [] => none
  | .inside v, c :: s =>
    if c = q then lexFrom (.closing v) s else lexFrom (.inside (v ++ [c])) s
  | .closing v, [] => some [.literal v]
  | .closing v, c :: s =>
    if c = q then lexFrom (.inside (v ++ [q])) s
    else (lexFrom .outside s).map fun ts => .literal v :: .plain c :: ts

def lex (s : List α) : Option (List (Token α)) := lexFrom q .outside s

/-- A value as it has to be written in a literal. -/
def escape (v : List α) : List α := v.flatMap fun c => if c = q then [q, q] else [c]

variable {q} {f s v w : List α} {ts : List (Token α)} {c : α}

theorem lexFrom_plain (hf : q ∉ f) (s : List α) :
    lexFrom q .outside (f ++ s) = (lexFrom q .outside s).map (f.map .plain ++ ·) := by
  induction f with
  | nil => simp
  | cons c f ih =>
    obtain ⟨hc, hf⟩ := not_or.mp (mt List.mem_cons.mpr hf)
    rw [List.cons_append, lexFrom, if_neg (Ne.symm hc), ih hf, Option.map_map]
    rfl

theorem lex_plain (hf : q ∉ f) : lexFrom q .outside f = some (f.map .plain) := by
  have h := lexFrom_plain hf []
  rwa [List.append_nil, lexFrom, Option.map_some, List.append_nil] at h

/-- Behind a quote that is not the first of two the literal has ended. -/
theorem lexFrom_closing (hs : s.head? ≠ some q) (v : List α) :
    lexFrom q (.closing v) s = (lexFrom q .outside s).map (.literal v :: ·) := by
  cases s with
  | nil => rfl
  | cons c s =>
    have hc : c ≠ q := fun h => hs (by rw [h]; rfl)
    rw [lexFrom, if_neg hc, lexFrom, if_neg hc, Option.map_map]
    rfl

/-- A value without a quote is read as it is. -/
theorem lexFrom_inside (hv : q ∉ v) (hs : s.head? ≠ some q) (w : List α) :
    lexFrom q (.inside w) (v ++ q :: s) = (lexFrom q .outside s).map (.literal (w ++ v) :: ·) := by
  induction v generalizing w with
  | nil => rw [List.nil_append, lexFrom, if_pos rfl, lexFrom_closing hs, List.append_nil]
  | cons c v ih =>
    obtain ⟨hc, hv⟩ := not_or.mp (mt List.mem_cons.mpr hv)
    rw [List.cons_append, lexFrom, if_neg (Ne.symm hc), ih hv, List.append_assoc,
      List.singleton_append]

/-- A literal that was read had its value escaped. -/
theorem exists_of_lexFrom_inside (h : lexFrom q (.inside v) s = some (.literal w :: ts)) :
    ∃ u rest, w = v ++ u ∧ s = escape q u ++ q :: rest ∧ rest.head? ≠ some q ∧
      lexFrom q .outside rest = some ts := by
  induction hn : s.length using Nat.strong_induction_on generalizing s v with
  | _ n ih =>
    rcases s with _ | ⟨c, s⟩
    · cases h
    rw [List.length_cons] at hn
    rw [lexFrom] at h
    split_ifs at h with hc
    · subst hc
      rcases s with _ | ⟨d, s⟩
      · cases h
        exact ⟨[], [], (List.append_nil w).symm, rfl, by simp, rfl⟩
      rw [List.length_cons] at hn
      rw [lexFrom] at h
      split_ifs at h with hd
      · subst hd
        obtain ⟨u, rest, rfl, rfl, hrest, hts⟩ := ih s.length (by omega) h rfl
        exact ⟨d :: u, rest, by simp, by simp [escape], hrest, hts⟩
      · obtain ⟨ts', hts, heq⟩ := Option.map_eq_some_iff.mp h
        cases heq
        refine ⟨[], d :: s, (List.append_nil w).symm, rfl, by simpa using hd, ?_⟩
        rw [lexFrom, if_neg hd, hts]
        rfl
    · obtain ⟨u, rest, rfl, rfl, hrest, hts⟩ := ih s.length (by omega) h rfl
      exact ⟨c :: u, rest, by simp, by simp [escape, hc], hrest, hts⟩

theorem length_escape (v : List α) : (escape q v).length = v.length + v.count q := by
  induction v with
  | nil => rfl
  | cons c v ih =>
    rw [escape, List.flatMap_cons, List.length_append, ← escape, ih, List.count_cons]
    by_cases hc : c = q
    · simp [hc]
      omega
    · simp [hc]
      omega

theorem count_escape (v : List α) : (escape q v).count q = 2 * v.count q := by
  induction v with
  | nil => rfl
  | cons c v ih =>
    rw [escape, List.flatMap_cons, List.count_append, ← escape, ih, List.count_cons]
    by_cases hc : c = q
    · simp [hc]
      omega
    · simp [hc]

theorem escape_of_notMem (hv : q ∉ v) : escape q v = v := by
  rw [escape]
  conv_rhs => rw [← List.flatMap_singleton' v]
  refine List.flatMap_congr fun c hc => ?_
  rw [if_neg (ne_of_mem_of_not_mem hc hv)]

/-- Where the raw text of a literal is also its escaped value, the value has no quote: what follows
the value in the text would have to be quotes only. -/
theorem notMem_of_escape_prefix (hpre : escape q v ++ [q] <+: v ++ q :: s)
    (hs : s.head? ≠ some q) : q ∉ v := by
  have hv : v <+: escape q v ++ [q] := by
    refine List.prefix_of_prefix_length_le (List.prefix_append v (q :: s)) hpre ?_
    rw [List.length_append, length_escape]
    omega
  obtain ⟨z, hz⟩ := hv
  rw [← hz, List.prefix_append_right_inj] at hpre
  have hlen := congrArg List.length hz
  have hcount := congrArg (List.count q) hz
  simp only [List.length_append, length_escape, List.length_singleton] at hlen
  simp only [List.count_append, count_escape, List.count_singleton_self] at hcount
  have hall : ∀ b ∈ z, q = b := List.count_eq_length.mp (by omega)
  rcases z with _ | ⟨a, _ | ⟨b, z⟩⟩
  · simp at hlen
    omega
  · exact List.count_eq_zero.mp (by simp at hlen; omega)
  · have hb : q = b := hall b (by simp)
    obtain ⟨-, x, hx⟩ := List.cons_prefix_cons.mp hpre
    exact absurd (by rw [← hx, List.cons_append, List.head?_cons, hb]) hs

end Scanner

/-! ## Templates -/

/-- A text with values pasted in. Every part is plain text and a value behind it. -/
structure Template (q : α) where
  parts : List (List α × List α)
  last : List α
  plain : q ∉ last ∧ ∀ p ∈ parts, q ∉ p.1
  spaced : last ≠ [] ∧ ∀ p ∈ parts, p.1 ≠ []

namespace Template

variable {q : α}

/-- Values pasted in between texts, each of them behind its text. -/
def pasting (texts values : List (List α)) (last : List α)
    (h : ∀ f ∈ last :: texts, f ≠ [] ∧ q ∉ f) : Template q where
  parts := texts.zip values
  last
  plain := ⟨(h last List.mem_cons_self).2, fun _ hp =>
    (h _ (List.mem_cons_of_mem last (List.of_mem_zip hp).1)).2⟩
  spaced := ⟨(h last List.mem_cons_self).1, fun _ hp =>
    (h _ (List.mem_cons_of_mem last (List.of_mem_zip hp).1)).1⟩

/-- The values between quotes, as they are. -/
def render (t : Template q) : List α :=
  t.parts.flatMap (fun p => p.1 ++ q :: p.2 ++ [q]) ++ t.last

/-- What the text stands for: a literal for every value. -/
def tokens (t : Template q) : List (Token α) :=
  t.parts.flatMap (fun p => p.1.map .plain ++ [.literal p.2]) ++ t.last.map .plain

/-- An element that is in none of the plain texts. -/
theorem mem_render_iff {t : Template q} {c : α} (hq : c ≠ q) (hlast : c ∉ t.last)
    (hparts : ∀ f ∈ t.parts.map Prod.fst, c ∉ f) :
    c ∈ t.render ↔ ∃ v ∈ t.parts.map Prod.snd, c ∈ v := by
  rw [List.forall_mem_map] at hparts
  simp only [render, List.mem_append, hlast, or_false, List.mem_flatMap, List.mem_cons, hq,
    List.not_mem_nil, false_or, List.mem_map]
  constructor
  · rintro ⟨p, hp, hc | hc⟩
    · exact absurd hc (hparts p hp)
    · exact ⟨p.2, ⟨p, hp, rfl⟩, hc⟩
  · rintro ⟨-, ⟨p, hp, rfl⟩, hc⟩
    exact ⟨p, hp, .inr hc⟩

/-- What stands outside of the literals stands in the texts between the values. -/
theorem count_tokens [DecidableEq α] (t : Template q) (c : α) :
    t.tokens.count (.plain c) = (t.parts.flatMap Prod.fst ++ t.last).count c := by
  have hplain (f : List α) : (f.map Token.plain).count (.plain c) = f.count c :=
    List.count_map_of_injective f Token.plain (fun x y hxy => by cases hxy; rfl) c
  obtain ⟨parts, last, hpl, hsp⟩ := t
  simp only [tokens, List.count_append, hplain, Nat.add_right_cancel_iff]
  clear hpl hsp
  induction parts with
  | nil => rfl
  | cons p parts ih =>
    have hliteral : [Token.literal p.2].count (.plain c) = 0 :=
      List.count_eq_zero_of_not_mem fun hmem => nomatch List.mem_singleton.mp hmem
    rw [List.flatMap_cons, List.flatMap_cons, List.count_append, List.count_append,
      List.count_append, ih, hplain, hliteral, Nat.add_zero]

theorem getLast?_tokens (t : Template q) : t.tokens.getLast? = t.last.getLast?.map .plain := by
  rw [tokens, List.getLast?_append, List.getLast?_map]
  cases h : t.last.getLast? with
  | none => exact absurd (List.getLast?_eq_none_iff.mp h) t.spaced.1
  | some c => rfl

/-- A text that does not begin with a value has no quote in front. -/
theorem head?_render (t : Template q) : t.render.head? ≠ some q := by
  obtain ⟨parts, last, ⟨hlast, hparts⟩, hne, hnes⟩ := t
  have plain_head {f s : List α} (hf : q ∉ f) (hfs : f ≠ []) : (f ++ s).head? ≠ some q := by
    obtain ⟨c, f, rfl⟩ := List.exists_cons_of_ne_nil hfs
    rw [List.cons_append, List.head?_cons, ne_eq, Option.some.injEq]
    exact fun hc => hf (by rw [hc]; exact List.mem_cons_self)
  rcases parts with _ | ⟨⟨f, v⟩, parts⟩
  · have h := plain_head (s := []) hlast hne
    rwa [List.append_nil] at h
  · simp only [render, List.flatMap_cons, List.append_assoc]
    exact plain_head (hparts _ List.mem_cons_self) (hnes _ List.mem_cons_self)

variable [DecidableEq α]

/-- A beginning of a text up to its first value, and behind it. -/
theorem exists_of_lex_prefix {f s w R : List α} {ts : List (Token α)} (hf : q ∉ f)
    (hs : s <+: f ++ q :: R)
    (h : lexFrom q .outside s = some (f.map .plain ++ .literal w :: ts)) :
    ∃ s', s = f ++ q :: s' ∧ s' <+: R ∧ lexFrom q (.inside []) s' = some (.literal w :: ts) := by
  have short {x : List α} (hx : q ∉ x) (hlen : x.length ≤ f.length) :
      lexFrom q .outside x ≠ some (f.map .plain ++ .literal w :: ts) := by
    intro hx'
    rw [lex_plain hx] at hx'
    have := congrArg List.length (Option.some.inj hx')
    simp only [List.length_map, List.length_append, List.length_cons] at this
    omega
  rcases List.prefix_or_prefix_of_prefix hs (List.prefix_append f (q :: R)) with hsf | ⟨s', rfl⟩
  · exact absurd h (short (fun hq => hf (hsf.subset hq)) hsf.length_le)
  · rw [List.prefix_append_right_inj] at hs
    rcases s' with _ | ⟨c, s'⟩
    · rw [List.append_nil] at h
      exact absurd h (short hf (Nat.le_refl _))
    · obtain ⟨rfl, hs'⟩ := List.cons_prefix_cons.mp hs
      rw [lexFrom_plain hf, lexFrom, if_pos rfl] at h
      obtain ⟨ts', hts, heq⟩ := Option.map_eq_some_iff.mp h
      rw [List.append_right_inj] at heq
      exact ⟨s', rfl, hs', by rw [hts, heq]⟩

/-- The first value of a text: it is read as it is if and only if it has no quote, and then the rest
is read on. -/
theorem lex_first_iff {f v s R : List α} {ts : List (Token α)} (hf : q ∉ f)
    (hs : s <+: f ++ q :: (v ++ q :: R)) (hR : R.head? ≠ some q) :
    lexFrom q .outside s = some (f.map .plain ++ .literal v :: ts) ↔
      q ∉ v ∧ ∃ rest, s = f ++ q :: (v ++ q :: rest) ∧ rest <+: R ∧
        lexFrom q .outside rest = some ts := by
  constructor
  · intro h
    obtain ⟨s', rfl, hs', hin⟩ := exists_of_lex_prefix hf hs h
    obtain ⟨u, rest, hu, rfl, -, hts⟩ := exists_of_lexFrom_inside hin
    rw [List.nil_append] at hu
    subst hu
    have hpre : escape q v ++ [q] <+: v ++ q :: R :=
      List.IsPrefix.trans ⟨rest, by simp⟩ hs'
    have hv := notMem_of_escape_prefix hpre hR
    rw [escape_of_notMem hv] at hs' ⊢
    rw [List.prefix_append_right_inj, List.cons_prefix_cons] at hs'
    exact ⟨hv, rest, rfl, hs'.2, hts⟩
  · rintro ⟨hv, rest, rfl, hrest, hts⟩
    have hhead : rest.head? ≠ some q := by
      rcases rest with _ | ⟨c, rest⟩
      · simp
      · obtain ⟨x, rfl⟩ := hrest
        exact hR
    rw [lexFrom_plain hf, lexFrom, if_pos rfl, lexFrom_inside hv hhead, hts]
    rfl

/-- A beginning of the text is read as what the template stands for if and only if it is the whole
text and no value contains a quote. -/
theorem lex_prefix_iff (t : Template q) {s : List α} (hs : s <+: t.render) :
    lex q s = some t.tokens ↔ s = t.render ∧ ∀ p ∈ t.parts, q ∉ p.2 := by
  obtain ⟨parts, last, ⟨hlast, hparts⟩, hne, hnes⟩ := t
  unfold lex
  induction parts generalizing s with
  | nil =>
    simp only [render, tokens, List.flatMap_nil, List.nil_append] at hs ⊢
    rw [lex_plain (fun hq => hlast (hs.subset hq))]
    simp only [Option.some.injEq, List.not_mem_nil, false_imp_iff, implies_true, and_true]
    refine List.map_inj_right fun x y hxy => ?_
    cases hxy
    rfl
  | cons p parts ih =>
    obtain ⟨f, v⟩ := p
    obtain ⟨hf, hparts⟩ := List.forall_mem_cons.mp hparts
    obtain ⟨-, hnes⟩ := List.forall_mem_cons.mp hnes
    have hhead := head?_render (q := q) ⟨parts, last, ⟨hlast, hparts⟩, hne, hnes⟩
    have ih {s : List α} := @ih s hparts hnes
    simp only [render, tokens, List.flatMap_cons, List.append_assoc, List.cons_append,
      List.nil_append, List.forall_mem_cons] at hs hhead ih ⊢
    rw [lex_first_iff hf hs hhead]
    constructor
    · rintro ⟨hv, rest, rfl, hrest, hts⟩
      obtain ⟨rfl, hvs⟩ := (ih hrest).mp hts
      exact ⟨rfl, hv, hvs⟩
    · rintro ⟨rfl, hv, hvs⟩
      exact ⟨hv, _, rfl, List.prefix_rfl, (ih List.prefix_rfl).mpr ⟨rfl, hvs⟩⟩

end Template

end P2PFileSharing.Library.Quoting
