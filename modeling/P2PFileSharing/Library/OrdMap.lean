import Mathlib.Order.Basic
import Mathlib.Data.List.Sort
import Mathlib.Data.List.Nodup

/-!
# Finite maps in key order

A map is the list of its entries in strictly increasing key order, so equal maps are
equal lists and iteration visits the keys in order. A set is a map to `Unit`.
-/

namespace P2PFileSharing.Library

/-- A finite map, stored as its entries in strictly increasing key order. -/
structure OrdMap (κ ν : Type*) [LinearOrder κ] where
  entries : List (κ × ν)
  sorted : entries.Pairwise (fun a b => a.1 < b.1)

namespace OrdMap

variable {κ ν : Type*} [LinearOrder κ]

theorem entries_injective : Function.Injective (entries : OrdMap κ ν → List (κ × ν)) := by
  rintro ⟨xs, _⟩ ⟨ys, _⟩ rfl
  rfl

instance [DecidableEq ν] : DecidableEq (OrdMap κ ν) := fun a b =>
  decidable_of_iff (a.entries = b.entries) entries_injective.eq_iff

def empty : OrdMap κ ν := ⟨[], .nil⟩

instance : EmptyCollection (OrdMap κ ν) := ⟨empty⟩
instance : Inhabited (OrdMap κ ν) := ⟨empty⟩

def lookup (k : κ) : List (κ × ν) → Option ν
  | [] => none
  | e :: es => if e.1 = k then some e.2 else lookup k es

def find? (m : OrdMap κ ν) (k : κ) : Option ν := lookup k m.entries

instance : Membership κ (OrdMap κ ν) := ⟨fun m k => (m.find? k).isSome = true⟩

instance (m : OrdMap κ ν) (k : κ) : Decidable (k ∈ m) :=
  inferInstanceAs (Decidable ((m.find? k).isSome = true))

theorem mem_def {m : OrdMap κ ν} {k : κ} : k ∈ m ↔ (m.find? k).isSome = true := Iff.rfl

theorem mem_iff_exists {m : OrdMap κ ν} {k : κ} : k ∈ m ↔ ∃ v, m.find? k = some v :=
  Option.isSome_iff_exists

theorem notMem_iff {m : OrdMap κ ν} {k : κ} : k ∉ m ↔ m.find? k = none := by
  simp [mem_def]

@[simp] theorem find?_empty (k : κ) : (∅ : OrdMap κ ν).find? k = none := rfl

@[simp] theorem notMem_empty (k : κ) : k ∉ (∅ : OrdMap κ ν) := by simp [mem_def]

/-- An entry is present exactly when its key is mapped to its value. -/
theorem mem_entries {m : OrdMap κ ν} {k : κ} {v : ν} :
    (k, v) ∈ m.entries ↔ m.find? k = some v := by
  obtain ⟨es, hs⟩ := m
  simp only [find?]
  induction es with
  | nil => simp [lookup]
  | cons e es ih =>
    have hlt := (List.pairwise_cons.mp hs).1
    have ih := ih (List.pairwise_cons.mp hs).2
    by_cases he : e.1 = k
    · have hnot : (k, v) ∉ es := fun hmem => absurd (hlt _ hmem) (by simp [he])
      simp [lookup, he, hnot, Prod.ext_iff, eq_comm]
    · have hne : (k, v) ≠ e := fun h => he (by simp [← h])
      simp [lookup, he, hne, ih]

/-- The greatest key has the last entry. -/
theorem entries_of_greatest {m : OrdMap κ ν} {k : κ} {v : ν} (h : m.find? k = some v)
    (hmax : ∀ k' ∈ m, k' ≤ k) :
    ∃ init, m.entries = init ++ [(k, v)] ∧ ∀ e ∈ init, e.1 ≠ k := by
  obtain ⟨init, rest, hentries⟩ := List.append_of_mem (mem_entries.mpr h)
  have hs := m.sorted
  rw [hentries] at hs
  obtain ⟨-, hrest, hinit⟩ := List.pairwise_append.mp hs
  have hnil : rest = [] := by
    refine List.eq_nil_iff_forall_not_mem.mpr fun e he => ?_
    have hin : e.1 ∈ m := mem_iff_exists.mpr ⟨e.2, mem_entries.mp (by simp [hentries, he])⟩
    exact absurd ((List.pairwise_cons.mp hrest).1 e he) (hmax e.1 hin).not_gt
  refine ⟨init, by rw [hentries, hnil], fun e he => ?_⟩
  exact (hinit e he (k, v) (by simp)).ne

/-- Maps that agree on every key are equal. -/
theorem ext_find? {a b : OrdMap κ ν} (h : ∀ k, a.find? k = b.find? k) : a = b := by
  apply entries_injective
  have nodup : ∀ m : OrdMap κ ν, m.entries.Nodup := fun m =>
    m.sorted.imp (fun {x y} hlt heq => by simp [heq] at hlt)
  have perm : a.entries.Perm b.entries :=
    (List.perm_ext_iff_of_nodup (nodup a) (nodup b)).mpr
      (fun ⟨k, v⟩ => by rw [mem_entries, mem_entries, h k])
  exact perm.eq_of_pairwise (fun x y _ _ hxy hyx => absurd hxy hyx.asymm) a.sorted b.sorted

/-! ## Insertion -/

def insertEntry (k : κ) (v : ν) : List (κ × ν) → List (κ × ν)
  | [] => [(k, v)]
  | e :: es =>
    if k < e.1 then (k, v) :: e :: es
    else if k = e.1 then (k, v) :: es
    else e :: insertEntry k v es

theorem mem_insertEntry {k : κ} {v : ν} {es : List (κ × ν)} {x : κ × ν}
    (h : x ∈ insertEntry k v es) : x = (k, v) ∨ x ∈ es := by
  induction es with
  | nil => simpa [insertEntry] using h
  | cons e es ih =>
    unfold insertEntry at h
    split_ifs at h <;> grind

theorem sorted_insertEntry (k : κ) (v : ν) {es : List (κ × ν)}
    (hs : es.Pairwise (fun a b => a.1 < b.1)) :
    (insertEntry k v es).Pairwise (fun a b => a.1 < b.1) := by
  induction es with
  | nil => simp [insertEntry]
  | cons e es ih =>
    obtain ⟨hlt, htail⟩ := List.pairwise_cons.mp hs
    unfold insertEntry
    split_ifs with h1 h2
    · refine List.pairwise_cons.mpr ⟨?_, hs⟩
      intro x hx
      rcases List.mem_cons.mp hx with rfl | hx
      · exact h1
      · exact h1.trans (hlt x hx)
    · exact List.pairwise_cons.mpr ⟨fun x hx => by simpa [h2] using hlt x hx, htail⟩
    · refine List.pairwise_cons.mpr ⟨?_, ih htail⟩
      intro x hx
      rcases mem_insertEntry hx with rfl | hx
      · exact lt_of_le_of_ne (not_lt.mp h1) (Ne.symm h2)
      · exact hlt x hx

/-- Map `k` to `v`, replacing an earlier value. -/
def insert (m : OrdMap κ ν) (k : κ) (v : ν) : OrdMap κ ν :=
  ⟨insertEntry k v m.entries, sorted_insertEntry k v m.sorted⟩

theorem lookup_insertEntry (k k' : κ) (v : ν) (es : List (κ × ν)) :
    lookup k' (insertEntry k v es) = if k' = k then some v else lookup k' es := by
  induction es with
  | nil => grind [insertEntry, lookup]
  | cons e es ih => grind [insertEntry, lookup]

theorem find?_insert (m : OrdMap κ ν) (k k' : κ) (v : ν) :
    (m.insert k v).find? k' = if k' = k then some v else m.find? k' :=
  lookup_insertEntry k k' v m.entries

@[simp] theorem find?_insert_self (m : OrdMap κ ν) (k : κ) (v : ν) :
    (m.insert k v).find? k = some v := by simp [find?_insert]

theorem find?_insert_of_ne (m : OrdMap κ ν) {k k' : κ} (v : ν) (h : k' ≠ k) :
    (m.insert k v).find? k' = m.find? k' := by simp [find?_insert, h]

@[simp] theorem mem_insert (m : OrdMap κ ν) (k k' : κ) (v : ν) :
    k' ∈ m.insert k v ↔ k' = k ∨ k' ∈ m := by
  by_cases h : k' = k <;> simp [mem_def, find?_insert, h]

theorem length_flatMap_insert_le {β : Type*} (f : κ × ν → List β) (m : OrdMap κ ν) (k : κ)
    (v : ν) : ((m.insert k v).entries.flatMap f).length ≤
      (f (k, v)).length + (m.entries.flatMap f).length := by
  obtain ⟨es, hs⟩ := m
  change ((insertEntry k v es).flatMap f).length ≤ (f (k, v)).length + (es.flatMap f).length
  clear hs
  induction es with
  | nil => simp [insertEntry]
  | cons e es ih =>
    rw [insertEntry]
    split_ifs <;> simp only [List.flatMap_cons, List.length_append] <;> omega

/-- A new key adds its own part. -/
theorem length_flatMap_insert {β : Type*} (f : κ × ν → List β) {m : OrdMap κ ν} {k : κ} (h : k ∉ m)
    (v : ν) : ((m.insert k v).entries.flatMap f).length =
      (f (k, v)).length + (m.entries.flatMap f).length := by
  have hne : ∀ e ∈ m.entries, k ≠ e.1 := by
    rintro e he rfl
    exact h (mem_iff_exists.mpr ⟨e.2, mem_entries.mp he⟩)
  change ((insertEntry k v m.entries).flatMap f).length = _
  generalize m.entries = es at hne ⊢
  induction es with
  | nil => simp [insertEntry]
  | cons e es ih =>
    obtain ⟨hfirst, hothers⟩ := List.forall_mem_cons.mp hne
    rw [insertEntry, if_neg hfirst]
    split_ifs
    · simp
    · simp only [List.flatMap_cons, List.length_append, ih hothers]
      omega

theorem lookup_eq_none {k : κ} {es : List (κ × ν)} (h : ∀ e ∈ es, e.1 ≠ k) :
    lookup k es = none := by
  induction es with
  | nil => rfl
  | cons e es ih => grind [lookup]

/-- The number of entries with a property, when a value is replaced. -/
theorem countP_insert (p : ν → Bool) (m : OrdMap κ ν) (k : κ) (v : ν) :
    (m.insert k v).entries.countP (fun e => p e.2) + (m.find? k).elim 0 (fun w => (p w).toNat) =
      m.entries.countP (fun e => p e.2) + (p v).toNat := by
  obtain ⟨es, hs⟩ := m
  simp only [insert, find?]
  induction es with
  | nil => cases hp : p v <;> simp [insertEntry, lookup, hp]
  | cons e es ih =>
    obtain ⟨hlt, htail⟩ := List.pairwise_cons.mp hs
    have hrest := ih htail
    unfold insertEntry
    split_ifs with hk heq
    · have hnone : lookup k (e :: es) = none := by
        refine lookup_eq_none fun x hx => ?_
        rcases List.mem_cons.mp hx with rfl | hx
        · exact hk.ne'
        · exact (hk.trans (hlt x hx)).ne'
      cases hp : p v <;> simp [hnone, hp]
    · cases hp : p v <;> cases he : p e.2 <;> simp [lookup, heq, hp, he]
    · have hne : e.1 ≠ k := fun h => heq h.symm
      cases he : p e.2 <;> simp [lookup, hne, he] <;> omega

/-- Storing the value a key already has changes nothing. -/
theorem insert_eq_self {m : OrdMap κ ν} {k : κ} {v : ν} :
    m.insert k v = m ↔ m.find? k = some v := by
  constructor
  · intro h
    rw [← h, find?_insert_self]
  · intro h
    refine ext_find? (fun k' => ?_)
    by_cases hk : k' = k <;> simp [find?_insert, hk, h]

/-- Of two values stored under one key the second stays. -/
theorem insert_insert (m : OrdMap κ ν) (k : κ) (v w : ν) :
    (m.insert k v).insert k w = m.insert k w := by
  refine ext_find? (fun k' => ?_)
  by_cases hk : k' = k <;> simp [find?_insert, hk]

/-- Inserting entries with increasing keys, one after the other. -/
theorem find?_foldl_insert {es : List (κ × ν)} (hs : es.Pairwise (fun a b => a.1 < b.1))
    (init : OrdMap κ ν) (k : κ) :
    (es.foldl (fun m e => m.insert e.1 e.2) init).find? k = (lookup k es).or (init.find? k) := by
  induction es generalizing init with
  | nil => simp [lookup]
  | cons e es ih =>
    obtain ⟨hlt, hs⟩ := List.pairwise_cons.mp hs
    rw [List.foldl_cons, ih hs, find?_insert, lookup]
    by_cases hk : k = e.1
    · have hnone : lookup k es = none := by
        rw [← Option.not_isSome_iff_eq_none, Option.isSome_iff_exists]
        rintro ⟨v, hv⟩
        have hmem : (k, v) ∈ es := (mem_entries (m := ⟨es, hs⟩)).mpr hv
        exact absurd (hlt _ hmem) (by simp [hk])
      subst hk
      simp [hnone]
    · simp [hk, Ne.symm hk]

section Fold

variable {α : Type*} {key : α → κ} {val : α → ν} {xs : List α} {init : OrdMap κ ν} {k : κ} {v : ν}

theorem mem_foldl_insert : k ∈ xs.foldl (fun m x => m.insert (key x) (val x)) init ↔
    (∃ x ∈ xs, key x = k) ∨ k ∈ init := by
  induction xs generalizing init with
  | nil => simp
  | cons x xs ih =>
    rw [List.foldl_cons, ih, mem_insert, List.exists_mem_cons_iff, eq_comm (a := k), ← or_assoc,
      or_comm (b := key x = k)]

/-- What is stored after a row of insertions was inserted by one of them, or was there before. -/
theorem exists_of_find?_foldl_insert
    (h : (xs.foldl (fun m x => m.insert (key x) (val x)) init).find? k = some v) :
    (∃ x ∈ xs, key x = k ∧ val x = v) ∨ init.find? k = some v := by
  induction xs generalizing init with
  | nil => exact .inr h
  | cons x xs ih =>
    rcases ih h with ⟨x', hx', hkey, hval⟩ | hinit
    · exact .inl ⟨x', List.mem_cons_of_mem x hx', hkey, hval⟩
    · rw [find?_insert] at hinit
      split at hinit
      · exact .inl ⟨x, List.mem_cons_self, Eq.symm ‹_›, Option.some_inj.mp hinit⟩
      · exact .inr hinit

end Fold

/-- A map is rebuilt from its entries. -/
theorem foldl_insert_entries (m : OrdMap κ ν) :
    m.entries.foldl (fun a e => a.insert e.1 e.2) ∅ = m := by
  refine ext_find? fun k => ?_
  rw [find?_foldl_insert m.sorted, find?_empty, Option.or_none]
  rfl

/-! ## Other values under the same keys -/

def map {ω : Type*} (f : ν → ω) (m : OrdMap κ ν) : OrdMap κ ω :=
  ⟨m.entries.map (fun e => (e.1, f e.2)), List.pairwise_map.mpr m.sorted⟩

@[simp] theorem find?_map {ω : Type*} (f : ν → ω) (m : OrdMap κ ν) (k : κ) :
    (m.map f).find? k = (m.find? k).map f := by
  obtain ⟨es, hs⟩ := m
  simp only [find?, map]
  clear hs
  induction es with
  | nil => rfl
  | cons e es ih => grind [lookup]

theorem map_insert {ω : Type*} (f : ν → ω) (m : OrdMap κ ν) (k : κ) (v : ν) :
    (m.insert k v).map f = (m.map f).insert k (f v) := by
  refine ext_find? fun k' => ?_
  rw [find?_map, find?_insert, find?_insert, find?_map]
  split <;> rfl

theorem map_eq_self {f : ν → ν} {m : OrdMap κ ν} (h : ∀ k v, m.find? k = some v → f v = v) :
    m.map f = m := by
  refine ext_find? fun k => ?_
  rw [find?_map]
  cases hk : m.find? k with
  | none => rfl
  | some v => rw [Option.map_some, h k v hk]

/-! ## Removal -/

def erase (m : OrdMap κ ν) (k : κ) : OrdMap κ ν :=
  ⟨m.entries.filter (fun e => e.1 ≠ k), m.sorted.filter _⟩

theorem lookup_filter_ne (k k' : κ) (es : List (κ × ν)) :
    lookup k' (es.filter (fun e => e.1 ≠ k)) = if k' = k then none else lookup k' es := by
  induction es with
  | nil => simp [lookup]
  | cons e es ih => grind [lookup]

theorem find?_erase (m : OrdMap κ ν) (k k' : κ) :
    (m.erase k).find? k' = if k' = k then none else m.find? k' :=
  lookup_filter_ne k k' m.entries

@[simp] theorem mem_erase (m : OrdMap κ ν) (k k' : κ) :
    k' ∈ m.erase k ↔ k' ≠ k ∧ k' ∈ m := by
  by_cases h : k' = k <;> simp [mem_def, find?_erase, h]

/-- Removing an absent key changes nothing. -/
theorem erase_eq_self {m : OrdMap κ ν} {k : κ} : m.erase k = m ↔ k ∉ m := by
  constructor
  · intro h
    rw [← h]
    simp
  · intro h
    refine ext_find? (fun k' => ?_)
    by_cases hk : k' = k <;> simp [find?_erase, hk, notMem_iff.mp h]

end OrdMap

/-- A finite set, iterated in increasing order. -/
abbrev OrdSet (κ : Type*) [LinearOrder κ] := OrdMap κ Unit

namespace OrdSet

variable {κ : Type*} [LinearOrder κ]

def add (s : OrdSet κ) (k : κ) : OrdSet κ := s.insert k ()

def toList (s : OrdSet κ) : List κ := s.entries.map Prod.fst

theorem find?_eq_some {s : OrdSet κ} {k : κ} : s.find? k = some () ↔ k ∈ s := by
  rw [OrdMap.mem_iff_exists]
  constructor
  · intro h
    exact ⟨(), h⟩
  · rintro ⟨⟨⟩, h⟩
    exact h

theorem mem_toList {s : OrdSet κ} {k : κ} : k ∈ s.toList ↔ k ∈ s := by
  rw [← find?_eq_some, ← OrdMap.mem_entries, toList, List.mem_map]
  exact ⟨fun ⟨⟨_, ()⟩, hmem, hk⟩ => hk ▸ hmem, fun h => ⟨_, h, rfl⟩⟩

@[simp] theorem mem_add (s : OrdSet κ) (k k' : κ) : k' ∈ s.add k ↔ k' = k ∨ k' ∈ s :=
  OrdMap.mem_insert s k k' ()

theorem nodup_toList (s : OrdSet κ) : s.toList.Nodup :=
  List.pairwise_map.mpr (s.sorted.imp ne_of_lt)

theorem add_eq_self {s : OrdSet κ} {k : κ} : s.add k = s ↔ k ∈ s := by
  rw [add, OrdMap.insert_eq_self, find?_eq_some]

/-- Sets with the same members are equal. -/
theorem ext_mem {a b : OrdSet κ} (h : ∀ k, k ∈ a ↔ k ∈ b) : a = b := by
  refine OrdMap.ext_find? (fun k => ?_)
  by_cases hk : k ∈ a
  · rw [find?_eq_some.mpr hk, find?_eq_some.mpr ((h k).mp hk)]
  · rw [OrdMap.notMem_iff.mp hk, OrdMap.notMem_iff.mp (fun hb => hk ((h k).mpr hb))]

end OrdSet

end P2PFileSharing.Library
