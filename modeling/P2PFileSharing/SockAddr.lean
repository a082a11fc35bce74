import P2PFileSharing.Util
import P2PFileSharing.Cpp.Convert

/-!
# Socket addresses

An address and a port, with the number that encodes both: four bytes of the address, the first
one lowest, and 16 bits of the port above them.
-/

namespace P2PFileSharing

open Library Split

structure SockAddr where
  ip : Str
  port : Nat
  uid : Int
  deriving DecidableEq, Repr

namespace SockAddr

/-- `sock_addr()` -/
def new : SockAddr := ⟨lit "0.0.0.0", 0, 0⟩

instance : Inhabited SockAddr := ⟨new⟩

/-- `sock_addr(long long uid)`: each part is masked out of `uid` and shifted down. -/
def ofUid (uid : Int) : SockAddr :=
  let part (shift : Nat) : Nat := (uid / 2 ^ shift % 2 ^ 8).toNat
  { ip := toDecimal (part 0) ++ lit "." ++ toDecimal (part 8) ++ lit "." ++ toDecimal (part 16) ++
      lit "." ++ toDecimal (part 24)
    port := (uid / 2 ^ 32 % 2 ^ 16).toNat
    uid }

/-- `x << k` of a `long long`, where C++11 defines it. -/
def shl (x : Int) (k : Nat) : Except Fault Int :=
  if 0 ≤ x ∧ x * 2 ^ k < 2 ^ 63 then .ok (x * 2 ^ k) else .error .undefined

/-- `x | y` of two `long long`s. -/
def or (x y : Int) : Int := (BitVec.ofInt 64 x ||| BitVec.ofInt 64 y).toInt

/-- `stoll(parts[k])`, where the vector is read unchecked. -/
def part (parts : List Str) (k : Nat) : Except Fault Int :=
  match parts[k]? with
  | some s => (stoll s).mapError Fault.thrown
  | none => .error .undefined

/-- `sock_addr(ipv4_addr ip, uint16_t port)` -/
def ofIpPort (ip : Str) (port : Nat) : Except Fault SockAddr := do
  let parts := Util.tokenize ip (lit ".")
  let p1 ← part parts 0
  let p2 ← part parts 1
  let p3 ← part parts 2
  let p4 ← part parts 3
  let p5 : Int := port
  let uid := or (or (or (or p1 (← shl p2 8)) (← shl p3 16)) (← shl p4 24)) (← shl p5 32)
  return { ip, port, uid }

/-! ## From an address to its number and back -/

/-- Bits above `k` do not meet the `k` lowest ones. -/
theorem or_eq_add {a b k : Nat} (ha : a < 2 ^ k) (h : a + b * 2 ^ k < 2 ^ 63) :
    or a (b * 2 ^ k : Nat) = (a + b * 2 ^ k : Nat) := by
  have hor : a ||| b * 2 ^ k = a + b * 2 ^ k := by
    rw [Nat.or_comm, Nat.mul_comm, ← Nat.two_pow_add_eq_or_of_lt ha, Nat.add_comm]
  have hbits : (BitVec.ofNat 64 a ||| BitVec.ofNat 64 (b * 2 ^ k)).toNat = a + b * 2 ^ k := by
    rw [BitVec.toNat_or, BitVec.toNat_ofNat, BitVec.toNat_ofNat, Nat.mod_eq_of_lt (by omega),
      Nat.mod_eq_of_lt (by omega), hor]
  rw [or, BitVec.ofInt_natCast, BitVec.ofInt_natCast, BitVec.toInt_eq_toNat_of_lt (by omega), hbits]

theorem shl_natCast {a k : Nat} (h : a * 2 ^ k < 2 ^ 63) :
    shl a k = .ok ((a * 2 ^ k : Nat) : Int) := by
  rw [shl, if_pos ⟨by omega, by exact_mod_cast h⟩]
  simp

/-- Four numbers in decimal, with dots between them. -/
def dotted (a b c d : Nat) : Str :=
  toDecimal a ++ lit "." ++ toDecimal b ++ lit "." ++ toDecimal c ++ lit "." ++ toDecimal d

theorem tokenize_dotted (a b c d : Nat) : Util.tokenize (dotted a b c d) (lit ".") =
    [toDecimal a, toDecimal b, toDecimal c, toDecimal d] := by
  have hdot : lit "." = [46] := by decide
  have hnot (n : Nat) : 46 ∉ toDecimal n := fun h => absurd (toDecimal_digits n 46 h) (by decide)
  have hfree (n : Nat) : Free (lit ".") (toDecimal n) := by
    rw [hdot]
    exact free_singleton.mpr (hnot n)
  have hlast : ¬ lit "." <:+: toDecimal d := by
    rw [hdot]
    exact fun h => hnot d (h.subset (List.mem_singleton_self 46))
  have hne : lit "." ≠ [] := by decide
  rw [dotted, List.append_assoc, List.append_assoc, List.append_assoc, List.append_assoc,
    List.append_assoc, ← List.append_assoc (toDecimal a), Util.tokenize_cut hne (hfree a),
    ← List.append_assoc (toDecimal b), Util.tokenize_cut hne (hfree b),
    ← List.append_assoc (toDecimal c), Util.tokenize_cut hne (hfree c), Util.tokenize_last hlast,
    if_pos (List.length_pos_of_ne_nil (toDecimal_ne_nil d))]

theorem part_toDecimal {parts : List Str} {k n : Nat} (hk : parts[k]? = some (toDecimal n))
    (hn : n < 2 ^ 63) : part parts k = .ok n := by
  rw [part, hk]
  simp only [stoll_toDecimal hn, Except.mapError]

theorem ofIpPort_of_parts {ip : Str} {port : Nat} {p1 p2 p3 p4 s2 s3 s4 s5 : Int}
    (h1 : part (Util.tokenize ip (lit ".")) 0 = .ok p1)
    (h2 : part (Util.tokenize ip (lit ".")) 1 = .ok p2)
    (h3 : part (Util.tokenize ip (lit ".")) 2 = .ok p3)
    (h4 : part (Util.tokenize ip (lit ".")) 3 = .ok p4)
    (hs2 : shl p2 8 = .ok s2) (hs3 : shl p3 16 = .ok s3) (hs4 : shl p4 24 = .ok s4)
    (hs5 : shl port 32 = .ok s5) :
    ofIpPort ip port = .ok ⟨ip, port, or (or (or (or p1 s2) s3) s4) s5⟩ := by
  -- a hypothesis and not the definition of `bind`: unfolding would compute `port * 2 ^ 32`
  have hbind (x : Int) (f : Int → Except Fault SockAddr) : (Except.ok x >>= f) = f x := rfl
  rw [ofIpPort]
  simp only [h1, h2, h3, h4, hs2, hs3, hs4, hs5, hbind]
  rfl

/-- The number of an address: one part above the other. -/
theorem ofIpPort_dotted {a b c d port : Nat} (ha : a < 2 ^ 8) (hb : b < 2 ^ 8) (hc : c < 2 ^ 8)
    (hd : d < 2 ^ 8) (hport : port < 2 ^ 16) : ofIpPort (dotted a b c d) port = .ok
      ⟨dotted a b c d, port, (a + b * 2 ^ 8 + c * 2 ^ 16 + d * 2 ^ 24 + port * 2 ^ 32 : Nat)⟩ := by
  have hpart {n k : Nat} (hk : [toDecimal a, toDecimal b, toDecimal c, toDecimal d][k]? =
      some (toDecimal n)) (hn : n < 2 ^ 8) :
      part (Util.tokenize (dotted a b c d) (lit ".")) k = .ok (n : Int) :=
    part_toDecimal (by rw [tokenize_dotted, hk]) (by omega)
  rw [ofIpPort_of_parts (hpart rfl ha) (hpart rfl hb) (hpart rfl hc) (hpart rfl hd)
    (shl_natCast (by omega)) (shl_natCast (by omega)) (shl_natCast (by omega))
    (shl_natCast (by omega)), or_eq_add ha (by omega), or_eq_add (by omega) (by omega),
    or_eq_add (by omega) (by omega), or_eq_add (by omega) (by omega)]

/-- The address and the port of such a number. -/
theorem ofUid_sum {a b c d port : Nat} (ha : a < 2 ^ 8) (hb : b < 2 ^ 8) (hc : c < 2 ^ 8)
    (hd : d < 2 ^ 8) (hport : port < 2 ^ 16) :
    ofUid (a + b * 2 ^ 8 + c * 2 ^ 16 + d * 2 ^ 24 + port * 2 ^ 32 : Nat) =
      ⟨dotted a b c d, port, (a + b * 2 ^ 8 + c * 2 ^ 16 + d * 2 ^ 24 + port * 2 ^ 32 : Nat)⟩ := by
  generalize hu : a + b * 2 ^ 8 + c * 2 ^ 16 + d * 2 ^ 24 + port * 2 ^ 32 = u
  have h0 : ((u : Int) / 2 ^ 0 % 2 ^ 8).toNat = a := by omega
  have h1 : ((u : Int) / 2 ^ 8 % 2 ^ 8).toNat = b := by omega
  have h2 : ((u : Int) / 2 ^ 16 % 2 ^ 8).toNat = c := by omega
  have h3 : ((u : Int) / 2 ^ 24 % 2 ^ 8).toNat = d := by omega
  have h4 : ((u : Int) / 2 ^ 32 % 2 ^ 16).toNat = port := by omega
  simp only [ofUid, h0, h1, h2, h3, h4, dotted]

/-- Every number below `2 ^ 48` is such a sum. -/
theorem exists_sum {u : Int} (h : 0 ≤ u) (h' : u < 2 ^ 48) : ∃ a b c d port : Nat,
    a < 2 ^ 8 ∧ b < 2 ^ 8 ∧ c < 2 ^ 8 ∧ d < 2 ^ 8 ∧ port < 2 ^ 16 ∧
      u = (a + b * 2 ^ 8 + c * 2 ^ 16 + d * 2 ^ 24 + port * 2 ^ 32 : Nat) := by
  obtain ⟨n, rfl⟩ := Int.eq_ofNat_of_zero_le h
  refine ⟨n % 2 ^ 8, n / 2 ^ 8 % 2 ^ 8, n / 2 ^ 16 % 2 ^ 8, n / 2 ^ 24 % 2 ^ 8, n / 2 ^ 32, ?_⟩
  omega

/-- The address and the port are made of the lowest 48 bits. -/
theorem ofUid_low (u : Int) :
    (ofUid u).ip = (ofUid (u % 2 ^ 48)).ip ∧ (ofUid u).port = (ofUid (u % 2 ^ 48)).port := by
  have h0 : u % 2 ^ 48 / 2 ^ 0 % 2 ^ 8 = u / 2 ^ 0 % 2 ^ 8 := by omega
  have h1 : u % 2 ^ 48 / 2 ^ 8 % 2 ^ 8 = u / 2 ^ 8 % 2 ^ 8 := by omega
  have h2 : u % 2 ^ 48 / 2 ^ 16 % 2 ^ 8 = u / 2 ^ 16 % 2 ^ 8 := by omega
  have h3 : u % 2 ^ 48 / 2 ^ 24 % 2 ^ 8 = u / 2 ^ 24 % 2 ^ 8 := by omega
  have h4 : u % 2 ^ 48 / 2 ^ 32 % 2 ^ 16 = u / 2 ^ 32 % 2 ^ 16 := by omega
  simp only [ofUid, h0, h1, h2, h3, h4, and_self]

/-- From a number to the address and the port and back, only these bits are kept. -/
theorem ofIpPort_ofUid (u : Int) :
    ∃ s, ofIpPort (ofUid u).ip (ofUid u).port = .ok s ∧ s.uid = u % 2 ^ 48 := by
  obtain ⟨a, b, c, d, port, ha, hb, hc, hd, hport, hsum⟩ :=
    exists_sum (u := u % 2 ^ 48) (by omega) (by omega)
  rw [(ofUid_low u).1, (ofUid_low u).2, hsum, ofUid_sum ha hb hc hd hport]
  exact ⟨_, ofIpPort_dotted ha hb hc hd hport, rfl⟩

/-- Addresses in canonical form and numbers below `2 ^ 48` stand for each other. -/
theorem address_encoding_bijective :
    (∀ a b c d port, a < 2 ^ 8 → b < 2 ^ 8 → c < 2 ^ 8 → d < 2 ^ 8 → port < 2 ^ 16 →
      ∃ s, ofIpPort (dotted a b c d) port = .ok s ∧
        (ofUid s.uid).ip = dotted a b c d ∧ (ofUid s.uid).port = port) ∧
    ∀ u, 0 ≤ u → u < 2 ^ 48 → ∃ s, ofIpPort (ofUid u).ip (ofUid u).port = .ok s ∧ s.uid = u := by
  constructor
  · intro a b c d port ha hb hc hd hport
    refine ⟨_, ofIpPort_dotted ha hb hc hd hport, ?_⟩
    rw [ofUid_sum ha hb hc hd hport]
    exact ⟨rfl, rfl⟩
  · intro u h h'
    obtain ⟨a, b, c, d, port, ha, hb, hc, hd, hport, rfl⟩ := exists_sum h h'
    rw [ofUid_sum ha hb hc hd hport]
    exact ⟨_, ofIpPort_dotted ha hb hc hd hport, rfl⟩

/-- The address that the tracker listens at, and the number of a port of its own. -/
theorem local_address_encoded :
    (∃ s, ofIpPort (dotted 127 0 0 1) 8080 = .ok s ∧ (ofUid s.uid).ip = dotted 127 0 0 1 ∧
      (ofUid s.uid).port = 8080) ∧
    ∃ s, ofIpPort (ofUid 7).ip (ofUid 7).port = .ok s ∧ s.uid = 7 :=
  ⟨address_encoding_bijective.1 127 0 0 1 8080 (by decide) (by decide) (by decide) (by decide)
    (by decide), address_encoding_bijective.2 7 (by decide) (by decide)⟩

end SockAddr

end P2PFileSharing
