import Mathlib

/-!
# Variable-length integers

The integers of SQLite's file format take from one to nine bytes, seven bits in each but
the ninth. The reader works on two bytes at a time in words of 32 bits.
-/

namespace AlmondAndroid.Storage

/-! ## What the format says -/

/-- The integer at `p`, with how many bytes it takes, after `n` bytes that give `v`. -/
def readVarint : Nat → Nat → List UInt8 → Option (Nat × Nat)
  | _, _, [] => none
  | n, v, b :: p =>
      if n = 8 then some (v * 256 + b.toNat, 9)
      else if b.toNat < 128 then some (v * 128 + b.toNat, n + 1)
      else readVarint (n + 1) (v * 128 + b.toNat % 128) p

/-! ## The writer -/

theorem toNat_shiftRight7 (v : UInt64) : (v >>> 7).toNat = v.toNat / 128 := by
  rw [UInt64.toNat_shiftRight, Nat.shiftRight_eq_div_pow]
  rfl

theorem shiftRight7_eq_zero {v : UInt64} : v >>> 7 = 0 ↔ v.toNat < 128 := by
  rw [← UInt64.toNat_inj, toNat_shiftRight7, UInt64.toNat_zero]
  omega

theorem shiftRight7_lt {v : UInt64} (h : ¬ v >>> 7 = 0) : (v >>> 7).toNat < v.toNat := by
  rw [shiftRight7_eq_zero] at h
  rw [toNat_shiftRight7]
  omega

/-- `p[i - 1]` down to `p[0]`, in front of `rest`. -/
def fillDown : Nat → UInt64 → List UInt8 → List UInt8
  | 0, _, rest => rest
  | i + 1, v, rest => fillDown i (v >>> 7) ((v &&& 0x7f ||| 0x80).toUInt8 :: rest)

/-- `buf`, which the loop fills from the lowest bits on. -/
def fillBuf (v : UInt64) : List UInt8 :=
  if v >>> 7 = 0 then [(v &&& 0x7f ||| 0x80).toUInt8]
  else (v &&& 0x7f ||| 0x80).toUInt8 :: fillBuf (v >>> 7)
termination_by v.toNat
decreasing_by exact shiftRight7_lt (by assumption)

/-- What it writes from `p` on. -/
def putVarint64 (v : UInt64) : List UInt8 :=
  if v &&& ((0xff000000 : UInt64) <<< 32) ≠ 0 then fillDown 8 (v >>> 8) [v.toUInt8]
  else ((fillBuf v).modifyHead (· &&& 0x7f)).reverse

def sqlite3PutVarint (v : UInt64) : List UInt8 :=
  if v ≤ 0x7f then [(v &&& 0x7f).toUInt8]
  else if v ≤ 0x3fff then [(v >>> 7 &&& 0x7f ||| 0x80).toUInt8, (v &&& 0x7f).toUInt8]
  else putVarint64 v

/-- The loop of `sqlite3VarintLen`, from `i` on. -/
def varintLenFrom (i : Nat) (v : UInt64) : Nat :=
  if v >>> 7 = 0 then i else varintLenFrom (i + 1) (v >>> 7)
termination_by v.toNat
decreasing_by exact shiftRight7_lt (by assumption)

def sqlite3VarintLen (v : UInt64) : Nat := varintLenFrom 1 v

/-! ## The reader -/

def slot20 : UInt32 := 0x001fc07f

def slot420 : UInt32 := 0xf01fc07f

/-- `((u64)s)<<32 | a`. -/
def joinWords (s a : UInt32) : UInt64 := s.toUInt64 <<< 32 ||| a.toUInt64

/-- From `p8` on. `a` has `p4` and `p6`, masked, `b` has `p3`, `p5` and `p7`, and `s` has `p0`
to `p3`, masked. -/
def getVarint9 (a b s : UInt32) (p4 : UInt8) : List UInt8 → Option (UInt64 × Nat)
  | [] => none
  | p8 :: _ =>
      let a := a <<< 15 ||| p8.toUInt32
      let b := (b &&& slot20) <<< 8
      let a := a ||| b
      let s := s <<< 4
      let b := (p4.toUInt32 &&& 0x7f) >>> 3
      let s := s ||| b
      some (joinWords s a, 9)

/-- From `p7` on. `a` has `p4` and `p6`, masked, and `b` has `p3` and `p5`. -/
def getVarint8 (a b s : UInt32) (p4 : UInt8) : List UInt8 → Option (UInt64 × Nat)
  | [] => none
  | p7 :: p =>
      let b := b <<< 14 ||| p7.toUInt32
      if b &&& 0x80 = 0 then
        let b := b &&& slot420
        let a := a <<< 7 ||| b
        some (joinWords (s >>> 4) a, 8)
      else getVarint9 a b s p4 p

/-- From `p6` on. `a` has `p2` and `p4`. -/
def getVarint7 (a b s : UInt32) (p4 : UInt8) : List UInt8 → Option (UInt64 × Nat)
  | [] => none
  | p6 :: p =>
      let a := a <<< 14 ||| p6.toUInt32
      if a &&& 0x80 = 0 then
        let a := a &&& slot420
        let b := (b &&& slot20) <<< 7
        let a := a ||| b
        some (joinWords (s >>> 11) a, 7)
      else getVarint8 (a &&& slot20) b s p4 p

/-- From `p5` on. `b` has `p1` and `p3`, masked. -/
def getVarint6 (a b s : UInt32) (p4 : UInt8) : List UInt8 → Option (UInt64 × Nat)
  | [] => none
  | p5 :: p =>
      let b := b <<< 14 ||| p5.toUInt32
      if b &&& 0x80 = 0 then
        let a := (a &&& slot20) <<< 7
        let a := a ||| b
        some (joinWords (s >>> 18) a, 6)
      else getVarint7 a b s p4 p

/-- From `p4` on. `a` has `p0` and `p2`, masked, and `b` has `p1` and `p3`, masked. -/
def getVarint5 (a b : UInt32) : List UInt8 → Option (UInt64 × Nat)
  | [] => none
  | p4 :: p =>
      let s := a
      let a := a <<< 14 ||| p4.toUInt32
      if a &&& 0x80 = 0 then
        let b := b <<< 7
        let a := a ||| b
        some (joinWords (s >>> 18) a, 5)
      else
        let s := s <<< 7 ||| b
        getVarint6 a b s p4 p

/-- From `p3` on. `a` has `p0` and `p2`, masked. -/
def getVarint4 (a b : UInt32) : List UInt8 → Option (UInt64 × Nat)
  | [] => none
  | p3 :: p =>
      let b := b <<< 14 ||| p3.toUInt32
      if b &&& 0x80 = 0 then
        let b := b &&& slot20
        let a := a <<< 7 ||| b
        some (a.toUInt64, 4)
      else getVarint5 a (b &&& slot20) p

/-- From `p2` on. -/
def getVarint3 (a b : UInt32) : List UInt8 → Option (UInt64 × Nat)
  | [] => none
  | p2 :: p =>
      let a := a <<< 14 ||| p2.toUInt32
      if a &&& 0x80 = 0 then
        let a := a &&& slot20
        let b := (b &&& 0x7f) <<< 7
        some ((a ||| b).toUInt64, 3)
      else getVarint4 (a &&& slot20) b p

/-- `none` when it reads past the memory from `p` on. -/
def sqlite3GetVarint : List UInt8 → Option (UInt64 × Nat)
  | [] => none
  | p0 :: p =>
      let a := p0.toUInt32
      if a &&& 0x80 = 0 then some (a.toUInt64, 1)
      else match p with
        | [] => none
        | p1 :: p =>
            let b := p1.toUInt32
            if b &&& 0x80 = 0 then some (((a &&& 0x7f) <<< 7 ||| b).toUInt64, 2)
            else getVarint3 a b p

/-- `sqlite3GetVarint32`, behind the macro that reads a single byte itself. -/
def getVarint32 (p : List UInt8) : Option (UInt32 × Nat) :=
  match p with
  | [] => none
  | p0 :: rest =>
      let a := p0.toUInt32
      if p0 < 0x80 then some (a, 1)
      else match rest with
        | [] => none
        | p1 :: rest =>
            let b := p1.toUInt32
            if b &&& 0x80 = 0 then some ((a &&& 0x7f) <<< 7 ||| b, 2)
            else match rest with
              | [] => none
              | p2 :: _ =>
                  let a := a <<< 14 ||| p2.toUInt32
                  if a &&& 0x80 = 0 then
                    some (a &&& ((0x7f : UInt32) <<< 14 ||| (0x7f : UInt32)) |||
                      (b &&& 0x7f) <<< 7, 3)
                  else (sqlite3GetVarint p).map fun (v, n) =>
                    (if v &&& 0xffffffff ≠ v then 0xffffffff else v.toUInt32, n)

/-! ## Words as numbers -/

/-- The numbers above and below a bit are joined without a carry. -/
theorem or_low (x y : Nat) {z i : Nat} (h : z < 2 ^ i) :
    (x * 2 ^ i + z) ||| y * 2 ^ i = (x ||| y) * 2 ^ i + z := by
  rw [← Nat.shiftLeft_eq, ← Nat.shiftLeft_eq, ← Nat.shiftLeft_eq,
    Nat.shiftLeft_add_eq_or_of_lt h, Nat.shiftLeft_add_eq_or_of_lt h, Nat.shiftLeft_or_distrib]
  ac_rfl

theorem or_high (x : Nat) {z i : Nat} (h : z < 2 ^ i) : x * 2 ^ i ||| z = x * 2 ^ i + z := by
  rw [← Nat.shiftLeft_eq, ← Nat.shiftLeft_add_eq_or_of_lt h]

/-- Two words with seven bits out of every fourteen, one of them shifted between those of
the other. -/
theorem or_interleaved (x : Nat) {y z u w i : Nat} (hy : y < 2 ^ 7) (hz : z < 2 ^ i)
    (hu : u < 2 ^ 7) (hw : w < 2 ^ 7) :
    (((x * 2 ^ 14 + y) * 2 ^ 7) * 2 ^ i + z) ||| (u * 2 ^ 14 + w) * 2 ^ i =
      (((x * 2 ^ 7 + u) * 2 ^ 7 + y) * 2 ^ 7 + w) * 2 ^ i + z := by
  rw [or_low _ _ hz, Nat.or_comm]
  have hw' := or_low (u * 2 ^ 7) (x * 2 ^ 14 + y) hw
  have hy' := or_low (x * 2 ^ 7) u hy
  have hu' := or_high x hu
  rw [show u * 2 ^ 14 + w = u * 2 ^ 7 * 2 ^ 7 + w by omega, hw', Nat.or_comm (u * 2 ^ 7),
    show x * 2 ^ 14 + y = x * 2 ^ 7 * 2 ^ 7 + y by omega, hy', hu']

/-- A mask of slots keeps the bits of each slot. -/
theorem and_slot (x m : Nat) {y n i : Nat} (hy : y < 2 ^ i) (hn : n < 2 ^ i) :
    (x * 2 ^ i + y) &&& (m * 2 ^ i + n) = (x &&& m) * 2 ^ i + (y &&& n) := by
  have hlow : y &&& n < 2 ^ i := Nat.and_lt_two_pow y hn
  apply Nat.eq_of_testBit_eq
  intro j
  simp only [Nat.mul_comm _ (2 ^ i), Nat.testBit_and, Nat.testBit_two_pow_mul_add _ hy,
    Nat.testBit_two_pow_mul_add _ hn, Nat.testBit_two_pow_mul_add _ hlow]
  split <;> simp

theorem toNat_and_slot20 (a : UInt32) :
    (a &&& slot20).toNat = a.toNat / 2 ^ 14 % 2 ^ 7 * 2 ^ 14 + a.toNat % 2 ^ 7 := by
  have hsplit : a.toNat = a.toNat / 2 ^ 14 * 2 ^ 14 + a.toNat % 2 ^ 14 := by omega
  have hslot : slot20.toNat = (2 ^ 7 - 1) * 2 ^ 14 + (2 ^ 7 - 1) := rfl
  rw [UInt32.toNat_and, hslot, hsplit, and_slot _ _ (Nat.mod_lt _ (by decide)) (by decide),
    Nat.and_two_pow_sub_one_eq_mod, Nat.and_two_pow_sub_one_eq_mod]
  omega

theorem toNat_and_slot420 (a : UInt32) :
    (a &&& slot420).toNat =
      a.toNat / 2 ^ 28 * 2 ^ 28 + a.toNat / 2 ^ 14 % 2 ^ 7 * 2 ^ 14 + a.toNat % 2 ^ 7 := by
  have hlt := a.toNat_lt
  have hsplit : a.toNat =
      (a.toNat / 2 ^ 28 * 2 ^ 14 + a.toNat / 2 ^ 14 % 2 ^ 14) * 2 ^ 14 + a.toNat % 2 ^ 14 := by
    omega
  have hslot : slot420.toNat = ((2 ^ 4 - 1) * 2 ^ 14 + (2 ^ 7 - 1)) * 2 ^ 14 + (2 ^ 7 - 1) := rfl
  rw [UInt32.toNat_and, hslot, hsplit, and_slot _ _ (Nat.mod_lt _ (by decide)) (by decide),
    and_slot _ _ (Nat.mod_lt _ (by decide)) (by decide), Nat.and_two_pow_sub_one_eq_mod,
    Nat.and_two_pow_sub_one_eq_mod, Nat.and_two_pow_sub_one_eq_mod]
  omega

theorem toNat_and_0x7f (a : UInt32) : (a &&& 0x7f).toNat = a.toNat % 128 := by
  have h : (0x7f : UInt32).toNat = 2 ^ 7 - 1 := rfl
  rw [UInt32.toNat_and, h, Nat.and_two_pow_sub_one_eq_mod]

/-- The flag of the byte that was read last. -/
theorem and_0x80_eq_zero (a : UInt32) : a &&& 0x80 = 0 ↔ a.toNat % 256 < 128 := by
  have hsplit : a.toNat = a.toNat / 2 ^ 7 * 2 ^ 7 + a.toNat % 2 ^ 7 := by omega
  have hflag : (0x80 : UInt32).toNat = 1 * 2 ^ 7 + 0 := rfl
  rw [← UInt32.toNat_inj, UInt32.toNat_and, hflag, hsplit,
    and_slot _ _ (Nat.mod_lt _ (by decide)) (by decide), Nat.and_one_is_mod, Nat.and_zero,
    UInt32.toNat_zero]
  omega

theorem toNat_shiftLeft (a i : UInt32) (k : Nat) (hi : i.toNat = k) (hk : k < 32) :
    (a <<< i).toNat = a.toNat % 2 ^ (32 - k) * 2 ^ k := by
  have hpow : 2 ^ 32 = 2 ^ (32 - k) * 2 ^ k := by
    rw [← Nat.pow_add, Nat.sub_add_cancel (Nat.le_of_lt hk)]
  rw [UInt32.toNat_shiftLeft, hi, Nat.mod_eq_of_lt hk, Nat.shiftLeft_eq, hpow,
    Nat.mul_mod_mul_right]

theorem toNat_shiftLeft_or (a i : UInt32) {b : UInt32} (k : Nat) (hi : i.toNat = k) (hk : k < 32)
    (hb : b.toNat < 2 ^ k) :
    (a <<< i ||| b).toNat = a.toNat % 2 ^ (32 - k) * 2 ^ k + b.toNat := by
  rw [UInt32.toNat_or, toNat_shiftLeft a i k hi hk, or_high _ hb]

/-- The next byte behind a word that is shifted by fourteen bits. -/
theorem toNat_nextByte (a : UInt32) (p : UInt8) :
    (a <<< 14 ||| p.toUInt32).toNat = a.toNat % 2 ^ 18 * 2 ^ 14 + p.toNat := by
  have hp : p.toUInt32.toNat < 2 ^ 14 := by
    have := p.toNat_lt
    rw [UInt8.toNat_toUInt32]
    omega
  rw [toNat_shiftLeft_or a 14 14 rfl (by decide) hp, UInt8.toNat_toUInt32]

theorem toNat_or_interleaved {c d : UInt32} (i x y z u w : Nat)
    (hc : c.toNat = ((x * 2 ^ 14 + y) * 2 ^ 7) * 2 ^ i + z)
    (hd : d.toNat = (u * 2 ^ 14 + w) * 2 ^ i) (hz : z < 2 ^ i) (hy : y < 2 ^ 7) (hu : u < 2 ^ 7)
    (hw : w < 2 ^ 7) :
    (c ||| d).toNat = (((x * 2 ^ 7 + u) * 2 ^ 7 + y) * 2 ^ 7 + w) * 2 ^ i + z := by
  rw [UInt32.toNat_or, hc, hd, or_interleaved x hy hz hu hw]

theorem toNat_shiftRight (s i : UInt32) (k : Nat) (hi : i.toNat = k) (hk : k < 32) :
    (s >>> i).toNat = s.toNat / 2 ^ k := by
  rw [UInt32.toNat_shiftRight, hi, Nat.mod_eq_of_lt hk, Nat.shiftRight_eq_div_pow]

theorem toNat_joinWords (s a : UInt32) : (joinWords s a).toNat = s.toNat * 2 ^ 32 + a.toNat := by
  have hs := s.toNat_lt
  rw [joinWords, UInt64.toNat_or, UInt64.toNat_shiftLeft, UInt32.toNat_toUInt64,
    UInt32.toNat_toUInt64]
  have h32 : (32 : UInt64).toNat % 64 = 32 := rfl
  rw [h32, Nat.shiftLeft_eq, Nat.mod_eq_of_lt (by omega), or_high _ a.toNat_lt]

/-! ## The optimised reader -/

/-- A value as the reader stores it. -/
def stored (r : Nat × Nat) : UInt64 × Nat := (UInt64.ofNat r.1, r.2)

theorem stored_of_toNat {w : UInt64} {v : Nat} (h : w.toNat = v) (n : Nat) :
    (w, n) = stored (v, n) := by
  rw [stored, ← h, UInt64.ofNat_toNat]

section

variable {p0 p1 p2 p3 p4 p5 p6 p7 : UInt8} {a b s : UInt32} {v : Nat}

theorem getVarint9_eq (ha : a.toNat = p4.toNat % 128 * 2 ^ 14 + p6.toNat % 128)
    (hb : b.toNat = p3.toNat % 16 * 2 ^ 28 + p5.toNat * 2 ^ 14 + p7.toNat)
    (hs : s.toNat < 2 ^ 28)
    (hv : v = s.toNat * 2 ^ 28 + p4.toNat % 128 * 2 ^ 21 + p5.toNat % 128 * 2 ^ 14 +
      p6.toNat % 128 * 2 ^ 7 + p7.toNat % 128) (p : List UInt8) :
    getVarint9 a b s p4 p = (readVarint 8 v p).map stored := by
  cases p with
  | nil => rfl
  | cons p8 p =>
    have hp5 := p5.toNat_lt
    have hp7 := p7.toNat_lt
    have hp8 : p8.toUInt32.toNat < 2 ^ 8 := by
      rw [UInt8.toNat_toUInt32]
      exact p8.toNat_lt
    have ha' := toNat_shiftLeft_or a 15 15 rfl (by decide) (Nat.lt_trans hp8 (by decide))
    have hb' := toNat_shiftLeft (b &&& slot20) 8 8 rfl (by decide)
    rw [toNat_and_slot20] at hb'
    have hlow := toNat_or_interleaved 8 (p4.toNat % 8) (p6.toNat % 128) p8.toUInt32.toNat
      (p5.toNat % 128) (p7.toNat % 128) (by rw [ha']; omega) (by rw [hb']; omega) hp8
      (by omega) (by omega) (by omega)
    have hp4 : ((p4.toUInt32 &&& 0x7f) >>> 3).toNat = p4.toNat % 128 / 2 ^ 3 := by
      rw [toNat_shiftRight _ 3 3 rfl (by decide), toNat_and_0x7f, UInt8.toNat_toUInt32]
    have hhigh : (s <<< 4 ||| (p4.toUInt32 &&& 0x7f) >>> 3).toNat =
        s.toNat * 2 ^ 4 + p4.toNat % 128 / 8 := by
      rw [toNat_shiftLeft_or s 4 4 rfl (by decide) (by omega), hp4]
      omega
    rw [readVarint, if_pos rfl, Option.map_some, getVarint9]
    refine congrArg some (stored_of_toNat ?_ 9)
    rw [toNat_joinWords, hlow, hhigh, UInt8.toNat_toUInt32, hv]
    omega

theorem getVarint8_eq {r : Nat} (ha : a.toNat = p4.toNat % 128 * 2 ^ 14 + p6.toNat % 128)
    (hb : b.toNat = p1.toNat % 16 * 2 ^ 28 + p3.toNat % 128 * 2 ^ 14 + p5.toNat)
    (hs : s.toNat = r * 2 ^ 7 + p3.toNat % 128) (hr : r < 2 ^ 21)
    (hv : v = s.toNat * 2 ^ 21 + p4.toNat % 128 * 2 ^ 14 + p5.toNat % 128 * 2 ^ 7 +
      p6.toNat % 128) (p : List UInt8) :
    getVarint8 a b s p4 p = (readVarint 7 v p).map stored := by
  cases p with
  | nil => rfl
  | cons p7 p =>
    have hp5 := p5.toNat_lt
    have hp7 := p7.toNat_lt
    have hb' : (b <<< 14 ||| p7.toUInt32).toNat =
        p3.toNat % 16 * 2 ^ 28 + p5.toNat * 2 ^ 14 + p7.toNat := by
      rw [toNat_nextByte]
      omega
    rw [readVarint, if_neg (by decide), getVarint8]
    simp only [and_0x80_eq_zero, hb']
    by_cases hlast : p7.toNat < 128
    · have hlow := toNat_or_interleaved 7 (p3.toNat % 16) (p5.toNat % 128) p7.toNat
        (p4.toNat % 128) (p6.toNat % 128)
        (by rw [toNat_and_slot420, hb']; omega)
        (by rw [toNat_shiftLeft a 7 7 rfl (by decide)]; omega)
        (by omega) (by omega) (by omega) (by omega)
      rw [if_pos (by omega), if_pos hlast, Option.map_some, UInt32.or_comm]
      refine congrArg some (stored_of_toNat ?_ 8)
      rw [toNat_joinWords, hlow, toNat_shiftRight s 4 4 rfl (by decide), hv]
      omega
    · rw [if_neg (by omega), if_neg hlast]
      exact getVarint9_eq ha hb' (by omega) (by omega) p

theorem getVarint7_eq {r : Nat}
    (ha : a.toNat = p0.toNat % 16 * 2 ^ 28 + p2.toNat % 128 * 2 ^ 14 + p4.toNat)
    (hb : b.toNat = p1.toNat % 16 * 2 ^ 28 + p3.toNat % 128 * 2 ^ 14 + p5.toNat)
    (hs : s.toNat = r * 2 ^ 14 + p2.toNat % 128 * 2 ^ 7 + p3.toNat % 128) (hr : r < 2 ^ 14)
    (hv : v = s.toNat * 2 ^ 14 + p4.toNat % 128 * 2 ^ 7 + p5.toNat % 128) (p : List UInt8) :
    getVarint7 a b s p4 p = (readVarint 6 v p).map stored := by
  cases p with
  | nil => rfl
  | cons p6 p =>
    have hp4 := p4.toNat_lt
    have hp5 := p5.toNat_lt
    have hp6 := p6.toNat_lt
    have ha' : (a <<< 14 ||| p6.toUInt32).toNat =
        p2.toNat % 16 * 2 ^ 28 + p4.toNat * 2 ^ 14 + p6.toNat := by
      rw [toNat_nextByte]
      omega
    rw [readVarint, if_neg (by decide), getVarint7]
    simp only [and_0x80_eq_zero, ha']
    by_cases hlast : p6.toNat < 128
    · have hlow := toNat_or_interleaved 7 (p2.toNat % 16) (p4.toNat % 128) p6.toNat
        (p3.toNat % 128) (p5.toNat % 128)
        (by rw [toNat_and_slot420, ha']; omega)
        (by rw [toNat_shiftLeft (b &&& slot20) 7 7 rfl (by decide), toNat_and_slot20]; omega)
        (by omega) (by omega) (by omega) (by omega)
      rw [if_pos (by omega), if_pos hlast, Option.map_some]
      refine congrArg some (stored_of_toNat ?_ 7)
      rw [toNat_joinWords, hlow, toNat_shiftRight s 11 11 rfl (by decide), hv]
      omega
    · have hmasked : ((a <<< 14 ||| p6.toUInt32) &&& slot20).toNat =
          p4.toNat % 128 * 2 ^ 14 + p6.toNat % 128 := by
        rw [toNat_and_slot20, ha']
        omega
      rw [if_neg (by omega), if_neg hlast]
      exact getVarint8_eq (r := r * 2 ^ 7 + p2.toNat % 128) hmasked hb (by omega) (by omega)
        (by omega) p

theorem getVarint6_eq
    (ha : a.toNat = p0.toNat % 16 * 2 ^ 28 + p2.toNat % 128 * 2 ^ 14 + p4.toNat)
    (hb : b.toNat = p1.toNat % 128 * 2 ^ 14 + p3.toNat % 128)
    (hs : s.toNat = (p0.toNat % 128 * 2 ^ 7 + p1.toNat % 128) * 2 ^ 14 +
      p2.toNat % 128 * 2 ^ 7 + p3.toNat % 128)
    (hv : v = s.toNat * 2 ^ 7 + p4.toNat % 128) (p : List UInt8) :
    getVarint6 a b s p4 p = (readVarint 5 v p).map stored := by
  cases p with
  | nil => rfl
  | cons p5 p =>
    have hp4 := p4.toNat_lt
    have hp5 := p5.toNat_lt
    have hb' : (b <<< 14 ||| p5.toUInt32).toNat =
        p1.toNat % 16 * 2 ^ 28 + p3.toNat % 128 * 2 ^ 14 + p5.toNat := by
      rw [toNat_nextByte]
      omega
    rw [readVarint, if_neg (by decide), getVarint6]
    simp only [and_0x80_eq_zero, hb']
    by_cases hlast : p5.toNat < 128
    · have hlow := toNat_or_interleaved 7 (p1.toNat % 16) (p3.toNat % 128) p5.toNat
        (p2.toNat % 128) (p4.toNat % 128) (by rw [hb']; omega)
        (by rw [toNat_shiftLeft (a &&& slot20) 7 7 rfl (by decide), toNat_and_slot20]; omega)
        (by omega) (by omega) (by omega) (by omega)
      rw [if_pos (by omega), if_pos hlast, Option.map_some, UInt32.or_comm]
      refine congrArg some (stored_of_toNat ?_ 6)
      rw [toNat_joinWords, hlow, toNat_shiftRight s 18 18 rfl (by decide), hv]
      omega
    · rw [if_neg (by omega), if_neg hlast]
      exact getVarint7_eq ha hb' hs (by omega) (by omega) p

theorem getVarint5_eq (ha : a.toNat = p0.toNat % 128 * 2 ^ 14 + p2.toNat % 128)
    (hb : b.toNat = p1.toNat % 128 * 2 ^ 14 + p3.toNat % 128)
    (hv : v = p0.toNat % 128 * 2 ^ 21 + p1.toNat % 128 * 2 ^ 14 + p2.toNat % 128 * 2 ^ 7 +
      p3.toNat % 128) (p : List UInt8) :
    getVarint5 a b p = (readVarint 4 v p).map stored := by
  cases p with
  | nil => rfl
  | cons p4 p =>
    have hp4 := p4.toNat_lt
    have ha' : (a <<< 14 ||| p4.toUInt32).toNat =
        p0.toNat % 16 * 2 ^ 28 + p2.toNat % 128 * 2 ^ 14 + p4.toNat := by
      rw [toNat_nextByte]
      omega
    rw [readVarint, if_neg (by decide), getVarint5]
    simp only [and_0x80_eq_zero, ha']
    by_cases hlast : p4.toNat < 128
    · have hlow := toNat_or_interleaved 7 (p0.toNat % 16) (p2.toNat % 128) p4.toNat
        (p1.toNat % 128) (p3.toNat % 128) (by rw [ha']; omega)
        (by rw [toNat_shiftLeft b 7 7 rfl (by decide)]; omega)
        (by omega) (by omega) (by omega) (by omega)
      rw [if_pos (by omega), if_pos hlast, Option.map_some]
      refine congrArg some (stored_of_toNat ?_ 5)
      rw [toNat_joinWords, hlow, toNat_shiftRight a 18 18 rfl (by decide), hv]
      omega
    · have hs := toNat_or_interleaved 0 (p0.toNat % 128) (p2.toNat % 128) 0 (p1.toNat % 128)
        (p3.toNat % 128) (by rw [toNat_shiftLeft a 7 7 rfl (by decide)]; omega)
        (by rw [hb]; omega) (by omega) (by omega) (by omega) (by omega)
      rw [if_neg (by omega), if_neg hlast]
      exact getVarint6_eq ha' hb (by rw [hs]; omega) (by rw [hs]; omega) p

theorem getVarint4_eq (ha : a.toNat = p0.toNat % 128 * 2 ^ 14 + p2.toNat % 128)
    (hb : b.toNat = p1.toNat)
    (hv : v = p0.toNat % 128 * 2 ^ 14 + p1.toNat % 128 * 2 ^ 7 + p2.toNat % 128)
    (p : List UInt8) :
    getVarint4 a b p = (readVarint 3 v p).map stored := by
  cases p with
  | nil => rfl
  | cons p3 p =>
    have hp1 := p1.toNat_lt
    have hp3 := p3.toNat_lt
    have hb' : (b <<< 14 ||| p3.toUInt32).toNat = p1.toNat * 2 ^ 14 + p3.toNat := by
      rw [toNat_nextByte]
      omega
    rw [readVarint, if_neg (by decide), getVarint4]
    simp only [and_0x80_eq_zero, hb']
    by_cases hlast : p3.toNat < 128
    · have hlow := toNat_or_interleaved 0 (p0.toNat % 128) (p2.toNat % 128) 0 (p1.toNat % 128)
        p3.toNat (by rw [toNat_shiftLeft a 7 7 rfl (by decide)]; omega)
        (by rw [toNat_and_slot20, hb']; omega) (by omega) (by omega) (by omega) (by omega)
      rw [if_pos (by omega), if_pos hlast, Option.map_some]
      refine congrArg some (stored_of_toNat ?_ 4)
      rw [UInt32.toNat_toUInt64, hlow, hv]
      omega
    · have hmasked : ((b <<< 14 ||| p3.toUInt32) &&& slot20).toNat =
          p1.toNat % 128 * 2 ^ 14 + p3.toNat % 128 := by
        rw [toNat_and_slot20, hb']
        omega
      rw [if_neg (by omega), if_neg hlast]
      exact getVarint5_eq ha hmasked (by omega) p

theorem getVarint3_eq (ha : a.toNat = p0.toNat) (hb : b.toNat = p1.toNat)
    (hv : v = p0.toNat % 128 * 2 ^ 7 + p1.toNat % 128) (p : List UInt8) :
    getVarint3 a b p = (readVarint 2 v p).map stored := by
  cases p with
  | nil => rfl
  | cons p2 p =>
    have hp0 := p0.toNat_lt
    have hp2 := p2.toNat_lt
    have ha' : (a <<< 14 ||| p2.toUInt32).toNat = p0.toNat * 2 ^ 14 + p2.toNat := by
      rw [toNat_nextByte]
      omega
    rw [readVarint, if_neg (by decide), getVarint3]
    simp only [and_0x80_eq_zero, ha']
    by_cases hlast : p2.toNat < 128
    · have hlow := toNat_or_interleaved 7 0 (p0.toNat % 128) p2.toNat 0 (p1.toNat % 128)
        (by rw [toNat_and_slot20, ha']; omega)
        (by rw [toNat_shiftLeft (b &&& 0x7f) 7 7 rfl (by decide), toNat_and_0x7f]; omega)
        (by omega) (by omega) (by omega) (by omega)
      rw [if_pos (by omega), if_pos hlast, Option.map_some]
      refine congrArg some (stored_of_toNat ?_ 3)
      rw [UInt32.toNat_toUInt64, hlow, hv]
      omega
    · have hmasked : ((a <<< 14 ||| p2.toUInt32) &&& slot20).toNat =
          p0.toNat % 128 * 2 ^ 14 + p2.toNat % 128 := by
        rw [toNat_and_slot20, ha']
        omega
      rw [if_neg (by omega), if_neg hlast]
      exact getVarint4_eq hmasked hb (by omega) p

end

/-- The reader finds the integer that the format says, however many bytes it takes. -/
theorem sqlite3GetVarint_eq (p : List UInt8) :
    sqlite3GetVarint p = (readVarint 0 0 p).map stored := by
  cases p with
  | nil => rfl
  | cons p0 p =>
    have hp0 := p0.toNat_lt
    rw [readVarint, if_neg (by decide)]
    simp only [sqlite3GetVarint, and_0x80_eq_zero, UInt8.toNat_toUInt32]
    by_cases hfirst : p0.toNat < 128
    · rw [if_pos (by omega), if_pos hfirst, Option.map_some]
      refine congrArg some (stored_of_toNat ?_ 1)
      rw [UInt32.toNat_toUInt64, UInt8.toNat_toUInt32]
      omega
    rw [if_neg (by omega), if_neg hfirst]
    cases p with
    | nil => rfl
    | cons p1 p =>
      have hp1 := p1.toNat_lt
      rw [readVarint, if_neg (by decide)]
      dsimp only
      by_cases hlast : p1.toNat < 128
      · rw [if_pos (by omega), if_pos hlast, Option.map_some]
        refine congrArg some (stored_of_toNat ?_ 2)
        rw [UInt32.toNat_toUInt64, UInt32.toNat_or, toNat_shiftLeft _ 7 7 rfl (by decide),
          toNat_and_0x7f, UInt8.toNat_toUInt32, UInt8.toNat_toUInt32, or_high _ hlast]
        omega
      · rw [if_neg (by omega), if_neg hlast]
        exact getVarint3_eq (UInt8.toNat_toUInt32 p0) (UInt8.toNat_toUInt32 p1) (by omega) p

/-- What the macro reads: the same integer, or the largest word if it is larger. -/
def saturated (r : Nat × Nat) : UInt32 × Nat := (UInt32.ofNat (min r.1 0xffffffff), r.2)

theorem and_max_ne {v : UInt64} : v &&& 0xffffffff ≠ v ↔ 2 ^ 32 ≤ v.toNat := by
  have h : (0xffffffff : UInt64).toNat = 2 ^ 32 - 1 := rfl
  rw [ne_eq, ← UInt64.toNat_inj, UInt64.toNat_and, h, Nat.and_two_pow_sub_one_eq_mod]
  omega

/-- No integer of the format takes more than 64 bits. -/
theorem readVarint_lt (p : List UInt8) : ∀ {n v w k : Nat}, n ≤ 8 → v < 128 ^ n →
    readVarint n v p = some (w, k) → w < 2 ^ 64 := by
  induction p with
  | nil =>
    intro n v w k _ _ h
    cases h
  | cons b p ih =>
    intro n v w k hn hv h
    have hb := b.toNat_lt
    have hpow : 128 ^ n ≤ 2 ^ 56 := Nat.le_trans (Nat.pow_le_pow_right (by decide) hn) (by decide)
    rw [readVarint] at h
    split at h
    · cases h
      omega
    · split at h
      · cases h
        omega
      · exact ih (by omega) (by rw [Nat.pow_succ]; omega) h

theorem saturated_of_toNat {w : UInt32} {v : Nat} (h : w.toNat = v) (n : Nat) :
    (w, n) = saturated (v, n) := by
  have hlt := w.toNat_lt
  rw [saturated, Nat.min_eq_left (by omega), ← h, UInt32.ofNat_toNat]

theorem saturated_of_stored {v : Nat} (hv : v < 2 ^ 64) (n : Nat) :
    (if (stored (v, n)).1 &&& 0xffffffff ≠ (stored (v, n)).1 then 0xffffffff
      else (stored (v, n)).1.toUInt32, (stored (v, n)).2) = saturated (v, n) := by
  have hstored : (stored (v, n)).1.toNat = v := UInt64.toNat_ofNat_of_lt hv
  refine Prod.ext ?_ rfl
  simp only [and_max_ne, hstored]
  split
  · rw [saturated, Nat.min_eq_right (by omega)]
    rfl
  · apply UInt32.toNat_inj.mp
    rw [saturated, Nat.min_eq_left (by omega), UInt64.toNat_toUInt32, hstored]
    exact UInt32.toNat_ofNat'.symm

theorem getVarint32_eq (p : List UInt8) :
    getVarint32 p = (readVarint 0 0 p).map saturated := by
  have hlong : ((sqlite3GetVarint p).map fun r =>
      (if r.1 &&& 0xffffffff ≠ r.1 then 0xffffffff else r.1.toUInt32, r.2)) =
      (readVarint 0 0 p).map saturated := by
    rw [sqlite3GetVarint_eq, Option.map_map]
    cases hread : readVarint 0 0 p with
    | none => rfl
    | some r =>
      exact congrArg some
        (saturated_of_stored (readVarint_lt p (Nat.zero_le 8) (by decide) hread) r.2)
  cases p with
  | nil => rfl
  | cons p0 p =>
    have hp0 := p0.toNat_lt
    have hfirst : p0 < 0x80 ↔ p0.toNat < 128 := UInt8.lt_iff_toNat_lt
    simp only [getVarint32, hfirst, and_0x80_eq_zero, UInt8.toNat_toUInt32]
    by_cases h0 : p0.toNat < 128
    · rw [if_pos h0, readVarint, if_neg (by decide), if_pos h0, Option.map_some]
      refine congrArg some (saturated_of_toNat ?_ 1)
      rw [UInt8.toNat_toUInt32]
      omega
    rw [if_neg h0]
    cases p with
    | nil => rw [readVarint, if_neg (by decide), if_neg h0]; rfl
    | cons p1 p =>
      have hp1 := p1.toNat_lt
      dsimp only
      by_cases h1 : p1.toNat < 128
      · rw [if_pos (by omega), readVarint, if_neg (by decide), if_neg h0, readVarint,
          if_neg (by decide), if_pos h1, Option.map_some]
        refine congrArg some (saturated_of_toNat ?_ 2)
        rw [UInt32.toNat_or, toNat_shiftLeft (p0.toUInt32 &&& 0x7f) 7 7 rfl (by decide),
          toNat_and_0x7f, UInt8.toNat_toUInt32, UInt8.toNat_toUInt32, or_high _ h1]
        omega
      rw [if_neg (by omega)]
      cases p with
      | nil =>
        rw [readVarint, if_neg (by decide), if_neg h0, readVarint, if_neg (by decide), if_neg h1]
        rfl
      | cons p2 p =>
        have hp2 := p2.toNat_lt
        have ha : (p0.toUInt32 <<< 14 ||| p2.toUInt32).toNat = p0.toNat * 2 ^ 14 + p2.toNat := by
          rw [toNat_nextByte, UInt8.toNat_toUInt32]
          omega
        dsimp only
        rw [ha]
        by_cases h2 : p2.toNat < 128
        · have hslot : (0x7f : UInt32) <<< 14 ||| 0x7f = slot20 := rfl
          have hlow := toNat_or_interleaved 7 0 (p0.toNat % 128) p2.toNat 0 (p1.toNat % 128)
            (by rw [toNat_and_slot20, ha]; omega)
            (by rw [toNat_shiftLeft (p1.toUInt32 &&& 0x7f) 7 7 rfl (by decide), toNat_and_0x7f,
              UInt8.toNat_toUInt32]; omega)
            (by omega) (by omega) (by omega) (by omega)
          rw [if_pos (by omega), readVarint, if_neg (by decide), if_neg h0, readVarint,
            if_neg (by decide), if_neg h1, readVarint, if_neg (by decide), if_pos h2,
            Option.map_some, hslot]
          refine congrArg some (saturated_of_toNat ?_ 3)
          exact hlow.trans (by omega)
        · rw [if_neg (by omega)]
          exact hlong

/-! ## The writer writes what the reader reads -/

theorem toNat_flagged (v : UInt64) :
    ((v &&& 0x7f ||| 0x80).toUInt8).toNat = v.toNat % 128 + 128 := by
  have h7f : (0x7f : UInt64).toNat = 2 ^ 7 - 1 := rfl
  have h80 : (0x80 : UInt64).toNat = 1 * 2 ^ 7 := rfl
  rw [UInt64.toNat_toUInt8, UInt64.toNat_or, UInt64.toNat_and, h7f, h80,
    Nat.and_two_pow_sub_one_eq_mod, Nat.or_comm, or_high 1 (Nat.mod_lt _ (by decide))]
  omega

theorem toNat_unflagged (v : UInt64) : ((v &&& 0x7f).toUInt8).toNat = v.toNat % 128 := by
  have h7f : (0x7f : UInt64).toNat = 2 ^ 7 - 1 := rfl
  rw [UInt64.toNat_toUInt8, UInt64.toNat_and, h7f, Nat.and_two_pow_sub_one_eq_mod]
  omega

theorem readVarint_flagged {n : Nat} (hn : n < 8) (v : Nat) (w : UInt64) (p : List UInt8) :
    readVarint n v ((w &&& 0x7f ||| 0x80).toUInt8 :: p) =
      readVarint (n + 1) (v * 128 + w.toNat % 128) p := by
  rw [readVarint, if_neg (by omega), toNat_flagged, if_neg (by omega)]
  congr 1
  omega

theorem readVarint_last {n : Nat} (hn : n < 8) (v : Nat) {b : UInt8} (hb : b.toNat < 128)
    (p : List UInt8) : readVarint n v (b :: p) = some (v * 128 + b.toNat, n + 1) := by
  rw [readVarint, if_neg (by omega), if_pos hb]

theorem fillBuf_of_lt {v : UInt64} (h : v.toNat < 128) :
    fillBuf v = [(v &&& 0x7f ||| 0x80).toUInt8] := by
  rw [fillBuf, if_pos (shiftRight7_eq_zero.mpr h)]

theorem fillBuf_of_le {v : UInt64} (h : 128 ≤ v.toNat) :
    fillBuf v = (v &&& 0x7f ||| 0x80).toUInt8 :: fillBuf (v >>> 7) := by
  rw [fillBuf, if_neg (by rw [shiftRight7_eq_zero]; omega)]

theorem length_fillBuf_le {k : Nat} : ∀ {v : UInt64},
    (fillBuf v).length ≤ k + 1 ↔ v.toNat < 128 ^ (k + 1) := by
  induction k with
  | zero =>
    intro v
    by_cases h : v.toNat < 128
    · simp [fillBuf_of_lt h, h]
    · have hne : fillBuf (v >>> 7) ≠ [] := by
        rw [fillBuf]
        split <;> simp
      rw [fillBuf_of_le (by omega), List.length_cons]
      have := List.length_pos_iff.mpr hne
      omega
  | succ k ih =>
    intro v
    have hpos : 128 ≤ 128 ^ (k + 1) := Nat.le_self_pow (by omega) 128
    by_cases h : v.toNat < 128
    · rw [fillBuf_of_lt h, Nat.pow_succ, List.length_singleton]
      omega
    · rw [fillBuf_of_le (by omega), List.length_cons, Nat.add_le_add_iff_right, ih,
        toNat_shiftRight7, Nat.pow_succ 128 (k + 1)]
      omega

/-- The bytes of the buffer, the highest first, are all continued. -/
theorem readVarint_fillBuf (rest : List UInt8) (v : UInt64) : ∀ {n : Nat} (acc : Nat),
    n + (fillBuf v).length ≤ 8 →
    readVarint n acc ((fillBuf v).reverse ++ rest) =
      readVarint (n + (fillBuf v).length) (acc * 128 ^ (fillBuf v).length + v.toNat) rest := by
  induction v using fillBuf.induct generalizing rest with
  | case1 v h =>
    intro n acc hn
    have hlt := shiftRight7_eq_zero.mp h
    rw [fillBuf_of_lt hlt, List.length_singleton] at *
    rw [List.reverse_singleton, List.singleton_append, readVarint_flagged (by omega),
      Nat.mod_eq_of_lt hlt, Nat.pow_one]
  | case2 v h ih =>
    intro n acc hn
    have hle : 128 ≤ v.toNat := Nat.le_of_not_lt fun hlt => h (shiftRight7_eq_zero.mpr hlt)
    rw [fillBuf_of_le hle, List.length_cons] at *
    rw [List.reverse_cons, List.append_assoc, ih _ acc (by omega), List.singleton_append,
      readVarint_flagged (by omega), toNat_shiftRight7, Nat.pow_succ, ← Nat.mul_assoc,
      Nat.add_assoc n]
    congr 1
    omega

theorem readVarint_fillDown (i : Nat) : ∀ (v : UInt64) (rest : List UInt8) {n : Nat} (acc : Nat),
    n + i ≤ 8 → readVarint n acc (fillDown i v rest) =
      readVarint (n + i) (acc * 128 ^ i + v.toNat % 128 ^ i) rest := by
  induction i with
  | zero =>
    intro v rest n acc _
    rw [fillDown, Nat.pow_zero, Nat.mod_one, Nat.mul_one]
    rfl
  | succ i ih =>
    intro v rest n acc hn
    have hmod : v.toNat % 128 ^ (i + 1) = v.toNat / 128 % 128 ^ i * 128 + v.toNat % 128 := by
      rw [Nat.pow_succ, Nat.mul_comm, Nat.mod_mul, Nat.mul_comm 128, Nat.add_comm]
    rw [fillDown, ih _ _ acc (by omega), readVarint_flagged (by omega), toNat_shiftRight7, hmod,
      Nat.pow_succ, ← Nat.mul_assoc, Nat.add_assoc n]
    congr 1
    omega

theorem length_fillDown (i : Nat) : ∀ (v : UInt64) (rest : List UInt8),
    (fillDown i v rest).length = i + rest.length := by
  induction i with
  | zero => exact fun v rest => (Nat.zero_add _).symm
  | succ i ih =>
    intro v rest
    rw [fillDown, ih, List.length_cons]
    omega

theorem and_high_byte (v : UInt64) :
    v &&& ((0xff000000 : UInt64) <<< 32) ≠ 0 ↔ 2 ^ 56 ≤ v.toNat := by
  have hv := v.toNat_lt
  have hmask : ((0xff000000 : UInt64) <<< 32).toNat = (2 ^ 8 - 1) * 2 ^ 56 + 0 := rfl
  have hsplit : v.toNat = v.toNat / 2 ^ 56 * 2 ^ 56 + v.toNat % 2 ^ 56 := by omega
  rw [ne_eq, ← UInt64.toNat_inj, UInt64.toNat_and, hmask, hsplit,
    and_slot _ _ (Nat.mod_lt _ (by decide)) (by decide), Nat.and_two_pow_sub_one_eq_mod,
    Nat.and_zero, UInt64.toNat_zero]
  omega

theorem modifyHead_and_0x7f (v : UInt64) : ∃ tail,
    ((fillBuf v).modifyHead (· &&& 0x7f)).reverse = tail ++ [(v &&& 0x7f).toUInt8] ∧
      tail.length + 1 = (fillBuf v).length ∧
      ∀ (rest : List UInt8) {n : Nat} (acc : Nat), n + tail.length ≤ 8 →
        readVarint n acc (tail ++ rest) =
          readVarint (n + tail.length) (acc * 128 ^ tail.length + v.toNat / 128) rest := by
  have hbyte : (v &&& 0x7f ||| 0x80).toUInt8 &&& 0x7f = (v &&& 0x7f).toUInt8 := by
    have h7f : (0x7f : UInt8).toNat = 2 ^ 7 - 1 := rfl
    apply UInt8.toNat_inj.mp
    rw [UInt8.toNat_and, toNat_flagged, toNat_unflagged, h7f, Nat.and_two_pow_sub_one_eq_mod]
    omega
  by_cases h : v.toNat < 128
  · refine ⟨[], ?_, ?_, fun rest n acc _ => ?_⟩
    · rw [fillBuf_of_lt h, List.modifyHead_cons, hbyte]
      rfl
    · rw [fillBuf_of_lt h]
      rfl
    · rw [Nat.div_eq_of_lt h]
      simp
  · refine ⟨(fillBuf (v >>> 7)).reverse, ?_, ?_, fun rest n acc hn => ?_⟩
    · rw [fillBuf_of_le (by omega), List.modifyHead_cons, hbyte, List.reverse_cons]
    · rw [List.length_reverse, fillBuf_of_le (v := v) (by omega), List.length_cons]
    · rw [List.length_reverse] at hn ⊢
      rw [readVarint_fillBuf rest _ acc hn, toNat_shiftRight7]

theorem fillDown_append (i : Nat) : ∀ (v : UInt64) (bytes rest : List UInt8),
    fillDown i v bytes ++ rest = fillDown i v (bytes ++ rest) := by
  induction i with
  | zero => exact fun _ _ _ => rfl
  | succ i ih => exact fun v bytes rest => ih _ _ rest

theorem readVarint_putVarint64 (v : UInt64) (rest : List UInt8) :
    readVarint 0 0 (putVarint64 v ++ rest) = some (v.toNat, (putVarint64 v).length) := by
  have hv := v.toNat_lt
  rw [putVarint64]
  by_cases h : 2 ^ 56 ≤ v.toNat
  · have hshift : (v >>> 8).toNat = v.toNat / 256 := by
      rw [UInt64.toNat_shiftRight, Nat.shiftRight_eq_div_pow]
      rfl
    rw [if_pos ((and_high_byte v).mpr h), fillDown_append, length_fillDown, List.singleton_append,
      readVarint_fillDown 8 _ _ 0 le_rfl, readVarint, if_pos rfl, hshift, UInt64.toNat_toUInt8,
      Nat.mod_eq_of_lt (by omega)]
    simp only [List.length_singleton, Option.some.injEq, Prod.mk.injEq, and_true]
    omega
  · obtain ⟨tail, heq, hlength, hread⟩ := modifyHead_and_0x7f v
    have hlen : (fillBuf v).length ≤ 8 := length_fillBuf_le.mpr (by omega)
    have hlast : (v &&& 0x7f).toUInt8.toNat < 128 := by
      rw [toNat_unflagged]
      omega
    rw [if_neg (by rw [and_high_byte]; omega), heq, List.append_assoc, hread _ 0 (by omega),
      List.singleton_append, readVarint_last (by omega) _ hlast, toNat_unflagged,
      List.length_append, List.length_singleton]
    simp only [Option.some.injEq, Prod.mk.injEq]
    omega

/-- What is written for an integer is read as that integer, whatever follows it. -/
theorem readVarint_put (v : UInt64) (rest : List UInt8) :
    readVarint 0 0 (sqlite3PutVarint v ++ rest) = some (v.toNat, (sqlite3PutVarint v).length) := by
  have hsmall : v ≤ 0x7f ↔ v.toNat ≤ 127 := UInt64.le_iff_toNat_le
  have hmedium : v ≤ 0x3fff ↔ v.toNat ≤ 16383 := UInt64.le_iff_toNat_le
  have hlast : (v &&& 0x7f).toUInt8.toNat < 128 := by
    rw [toNat_unflagged]
    omega
  rw [sqlite3PutVarint]
  by_cases h1 : v.toNat ≤ 127
  · rw [if_pos (hsmall.mpr h1), List.singleton_append, readVarint_last (by decide) _ hlast,
      toNat_unflagged]
    simp only [List.length_singleton, Option.some.injEq, Prod.mk.injEq, and_true]
    omega
  rw [if_neg (hsmall.not.mpr h1)]
  by_cases h2 : v.toNat ≤ 16383
  · rw [if_pos (hmedium.mpr h2), List.cons_append, readVarint_flagged (by decide),
      List.singleton_append, readVarint_last (by decide) _ hlast, toNat_unflagged,
      toNat_shiftRight7]
    simp only [List.length_cons, List.length_nil, Option.some.injEq, Prod.mk.injEq, and_true]
    omega
  · rw [if_neg (hmedium.not.mpr h2)]
    exact readVarint_putVarint64 v rest

theorem varintLenFrom_eq (v : UInt64) : ∀ i : Nat,
    varintLenFrom (i + 1) v = i + (fillBuf v).length := by
  induction v using fillBuf.induct with
  | case1 v h =>
    intro i
    rw [varintLenFrom, if_pos h, fillBuf, if_pos h, List.length_singleton]
  | case2 v h ih =>
    intro i
    have hle : 128 ≤ v.toNat := Nat.le_of_not_lt fun hlt => h (shiftRight7_eq_zero.mpr hlt)
    rw [varintLenFrom, if_neg h, ih, fillBuf_of_le hle, List.length_cons]
    omega

/-- The length counts a tenth byte for the integers of 64 bits, which the writer does not
write. -/
theorem sqlite3VarintLen_eq (v : UInt64) :
    sqlite3VarintLen v = (sqlite3PutVarint v).length ↔ v.toNat < 2 ^ 63 := by
  have hsmall : v ≤ 0x7f ↔ v.toNat ≤ 127 := UInt64.le_iff_toNat_le
  have hmedium : v ≤ 0x3fff ↔ v.toNat ≤ 16383 := UInt64.le_iff_toNat_le
  have h1 := length_fillBuf_le (k := 0) (v := v)
  have h2 := length_fillBuf_le (k := 1) (v := v)
  have h8 := length_fillBuf_le (k := 7) (v := v)
  have h9 := length_fillBuf_le (k := 8) (v := v)
  have hpos : 0 < (fillBuf v).length := by
    rw [fillBuf]
    split <;> simp
  simp only [sqlite3VarintLen, varintLenFrom_eq v 0, sqlite3PutVarint, Nat.zero_add, hsmall,
    hmedium, putVarint64, and_high_byte]
  split
  · rw [List.length_singleton]
    omega
  split
  · rw [List.length_cons, List.length_singleton]
    omega
  split
  · rw [length_fillDown, List.length_singleton]
    omega
  · rw [List.length_reverse, List.length_modifyHead]
    omega

theorem sqlite3GetVarint_put (v : UInt64) (rest : List UInt8) :
    sqlite3GetVarint (sqlite3PutVarint v ++ rest) = some (v, (sqlite3PutVarint v).length) := by
  rw [sqlite3GetVarint_eq, readVarint_put, Option.map_some, stored, UInt64.ofNat_toNat]

/-- The macro for words; a single byte it writes itself. -/
def putVarint32 (v : UInt32) : List UInt8 :=
  if v < 0x80 then [v.toUInt8] else sqlite3PutVarint v.toUInt64

theorem putVarint32_eq (v : UInt32) : putVarint32 v = sqlite3PutVarint v.toUInt64 := by
  have hv := v.toNat_lt
  have hlt : v < 0x80 ↔ v.toNat < 128 := UInt32.lt_iff_toNat_lt
  have hle : v.toUInt64 ≤ 0x7f ↔ v.toNat ≤ 127 := by
    rw [UInt64.le_iff_toNat_le, UInt32.toNat_toUInt64]
    rfl
  rw [putVarint32]
  split
  · rename_i h
    have hsmall := hlt.mp h
    have hbyte : v.toUInt8 = (v.toUInt64 &&& 0x7f).toUInt8 := by
      apply UInt8.toNat_inj.mp
      rw [toNat_unflagged, UInt32.toNat_toUInt64, UInt32.toNat_toUInt8]
      omega
    rw [sqlite3PutVarint, if_pos (hle.mpr (by omega)), hbyte]
  · rfl

theorem getVarint32_put (v : UInt32) (rest : List UInt8) :
    getVarint32 (putVarint32 v ++ rest) = some (v, (putVarint32 v).length) := by
  have hv := v.toNat_lt
  rw [putVarint32_eq, getVarint32_eq, readVarint_put, Option.map_some, saturated,
    UInt32.toNat_toUInt64, Nat.min_eq_left (by omega), UInt32.ofNat_toNat]

/-- The word-wise readers read what the format says, and what the writer wrote they read back,
with its length; only for integers of 64 bits is the computed length another. -/
theorem varints_read_as_written :
    (∀ p, sqlite3GetVarint p = (readVarint 0 0 p).map stored ∧
      getVarint32 p = (readVarint 0 0 p).map saturated) ∧
    ∀ v rest, sqlite3GetVarint (sqlite3PutVarint v ++ rest) =
        some (v, (sqlite3PutVarint v).length) ∧
      (sqlite3VarintLen v = (sqlite3PutVarint v).length ↔ v.toNat < 2 ^ 63) :=
  ⟨fun p => ⟨sqlite3GetVarint_eq p, getVarint32_eq p⟩,
    fun v rest => ⟨sqlite3GetVarint_put v rest, sqlite3VarintLen_eq v⟩⟩

end AlmondAndroid.Storage
