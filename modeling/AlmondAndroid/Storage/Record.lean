import AlmondAndroid.Storage.Varint

/-!
# Records

A row of a table is stored as one record: a header with the serial type of each value, then
the values. `OP_MakeRecord` applies the affinities of `P4` to the registers, sizes the fields
from the last to the first, writes the header and the values, and leaves out the zeros at the
end of the last blobs.
`sqlite3VdbeRecordUnpack` reads the record back.
-/

namespace AlmondAndroid.Storage

universe u

/-- The storage class of a memory cell, in the order in which its flags are tested. A real is
given by its bits. Of a blob `nZero` zeros are not stored; a cell without `MEM_Zero` has
none of these. -/
inductive Mem
  | null
  | int (i : Int64)
  | real (r : UInt64)
  | str (z : List UInt8)
  | blob (z : List UInt8) (nZero : Nat)
  deriving DecidableEq

namespace Mem

/-- `n`, without the zeros. -/
def n : Mem → Nat
  | str z => z.length
  | blob z _ => z.length
  | _ => 0

def nZero : Mem → Nat
  | blob _ nZero => nZero
  | _ => 0

/-- The union `u`, of an integer or a real. -/
def u : Mem → UInt64
  | int i => i.toUInt64
  | real r => r
  | _ => 0

def z : Mem → List UInt8
  | str z => z
  | blob z _ => z
  | _ => []

/-- `sqlite3VdbeMemExpandBlob`. -/
def expandBlob : Mem → Mem
  | blob z nZero => blob (z ++ List.replicate nZero 0) 0
  | m => m

end Mem

def max6Byte : UInt64 := ((0x00008000 : UInt64) <<< 32) - 1

def sqlite3VdbeSerialType (pMem : Mem) (fileFormat : Nat) : UInt32 :=
  match pMem with
  | .null => 0
  | .int i =>
      let u := if i < 0 then (~~~ i).toUInt64 else i.toUInt64
      if u ≤ 127 then if i &&& 1 = i ∧ 4 ≤ fileFormat then 8 + u.toUInt32 else 1
      else if u ≤ 32767 then 2
      else if u ≤ 8388607 then 3
      else if u ≤ 2147483647 then 4
      else if u ≤ max6Byte then 5
      else 6
  | .real _ => 7
  | .str z => UInt32.ofNat z.length * 2 + 12 + 1
  | .blob z nZero => (UInt32.ofNat z.length + UInt32.ofNat nZero) * 2 + 12

def sqlite3SmallTypeSizes : List Nat := [0, 1, 2, 3, 4, 6, 8, 8, 0, 0, 0, 0]

def sqlite3VdbeSerialTypeLen (serialType : UInt32) : Nat :=
  if 12 ≤ serialType then ((serialType - 12) / 2).toNat
  else sqlite3SmallTypeSizes.getD serialType.toNat 0

/-- `buf[i - 1]` down to `buf[0]`, in front of `rest`. -/
def putBytes : Nat → UInt64 → List UInt8 → List UInt8
  | 0, _, rest => rest
  | i + 1, v, rest => putBytes i (v >>> 8) ((v &&& 0xff).toUInt8 :: rest)

/-- What it writes to `buf`. -/
def sqlite3VdbeSerialPut (pMem : Mem) (serialType : UInt32) : List UInt8 :=
  if serialType ≤ 7 ∧ 0 < serialType then
    putBytes (sqlite3SmallTypeSizes.getD serialType.toNat 0) pMem.u []
  else if 12 ≤ serialType then pMem.z
  else []

/-- `(i8)x`, in the words of 32 bits in which the macros compute. -/
def i8 (x : UInt8) : UInt32 := x.toInt8.toInt32.toUInt32

def oneByteInt (x0 : UInt8) : Int64 := (i8 x0).toInt32.toInt64

def twoByteInt (x0 x1 : UInt8) : Int64 := ((256 : UInt32) * i8 x0 ||| x1.toUInt32).toInt32.toInt64

def threeByteInt (x0 x1 x2 : UInt8) : Int64 :=
  ((65536 : UInt32) * i8 x0 ||| x1.toUInt32 <<< 8 ||| x2.toUInt32).toInt32.toInt64

def fourByteUInt (x0 x1 x2 x3 : UInt8) : UInt32 :=
  x0.toUInt32 <<< 24 ||| x1.toUInt32 <<< 16 ||| x2.toUInt32 <<< 8 ||| x3.toUInt32

def fourByteInt (x0 x1 x2 x3 : UInt8) : Int64 :=
  ((16777216 : UInt32) * i8 x0 ||| x1.toUInt32 <<< 16 ||| x2.toUInt32 <<< 8 |||
    x3.toUInt32).toInt32.toInt64

/-- Whether the bits are those of a double that is not a number. -/
def sqlite3IsNaN (r : UInt64) : Bool := 0x7ff0000000000000 < (r &&& 0x7fffffffffffffff)

/-- The types of eight bytes. -/
def serialGet (serialType : UInt32) : List UInt8 → Option (Mem × Nat)
  | x0 :: x1 :: x2 :: x3 :: x4 :: x5 :: x6 :: x7 :: _ =>
      let x := ((fourByteUInt x0 x1 x2 x3).toUInt64 <<< 32) + (fourByteUInt x4 x5 x6 x7).toUInt64
      some (if serialType = 6 then .int x.toInt64
        else if sqlite3IsNaN x then .null else .real x, 8)
  | _ => none

/-- The cell, with how many bytes were read; `none` when there are not as many. -/
def sqlite3VdbeSerialGet (buf : List UInt8) (serialType : UInt32) : Option (Mem × Nat) :=
  match serialType.toNat, buf with
  | 0, _ => some (.null, 0)
  | 1, x0 :: _ => some (.int (oneByteInt x0), 1)
  | 2, x0 :: x1 :: _ => some (.int (twoByteInt x0 x1), 2)
  | 3, x0 :: x1 :: x2 :: _ => some (.int (threeByteInt x0 x1 x2), 3)
  | 4, x0 :: x1 :: x2 :: x3 :: _ => some (.int (fourByteInt x0 x1 x2 x3), 4)
  | 5, x0 :: x1 :: x2 :: x3 :: x4 :: x5 :: _ =>
      some (.int ((fourByteUInt x2 x3 x4 x5).toUInt64.toInt64 +
        ((1 : Int64) <<< 32) * twoByteInt x0 x1), 6)
  | 6, buf => serialGet serialType buf
  | 7, buf => serialGet serialType buf
  | 8, _ => some (.int 0, 0)
  | 9, _ => some (.int 1, 0)
  | 10, _ => some (.null, 0)
  | 11, _ => some (.null, 0)
  | m + 12, buf =>
      if m / 2 ≤ buf.length then
        some (if m % 2 = 0 then .blob (buf.take (m / 2)) 0 else .str (buf.take (m / 2)), m / 2)
      else none
  | _, _ => none

/-! ## `OP_MakeRecord` -/

/-- The space for the fields that were looked at, with their serial types. -/
structure Space where
  nData : Nat
  nHdr : Nat
  nZero : Nat
  fields : List (Mem × UInt32)

/-- One step of the first loop, at the field `pRec`. Zeros stay out only as long as there is
nothing behind them. -/
def addField (fileFormat : Nat) (pRec : Mem) (s : Space) : Space :=
  let serialType := sqlite3VdbeSerialType pRec fileFormat
  let len := sqlite3VdbeSerialTypeLen serialType
  let nHdr := s.nHdr + if serialType ≤ 127 then 1 else sqlite3VarintLen serialType.toUInt64
  if s.nData ≠ 0 then
    ⟨s.nData + len, nHdr, s.nZero, (pRec.expandBlob, serialType) :: s.fields⟩
  else
    ⟨s.nData + (len - pRec.nZero), nHdr, s.nZero + pRec.nZero, (pRec, serialType) :: s.fields⟩

/-- From the last field to the first. -/
def space (fileFormat : Nat) (fields : List Mem) : Space :=
  fields.foldr (addField fileFormat) ⟨0, 0, 0, []⟩

/-- The header with the varint of its own size. -/
def hdrSize (nHdr : Nat) : Nat :=
  if nHdr ≤ 126 then nHdr + 1
  else
    let nVarint := sqlite3VarintLen (UInt64.ofNat nHdr)
    let nHdr := nHdr + nVarint
    if nVarint < sqlite3VarintLen (UInt64.ofNat nHdr) then nHdr + 1 else nHdr

/-- A record that is too big, an assertion that fails, or a read past the end of `P4`. -/
inductive RecordError
  | tooBig
  | assertion
  | pastEnd
  deriving DecidableEq

/-- The bytes of the record, and the zeros that follow them. -/
def writeRecord (fileFormat limit : Nat) (fields : List Mem) :
    Except RecordError (List UInt8 × Nat) :=
  let s := space fileFormat fields
  let nHdr := hdrSize s.nHdr
  let nByte := nHdr + s.nData
  if limit < nByte + s.nZero then .error .tooBig
  else
    let header := putVarint32 (UInt32.ofNat nHdr) ++ s.fields.flatMap fun f => putVarint32 f.2
    let content := s.fields.flatMap fun f => sqlite3VdbeSerialPut f.1 f.2
    if header.length = nHdr ∧ nHdr + content.length = nByte then .ok (header ++ content, s.nZero)
    else .error .assertion

/-- Registers with all their flags: what an affinity makes of one, and the value it has. -/
structure Registers (Reg : Type u) where
  applyAffinity : Reg → UInt8 → Reg
  value : Reg → Mem

section

variable {Reg : Type u} (R : Registers Reg)

def applyAffinities : List Reg → List UInt8 → List Reg
  | pRec :: fields, affinity :: zAffinity =>
      R.applyAffinity pRec affinity :: applyAffinities fields zAffinity
  | fields, _ => fields

/-- The values of the registers once the affinities have been applied, if `P4` is not `NULL`. -/
def fieldValues (zAffinity : Option (List UInt8)) (fields : List Reg) : List Mem :=
  (applyAffinities R fields (zAffinity.getD [])).map R.value

theorem length_applyAffinities (fields : List Reg) (zAffinity : List UInt8) :
    (applyAffinities R fields zAffinity).length = fields.length := by
  induction fields generalizing zAffinity with
  | nil => rfl
  | cons pRec fields ih =>
    cases zAffinity with
    | nil => rfl
    | cons affinity zAffinity => exact congrArg (· + 1) (ih zAffinity)

theorem length_fieldValues (zAffinity : Option (List UInt8)) (fields : List Reg) :
    (fieldValues R zAffinity fields).length = fields.length := by
  rw [fieldValues, List.length_map, length_applyAffinities]

/-- Assertions say that there is a field, and no more characters in `P4` than fields. The end of
`P4` is looked for behind its first character. -/
def makeRecord (fileFormat limit : Nat) (zAffinity : Option (List UInt8)) (fields : List Reg) :
    Except RecordError (List UInt8 × Nat) :=
  if fields.length < max 1 (zAffinity.getD []).length then .error .assertion
  else if zAffinity = some [] then .error .pastEnd
  else writeRecord fileFormat limit (fieldValues R zAffinity fields)

end

/-! ## `sqlite3VdbeRecordUnpack` -/

/-- The loop, with `fuel` more fields to fill. -/
def unpackFields (key : List UInt8) (szHdr : Nat) : Nat → Nat → Nat → Option (List Mem)
  | 0, _, _ => some []
  | fuel + 1, idx, d =>
      if idx < szHdr ∧ d ≤ key.length then
        (getVarint32 (key.drop idx)).bind fun (serialType, n) =>
          (sqlite3VdbeSerialGet (key.drop d) serialType).bind fun (mem, len) =>
            (unpackFields key szHdr fuel (idx + n) (d + len)).map fun fields => mem :: fields
      else some []

/-- The first `nField` values, and one even if `nField` is zero. -/
def recordUnpack (nField : Nat) (key : List UInt8) : Option (List Mem) :=
  (getVarint32 key).bind fun (szHdr, idx) =>
    unpackFields key szHdr.toNat (max nField 1) idx szHdr.toNat

/-! ## Integers in two's complement -/

theorem toNat_signExtend {w v : Nat} (x : BitVec w) (hv : w ≤ v) :
    (x.signExtend v).toNat =
      if x.toNat < 2 ^ (w - 1) then x.toNat else x.toNat + (2 ^ v - 2 ^ w) := by
  have hpow : 2 ^ w ≤ 2 ^ v := Nat.pow_le_pow_right Nat.two_pos hv
  have hx := x.isLt
  rw [BitVec.toNat_signExtend, BitVec.toNat_setWidth, Nat.mod_eq_of_lt (by omega),
    BitVec.msb_eq_decide]
  by_cases h : x.toNat < 2 ^ (w - 1)
  · rw [if_pos h, if_neg (by simpa using h), Nat.add_zero]
  · rw [if_neg h, if_pos (by simpa using h)]

theorem toNat_i8 (x : UInt8) :
    (i8 x).toNat = if x.toNat < 2 ^ 7 then x.toNat else x.toNat + (2 ^ 32 - 2 ^ 8) :=
  toNat_signExtend x.toBitVec (by decide)

theorem toNat_signed (w : UInt32) : w.toInt32.toInt64.toUInt64.toNat =
    if w.toNat < 2 ^ 31 then w.toNat else w.toNat + (2 ^ 64 - 2 ^ 32) :=
  toNat_signExtend w.toBitVec (by decide)

theorem eq_of_toNat {i j : Int64} (h : i.toUInt64.toNat = j.toUInt64.toNat) : i = j :=
  Int64.toBitVec_inj.mp (BitVec.eq_of_toNat_eq h)

/-- A byte, or bytes, below what a word has. -/
theorem toNat_or {c d : UInt32} (x k : Nat) {y : Nat} (hc : c.toNat = x * 2 ^ k)
    (hd : d.toNat = y) (hy : y < 2 ^ k) : (c ||| d).toNat = x * 2 ^ k + y := by
  rw [UInt32.toNat_or, hc, hd, or_high x hy]

theorem toNat_byte_shiftLeft (x : UInt8) (i : UInt32) (k : Nat) (hi : i.toNat = k) (hk : k ≤ 24) :
    (x.toUInt32 <<< i).toNat = x.toNat * 2 ^ k := by
  have hx : x.toNat < 2 ^ (32 - k) :=
    Nat.lt_of_lt_of_le x.toNat_lt (Nat.pow_le_pow_right Nat.two_pos (by omega))
  rw [toNat_shiftLeft _ i k hi (by omega), UInt8.toNat_toUInt32, Nat.mod_eq_of_lt hx]

theorem toNat_mul_i8 (c : UInt32) (k : Nat) (hc : c.toNat = 2 ^ k) (hk : k ≤ 32) (x : UInt8) :
    (c * i8 x).toNat = (i8 x).toNat % 2 ^ (32 - k) * 2 ^ k := by
  have hpow : 2 ^ 32 = 2 ^ (32 - k) * 2 ^ k := by
    rw [← Nat.pow_add, Nat.sub_add_cancel hk]
  rw [UInt32.toNat_mul, hc, Nat.mul_comm, hpow, Nat.mul_mod_mul_right]

theorem toNat_oneByteInt (x0 : UInt8) : (oneByteInt x0).toUInt64.toNat =
    if x0.toNat < 2 ^ 7 then x0.toNat else x0.toNat + (2 ^ 64 - 2 ^ 8) := by
  have h0 := x0.toNat_lt
  rw [oneByteInt, toNat_signed, toNat_i8]
  split <;> split <;> omega

theorem toNat_twoByteInt (x0 x1 : UInt8) : (twoByteInt x0 x1).toUInt64.toNat =
    if x0.toNat < 2 ^ 7 then x0.toNat * 2 ^ 8 + x1.toNat
    else x0.toNat * 2 ^ 8 + x1.toNat + (2 ^ 64 - 2 ^ 16) := by
  have h0 := x0.toNat_lt
  have h1 := x1.toNat_lt
  have hword := toNat_or _ 8 (toNat_mul_i8 256 8 rfl (by decide) x0) (UInt8.toNat_toUInt32 x1) h1
  rw [twoByteInt, toNat_signed, hword, toNat_i8]
  split <;> split <;> omega

theorem toNat_threeByteInt (x0 x1 x2 : UInt8) : (threeByteInt x0 x1 x2).toUInt64.toNat =
    if x0.toNat < 2 ^ 7 then x0.toNat * 2 ^ 16 + x1.toNat * 2 ^ 8 + x2.toNat
    else x0.toNat * 2 ^ 16 + x1.toNat * 2 ^ 8 + x2.toNat + (2 ^ 64 - 2 ^ 24) := by
  have h0 := x0.toNat_lt
  have h1 := x1.toNat_lt
  have h2 := x2.toNat_lt
  have hhigh := toNat_or _ 16 (toNat_mul_i8 65536 16 rfl (by decide) x0)
    (toNat_byte_shiftLeft x1 8 8 rfl (by decide)) (by omega)
  have hword := toNat_or ((i8 x0).toNat % 2 ^ 16 * 2 ^ 8 + x1.toNat) 8 (by rw [hhigh]; omega)
    (UInt8.toNat_toUInt32 x2) h2
  rw [threeByteInt, toNat_signed, hword, toNat_i8]
  split <;> split <;> omega

theorem toNat_fourByteInt (x0 x1 x2 x3 : UInt8) : (fourByteInt x0 x1 x2 x3).toUInt64.toNat =
    if x0.toNat < 2 ^ 7 then
      x0.toNat * 2 ^ 24 + x1.toNat * 2 ^ 16 + x2.toNat * 2 ^ 8 + x3.toNat
    else x0.toNat * 2 ^ 24 + x1.toNat * 2 ^ 16 + x2.toNat * 2 ^ 8 + x3.toNat +
      (2 ^ 64 - 2 ^ 32) := by
  have h0 := x0.toNat_lt
  have h1 := x1.toNat_lt
  have h2 := x2.toNat_lt
  have h3 := x3.toNat_lt
  have hhigh := toNat_or _ 24 (toNat_mul_i8 16777216 24 rfl (by decide) x0)
    (toNat_byte_shiftLeft x1 16 16 rfl (by decide)) (by omega)
  have hmiddle := toNat_or ((i8 x0).toNat % 2 ^ 8 * 2 ^ 8 + x1.toNat) 16 (by rw [hhigh]; omega)
    (toNat_byte_shiftLeft x2 8 8 rfl (by decide)) (by omega)
  have hword := toNat_or (((i8 x0).toNat % 2 ^ 8 * 2 ^ 8 + x1.toNat) * 2 ^ 8 + x2.toNat) 8
    (by rw [hmiddle]; omega) (UInt8.toNat_toUInt32 x3) h3
  rw [fourByteInt, toNat_signed, hword, toNat_i8]
  split <;> split <;> omega

theorem toNat_fourByteUInt (x0 x1 x2 x3 : UInt8) : (fourByteUInt x0 x1 x2 x3).toNat =
    x0.toNat * 2 ^ 24 + x1.toNat * 2 ^ 16 + x2.toNat * 2 ^ 8 + x3.toNat := by
  have h0 := x0.toNat_lt
  have h1 := x1.toNat_lt
  have h2 := x2.toNat_lt
  have h3 := x3.toNat_lt
  have hhigh := toNat_or _ 24 (toNat_byte_shiftLeft x0 24 24 rfl (by decide))
    (toNat_byte_shiftLeft x1 16 16 rfl (by decide)) (by omega)
  have hmiddle := toNat_or (x0.toNat * 2 ^ 8 + x1.toNat) 16 (by rw [hhigh]; omega)
    (toNat_byte_shiftLeft x2 8 8 rfl (by decide)) (by omega)
  rw [fourByteUInt, toNat_or ((x0.toNat * 2 ^ 8 + x1.toNat) * 2 ^ 8 + x2.toNat) 8
    (by rw [hmiddle]; omega) (UInt8.toNat_toUInt32 x3) h3]
  omega

theorem toNat_lowByte (v : UInt64) : (v &&& 0xff).toUInt8.toNat = v.toNat % 2 ^ 8 := by
  have hff : (0xff : UInt64).toNat = 2 ^ 8 - 1 := rfl
  rw [UInt64.toNat_toUInt8, UInt64.toNat_and, hff, Nat.and_two_pow_sub_one_eq_mod, Nat.mod_mod]

theorem toNat_shiftRight8 (v : UInt64) : (v >>> 8).toNat = v.toNat / 2 ^ 8 := by
  rw [UInt64.toNat_shiftRight, Nat.shiftRight_eq_div_pow]
  rfl

/-! ## A value is read as it was written -/

/-- Whether `k` bits and the sign are enough. -/
def InBits (k : Nat) (i : Int64) : Prop :=
  i.toUInt64.toNat < 2 ^ k ∨ 2 ^ 64 - 2 ^ k ≤ i.toUInt64.toNat

theorem get_oneByte {i : Int64} (h : InBits 7 i) (rest : List UInt8) :
    sqlite3VdbeSerialGet (putBytes 1 i.toUInt64 [] ++ rest) 1 = some (.int i, 1) := by
  have hN := i.toUInt64.toNat_lt
  refine congrArg (fun j => some (Mem.int j, 1)) (eq_of_toNat ?_)
  rw [toNat_oneByteInt, toNat_lowByte]
  rcases h with h | h <;> split <;> omega

theorem get_twoBytes {i : Int64} (h : InBits 15 i) (rest : List UInt8) :
    sqlite3VdbeSerialGet (putBytes 2 i.toUInt64 [] ++ rest) 2 = some (.int i, 2) := by
  have hN := i.toUInt64.toNat_lt
  refine congrArg (fun j => some (Mem.int j, 2)) (eq_of_toNat ?_)
  rw [toNat_twoByteInt]
  simp only [toNat_lowByte, toNat_shiftRight8]
  rcases h with h | h <;> split <;> omega

theorem get_threeBytes {i : Int64} (h : InBits 23 i) (rest : List UInt8) :
    sqlite3VdbeSerialGet (putBytes 3 i.toUInt64 [] ++ rest) 3 = some (.int i, 3) := by
  have hN := i.toUInt64.toNat_lt
  refine congrArg (fun j => some (Mem.int j, 3)) (eq_of_toNat ?_)
  rw [toNat_threeByteInt]
  simp only [toNat_lowByte, toNat_shiftRight8]
  rcases h with h | h <;> split <;> omega

theorem get_fourBytes {i : Int64} (h : InBits 31 i) (rest : List UInt8) :
    sqlite3VdbeSerialGet (putBytes 4 i.toUInt64 [] ++ rest) 4 = some (.int i, 4) := by
  have hN := i.toUInt64.toNat_lt
  refine congrArg (fun j => some (Mem.int j, 4)) (eq_of_toNat ?_)
  rw [toNat_fourByteInt]
  simp only [toNat_lowByte, toNat_shiftRight8]
  rcases h with h | h <;> split <;> omega

theorem get_sixBytes {i : Int64} (h : InBits 47 i) (rest : List UInt8) :
    sqlite3VdbeSerialGet (putBytes 6 i.toUInt64 [] ++ rest) 5 = some (.int i, 6) := by
  have hN := i.toUInt64.toNat_lt
  refine congrArg (fun j => some (Mem.int j, 6)) (eq_of_toNat ?_)
  have hadd : ∀ (a : UInt32) (b : Int64), (a.toUInt64.toInt64 + ((1 : Int64) <<< 32) * b).toUInt64 =
      a.toUInt64 + ((1 : UInt64) <<< 32) * b.toUInt64 := fun _ _ => rfl
  have hone : ((1 : UInt64) <<< 32).toNat = 2 ^ 32 := rfl
  rw [hadd, UInt64.toNat_add, UInt64.toNat_mul, hone, UInt32.toNat_toUInt64, toNat_fourByteUInt,
    toNat_twoByteInt]
  simp only [toNat_lowByte, toNat_shiftRight8]
  rcases h with h | h <;> split <;> omega

/-- The eight bytes of a word are put together again. -/
theorem eightBytes (v : UInt64) : ∃ x0 x1 x2 x3 x4 x5 x6 x7, putBytes 8 v [] =
      [x0, x1, x2, x3, x4, x5, x6, x7] ∧
    ((fourByteUInt x0 x1 x2 x3).toUInt64 <<< 32) + (fourByteUInt x4 x5 x6 x7).toUInt64 = v := by
  refine ⟨_, _, _, _, _, _, _, _, rfl, ?_⟩
  have hv := v.toNat_lt
  have h32 : (32 : UInt64).toNat % 64 = 32 := rfl
  apply UInt64.toNat_inj.mp
  rw [UInt64.toNat_add, UInt64.toNat_shiftLeft, h32, Nat.shiftLeft_eq, UInt32.toNat_toUInt64,
    UInt32.toNat_toUInt64, toNat_fourByteUInt, toNat_fourByteUInt]
  simp only [toNat_lowByte, toNat_shiftRight8]
  omega

theorem toNat_magnitude (i : Int64) :
    (if i < 0 then (~~~ i).toUInt64 else i.toUInt64).toNat =
      if i.toUInt64.toNat < 2 ^ 63 then i.toUInt64.toNat else 2 ^ 64 - 1 - i.toUInt64.toNat := by
  have hneg : i < 0 ↔ 2 ^ 63 ≤ i.toUInt64.toNat := by
    have h : i.toInt = i.toBitVec.toInt := rfl
    have hN : i.toBitVec.toNat = i.toUInt64.toNat := rfl
    rw [Int64.lt_iff_toInt_lt, h, BitVec.toInt_eq_toNat_cond, hN]
    have hlt := i.toUInt64.toNat_lt
    have hzero : (0 : Int64).toInt = 0 := rfl
    rw [hzero]
    split <;> omega
  by_cases h : i < 0
  · have hnot : (~~~ i).toUInt64.toNat = 2 ^ 64 - 1 - i.toUInt64.toNat :=
      UInt64.toNat_not i.toUInt64
    rw [if_pos h, hnot, if_neg (by rw [hneg] at h; omega)]
  · rw [if_neg h, if_pos (by rw [hneg] at h; omega)]

theorem magnitude_le {i : Int64} {c : UInt64} {k : Nat} (hk : k ≤ 63) (hc : c.toNat + 1 = 2 ^ k) :
    (if i < 0 then (~~~ i).toUInt64 else i.toUInt64) ≤ c ↔ InBits k i := by
  have hN := i.toUInt64.toNat_lt
  have hpow : 2 ^ k ≤ 2 ^ 63 := Nat.pow_le_pow_right Nat.two_pos hk
  rw [UInt64.le_iff_toNat_le, toNat_magnitude, InBits]
  split <;> omega

/-- The bytes `bytes` of type `serialType` are read as `value`, whatever follows them. -/
structure ReadsBack (serialType : UInt32) (bytes : List UInt8) (value : Mem) : Prop where
  length : sqlite3VdbeSerialTypeLen serialType = bytes.length
  get : ∀ rest, sqlite3VdbeSerialGet (bytes ++ rest) serialType = some (value, bytes.length)

theorem eq_zero_or_one {i : Int64} (h : i &&& 1 = i) : i = 0 ∨ i = 1 := by
  have hmod : i.toUInt64.toNat % 2 ^ 1 = i.toUInt64.toNat := by
    have hand : (i.toUInt64 &&& 1).toNat = i.toUInt64.toNat :=
      congrArg (fun j => j.toUInt64.toNat) h
    rw [UInt64.toNat_and] at hand
    exact (Nat.and_two_pow_sub_one_eq_mod _ 1).symm.trans hand
  have hlt : i.toUInt64.toNat < 2 := by omega
  rcases (by omega : i.toUInt64.toNat = 0 ∨ i.toUInt64.toNat = 1) with h | h
  · exact .inl (eq_of_toNat h)
  · exact .inr (eq_of_toNat h)

/-- The type of an integer, with the bits that each test asks for. -/
theorem serialType_int (i : Int64) (fileFormat : Nat) :
    (i = 0 ∧ sqlite3VdbeSerialType (.int i) fileFormat = 8) ∨
    (i = 1 ∧ sqlite3VdbeSerialType (.int i) fileFormat = 9) ∨
    (InBits 7 i ∧ sqlite3VdbeSerialType (.int i) fileFormat = 1) ∨
    (InBits 15 i ∧ sqlite3VdbeSerialType (.int i) fileFormat = 2) ∨
    (InBits 23 i ∧ sqlite3VdbeSerialType (.int i) fileFormat = 3) ∨
    (InBits 31 i ∧ sqlite3VdbeSerialType (.int i) fileFormat = 4) ∨
    (InBits 47 i ∧ sqlite3VdbeSerialType (.int i) fileFormat = 5) ∨
    sqlite3VdbeSerialType (.int i) fileFormat = 6 := by
  by_cases hconst : i &&& 1 = i ∧ 4 ≤ fileFormat
  · obtain ⟨hbit, hformat⟩ := hconst
    rcases eq_zero_or_one hbit with rfl | rfl
    · refine .inl ⟨rfl, ?_⟩
      simp only [sqlite3VdbeSerialType, hformat]
      decide
    · refine .inr (.inl ⟨rfl, ?_⟩)
      simp only [sqlite3VdbeSerialType, hformat]
      decide
  have h7 := magnitude_le (i := i) (c := 127) (k := 7) (by decide) rfl
  have h15 := magnitude_le (i := i) (c := 32767) (k := 15) (by decide) rfl
  have h23 := magnitude_le (i := i) (c := 8388607) (k := 23) (by decide) rfl
  have h31 := magnitude_le (i := i) (c := 2147483647) (k := 31) (by decide) rfl
  have h47 := magnitude_le (i := i) (c := max6Byte) (k := 47) (by decide) rfl
  simp only [sqlite3VdbeSerialType, if_neg hconst]
  generalize (if i < 0 then (~~~ i).toUInt64 else i.toUInt64) = u at *
  split
  · exact .inr (.inr (.inl ⟨h7.mp ‹_›, rfl⟩))
  split
  · exact .inr (.inr (.inr (.inl ⟨h15.mp ‹_›, rfl⟩)))
  split
  · exact .inr (.inr (.inr (.inr (.inl ⟨h23.mp ‹_›, rfl⟩))))
  split
  · exact .inr (.inr (.inr (.inr (.inr (.inl ⟨h31.mp ‹_›, rfl⟩)))))
  split
  · exact .inr (.inr (.inr (.inr (.inr (.inr (.inl ⟨h47.mp ‹_›, rfl⟩))))))
  · exact .inr (.inr (.inr (.inr (.inr (.inr (.inr rfl))))))

/-- A real is stored by its bits, and one that is not a number comes back as `NULL`. -/
def canonical : Mem → Mem
  | .real r => if sqlite3IsNaN r then .null else .real r
  | m => m.expandBlob

/-- Text and blobs of at most `10^9` bytes. -/
def Fits (m : Mem) : Prop := m.n + m.nZero ≤ 1000000000

theorem readsBack_int (i : Int64) (fileFormat : Nat) :
    ReadsBack (sqlite3VdbeSerialType (.int i) fileFormat)
      (sqlite3VdbeSerialPut (.int i) (sqlite3VdbeSerialType (.int i) fileFormat)) (.int i) := by
  rcases serialType_int i fileFormat with ⟨rfl, h⟩ | ⟨rfl, h⟩ | ⟨hbits, h⟩ | ⟨hbits, h⟩ |
    ⟨hbits, h⟩ | ⟨hbits, h⟩ | ⟨hbits, h⟩ | h
  all_goals rw [h]
  · exact ⟨rfl, fun rest => rfl⟩
  · exact ⟨rfl, fun rest => rfl⟩
  · exact ⟨rfl, get_oneByte hbits⟩
  · exact ⟨rfl, get_twoBytes hbits⟩
  · exact ⟨rfl, get_threeBytes hbits⟩
  · exact ⟨rfl, get_fourBytes hbits⟩
  · exact ⟨rfl, get_sixBytes hbits⟩
  · obtain ⟨x0, x1, x2, x3, x4, x5, x6, x7, hbytes, hword⟩ := eightBytes i.toUInt64
    refine ⟨rfl, fun rest => ?_⟩
    have hput : sqlite3VdbeSerialPut (.int i) 6 = [x0, x1, x2, x3, x4, x5, x6, x7] := hbytes
    have hget : sqlite3VdbeSerialGet ([x0, x1, x2, x3, x4, x5, x6, x7] ++ rest) 6 =
        some (.int (((fourByteUInt x0 x1 x2 x3).toUInt64 <<< 32) +
          (fourByteUInt x4 x5 x6 x7).toUInt64).toInt64, 8) := rfl
    rw [hput, hget, hword]
    rfl

theorem readsBack_real (r : UInt64) (fileFormat : Nat) :
    ReadsBack (sqlite3VdbeSerialType (.real r) fileFormat)
      (sqlite3VdbeSerialPut (.real r) (sqlite3VdbeSerialType (.real r) fileFormat))
      (canonical (.real r)) := by
  obtain ⟨x0, x1, x2, x3, x4, x5, x6, x7, hbytes, hword⟩ := eightBytes r
  have htype : sqlite3VdbeSerialType (.real r) fileFormat = 7 := rfl
  have hput : sqlite3VdbeSerialPut (.real r) 7 = [x0, x1, x2, x3, x4, x5, x6, x7] := hbytes
  refine ⟨rfl, fun rest => ?_⟩
  have hget : sqlite3VdbeSerialGet ([x0, x1, x2, x3, x4, x5, x6, x7] ++ rest) 7 =
      some (canonical (.real (((fourByteUInt x0 x1 x2 x3).toUInt64 <<< 32) +
        (fourByteUInt x4 x5 x6 x7).toUInt64)), 8) := rfl
  rw [htype, hput, hget, hword]
  rfl

/-- `n` bytes of text or of a blob, with the type that tells which. -/
theorem readsBack_bytes {t : UInt32} {n c : Nat} (hc : c ≤ 1) (ht : t.toNat = 2 * n + c + 12)
    {bytes : List UInt8} (hbytes : bytes.length = n) :
    ReadsBack t bytes (if c = 0 then .blob bytes 0 else .str bytes) := by
  have h12 : (12 : UInt32) ≤ t := by
    rw [UInt32.le_iff_toNat_le, ht]
    exact Nat.le_add_left 12 _
  have hdiv : (2 * n + c) / 2 = n := by omega
  constructor
  · rw [sqlite3VdbeSerialTypeLen, if_pos h12, UInt32.toNat_div, UInt32.toNat_sub_of_le _ _ h12, ht,
      hbytes]
    exact hdiv
  · intro rest
    have hmod : (2 * n + c) % 2 = c := by omega
    have htake : (bytes ++ rest).take n = bytes := by rw [← hbytes, List.take_left]
    unfold sqlite3VdbeSerialGet
    rw [ht]
    simp only [hdiv, hmod, htake, List.length_append, hbytes, Nat.le_add_right, if_true]

theorem toNat_str {z : List UInt8} (h : Fits (.str z)) (fileFormat : Nat) :
    (sqlite3VdbeSerialType (.str z) fileFormat).toNat = 2 * z.length + 1 + 12 := by
  have hlen : z.length ≤ 1000000000 := h
  simp only [sqlite3VdbeSerialType, UInt32.toNat_add, UInt32.toNat_mul, UInt32.toNat_ofNat,
    UInt32.toNat_ofNat']
  omega

theorem toNat_blob {z : List UInt8} {nZero : Nat} (h : Fits (.blob z nZero)) (fileFormat : Nat) :
    (sqlite3VdbeSerialType (.blob z nZero) fileFormat).toNat =
      2 * (z.length + nZero) + 0 + 12 := by
  have hlen : z.length + nZero ≤ 1000000000 := h
  simp only [sqlite3VdbeSerialType, UInt32.toNat_add, UInt32.toNat_mul, UInt32.toNat_ofNat,
    UInt32.toNat_ofNat']
  omega

theorem type_str_le {z : List UInt8} (h : Fits (.str z)) (fileFormat : Nat) :
    12 ≤ sqlite3VdbeSerialType (.str z) fileFormat := by
  rw [UInt32.le_iff_toNat_le, toNat_str h]
  exact Nat.le_add_left 12 _

theorem type_blob_le {z : List UInt8} {nZero : Nat} (h : Fits (.blob z nZero))
    (fileFormat : Nat) : 12 ≤ sqlite3VdbeSerialType (.blob z nZero) fileFormat := by
  rw [UInt32.le_iff_toNat_le, toNat_blob h]
  exact Nat.le_add_left 12 _

theorem serialPut_of_le {t : UInt32} (h : 12 ≤ t) (m : Mem) : sqlite3VdbeSerialPut m t = m.z := by
  have hbig : ¬ (t ≤ 7 ∧ 0 < t) := by
    rw [UInt32.le_iff_toNat_le] at h ⊢
    intro hsmall
    exact absurd (Nat.le_trans h hsmall.1) (by decide)
  rw [sqlite3VdbeSerialPut, if_neg hbig, if_pos h]

/-- A value, with the zeros that its blob leaves out, is read as it was. -/
theorem readsBack {m : Mem} (h : Fits m) (fileFormat : Nat) :
    ReadsBack (sqlite3VdbeSerialType m fileFormat)
      (sqlite3VdbeSerialPut m (sqlite3VdbeSerialType m fileFormat) ++ List.replicate m.nZero 0)
      (canonical m) := by
  cases m with
  | null => exact ⟨rfl, fun rest => rfl⟩
  | int i =>
    rw [show (Mem.int i).nZero = 0 from rfl, List.replicate_zero, List.append_nil]
    exact readsBack_int i fileFormat
  | real r =>
    rw [show (Mem.real r).nZero = 0 from rfl, List.replicate_zero, List.append_nil]
    exact readsBack_real r fileFormat
  | str z =>
    have ht := toNat_str h fileFormat
    rw [serialPut_of_le (type_str_le h fileFormat), show (Mem.str z).nZero = 0 from rfl,
      List.replicate_zero, List.append_nil]
    exact readsBack_bytes (Nat.le_refl 1) ht rfl
  | blob z nZero =>
    have ht := toNat_blob h fileFormat
    have hlen : (z ++ List.replicate nZero 0).length = z.length + nZero := by
      rw [List.length_append, List.length_replicate]
    rw [serialPut_of_le (type_blob_le h fileFormat)]
    exact readsBack_bytes (Nat.zero_le 1) ht hlen

/-! ## The space that is computed is the space that is written -/

/-- The bytes of a value, with all its zeros. -/
def content (fileFormat : Nat) (m : Mem) : List UInt8 :=
  sqlite3VdbeSerialPut m (sqlite3VdbeSerialType m fileFormat) ++ List.replicate m.nZero 0

theorem serialPut_expandBlob {m : Mem} (h : Fits m) (fileFormat : Nat) :
    sqlite3VdbeSerialPut m.expandBlob (sqlite3VdbeSerialType m fileFormat) =
      content fileFormat m := by
  cases m with
  | blob z nZero =>
    have h12 := type_blob_le h fileFormat
    rw [content, serialPut_of_le h12, serialPut_of_le h12]
    rfl
  | _ => exact (List.append_nil _).symm

theorem varintLen_word (w : UInt32) :
    sqlite3VarintLen w.toUInt64 = (putVarint32 w).length := by
  have hw := w.toNat_lt
  rw [putVarint32_eq]
  apply (sqlite3VarintLen_eq _).mpr
  rw [UInt32.toNat_toUInt64]
  omega

theorem length_putVarint32 (w : UInt32) :
    (if w ≤ 127 then 1 else sqlite3VarintLen w.toUInt64) = (putVarint32 w).length := by
  split
  · rename_i h
    have hlt : w < 0x80 := by
      rw [UInt32.le_iff_toNat_le] at h
      rw [UInt32.lt_iff_toNat_lt]
      exact Nat.lt_succ_of_le h
    rw [putVarint32, if_pos hlt, List.length_singleton]
  · exact varintLen_word w

/-- What the loop has counted when it has seen the fields `fields`. -/
structure Counted (fileFormat : Nat) (fields : List Mem) (s : Space) : Prop where
  types : s.fields.map Prod.snd = fields.map (sqlite3VdbeSerialType · fileFormat)
  content : (s.fields.flatMap fun f => sqlite3VdbeSerialPut f.1 f.2) ++
    List.replicate s.nZero 0 = fields.flatMap (content fileFormat)
  nData : s.nData = (s.fields.flatMap fun f => sqlite3VdbeSerialPut f.1 f.2).length
  nHdr : s.nHdr = (s.fields.flatMap fun f => putVarint32 f.2).length

theorem counted_addField {fileFormat : Nat} {fields : List Mem} {s : Space} {m : Mem}
    (h : Counted fileFormat fields s) (hm : Fits m) :
    Counted fileFormat (m :: fields) (addField fileFormat m s) := by
  have hlen := (readsBack hm fileFormat).length
  have hexpand := serialPut_expandBlob hm fileFormat
  rw [content] at hexpand
  have hdr := length_putVarint32 (sqlite3VdbeSerialType m fileFormat)
  rw [addField]
  split
  · constructor
    · simp [h.types]
    · rw [List.flatMap_cons, List.append_assoc, h.content, hexpand]
      rfl
    · rw [List.flatMap_cons, List.length_append, hexpand, ← h.nData, ← hlen]
      exact Nat.add_comm _ _
    · rw [List.flatMap_cons, List.length_append, ← h.nHdr, ← hdr]
      exact Nat.add_comm _ _
  · rename_i hzero
    -- nothing was written behind this field, so its zeros can stay out with the others
    have hdata : s.nData = 0 := Decidable.not_not.mp hzero
    have hnil : (s.fields.flatMap fun f => sqlite3VdbeSerialPut f.1 f.2) = [] := by
      rw [← List.length_eq_zero_iff, ← h.nData, hdata]
    have hrest := h.content
    rw [hnil, List.nil_append] at hrest
    have hlen' : sqlite3VdbeSerialTypeLen (sqlite3VdbeSerialType m fileFormat) - m.nZero =
        (sqlite3VdbeSerialPut m (sqlite3VdbeSerialType m fileFormat)).length := by
      rw [hlen, List.length_append, List.length_replicate, Nat.add_sub_cancel]
    constructor
    · simp [h.types]
    · rw [List.flatMap_cons, List.flatMap_cons, hnil, ← hrest, List.append_nil,
        Nat.add_comm s.nZero, ← List.replicate_append_replicate, ← List.append_assoc]
      rfl
    · rw [List.flatMap_cons, hnil, List.append_nil, ← hlen', hdata, Nat.zero_add]
    · rw [List.flatMap_cons, List.length_append, ← h.nHdr, ← hdr]
      exact Nat.add_comm _ _

theorem counted_space (fileFormat : Nat) {fields : List Mem} (h : ∀ m ∈ fields, Fits m) :
    Counted fileFormat fields (space fileFormat fields) := by
  induction fields with
  | nil => exact ⟨rfl, rfl, rfl, rfl⟩
  | cons m fields ih =>
    exact counted_addField (ih fun m hm => h m (List.mem_cons_of_mem _ hm))
      (h m List.mem_cons_self)

theorem varintLen_le {n : Nat} (hn : n < 2 ^ 64) (k : Nat) :
    sqlite3VarintLen (UInt64.ofNat n) ≤ k + 1 ↔ n < 128 ^ (k + 1) := by
  rw [sqlite3VarintLen, varintLenFrom_eq _ 0, Nat.zero_add, length_fillBuf_le,
    UInt64.toNat_ofNat_of_lt' hn]

theorem length_putVarint32_ofNat {n : Nat} (hn : n < 2 ^ 32) :
    (putVarint32 (UInt32.ofNat n)).length = sqlite3VarintLen (UInt64.ofNat n) := by
  have hword : (UInt32.ofNat n).toUInt64 = UInt64.ofNat n := by
    apply UInt64.toNat_inj.mp
    rw [UInt32.toNat_toUInt64, UInt32.toNat_ofNat_of_lt' hn, UInt64.toNat_ofNat_of_lt']
    exact Nat.lt_trans hn (by decide)
  rw [← hword, varintLen_word]

theorem varintLen_pos (v : UInt64) : 0 < sqlite3VarintLen v := by
  rw [sqlite3VarintLen, varintLenFrom_eq v 0]
  have hne : fillBuf v ≠ [] := by
    rw [fillBuf]
    split <;> simp
  exact Nat.add_pos_right 0 (List.length_pos_iff.mpr hne)

/-- The varint of the header's size counts itself. -/
theorem hdrSize_eq {n : Nat} (hn : n ≤ 1000000000) :
    hdrSize n = (putVarint32 (UInt32.ofNat (hdrSize n))).length + n := by
  have hlen : ∀ m, m < 2 ^ 32 → 1 ≤ sqlite3VarintLen (UInt64.ofNat m) ∧
      sqlite3VarintLen (UInt64.ofNat m) ≤ 5 ∧
      (sqlite3VarintLen (UInt64.ofNat m) ≤ 1 ↔ m < 128) ∧
      (sqlite3VarintLen (UInt64.ofNat m) ≤ 2 ↔ m < 128 ^ 2) ∧
      (sqlite3VarintLen (UInt64.ofNat m) ≤ 3 ↔ m < 128 ^ 3) ∧
      (sqlite3VarintLen (UInt64.ofNat m) ≤ 4 ↔ m < 128 ^ 4) := by
    intro m hm
    have hm64 : m < 2 ^ 64 := Nat.lt_trans hm (by decide)
    exact ⟨varintLen_pos _, (varintLen_le hm64 4).mpr (by omega), varintLen_le hm64 0,
      varintLen_le hm64 1, varintLen_le hm64 2, varintLen_le hm64 3⟩
  have h := hlen n (by omega)
  rw [hdrSize]
  split
  · rw [length_putVarint32_ofNat (by omega)]
    have h1 := hlen (n + 1) (by omega)
    omega
  · dsimp only
    have hlong := hlen (n + sqlite3VarintLen (UInt64.ofNat n)) (by omega)
    have hlonger := hlen (n + sqlite3VarintLen (UInt64.ofNat n) + 1) (by omega)
    split
    · rw [length_putVarint32_ofNat (by omega)]
      omega
    · rw [length_putVarint32_ofNat (by omega)]
      omega

/-! ## The record is read as it was written -/

def serialTypes (fileFormat : Nat) (fields : List Mem) : List UInt8 :=
  fields.flatMap fun m => putVarint32 (sqlite3VdbeSerialType m fileFormat)

/-- The record `key`, with the zeros at its end. -/
structure Written (fileFormat : Nat) (fields : List Mem) (key : List UInt8) (szHdr : Nat) :
    Prop where
  le : szHdr ≤ 1000000000
  size : szHdr =
    (putVarint32 (UInt32.ofNat szHdr)).length + (serialTypes fileFormat fields).length
  key : key = putVarint32 (UInt32.ofNat szHdr) ++ serialTypes fileFormat fields ++
    fields.flatMap (content fileFormat)

theorem hdrSize_le {limit : Nat} (hlimit : limit ≤ 1000000000) {n : Nat} (h : hdrSize n ≤ limit) :
    n ≤ 1000000000 := by
  refine Nat.le_trans ?_ (Nat.le_trans h hlimit)
  rw [hdrSize]
  split
  · exact Nat.le_add_right n 1
  · dsimp only
    split <;> omega

theorem header_eq {fileFormat : Nat} {fields : List Mem} {s : Space}
    (h : Counted fileFormat fields s) :
    (s.fields.flatMap fun f => putVarint32 f.2) = serialTypes fileFormat fields := by
  rw [serialTypes, ← List.flatMap_map Prod.snd putVarint32, h.types, List.flatMap_map]

theorem writeRecord_spec (fileFormat : Nat) {limit : Nat} (hlimit : limit ≤ 1000000000)
    {fields : List Mem} (hfits : ∀ m ∈ fields, m.n + m.nZero ≤ limit) :
    writeRecord fileFormat limit fields = .error .tooBig ∨
    ∃ bytes nZero szHdr, writeRecord fileFormat limit fields = .ok (bytes, nZero) ∧
      bytes.length + nZero ≤ limit ∧
      Written fileFormat fields (bytes ++ List.replicate nZero 0) szHdr := by
  have hcounted := counted_space fileFormat fun m hm => Nat.le_trans (hfits m hm) hlimit
  rw [writeRecord]
  dsimp only
  generalize space fileFormat fields = s at hcounted ⊢
  split
  · exact .inl rfl
  rename_i hbig
  have hsize := hdrSize_eq (hdrSize_le hlimit (n := s.nHdr) (by omega))
  have hheader : (putVarint32 (UInt32.ofNat (hdrSize s.nHdr)) ++
      s.fields.flatMap fun f => putVarint32 f.2).length = hdrSize s.nHdr := by
    rw [List.length_append, ← hcounted.nHdr, ← hsize]
  have hdata := hcounted.nData
  rw [if_pos ⟨hheader, by rw [← hdata]⟩]
  refine .inr ⟨_, _, hdrSize s.nHdr, rfl, ?_, ?_⟩
  · rw [List.length_append, hheader, ← hdata]
    omega
  · rw [List.append_assoc, hcounted.content, header_eq hcounted]
    rw [header_eq hcounted, List.length_append] at hheader
    exact ⟨by omega, hheader.symm, rfl⟩

/-- The offsets `idx` in the header and `d` in the values have come to `fields`. -/
structure ComeTo (fileFormat : Nat) (key : List UInt8) (szHdr : Nat) (fields : List Mem)
    (idx d : Nat) : Prop where
  size : szHdr = idx + (serialTypes fileFormat fields).length
  types : key.drop idx = serialTypes fileFormat fields ++ key.drop szHdr
  contents : key.drop d = fields.flatMap (content fileFormat)
  le : d ≤ key.length

namespace ComeTo

variable {fileFormat szHdr idx d : Nat} {key : List UInt8} {m : Mem} {fields : List Mem}

theorem start (h : Written fileFormat fields key szHdr) :
    ComeTo fileFormat key szHdr fields (putVarint32 (UInt32.ofNat szHdr)).length szHdr := by
  have hsize := h.size
  have hheader : (putVarint32 (UInt32.ofNat szHdr) ++ serialTypes fileFormat fields).length =
      szHdr := by
    rw [List.length_append]
    exact hsize.symm
  have hdrop : key.drop szHdr = fields.flatMap (content fileFormat) := by
    rw [h.key]
    exact List.drop_left' hheader
  refine ⟨hsize, ?_, hdrop, ?_⟩
  · rw [hdrop, h.key, List.append_assoc, List.drop_left]
  · rw [h.key, List.length_append, hheader]
    exact Nat.le_add_right _ _

theorem lt (h : ComeTo fileFormat key szHdr (m :: fields) idx d) : idx < szHdr := by
  have hpos := varintLen_pos (sqlite3VdbeSerialType m fileFormat).toUInt64
  have hsize := h.size
  rw [varintLen_word] at hpos
  rw [serialTypes, List.flatMap_cons, List.length_append] at hsize
  omega

theorem type (h : ComeTo fileFormat key szHdr (m :: fields) idx d) :
    getVarint32 (key.drop idx) = some (sqlite3VdbeSerialType m fileFormat,
      (putVarint32 (sqlite3VdbeSerialType m fileFormat)).length) := by
  rw [h.types, serialTypes, List.flatMap_cons, List.append_assoc, getVarint32_put]

theorem get (h : ComeTo fileFormat key szHdr (m :: fields) idx d) (hm : Fits m) :
    sqlite3VdbeSerialGet (key.drop d) (sqlite3VdbeSerialType m fileFormat) =
      some (canonical m, (content fileFormat m).length) := by
  rw [h.contents, List.flatMap_cons]
  exact (readsBack hm fileFormat).get _

theorem next (h : ComeTo fileFormat key szHdr (m :: fields) idx d) :
    ComeTo fileFormat key szHdr fields
      (idx + (putVarint32 (sqlite3VdbeSerialType m fileFormat)).length)
      (d + (content fileFormat m).length) := by
  obtain ⟨hsize, htypes, hcontents, hd⟩ := h
  rw [serialTypes, List.flatMap_cons, ← serialTypes] at hsize htypes
  rw [List.flatMap_cons] at hcontents
  have hlen := congrArg List.length hcontents
  rw [List.length_append] at hsize
  rw [List.length_drop, List.length_append] at hlen
  refine ⟨by omega, ?_, ?_, by omega⟩
  · rw [← List.drop_drop, htypes, List.append_assoc, List.drop_left]
  · rw [← List.drop_drop, hcontents, List.drop_left]

end ComeTo

theorem unpackFields_step {key : List UInt8} {szHdr fuel idx d n len : Nat} {t : UInt32} {m : Mem}
    (h : idx < szHdr ∧ d ≤ key.length) (htype : getVarint32 (key.drop idx) = some (t, n))
    (hget : sqlite3VdbeSerialGet (key.drop d) t = some (m, len)) :
    unpackFields key szHdr (fuel + 1) idx d =
      (unpackFields key szHdr fuel (idx + n) (d + len)).map (m :: ·) := by
  rw [unpackFields, if_pos h, htype, Option.bind_some]
  dsimp only
  rw [hget]
  rfl

theorem unpackFields_eq (fileFormat szHdr : Nat) (key : List UInt8) (fuel : Nat) :
    ∀ (fields : List Mem) (idx d : Nat), (∀ m ∈ fields, Fits m) →
      ComeTo fileFormat key szHdr fields idx d →
      unpackFields key szHdr fuel idx d = some ((fields.take fuel).map canonical) := by
  induction fuel with
  | zero => intro fields idx d _ _; rfl
  | succ fuel ih =>
    intro fields idx d hfits h
    cases fields with
    | nil =>
      have hdone : ¬ (idx < szHdr ∧ d ≤ key.length) := by
        rw [h.size]
        exact fun h => Nat.lt_irrefl _ h.1
      rw [unpackFields, if_neg hdone]
      rfl
    | cons m fields =>
      have hget := h.get (hfits m List.mem_cons_self)
      have hrest := ih fields _ _ (fun m hm => hfits m (List.mem_cons_of_mem _ hm)) h.next
      rw [unpackFields_step ⟨h.lt, h.le⟩ h.type hget, hrest]
      rfl

theorem Written.getVarint32_eq {fileFormat szHdr : Nat} {fields : List Mem} {key : List UInt8}
    (h : Written fileFormat fields key szHdr) : getVarint32 key =
      some (UInt32.ofNat szHdr, (putVarint32 (UInt32.ofNat szHdr)).length) := by
  rw [h.key, List.append_assoc, getVarint32_put]

theorem Written.toNat_szHdr {fileFormat szHdr : Nat} {fields : List Mem} {key : List UInt8}
    (h : Written fileFormat fields key szHdr) : (UInt32.ofNat szHdr).toNat = szHdr :=
  UInt32.toNat_ofNat_of_lt' (Nat.lt_of_le_of_lt h.le (by decide))

/-- A record holds what it was made of: it is too big or no assertion on its size fails, and the
first fields that are asked for are read as the affinities left them, but for a real that is not
a number. -/
theorem record_read_as_written {Reg : Type u} (R : Registers Reg) (fileFormat nField : Nat)
    {limit : Nat} (hlimit : limit ≤ 1000000000) {zAffinity : Option (List UInt8)}
    {fields : List Reg} (hne : fields ≠ [])
    (hlength : ∀ z, zAffinity = some z → z ≠ [] ∧ z.length ≤ fields.length)
    (hfits : ∀ m ∈ fieldValues R zAffinity fields, m.n + m.nZero ≤ limit) :
    (∀ e, makeRecord R fileFormat limit zAffinity fields = .error e → e = .tooBig) ∧
    ∀ bytes nZero, makeRecord R fileFormat limit zAffinity fields = .ok (bytes, nZero) →
      bytes.length + nZero ≤ limit ∧
      recordUnpack nField (bytes ++ List.replicate nZero 0) =
        some (((fieldValues R zAffinity fields).take (max nField 1)).map canonical) := by
  have hshort : ¬ fields.length < max 1 (zAffinity.getD []).length := by
    have hpos := List.length_pos_iff.mpr hne
    cases zAffinity with
    | none => exact Nat.not_lt.mpr (Nat.max_le.mpr ⟨hpos, Nat.zero_le _⟩)
    | some z => exact Nat.not_lt.mpr (Nat.max_le.mpr ⟨hpos, (hlength z rfl).2⟩)
  have hsome : zAffinity ≠ some [] := fun h => (hlength [] h).1 rfl
  have hfits' : ∀ m ∈ fieldValues R zAffinity fields, Fits m :=
    fun m hm => Nat.le_trans (hfits m hm) hlimit
  rw [makeRecord, if_neg hshort, if_neg hsome]
  rcases writeRecord_spec fileFormat hlimit hfits with h | ⟨_, _, szHdr, h, hlen, hwritten⟩
  · rw [h]
    exact ⟨fun e he => (Except.error.inj he).symm, by rintro _ _ ⟨⟩⟩
  · rw [h]
    refine ⟨by rintro e ⟨⟩, fun bytes nZero hmake => ?_⟩
    obtain ⟨rfl, rfl⟩ := Prod.mk.inj (Except.ok.inj hmake)
    refine ⟨hlen, ?_⟩
    rw [recordUnpack, hwritten.getVarint32_eq, Option.bind_some]
    dsimp only
    rw [hwritten.toNat_szHdr]
    exact unpackFields_eq fileFormat szHdr _ _ _ _ _ hfits' (.start hwritten)

/-- Registers of which an integer column makes a number of the text `12`. -/
def Sample.registers : Registers Mem where
  applyAffinity
    | .str [0x31, 0x32], 0x44 => .int 12
    | pRec, _ => pRec
  value := id

/-- The affinities are integer, text and none. There are a number in a text, a text, a real that
is not a number, and a blob whose zeros stay out. -/
theorem record_read_as_written_zeros :
    makeRecord Sample.registers 4 1000 (some [0x44, 0x42, 0x41, 0x41])
      [.str [0x31, 0x32], .str [97, 98], .real 0x7ff8000000000000, .blob [7] 2] =
      .ok ([5, 1, 17, 7, 18, 12, 97, 98, 127, 248, 0, 0, 0, 0, 0, 0, 7], 2) ∧
    recordUnpack 4 ([5, 1, 17, 7, 18, 12, 97, 98, 127, 248, 0, 0, 0, 0, 0, 0, 7] ++
      List.replicate 2 0) = some [.int 12, .str [97, 98], .null, .blob [7, 0, 0] 0] := by
  have hmake : makeRecord Sample.registers 4 1000 (some [0x44, 0x42, 0x41, 0x41])
      [.str [0x31, 0x32], .str [97, 98], .real 0x7ff8000000000000, .blob [7] 2] =
      .ok ([5, 1, 17, 7, 18, 12, 97, 98, 127, 248, 0, 0, 0, 0, 0, 0, 7], 2) := by
    decide +kernel
  have hlength : ∀ z, some [(0x44 : UInt8), 0x42, 0x41, 0x41] = some z →
      z ≠ [] ∧ z.length ≤ 4 := by
    rintro _ ⟨⟩
    decide
  refine ⟨hmake, ?_⟩
  exact ((record_read_as_written Sample.registers 4 4 (by decide) (List.cons_ne_nil _ _) hlength
    (by decide)).2 _ _ hmake).2

end AlmondAndroid.Storage
