import AlmondAndroid.Storage.Record

/-!
# Comparing records

A cursor is moved to a key by comparing the records of a B-tree with the unpacked fields of
the key. `sqlite3VdbeFindCompare` picks one of three comparisons. The plain one walks along
the record; the others look at a first field that is an integer or a text, and only then
leave the rest to the plain one.
-/

namespace AlmondAndroid.Storage

universe u

/-- The order of two texts, when there is a collation. -/
abbrev CollSeq := List UInt8 → List UInt8 → Int

structure KeyInfo where
  nField : Nat
  nXField : Nat
  aSortOrder : Nat → Bool
  aColl : Nat → Option CollSeq

/-- `nField` is the length of `aMem`. -/
structure UnpackedRecord where
  pKeyInfo : KeyInfo
  defaultRc : Int
  aMem : List Mem

/-- The difference of the first bytes that differ. -/
def memcmp : List UInt8 → List UInt8 → Int
  | x :: a, y :: b => if x = y then memcmp a b else (x.toNat : Int) - y.toNat
  | _, _ => 0

def sqlite3BlobCompare (z1 z2 : List UInt8) : Int :=
  let nCmp := min z1.length z2.length
  let c := memcmp (z1.take nCmp) (z2.take nCmp)
  if c ≠ 0 then c else (z1.length : Int) - z2.length

def compareText (pColl : Option CollSeq) (z1 z2 : List UInt8) : Int :=
  match pColl with
  | some xCmp => xCmp z1 z2
  | none => sqlite3BlobCompare z1 z2

def compareInt (i1 i2 : Int64) : Int :=
  if i1 < i2 then -1 else if i2 < i1 then 1 else 0

def compareReal (r1 r2 : Float) : Int :=
  if r1 < r2 then -1 else if r2 < r1 then 1 else 0

/-- `NULL`, then the numbers, then text, then blobs. -/
def sqlite3MemCompare (pMem1 pMem2 : Mem) (pColl : Option CollSeq) : Int :=
  match pMem1, pMem2 with
  | .null, .null => 0
  | .null, _ => -1
  | _, .null => 1
  | .int i1, .int i2 => compareInt i1 i2
  | .real r1, .real r2 => compareReal (Float.ofBits r1) (Float.ofBits r2)
  | .int i1, .real r2 => compareReal i1.toFloat (Float.ofBits r2)
  | .real r1, .int i2 => compareReal (Float.ofBits r1) i2.toFloat
  | .str _, .int _ => 1
  | .str _, .real _ => 1
  | .blob _ _, .int _ => 1
  | .blob _ _, .real _ => 1
  | .int _, _ => -1
  | .real _, _ => -1
  | .blob _ _, .str _ => 1
  | .str _, .blob _ _ => -1
  | .str z1, .str z2 => compareText pColl z1 z2
  | .blob z1 _, .blob z2 _ => sqlite3BlobCompare z1 z2

/-- Field by field, with the collation and the sort order of each column. -/
def compareFields (pKeyInfo : KeyInfo) (defaultRc : Int) : Nat → List Mem → List Mem → Int
  | i, m :: fields, rhs :: rest =>
      let rc := sqlite3MemCompare m rhs (pKeyInfo.aColl i)
      if rc ≠ 0 then if pKeyInfo.aSortOrder i then -rc else rc
      else compareFields pKeyInfo defaultRc (i + 1) fields rest
  | _, _, _ => defaultRc

/-! ## The plain comparison -/

/-- The word of eight bytes that starts at `buf`. -/
def eightByteUInt : List UInt8 → Option UInt64
  | x0 :: x1 :: x2 :: x3 :: x4 :: x5 :: x6 :: x7 :: _ =>
      some ((fourByteUInt x0 x1 x2 x3).toUInt64 <<< 32 ||| (fourByteUInt x4 x5 x6 x7).toUInt64)
  | _ => none

/-- The cases that read no more than the bytes of the type; `none` when these are missing. -/
def vdbeRecordDecodeInt (serialType : UInt32) (aKey : List UInt8) : Option Int64 :=
  match serialType.toNat, aKey with
  | 0, x0 :: _ => some (oneByteInt x0)
  | 1, x0 :: _ => some (oneByteInt x0)
  | 2, x0 :: x1 :: _ => some (twoByteInt x0 x1)
  | 3, x0 :: x1 :: x2 :: _ => some (threeByteInt x0 x1 x2)
  | 4, x0 :: x1 :: x2 :: x3 :: _ => some (fourByteUInt x0 x1 x2 x3).toInt32.toInt64
  | 5, x0 :: x1 :: x2 :: x3 :: x4 :: x5 :: _ =>
      some ((fourByteUInt x2 x3 x4 x5).toUInt64.toInt64 +
        ((1 : Int64) <<< 32) * twoByteInt x0 x1)
  | 6, aKey => (eightByteUInt aKey).map UInt64.toInt64
  | _ + 7, _ => some (serialType - 8).toUInt64.toInt64
  | _, _ => none

/-- What `sqlite3VdbeSerialGet` leaves in the union of the cell, as a double. -/
def doubleOf (serialType : UInt32) (buf : List UInt8) : Option Float :=
  if serialType = 7 then (eightByteUInt buf).map Float.ofBits
  else (sqlite3VdbeSerialGet buf serialType).map fun r => r.1.u.toInt64.toFloat

/-- The comparison with one field, and the type that was read for it. An error is the
corruption that is noticed; `none` stands for a read past the end. -/
def compareField (pColl : Option CollSeq) (aKey1 : List UInt8) (idx1 d1 : Nat) (pRhs : Mem) :
    Option (Except Unit (Int × UInt32)) :=
  match pRhs with
  | .int rhs => aKey1[idx1]?.bind fun b =>
      let serialType := b.toUInt32
      if 10 ≤ serialType then some (.ok (1, serialType))
      else if serialType = 0 then some (.ok (-1, serialType))
      else if serialType = 7 then
        (doubleOf serialType (aKey1.drop d1)).map fun lhs =>
          .ok (compareReal lhs rhs.toFloat, serialType)
      else
        (vdbeRecordDecodeInt serialType (aKey1.drop d1)).map fun lhs =>
          .ok (compareInt lhs rhs, serialType)
  | .real rhs => aKey1[idx1]?.bind fun b =>
      let serialType := b.toUInt32
      if 10 ≤ serialType then some (.ok (1, serialType))
      else if serialType = 0 then some (.ok (-1, serialType))
      else
        (doubleOf serialType (aKey1.drop d1)).map fun lhs =>
          .ok (compareReal lhs (Float.ofBits rhs), serialType)
  | .str z => (getVarint32 (aKey1.drop idx1)).map fun (serialType, _) =>
      if serialType < 12 then .ok (-1, serialType)
      else if serialType &&& 1 = 0 then .ok (1, serialType)
      else
        let n := ((serialType - 12) / 2).toNat
        if aKey1.length < d1 + n then .error ()
        else .ok (compareText pColl ((aKey1.drop d1).take n) z, serialType)
  | .blob z _ => (getVarint32 (aKey1.drop idx1)).map fun (serialType, _) =>
      if serialType < 12 ∨ serialType &&& 1 ≠ 0 then .ok (-1, serialType)
      else
        let nStr := ((serialType - 12) / 2).toNat
        if aKey1.length < d1 + nStr then .error ()
        else .ok (sqlite3BlobCompare ((aKey1.drop d1).take nStr) z, serialType)
  | .null => aKey1[idx1]?.map fun b => .ok (if b ≠ 0 then 1 else 0, b.toUInt32)

/-- The loop, from the field `i` on, with the fields `pRhs` of the key that are left. -/
def compareLoop (pPKey2 : UnpackedRecord) (aKey1 : List UInt8) (szHdr1 : Nat) :
    Nat → List Mem → Nat → Nat → Option (Except Unit Int)
  | _, [], _, _ => none
  | i, pRhs :: rest, idx1, d1 =>
      match compareField (pPKey2.pKeyInfo.aColl i) aKey1 idx1 d1 pRhs with
      | none => none
      | some (.error e) => some (.error e)
      | some (.ok (rc, serialType)) =>
          if rc ≠ 0 then some (.ok (if pPKey2.pKeyInfo.aSortOrder i then -rc else rc))
          else
            let d1 := d1 + sqlite3VdbeSerialTypeLen serialType
            let idx1 := idx1 + sqlite3VarintLen serialType.toUInt64
            if idx1 < szHdr1 ∧ rest ≠ [] ∧ d1 ≤ aKey1.length then
              compareLoop pPKey2 aKey1 szHdr1 (i + 1) rest idx1 d1
            else some (.ok pPKey2.defaultRc)

def sqlite3VdbeRecordCompareWithSkip (aKey1 : List UInt8) (pPKey2 : UnpackedRecord)
    (bSkip : Bool) : Option (Except Unit Int) :=
  if bSkip then
    (getVarint32 (aKey1.drop 1)).bind fun (s1, n) =>
      aKey1[0]?.bind fun b =>
        compareLoop pPKey2 aKey1 b.toNat 1 pPKey2.aMem.tail (1 + n)
          (b.toNat + sqlite3VdbeSerialTypeLen s1)
  else
    (getVarint32 aKey1).bind fun (szHdr1, idx1) =>
      if aKey1.length < szHdr1.toNat then some (.error ())
      else compareLoop pPKey2 aKey1 szHdr1.toNat 0 pPKey2.aMem idx1 szHdr1.toNat

def sqlite3VdbeRecordCompare (aKey1 : List UInt8) (pPKey2 : UnpackedRecord) :
    Option (Except Unit Int) :=
  sqlite3VdbeRecordCompareWithSkip aKey1 pPKey2 false

/-! ## The faster comparisons -/

/-- `r1`. -/
def UnpackedRecord.r1 (p : UnpackedRecord) : Int := if p.pKeyInfo.aSortOrder 0 then 1 else -1

/-- `r2`. -/
def UnpackedRecord.r2 (p : UnpackedRecord) : Int := if p.pKeyInfo.aSortOrder 0 then -1 else 1

/-- What both do when the first fields are equal. -/
def compareTail (aKey1 : List UInt8) (pPKey2 : UnpackedRecord) : Option (Except Unit Int) :=
  if 1 < pPKey2.aMem.length then sqlite3VdbeRecordCompareWithSkip aKey1 pPKey2 true
  else some (.ok pPKey2.defaultRc)

/-- The integer of the first field, in the cases of the switch that give one. -/
def firstInt (serialType : Nat) (aKey : List UInt8) : Option (Option Int64) :=
  match serialType, aKey with
  | 1, x0 :: _ => some (some (oneByteInt x0))
  | 2, x0 :: x1 :: _ => some (some (twoByteInt x0 x1))
  | 3, x0 :: x1 :: x2 :: _ => some (some (threeByteInt x0 x1 x2))
  | 4, x0 :: x1 :: x2 :: x3 :: _ => some (some (fourByteUInt x0 x1 x2 x3).toInt32.toInt64)
  | 5, x0 :: x1 :: x2 :: x3 :: x4 :: x5 :: _ =>
      some (some ((fourByteUInt x2 x3 x4 x5).toUInt64.toInt64 +
        ((1 : Int64) <<< 32) * twoByteInt x0 x1))
  | 6, aKey => (eightByteUInt aKey).map fun x => some x.toInt64
  | 8, _ => some (some 0)
  | 9, _ => some (some 1)
  | 0, _ => some none
  | 7, _ => some none
  | _ + 10, _ => some none
  | _, _ => none

def vdbeRecordCompareInt (aKey1 : List UInt8) (pPKey2 : UnpackedRecord) :
    Option (Except Unit Int) :=
  aKey1[0]?.bind fun b => aKey1[1]?.bind fun serialType =>
    let v := (pPKey2.aMem.headD .null).u.toInt64
    (firstInt serialType.toNat (aKey1.drop (b &&& 0x3f).toNat)).bind fun
      | none => sqlite3VdbeRecordCompare aKey1 pPKey2
      | some lhs =>
          if lhs < v then some (.ok pPKey2.r1)
          else if v < lhs then some (.ok pPKey2.r2)
          else compareTail aKey1 pPKey2

/-- The type is read into an `int`. -/
def vdbeRecordCompareString (aKey1 : List UInt8) (pPKey2 : UnpackedRecord) :
    Option (Except Unit Int) :=
  (getVarint32 (aKey1.drop 1)).bind fun (serialType, _) =>
    if serialType.toInt32 < 12 then some (.ok pPKey2.r1)
    else if serialType &&& 1 = 0 then some (.ok pPKey2.r2)
    else aKey1[0]?.bind fun szHdr =>
      let nStr := ((serialType - 12) / 2).toNat
      if aKey1.length < szHdr.toNat + nStr then some (.error ())
      else
        let res := sqlite3BlobCompare ((aKey1.drop szHdr.toNat).take nStr)
          (pPKey2.aMem.headD .null).z
        if res = 0 then compareTail aKey1 pPKey2
        else if 0 < res then some (.ok pPKey2.r2)
        else some (.ok pPKey2.r1)

def sqlite3VdbeFindCompare (p : UnpackedRecord) :
    List UInt8 → UnpackedRecord → Option (Except Unit Int) :=
  if p.pKeyInfo.nField + p.pKeyInfo.nXField ≤ 13 then
    match p.aMem.headD .null with
    | .int _ => vdbeRecordCompareInt
    | .str _ =>
        if (p.pKeyInfo.aColl 0).isNone then vdbeRecordCompareString else sqlite3VdbeRecordCompare
    | _ => sqlite3VdbeRecordCompare
  else sqlite3VdbeRecordCompare

/-! ## The types of a record -/

/-- A byte is the whole type, or its highest bit says that it is not. -/
theorem putVarint32_first (t : UInt32) : ∃ b rest, putVarint32 t = b :: rest ∧
    (t.toNat < 128 → b.toUInt32 = t) ∧ (128 ≤ t.toNat → 128 ≤ b.toNat) := by
  have hpos := varintLen_pos t.toUInt64
  have hread := readVarint_put t.toUInt64 []
  rw [varintLen_word] at hpos
  rw [List.append_nil, ← putVarint32_eq, UInt32.toNat_toUInt64] at hread
  by_cases hsmall : t.toNat < 128
  · have hlt : t < 0x80 := UInt32.lt_iff_toNat_lt.mpr hsmall
    refine ⟨t.toUInt8, [], by rw [putVarint32, if_pos hlt], fun _ => ?_, fun h => by omega⟩
    apply UInt32.toNat_inj.mp
    rw [UInt8.toNat_toUInt32, UInt32.toNat_toUInt8]
    omega
  · cases hput : putVarint32 t with
    | nil =>
      rw [hput] at hpos
      exact absurd hpos (Nat.lt_irrefl 0)
    | cons b rest =>
      refine ⟨b, rest, rfl, fun h => absurd h hsmall, fun _ => ?_⟩
      apply Nat.le_of_not_lt
      intro hb
      rw [hput, readVarint_last (by decide) _ hb] at hread
      have hvalue := congrArg Prod.fst (Option.some.inj hread)
      dsimp only at hvalue
      omega

/-- The types of integers. -/
abbrev IsIntType (t : UInt32) : Prop :=
  t = 1 ∨ t = 2 ∨ t = 3 ∨ t = 4 ∨ t = 5 ∨ t = 6 ∨ t = 8 ∨ t = 9

theorem isIntType_int (i : Int64) (fileFormat : Nat) :
    IsIntType (sqlite3VdbeSerialType (.int i) fileFormat) := by
  rcases serialType_int i fileFormat with ⟨_, h⟩ | ⟨_, h⟩ | ⟨_, h⟩ | ⟨_, h⟩ | ⟨_, h⟩ | ⟨_, h⟩ |
    ⟨_, h⟩ | h
  all_goals rw [h, IsIntType]; simp

theorem fourByteInt_eq (x0 x1 x2 x3 : UInt8) :
    fourByteInt x0 x1 x2 x3 = (fourByteUInt x0 x1 x2 x3).toInt32.toInt64 := by
  have h0 := x0.toNat_lt
  have h1 := x1.toNat_lt
  have h2 := x2.toNat_lt
  have h3 := x3.toNat_lt
  apply eq_of_toNat
  rw [toNat_fourByteInt, toNat_signed, toNat_fourByteUInt]
  split <;> split <;> omega

theorem eightByteUInt_add (a b : UInt32) :
    (a.toUInt64 <<< 32) + b.toUInt64 = a.toUInt64 <<< 32 ||| b.toUInt64 := by
  have ha := a.toNat_lt
  have hb := b.toNat_lt
  have h32 : (32 : UInt64).toNat % 64 = 32 := rfl
  have hword := toNat_joinWords a b
  rw [joinWords] at hword
  apply UInt64.toNat_inj.mp
  rw [hword, UInt64.toNat_add, UInt64.toNat_shiftLeft, h32, Nat.shiftLeft_eq,
    UInt32.toNat_toUInt64, UInt32.toNat_toUInt64]
  omega

/-- The other readers of integers read what `sqlite3VdbeSerialGet` reads. -/
theorem decodeInt_of_get {t : UInt32} (ht : IsIntType t) {buf : List UInt8} {i : Int64} {n : Nat}
    (h : sqlite3VdbeSerialGet buf t = some (.int i, n)) :
    vdbeRecordDecodeInt t buf = some i ∧ firstInt t.toNat buf = some (some i) := by
  rcases ht with rfl | rfl | rfl | rfl | rfl | rfl | rfl | rfl
  · rcases buf with _ | ⟨x0, buf⟩ <;> cases h
    exact ⟨rfl, rfl⟩
  · rcases buf with _ | ⟨x0, _ | ⟨x1, buf⟩⟩ <;> cases h
    exact ⟨rfl, rfl⟩
  · rcases buf with _ | ⟨x0, _ | ⟨x1, _ | ⟨x2, buf⟩⟩⟩ <;> cases h
    exact ⟨rfl, rfl⟩
  · rcases buf with _ | ⟨x0, _ | ⟨x1, _ | ⟨x2, _ | ⟨x3, buf⟩⟩⟩⟩ <;> cases h
    rw [fourByteInt_eq]
    exact ⟨rfl, rfl⟩
  · rcases buf with _ | ⟨x0, _ | ⟨x1, _ | ⟨x2, _ | ⟨x3, _ | ⟨x4, _ | ⟨x5, buf⟩⟩⟩⟩⟩⟩ <;> cases h
    exact ⟨rfl, rfl⟩
  · rcases buf with _ | ⟨x0, _ | ⟨x1, _ | ⟨x2, _ | ⟨x3, _ | ⟨x4, _ | ⟨x5, _ | ⟨x6, _ |
      ⟨x7, buf⟩⟩⟩⟩⟩⟩⟩⟩ <;> cases h
    rw [eightByteUInt_add]
    exact ⟨rfl, rfl⟩
  · cases h
    exact ⟨rfl, rfl⟩
  · cases h
    exact ⟨rfl, rfl⟩

/-- A real that is a number is read by its bits. -/
theorem doubleOf_real {r : UInt64} {buf : List UInt8} {n : Nat}
    (h : sqlite3VdbeSerialGet buf 7 = some (.real r, n)) :
    doubleOf 7 buf = some (Float.ofBits r) := by
  rcases buf with _ | ⟨x0, _ | ⟨x1, _ | ⟨x2, _ | ⟨x3, _ | ⟨x4, _ | ⟨x5, _ | ⟨x6, _ |
    ⟨x7, buf⟩⟩⟩⟩⟩⟩⟩⟩
  case cons.cons.cons.cons.cons.cons.cons.cons =>
    have hget : sqlite3VdbeSerialGet (x0 :: x1 :: x2 :: x3 :: x4 :: x5 :: x6 :: x7 :: buf) 7 =
        some (canonical (.real ((fourByteUInt x0 x1 x2 x3).toUInt64 <<< 32 +
          (fourByteUInt x4 x5 x6 x7).toUInt64)), 8) := rfl
    have hvalue := congrArg Prod.fst (Option.some.inj (hget.symm.trans h))
    rw [eightByteUInt_add] at hvalue
    dsimp only [canonical] at hvalue
    split at hvalue
    · cases hvalue
    · rw [← Mem.real.inj hvalue]
      rfl
  all_goals cases h

theorem doubleOf_int {t : UInt32} (ht : IsIntType t) {buf : List UInt8} {i : Int64} {n : Nat}
    (h : sqlite3VdbeSerialGet buf t = some (.int i, n)) : doubleOf t buf = some i.toFloat := by
  have h7 : t ≠ 7 := by
    rcases ht with rfl | rfl | rfl | rfl | rfl | rfl | rfl | rfl <;> decide
  rw [doubleOf, if_neg h7, h]
  rfl

namespace ComeTo

variable {fileFormat szHdr idx d : Nat} {key : List UInt8} {m : Mem} {fields : List Mem}

theorem first (h : ComeTo fileFormat key szHdr (m :: fields) idx d) : ∃ b, key[idx]? = some b ∧
    ((sqlite3VdbeSerialType m fileFormat).toNat < 128 →
      b.toUInt32 = sqlite3VdbeSerialType m fileFormat) ∧
    (12 ≤ (sqlite3VdbeSerialType m fileFormat).toNat → 10 ≤ b.toUInt32) := by
  obtain ⟨b, rest, hput, hsmall, hlarge⟩ := putVarint32_first (sqlite3VdbeSerialType m fileFormat)
  have htypes := h.types
  rw [serialTypes, List.flatMap_cons, hput] at htypes
  have hb : key[idx]? = some b := by
    rw [← Nat.add_zero idx, ← List.getElem?_drop, htypes]
    rfl
  refine ⟨b, hb, hsmall, fun h12 => ?_⟩
  rw [UInt32.le_iff_toNat_le]
  have h10 : (10 : UInt32).toNat = 10 := rfl
  by_cases h128 : (sqlite3VdbeSerialType m fileFormat).toNat < 128
  · rw [hsmall h128, h10]
    omega
  · have := hlarge (Nat.le_of_not_lt h128)
    rw [UInt8.toNat_toUInt32, h10]
    omega

theorem first_null (h : ComeTo fileFormat key szHdr (.null :: fields) idx d) :
    key[idx]? = some 0 := by
  obtain ⟨b, hb, hsmall, _⟩ := h.first
  have hzero : b.toUInt32 = (0 : UInt8).toUInt32 := hsmall (Nat.zero_lt_succ 127)
  rw [hb, UInt8.toUInt32_inj.mp hzero]

theorem first_int {i : Int64} (h : ComeTo fileFormat key szHdr (.int i :: fields) idx d) :
    ∃ b, key[idx]? = some b ∧ b.toUInt32 = sqlite3VdbeSerialType (.int i) fileFormat := by
  obtain ⟨b, hb, hsmall, _⟩ := h.first
  refine ⟨b, hb, hsmall ?_⟩
  have ht := isIntType_int i fileFormat
  rcases ht with h | h | h | h | h | h | h | h <;> rw [h] <;> decide

theorem first_real {r : UInt64} (h : ComeTo fileFormat key szHdr (.real r :: fields) idx d) :
    key[idx]? = some 7 := by
  obtain ⟨b, hb, hsmall, _⟩ := h.first
  have hseven : b.toUInt32 = (7 : UInt8).toUInt32 :=
    hsmall (Nat.lt_of_sub_pos (Nat.zero_lt_succ 120))
  rw [hb, UInt8.toUInt32_inj.mp hseven]

theorem first_large (h : ComeTo fileFormat key szHdr (m :: fields) idx d)
    (hm : 12 ≤ sqlite3VdbeSerialType m fileFormat) :
    ∃ b, key[idx]? = some b ∧ 10 ≤ b.toUInt32 := by
  obtain ⟨b, hb, _, hlarge⟩ := h.first
  exact ⟨b, hb, hlarge (UInt32.le_iff_toNat_le.mp hm)⟩

end ComeTo

section

variable {fileFormat szHdr idx d : Nat} {key : List UInt8} {m : Mem} {fields : List Mem}

/-- The comparison with the field `pRhs` is that of the values, and when they are equal, the
type of the field is the one that was read. -/
def ComparesAsValue (fileFormat : Nat) (key : List UInt8) (idx d : Nat) (m : Mem)
    (pColl : Option CollSeq) (pRhs : Mem) : Prop :=
  ∃ t, compareField pColl key idx d pRhs =
      some (.ok (sqlite3MemCompare (canonical m) pRhs pColl, t)) ∧
    (sqlite3MemCompare (canonical m) pRhs pColl = 0 → t = sqlite3VdbeSerialType m fileFormat)

theorem result_one {m : Mem} {fileFormat : Nat} {t : UInt32} (h : (1 : Int) = 0) :
    t = sqlite3VdbeSerialType m fileFormat :=
  absurd h (by decide)

theorem compareField_number (h : ComeTo fileFormat key szHdr (m :: fields) idx d) (hm : Fits m)
    (hnan : canonical m = m.expandBlob) (pColl : Option CollSeq) {pRhs : Mem}
    (hrhs : (∃ i, pRhs = .int i) ∨ ∃ r, pRhs = .real r) :
    ComparesAsValue fileFormat key idx d m pColl pRhs := by
  have hget := h.get hm
  have hlarge : ∀ {b}, key[idx]? = some b → 10 ≤ b.toUInt32 →
      compareField pColl key idx d pRhs = some (.ok (1, b.toUInt32)) := by
    intro b hb h10
    rcases hrhs with ⟨rhs, rfl⟩ | ⟨rhs, rfl⟩
    all_goals rw [compareField, hb, Option.bind_some, if_pos h10]
  cases m with
  | null =>
    refine ⟨0, ?_, fun _ => rfl⟩
    rcases hrhs with ⟨rhs, rfl⟩ | ⟨rhs, rfl⟩
    all_goals rw [compareField, h.first_null]; rfl
  | int i =>
    obtain ⟨b, hb, htype⟩ := h.first_int
    have ht := isIntType_int i fileFormat
    refine ⟨_, ?_, fun _ => rfl⟩
    rcases hrhs with ⟨rhs, rfl⟩ | ⟨rhs, rfl⟩
    all_goals
      rw [compareField, hb, Option.bind_some, htype]
      generalize sqlite3VdbeSerialType (.int i) fileFormat = t at ht hget
      dsimp only
    · rw [(decodeInt_of_get ht hget).1]
      rcases ht with rfl | rfl | rfl | rfl | rfl | rfl | rfl | rfl <;> rfl
    · rw [doubleOf_int ht hget]
      rcases ht with rfl | rfl | rfl | rfl | rfl | rfl | rfl | rfl <;> rfl
  | real r =>
    have h7 : (7 : UInt8).toUInt32 = 7 := rfl
    rw [hnan] at hget
    refine ⟨7, ?_, fun _ => rfl⟩
    rcases hrhs with ⟨rhs, rfl⟩ | ⟨rhs, rfl⟩
    all_goals
      rw [compareField, h.first_real, hnan, Option.bind_some, h7]
      dsimp only
      rw [doubleOf_real hget]
      rfl
  | str z =>
    obtain ⟨b, hb, h10⟩ := h.first_large (type_str_le hm fileFormat)
    rcases hrhs with ⟨rhs, rfl⟩ | ⟨rhs, rfl⟩
    all_goals exact ⟨b.toUInt32, hlarge hb h10, result_one⟩
  | blob z nZero =>
    obtain ⟨b, hb, h10⟩ := h.first_large (type_blob_le hm fileFormat)
    rcases hrhs with ⟨rhs, rfl⟩ | ⟨rhs, rfl⟩
    all_goals exact ⟨b.toUInt32, hlarge hb h10, result_one⟩

theorem compareField_null (h : ComeTo fileFormat key szHdr (m :: fields) idx d) (hm : Fits m)
    (hnan : canonical m = m.expandBlob) (pColl : Option CollSeq) :
    ComparesAsValue fileFormat key idx d m pColl .null := by
  have hone : ∀ {b : UInt8}, b ≠ 0 → key[idx]? = some b →
      compareField pColl key idx d .null = some (.ok (1, b.toUInt32)) := by
    intro b hne hb
    rw [compareField, hb, Option.map_some, if_pos hne]
  have hlarge : ∀ {b : UInt8}, 10 ≤ b.toUInt32 → b ≠ 0 := by
    rintro b h rfl
    exact absurd h (by decide)
  cases m with
  | null =>
    refine ⟨0, ?_, fun _ => rfl⟩
    rw [compareField, h.first_null]
    rfl
  | int i =>
    obtain ⟨b, hb, htype⟩ := h.first_int
    refine ⟨b.toUInt32, hone ?_ hb, result_one⟩
    rintro rfl
    have ht := isIntType_int i fileFormat
    rw [← htype] at ht
    exact absurd ht (by decide)
  | real r =>
    refine ⟨7, ?_, fun _ => rfl⟩
    rw [hnan, hone (by decide) h.first_real]
    rfl
  | str z =>
    obtain ⟨b, hb, hb10⟩ := h.first_large (type_str_le hm fileFormat)
    exact ⟨b.toUInt32, hone (hlarge hb10) hb, result_one⟩
  | blob z nZero =>
    obtain ⟨b, hb, hb10⟩ := h.first_large (type_blob_le hm fileFormat)
    exact ⟨b.toUInt32, hone (hlarge hb10) hb, result_one⟩

/-- What the type of a text or of a blob says. -/
theorem type_parts {t : UInt32} {n c : Nat} (hc : c ≤ 1) (ht : t.toNat = 2 * n + c + 12) :
    ¬ t < 12 ∧ ((t - 12) / 2).toNat = n ∧ (t &&& 1).toNat = c := by
  have h12 : (12 : UInt32).toNat = 12 := rfl
  have h1 : (1 : UInt32).toNat = 2 ^ 1 - 1 := rfl
  have h2 : (2 : UInt32).toNat = 2 := rfl
  have hle : (12 : UInt32) ≤ t := by
    rw [UInt32.le_iff_toNat_le]
    omega
  refine ⟨?_, ?_, ?_⟩
  · rw [UInt32.lt_iff_toNat_lt]
    omega
  · rw [UInt32.toNat_div, UInt32.toNat_sub_of_le _ _ hle, h12, h2]
    omega
  · rw [UInt32.toNat_and, h1, Nat.and_two_pow_sub_one_eq_mod]
    omega

theorem intType_lt {t : UInt32} (ht : IsIntType t) : t < 12 := by
  rcases ht with rfl | rfl | rfl | rfl | rfl | rfl | rfl | rfl <;> decide

/-- The bytes of a text or of a blob are where the comparison takes them from. -/
theorem take_content (h : ComeTo fileFormat key szHdr (m :: fields) idx d) :
    ¬ key.length < d + (content fileFormat m).length ∧
    (key.drop d).take (content fileFormat m).length = content fileFormat m := by
  refine ⟨Nat.not_lt_of_le h.next.le, ?_⟩
  rw [h.contents, List.flatMap_cons, List.take_left]

theorem content_str {z : List UInt8} (h : Fits (.str z)) (fileFormat : Nat) :
    content fileFormat (.str z) = z := by
  rw [content, serialPut_of_le (type_str_le h fileFormat)]
  exact List.append_nil z

theorem content_blob {z : List UInt8} {nZero : Nat} (h : Fits (.blob z nZero))
    (fileFormat : Nat) : content fileFormat (.blob z nZero) = z ++ List.replicate nZero 0 := by
  rw [content, serialPut_of_le (type_blob_le h fileFormat)]
  rfl

theorem compareField_str (h : ComeTo fileFormat key szHdr (m :: fields) idx d) (hm : Fits m)
    (hnan : canonical m = m.expandBlob) (pColl : Option CollSeq) (z : List UInt8) :
    ComparesAsValue fileFormat key idx d m pColl (.str z) := by
  refine ⟨_, ?_, fun _ => rfl⟩
  rw [compareField, h.type, Option.map_some]
  dsimp only
  cases m with
  | null => rfl
  | int i =>
    rw [if_pos (intType_lt (isIntType_int i fileFormat))]
    rfl
  | real r =>
    rw [hnan]
    rfl
  | str z1 =>
    obtain ⟨hge, hn, hodd⟩ := type_parts (Nat.le_refl 1) (toNat_str hm fileFormat)
    obtain ⟨hlen, htake⟩ := take_content h
    have hne : ¬ sqlite3VdbeSerialType (.str z1) fileFormat &&& 1 = 0 := by
      intro h
      rw [h] at hodd
      cases hodd
    rw [content_str hm] at hlen htake
    rw [if_neg hge, if_neg hne, hn, if_neg hlen, htake]
    rfl
  | blob z1 nZero =>
    obtain ⟨hge, _, heven⟩ := type_parts (Nat.zero_le 1) (toNat_blob hm fileFormat)
    have hzero : sqlite3VdbeSerialType (.blob z1 nZero) fileFormat &&& 1 = 0 :=
      UInt32.toNat_inj.mp heven
    rw [if_neg hge, if_pos hzero]
    rfl

theorem compareField_blob (h : ComeTo fileFormat key szHdr (m :: fields) idx d) (hm : Fits m)
    (hnan : canonical m = m.expandBlob) (pColl : Option CollSeq) (z : List UInt8) (nZero : Nat) :
    ComparesAsValue fileFormat key idx d m pColl (.blob z nZero) := by
  refine ⟨_, ?_, fun _ => rfl⟩
  rw [compareField, h.type, Option.map_some]
  dsimp only
  cases m with
  | null => rfl
  | int i =>
    rw [if_pos (.inl (intType_lt (isIntType_int i fileFormat)))]
    rfl
  | real r =>
    rw [hnan]
    rfl
  | str z1 =>
    obtain ⟨_, _, hodd⟩ := type_parts (Nat.le_refl 1) (toNat_str hm fileFormat)
    have hne : ¬ sqlite3VdbeSerialType (.str z1) fileFormat &&& 1 = 0 := by
      intro h
      rw [h] at hodd
      cases hodd
    rw [if_pos (.inr hne)]
    rfl
  | blob z1 nZero1 =>
    obtain ⟨hge, hn, heven⟩ := type_parts (Nat.zero_le 1) (toNat_blob hm fileFormat)
    have hzero : sqlite3VdbeSerialType (.blob z1 nZero1) fileFormat &&& 1 = 0 :=
      UInt32.toNat_inj.mp heven
    obtain ⟨hlen, htake⟩ := take_content h
    have hlength : (z1 ++ List.replicate nZero1 (0 : UInt8)).length = z1.length + nZero1 := by
      rw [List.length_append, List.length_replicate]
    rw [content_blob hm, hlength] at hlen htake
    rw [if_neg (not_or.mpr ⟨hge, not_not.mpr hzero⟩), hn, if_neg hlen, htake]
    rfl

theorem compareField_eq (h : ComeTo fileFormat key szHdr (m :: fields) idx d) (hm : Fits m)
    (hnan : canonical m = m.expandBlob) (pColl : Option CollSeq) (pRhs : Mem) :
    ComparesAsValue fileFormat key idx d m pColl pRhs := by
  cases pRhs with
  | null => exact compareField_null h hm hnan pColl
  | int i => exact compareField_number h hm hnan pColl (.inl ⟨i, rfl⟩)
  | real r => exact compareField_number h hm hnan pColl (.inr ⟨r, rfl⟩)
  | str z => exact compareField_str h hm hnan pColl z
  | blob z nZero => exact compareField_blob h hm hnan pColl z nZero

end

/-! ## The plain comparison orders records as their values -/

theorem compareLoop_eq (fileFormat : Nat) (p : UnpackedRecord) {key : List UInt8} {szHdr : Nat} :
    ∀ (fields : List Mem) (i : Nat) (pRhs : List Mem) (idx d : Nat), fields ≠ [] → pRhs ≠ [] →
      (∀ m ∈ fields, Fits m ∧ canonical m = m.expandBlob) →
      ComeTo fileFormat key szHdr fields idx d →
      compareLoop p key szHdr i pRhs idx d =
        some (.ok (compareFields p.pKeyInfo p.defaultRc i (fields.map canonical) pRhs)) := by
  intro fields
  induction fields with
  | nil => intro i pRhs idx d hne; exact absurd rfl hne
  | cons m fields ih =>
    intro i pRhs idx d _ hrhs hfields h
    cases pRhs with
    | nil => exact absurd rfl hrhs
    | cons rhs rest =>
      obtain ⟨hm, hnan⟩ := hfields m List.mem_cons_self
      obtain ⟨t, hfield, htype⟩ := compareField_eq h hm hnan (p.pKeyInfo.aColl i) rhs
      rw [compareLoop, hfield, List.map_cons, compareFields]
      dsimp only
      split
      · rfl
      · rename_i hrc
        have hnext := h.next
        have hlen : sqlite3VdbeSerialTypeLen (sqlite3VdbeSerialType m fileFormat) =
            (content fileFormat m).length := (readsBack hm fileFormat).length
        rw [htype (Decidable.not_not.mp hrc), hlen, varintLen_word]
        cases fields with
        | nil =>
          have hsize := hnext.size
          rw [if_neg fun h => Nat.lt_irrefl _ (hsize ▸ h.1)]
          rfl
        | cons m' fields =>
          cases rest with
          | nil =>
            rw [if_neg fun h => h.2.1 rfl]
            rfl
          | cons rhs' rest =>
            rw [if_pos ⟨hnext.lt, List.cons_ne_nil _ _, hnext.le⟩]
            exact ih (i + 1) (rhs' :: rest) _ _ (List.cons_ne_nil _ _) (List.cons_ne_nil _ _)
              (fun m hm => hfields m (List.mem_cons_of_mem _ hm)) hnext

section

variable {fileFormat szHdr : Nat} {key : List UInt8} {fields : List Mem} {p : UnpackedRecord}

theorem recordCompare_eq (h : Written fileFormat fields key szHdr) (hne : fields ≠ [])
    (hkey : p.aMem ≠ []) (hfields : ∀ m ∈ fields, Fits m ∧ canonical m = m.expandBlob) :
    sqlite3VdbeRecordCompare key p =
      some (.ok (compareFields p.pKeyInfo p.defaultRc 0 (fields.map canonical) p.aMem)) := by
  have hstart := ComeTo.start h
  rw [sqlite3VdbeRecordCompare, sqlite3VdbeRecordCompareWithSkip, if_neg (by decide),
    h.getVarint32_eq, Option.bind_some]
  dsimp only
  rw [h.toNat_szHdr, if_neg (Nat.not_lt_of_le hstart.le)]
  exact compareLoop_eq fileFormat p fields 0 p.aMem _ _ hne hkey hfields hstart

/-- A header of less than 128 bytes gives its size in one byte. -/
theorem oneByte_size (h : Written fileFormat fields key szHdr) (hsmall : szHdr < 128) :
    (putVarint32 (UInt32.ofNat szHdr)).length = 1 ∧ key[0]? = some (UInt8.ofNat szHdr) := by
  have hnat := h.toNat_szHdr
  have hlt : UInt32.ofNat szHdr < 0x80 := by
    rw [UInt32.lt_iff_toNat_lt, hnat]
    exact hsmall
  have hbyte : (UInt32.ofNat szHdr).toUInt8 = UInt8.ofNat szHdr := by
    apply UInt8.toNat_inj.mp
    rw [UInt32.toNat_toUInt8, hnat, UInt8.toNat_ofNat']
  have hput : putVarint32 (UInt32.ofNat szHdr) = [UInt8.ofNat szHdr] := by
    rw [putVarint32, if_pos hlt, hbyte]
  refine ⟨by rw [hput, List.length_singleton], ?_⟩
  rw [h.key, hput]
  rfl

theorem ComeTo.afterSize (h : Written fileFormat fields key szHdr) (hsmall : szHdr < 128) :
    ComeTo fileFormat key szHdr fields 1 szHdr := by
  have hstart := ComeTo.start h
  rw [(oneByte_size h hsmall).1] at hstart
  exact hstart

theorem compareTail_eq (h : Written fileFormat fields key szHdr) (hsmall : szHdr < 128)
    (hne : fields ≠ []) (hkey : p.aMem ≠ [])
    (hskip : fields.length = 1 → p.aMem.length = 1)
    (hfields : ∀ m ∈ fields, Fits m ∧ canonical m = m.expandBlob) :
    compareTail key p = some (.ok (compareFields p.pKeyInfo p.defaultRc 1
      (fields.tail.map canonical) p.aMem.tail)) := by
  obtain ⟨m, fields, rfl⟩ := List.exists_cons_of_ne_nil hne
  obtain ⟨pRhs, rest, hmem⟩ := List.exists_cons_of_ne_nil hkey
  have hfirst := ComeTo.afterSize h hsmall
  have hlen : sqlite3VdbeSerialTypeLen (sqlite3VdbeSerialType m fileFormat) =
      (content fileFormat m).length :=
    (readsBack (hfields m List.mem_cons_self).1 fileFormat).length
  have hbyte : (UInt8.ofNat szHdr).toNat = szHdr := by
    rw [UInt8.toNat_ofNat']
    omega
  rw [compareTail]
  split
  · rename_i hlong
    have hrest : rest ≠ [] := by
      rintro rfl
      rw [hmem] at hlong
      exact absurd hlong (by simp)
    have hmore : fields ≠ [] := by
      rintro rfl
      have := hskip rfl
      omega
    rw [sqlite3VdbeRecordCompareWithSkip, if_pos rfl, hfirst.type, Option.bind_some,
      (oneByte_size h hsmall).2]
    dsimp only
    rw [Option.bind_some, hbyte, hlen, hmem]
    exact compareLoop_eq fileFormat p fields 1 rest _ _ hmore hrest
      (fun m hm => hfields m (List.mem_cons_of_mem _ hm)) hfirst.next
  · rename_i hshort
    have hrest : rest = [] := by
      rw [hmem, List.length_cons] at hshort
      exact List.length_eq_zero_iff.mp (by omega)
    rw [hmem, hrest]
    cases fields <;> rfl

theorem putVarint32_length_le (t : UInt32) : (putVarint32 t).length ≤ 5 := by
  have ht := t.toNat_lt
  have hlen := length_putVarint32_ofNat ht
  rw [UInt32.ofNat_toNat] at hlen
  rw [hlen]
  exact (varintLen_le (Nat.lt_trans ht (by decide)) 4).mpr (Nat.lt_trans ht (by decide))

theorem serialTypes_length_le (fileFormat : Nat) (fields : List Mem) :
    (serialTypes fileFormat fields).length ≤ 5 * fields.length := by
  induction fields with
  | nil => exact Nat.le_refl 0
  | cons m fields ih =>
    have hm := putVarint32_length_le (sqlite3VdbeSerialType m fileFormat)
    rw [serialTypes, List.flatMap_cons, ← serialTypes, List.length_append, List.length_cons]
    omega

theorem szHdr_lt (h : Written fileFormat fields key szHdr) (hcount : fields.length ≤ 13) :
    szHdr < 128 := by
  have htypes := serialTypes_length_le fileFormat fields
  have hsize := h.size
  have hle := putVarint32_length_le (UInt32.ofNat szHdr)
  omega

/-- With an integer first, the size of the header fits in the mask `0x3f`. -/
theorem szHdr_lt_int {i : Int64} (h : Written fileFormat (.int i :: fields) key szHdr)
    (hcount : fields.length + 1 ≤ 13) : szHdr < 64 := by
  have hsmall := szHdr_lt h hcount
  have htypes := serialTypes_length_le fileFormat fields
  have hsize := h.size
  have hone : (putVarint32 (sqlite3VdbeSerialType (.int i) fileFormat)).length = 1 := by
    rcases isIntType_int i fileFormat with h | h | h | h | h | h | h | h <;> rw [h] <;> rfl
  rw [(oneByte_size h hsmall).1, serialTypes, List.flatMap_cons, ← serialTypes,
    List.length_append, hone] at hsize
  omega

/-! ## The faster comparisons agree -/

theorem sign_r1 (p : UnpackedRecord) {rc : Int} (h : rc < 0) :
    p.r1.sign = (if p.pKeyInfo.aSortOrder 0 then -rc else rc).sign := by
  rw [UnpackedRecord.r1]
  split
  · rw [Int.sign_eq_one_of_pos (by omega : 0 < -rc)]
    rfl
  · rw [Int.sign_eq_neg_one_of_neg h]
    rfl

theorem sign_r2 (p : UnpackedRecord) {rc : Int} (h : 0 < rc) :
    p.r2.sign = (if p.pKeyInfo.aSortOrder 0 then -rc else rc).sign := by
  rw [UnpackedRecord.r2]
  split
  · rw [Int.sign_eq_neg_one_of_neg (by omega : -rc < 0)]
    rfl
  · rw [Int.sign_eq_one_of_pos h]
    rfl

/-- The results agree in their signs. -/
def AgreesWith (fields : List Mem) (p : UnpackedRecord) (r : Option (Except Unit Int)) : Prop :=
  ∃ rc, r = some (.ok rc) ∧
    rc.sign = (compareFields p.pKeyInfo p.defaultRc 0 (fields.map canonical) p.aMem).sign

/-- What both do once the first fields have been compared with the result `rc`. -/
theorem agreesWith_first (h : Written fileFormat fields key szHdr) (hsmall : szHdr < 128)
    (hne : fields ≠ []) (hkey : p.aMem ≠ [])
    (hskip : fields.length = 1 → p.aMem.length = 1)
    (hfields : ∀ m ∈ fields, Fits m ∧ canonical m = m.expandBlob) (rc : Int)
    (hrc : rc = sqlite3MemCompare (canonical (fields.headD .null)) (p.aMem.headD .null)
      (p.pKeyInfo.aColl 0)) {r : Option (Except Unit Int)}
    (hneg : rc < 0 → r = some (.ok p.r1)) (hpos : 0 < rc → r = some (.ok p.r2))
    (hzero : rc = 0 → r = compareTail key p) : AgreesWith fields p r := by
  have htail := compareTail_eq h hsmall hne hkey hskip hfields
  obtain ⟨m, fields, rfl⟩ := List.exists_cons_of_ne_nil hne
  obtain ⟨pRhs, rest, hmem⟩ := List.exists_cons_of_ne_nil hkey
  rw [hmem] at hrc htail
  rw [AgreesWith, hmem, List.map_cons, compareFields]
  dsimp only [List.headD_cons] at hrc ⊢
  rw [← hrc]
  rcases Int.lt_trichotomy rc 0 with hlt | heq | hgt
  · rw [if_pos (by omega)]
    exact ⟨p.r1, hneg hlt, sign_r1 p hlt⟩
  · rw [if_neg (by omega)]
    exact ⟨_, (hzero heq).trans htail, rfl⟩
  · rw [if_pos (by omega)]
    exact ⟨p.r2, hpos hgt, sign_r2 p hgt⟩

theorem agreesWith_plain (h : Written fileFormat fields key szHdr) (hne : fields ≠ [])
    (hkey : p.aMem ≠ []) (hfields : ∀ m ∈ fields, Fits m ∧ canonical m = m.expandBlob) :
    AgreesWith fields p (sqlite3VdbeRecordCompare key p) :=
  ⟨_, recordCompare_eq h hne hkey hfields, rfl⟩

theorem compareInt_sign (i v : Int64) : (compareInt i v < 0 ↔ i < v) ∧
    (0 < compareInt i v ↔ ¬ i < v ∧ v < i) ∧ (compareInt i v = 0 ↔ ¬ i < v ∧ ¬ v < i) := by
  rw [compareInt]
  split
  · simp_all
  · split <;> simp_all

theorem vdbeRecordCompareInt_eq {b serialType : UInt8} (hb : key[0]? = some b)
    (htype : key[1]? = some serialType) {v : Int64} {rest : List Mem}
    (hmem : p.aMem = .int v :: rest) {lhs : Option Int64}
    (hlhs : firstInt serialType.toNat (key.drop (b &&& 0x3f).toNat) = some lhs) :
    vdbeRecordCompareInt key p = lhs.elim (sqlite3VdbeRecordCompare key p) fun lhs =>
      if lhs < v then some (.ok p.r1)
      else if v < lhs then some (.ok p.r2)
      else compareTail key p := by
  rw [vdbeRecordCompareInt, hb, Option.bind_some, htype, Option.bind_some]
  dsimp only
  rw [hlhs, Option.bind_some, hmem]
  cases lhs <;> rfl

theorem firstInt_large {b : UInt8} (h : 10 ≤ b.toUInt32) (aKey : List UInt8) :
    firstInt b.toNat aKey = some none := by
  have h10 : 10 ≤ b.toNat := UInt32.le_iff_toNat_le.mp h
  obtain ⟨n, hn⟩ := Nat.exists_eq_add_of_le' h10
  rw [hn]
  rfl

/-- A first field that is no integer is left to the plain comparison. -/
theorem compareInt_agrees (h : Written fileFormat fields key szHdr)
    (hcount : fields.length ≤ 13) (hne : fields ≠ [])
    (hskip : fields.length = 1 → p.aMem.length = 1)
    (hfields : ∀ m ∈ fields, Fits m ∧ canonical m = m.expandBlob) {v : Int64} {rest : List Mem}
    (hmem : p.aMem = .int v :: rest) : AgreesWith fields p (vdbeRecordCompareInt key p) := by
  have hsmall := szHdr_lt h hcount
  have hkey : p.aMem ≠ [] := by
    rw [hmem]
    exact List.cons_ne_nil _ _
  have hplain := agreesWith_plain h hne hkey hfields
  have hsize := (oneByte_size h hsmall).2
  have hfirst := ComeTo.afterSize h hsmall
  obtain ⟨m, fields, rfl⟩ := List.exists_cons_of_ne_nil hne
  obtain ⟨hm, hnan⟩ := hfields m List.mem_cons_self
  cases m with
  | null =>
    rw [vdbeRecordCompareInt_eq hsize hfirst.first_null hmem rfl]
    exact hplain
  | int i =>
    obtain ⟨b, hb, htype⟩ := hfirst.first_int
    have hmask : (UInt8.ofNat szHdr &&& 0x3f).toNat = szHdr := by
      have hlt := szHdr_lt_int h hcount
      have h3f : (0x3f : UInt8).toNat = 2 ^ 6 - 1 := rfl
      rw [UInt8.toNat_and, h3f, Nat.and_two_pow_sub_one_eq_mod, UInt8.toNat_ofNat']
      omega
    have hnat : b.toNat = (sqlite3VdbeSerialType (.int i) fileFormat).toNat := by
      rw [← htype, UInt8.toNat_toUInt32]
    have hint := (decodeInt_of_get (isIntType_int i fileFormat) (hfirst.get hm)).2
    rw [← hnat, ← hmask] at hint
    rw [vdbeRecordCompareInt_eq hsize hb hmem hint]
    obtain ⟨hneg, hpos, hzero⟩ := compareInt_sign i v
    refine agreesWith_first h hsmall hne hkey hskip hfields (compareInt i v) ?_ ?_ ?_ ?_
    · rw [hmem]
      rfl
    · intro hlt
      exact if_pos (hneg.mp hlt)
    · intro hgt
      exact (if_neg (hpos.mp hgt).1).trans (if_pos (hpos.mp hgt).2)
    · intro heq
      exact (if_neg (hzero.mp heq).1).trans (if_neg (hzero.mp heq).2)
  | real r =>
    rw [vdbeRecordCompareInt_eq hsize hfirst.first_real hmem rfl]
    exact hplain
  | str z =>
    obtain ⟨b, hb, h10⟩ := hfirst.first_large (type_str_le hm fileFormat)
    rw [vdbeRecordCompareInt_eq hsize hb hmem (firstInt_large h10 _)]
    exact hplain
  | blob z nZero =>
    obtain ⟨b, hb, h10⟩ := hfirst.first_large (type_blob_le hm fileFormat)
    rw [vdbeRecordCompareInt_eq hsize hb hmem (firstInt_large h10 _)]
    exact hplain

/-- A type that is no more than an `int` can hold is positive as one. -/
theorem toInt32_lt {t : UInt32} (ht : t.toNat < 2 ^ 31) : t.toInt32 < 12 ↔ t < 12 := by
  have hofNat : t.toInt32 = Int32.ofNat t.toNat := by
    rw [← UInt32.toInt32_ofNat', UInt32.ofNat_toNat]
  rw [hofNat, UInt32.lt_iff_toNat_lt]
  exact Int32.ofNat_lt_iff_lt ht (by decide)

theorem vdbeRecordCompareString_eq {t : UInt32} {n : Nat}
    (htype : getVarint32 (key.drop 1) = some (t, n)) {szHdr : UInt8} (hb : key[0]? = some szHdr)
    {z : List UInt8} {rest : List Mem} (hmem : p.aMem = .str z :: rest) :
    vdbeRecordCompareString key p =
      if t.toInt32 < 12 then some (.ok p.r1)
      else if t &&& 1 = 0 then some (.ok p.r2)
      else
        let nStr := ((t - 12) / 2).toNat
        if key.length < szHdr.toNat + nStr then some (.error ())
        else
          let res := sqlite3BlobCompare ((key.drop szHdr.toNat).take nStr) z
          if res = 0 then compareTail key p
          else if 0 < res then some (.ok p.r2)
          else some (.ok p.r1) := by
  rw [vdbeRecordCompareString, htype, Option.bind_some, hb, hmem]
  rfl

theorem compareString_agrees (h : Written fileFormat fields key szHdr)
    (hcount : fields.length ≤ 13) (hne : fields ≠ [])
    (hskip : fields.length = 1 → p.aMem.length = 1)
    (hfields : ∀ m ∈ fields, Fits m ∧ canonical m = m.expandBlob) {z : List UInt8}
    {rest : List Mem} (hmem : p.aMem = .str z :: rest) (hcoll : p.pKeyInfo.aColl 0 = none) :
    AgreesWith fields p (vdbeRecordCompareString key p) := by
  have hsmall := szHdr_lt h hcount
  have hkey : p.aMem ≠ [] := by
    rw [hmem]
    exact List.cons_ne_nil _ _
  have hsize := (oneByte_size h hsmall).2
  have hfirst := ComeTo.afterSize h hsmall
  have hagrees := agreesWith_first h hsmall hne hkey hskip hfields
  obtain ⟨m, fields, rfl⟩ := List.exists_cons_of_ne_nil hne
  obtain ⟨hm, hnan⟩ := hfields m List.mem_cons_self
  rw [hmem, hcoll] at hagrees
  rw [vdbeRecordCompareString_eq hfirst.type hsize hmem]
  cases m with
  | null => exact hagrees (-1) rfl (fun _ => rfl) (by omega) (by omega)
  | int i =>
    have hint := isIntType_int i fileFormat
    have hlt : (sqlite3VdbeSerialType (.int i) fileFormat).toInt32 < 12 := by
      rcases hint with h | h | h | h | h | h | h | h <;> rw [h] <;> decide
    rw [if_pos hlt]
    exact hagrees (-1) rfl (fun _ => rfl) (by omega) (by omega)
  | real r =>
    refine hagrees (-1) ?_ (fun _ => rfl) (by omega) (by omega)
    rw [List.headD_cons, hnan]
    rfl
  | str z1 =>
    have ht := toNat_str hm fileFormat
    have hlength : z1.length ≤ 1000000000 := hm
    obtain ⟨hge, hn, hodd⟩ := type_parts (Nat.le_refl 1) ht
    obtain ⟨hlen, htake⟩ := take_content hfirst
    have hbyte : (UInt8.ofNat szHdr).toNat = szHdr := by
      rw [UInt8.toNat_ofNat']
      omega
    have hne' : ¬ sqlite3VdbeSerialType (.str z1) fileFormat &&& 1 = 0 := by
      intro h
      rw [h] at hodd
      cases hodd
    have hge' : ¬ (sqlite3VdbeSerialType (.str z1) fileFormat).toInt32 < 12 :=
      (toInt32_lt (by omega)).not.mpr hge
    rw [content_str hm] at hlen htake
    rw [if_neg hge', if_neg hne', hn, hbyte]
    dsimp only
    rw [if_neg hlen, htake]
    refine hagrees (sqlite3BlobCompare z1 z) rfl ?_ ?_ ?_
    · intro hlt
      exact (if_neg (by omega)).trans (if_neg (by omega))
    · intro hgt
      exact (if_neg (by omega)).trans (if_pos hgt)
    · intro heq
      exact if_pos heq
  | blob z1 nZero =>
    have ht := toNat_blob hm fileFormat
    have hlength : z1.length + nZero ≤ 1000000000 := hm
    obtain ⟨hge, _, heven⟩ := type_parts (Nat.zero_le 1) ht
    have hzero : sqlite3VdbeSerialType (.blob z1 nZero) fileFormat &&& 1 = 0 :=
      UInt32.toNat_inj.mp heven
    have hge' : ¬ (sqlite3VdbeSerialType (.blob z1 nZero) fileFormat).toInt32 < 12 :=
      (toInt32_lt (by omega)).not.mpr hge
    rw [if_neg hge', if_pos hzero]
    exact hagrees 1 rfl (by omega) (fun _ => rfl) (by omega)

theorem findCompare_agrees (h : Written fileFormat fields key szHdr)
    (hcount : fields.length ≤ p.pKeyInfo.nField + p.pKeyInfo.nXField) (hne : fields ≠ [])
    (hkey : p.aMem ≠ []) (hskip : fields.length = 1 → p.aMem.length = 1)
    (hfields : ∀ m ∈ fields, Fits m ∧ canonical m = m.expandBlob) :
    AgreesWith fields p (sqlite3VdbeFindCompare p key p) := by
  have hplain := agreesWith_plain h hne hkey hfields
  obtain ⟨pRhs, rest, hmem⟩ := List.exists_cons_of_ne_nil hkey
  rw [sqlite3VdbeFindCompare, hmem, List.headD_cons]
  split
  · rename_i hfew
    have hfew := Nat.le_trans hcount hfew
    cases pRhs with
    | int v => exact compareInt_agrees h hfew hne hskip hfields hmem
    | str z =>
      dsimp only
      split
      · rename_i hcoll
        have hnone := Option.isNone_iff_eq_none.mp hcoll
        exact compareString_agrees h hfew hne hskip hfields hmem hnone
      · exact hplain
    | null => exact hplain
    | real r => exact hplain
    | blob z nZero => exact hplain
  · exact hplain

end

theorem canonical_of_number {m : Mem} (h : ∀ r, m = .real r → sqlite3IsNaN r = false) :
    canonical m = m.expandBlob := by
  cases m with
  | real r => rw [canonical, if_neg (by rw [h r rfl]; decide)]; rfl
  | _ => rfl

/-- The record of a row is ordered against a key as the values of the row are, by the plain
comparison and by the one that is picked for the key. -/
theorem findCompare_orders {Reg : Type u} (R : Registers Reg) (fileFormat : Nat) {limit : Nat}
    (hlimit : limit ≤ 1000000000) {zAffinity : Option (List UInt8)} {fields : List Reg}
    (hfits : ∀ m ∈ fieldValues R zAffinity fields, m.n + m.nZero ≤ limit)
    (hreal : ∀ r, .real r ∈ fieldValues R zAffinity fields → sqlite3IsNaN r = false)
    {p : UnpackedRecord} (hkey : p.aMem ≠ []) (hne : fields ≠ [])
    (hcount : fields.length ≤ p.pKeyInfo.nField + p.pKeyInfo.nXField)
    (hskip : fields.length = 1 → p.aMem.length = 1) {bytes : List UInt8} {nZero : Nat}
    (hmake : makeRecord R fileFormat limit zAffinity fields = .ok (bytes, nZero)) :
    let order := compareFields p.pKeyInfo p.defaultRc 0
      ((fieldValues R zAffinity fields).map Mem.expandBlob) p.aMem
    let key := bytes ++ List.replicate nZero 0
    sqlite3VdbeRecordCompare key p = some (.ok order) ∧
    ∃ rc, sqlite3VdbeFindCompare p key p = some (.ok rc) ∧ rc.sign = order.sign := by
  have hlength : (fieldValues R zAffinity fields).length = fields.length :=
    length_fieldValues R zAffinity fields
  have hnumbers : ∀ m ∈ fieldValues R zAffinity fields, Fits m ∧ canonical m = m.expandBlob := by
    intro m hm
    refine ⟨Nat.le_trans (hfits m hm) hlimit, canonical_of_number ?_⟩
    rintro r rfl
    exact hreal r hm
  have hmap : (fieldValues R zAffinity fields).map canonical =
      (fieldValues R zAffinity fields).map Mem.expandBlob :=
    List.map_congr_left fun m hm => (hnumbers m hm).2
  have hvalues : fieldValues R zAffinity fields ≠ [] := by
    rw [← List.length_pos_iff, hlength]
    exact List.length_pos_iff.mpr hne
  rw [makeRecord] at hmake
  split at hmake
  · cases hmake
  split at hmake
  · cases hmake
  rcases writeRecord_spec fileFormat hlimit hfits with h | ⟨_, _, szHdr, h, _, hwritten⟩
  · rw [h] at hmake
    cases hmake
  rw [h] at hmake
  obtain ⟨rfl, rfl⟩ := Prod.mk.inj (Except.ok.inj hmake)
  rw [← hlength] at hcount hskip
  have hplain := recordCompare_eq hwritten hvalues hkey hnumbers
  have hpicked := findCompare_agrees hwritten hcount hvalues hkey hskip hnumbers
  rw [AgreesWith] at hpicked
  rw [hmap] at hplain hpicked
  exact ⟨hplain, hpicked⟩

/-- An index over a number and a text, and a key that is behind `12`, `ab`. -/
def Sample.key : UnpackedRecord where
  pKeyInfo := { nField := 2, nXField := 0, aSortOrder := fun _ => false, aColl := fun _ => none }
  defaultRc := 0
  aMem := [.int 12, .str [98]]

theorem findCompare_orders_key :
    makeRecord Sample.registers 4 1000 (some [0x44, 0x42]) [.str [0x31, 0x32], .str [97, 98]] =
      .ok ([3, 1, 17, 12, 97, 98], 0) ∧
    sqlite3VdbeRecordCompare [3, 1, 17, 12, 97, 98] Sample.key = some (.ok (-1)) ∧
    ∃ rc, sqlite3VdbeFindCompare Sample.key [3, 1, 17, 12, 97, 98] Sample.key = some (.ok rc) ∧
      rc.sign = -1 := by
  have hmake : makeRecord Sample.registers 4 1000 (some [0x44, 0x42])
      [.str [0x31, 0x32], .str [97, 98]] = .ok ([3, 1, 17, 12, 97, 98], 0) := by
    decide +kernel
  have hreal : ∀ r, Mem.real r ∈ fieldValues Sample.registers (some [0x44, 0x42])
      [.str [0x31, 0x32], .str [97, 98]] → sqlite3IsNaN r = false := by
    simp [fieldValues, applyAffinities, Sample.registers]
  have hkey : Sample.key.aMem ≠ [] := List.cons_ne_nil _ _
  refine ⟨hmake, ?_⟩
  exact findCompare_orders Sample.registers 4 (by decide) (by decide) hreal hkey
    (List.cons_ne_nil _ _) (by decide) (by simp) hmake

end AlmondAndroid.Storage
