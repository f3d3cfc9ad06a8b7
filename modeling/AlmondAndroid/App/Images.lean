import AlmondAndroid.Library.Binary32
import AlmondAndroid.Bridge.Values

/-!
# Images

The bitmaps of `ImageAPI`. `resizeFit` chooses by the shape of the bitmap alone which
side takes the requested value. The other side comes from a 32-bit product, a division
that truncates, and a rounding that is left with a whole number.
-/

namespace AlmondAndroid.App

open Library Bridge

/-- `Bitmap` has no empty values. -/
structure Size where
  width : Int32
  height : Int32
  width_pos : 0 < width
  height_pos : 0 < height

inductive CompressFormat
  | jpeg
  | png
  | webp
  deriving DecidableEq

/-- What `android.graphics` does. A decoder returns null for data that it cannot decode. -/
structure Graphics where
  Bitmap : Type
  size : Bitmap → Size
  decodeFile : U16String → Option Bitmap
  decodeByteArray : List UInt8 → Option Bitmap
  createScaledBitmap : Bitmap → Int32 → Int32 → Except JavaThrowable Bitmap
  compress : CompressFormat → Bitmap → List UInt8

/-! ## The target size -/

/-- `Math.round` of an `int`, which is made a `float`. -/
def round (n : Int32) : Int32 := Binary32.toInt32 (Binary32.ofInt n.toInt)

def targetSide (requested numerator denominator : Int32) : Int32 :=
  round (requested * numerator / denominator)

/-- The width and the height that `createScaledBitmap` is called with. -/
def targetSize (current : Size) (width height : Int32) : Int32 × Int32 :=
  if current.width < current.height then
    (targetSide height current.width current.height, height)
  else
    (width, targetSide width current.height current.width)

def factors (current requested : Size) : Int32 × Int32 :=
  if current.width < current.height then (requested.height, current.width)
  else (requested.width, current.height)

/-- One side is the requested one, and the other is less than a pixel away from what the
shape of the bitmap asks for. -/
structure FitsBox (current requested : Size) (target : Int32 × Int32) : Prop where
  no_wrap : ((factors current requested).1 * (factors current requested).2).toInt =
    (factors current requested).1.toInt * (factors current requested).2.toInt
  one_le_width : 1 ≤ target.1.toInt
  one_le_height : 1 ≤ target.2.toInt
  width_le : target.1.toInt ≤ requested.width.toInt
  height_le : target.2.toInt ≤ requested.height.toInt
  ratio :
    (target.1 = requested.width ∧
      |target.2.toInt * current.width.toInt - requested.width.toInt * current.height.toInt| <
        current.width.toInt) ∨
    (target.2 = requested.height ∧
      |target.1.toInt * current.height.toInt - requested.height.toInt * current.width.toInt| <
        current.height.toInt)

/-! ## One side -/

structure SideFits (requested numerator denominator limit target : Int) : Prop where
  small : requested * numerator < 2 ^ 31
  one_le : 1 ≤ target
  le_limit : target ≤ limit
  ratio : |target * denominator - requested * numerator| < denominator

/-- The product is small, the quotient is not zero, and it stays below the limit, if need be
together with the one that a single-precision number adds to it. -/
def SideKeeps (requested numerator denominator limit : Nat) : Prop :=
  requested * numerator < 2 ^ 31 ∧ denominator ≤ requested * numerator ∧
    (((Binary32.Exact (requested * numerator / denominator) ∨
        requested * numerator / denominator = 2 ^ 31 - 1) ∧
      requested * numerator / denominator ≤ limit) ∨
    (Binary32.BelowExact (requested * numerator / denominator) ∧
      ¬ denominator ∣ requested * numerator ∧ requested * numerator / denominator < limit))

instance (requested numerator denominator limit : Nat) :
    Decidable (SideKeeps requested numerator denominator limit) :=
  inferInstanceAs (Decidable (_ ∧ _ ∧ _))

theorem toInt_mul_eq_iff {a b : Int32} {m n : Nat} (ha : a.toInt = m) (hb : b.toInt = n) :
    (a * b).toInt = a.toInt * b.toInt ↔ m * n < 2 ^ 31 := by
  have hbounds := (a * b).toInt_lt
  rw [Int32.toInt_mul, ha, hb, ← Nat.cast_mul] at *
  constructor
  · intro h
    omega
  · intro h
    exact Int.bmod_eq_of_le (by omega) (by omega)

theorem toInt_targetSide {r n d : Int32} {requested numerator denominator : Nat}
    (hr : r.toInt = requested) (hn : n.toInt = numerator) (hd : d.toInt = denominator)
    (hsmall : requested * numerator < 2 ^ 31) :
    (targetSide r n d).toInt =
      (Binary32.toInt32 (Binary32.ofInt (requested * numerator / denominator : Nat))).toInt := by
  have hmul := (toInt_mul_eq_iff hr hn).mpr hsmall
  have hne : d ≠ -1 := by
    rintro rfl
    have hneg : (-1 : Int32).toInt = -1 := rfl
    omega
  rw [targetSide, round, Int32.toInt_div_of_ne_right _ _ hne, hmul, hr, hn, hd]
  rfl

theorem near_iff {target q r d : Int} (hr : 0 ≤ r) (hlt : r < d) :
    |target * d - (q * d + r)| < d ↔ target = q ∨ (target = q + 1 ∧ 0 < r) := by
  have hsplit : target * d - (q * d + r) = (target - q) * d - r := by ring
  rw [hsplit, abs_lt]
  constructor
  · rintro ⟨hlow, hhigh⟩
    have hge : 0 ≤ target - q := by
      by_contra hneg
      have := Int.mul_le_mul_of_nonneg_right (show target - q ≤ -1 by omega) (show 0 ≤ d by omega)
      omega
    have hle : target - q ≤ 1 := by
      by_contra hbig
      have := Int.mul_le_mul_of_nonneg_right (show 2 ≤ target - q by omega) (show 0 ≤ d by omega)
      omega
    rcases Int.le_iff_lt_or_eq.mp hle with hzero | hone
    · exact .inl (by omega)
    · rw [hone] at hhigh
      exact .inr ⟨by omega, by omega⟩
  · rintro (rfl | ⟨rfl, hpos⟩)
    · rw [Int.sub_self, Int.zero_mul]
      omega
    · rw [add_sub_cancel_left, Int.one_mul]
      omega

theorem sideFits_iff {r n d : Int32} {requested numerator denominator : Nat} (limit : Nat)
    (hr : r.toInt = requested) (hn : n.toInt = numerator) (hd : d.toInt = denominator)
    (hpos : 0 < denominator) :
    SideFits requested numerator denominator limit (targetSide r n d).toInt ↔
      SideKeeps requested numerator denominator limit := by
  by_cases hsmall : requested * numerator < 2 ^ 31
  · have htarget := toInt_targetSide hr hn hd hsmall
    set q := requested * numerator / denominator with hq
    set m := requested * numerator % denominator with hm
    have hsplit : requested * numerator = q * denominator + m := (Nat.div_add_mod' _ _).symm
    have hlt : m < denominator := Nat.mod_lt _ hpos
    have hqle : q ≤ requested * numerator := Nat.div_le_self ..
    have hself := Binary32.toInt32_ofInt_eq_self_iff (n := q) (by omega)
    have hone : 1 ≤ q ↔ denominator ≤ requested * numerator := Nat.div_pos_iff.trans
      (and_iff_right hpos)
    have hsucc : 0 < m → ((Binary32.toInt32 (Binary32.ofInt q)).toInt = q + 1 ↔
        Binary32.BelowExact q) := by
      intro hm0
      have hhalf : q * 2 ≤ q * denominator := Nat.mul_le_mul_left q (by omega)
      exact Binary32.toInt32_ofInt_eq_succ_iff (by omega)
    have hdvd : denominator ∣ requested * numerator ↔ m = 0 := Nat.dvd_iff_mod_eq_zero
    have hnear : SideFits requested numerator denominator limit (targetSide r n d).toInt ↔
        ((targetSide r n d).toInt = q ∨ ((targetSide r n d).toInt = q + 1 ∧ 0 < m)) ∧
          1 ≤ (targetSide r n d).toInt ∧ (targetSide r n d).toInt ≤ limit := by
      have hcast : (requested : Int) * numerator = q * denominator + m := by
        exact_mod_cast hsplit
      rw [← Nat.cast_pos (α := Int), ← near_iff (d := denominator) (by omega) (by omega), ← hcast]
      exact ⟨fun h => ⟨h.ratio, h.one_le, h.le_limit⟩,
        fun ⟨hratio, hle, hlimit⟩ => ⟨by exact_mod_cast hsmall, hle, hlimit, hratio⟩⟩
    rw [hnear, SideKeeps, ← hq, hdvd, ← hself, ← hone, ← htarget]
    constructor
    · rintro ⟨hsame | ⟨hnext, hrest⟩, hle, hlimit⟩
      · exact ⟨hsmall, by omega, .inl ⟨hsame, by omega⟩⟩
      · have hbelow := (hsucc hrest).mp (htarget.symm.trans hnext)
        have hzero : q ≠ 0 := by
          intro hzero
          rw [hzero] at hbelow
          exact absurd hbelow (by decide)
        exact ⟨hsmall, by omega, .inr ⟨hbelow, by omega, by omega⟩⟩
    · rintro ⟨-, hle, ⟨hsame, hlimit⟩ | ⟨hbelow, hrest, hlimit⟩⟩
      · exact ⟨.inl hsame, by omega, by omega⟩
      · have hnext := htarget.trans ((hsucc (by omega)).mpr hbelow)
        exact ⟨.inr ⟨hnext, by omega⟩, by omega, by omega⟩
  · exact iff_of_false (fun h => hsmall (by exact_mod_cast h.small)) fun h => hsmall h.1

/-! ## The box -/

def KeepsBox (current requested : Size) : Prop :=
  if current.width < current.height then
    SideKeeps requested.height.toInt.toNat current.width.toInt.toNat
      current.height.toInt.toNat requested.width.toInt.toNat
  else
    SideKeeps requested.width.toInt.toNat current.height.toInt.toNat
      current.width.toInt.toNat requested.height.toInt.toNat

theorem toNat_toInt {a : Int32} (h : 0 < a) : a.toInt = a.toInt.toNat ∧ 0 < a.toInt.toNat := by
  have hpos : 0 < a.toInt := Int32.lt_iff_toInt_lt.mp h
  omega

theorem ratio_of_or {target requested numerator denominator : Int} (limit : Int)
    (hle : numerator ≤ denominator)
    (h : (target = limit ∧ |requested * numerator - limit * denominator| < numerator) ∨
      |target * denominator - requested * numerator| < denominator) :
    |target * denominator - requested * numerator| < denominator := by
  rcases h with ⟨rfl, hratio⟩ | hratio
  · rw [abs_sub_comm]
    exact hratio.trans_le hle
  · exact hratio

theorem fitsBox_iff_of_portrait {current requested : Size} {target : Int32}
    (h : current.width < current.height) :
    FitsBox current requested (target, requested.height) ↔
      SideFits requested.height.toInt current.width.toInt current.height.toInt
        requested.width.toInt target.toInt := by
  have hlt := Int32.lt_iff_toInt_lt.mp h
  have hheight := toNat_toInt requested.height_pos
  have hwidth := toNat_toInt current.width_pos
  have hfactors : factors current requested = (requested.height, current.width) := if_pos h
  have hwrap := toInt_mul_eq_iff hheight.1 hwidth.1
  have hsmall : requested.height.toInt * current.width.toInt < 2 ^ 31 ↔
      requested.height.toInt.toNat * current.width.toInt.toNat < 2 ^ 31 := by
    rw [hheight.1, hwidth.1]
    exact_mod_cast Iff.rfl
  constructor
  · rintro ⟨hno, hone, -, hle, -, hratio⟩
    rw [hfactors] at hno
    refine ⟨hsmall.mpr (hwrap.mp hno), hone, hle, ratio_of_or requested.width.toInt hlt.le ?_⟩
    exact hratio.imp (fun h => ⟨congrArg Int32.toInt h.1, h.2⟩) And.right
  · rintro ⟨hno, hone, hle, hratio⟩
    have hside : 1 ≤ requested.height.toInt := by omega
    refine ⟨?_, hone, hside, hle, le_rfl, .inr ⟨rfl, hratio⟩⟩
    rw [hfactors]
    exact hwrap.mpr (hsmall.mp hno)

theorem fitsBox_iff_of_landscape {current requested : Size} {target : Int32}
    (h : ¬ current.width < current.height) :
    FitsBox current requested (requested.width, target) ↔
      SideFits requested.width.toInt current.height.toInt current.width.toInt
        requested.height.toInt target.toInt := by
  have hle := not_lt.mp fun hlt => h (Int32.lt_iff_toInt_lt.mpr hlt)
  have hwidth := toNat_toInt requested.width_pos
  have hheight := toNat_toInt current.height_pos
  have hfactors : factors current requested = (requested.width, current.height) := if_neg h
  have hwrap := toInt_mul_eq_iff hwidth.1 hheight.1
  have hsmall : requested.width.toInt * current.height.toInt < 2 ^ 31 ↔
      requested.width.toInt.toNat * current.height.toInt.toNat < 2 ^ 31 := by
    rw [hwidth.1, hheight.1]
    exact_mod_cast Iff.rfl
  constructor
  · rintro ⟨hno, -, hone, -, hlimit, hratio⟩
    rw [hfactors] at hno
    refine ⟨hsmall.mpr (hwrap.mp hno), hone, hlimit, ratio_of_or requested.height.toInt hle ?_⟩
    exact hratio.symm.imp (fun h => ⟨congrArg Int32.toInt h.1, h.2⟩) And.right
  · rintro ⟨hno, hone, hlimit, hratio⟩
    have hside : 1 ≤ requested.width.toInt := by omega
    refine ⟨?_, hside, hone, le_rfl, hlimit, .inl ⟨rfl, hratio⟩⟩
    rw [hfactors]
    exact hwrap.mpr (hsmall.mp hno)

theorem targetSize_fitsBox_iff (current requested : Size) :
    FitsBox current requested (targetSize current requested.width requested.height) ↔
      KeepsBox current requested := by
  have hcw := toNat_toInt current.width_pos
  have hch := toNat_toInt current.height_pos
  have hw := toNat_toInt requested.width_pos
  have hh := toNat_toInt requested.height_pos
  by_cases h : current.width < current.height
  · rw [targetSize, KeepsBox, if_pos h, if_pos h, fitsBox_iff_of_portrait h, hh.1, hcw.1, hch.1,
      hw.1]
    exact sideFits_iff _ hh.1 hcw.1 hch.1 hch.2
  · rw [targetSize, KeepsBox, if_neg h, if_neg h, fitsBox_iff_of_landscape h, hw.1, hch.1, hcw.1,
      hh.1]
    exact sideFits_iff _ hw.1 hch.1 hcw.1 hcw.2

/-- A portrait bitmap in a box that is narrower still: 500 pixels for a width of 10. -/
theorem targetSize_not_fitsBox :
    ¬ ∀ current requested : Size,
      FitsBox current requested (targetSize current requested.width requested.height) := by
  intro h
  have hbox := h ⟨100, 200, by decide, by decide⟩ ⟨10, 1000, by decide, by decide⟩
  exact absurd hbox.width_le (by decide)

/-! ## `ImageAPI.Image` -/

variable {G : Graphics}

inductive ImageError
  | invalidImageToken
  | nullPointer
  | unsupportedFormat (format : U16String)
  | createScaledBitmap (e : JavaThrowable)

/-- The text of a null pointer exception is the virtual machine's own. -/
def ImageError.message : ImageError → Option U16String
  | invalidImageToken => some (u16 "Invalid image token")
  | nullPointer => none
  | unsupportedFormat format => some (u16 "Unsupported format " ++ format)
  | createScaledBitmap e => e.message

def getWidth (bitmap : Option G.Bitmap) : Except ImageError Int32 :=
  match bitmap with
  | none => .error .nullPointer
  | some b => .ok (G.size b).width

def getHeight (bitmap : Option G.Bitmap) : Except ImageError Int32 :=
  match bitmap with
  | none => .error .nullPointer
  | some b => .ok (G.size b).height

def resizeFit (bitmap : Option G.Bitmap) (width height : Int32) : Except ImageError G.Bitmap :=
  match bitmap with
  | none => .error .nullPointer
  | some b =>
      match G.createScaledBitmap b (targetSize (G.size b) width height).1
          (targetSize (G.size b) width height).2 with
      | .error e => .error (.createScaledBitmap e)
      | .ok scaled => .ok scaled

def compressFormat (format : U16String) : Except ImageError CompressFormat :=
  if format = u16 "jpeg" ∨ format = u16 "jpg" then .ok .jpeg
  else if format = u16 "png" then .ok .png
  else if format = u16 "webp" then .ok .webp
  else .error (.unsupportedFormat format)

def compress (bitmap : Option G.Bitmap) (format : U16String) : Except ImageError (List UInt8) :=
  match compressFormat format, bitmap with
  | .error e, _ => .error e
  | .ok _, none => .error .nullPointer
  | .ok cformat, some b => .ok (G.compress cformat b)

namespace Sample

def graphics : Graphics where
  Bitmap := Size
  size := id
  decodeFile _ := none
  decodeByteArray _ := none
  createScaledBitmap _ width height :=
    if h : 0 < width ∧ 0 < height then .ok ⟨width, height, h.1, h.2⟩
    else .error ⟨true, some (u16 "width and height must be > 0")⟩
  compress _ size := [size.width.toInt.toNat.toUInt8, size.height.toInt.toNat.toUInt8]

def landscape : Size := ⟨40, 20, by decide, by decide⟩

end Sample

end AlmondAndroid.App
