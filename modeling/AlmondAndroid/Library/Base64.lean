import Mathlib.Data.List.Basic

/-!
# Base64 with line breaks

Three bytes make a group of four digits; every line but the last has the same
number of groups, and each ends with a newline. The decoder skips every code unit
that is no digit, padding and newlines included.
-/

namespace AlmondAndroid.Library.Base64

def symbol (n : Nat) : UInt16 :=
  if n < 26 then UInt16.ofNat (65 + n)
  else if n < 52 then UInt16.ofNat (71 + n)
  else if n < 62 then UInt16.ofNat (n - 4)
  else if n = 62 then 43
  else 47

def digit (c : UInt16) : Option Nat :=
  if 65 ≤ c.toNat ∧ c.toNat ≤ 90 then some (c.toNat - 65)
  else if 97 ≤ c.toNat ∧ c.toNat ≤ 122 then some (c.toNat - 71)
  else if 48 ≤ c.toNat ∧ c.toNat ≤ 57 then some (c.toNat + 4)
  else if c = 43 then some 62
  else if c = 47 then some 63
  else none

def newline : UInt16 := 10

def padding : UInt16 := 61

def group (a b c : UInt8) : Nat :=
  a.toNat * 65536 + b.toNat * 256 + c.toNat

/-- `count` groups still fit on the line. -/
def encodeLines (lineGroups : Nat) : Nat → List UInt8 → List UInt16
  | count, a :: b :: c :: rest =>
      symbol (group a b c / 262144) :: symbol (group a b c / 4096 % 64) ::
        symbol (group a b c / 64 % 64) :: symbol (group a b c % 64) ::
          if count ≤ 1 then newline :: encodeLines lineGroups lineGroups rest
          else encodeLines lineGroups (count - 1) rest
  | _, [a, b] =>
      [symbol (group a b 0 / 262144), symbol (group a b 0 / 4096 % 64),
        symbol (group a b 0 / 64 % 64), padding, newline]
  | _, [a] =>
      [symbol (group a 0 0 / 262144), symbol (group a 0 0 / 4096 % 64), padding, padding, newline]
  | count, [] => if count = lineGroups then [] else [newline]

def encode (lineGroups : Nat) (data : List UInt8) : List UInt16 :=
  encodeLines lineGroups lineGroups data

def bytes : List Nat → List UInt8
  | d₀ :: d₁ :: d₂ :: d₃ :: rest =>
      UInt8.ofNat (d₀ * 4 + d₁ / 16) :: UInt8.ofNat (d₁ % 16 * 16 + d₂ / 4) ::
        UInt8.ofNat (d₂ % 4 * 64 + d₃) :: bytes rest
  | [d₀, d₁, d₂] => [UInt8.ofNat (d₀ * 4 + d₁ / 16), UInt8.ofNat (d₁ % 16 * 16 + d₂ / 4)]
  | [d₀, d₁] => [UInt8.ofNat (d₀ * 4 + d₁ / 16)]
  | _ => []

def decode (text : List UInt16) : List UInt8 :=
  bytes (text.filterMap digit)

theorem digit_symbol {n : Nat} (h : n < 64) : digit (symbol n) = some n := by
  have hall : ∀ k : Fin 64, digit (symbol k.val) = some k.val := by decide
  exact hall ⟨n, h⟩

theorem digit_newline : digit newline = none := by decide

theorem group_lt (a b c : UInt8) : group a b c < 16777216 := by
  have ha := a.toNat_lt
  have hb := b.toNat_lt
  have hc := c.toNat_lt
  rw [group]
  omega

theorem ofNat_eq {n : Nat} {a : UInt8} (h : n = a.toNat) : UInt8.ofNat n = a := by
  rw [h]
  exact UInt8.ofNat_toNat

theorem first_byte (a b c : UInt8) :
    UInt8.ofNat (group a b c / 262144 * 4 + group a b c / 4096 % 64 / 16) = a := by
  have hb := b.toNat_lt
  have hc := c.toNat_lt
  apply ofNat_eq
  rw [group]
  omega

theorem second_byte (a b c : UInt8) :
    UInt8.ofNat (group a b c / 4096 % 64 % 16 * 16 + group a b c / 64 % 64 / 4) = b := by
  have hb := b.toNat_lt
  have hc := c.toNat_lt
  apply ofNat_eq
  rw [group]
  omega

theorem third_byte (a b c : UInt8) :
    UInt8.ofNat (group a b c / 64 % 64 % 4 * 64 + group a b c % 64) = c := by
  have hc := c.toNat_lt
  apply ofNat_eq
  rw [group]
  omega

theorem filterMap_symbol {n : Nat} (h : n < 64) (text : List UInt16) :
    (symbol n :: text).filterMap digit = n :: text.filterMap digit :=
  List.filterMap_cons_some (digit_symbol h)

theorem filterMap_newline (text : List UInt16) :
    (newline :: text).filterMap digit = text.filterMap digit :=
  List.filterMap_cons_none digit_newline

theorem decode_group (a b c : UInt8) (text : List UInt16) :
    decode (symbol (group a b c / 262144) :: symbol (group a b c / 4096 % 64) ::
      symbol (group a b c / 64 % 64) :: symbol (group a b c % 64) :: text) =
        a :: b :: c :: decode text := by
  have hlt := group_lt a b c
  unfold decode
  rw [filterMap_symbol (by omega), filterMap_symbol (Nat.mod_lt _ (by decide)),
    filterMap_symbol (Nat.mod_lt _ (by decide)), filterMap_symbol (Nat.mod_lt _ (by decide)),
    bytes, first_byte, second_byte, third_byte]

theorem decode_newline (text : List UInt16) : decode (newline :: text) = decode text := by
  unfold decode
  rw [filterMap_newline]

theorem decode_encodeLines (lineGroups count : Nat) (data : List UInt8) :
    decode (encodeLines lineGroups count data) = data := by
  induction count, data using encodeLines.induct lineGroups with
  | case1 count a b c rest ihLine ih =>
    rw [encodeLines, decode_group]
    split
    · rw [decode_newline, ihLine]
    · rw [ih]
  | case2 count a b =>
    have hlt := group_lt a b 0
    have hend : [padding, newline].filterMap digit = [] := by decide
    rw [encodeLines]
    rw [decode]
    rw [filterMap_symbol (by omega), filterMap_symbol (Nat.mod_lt _ (by decide)),
      filterMap_symbol (Nat.mod_lt _ (by decide)), hend, bytes, first_byte, second_byte]
  | case3 count a =>
    have hlt := group_lt a 0 0
    have hend : [padding, padding, newline].filterMap digit = [] := by decide
    rw [encodeLines]
    rw [decode]
    rw [filterMap_symbol (by omega), filterMap_symbol (Nat.mod_lt _ (by decide)), hend, bytes,
      first_byte]
  | case4 =>
    rw [encodeLines, if_pos rfl]
    rfl
  | case5 count hcount =>
    rw [encodeLines, if_neg hcount]
    decide

/-- Whatever the length of a line, the text decodes to the bytes it was made from. -/
theorem decode_encode (lineGroups : Nat) (data : List UInt8) :
    decode (encode lineGroups data) = data :=
  decode_encodeLines lineGroups lineGroups data

/-- The padded text of one byte on a line of its own. -/
example : encode 19 [77] = [84, 81, 61, 61, 10] := by decide

end AlmondAndroid.Library.Base64
