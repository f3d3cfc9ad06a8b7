import AlmondAndroid.Library.Utf16
import Mathlib.Data.List.DropRight
import Mathlib.Data.List.Infix
import Mathlib.Data.List.TakeWhile

/-!
# Queries of URLs

Parameters are written as `name=value` between ampersands. A text in them is decoded as bytes
of UTF-8: a plus is a blank, a percent sign with two hexadecimal digits is one byte, and a
character that is none of these stands for itself. What is encoded is read back, and what is
written without being encoded is read back exactly if it has nothing that is read otherwise.
-/

namespace AlmondAndroid.Library.UrlQuery

open Utf16

universe u

abbrev Text := List UInt16

def hash : UInt16 := 0x23

def ampersand : UInt16 := 0x26

def equals : UInt16 := 0x3d

def question : UInt16 := 0x3f

/-! ## Bytes -/

def utf8 (cs : List Char) : List UInt8 := cs.flatMap String.utf8EncodeChar

/-- Nothing if the bytes are not UTF-8. -/
def readUtf8 (bytes : List UInt8) : Option (List Char) :=
  bytes.toByteArray.utf8Decode?.map Array.toList

theorem readUtf8_iff {bytes : List UInt8} {cs : List Char} :
    readUtf8 bytes = some cs ↔ utf8 cs = bytes := by
  constructor
  · intro h
    obtain ⟨decoded, hdecoded, rfl⟩ := Option.map_eq_some_iff.mp h
    have hsome : bytes.toByteArray.utf8Decode?.isSome := by
      rw [hdecoded]
      rfl
    have hencode := ByteArray.utf8Encode_get_utf8Decode? (h := hsome)
    have hget : bytes.toByteArray.utf8Decode?.get hsome = decoded := by
      rw [Option.get_of_eq_some hsome hdecoded]
    rw [hget] at hencode
    have hlist := congrArg (fun b : ByteArray => b.data.toList) hencode
    simpa [List.utf8Encode, utf8] using hlist
  · rintro rfl
    have hdecode := List.utf8Decode?_utf8Encode (l := cs)
    rw [readUtf8, utf8]
    change (List.utf8Encode cs).utf8Decode?.map Array.toList = some cs
    rw [hdecode]
    rfl

def percent : UInt8 := 0x25

def plus : UInt8 := 0x2b

def hexValue (b : UInt8) : Option Nat :=
  if 0x30 ≤ b.toNat ∧ b.toNat ≤ 0x39 then some (b.toNat - 0x30)
  else if 0x41 ≤ b.toNat ∧ b.toNat ≤ 0x46 then some (b.toNat - 0x41 + 10)
  else if 0x61 ≤ b.toNat ∧ b.toNat ≤ 0x66 then some (b.toNat - 0x61 + 10)
  else none

def unescape (c a b : UInt8) : Option UInt8 :=
  if c = percent then
    (hexValue a).bind fun x => (hexValue b).map fun y => UInt8.ofNat (16 * x + y)
  else none

def plusToSpace (c : UInt8) : UInt8 := if c = plus then 0x20 else c

/-- A percent sign that is not of an escape is left as it is. -/
def percentDecode : List UInt8 → List UInt8
  | [] => []
  | [c] => [plusToSpace c]
  | [c, d] => [plusToSpace c, plusToSpace d]
  | c :: a :: b :: rest =>
    match unescape c a b with
    | some byte => byte :: percentDecode rest
    | none => plusToSpace c :: percentDecode (a :: b :: rest)

theorem length_percentDecode_le (bytes : List UInt8) :
    (percentDecode bytes).length ≤ bytes.length := by
  induction bytes using percentDecode.induct with
  | case1 => exact Nat.le_refl _
  | case2 c => exact Nat.le_refl _
  | case3 c d => exact Nat.le_refl _
  | case4 c a b rest byte hbyte ih =>
    rw [percentDecode, hbyte]
    simp only [List.length_cons]
    omega
  | case5 c a b rest hnone ih =>
    rw [percentDecode, hnone]
    simp only [List.length_cons] at ih ⊢
    omega

/-- Nothing in these bytes is read otherwise. -/
def Literal (bytes : List UInt8) : Prop :=
  plus ∉ bytes ∧ ∀ a b, [percent, a, b] <:+: bytes → hexValue a = none ∨ hexValue b = none

theorem plusToSpace_eq_iff {c : UInt8} : plusToSpace c = c ↔ c ≠ plus := by
  rw [plusToSpace]
  split
  · rename_i h
    subst h
    exact iff_of_false (by decide) fun h => h rfl
  · rename_i h
    exact iff_of_true rfl h

theorem unescape_eq_none_iff {c a b : UInt8} :
    unescape c a b = none ↔ c = percent → hexValue a = none ∨ hexValue b = none := by
  rw [unescape]
  split
  · rename_i h
    cases hexValue a with
    | none => exact iff_of_true rfl fun _ => .inl rfl
    | some x =>
      cases hexValue b with
      | none => exact iff_of_true rfl fun _ => .inr rfl
      | some y => exact iff_of_false (Option.some_ne_none _) fun hall => by simpa using hall h
  · rename_i h
    exact iff_of_true rfl fun hc => absurd hc h

theorem literal_cons_iff {c a b : UInt8} {rest : List UInt8} :
    Literal (c :: a :: b :: rest) ↔
      c ≠ plus ∧ unescape c a b = none ∧ Literal (a :: b :: rest) := by
  rw [Literal, Literal, unescape_eq_none_iff, List.mem_cons, not_or]
  constructor
  · rintro ⟨⟨hplus, hrest⟩, hescapes⟩
    refine ⟨Ne.symm hplus, ?_, hrest, fun x y hxy => hescapes x y (List.infix_cons hxy)⟩
    rintro rfl
    exact hescapes a b (List.IsPrefix.isInfix (List.prefix_append [percent, a, b] rest))
  · rintro ⟨hplus, hfirst, hrest, hescapes⟩
    refine ⟨⟨Ne.symm hplus, hrest⟩, fun x y hxy => ?_⟩
    rcases List.infix_cons_iff.mp hxy with hprefix | hinfix
    · obtain ⟨hc, hprefix⟩ := List.cons_prefix_cons.mp hprefix
      obtain ⟨hx, hprefix⟩ := List.cons_prefix_cons.mp hprefix
      rw [hx, (List.cons_prefix_cons.mp hprefix).1]
      exact hfirst hc.symm
    · exact hescapes x y hinfix

theorem percentDecode_eq_self_iff (bytes : List UInt8) :
    percentDecode bytes = bytes ↔ Literal bytes := by
  have hshort : ∀ a b, ∀ short : List UInt8, short.length ≤ 2 → ¬ [percent, a, b] <:+: short := by
    intro a b short hlength hinfix
    have hthree : 3 ≤ short.length := hinfix.length_le
    omega
  induction bytes using percentDecode.induct with
  | case1 =>
    exact iff_of_true rfl ⟨List.not_mem_nil, fun a b h => absurd h (hshort a b [] (by decide))⟩
  | case2 c =>
    rw [percentDecode, Literal, List.cons_eq_cons, plusToSpace_eq_iff, List.mem_singleton]
    have hescapes a b : ¬ [percent, a, b] <:+: [c] := hshort a b [c] (Nat.le_succ 1)
    exact ⟨fun h => ⟨Ne.symm h.1, fun a b hin => absurd hin (hescapes a b)⟩,
      fun h => ⟨Ne.symm h.1, rfl⟩⟩
  | case3 c d =>
    rw [percentDecode, Literal, List.cons_eq_cons, List.cons_eq_cons, plusToSpace_eq_iff,
      plusToSpace_eq_iff, List.mem_cons, List.mem_singleton, not_or]
    have hescapes a b : ¬ [percent, a, b] <:+: [c, d] := hshort a b [c, d] (Nat.le_refl 2)
    exact ⟨fun h => ⟨⟨Ne.symm h.1, Ne.symm h.2.1⟩, fun a b hin => absurd hin (hescapes a b)⟩,
      fun h => ⟨Ne.symm h.1.1, Ne.symm h.1.2, rfl⟩⟩
  | case4 c a b rest byte hbyte ih =>
    rw [percentDecode, hbyte, literal_cons_iff, hbyte]
    refine iff_of_false (fun h => ?_) fun h => Option.some_ne_none _ h.2.1
    have hlength := congrArg List.length h
    have hle := length_percentDecode_le rest
    simp only [List.length_cons] at hlength
    omega
  | case5 c a b rest hnone ih =>
    rw [percentDecode, hnone, literal_cons_iff, hnone]
    dsimp only
    rw [List.cons_eq_cons, plusToSpace_eq_iff]
    exact and_congr_right fun _ => ⟨fun h => ⟨rfl, ih.mp h⟩, fun h => ih.mpr h.2⟩

/-! ## Texts -/

def bytes (t : Text) : List UInt8 := utf8 (chars t)

def decode (t : Text) : Option Text := (readUtf8 (percentDecode (bytes t))).map ofChars

theorem decode_eq_some_iff {t value : Text} :
    decode t = some value ↔ WellFormed value ∧ bytes value = percentDecode (bytes t) := by
  rw [decode, Option.map_eq_some_iff]
  constructor
  · rintro ⟨cs, hcs, rfl⟩
    refine ⟨⟨cs, rfl⟩, ?_⟩
    rw [bytes, chars_ofChars]
    exact readUtf8_iff.mp hcs
  · rintro ⟨hwell, hbytes⟩
    exact ⟨chars value, readUtf8_iff.mpr hbytes, wellFormed_iff.mp hwell⟩

theorem decode_eq_self_iff (t : Text) :
    decode t = some t ↔ WellFormed t ∧ Literal (bytes t) := by
  rw [decode_eq_some_iff, ← percentDecode_eq_self_iff, eq_comm (a := bytes t)]

theorem utf8_append (cs ds : List Char) : utf8 (cs ++ ds) = utf8 cs ++ utf8 ds :=
  List.flatMap_append

/-- A text that was cut before an ASCII character is not read as the whole. -/
theorem decode_cut {c : UInt16} (hc : c.toNat < 128) (t rest : Text) :
    decode t ≠ some (t ++ c :: rest) := by
  intro h
  have hbytes := (decode_eq_some_iff.mp h).2
  rw [bytes, chars_append_cons (by omega), utf8_append] at hbytes
  have hlength := congrArg List.length hbytes
  have hle := length_percentDecode_le (bytes t)
  have hpos := Char.utf8Size_pos (Char.ofNat c.toNat)
  rw [List.length_append, utf8, utf8, List.flatMap_cons, List.length_append,
    String.length_utf8EncodeChar] at hlength
  rw [bytes, utf8] at hle hlength
  omega

/-! ## Encoding -/

def isUnreserved (n : Nat) : Bool :=
  (0x30 ≤ n && n ≤ 0x39) || (0x41 ≤ n && n ≤ 0x5a) || (0x61 ≤ n && n ≤ 0x7a) ||
    n = 0x2a || n = 0x2d || n = 0x2e || n = 0x5f

def hexDigit (n : Nat) : UInt16 :=
  if n < 10 then UInt16.ofNat (0x30 + n) else UInt16.ofNat (0x37 + n)

def escape (b : UInt8) : Text := [0x25, hexDigit (b.toNat / 16), hexDigit (b.toNat % 16)]

def encodeChar (c : Char) : Text :=
  if isUnreserved c.toNat then [UInt16.ofNat c.toNat]
  else if c = ' ' then [0x2b]
  else (String.utf8EncodeChar c).flatMap escape

def encode (t : Text) : Text := (chars t).flatMap encodeChar

def IsEncoded (u : UInt16) : Prop :=
  isUnreserved u.toNat = true ∨ u = 0x2b ∨ u = 0x25

theorem isUnreserved_hexDigit {n : Nat} (h : n < 16) : isUnreserved (hexDigit n).toNat = true := by
  have hall : ∀ k : Fin 16, isUnreserved (hexDigit k.val).toNat = true := by decide
  exact hall ⟨n, h⟩

theorem lt_of_isUnreserved {n : Nat} (h : isUnreserved n = true) : n < 128 := by
  simp only [isUnreserved, Bool.or_eq_true, Bool.and_eq_true, decide_eq_true_eq] at h
  omega

theorem isEncoded_of_mem {u : UInt16} {t : Text} (h : u ∈ encode t) : IsEncoded u := by
  obtain ⟨c, -, hu⟩ := List.mem_flatMap.mp h
  rw [encodeChar] at hu
  split at hu
  · rename_i hsafe
    rw [List.mem_singleton.mp hu]
    left
    have hlt := lt_of_isUnreserved hsafe
    rw [UInt16.toNat_ofNat_of_lt' (by rw [UInt16.size]; omega)]
    exact hsafe
  · split at hu
    · exact .inr (.inl (List.mem_singleton.mp hu))
    · obtain ⟨b, -, hb⟩ := List.mem_flatMap.mp hu
      have hlt := b.toNat_lt
      rw [escape, List.mem_cons, List.mem_cons, List.mem_singleton] at hb
      rcases hb with rfl | rfl | rfl
      · exact .inr (.inr rfl)
      · exact .inl (isUnreserved_hexDigit (by omega))
      · exact .inl (isUnreserved_hexDigit (by omega))

theorem lt_of_isEncoded {u : UInt16} (h : IsEncoded u) : u.toNat < 128 := by
  rcases h with h | rfl | rfl
  · exact lt_of_isUnreserved h
  · decide
  · decide

def byte (u : UInt16) : UInt8 := UInt8.ofNat u.toNat

theorem bytes_of_ascii (t : Text) : (∀ u ∈ t, u.toNat < 128) → bytes t = t.map byte := by
  induction t with
  | nil => exact fun _ => rfl
  | cons u t ih =>
    intro h
    have hu := h u (List.mem_cons_self ..)
    have hvalue : (Char.ofNat u.toNat).toNat = u.toNat := toNat_ofNat (by omega)
    have hsize : (Char.ofNat u.toNat).utf8Size = 1 := by
      rw [Char.utf8Size_eq_one_iff, UInt32.le_iff_toNat_le]
      change (Char.ofNat u.toNat).toNat ≤ 127
      omega
    have hrest := ih fun v hv => h v (List.mem_cons_of_mem _ hv)
    rw [bytes, chars_cons (by omega), utf8, List.flatMap_cons,
      String.utf8EncodeChar_eq_singleton hsize, List.map_cons, ← hrest, List.singleton_append]
    have hbyte : (Char.ofNat u.toNat).val.toUInt8 = byte u := by
      change UInt8.ofNat (Char.ofNat u.toNat).toNat = UInt8.ofNat u.toNat
      rw [hvalue]
    rw [hbyte]
    rfl

theorem percentDecode_cons {c : UInt8} (hpercent : c ≠ percent) (rest : List UInt8) :
    percentDecode (c :: rest) = plusToSpace c :: percentDecode rest := by
  cases rest with
  | nil => rfl
  | cons a rest =>
    cases rest with
    | nil => rfl
    | cons b rest =>
      have hnone : unescape c a b = none :=
        unescape_eq_none_iff.mpr fun h => absurd h hpercent
      rw [percentDecode, hnone]

theorem hexValue_hexDigit {n : Nat} (h : n < 16) : hexValue (byte (hexDigit n)) = some n := by
  have hall : ∀ k : Fin 16, hexValue (byte (hexDigit k.val)) = some k.val := by decide
  exact hall ⟨n, h⟩

theorem percentDecode_escape (b : UInt8) (rest : List UInt8) :
    percentDecode ((escape b).map byte ++ rest) = b :: percentDecode rest := by
  have hlt := b.toNat_lt
  have hvalue : 16 * (b.toNat / 16) + b.toNat % 16 = b.toNat := by omega
  have hbyte : unescape percent (byte (hexDigit (b.toNat / 16)))
      (byte (hexDigit (b.toNat % 16))) = some b := by
    rw [unescape, if_pos rfl, hexValue_hexDigit (by omega), hexValue_hexDigit (by omega),
      Option.bind_some, Option.map_some, hvalue, UInt8.ofNat_toNat]
  change percentDecode (percent :: byte (hexDigit (b.toNat / 16)) ::
    byte (hexDigit (b.toNat % 16)) :: rest) = _
  rw [percentDecode, hbyte]

theorem percentDecode_escapes (bs rest : List UInt8) :
    percentDecode ((bs.flatMap escape).map byte ++ rest) = bs ++ percentDecode rest := by
  induction bs with
  | nil => rfl
  | cons b bs ih =>
    rw [List.flatMap_cons, List.map_append, List.append_assoc, percentDecode_escape, ih,
      List.cons_append]

theorem percentDecode_encodeChar (c : Char) (rest : List UInt8) :
    percentDecode ((encodeChar c).map byte ++ rest) =
      String.utf8EncodeChar c ++ percentDecode rest := by
  rw [encodeChar]
  split
  · rename_i hsafe
    have hlt := lt_of_isUnreserved hsafe
    have hsize : c.utf8Size = 1 := by
      rw [Char.utf8Size_eq_one_iff, UInt32.le_iff_toNat_le]
      exact Nat.le_of_lt_succ hlt
    have hbyte : byte (UInt16.ofNat c.toNat) = c.val.toUInt8 := by
      rw [byte, UInt16.toNat_ofNat_of_lt' (by rw [UInt16.size]; omega)]
      rfl
    have hne : ∀ b : UInt8, isUnreserved b.toNat = false → c.val.toUInt8 ≠ b := by
      intro b hb heq
      rw [← heq, ← hbyte, byte, UInt16.toNat_ofNat_of_lt' (by rw [UInt16.size]; omega),
        UInt8.toNat_ofNat_of_lt' (by rw [UInt8.size]; omega), hsafe] at hb
      cases hb
    rw [List.map_singleton, List.singleton_append, hbyte, percentDecode_cons (hne percent rfl),
      plusToSpace_eq_iff.mpr (hne plus rfl), String.utf8EncodeChar_eq_singleton hsize,
      List.singleton_append]
  · split
    · rename_i hspace
      rw [hspace]
      exact percentDecode_cons (by decide) rest
    · exact percentDecode_escapes _ rest

theorem percentDecode_encode (cs : List Char) :
    percentDecode ((cs.flatMap encodeChar).map byte) = utf8 cs := by
  induction cs with
  | nil => rfl
  | cons c cs ih =>
    rw [List.flatMap_cons, List.map_append, percentDecode_encodeChar, ih]
    rfl

/-- What is encoded is read back, but for surrogates that are not of a pair. -/
theorem decode_encode (t : Text) : decode (encode t) = some (ofChars (chars t)) := by
  rw [decode, bytes_of_ascii _ fun u hu => lt_of_isEncoded (isEncoded_of_mem hu), encode,
    percentDecode_encode, readUtf8_iff.mpr rfl, Option.map_some]

theorem wellFormed_of_ascii (t : Text) : (∀ u ∈ t, u.toNat < 128) → WellFormed t := by
  rw [wellFormed_iff]
  induction t with
  | nil => exact fun _ => rfl
  | cons u t ih =>
    intro h
    have hu := h u (List.mem_cons_self ..)
    have hvalue : (Char.ofNat u.toNat).toNat = u.toNat := toNat_ofNat (by omega)
    have hunits : units (Char.ofNat u.toNat) = [u] := by
      rw [units, hvalue, if_pos (by omega), UInt16.ofNat_toNat]
    rw [chars_cons (by omega), ofChars, List.flatMap_cons, hunits, List.singleton_append]
    exact congrArg (u :: ·) (ih fun v hv => h v (List.mem_cons_of_mem _ hv))

theorem literal_of_unreserved {t : Text} (h : ∀ u ∈ t, isUnreserved u.toNat = true) :
    Literal (bytes t) := by
  have hascii : ∀ u ∈ t, u.toNat < 128 := fun u hu => lt_of_isUnreserved (h u hu)
  have hnot : ∀ b : UInt8, isUnreserved b.toNat = false → b ∉ bytes t := by
    intro b hb hmem
    rw [bytes_of_ascii t hascii] at hmem
    obtain ⟨u, hu, rfl⟩ := List.mem_map.mp hmem
    have hlt := hascii u hu
    rw [byte, UInt8.toNat_ofNat_of_lt' (by rw [UInt8.size]; omega), h u hu] at hb
    cases hb
  refine ⟨hnot plus rfl, fun a b hin => ?_⟩
  exact absurd (hin.subset (List.mem_cons_self ..)) (hnot percent rfl)

/-! ## Parameters -/

def readParam (piece : Text) : Option (Text × Text) :=
  (decode (piece.takeWhile (· ≠ equals))).bind fun name =>
    (decode ((piece.dropWhile (· ≠ equals)).drop 1)).map fun value => (name, value)

/-- Without the fragment; between two ampersands there may be nothing. -/
def readQuery (query : Text) : Option (List (Text × Text)) :=
  (((query.takeWhile (· ≠ hash)).splitOn ampersand).filter (· ≠ [])).mapM readParam

def written (param : Text × Text) : Text := param.1 ++ equals :: param.2

def join : List (Text × Text) → Text
  | [] => []
  | [param] => written param
  | param :: next :: params => written param ++ ampersand :: join (next :: params)

/-- Neither the value nor the query ends in the text. -/
def Unbroken (t : Text) : Prop := ampersand ∉ t ∧ hash ∉ t

instance (t : Text) : Decidable (Unbroken t) := inferInstanceAs (Decidable (_ ∧ _))

structure IsName (name : Text) : Prop where
  unbroken : Unbroken name
  equals : equals ∉ name
  decode : decode name = some name

structure Plain (t : Text) : Prop where
  wellFormed : WellFormed t
  unbroken : Unbroken t
  literal : Literal (bytes t)

theorem plain_iff {t : Text} : Plain t ↔ Unbroken t ∧ decode t = some t := by
  rw [decode_eq_self_iff]
  exact ⟨fun h => ⟨h.unbroken, h.wellFormed, h.literal⟩, fun h => ⟨h.2.1, h.1, h.2.2⟩⟩

theorem plain_of_unreserved {t : Text} (h : t.all (fun u => isUnreserved u.toNat) = true) :
    Plain t := by
  have hall := List.all_eq_true.mp h
  exact
    { wellFormed := wellFormed_of_ascii t fun u hu => lt_of_isUnreserved (hall u hu)
      unbroken := ⟨fun hmem => absurd (hall _ hmem) (by decide),
        fun hmem => absurd (hall _ hmem) (by decide)⟩
      literal := literal_of_unreserved hall }

theorem isName_of_unreserved {t : Text} (h : t.all (fun u => isUnreserved u.toNat) = true) :
    IsName t where
  unbroken := (plain_of_unreserved h).unbroken
  equals := fun hmem => absurd (List.all_eq_true.mp h _ hmem) (by decide)
  decode := (plain_iff.mp (plain_of_unreserved h)).2

theorem not_mem_encode {c : UInt16} (hc : isUnreserved c.toNat = false) (hplus : c ≠ 0x2b)
    (hpercent : c ≠ 0x25) (t : Text) : c ∉ encode t := by
  intro hmem
  rcases isEncoded_of_mem hmem with h | h | h
  · rw [hc] at h
    cases h
  · exact hplus h
  · exact hpercent h

theorem unbroken_encode (t : Text) : Unbroken (encode t) :=
  ⟨not_mem_encode rfl (by decide) (by decide) t, not_mem_encode rfl (by decide) (by decide) t⟩

theorem takeWhile_append_cons {p : UInt16 → Bool} {front : Text} {c : UInt16}
    (hfront : ∀ x ∈ front, p x = true) (hc : p c = false) (rest : Text) :
    (front ++ c :: rest).takeWhile p = front := by
  rw [List.takeWhile_append_of_pos hfront, List.takeWhile_cons_of_neg (by rw [hc]; exact
    Bool.false_ne_true), List.append_nil]

theorem dropWhile_append_cons {p : UInt16 → Bool} {front : Text} {c : UInt16}
    (hfront : ∀ x ∈ front, p x = true) (hc : p c = false) (rest : Text) :
    (front ++ c :: rest).dropWhile p = c :: rest := by
  rw [List.dropWhile_append_of_pos hfront, List.dropWhile_cons_of_neg (by rw [hc]; exact
    Bool.false_ne_true)]

theorem ne_of_not_mem {c : UInt16} {t : Text} (h : c ∉ t) : ∀ x ∈ t, decide (x ≠ c) = true := by
  intro x hx
  refine decide_eq_true ?_
  rintro rfl
  exact h hx

theorem readParam_written {name : Text} (hname : IsName name) (value : Text) :
    readParam (written (name, value)) = (decode value).map fun v => (name, v) := by
  have hne := ne_of_not_mem hname.equals
  rw [readParam, written, takeWhile_append_cons hne (decide_eq_false fun h => h rfl),
    dropWhile_append_cons hne (decide_eq_false fun h => h rfl), hname.decode, Option.bind_some]
  rfl

theorem unbroken_written {name value : Text} (hname : IsName name) (hvalue : Unbroken value) :
    Unbroken (written (name, value)) := by
  refine ⟨?_, ?_⟩
  · rw [written, List.mem_append, List.mem_cons, not_or, not_or]
    exact ⟨hname.unbroken.1, by decide, hvalue.1⟩
  · rw [written, List.mem_append, List.mem_cons, not_or, not_or]
    exact ⟨hname.unbroken.2, by decide, hvalue.2⟩

theorem written_ne_nil (param : Text × Text) : written param ≠ [] :=
  List.append_ne_nil_of_right_ne_nil _ (List.cons_ne_nil _ _)

theorem readQuery_piece {piece : Text} (hpiece : Unbroken piece) (hne : piece ≠ []) :
    readQuery piece = (readParam piece).map fun param => [param] := by
  have htake : piece.takeWhile (· ≠ hash) = piece :=
    List.takeWhile_eq_self_iff.mpr (ne_of_not_mem hpiece.2)
  rw [readQuery, htake, List.splitOn_eq_singleton hpiece.1, List.filter_singleton,
    decide_eq_true hne, cond_true, List.mapM_cons, List.mapM_nil]
  cases readParam piece with
  | none => rfl
  | some param => rfl

theorem readQuery_append {piece : Text} (hpiece : Unbroken piece) (hne : piece ≠ []) {c : UInt16}
    (hc : c = ampersand ∨ c = hash) (rest : Text) :
    ∃ more, readQuery (piece ++ c :: rest) =
      ((readParam piece).bind fun param => more.map (param :: ·)) ∧
      (c = ampersand → more = readQuery rest) := by
  have hnot := ne_of_not_mem hpiece.2
  rcases hc with rfl | rfl
  · refine ⟨readQuery rest, ?_, fun _ => rfl⟩
    have htake : (piece ++ ampersand :: rest).takeWhile (· ≠ hash) =
        piece ++ ampersand :: rest.takeWhile (· ≠ hash) := by
      rw [List.takeWhile_append_of_pos hnot, List.takeWhile_cons_of_pos (by decide)]
    rw [readQuery, htake, List.splitOn_append_cons_self, List.splitOn_eq_singleton hpiece.1,
      List.singleton_append, List.filter_cons, if_pos (decide_eq_true hne), List.mapM_cons]
    cases readParam piece with
    | none => rfl
    | some param =>
      rw [Option.bind_some, readQuery]
      cases List.mapM readParam _ with
      | none => rfl
      | some params => rfl
  · refine ⟨some [], ?_, fun h => absurd h (by decide)⟩
    have hself := readQuery_piece hpiece hne
    have htake : piece.takeWhile (· ≠ hash) = piece := List.takeWhile_eq_self_iff.mpr hnot
    rw [readQuery, htake] at hself
    rw [readQuery, takeWhile_append_cons hnot (by decide), hself]
    cases readParam piece with
    | none => rfl
    | some param => rfl

theorem readQuery_join_cons {name value : Text} (hname : IsName name) (hvalue : Unbroken value)
    (params : List (Text × Text)) :
    readQuery (join ((name, value) :: params)) =
      (decode value).bind fun v => (readQuery (join params)).map ((name, v) :: ·) := by
  have hunbroken := unbroken_written hname hvalue
  have hread := readParam_written hname value
  cases params with
  | nil =>
    change readQuery (written (name, value)) = _
    rw [readQuery_piece hunbroken (written_ne_nil _), hread]
    cases decode value with
    | none => rfl
    | some v => rfl
  | cons next params =>
    obtain ⟨more, hmore, hrest⟩ := readQuery_append hunbroken (written_ne_nil _) (.inl rfl)
      (join (next :: params))
    rw [join, hmore, hrest rfl, hread]
    cases decode value with
    | none => rfl
    | some v => rfl

theorem exists_break {t : Text} (h : ¬ Unbroken t) :
    ∃ front c rest, t = front ++ c :: rest ∧ Unbroken front ∧ (c = ampersand ∨ c = hash) := by
  induction t with
  | nil => exact absurd ⟨List.not_mem_nil, List.not_mem_nil⟩ h
  | cons x t ih =>
    by_cases hx : x = ampersand ∨ x = hash
    · exact ⟨[], x, t, rfl, ⟨List.not_mem_nil, List.not_mem_nil⟩, hx⟩
    · obtain ⟨hampersand, hhash⟩ := not_or.mp hx
      have hcons : ∀ s, Unbroken s → Unbroken (x :: s) := by
        intro s hs
        rw [Unbroken, List.mem_cons, List.mem_cons, not_or, not_or]
        exact ⟨⟨Ne.symm hampersand, hs.1⟩, Ne.symm hhash, hs.2⟩
      obtain ⟨front, c, rest, rfl, hfront, hc⟩ := ih fun ht => h (hcons t ht)
      exact ⟨x :: front, c, rest, rfl, hcons front hfront, hc⟩

/-- What is read of a parameter whose text is broken begins with less than the text. -/
theorem readQuery_join_broken {name value : Text} (hname : IsName name) (hvalue : ¬ Unbroken value)
    {params read : List (Text × Text)}
    (h : readQuery (join ((name, value) :: params)) = some read) :
    ∃ first others, read = first :: others ∧ ¬ value <+: first.2 := by
  obtain ⟨front, c, rest, rfl, hfront, hc⟩ := exists_break hvalue
  obtain ⟨tail, htail⟩ : ∃ tail, join ((name, front ++ c :: rest) :: params) =
      written (name, front) ++ c :: tail := by
    cases params with
    | nil => exact ⟨rest, by simp [join, written]⟩
    | cons next params =>
      exact ⟨rest ++ ampersand :: join (next :: params), by simp [join, written]⟩
  obtain ⟨more, hmore, -⟩ := readQuery_append (unbroken_written hname hfront)
    (written_ne_nil _) hc tail
  rw [htail, hmore, readParam_written hname] at h
  obtain ⟨first, hfirst, hcons⟩ := Option.bind_eq_some_iff.mp h
  obtain ⟨v, hv, rfl⟩ := Option.map_eq_some_iff.mp hfirst
  obtain ⟨others, -, hothers⟩ := Option.map_eq_some_iff.mp hcons
  refine ⟨(name, v), others, hothers.symm, ?_⟩
  rintro ⟨suffix, hsuffix⟩
  dsimp only at hsuffix
  rw [List.append_assoc, List.cons_append] at hsuffix
  have hascii : c.toNat < 128 := by
    rcases hc with rfl | rfl
    · decide
    · decide
  exact decode_cut hascii front (rest ++ suffix) (by rw [hv, hsuffix])

def Reads (param read : Text × Text) : Prop :=
  param.1 = read.1 ∧ Unbroken param.2 ∧ decode param.2 = some read.2

theorem readQuery_join_eq_some {name value : Text} (hname : IsName name) (hvalue : Unbroken value)
    {params read : List (Text × Text)} :
    readQuery (join ((name, value) :: params)) = some read ↔
      ∃ v others, decode value = some v ∧ readQuery (join params) = some others ∧
        read = (name, v) :: others := by
  rw [readQuery_join_cons hname hvalue, Option.bind_eq_some_iff]
  constructor
  · rintro ⟨v, hv, hmap⟩
    obtain ⟨others, hothers, rfl⟩ := Option.map_eq_some_iff.mp hmap
    exact ⟨v, others, hv, hothers, rfl⟩
  · rintro ⟨v, others, hv, hothers, rfl⟩
    exact ⟨v, hv, Option.map_eq_some_iff.mpr ⟨others, hothers, rfl⟩⟩

theorem readQuery_join_iff (params : List (Text × Text)) :
    ∀ read : List (Text × Text), (∀ param ∈ params, IsName param.1) →
      (∀ pair ∈ params.zip read, Unbroken pair.1.2 ∨ pair.1.2 <+: pair.2.2) →
      (readQuery (join params) = some read ↔ List.Forall₂ Reads params read) := by
  induction params with
  | nil =>
    intro read _ _
    cases read with
    | nil => exact iff_of_true rfl .nil
    | cons r read => exact iff_of_false (fun h => by cases h) fun h => by cases h
  | cons param params ih =>
    intro read hnames hfits
    obtain ⟨name, value⟩ := param
    have hname : IsName name := hnames _ (List.mem_cons_self ..)
    have hrest : ∀ p ∈ params, IsName p.1 := fun p hp => hnames p (List.mem_cons_of_mem _ hp)
    by_cases hvalue : Unbroken value
    · rw [readQuery_join_eq_some hname hvalue]
      constructor
      · rintro ⟨v, others, hv, hothers, rfl⟩
        have hothers := (ih others hrest fun pair hpair =>
          hfits pair (List.mem_cons_of_mem _ hpair)).mp hothers
        exact .cons ⟨rfl, hvalue, hv⟩ hothers
      · intro h
        cases h with
        | @cons _ r _ others hparam hothers =>
          have hothers := (ih others hrest fun pair hpair =>
            hfits pair (List.mem_cons_of_mem _ hpair)).mpr hothers
          refine ⟨r.2, others, hparam.2.2, hothers, ?_⟩
          rw [show name = r.1 from hparam.1]
    · refine iff_of_false (fun h => ?_) fun h => ?_
      · obtain ⟨first, others, rfl, hnot⟩ := readQuery_join_broken hname hvalue h
        rcases hfits _ (List.mem_cons_self ..) with hunbroken | hprefix
        · exact hvalue hunbroken
        · exact hnot hprefix
      · cases h with
        | cons hparam _ => exact hvalue hparam.2.1

/-! ## URLs -/

def isDelimiter (c : UInt16) : Bool := c = question || c = hash

/-- The text before the query and the parameters in it. -/
def readUrl (url : Text) : Option (Text × List (Text × Text)) :=
  match url.dropWhile (!isDelimiter ·) with
  | c :: query =>
    if c = question then
      (readQuery query).map fun params => (url.takeWhile (!isDelimiter ·), params)
    else some (url.takeWhile (!isDelimiter ·), [])
  | [] => some (url, [])

theorem takeWhile_not_delimiter {url : Text} {read : Text × List (Text × Text)}
    (h : readUrl url = some read) : read.1 = url.takeWhile (!isDelimiter ·) := by
  rw [readUrl] at h
  split at h
  · split at h
    · obtain ⟨params, -, rfl⟩ := Option.map_eq_some_iff.mp h
      rfl
    · cases h
      rfl
  · rename_i hdrop
    cases h
    have hsplit := List.takeWhile_append_dropWhile (p := (!isDelimiter ·)) (l := url)
    rw [hdrop, List.append_nil] at hsplit
    exact hsplit.symm

theorem not_delimiter {address : Text} (h : question ∉ address ∧ hash ∉ address) :
    ∀ x ∈ address, (!isDelimiter x) = true := by
  intro x hx
  rw [Bool.not_eq_true', isDelimiter, Bool.or_eq_false_iff, decide_eq_false_iff_not,
    decide_eq_false_iff_not]
  refine ⟨?_, ?_⟩
  · rintro rfl
    exact h.1 hx
  · rintro rfl
    exact h.2 hx

theorem address_of_readUrl {address query : Text} (haddress : question ∉ address ∧ hash ∉ address)
    {read : Text × List (Text × Text)} (h : readUrl (address ++ question :: query) = some read) :
    read.1 = address := by
  rw [takeWhile_not_delimiter h, takeWhile_append_cons (not_delimiter haddress) rfl]

theorem readUrl_append_iff (address query : Text) (params : List (Text × Text)) :
    readUrl (address ++ question :: query) = some (address, params) ↔
      (question ∉ address ∧ hash ∉ address) ∧ readQuery query = some params := by
  have hquestion : (!isDelimiter question) = false := rfl
  constructor
  · intro h
    have htake : address = (address ++ question :: query).takeWhile (!isDelimiter ·) :=
      takeWhile_not_delimiter h
    have hmem : ∀ x ∈ address, (!isDelimiter x) = true := by
      intro x hx
      rw [htake] at hx
      exact List.mem_takeWhile_imp (p := (!isDelimiter ·)) hx
    have hnot : ∀ c, isDelimiter c = true → c ∉ address := by
      intro c hc hin
      have hfree := hmem c hin
      rw [hc] at hfree
      cases hfree
    refine ⟨⟨hnot question rfl, hnot hash rfl⟩, ?_⟩
    rw [readUrl, dropWhile_append_cons hmem hquestion, takeWhile_append_cons hmem hquestion] at h
    dsimp only at h
    rw [if_pos rfl] at h
    obtain ⟨read, hread, hsame⟩ := Option.map_eq_some_iff.mp h
    rw [hread, (Prod.mk.inj hsame).2]
  · rintro ⟨haddress, hread⟩
    have hmem := not_delimiter haddress
    rw [readUrl, dropWhile_append_cons hmem hquestion, takeWhile_append_cons hmem hquestion]
    dsimp only
    rw [if_pos rfl, hread, Option.map_some]

/-! ## Blanks at the end -/

def isBlank (c : UInt16) : Bool := c ≤ 0x20

def Trimmed (t : Text) : Prop := t.rdropWhile isBlank = t

instance (t : Text) : Decidable (Trimmed t) := inferInstanceAs (Decidable (_ = _))

theorem rdropWhile_append_cons {c : UInt16} (hc : isBlank c = false) (front value : Text) :
    (front ++ c :: value).rdropWhile isBlank = front ++ c :: value.rdropWhile isBlank := by
  induction value using List.reverseRecOn with
  | nil =>
    rw [List.rdropWhile_concat_neg _ _ _ (by rw [hc]; exact Bool.false_ne_true)]
    rfl
  | append_singleton value x ih =>
    rw [← List.cons_append, ← List.append_assoc, List.rdropWhile_concat, List.rdropWhile_concat]
    split
    · exact ih
    · rw [List.append_assoc, List.cons_append]

theorem join_cons_concat (first : Text × Text) (params : List (Text × Text)) (param : Text × Text) :
    join (first :: params ++ [param]) = join (first :: params) ++ ampersand :: written param := by
  induction params generalizing first with
  | nil => rfl
  | cons next params ih =>
    change written first ++ ampersand :: join (next :: params ++ [param]) =
      (written first ++ ampersand :: join (next :: params)) ++ ampersand :: written param
    rw [ih, List.append_assoc, List.cons_append]

theorem exists_join_concat (params : List (Text × Text)) (name : Text) :
    ∃ front, ∀ value, join (params ++ [(name, value)]) = front ++ equals :: value := by
  cases params with
  | nil => exact ⟨name, fun _ => rfl⟩
  | cons first params =>
    refine ⟨join (first :: params) ++ ampersand :: name, fun value => ?_⟩
    rw [join_cons_concat, written, List.append_assoc, List.cons_append]

theorem rdropWhile_join (front : Text) (params : List (Text × Text)) (name value : Text) :
    (front ++ join (params ++ [(name, value)])).rdropWhile isBlank =
      front ++ join (params ++ [(name, value.rdropWhile isBlank)]) := by
  obtain ⟨start, hstart⟩ := exists_join_concat params name
  rw [hstart, hstart, ← List.append_assoc, rdropWhile_append_cons rfl, List.append_assoc]

theorem trimmed_of_decode {t : Text} (h : decode (t.rdropWhile isBlank) = some t) : Trimmed t := by
  by_contra hnot
  have hsplit : t.rdropWhile isBlank ++ t.rtakeWhile isBlank = t :=
    List.rdropWhile_append_rtakeWhile
  cases hblanks : t.rtakeWhile isBlank with
  | nil =>
    rw [hblanks, List.append_nil] at hsplit
    exact hnot hsplit
  | cons c rest =>
    have hmem : c ∈ t.rtakeWhile isBlank := by
      rw [hblanks]
      exact List.mem_cons_self ..
    have hblank := List.mem_rtakeWhile_imp hmem
    rw [isBlank, decide_eq_true_eq, UInt16.le_iff_toNat_le] at hblank
    have hascii : c.toNat < 128 := Nat.lt_of_le_of_lt hblank (by decide)
    rw [hblanks] at hsplit
    exact decode_cut hascii _ rest (h.trans (congrArg some hsplit.symm))

/-! ## Values in a URL -/

theorem reads_self_iff (name value : Text) :
    Reads (name, value) (name, value) ↔ Plain value := by
  rw [Reads, plain_iff]
  exact and_iff_right rfl

theorem reads_encode_iff (name value : Text) :
    Reads (name, encode value) (name, value) ↔ WellFormed value := by
  rw [Reads, decode_encode, wellFormed_iff, Option.some_inj]
  exact ⟨fun h => h.2.2, fun h => ⟨rfl, unbroken_encode value, h⟩⟩

theorem reads_trimmed_iff (name value : Text) :
    Reads (name, value.rdropWhile isBlank) (name, value) ↔ Plain value ∧ Trimmed value := by
  constructor
  · rintro ⟨-, hunbroken, hdecode⟩
    have htrimmed := trimmed_of_decode hdecode
    rw [htrimmed] at hunbroken hdecode
    exact ⟨plain_iff.mpr ⟨hunbroken, hdecode⟩, htrimmed⟩
  · rintro ⟨hplain, htrimmed⟩
    rw [htrimmed]
    exact (reads_self_iff name value).mpr hplain

def strip (url : Text) : Text := (url.dropWhile isBlank).rdropWhile isBlank

theorem strip_append {c : UInt16} (hc : isBlank c = false) (address query : Text) :
    strip (c :: address ++ question :: query) =
      c :: address ++ question :: query.rdropWhile isBlank := by
  have hstart : (c :: address ++ question :: query).dropWhile isBlank =
      c :: address ++ question :: query :=
    List.dropWhile_cons_of_neg (by rw [hc]; exact Bool.false_ne_true)
  rw [strip, hstart, rdropWhile_append_cons rfl]

/-- The last value loses its blanks; otherwise the parameters are read if each of them is. -/
theorem readUrl_strip_iff {c : UInt16} (hc : isBlank c = false) (address : Text)
    {params : List (Text × Text)} {name : Text} (value : Text) {read : List (Text × Text)}
    (hnames : ∀ param ∈ params, IsName param.1) (hname : IsName name)
    (hfits : ∀ pair ∈ (params ++ [(name, value.rdropWhile isBlank)]).zip read,
      Unbroken pair.1.2 ∨ pair.1.2 <+: pair.2.2) :
    readUrl (strip (c :: address ++ question :: join (params ++ [(name, value)]))) =
        some (c :: address, read) ↔
      (question ∉ c :: address ∧ hash ∉ c :: address) ∧
        List.Forall₂ Reads (params ++ [(name, value.rdropWhile isBlank)]) read := by
  have hend := rdropWhile_join [] params name value
  rw [List.nil_append, List.nil_append] at hend
  rw [strip_append hc, hend, readUrl_append_iff, readQuery_join_iff _ _ ?_ hfits]
  intro param hparam
  rcases List.mem_append.mp hparam with hparam | hlast
  · exact hnames param hparam
  · rw [List.mem_singleton.mp hlast]
    exact hname

end AlmondAndroid.Library.UrlQuery
