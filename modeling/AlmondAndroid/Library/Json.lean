import Mathlib.Data.List.Basic

/-!
# JSON texts

Trees of JSON data over any type of numbers, their text without white space, and a
reader of JSON texts. A text is a sequence of UTF-16 code units. What is written
is read back, whatever follows it.
-/

namespace AlmondAndroid.Library

universe u

inductive JsonTree (Num : Type u)
  | null
  | boolean (b : Bool)
  | number (n : Num)
  | string (s : List UInt16)
  | array (elements : List (JsonTree Num))
  | object (members : List (List UInt16 × JsonTree Num))

namespace Json

abbrev Text := List UInt16

def quote : UInt16 := 0x22
def backslash : UInt16 := 0x5c
def comma : UInt16 := 0x2c
def colon : UInt16 := 0x3a
def openBracket : UInt16 := 0x5b
def closeBracket : UInt16 := 0x5d
def openBrace : UInt16 := 0x7b
def closeBrace : UInt16 := 0x7d
def letterU : UInt16 := 0x75

def nullText : Text := [0x6e, 0x75, 0x6c, 0x6c]
def trueText : Text := [0x74, 0x72, 0x75, 0x65]
def falseText : Text := [0x66, 0x61, 0x6c, 0x73, 0x65]

def IsNumberStart (c : UInt16) : Prop := c = 0x2d ∨ (0x30 ≤ c ∧ c ≤ 0x39)

/-- What may come after a value inside a text. -/
def IsDelimiter (c : UInt16) : Prop := c = comma ∨ c = closeBracket ∨ c = closeBrace

/-- How numbers are written, and read at the front of a text. -/
structure NumberFormat (Num : Type u) where
  text : Num → Text
  read : Text → Option (Num × Text)
  start : ∀ n, ∃ c rest, text n = c :: rest ∧ IsNumberStart c
  read_text : ∀ n rest, (∀ c ∈ rest.head?, IsDelimiter c) → read (text n ++ rest) = some (n, rest)

/-! ## Strings -/

def hexDigit (n : Nat) : UInt16 :=
  if n < 10 then UInt16.ofNat (48 + n) else UInt16.ofNat (87 + n)

def hexValue (c : UInt16) : Option Nat :=
  if 48 ≤ c.toNat ∧ c.toNat ≤ 57 then some (c.toNat - 48)
  else if 97 ≤ c.toNat ∧ c.toNat ≤ 102 then some (c.toNat - 87)
  else if 65 ≤ c.toNat ∧ c.toNat ≤ 70 then some (c.toNat - 55)
  else none

/-- The letter of a short escape and the code unit it stands for. -/
def shortEscapes : List (UInt16 × UInt16) :=
  [(quote, quote), (backslash, backslash), (0x62, 0x08), (0x66, 0x0c), (0x6e, 0x0a),
    (0x72, 0x0d), (0x74, 0x09)]

def shortEscape (c : UInt16) : Option UInt16 :=
  (shortEscapes.find? fun e => e.2 = c).map Prod.fst

/-- A slash may be escaped in a text, and never is in one that is written here. -/
def unescape (letter : UInt16) : Option UInt16 :=
  if letter = 0x2f then some 0x2f
  else (shortEscapes.find? fun e => e.1 = letter).map Prod.snd

def escape (c : UInt16) : Text :=
  match shortEscape c with
  | some letter => [backslash, letter]
  | none =>
      if c.toNat < 32 then
        [backslash, letterU, 48, 48, hexDigit (c.toNat / 16), hexDigit (c.toNat % 16)]
      else [c]

def stringText (s : List UInt16) : Text :=
  quote :: s.flatMap escape ++ [quote]

def codeUnit (a b c d : UInt16) : Option UInt16 := do
  let a ← hexValue a
  let b ← hexValue b
  let c ← hexValue c
  let d ← hexValue d
  return UInt16.ofNat (a * 4096 + b * 256 + c * 16 + d)

/-- The rest of a string after the quote that opens it. -/
def readString : Text → Option (List UInt16 × Text)
  | [] => none
  | c :: rest =>
      if c = quote then some ([], rest)
      else if c = backslash then
        match rest with
        | [] => none
        | letter :: rest =>
            if letter = letterU then
              match rest with
              | a :: b :: c :: d :: rest =>
                  (codeUnit a b c d).bind fun x =>
                    (readString rest).map fun r => (x :: r.1, r.2)
              | _ => none
            else (unescape letter).bind fun x => (readString rest).map fun r => (x :: r.1, r.2)
      else if c.toNat < 32 then none
      else (readString rest).map fun r => (c :: r.1, r.2)

/-! ### A string that is written is read back -/

theorem unescape_shortEscapes : ∀ e ∈ shortEscapes, unescape e.1 = some e.2 ∧ e.1 ≠ letterU := by
  have hall : (shortEscapes.all fun e => unescape e.1 = some e.2 ∧ e.1 ≠ letterU) = true := by
    decide
  exact fun e he => of_decide_eq_true (List.all_eq_true.mp hall e he)

theorem shortEscape_eq_some {c letter : UInt16} (h : shortEscape c = some letter) :
    unescape letter = some c ∧ letter ≠ letterU := by
  obtain ⟨e, he, rfl⟩ := Option.map_eq_some_iff.mp h
  have hcode : e.2 = c := by simpa using List.find?_some he
  have hspec := unescape_shortEscapes e (List.mem_of_find?_eq_some he)
  rw [hcode] at hspec
  exact hspec

theorem ne_of_shortEscape_eq_none {c : UInt16} (h : shortEscape c = none) :
    c ≠ quote ∧ c ≠ backslash := by
  constructor
  · rintro rfl
    exact absurd h (by decide)
  · rintro rfl
    exact absurd h (by decide)

theorem codeUnit_hexDigit {c : UInt16} (h : c.toNat < 32) :
    codeUnit 48 48 (hexDigit (c.toNat / 16)) (hexDigit (c.toNat % 16)) = some c := by
  have hall : ∀ n : Fin 32,
      codeUnit 48 48 (hexDigit (n.val / 16)) (hexDigit (n.val % 16)) =
        some (UInt16.ofNat n.val) := by decide
  rw [hall ⟨c.toNat, h⟩, UInt16.ofNat_toNat]

theorem readString_quote (rest : Text) : readString (quote :: rest) = some ([], rest) := by
  rw [readString.eq_def]
  rfl

theorem readString_escaped (letter : UInt16) (rest : Text) (h : letter ≠ letterU) :
    readString (backslash :: letter :: rest) =
      (unescape letter).bind fun x => (readString rest).map fun r => (x :: r.1, r.2) := by
  rw [readString.eq_def]
  dsimp only
  rw [if_neg (by decide), if_pos rfl, if_neg h]

theorem readString_codeUnit (a b c d : UInt16) (rest : Text) :
    readString (backslash :: letterU :: a :: b :: c :: d :: rest) =
      (codeUnit a b c d).bind fun x => (readString rest).map fun r => (x :: r.1, r.2) := by
  rw [readString.eq_def]
  dsimp only
  rw [if_neg (by decide), if_pos rfl, if_pos rfl]

theorem readString_plain {c : UInt16} (rest : Text) (hquote : c ≠ quote)
    (hbackslash : c ≠ backslash) (hcontrol : ¬ c.toNat < 32) :
    readString (c :: rest) = (readString rest).map fun r => (c :: r.1, r.2) := by
  rw [readString.eq_def]
  dsimp only
  rw [if_neg hquote, if_neg hbackslash, if_neg hcontrol]

theorem readString_escape (c : UInt16) (rest : Text) :
    readString (escape c ++ rest) = (readString rest).map fun r => (c :: r.1, r.2) := by
  rw [escape]
  split
  · rename_i letter hletter
    obtain ⟨hunescape, hne⟩ := shortEscape_eq_some hletter
    rw [List.cons_append, List.cons_append, List.nil_append, readString_escaped _ _ hne, hunescape]
    rfl
  · rename_i hnone
    obtain ⟨hquote, hbackslash⟩ := ne_of_shortEscape_eq_none hnone
    split
    · rename_i hcontrol
      refine (readString_codeUnit _ _ _ _ rest).trans ?_
      rw [codeUnit_hexDigit hcontrol]
      rfl
    · rename_i hcontrol
      exact readString_plain rest hquote hbackslash hcontrol

theorem readString_flatMap (s : List UInt16) (rest : Text) :
    readString (s.flatMap escape ++ quote :: rest) = some (s, rest) := by
  induction s with
  | nil => exact readString_quote rest
  | cons c s ih =>
    rw [List.flatMap_cons, List.append_assoc, readString_escape, ih]
    rfl

theorem stringText_append (s : List UInt16) (rest : Text) :
    stringText s ++ rest = quote :: (s.flatMap escape ++ quote :: rest) := by
  rw [stringText, List.cons_append, List.cons_append, List.append_assoc]
  rfl

/-! ## Trees -/

section Trees

variable {Num : Type u} (format : NumberFormat Num)

mutual

def text : JsonTree Num → Text
  | .null => nullText
  | .boolean true => trueText
  | .boolean false => falseText
  | .number n => format.text n
  | .string s => stringText s
  | .array [] => [openBracket, closeBracket]
  | .array (x :: xs) => openBracket :: text x ++ elementsText xs
  | .object [] => [openBrace, closeBrace]
  | .object ((key, x) :: members) =>
      openBrace :: stringText key ++ colon :: text x ++ membersText members

def elementsText : List (JsonTree Num) → Text
  | [] => [closeBracket]
  | x :: xs => comma :: text x ++ elementsText xs

def membersText : List (List UInt16 × JsonTree Num) → Text
  | [] => [closeBrace]
  | (key, x) :: members => comma :: stringText key ++ colon :: text x ++ membersText members

end

def IsWhiteSpace (c : UInt16) : Prop := c = 0x20 ∨ c = 0x09 ∨ c = 0x0a ∨ c = 0x0d

instance : DecidablePred IsWhiteSpace := fun c =>
  inferInstanceAs (Decidable (c = 0x20 ∨ c = 0x09 ∨ c = 0x0a ∨ c = 0x0d))

def skip (t : Text) : Text := t.dropWhile fun c => IsWhiteSpace c

def expect (literal : Text) (t : Text) : Option Text :=
  if literal.isPrefixOf t then some (t.drop literal.length) else none

mutual

def readValue : Nat → Text → Option (JsonTree Num × Text)
  | 0, _ => none
  | fuel + 1, t =>
      match skip t with
      | [] => none
      | c :: rest =>
          if c = quote then (readString rest).map fun r => (.string r.1, r.2)
          else if c = openBracket then
            match skip rest with
            | [] => none
            | d :: rest' =>
                if d = closeBracket then some (.array [], rest')
                else (readElements fuel (d :: rest')).map fun r => (.array r.1, r.2)
          else if c = openBrace then
            match skip rest with
            | [] => none
            | d :: rest' =>
                if d = closeBrace then some (.object [], rest')
                else (readMembers fuel (d :: rest')).map fun r => (.object r.1, r.2)
          else if c = 0x6e then (expect nullText (c :: rest)).map fun r => (.null, r)
          else if c = 0x74 then (expect trueText (c :: rest)).map fun r => (.boolean true, r)
          else if c = 0x66 then (expect falseText (c :: rest)).map fun r => (.boolean false, r)
          else (format.read (c :: rest)).map fun r => (.number r.1, r.2)

def readElements : Nat → Text → Option (List (JsonTree Num) × Text)
  | 0, _ => none
  | fuel + 1, t =>
      (readValue fuel t).bind fun x =>
        match skip x.2 with
        | [] => none
        | c :: rest =>
            if c = closeBracket then some ([x.1], rest)
            else if c = comma then (readElements fuel rest).map fun r => (x.1 :: r.1, r.2)
            else none

def readMembers : Nat → Text → Option (List (List UInt16 × JsonTree Num) × Text)
  | 0, _ => none
  | fuel + 1, t =>
      match skip t with
      | [] => none
      | c :: rest =>
          if c = quote then
            (readString rest).bind fun key =>
              match skip key.2 with
              | [] => none
              | c :: rest =>
                  if c = colon then
                    (readValue fuel rest).bind fun x =>
                      match skip x.2 with
                      | [] => none
                      | c :: rest =>
                          if c = closeBrace then some ([(key.1, x.1)], rest)
                          else if c = comma then
                            (readMembers fuel rest).map fun r => ((key.1, x.1) :: r.1, r.2)
                          else none
                  else none
          else none

end

def read (t : Text) : Option (JsonTree Num) :=
  match readValue format (t.length + 1) t with
  | none => none
  | some (x, rest) => if skip rest = [] then some x else none

end Trees

/-! ### A tree that is written is read back -/

def Delimited (rest : Text) : Prop := ∀ c ∈ rest.head?, IsDelimiter c

theorem delimited_nil : Delimited [] := by
  intro c hc
  cases hc

theorem Delimited.cons {c : UInt16} (h : IsDelimiter c) (rest : Text) : Delimited (c :: rest) := by
  intro d hd
  cases hd
  exact h

structure StartsNumber (c : UInt16) : Prop where
  whiteSpace : ¬ IsWhiteSpace c
  quote : c ≠ quote
  openBracket : c ≠ openBracket
  openBrace : c ≠ openBrace
  letters : c ≠ 0x6e ∧ c ≠ 0x74 ∧ c ≠ 0x66

theorem IsNumberStart.starts {c : UInt16} (h : IsNumberStart c) : StartsNumber c := by
  rcases h with rfl | ⟨hlow, hhigh⟩
  · constructor <;> decide
  · have hne : ∀ d : UInt16, ¬ (0x30 ≤ d ∧ d ≤ 0x39) → c ≠ d := by
      rintro d hd rfl
      exact hd ⟨hlow, hhigh⟩
    refine ⟨?_, hne _ (by decide), hne _ (by decide), hne _ (by decide), hne _ (by decide),
      hne _ (by decide), hne _ (by decide)⟩
    rintro (h | h | h | h)
    · exact hne _ (by decide) h
    · exact hne _ (by decide) h
    · exact hne _ (by decide) h
    · exact hne _ (by decide) h

section RoundTrip

variable {Num : Type u} (format : NumberFormat Num)

theorem skip_cons {c : UInt16} (h : ¬ IsWhiteSpace c) (rest : Text) :
    skip (c :: rest) = c :: rest := by
  rw [skip, List.dropWhile_cons, if_neg (by simpa using h)]

theorem expect_append (literal rest : Text) : expect literal (literal ++ rest) = some rest := by
  rw [expect, if_pos (by simp), List.drop_left]

theorem text_eq_cons (x : JsonTree Num) :
    ∃ c rest, text format x = c :: rest ∧ ¬ IsWhiteSpace c ∧ c ≠ closeBracket := by
  cases x with
  | null => exact ⟨_, _, by rw [text, nullText], by decide, by decide⟩
  | boolean b =>
    cases b with
    | true => exact ⟨_, _, by rw [text, trueText], by decide, by decide⟩
    | false => exact ⟨_, _, by rw [text, falseText], by decide, by decide⟩
  | number n =>
    obtain ⟨c, rest, htext, hstart⟩ := format.start n
    refine ⟨c, rest, by rw [text, htext], hstart.starts.whiteSpace, ?_⟩
    rintro rfl
    rcases hstart with h | h
    · exact absurd h (by decide)
    · exact absurd h (by decide)
  | string s => exact ⟨_, _, by rw [text, stringText, List.cons_append], by decide, by decide⟩
  | array xs =>
    cases xs with
    | nil => exact ⟨_, _, by rw [text], by decide, by decide⟩
    | cons x xs => exact ⟨_, _, by rw [text, List.cons_append], by decide, by decide⟩
  | object members =>
    cases members with
    | nil => exact ⟨_, _, by rw [text], by decide, by decide⟩
    | cons m members =>
      exact ⟨_, _, by rw [text, List.cons_append, List.cons_append], by decide, by decide⟩

/-- The reader of values gets this tree back, whatever comes after its text. -/
def Reads (x : JsonTree Num) : Prop :=
  ∀ fuel rest, (text format x).length ≤ fuel → Delimited rest →
    readValue format fuel (text format x ++ rest) = some (x, rest)

variable {format}

theorem readElements_of_reads (xs : List (JsonTree Num)) : ∀ {x : JsonTree Num},
    Reads format x → (∀ y ∈ xs, Reads format y) → ∀ fuel rest,
      (text format x ++ elementsText format xs).length ≤ fuel →
      readElements format fuel (text format x ++ elementsText format xs ++ rest) =
        some (x :: xs, rest) := by
  induction xs with
  | nil =>
    intro x hx _ fuel rest hle
    rw [elementsText, List.length_append, List.length_singleton] at hle
    cases fuel with
    | zero => omega
    | succ fuel =>
      have hvalue := hx fuel (closeBracket :: rest) (by omega) (.cons (.inr (.inl rfl)) rest)
      rw [elementsText, List.append_assoc, List.singleton_append, readElements, hvalue]
      rw [Option.bind_some, skip_cons (by decide)]
      dsimp only
      rw [if_pos rfl]
  | cons y ys ih =>
    intro x hx hys fuel rest hle
    rw [elementsText, List.length_append, List.cons_append, List.length_cons] at hle
    cases fuel with
    | zero => omega
    | succ fuel =>
      have hvalue := hx fuel (comma :: (text format y ++ elementsText format ys ++ rest))
        (by omega) (.cons (.inl rfl) _)
      have hrest := ih (hys y List.mem_cons_self) (fun z hz => hys z (List.mem_cons_of_mem _ hz))
        fuel rest (by omega)
      rw [elementsText, List.append_assoc, List.cons_append, List.cons_append, readElements,
        hvalue]
      rw [Option.bind_some, skip_cons (by decide)]
      dsimp only
      rw [if_neg (by decide), if_pos rfl, hrest]
      rfl

def memberText (format : NumberFormat Num) (m : List UInt16 × JsonTree Num) : Text :=
  stringText m.1 ++ colon :: text format m.2

theorem membersText_cons (m : List UInt16 × JsonTree Num)
    (members : List (List UInt16 × JsonTree Num)) : membersText format (m :: members) =
      comma :: (memberText format m ++ membersText format members) := by
  rw [membersText, memberText, List.cons_append, List.cons_append]

theorem readMembers_memberText {m : List UInt16 × JsonTree Num} (hm : Reads format m.2)
    (fuel : Nat) {c : UInt16} (hc : IsDelimiter c) (rest : Text)
    (hle : (memberText format m).length ≤ fuel) :
    readMembers format (fuel + 1) (memberText format m ++ c :: rest) =
      if c = closeBrace then some ([m], rest)
      else if c = comma then (readMembers format fuel rest).map fun r => (m :: r.1, r.2)
      else none := by
  have hvalue := hm fuel (c :: rest) (by simp [memberText] at hle; omega) (.cons hc rest)
  have hspace : ¬ IsWhiteSpace c := by
    rcases hc with rfl | rfl | rfl <;> decide
  rw [memberText, List.append_assoc, stringText_append, readMembers, skip_cons (by decide)]
  dsimp only
  rw [if_pos rfl, readString_flatMap, Option.bind_some]
  dsimp only
  rw [List.cons_append, skip_cons (by decide)]
  dsimp only
  rw [if_pos rfl, hvalue, Option.bind_some]
  dsimp only
  rw [skip_cons hspace]

theorem readMembers_of_reads (members : List (List UInt16 × JsonTree Num)) :
    ∀ {m : List UInt16 × JsonTree Num}, Reads format m.2 →
      (∀ n ∈ members, Reads format n.2) → ∀ fuel rest,
      (memberText format m ++ membersText format members).length ≤ fuel →
      readMembers format fuel (memberText format m ++ membersText format members ++ rest) =
        some (m :: members, rest) := by
  induction members with
  | nil =>
    intro m hm _ fuel rest hle
    rw [membersText, List.length_append, List.length_singleton] at hle
    cases fuel with
    | zero => omega
    | succ fuel =>
      rw [membersText, List.append_assoc, List.singleton_append]
      rw [readMembers_memberText hm fuel (.inr (.inr rfl)) rest (by omega), if_pos rfl]
  | cons n members ih =>
    intro m hm hmembers fuel rest hle
    rw [membersText_cons, List.length_append, List.length_cons] at hle
    cases fuel with
    | zero => omega
    | succ fuel =>
      have hrest := ih (hmembers n List.mem_cons_self)
        (fun k hk => hmembers k (List.mem_cons_of_mem _ hk)) fuel rest (by omega)
      rw [membersText_cons, List.append_assoc, List.cons_append]
      rw [readMembers_memberText hm fuel (.inl rfl) _ (by omega)]
      rw [if_neg (by decide), if_pos rfl, hrest]
      rfl

/-! One lemma for each kind of tree. -/

theorem reads_string (s : List UInt16) : Reads format (.string s) := by
  intro fuel rest hle _
  rw [text] at hle ⊢
  cases fuel with
  | zero => simp [stringText] at hle
  | succ fuel =>
    rw [stringText_append, readValue, skip_cons (by decide)]
    dsimp only
    rw [if_pos rfl, readString_flatMap]
    rfl

theorem reads_number (n : Num) : Reads format (.number n) := by
  intro fuel rest hle hrest
  obtain ⟨c, more, htext, hstart⟩ := format.start n
  have hc := hstart.starts
  have hread := format.read_text n rest hrest
  rw [text] at hle ⊢
  rw [htext, List.cons_append] at hread
  cases fuel with
  | zero => simp [htext] at hle
  | succ fuel =>
    rw [htext, List.cons_append, readValue, skip_cons hc.whiteSpace]
    dsimp only
    rw [if_neg hc.quote, if_neg hc.openBracket, if_neg hc.openBrace, if_neg hc.letters.1,
      if_neg hc.letters.2.1, if_neg hc.letters.2.2, hread]
    rfl

theorem reads_null : Reads format .null := by
  intro fuel rest hle _
  rw [text] at hle ⊢
  cases fuel with
  | zero => simp [nullText] at hle
  | succ fuel =>
    have hexpect := expect_append nullText rest
    rw [nullText, List.cons_append] at hexpect ⊢
    rw [readValue, skip_cons (by decide)]
    dsimp only
    rw [if_neg (by decide), if_neg (by decide), if_neg (by decide), if_pos rfl, nullText, hexpect]
    rfl

theorem reads_boolean (b : Bool) : Reads format (.boolean b) := by
  intro fuel rest hle _
  cases b with
  | true =>
    rw [text] at hle ⊢
    cases fuel with
    | zero => simp [trueText] at hle
    | succ fuel =>
      have hexpect := expect_append trueText rest
      rw [trueText, List.cons_append] at hexpect ⊢
      rw [readValue, skip_cons (by decide)]
      dsimp only
      rw [if_neg (by decide), if_neg (by decide), if_neg (by decide), if_neg (by decide),
        if_pos rfl, trueText, hexpect]
      rfl
  | false =>
    rw [text] at hle ⊢
    cases fuel with
    | zero => simp [falseText] at hle
    | succ fuel =>
      have hexpect := expect_append falseText rest
      rw [falseText, List.cons_append] at hexpect ⊢
      rw [readValue, skip_cons (by decide)]
      dsimp only
      rw [if_neg (by decide), if_neg (by decide), if_neg (by decide), if_neg (by decide),
        if_neg (by decide), if_pos rfl, falseText, hexpect]
      rfl

theorem reads_array {xs : List (JsonTree Num)} (hxs : ∀ x ∈ xs, Reads format x) :
    Reads format (.array xs) := by
  intro fuel rest hle _
  cases xs with
  | nil =>
    rw [text] at hle ⊢
    cases fuel with
    | zero => simp at hle
    | succ fuel =>
      rw [List.cons_append, readValue, skip_cons (by decide)]
      dsimp only
      rw [if_neg (by decide), if_pos rfl, List.singleton_append, skip_cons (by decide)]
      dsimp only
      rw [if_pos rfl]
  | cons x xs =>
    rw [text, List.cons_append, List.length_cons] at hle
    rw [text, List.cons_append, List.cons_append]
    cases fuel with
    | zero => simp at hle
    | succ fuel =>
      obtain ⟨c, more, htext, hspace, hclose⟩ := text_eq_cons format x
      have helements := readElements_of_reads xs (hxs x List.mem_cons_self)
        (fun y hy => hxs y (List.mem_cons_of_mem _ hy)) fuel rest (by omega)
      rw [htext, List.cons_append, List.cons_append] at helements ⊢
      rw [readValue, skip_cons (by decide)]
      dsimp only
      rw [if_neg (by decide), if_pos rfl, skip_cons hspace]
      dsimp only
      rw [if_neg hclose, helements]
      rfl

theorem reads_object {members : List (List UInt16 × JsonTree Num)}
    (hmembers : ∀ m ∈ members, Reads format m.2) : Reads format (.object members) := by
  intro fuel rest hle _
  cases members with
  | nil =>
    rw [text] at hle ⊢
    cases fuel with
    | zero => simp at hle
    | succ fuel =>
      rw [List.cons_append, readValue, skip_cons (by decide)]
      dsimp only
      rw [if_neg (by decide), if_neg (by decide), if_pos rfl, List.singleton_append,
        skip_cons (by decide)]
      dsimp only
      rw [if_pos rfl]
  | cons m members =>
    have htext : text format (.object (m :: members)) =
        openBrace :: (memberText format m ++ membersText format members) := by
      rw [text, memberText, List.cons_append, List.cons_append]
    rw [htext, List.length_cons] at hle
    rw [htext, List.cons_append]
    cases fuel with
    | zero => simp at hle
    | succ fuel =>
      have hread := readMembers_of_reads members (hmembers m List.mem_cons_self)
        (fun n hn => hmembers n (List.mem_cons_of_mem _ hn)) fuel rest (by omega)
      rw [memberText, List.append_assoc, List.append_assoc, stringText_append] at hread ⊢
      rw [readValue, skip_cons (by decide)]
      dsimp only
      rw [if_neg (by decide), if_neg (by decide), if_pos rfl, skip_cons (by decide)]
      dsimp only
      rw [if_neg (by decide), hread]
      rfl

theorem sizeOf_element_lt {y : JsonTree Num} {xs : List (JsonTree Num)} (h : y ∈ xs) :
    sizeOf y < sizeOf (JsonTree.array xs) := by
  have hlt := List.sizeOf_lt_of_mem h
  simp only [JsonTree.array.sizeOf_spec]
  omega

theorem sizeOf_value_lt {m : List UInt16 × JsonTree Num}
    {members : List (List UInt16 × JsonTree Num)} (h : m ∈ members) :
    sizeOf m.2 < sizeOf (JsonTree.object members) := by
  have hlt := List.sizeOf_lt_of_mem h
  have hsnd : sizeOf m.2 < sizeOf m := by
    obtain ⟨name, value⟩ := m
    simp only [Prod.mk.sizeOf_spec]
    omega
  simp only [JsonTree.object.sizeOf_spec]
  omega

theorem reads (x : JsonTree Num) : Reads format x := by
  match x with
  | .null => exact reads_null
  | .boolean b => exact reads_boolean b
  | .number n => exact reads_number n
  | .string s => exact reads_string s
  | .array xs => exact reads_array fun y _ => reads y
  | .object members => exact reads_object fun m _ => reads m.2
termination_by sizeOf x
decreasing_by
  · exact sizeOf_element_lt ‹y ∈ xs›
  · exact sizeOf_value_lt ‹m ∈ members›

variable (format) in
theorem read_text (x : JsonTree Num) : read format (text format x) = some x := by
  have hreads : Reads format x := reads x
  have hvalue := hreads ((text format x).length + 1) [] (by omega) delimited_nil
  rw [List.append_nil] at hvalue
  rw [read, hvalue]
  rfl

end RoundTrip

end Json

end AlmondAndroid.Library
