import AlmondAndroid.Library.Json
import Mathlib.Data.List.TakeWhile

/-!
# Numbers in JSON texts

The literals of numbers, read at the front of a text as far as they go. What value a literal
has, and which literal is written for a value, is left to a `NumberSystem`.
-/

namespace AlmondAndroid.Library.Json

universe u

def minus : UInt16 := 0x2d
def plus : UInt16 := 0x2b
def point : UInt16 := 0x2e
def zero : UInt16 := 0x30

def isDigit (c : UInt16) : Bool := 0x30 ≤ c && c ≤ 0x39

def isExponent (c : UInt16) : Bool := c = 0x65 || c = 0x45

def isSign (c : UInt16) : Bool := c = minus || c = plus

def isNumberChar (c : UInt16) : Bool := isDigit c || isExponent c || isSign c || c = point

def readDigits (t : Text) : Option (Text × Text) :=
  match t with
  | [] => none
  | c :: rest =>
      if isDigit c then some (c :: rest.takeWhile isDigit, rest.dropWhile isDigit) else none

def readMinus (t : Text) : Text × Text :=
  match t with
  | [] => ([], [])
  | c :: rest => if c = minus then ([c], rest) else ([], c :: rest)

/-- Zero stands alone. -/
def readInteger (t : Text) : Option (Text × Text) :=
  match t with
  | [] => none
  | c :: rest => if c = zero then some ([c], rest) else readDigits (c :: rest)

/-- A point and digits, or nothing. -/
def readFraction (t : Text) : Option (Text × Text) :=
  match t with
  | [] => some ([], [])
  | c :: rest =>
      if c = point then (readDigits rest).map fun r => (c :: r.1, r.2) else some ([], c :: rest)

def readSign (t : Text) : Text × Text :=
  match t with
  | [] => ([], [])
  | c :: rest => if isSign c then ([c], rest) else ([], c :: rest)

/-- A letter, a sign or none, and digits, or nothing. -/
def readExponent (t : Text) : Option (Text × Text) :=
  match t with
  | [] => some ([], [])
  | c :: rest =>
      if isExponent c then
        (readDigits (readSign rest).2).map fun r => (c :: (readSign rest).1 ++ r.1, r.2)
      else some ([], c :: rest)

def readLiteral (t : Text) : Option (Text × Text) :=
  (readInteger (readMinus t).2).bind fun i =>
    (readFraction i.2).bind fun f =>
      (readExponent f.2).map fun e => ((readMinus t).1 ++ i.1 ++ f.1 ++ e.1, e.2)

/-! ## What a reader takes -/

/-- What is read and what is left make up the text; what is read belongs to numbers; and what
comes after the text, if it does not belong to numbers, is left as well. -/
structure ReadAs (read : Text → Option (Text × Text)) (t lit rest : Text) : Prop where
  split : lit ++ rest = t
  chars : ∀ c ∈ lit, isNumberChar c = true
  extend : ∀ more : Text, (∀ c ∈ more.head?, isNumberChar c = false) →
    read (t ++ more) = some (lit, rest ++ more)

theorem isNumberChar_of_isDigit {c : UInt16} (h : isDigit c = true) : isNumberChar c = true := by
  rw [isNumberChar, h]
  rfl

theorem isNumberChar_of_isSign {c : UInt16} (h : isSign c = true) : isNumberChar c = true := by
  rw [isNumberChar, h, Bool.or_true]
  rfl

theorem isNumberChar_of_isExponent {c : UInt16} (h : isExponent c = true) :
    isNumberChar c = true := by
  rw [isNumberChar, h, Bool.or_true]
  rfl

theorem isDigit_eq_false {c : UInt16} (h : isNumberChar c = false) : isDigit c = false := by
  cases hc : isDigit c with
  | false => rfl
  | true => rw [isNumberChar_of_isDigit hc] at h; cases h

section Span

variable {t more : Text}

theorem takeWhile_append (h : ∀ c ∈ more.head?, isNumberChar c = false) :
    (t ++ more).takeWhile isDigit = t.takeWhile isDigit := by
  induction t with
  | nil =>
    cases more with
    | nil => rfl
    | cons c more =>
      rw [List.nil_append, List.takeWhile_cons, isDigit_eq_false (h c rfl)]
      rfl
  | cons c t ih => rw [List.cons_append, List.takeWhile_cons, List.takeWhile_cons, ih]

theorem dropWhile_append (h : ∀ c ∈ more.head?, isNumberChar c = false) :
    (t ++ more).dropWhile isDigit = t.dropWhile isDigit ++ more := by
  induction t with
  | nil =>
    cases more with
    | nil => rfl
    | cons c more =>
      rw [List.nil_append, List.dropWhile_cons, isDigit_eq_false (h c rfl)]
      rfl
  | cons c t ih =>
    rw [List.cons_append, List.dropWhile_cons, List.dropWhile_cons, ih]
    split
    · rfl
    · rfl

end Span

section Readers

variable {t : Text} {r : Text × Text}

theorem readDigits_readAs (h : readDigits t = some r) : ReadAs readDigits t r.1 r.2 := by
  cases t with
  | nil => cases h
  | cons c t =>
    rw [readDigits] at h
    split at h
    · rename_i hdigit
      cases h
      refine ⟨?_, ?_, fun more hmore => ?_⟩
      · rw [List.cons_append, List.takeWhile_append_dropWhile]
      · intro d hd
        rcases List.mem_cons.mp hd with rfl | hd
        · exact isNumberChar_of_isDigit hdigit
        · exact isNumberChar_of_isDigit (List.mem_takeWhile_imp hd)
      · rw [List.cons_append, readDigits, if_pos hdigit, takeWhile_append hmore,
          dropWhile_append hmore]
    · cases h

theorem readInteger_readAs (h : readInteger t = some r) : ReadAs readInteger t r.1 r.2 := by
  cases t with
  | nil => cases h
  | cons c t =>
    rw [readInteger] at h
    split at h
    · rename_i hzero
      cases h
      refine ⟨rfl, fun d hd => ?_, fun more _ => ?_⟩
      · rw [List.mem_singleton.mp hd, hzero]
        rfl
      · rw [List.cons_append, readInteger, if_pos hzero]
    · rename_i hzero
      have hdigits := readDigits_readAs h
      refine ⟨hdigits.split, hdigits.chars, fun more hmore => ?_⟩
      rw [List.cons_append, readInteger, if_neg hzero]
      exact hdigits.extend more hmore

theorem readFraction_readAs (h : readFraction t = some r) : ReadAs readFraction t r.1 r.2 := by
  cases t with
  | nil =>
    cases h
    refine ⟨rfl, fun c hc => (by cases hc), fun more hmore => ?_⟩
    cases more with
    | nil => rfl
    | cons c more =>
      have hpoint : c ≠ point := by
        rintro rfl
        cases hmore point rfl
      rw [List.nil_append, readFraction, if_neg hpoint]
  | cons c t =>
    rw [readFraction] at h
    split at h
    · rename_i hpoint
      obtain ⟨d, hd, rfl⟩ := Option.map_eq_some_iff.mp h
      have hdigits := readDigits_readAs hd
      refine ⟨?_, fun x hx => ?_, fun more hmore => ?_⟩
      · rw [List.cons_append, hdigits.split]
      · rcases List.mem_cons.mp hx with rfl | hx
        · rw [hpoint]
          rfl
        · exact hdigits.chars x hx
      · rw [List.cons_append, readFraction, if_pos hpoint, hdigits.extend more hmore]
        rfl
    · rename_i hpoint
      cases h
      refine ⟨rfl, fun x hx => (by cases hx), fun more _ => ?_⟩
      rw [List.cons_append, readFraction, if_neg hpoint]

theorem readSign_split (t : Text) : (readSign t).1 ++ (readSign t).2 = t := by
  cases t with
  | nil => rfl
  | cons c t =>
    rw [readSign]
    split
    · rfl
    · rfl

theorem readSign_chars (t : Text) : ∀ c ∈ (readSign t).1, isNumberChar c = true := by
  intro x hx
  cases t with
  | nil => cases hx
  | cons c t =>
    rw [readSign] at hx
    split at hx
    · rename_i hsign
      rw [List.mem_singleton.mp hx]
      exact isNumberChar_of_isSign hsign
    · cases hx

theorem readSign_append (more : Text) (h : t ≠ []) :
    readSign (t ++ more) = ((readSign t).1, (readSign t).2 ++ more) := by
  cases t with
  | nil => exact absurd rfl h
  | cons c t =>
    rw [List.cons_append, readSign, readSign]
    split
    · rfl
    · rfl

theorem readExponent_readAs (h : readExponent t = some r) : ReadAs readExponent t r.1 r.2 := by
  cases t with
  | nil =>
    cases h
    refine ⟨rfl, fun c hc => (by cases hc), fun more hmore => ?_⟩
    cases more with
    | nil => rfl
    | cons c more =>
      have hexponent : ¬ isExponent c = true := by
        intro hexponent
        cases (isNumberChar_of_isExponent hexponent).symm.trans (hmore c rfl)
      rw [List.nil_append, readExponent, if_neg hexponent]
  | cons c t =>
    rw [readExponent] at h
    split at h
    · rename_i hexponent
      obtain ⟨d, hd, rfl⟩ := Option.map_eq_some_iff.mp h
      have hdigits := readDigits_readAs hd
      have hne : t ≠ [] := by
        rintro rfl
        cases hd
      refine ⟨?_, fun x hx => ?_, fun more hmore => ?_⟩
      · rw [List.cons_append, List.cons_append, List.append_assoc, hdigits.split,
          readSign_split]
      · rcases List.mem_cons.mp hx with rfl | hx
        · exact isNumberChar_of_isExponent hexponent
        · rcases List.mem_append.mp hx with hx | hx
          · exact readSign_chars t x hx
          · exact hdigits.chars x hx
      · rw [List.cons_append, readExponent, if_pos hexponent, readSign_append more hne,
          hdigits.extend more hmore]
        rfl
    · rename_i hexponent
      cases h
      refine ⟨rfl, fun x hx => (by cases hx), fun more _ => ?_⟩
      rw [List.cons_append, readExponent, if_neg hexponent]

theorem readMinus_split (t : Text) : (readMinus t).1 ++ (readMinus t).2 = t := by
  cases t with
  | nil => rfl
  | cons c t =>
    rw [readMinus]
    split
    · rfl
    · rfl

theorem readMinus_chars (t : Text) : ∀ c ∈ (readMinus t).1, isNumberChar c = true := by
  intro x hx
  cases t with
  | nil => cases hx
  | cons c t =>
    rw [readMinus] at hx
    split at hx
    · rename_i hminus
      rw [List.mem_singleton.mp hx, hminus]
      rfl
    · cases hx

theorem readMinus_append (more : Text) (h : t ≠ []) :
    readMinus (t ++ more) = ((readMinus t).1, (readMinus t).2 ++ more) := by
  cases t with
  | nil => exact absurd rfl h
  | cons c t =>
    rw [List.cons_append, readMinus, readMinus]
    split
    · rfl
    · rfl

theorem readLiteral_readAs (h : readLiteral t = some r) : ReadAs readLiteral t r.1 r.2 := by
  obtain ⟨i, hi, h⟩ := Option.bind_eq_some_iff.mp h
  obtain ⟨f, hf, h⟩ := Option.bind_eq_some_iff.mp h
  obtain ⟨e, he, rfl⟩ := Option.map_eq_some_iff.mp h
  have hinteger := readInteger_readAs hi
  have hfraction := readFraction_readAs hf
  have hexponent := readExponent_readAs he
  have hne : t ≠ [] := by
    rintro rfl
    cases hi
  refine ⟨?_, fun c hc => ?_, fun more hmore => ?_⟩
  · calc (readMinus t).1 ++ i.1 ++ f.1 ++ e.1 ++ e.2
        = (readMinus t).1 ++ i.1 ++ (f.1 ++ f.2) := by
          rw [List.append_assoc, hexponent.split, List.append_assoc]
      _ = (readMinus t).1 ++ (i.1 ++ i.2) := by rw [hfraction.split, List.append_assoc]
      _ = t := by rw [hinteger.split, readMinus_split]
  · rcases List.mem_append.mp hc with hc | hc
    · rcases List.mem_append.mp hc with hc | hc
      · rcases List.mem_append.mp hc with hc | hc
        · exact readMinus_chars t c hc
        · exact hinteger.chars c hc
      · exact hfraction.chars c hc
    · exact hexponent.chars c hc
  · rw [readLiteral, readMinus_append more hne]
    dsimp only
    rw [hinteger.extend more hmore, Option.bind_some]
    dsimp only
    rw [hfraction.extend more hmore, Option.bind_some]
    dsimp only
    rw [hexponent.extend more hmore]
    rfl

end Readers

/-! ## Number systems -/

/-- The value of every literal, and the literal that is written for a value. -/
structure NumberSystem (Num : Type u) where
  value : Text → Num
  text : Num → Text
  literal : ∀ n, readLiteral (text n) = some (text n, [])
  value_text : ∀ n, value (text n) = n

namespace NumberSystem

variable {Num : Type u} (numbers : NumberSystem Num)

theorem isNumberChar_of_mem_text {n : Num} {c : UInt16} (h : c ∈ numbers.text n) :
    isNumberChar c = true :=
  (readLiteral_readAs (numbers.literal n)).chars c h

theorem text_start (n : Num) : ∃ c rest, numbers.text n = c :: rest ∧ IsNumberStart c := by
  have hliteral := numbers.literal n
  cases htext : numbers.text n with
  | nil =>
    rw [htext] at hliteral
    cases hliteral
  | cons c rest =>
    refine ⟨c, rest, rfl, ?_⟩
    rw [htext] at hliteral
    obtain ⟨i, hi, -⟩ := Option.bind_eq_some_iff.mp hliteral
    rw [readMinus] at hi
    split at hi
    · rename_i hminus
      exact .inl hminus
    · rw [readInteger] at hi
      split at hi
      · rename_i hzero
        rw [hzero]
        exact .inr ⟨by decide, by decide⟩
      · rw [readDigits] at hi
        split at hi
        · rename_i hdigit
          have hboth := Bool.and_eq_true_iff.mp hdigit
          exact .inr ⟨of_decide_eq_true hboth.1, of_decide_eq_true hboth.2⟩
        · cases hi

theorem isNumberChar_of_isDelimiter {c : UInt16} (h : IsDelimiter c) : isNumberChar c = false := by
  rcases h with rfl | rfl | rfl
  · rfl
  · rfl
  · rfl

def format : NumberFormat Num where
  text := numbers.text
  read t := (readLiteral t).map fun r => (numbers.value r.1, r.2)
  start := numbers.text_start
  read_text n rest h := by
    have hread := (readLiteral_readAs (numbers.literal n)).extend rest
      fun c hc => isNumberChar_of_isDelimiter (h c hc)
    rw [hread, Option.map_some, numbers.value_text]
    rfl

/-- Every literal is its own value. -/
def literals : NumberSystem {t : Text // readLiteral t = some (t, [])} where
  value t := if h : readLiteral t = some (t, []) then ⟨t, h⟩ else ⟨[0x30], by decide⟩
  text n := n.1
  literal n := n.2
  value_text n := dif_pos n.2

end NumberSystem

end AlmondAndroid.Library.Json
