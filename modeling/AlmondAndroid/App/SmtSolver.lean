import AlmondAndroid.Bridge.Values
import AlmondAndroid.Library.Matching
import AlmondAndroid.Library.PlainObject
import Mathlib.Data.List.Basic

/-!
# The answer of the solver

`checkSat` reads the answer of the solver line by line. A constant gets the next number where
the line of its representative is read, and a function that is defined to be a constant gets
the number found under the name of the constant. Both tables are plain objects.
-/

namespace AlmondAndroid.App

open Library Bridge

namespace SmtSolver

/-- `[A-Za-z0-9_]` -/
def isWordChar (c : UInt16) : Bool :=
  (0x41 ≤ c && c ≤ 0x5a) || (0x61 ≤ c && c ≤ 0x7a) || (0x30 ≤ c && c ≤ 0x39) || c = 0x5f

/-- `[A-Za-z0-9_.]` -/
def isIdChar (c : UInt16) : Bool := isWordChar c || c = 0x2e

/-! ## The regular expressions -/

/-- `/; rep: @uc_([A-Za-z0-9_]+)$/` at the front of a text. -/
def matchConstant (t : U16String) : Option U16String := do
  let t ← Matching.literal (u16 "; rep: @uc_") t
  let (x, t) ← Matching.many1 isWordChar t
  if t = [] then some x else none

/-- `/\(define-fun ([A-Za-z0-9_.]+) \(\) ([A-Za-z0-9_]+) @uc_([A-Za-z0-9_]+)\)$/` -/
def matchAssignConst (t : U16String) : Option (U16String × U16String) := do
  let t ← Matching.literal (u16 "(define-fun ") t
  let (id, t) ← Matching.many1 isIdChar t
  let t ← Matching.literal (u16 " () ") t
  let (_, t) ← Matching.many1 isWordChar t
  let t ← Matching.literal (u16 " @uc_") t
  let (x, t) ← Matching.many1 isWordChar t
  if t = u16 ")" then some (id, x) else none

/-- `/\(define-fun ([A-Za-z0-9_.]+) \(\) Bool (true|false)\)$/` -/
def matchAssignBool (t : U16String) : Option (U16String × Bool) := do
  let t ← Matching.literal (u16 "(define-fun ") t
  let (id, t) ← Matching.many1 isIdChar t
  let t ← Matching.literal (u16 " () Bool ") t
  if t = u16 "true)" then some (id, true)
  else if t = u16 "false)" then some (id, false)
  else none

/-! ## `checkSat` -/

/-- The values of the two tables; `inherited` is what `Object.prototype` has under a name. -/
inductive Value
  | undefined
  | number (n : Nat)
  | boolean (b : Bool)
  | inherited (name : U16String)
  deriving DecidableEq

abbrev Values := U16String → Option Value

def prototype : Prototype U16String Value := PlainObject.objectPrototype u16 .inherited

structure Reading where
  sat : Option Bool
  assignment : Values
  cidx : Nat
  constants : Values

def initial : Reading := ⟨none, fun _ => none, 0, fun _ => none⟩

def constantOf (s : Reading) (x : U16String) : Value :=
  (PlainObject.get prototype s.constants x).getD .undefined

def addConstant (s : Reading) (x : U16String) : Reading :=
  { s with
    cidx := s.cidx + 1
    constants := PlainObject.set prototype s.constants x (.number s.cidx) }

def assign (s : Reading) (id : U16String) (value : Value) : Reading :=
  { s with assignment := PlainObject.set prototype s.assignment id value }

/-- The callback of `forEach`; `none` is an error that it throws. -/
def readLine (s : Reading) (line : U16String) : Option Reading :=
  if line = u16 "sat" then some { s with sat := some true }
  else if line = u16 "unsat" then some { s with sat := some false }
  else if line = u16 "unknown" then some { s with sat := some true }
  else if u16 "(error" <+: line then none
  else
    match Matching.search matchConstant line with
    | some x => some (addConstant s x)
    | none =>
      match Matching.search matchAssignConst line with
      | some (id, x) => some (assign s id (constantOf s x))
      | none =>
        match Matching.search matchAssignBool line with
        | some (id, b) => some (assign s id (.boolean b))
        | none => some s

/-- What the promise resolves to, once there is an answer; at `none` it is rejected. -/
def checkSat (result : U16String) : Option (Bool × Option Values) :=
  ((result.splitOn 0x0a).foldlM readLine initial).map fun s =>
    if s.sat = some true then (true, some s.assignment) else (false, none)

/-! ## Answers -/

inductive Status
  | sat
  | unsat
  | unknown
  deriving DecidableEq

inductive Line
  | status (status : Status)
  | ignored (text : U16String)
  | rep (x : U16String)
  | const (id sort x : U16String)
  | bool (id : U16String) (b : Bool)
  | error (message : U16String)

def Status.text : Status → U16String
  | sat => u16 "sat"
  | unsat => u16 "unsat"
  | unknown => u16 "unknown"

def boolText (b : Bool) : U16String := if b then u16 "true" else u16 "false"

def Line.text : Line → U16String
  | status s => s.text
  | ignored text => text
  | rep x => u16 "; rep: @uc_" ++ x
  | const id sort x =>
    u16 "(define-fun " ++ (id ++ (u16 " () " ++ (sort ++ (u16 " @uc_" ++ (x ++ u16 ")")))))
  | bool id b => u16 "(define-fun " ++ (id ++ (u16 " () Bool " ++ (boolText b ++ u16 ")")))
  | error message => u16 "(error" ++ message

def IsWord (x : U16String) : Prop := Matching.IsWord isWordChar x

def IsId (id : U16String) : Prop := Matching.IsWord isIdChar id

def Line.Counts : Line → Prop
  | rep x => IsWord x
  | const id sort x => IsId id ∧ IsWord sort ∧ IsWord x
  | bool id _ => IsId id
  | _ => False

/-- A line that says nothing: it is no status, no error, and does not end in a line that
counts. -/
def Ignored (t : U16String) : Prop :=
  (∀ s : Status, t ≠ s.text) ∧ ¬u16 "(error" <+: t ∧ ∀ l : Line, l.Counts → ¬l.text <:+ t

def Line.WellFormed : Line → Prop
  | status _ => True
  | ignored text => 0x0a ∉ text ∧ Ignored text
  | error message => 0x0a ∉ message
  | line => line.Counts

def statuses (lines : List Line) : List Status :=
  lines.filterMap fun
    | .status s => some s
    | _ => none

def reps (lines : List Line) : List U16String :=
  lines.filterMap fun
    | .rep x => some x
    | _ => none

def ids (lines : List Line) : List U16String :=
  lines.filterMap fun
    | .const id _ _ => some id
    | .bool id _ => some id
    | _ => none

/-- One status, each constant introduced once and before it is used, each function defined
once. -/
structure Response where
  lines : List Line
  wellFormed : ∀ line ∈ lines, line.WellFormed
  status : Status
  statuses_eq : statuses lines = [status]
  reps_nodup : (reps lines).Nodup
  rep_first : ∀ before id sort x after, lines = before ++ .const id sort x :: after →
    x ∈ reps before
  ids_nodup : (ids lines).Nodup

def Response.text (r : Response) : U16String := [0x0a].intercalate (r.lines.map Line.text)

def Response.HasError (r : Response) : Prop := ∃ message, .error message ∈ r.lines

/-- The functions that are listed have values, equal numbers for equal constants, and the
booleans that are listed. -/
structure Assigns (lines : List Line) (A : Values) : Prop where
  ids : ∀ id, (A id).isSome ↔ id ∈ ids lines
  number : ∀ id sort x, .const id sort x ∈ lines → ∃ n, A id = some (.number n)
  equal : ∀ id sort x other sort' y, .const id sort x ∈ lines → .const other sort' y ∈ lines →
    (A id = A other ↔ x = y)
  boolean : ∀ id b, .bool id b ∈ lines → A id = some (.boolean b)

/-- The promise is rejected if there is an error, and otherwise resolves to what the lines
say. -/
def Faithful (r : Response) : Prop :=
  (r.HasError → checkSat r.text = none) ∧
    (¬r.HasError →
      (r.status = .unsat → checkSat r.text = some (false, none)) ∧
        (r.status ≠ .unsat → ∃ A, checkSat r.text = some (true, some A) ∧ Assigns r.lines A))

def proto : U16String := u16 "__proto__"

/-- No function is named as the prototype is, and none is defined to be a constant of that
name. -/
def Unnamed (lines : List Line) : Prop :=
  (∀ id sort x, .const id sort x ∈ lines → id ≠ proto ∧ x ≠ proto) ∧
    ∀ id b, .bool id b ∈ lines → id ≠ proto

def NoProto (r : Response) : Prop := r.HasError ∨ r.status = .unsat ∨ Unnamed r.lines

/-! ## One line -/

theorem matchConstant_eq_some {t x : U16String} (h : matchConstant t = some x) :
    t = (Line.rep x).text ∧ IsWord x := by
  obtain ⟨rest, hrest, hmatch⟩ := Option.bind_eq_some_iff.mp h
  obtain ⟨⟨word, back⟩, hword, hend⟩ := Option.bind_eq_some_iff.mp hmatch
  obtain ⟨hsplit, hisWord⟩ := Matching.many1_eq_some hword
  rw [Matching.literal_eq_some_iff] at hrest
  dsimp only at hend
  split at hend
  · rename_i hback
    cases hend
    rw [hrest, hsplit, hback, List.append_nil]
    exact ⟨rfl, hisWord⟩
  · cases hend

theorem matchAssignConst_eq_some {t id x : U16String} (h : matchAssignConst t = some (id, x)) :
    ∃ sort, t = (Line.const id sort x).text ∧ (Line.const id sort x).Counts := by
  obtain ⟨t₁, h₁, hmatch₁⟩ := Option.bind_eq_some_iff.mp h
  obtain ⟨⟨id', t₂⟩, h₂, hmatch₂⟩ := Option.bind_eq_some_iff.mp hmatch₁
  obtain ⟨t₃, h₃, hmatch₃⟩ := Option.bind_eq_some_iff.mp hmatch₂
  obtain ⟨⟨sort, t₄⟩, h₄, hmatch₄⟩ := Option.bind_eq_some_iff.mp hmatch₃
  obtain ⟨t₅, h₅, hmatch₅⟩ := Option.bind_eq_some_iff.mp hmatch₄
  obtain ⟨⟨x', t₆⟩, h₆, hmatch₆⟩ := Option.bind_eq_some_iff.mp hmatch₅
  rw [Matching.literal_eq_some_iff] at h₁ h₃ h₅
  obtain ⟨hsplit₂, hid⟩ := Matching.many1_eq_some h₂
  obtain ⟨hsplit₄, hsort⟩ := Matching.many1_eq_some h₄
  obtain ⟨hsplit₆, hx⟩ := Matching.many1_eq_some h₆
  dsimp only at hmatch₆
  split at hmatch₆
  · rename_i hend
    cases hmatch₆
    refine ⟨sort, ?_, hid, hsort, hx⟩
    rw [h₁, hsplit₂, h₃, hsplit₄, h₅, hsplit₆, hend, Line.text]
  · cases hmatch₆

theorem matchAssignBool_eq_some {t id : U16String} {b : Bool}
    (h : matchAssignBool t = some (id, b)) : t = (Line.bool id b).text ∧ IsId id := by
  obtain ⟨t₁, h₁, hmatch₁⟩ := Option.bind_eq_some_iff.mp h
  obtain ⟨⟨id', t₂⟩, h₂, hmatch₂⟩ := Option.bind_eq_some_iff.mp hmatch₁
  obtain ⟨t₃, h₃, hmatch₃⟩ := Option.bind_eq_some_iff.mp hmatch₂
  rw [Matching.literal_eq_some_iff] at h₁ h₃
  obtain ⟨hsplit₂, hid⟩ := Matching.many1_eq_some h₂
  split at hmatch₃
  · rename_i hend
    cases hmatch₃
    rw [h₁, hsplit₂, h₃, hend]
    exact ⟨rfl, hid⟩
  · split at hmatch₃
    · rename_i hend
      cases hmatch₃
      rw [h₁, hsplit₂, h₃, hend]
      exact ⟨rfl, hid⟩
    · cases hmatch₃

theorem many1_word {p : UInt16 → Bool} {word : U16String} (h : Matching.IsWord p word)
    (c : UInt16) (hc : p c = false) (t : U16String) :
    Matching.many1 p (word ++ c :: t) = some (word, c :: t) :=
  Matching.many1_append h fun _ hhead => Option.some.inj hhead ▸ hc

theorem matchConstant_rep {x : U16String} (h : IsWord x) :
    matchConstant (Line.rep x).text = some x := by
  have hword : Matching.many1 isWordChar (x ++ []) = some (x, []) :=
    Matching.many1_append h fun _ hc => nomatch hc
  rw [List.append_nil] at hword
  rw [matchConstant]
  refine Option.bind_eq_some_iff.mpr ⟨_, Matching.literal_append _ _, ?_⟩
  exact Option.bind_eq_some_iff.mpr ⟨_, hword, rfl⟩

theorem matchAssignConst_const {id sort x : U16String} (h : (Line.const id sort x).Counts) :
    matchAssignConst (Line.const id sort x).text = some (id, x) := by
  obtain ⟨hid, hsort, hx⟩ := h
  rw [matchAssignConst]
  refine Option.bind_eq_some_iff.mpr ⟨_, Matching.literal_append _ _, ?_⟩
  refine Option.bind_eq_some_iff.mpr ⟨_, many1_word hid 0x20 (by decide) _, ?_⟩
  refine Option.bind_eq_some_iff.mpr ⟨_, Matching.literal_append (u16 " () ") _, ?_⟩
  refine Option.bind_eq_some_iff.mpr ⟨_, many1_word hsort 0x20 (by decide) _, ?_⟩
  refine Option.bind_eq_some_iff.mpr ⟨_, Matching.literal_append (u16 " @uc_") _, ?_⟩
  exact Option.bind_eq_some_iff.mpr ⟨_, many1_word hx 0x29 (by decide) [], rfl⟩

theorem matchAssignBool_bool {id : U16String} (h : IsId id) (b : Bool) :
    matchAssignBool (Line.bool id b).text = some (id, b) := by
  rw [matchAssignBool]
  refine Option.bind_eq_some_iff.mpr ⟨_, Matching.literal_append _ _, ?_⟩
  refine Option.bind_eq_some_iff.mpr ⟨_, many1_word h 0x20 (by decide) _, ?_⟩
  refine Option.bind_eq_some_iff.mpr ⟨_, Matching.literal_append (u16 " () Bool ") _, ?_⟩
  cases b <;> rfl

/-! ### Characters -/

theorem isIdChar_of_isWordChar {c : UInt16} (h : isWordChar c = true) : isIdChar c = true := by
  rw [isIdChar, h]
  rfl

def isDefineChar (c : UInt16) : Bool :=
  isIdChar c || c = 0x20 || c = 0x28 || c = 0x29 || c = 0x2d || c = 0x40

theorem forall_append {p : UInt16 → Bool} {s t : U16String} (hs : ∀ c ∈ s, p c = true)
    (ht : ∀ c ∈ t, p c = true) : ∀ c ∈ s ++ t, p c = true :=
  List.forall_mem_append.mpr ⟨hs, ht⟩

theorem isDefineChar_of_isIdChar {c : UInt16} (h : isIdChar c = true) : isDefineChar c = true := by
  rw [isDefineChar, h]
  rfl

theorem isDefineChar_const {id sort x : U16String} (h : (Line.const id sort x).Counts) :
    ∀ c ∈ (Line.const id sort x).text, isDefineChar c = true := by
  obtain ⟨hid, hsort, hx⟩ := h
  have hword : ∀ {word : U16String}, IsWord word → ∀ c ∈ word, isDefineChar c = true :=
    fun hword c hc => isDefineChar_of_isIdChar (isIdChar_of_isWordChar (hword.2 c hc))
  exact forall_append (List.all_eq_true.mp rfl) (forall_append
    (fun c hc => isDefineChar_of_isIdChar (hid.2 c hc)) (forall_append (List.all_eq_true.mp rfl)
      (forall_append (hword hsort) (forall_append (List.all_eq_true.mp rfl)
        (forall_append (hword hx) (List.all_eq_true.mp rfl))))))

def isBoolChar (c : UInt16) : Bool := isDefineChar c && c ≠ 0x40

theorem isBoolChar_of_isIdChar {c : UInt16} (h : isIdChar c = true) : isBoolChar c = true := by
  have hne : c ≠ 0x40 := by
    rintro rfl
    exact absurd h (by decide)
  rw [isBoolChar, isDefineChar_of_isIdChar h, decide_eq_true hne]
  rfl

theorem isBoolChar_bool {id : U16String} (h : IsId id) (b : Bool) :
    ∀ c ∈ (Line.bool id b).text, isBoolChar c = true := by
  have hb : ∀ c ∈ boolText b ++ u16 ")", isBoolChar c = true := by
    cases b <;> exact List.all_eq_true.mp rfl
  exact forall_append (List.all_eq_true.mp rfl) (forall_append
    (fun c hc => isBoolChar_of_isIdChar (h.2 c hc)) (forall_append (List.all_eq_true.mp rfl) hb))

theorem search_matchConstant_eq_none {t : U16String} (h : ∀ c ∈ t, isDefineChar c = true) :
    Matching.search matchConstant t = none := by
  refine Matching.search_eq_none fun back x hback hmatch => ?_
  have hmem : (0x3b : UInt16) ∈ back := by
    rw [(matchConstant_eq_some hmatch).1]
    exact List.mem_cons_self ..
  exact absurd (h _ (hback.subset hmem)) (by decide)

theorem search_matchAssignConst_eq_none {t : U16String} (h : ∀ c ∈ t, isBoolChar c = true) :
    Matching.search matchAssignConst t = none := by
  refine Matching.search_eq_none fun back ⟨id, x⟩ hback hmatch => ?_
  obtain ⟨sort, rfl, -⟩ := matchAssignConst_eq_some hmatch
  have hmem : (0x40 : UInt16) ∈ (Line.const id sort x).text := by
    have hat : (0x40 : UInt16) ∈ u16 " @uc_" := by decide
    rw [Line.text]
    simp only [List.mem_append, hat, true_or, or_true]
  exact absurd (h _ (hback.subset hmem)) (by decide)

/-! ### What a line does -/

def Line.read (s : Reading) : Line → Reading
  | status st => { s with sat := some (st ≠ .unsat) }
  | ignored _ => s
  | rep x => addConstant s x
  | const id _ x => assign s id (constantOf s x)
  | bool id b => assign s id (.boolean b)
  | error _ => s

theorem ne_statuses {line : U16String} (h : ∀ st : Status, line ≠ st.text) :
    line ≠ u16 "sat" ∧ line ≠ u16 "unsat" ∧ line ≠ u16 "unknown" :=
  ⟨h .sat, h .unsat, h .unknown⟩

theorem readLine_of_no_status (s : Reading) {line : U16String}
    (hstatus : ∀ st : Status, line ≠ st.text) (herror : ¬u16 "(error" <+: line) :
    readLine s line =
      match Matching.search matchConstant line with
      | some x => some (addConstant s x)
      | none =>
        match Matching.search matchAssignConst line with
        | some (id, x) => some (assign s id (constantOf s x))
        | none =>
          match Matching.search matchAssignBool line with
          | some (id, b) => some (assign s id (.boolean b))
          | none => some s := by
  obtain ⟨hsat, hunsat, hunknown⟩ := ne_statuses hstatus
  rw [readLine, if_neg hsat, if_neg hunsat, if_neg hunknown, if_neg herror]

theorem readLine_error (s : Reading) {line : U16String} (h : u16 "(error" <+: line) :
    readLine s line = none := by
  have hstatus : ∀ st : Status, line ≠ st.text := by
    rintro st rfl
    cases st <;> exact absurd h (by decide)
  obtain ⟨hsat, hunsat, hunknown⟩ := ne_statuses hstatus
  rw [readLine, if_neg hsat, if_neg hunsat, if_neg hunknown, if_pos h]

theorem readLine_status (s : Reading) (st : Status) :
    readLine s st.text = some ((Line.status st).read s) := by
  cases st <;> rfl

theorem no_status_of_define (t : U16String) :
    (∀ st : Status, u16 "(define-fun " ++ t ≠ st.text) ∧
      ¬u16 "(error" <+: u16 "(define-fun " ++ t := by
  constructor
  · intro st h
    have hhead : some (0x28 : UInt16) = st.text.head? := congrArg List.head? h
    cases st <;> exact absurd hhead (by decide)
  · rintro ⟨more, h⟩
    have hsecond : some (0x65 : UInt16) = some 0x64 := congrArg (fun l => l[1]?) h
    exact absurd hsecond (by decide)

theorem readLine_rep (s : Reading) {x : U16String} (h : IsWord x) :
    readLine s (Line.rep x).text = some (addConstant s x) := by
  have hstatus : ∀ st : Status, (Line.rep x).text ≠ st.text := by
    intro st h
    have hhead : some (0x3b : UInt16) = st.text.head? := congrArg List.head? h
    cases st <;> exact absurd hhead (by decide)
  have herror : ¬u16 "(error" <+: (Line.rep x).text := by
    rintro ⟨more, h⟩
    have hhead : some (0x28 : UInt16) = some 0x3b := congrArg List.head? h
    exact absurd hhead (by decide)
  rw [readLine_of_no_status s hstatus herror, Matching.search_of_match (matchConstant_rep h)]

theorem readLine_const (s : Reading) {id sort x : U16String} (h : (Line.const id sort x).Counts) :
    readLine s (Line.const id sort x).text = some (assign s id (constantOf s x)) := by
  obtain ⟨hstatus, herror⟩ := no_status_of_define
    (id ++ (u16 " () " ++ (sort ++ (u16 " @uc_" ++ (x ++ u16 ")")))))
  have hline : readLine s (Line.const id sort x).text = _ :=
    readLine_of_no_status s hstatus herror
  rw [search_matchConstant_eq_none (isDefineChar_const h),
    Matching.search_of_match (matchAssignConst_const h)] at hline
  exact hline

theorem readLine_bool (s : Reading) {id : U16String} (h : IsId id) (b : Bool) :
    readLine s (Line.bool id b).text = some (assign s id (.boolean b)) := by
  obtain ⟨hstatus, herror⟩ := no_status_of_define
    (id ++ (u16 " () Bool " ++ (boolText b ++ u16 ")")))
  have hchars := isBoolChar_bool h b
  have hdefine : ∀ c ∈ (Line.bool id b).text, isDefineChar c = true := fun c hc =>
    (Bool.and_eq_true_iff.mp (hchars c hc)).1
  have hline : readLine s (Line.bool id b).text = _ :=
    readLine_of_no_status s hstatus herror
  rw [search_matchConstant_eq_none hdefine, search_matchAssignConst_eq_none hchars,
    Matching.search_of_match (matchAssignBool_bool h b)] at hline
  exact hline

theorem readLine_ignored (s : Reading) {t : U16String} (h : Ignored t) :
    readLine s t = some s := by
  obtain ⟨hstatus, herror, hcounts⟩ := h
  have hconstant : Matching.search matchConstant t = none := by
    refine Matching.search_eq_none fun back x hback hmatch => ?_
    obtain ⟨rfl, hx⟩ := matchConstant_eq_some hmatch
    exact hcounts (.rep x) hx hback
  have hassign : Matching.search matchAssignConst t = none := by
    refine Matching.search_eq_none fun back ⟨id, x⟩ hback hmatch => ?_
    obtain ⟨sort, rfl, hcount⟩ := matchAssignConst_eq_some hmatch
    exact hcounts (.const id sort x) hcount hback
  have hbool : Matching.search matchAssignBool t = none := by
    refine Matching.search_eq_none fun back ⟨id, b⟩ hback hmatch => ?_
    obtain ⟨rfl, hid⟩ := matchAssignBool_eq_some hmatch
    exact hcounts (.bool id b) hid hback
  rw [readLine_of_no_status s hstatus herror, hconstant, hassign, hbool]

theorem readLine_text (s : Reading) {line : Line} (h : line.WellFormed)
    (herror : ∀ message, line ≠ .error message) : readLine s line.text = some (line.read s) := by
  cases line with
  | status st => exact readLine_status s st
  | ignored t => exact readLine_ignored s h.2
  | rep x => exact readLine_rep s h
  | const id sort x => exact readLine_const s h
  | bool id b => exact readLine_bool s h b
  | error message => exact absurd rfl (herror message)

/-! ## All lines -/

theorem foldlM_texts (lines : List Line) (hwellFormed : ∀ line ∈ lines, line.WellFormed)
    (hnone : ∀ message, .error message ∉ lines) : ∀ s : Reading,
      (lines.map Line.text).foldlM readLine s = some (lines.foldl Line.read s) := by
  induction lines with
  | nil => exact fun s => rfl
  | cons line lines ih =>
    intro s
    have hline : readLine s line.text = some (line.read s) :=
      readLine_text s (hwellFormed line (List.mem_cons_self ..)) fun message heq =>
        hnone message (heq ▸ List.mem_cons_self ..)
    rw [List.map_cons, List.foldlM_cons, hline]
    exact ih (fun other hother => hwellFormed other (List.mem_cons_of_mem _ hother))
      (fun message hmem => hnone message (List.mem_cons_of_mem _ hmem)) (line.read s)

theorem foldlM_error (texts : List U16String) (h : ∃ line ∈ texts, u16 "(error" <+: line) :
    ∀ s : Reading, texts.foldlM readLine s = none := by
  induction texts with
  | nil =>
    obtain ⟨line, hline, -⟩ := h
    cases hline
  | cons line texts ih =>
    intro s
    rw [List.foldlM_cons]
    obtain ⟨error, hmem, herror⟩ := h
    rcases List.mem_cons.mp hmem with rfl | hmem
    · rw [readLine_error s herror]
      rfl
    · cases readLine s line with
      | none => rfl
      | some t => exact ih ⟨error, hmem, herror⟩ t

/-- Whatever the answer is, an error is not overlooked. -/
theorem checkSat_error (result : U16String)
    (h : ∃ line ∈ result.splitOn 0x0a, u16 "(error" <+: line) : checkSat result = none := by
  rw [checkSat, foldlM_error _ h initial]
  rfl

theorem newline_not_mem {line : Line} (h : line.WellFormed) : (0x0a : UInt16) ∉ line.text := by
  have hdefine : ∀ {t : U16String}, (∀ c ∈ t, isDefineChar c = true) → (0x0a : UInt16) ∉ t :=
    fun ht hmem => absurd (ht _ hmem) (by decide)
  cases line with
  | status st => cases st <;> decide
  | ignored t => exact h.1
  | rep x =>
    intro hmem
    rcases List.mem_append.mp hmem with hmem | hmem
    · exact absurd hmem (by decide)
    · exact absurd (h.2 _ hmem) (by decide)
  | const id sort x => exact hdefine (isDefineChar_const h)
  | bool id b =>
    exact hdefine fun c hc => (Bool.and_eq_true_iff.mp (isBoolChar_bool h b c hc)).1
  | error message =>
    intro hmem
    rcases List.mem_append.mp hmem with hmem | hmem
    · exact absurd hmem (by decide)
    · exact h hmem

theorem Response.splitOn_text (r : Response) : r.text.splitOn 0x0a = r.lines.map Line.text := by
  refine List.splitOn_intercalate (0x0a : UInt16) ?_ ?_
  · intro t ht
    obtain ⟨line, hline, rfl⟩ := List.mem_map.mp ht
    exact newline_not_mem (r.wellFormed line hline)
  · intro hnil
    have hlines := List.map_eq_nil_iff.mp hnil
    have hstatuses := r.statuses_eq
    rw [hlines] at hstatuses
    cases hstatuses

/-! ### What they come to -/

def target (constants : List U16String) (x : U16String) : Value :=
  if x = proto then .inherited proto else .number (constants.idxOf x)

def Line.write (constants : List U16String) : Line → Option (U16String × Value)
  | const id _ x => some (id, target constants x)
  | bool id b => some (id, .boolean b)
  | _ => none

def writes (constants : List U16String) (lines : List Line) : List (U16String × Value) :=
  lines.filterMap (Line.write constants)

structure Reads (lines : List Line) (s : Reading) : Prop where
  sat : s.sat = (statuses lines).getLast?.map fun st => decide (st ≠ .unsat)
  cidx : s.cidx = (reps lines).length
  name : s.constants proto = none
  constants : ∀ x ∈ reps lines, x ≠ proto →
    s.constants x = some (.number ((reps lines).idxOf x))
  assignment : s.assignment =
    PlainObject.setAll prototype (fun _ => none) (writes (reps lines) lines)

theorem constantOf_eq {lines : List Line} {s : Reading} (h : Reads lines s) {x : U16String}
    (hx : x ∈ reps lines) : constantOf s x = target (reps lines) x := by
  rw [constantOf, target]
  split
  · rename_i hproto
    rw [hproto, PlainObject.get_of_not_own h.name]
    rfl
  · rename_i hproto
    rw [PlainObject.get_of_own (h.constants x hx hproto)]
    rfl

theorem writes_append_rep {constants : List U16String} {lines : List Line} (x : U16String)
    (h : ∀ id sort y, .const id sort y ∈ lines → y ∈ constants) :
    writes (constants ++ [x]) lines = writes constants lines := by
  refine List.filterMap_congr fun line hline => ?_
  cases line with
  | const id sort y =>
    rw [Line.write, Line.write, target, target, List.idxOf_append_of_mem (h id sort y hline)]
  | _ => rfl

theorem map_fst_writes (constants : List U16String) (lines : List Line) :
    (writes constants lines).map Prod.fst = ids lines := by
  rw [writes, ids, List.map_filterMap]
  congr 1
  funext line
  cases line <;> rfl

def RepFirst (lines : List Line) : Prop :=
  ∀ before id sort x after, lines = before ++ .const id sort x :: after → x ∈ reps before

theorem RepFirst.front {lines : List Line} {line : Line} (h : RepFirst (lines ++ [line])) :
    RepFirst lines := by
  rintro before id sort x after rfl
  refine h before id sort x (after ++ [line]) ?_
  rw [List.append_assoc, List.cons_append]

theorem RepFirst.mem {lines : List Line} (h : RepFirst lines) {id sort x : U16String}
    (hmem : .const id sort x ∈ lines) : x ∈ reps lines := by
  obtain ⟨before, after, rfl⟩ := List.append_of_mem hmem
  rw [reps, List.filterMap_append]
  exact List.mem_append_left _ (h before id sort x after rfl)

theorem reps_append (lines more : List Line) : reps (lines ++ more) = reps lines ++ reps more :=
  List.filterMap_append ..

theorem statuses_append (lines more : List Line) :
    statuses (lines ++ more) = statuses lines ++ statuses more :=
  List.filterMap_append ..

theorem writes_append (constants : List U16String) (lines more : List Line) :
    writes constants (lines ++ more) = writes constants lines ++ writes constants more :=
  List.filterMap_append ..

section

variable {lines : List Line} {s : Reading}

theorem Reads.keep {line : Line} {t : Reading} (h : Reads lines s) (hrep : reps [line] = [])
    (hsat : t.sat = (statuses (lines ++ [line])).getLast?.map fun st => decide (st ≠ .unsat))
    (hcidx : t.cidx = s.cidx) (hconstants : t.constants = s.constants)
    (hassignment : t.assignment =
      PlainObject.setAll prototype s.assignment (writes (reps lines) [line])) :
    Reads (lines ++ [line]) t := by
  have hreps : reps (lines ++ [line]) = reps lines := by
    rw [reps_append, hrep, List.append_nil]
  refine ⟨hsat, ?_, ?_, ?_, ?_⟩
  · rw [hreps, hcidx, h.cidx]
  · rw [hconstants, h.name]
  · rw [hreps, hconstants]
    exact h.constants
  · rw [hreps, hassignment, h.assignment, writes_append, PlainObject.setAll_append]

theorem Reads.sat_append {line : Line} (h : Reads lines s) (hstatus : statuses [line] = []) :
    s.sat = (statuses (lines ++ [line])).getLast?.map fun st => decide (st ≠ .unsat) := by
  rw [statuses_append, hstatus, List.append_nil, h.sat]

theorem Reads.constants_append {x y : U16String} (h : Reads lines s) (hx : x ∉ reps lines)
    (hy : y ∈ reps lines ++ [x]) (hne : y ≠ proto) :
    (addConstant s x).constants y = some (.number ((reps lines ++ [x]).idxOf y)) := by
  rw [addConstant]
  dsimp only
  by_cases hyx : y = x
  · subst hyx
    rw [PlainObject.set_apply_self hne, List.idxOf_append_of_notMem hx, List.idxOf_cons_self,
      Nat.add_zero, h.cidx]
  · have hold : y ∈ reps lines := by
      rcases List.mem_append.mp hy with hy | hy
      · exact hy
      · exact absurd (List.mem_singleton.mp hy) hyx
    rw [PlainObject.set_apply_of_ne hyx, List.idxOf_append_of_mem hold, h.constants y hold hne]

theorem Reads.rep {x : U16String} (h : Reads lines s) (hx : x ∉ reps lines)
    (hfirst : RepFirst lines) : Reads (lines ++ [.rep x]) (addConstant s x) := by
  have hreps : reps (lines ++ [.rep x]) = reps lines ++ [x] := reps_append lines [.rep x]
  refine ⟨h.sat_append rfl, ?_, ?_, ?_, ?_⟩
  · rw [hreps, List.length_append, List.length_singleton, addConstant, h.cidx]
  · exact PlainObject.set_apply_name.trans h.name
  · rw [hreps]
    intro y hy hne
    exact h.constants_append hx hy hne
  · rw [hreps, writes_append, writes_append_rep x fun id sort y hy => hfirst.mem hy, addConstant,
      h.assignment]
    exact congrArg _ (List.append_nil _).symm

theorem Reads.const {id sort x : U16String} (h : Reads lines s) (hx : x ∈ reps lines) :
    Reads (lines ++ [.const id sort x]) (assign s id (constantOf s x)) := by
  refine h.keep rfl (h.sat_append rfl) rfl rfl ?_
  rw [constantOf_eq h hx]
  rfl

theorem Reads.bool {id : U16String} {b : Bool} (h : Reads lines s) :
    Reads (lines ++ [.bool id b]) (assign s id (.boolean b)) :=
  h.keep rfl (h.sat_append rfl) rfl rfl rfl

theorem Reads.status {st : Status} (h : Reads lines s) :
    Reads (lines ++ [.status st]) ((Line.status st).read s) := by
  refine h.keep rfl ?_ rfl rfl rfl
  have hlast : (statuses lines ++ [st]).getLast? = some st := List.getLast?_concat
  rw [statuses_append]
  exact (congrArg (Option.map fun st => decide (st ≠ .unsat)) hlast).symm

theorem Reads.nothing {line : Line} (h : Reads lines s) (hstatus : statuses [line] = [])
    (hrep : reps [line] = []) (hwrite : ∀ constants, writes constants [line] = []) :
    Reads (lines ++ [line]) s := by
  refine h.keep hrep (h.sat_append hstatus) rfl rfl ?_
  rw [hwrite]
  rfl

end

theorem reads (lines : List Line) (hreps : (reps lines).Nodup) (hfirst : RepFirst lines) :
    Reads lines (lines.foldl Line.read initial) := by
  induction lines using List.reverseRecOn with
  | nil => exact ⟨rfl, rfl, rfl, fun _ hx => (nomatch hx), rfl⟩
  | append_singleton lines line ih =>
    rw [reps_append, List.nodup_append] at hreps
    obtain ⟨hnodup, -, hdisjoint⟩ := hreps
    have h := ih hnodup hfirst.front
    rw [List.foldl_append, List.foldl_cons, List.foldl_nil]
    cases line with
    | status st => exact h.status
    | ignored t => exact h.nothing rfl rfl fun _ => rfl
    | rep x =>
      exact h.rep (fun hx => hdisjoint x hx x (List.mem_singleton_self x) rfl) hfirst.front
    | const id sort x => exact h.const (hfirst lines id sort x [] rfl)
    | bool id b => exact h.bool
    | error message => exact h.nothing rfl rfl fun _ => rfl

/-! ## Answers without an error -/

def Response.assignment (r : Response) : Values :=
  PlainObject.setAll prototype (fun _ => none) (writes (reps r.lines) r.lines)

theorem checkSat_text (r : Response) (h : ¬r.HasError) :
    checkSat r.text =
      if r.status = .unsat then some (false, none) else some (true, some r.assignment) := by
  have hreads := reads r.lines r.reps_nodup r.rep_first
  rw [checkSat, r.splitOn_text, foldlM_texts r.lines r.wellFormed (fun message hmem =>
    h ⟨message, hmem⟩), Option.map_some, hreads.sat, r.statuses_eq, hreads.assignment]
  cases r.status <;> rfl

theorem checkSat_of_hasError (r : Response) (h : r.HasError) : checkSat r.text = none := by
  obtain ⟨message, hmem⟩ := h
  refine checkSat_error r.text ⟨(Line.error message).text, ?_, List.prefix_append _ _⟩
  rw [r.splitOn_text]
  exact List.mem_map_of_mem hmem

theorem assignment_proto (r : Response) : r.assignment proto = none :=
  PlainObject.setAll_name _

theorem assignment_of_write (r : Response) {line : Line} {id : U16String} {value : Value}
    (hline : line ∈ r.lines) (hwrite : line.write (reps r.lines) = some (id, value))
    (hid : id ≠ proto) : r.assignment id = some value := by
  refine PlainObject.setAll_of_nodup ?_ (List.mem_filterMap.mpr ⟨line, hline, hwrite⟩) hid
  rw [map_fst_writes]
  exact r.ids_nodup

theorem assignment_isSome_iff (r : Response) {id : U16String} (hid : id ≠ proto) :
    (r.assignment id).isSome ↔ id ∈ ids r.lines := by
  rw [Response.assignment, PlainObject.setAll_apply _ hid, Option.or_none,
    Table.lastWrite_isSome_iff, ← map_fst_writes (reps r.lines), List.mem_map]

theorem mem_ids_iff {lines : List Line} {id : U16String} :
    id ∈ ids lines ↔
      (∃ sort x, .const id sort x ∈ lines) ∨ ∃ b, .bool id b ∈ lines := by
  rw [ids, List.mem_filterMap]
  constructor
  · rintro ⟨line, hline, hid⟩
    cases line with
    | const other sort x =>
      cases hid
      exact .inl ⟨sort, x, hline⟩
    | bool other b =>
      cases hid
      exact .inr ⟨b, hline⟩
    | _ => cases hid
  · rintro (⟨sort, x, hline⟩ | ⟨b, hline⟩)
    · exact ⟨_, hline, rfl⟩
    · exact ⟨_, hline, rfl⟩

theorem assigns_of_unnamed (r : Response) (h : Unnamed r.lines) :
    Assigns r.lines r.assignment := by
  obtain ⟨hconst, hbool⟩ := h
  have hvalue : ∀ id sort x, .const id sort x ∈ r.lines →
      r.assignment id = some (.number ((reps r.lines).idxOf x)) := by
    intro id sort x hline
    obtain ⟨hid, hx⟩ := hconst id sort x hline
    refine assignment_of_write r hline ?_ hid
    rw [Line.write, target, if_neg hx]
  refine ⟨fun id => ?_, fun id sort x hline => ⟨_, hvalue id sort x hline⟩, ?_, ?_⟩
  · by_cases hid : id = proto
    · rw [hid, assignment_proto, mem_ids_iff]
      refine iff_of_false Bool.false_ne_true ?_
      rintro (⟨sort, x, hline⟩ | ⟨b, hline⟩)
      · exact (hconst _ sort x hline).1 rfl
      · exact hbool _ b hline rfl
    · exact assignment_isSome_iff r hid
  · intro id sort x other sort' y hx hy
    rw [hvalue id sort x hx, hvalue other sort' y hy]
    have hmem : x ∈ reps r.lines := RepFirst.mem r.rep_first hx
    constructor
    · intro heq
      exact (List.idxOf_inj hmem).mp (Value.number.inj (Option.some.inj heq))
    · rintro rfl
      rfl
  · intro id b hline
    exact assignment_of_write r hline rfl (hbool id b hline)

theorem unnamed_of_assigns (r : Response) (h : Assigns r.lines r.assignment) :
    Unnamed r.lines := by
  have hproto : proto ∉ ids r.lines := by
    intro hmem
    have hsome := (h.ids proto).mpr hmem
    rw [assignment_proto] at hsome
    cases hsome
  constructor
  · intro id sort x hline
    have hid : id ≠ proto := by
      rintro rfl
      exact hproto (mem_ids_iff.mpr (.inl ⟨sort, x, hline⟩))
    refine ⟨hid, ?_⟩
    rintro rfl
    obtain ⟨n, hn⟩ := h.number id sort proto hline
    have hinherited : r.assignment id = some (.inherited proto) :=
      assignment_of_write r hline (by rw [Line.write, target, if_pos rfl]) hid
    rw [hinherited] at hn
    cases hn
  · rintro id b hline rfl
    exact hproto (mem_ids_iff.mpr (.inr ⟨b, hline⟩))

/-- The answer is decoded as it is meant exactly if it is an error or negative, or nothing in
it is named as the prototype of an object is. -/
theorem faithful_iff (r : Response) : Faithful r ↔ NoProto r := by
  by_cases herror : r.HasError
  · exact iff_of_true ⟨fun _ => checkSat_of_hasError r herror, fun hno => absurd herror hno⟩
      (.inl herror)
  · have hchecked := checkSat_text r herror
    by_cases hunsat : r.status = .unsat
    · rw [if_pos hunsat] at hchecked
      exact iff_of_true ⟨fun h => absurd h herror, fun _ =>
        ⟨fun _ => hchecked, fun hne => absurd hunsat hne⟩⟩ (.inr (.inl hunsat))
    · rw [if_neg hunsat] at hchecked
      constructor
      · rintro ⟨-, hanswer⟩
        obtain ⟨A, hA, hassigns⟩ := (hanswer herror).2 hunsat
        cases hchecked.symm.trans hA
        exact .inr (.inr (unnamed_of_assigns r hassigns))
      · rintro (h | h | h)
        · exact absurd h herror
        · exact absurd h hunsat
        · exact ⟨fun he => absurd he herror, fun _ => ⟨fun hu => absurd hu hunsat, fun _ =>
            ⟨_, hchecked, assigns_of_unnamed r h⟩⟩⟩

/-- A function of the name of the prototype. -/
def protoResponse : Response where
  lines := [.status .sat, .rep (u16 "U_0"), .const proto (u16 "U") (u16 "U_0")]
  wellFormed := by
    have hword : IsWord (u16 "U_0") := ⟨by decide, List.all_eq_true.mp rfl⟩
    intro line hline
    rcases List.mem_cons.mp hline with rfl | hline
    · exact trivial
    · rcases List.mem_cons.mp hline with rfl | hline
      · exact hword
      · cases List.mem_singleton.mp hline
        exact ⟨⟨by decide, List.all_eq_true.mp rfl⟩, ⟨by decide, List.all_eq_true.mp rfl⟩,
          hword⟩
  status := .sat
  statuses_eq := rfl
  reps_nodup := by decide
  rep_first := by
    intro before id sort x after h
    rcases before with _ | ⟨a, _ | ⟨b, _ | ⟨c, before⟩⟩⟩
    · cases h
    · cases h
    · cases h
      decide
    · have hlength := congrArg List.length h
      simp only [List.cons_append, List.length_cons, List.length_append, List.length_nil] at hlength
      omega
  ids_nodup := by decide

theorem not_faithful_protoResponse : ¬∀ r, Faithful r := by
  intro hall
  have herror : ¬protoResponse.HasError := by
    rintro ⟨message, hmem⟩
    rcases List.mem_cons.mp hmem with heq | hmem
    · cases heq
    · rcases List.mem_cons.mp hmem with heq | hmem
      · cases heq
      · cases List.mem_singleton.mp hmem
  obtain ⟨A, hA, hassigns⟩ := ((hall protoResponse).2 herror).2 (by decide)
  rw [checkSat_text protoResponse herror, if_neg (by decide)] at hA
  cases hA
  have hsome := (hassigns.ids proto).mpr (by decide)
  rw [assignment_proto] at hsome
  cases hsome

end SmtSolver

end AlmondAndroid.App
