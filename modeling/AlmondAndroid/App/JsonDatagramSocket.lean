import AlmondAndroid.Bridge.Values
import AlmondAndroid.Library.JsonPrefix

/-!
# Messages over a socket

`JsonDatagramSocket` writes a message as its JSON text and a line feed. What it reads comes in
chunks, and the text after the last line feed is tried as a message before its own line feed
has come. The report of a malformed line converts the message before it to a string, which can
throw.
-/

namespace AlmondAndroid.App

open Bridge Library

universe u

variable {Num : Type u}

/-- What has come since the last line feed or the last message, and the messages emitted. -/
structure JsonDatagramSocket (Num : Type u) where
  partialMessage : Json.Text
  emitted : List (JsonTree Num)

namespace JsonDatagramSocket

def lineFeed : UInt16 := 0x0a

def initial : JsonDatagramSocket Num := ⟨[], []⟩

mutual

/-- The conversion of a value to a string throws where a member `toString` hides the method, or
where an array has such an element. -/
def throwsAsString : JsonTree Num → Bool
  | .object members => members.any fun m => m.1 == u16 "toString"
  | .array elements => anyThrows elements
  | _ => false

def anyThrows : List (JsonTree Num) → Bool
  | [] => false
  | x :: xs => throwsAsString x || anyThrows xs

end

section

variable (numbers : Json.NumberSystem Num)

/-- `JSON.parse`; `none` is an exception. -/
def parse (t : Json.Text) : Option (JsonTree Num) := Json.read numbers.format t

/-- The messages of complete lines, and whether the report of a malformed line throws. `msg`
is the message before, and `none` if it is still undefined. -/
def readLines (msg : Option (JsonTree Num)) : List Json.Text → List (JsonTree Num) × Bool
  | [] => ([], false)
  | l :: ls =>
    match parse numbers l with
    | some msg' => (msg' :: (readLines (some msg') ls).1, (readLines (some msg') ls).2)
    | none => if msg.any throwsAsString then ([], true) else readLines msg ls

/-- What a call does that has read `msg` last, and whether it throws. -/
def readFrom (msg : Option (JsonTree Num)) (s : JsonDatagramSocket Num) :
    JsonDatagramSocket Num × Bool :=
  let split := s.partialMessage.splitOn lineFeed
  let partialMessage := split.getLastD []
  let read := readLines numbers msg split.dropLast
  let emitted := s.emitted ++ read.1
  if read.2 then (⟨partialMessage, emitted⟩, true)
  else if partialMessage = [] then (⟨partialMessage, emitted⟩, false)
  else
    match parse numbers partialMessage with
    | none => (⟨partialMessage, emitted⟩, false)
    | some msg => (⟨[], emitted ++ [msg]⟩, false)

def tryReadMessage (s : JsonDatagramSocket Num) : JsonDatagramSocket Num × Bool :=
  readFrom numbers none s

def onData (s : JsonDatagramSocket Num) (data : Json.Text) : JsonDatagramSocket Num × Bool :=
  tryReadMessage numbers { s with partialMessage := s.partialMessage ++ data }

/-- `goesOn` says whether the process goes on after an exception of a listener. -/
def receive (goesOn : Bool) (s : JsonDatagramSocket Num) :
    List Json.Text → JsonDatagramSocket Num
  | [] => s
  | data :: chunks =>
    if (onData numbers s data).2 && !goesOn then (onData numbers s data).1
    else receive goesOn (onData numbers s data).1 chunks

def write (msg : JsonTree Num) : Json.Text := Json.text numbers.format msg ++ [lineFeed]

end

/-! ## Lines -/

def Terminated (t : Json.Text) : Prop := t = [] ∨ ∃ s, t = s ++ [lineFeed]

def lines (t : Json.Text) : List Json.Text := (t.splitOn lineFeed).dropLast

theorem lines_cons {l : Json.Text} (hl : lineFeed ∉ l) (t : Json.Text) :
    lines (l ++ lineFeed :: t) = l :: lines t := by
  rw [lines, List.splitOn_append_cons_self_of_not_mem hl,
    List.dropLast_cons_of_ne_nil (List.splitOn_ne_nil lineFeed t)]
  rfl

theorem lines_append {a : Json.Text} (ha : Terminated a) (t : Json.Text) :
    lines (a ++ t) = lines a ++ lines t := by
  rcases ha with rfl | ⟨s, rfl⟩
  · rfl
  · rw [List.append_assoc, List.singleton_append, lines, lines, lines,
      List.splitOn_append_cons_self, List.splitOn_append_cons_self, List.splitOn_nil,
      List.dropLast_concat, List.dropLast_append_of_ne_nil (List.splitOn_ne_nil lineFeed t)]

theorem getLastD_cons_of_ne_nil (l : Json.Text) {ls : List Json.Text} (h : ls ≠ []) :
    (l :: ls).getLastD [] = ls.getLastD [] := by
  cases ls with
  | nil => exact absurd rfl h
  | cons k ks => rw [List.getLastD_cons, List.getLastD_cons, List.getLastD_cons]

theorem Terminated.cons_line {b : Json.Text} (hb : Terminated b) (r : Json.Text) :
    Terminated (r ++ lineFeed :: b) := by
  right
  rcases hb with rfl | ⟨s, rfl⟩
  · exact ⟨r, rfl⟩
  · exact ⟨r ++ lineFeed :: s, by rw [List.append_assoc, List.cons_append]⟩

theorem Terminated.suffix {s t : Json.Text} (h : Terminated (s ++ t)) : Terminated t := by
  rcases List.eq_nil_or_concat t with rfl | ⟨u, c, rfl⟩
  · exact .inl rfl
  · rcases h with h | ⟨v, h⟩
    · exact absurd (List.append_eq_nil_iff.mp h).2 (by simp)
    · right
      have hlast : s ++ u ++ [c] = v ++ [lineFeed] := by
        rw [← h]
        simp
      have hc : c = lineFeed := List.singleton_inj.mp (List.append_inj' hlast rfl).2
      exact ⟨u, by rw [hc, List.concat_eq_append]⟩

theorem Terminated.tail {l t : Json.Text} (h : Terminated (l ++ lineFeed :: t)) :
    Terminated t :=
  Terminated.suffix (s := l ++ [lineFeed]) (by rwa [List.append_assoc, List.singleton_append])

theorem Terminated.cases {t : Json.Text} (h : Terminated t) :
    t = [] ∨ ∃ l rest, lineFeed ∉ l ∧ t = l ++ lineFeed :: rest ∧ Terminated rest := by
  have hmem : t = [] ∨ lineFeed ∈ t := by
    rcases h with rfl | ⟨s, rfl⟩
    · exact .inl rfl
    · exact .inr (List.mem_append_right _ (List.mem_singleton_self _))
  rcases hmem with rfl | hmem
  · exact .inl rfl
  · obtain ⟨l, rest, rfl, hl⟩ := List.eq_append_cons_of_mem hmem
    exact .inr ⟨l, rest, hl, rfl, h.tail⟩

theorem lineFeed_not_mem_lines {t : Json.Text} (ht : Terminated t) :
    ∀ l ∈ lines t, lineFeed ∉ l := by
  induction hn : t.length using Nat.strong_induction_on generalizing t with
  | _ n ih =>
    rcases ht.cases with rfl | ⟨k, rest, hk, rfl, hrest⟩
    · intro l hl
      cases hl
    · rw [lines_cons hk]
      intro l hl
      rcases List.mem_cons.mp hl with rfl | hl
      · exact hk
      · exact ih rest.length (by simp at hn; omega) hrest rfl l hl

/-- The chunks that hold one line each. -/
def byLine (ls : List Json.Text) : List Json.Text := ls.map (· ++ [lineFeed])

theorem flatten_byLine_lines {t : Json.Text} (ht : Terminated t) :
    (byLine (lines t)).flatten = t := by
  induction hn : t.length using Nat.strong_induction_on generalizing t with
  | _ n ih =>
    rcases ht.cases with rfl | ⟨k, rest, hk, rfl, hrest⟩
    · rfl
    · have hbyLine : (byLine (lines rest)).flatten = rest :=
        ih rest.length (by simp at hn; omega) hrest rfl
      rw [lines_cons hk, byLine, List.map_cons, List.flatten_cons, ← byLine, hbyLine,
        List.append_assoc, List.singleton_append]

theorem exists_last (t : Json.Text) : ∃ s, Terminated s ∧
    t = s ++ (t.splitOn lineFeed).getLastD [] ∧
      lineFeed ∉ (t.splitOn lineFeed).getLastD [] := by
  induction hn : t.length using Nat.strong_induction_on generalizing t with
  | _ n ih =>
    by_cases hmem : lineFeed ∈ t
    · obtain ⟨l, t, rfl, hl⟩ := List.eq_append_cons_of_mem hmem
      obtain ⟨s, hs, heq, hlast⟩ := ih t.length (by simp at hn; omega) t rfl
      rw [List.splitOn_append_cons_self_of_not_mem hl,
        getLastD_cons_of_ne_nil l (List.splitOn_ne_nil lineFeed t)]
      refine ⟨l ++ lineFeed :: s, hs.cons_line l, ?_, hlast⟩
      rw [List.append_assoc, List.cons_append, ← heq]
    · rw [List.splitOn_eq_singleton hmem]
      exact ⟨[], .inl rfl, rfl, hmem⟩

/-! ## What a chunk does -/

section

variable {numbers : Json.NumberSystem Num}

theorem parse_nil : parse numbers [] = none := rfl

theorem readFrom_cons {l : Json.Text} (hl : lineFeed ∉ l) (t : Json.Text)
    (msg : Option (JsonTree Num)) (emitted : List (JsonTree Num)) :
    readFrom numbers msg ⟨l ++ lineFeed :: t, emitted⟩ =
      match parse numbers l with
      | some msg' => readFrom numbers (some msg') ⟨t, emitted ++ [msg']⟩
      | none =>
        if msg.any throwsAsString then (⟨(t.splitOn lineFeed).getLastD [], emitted⟩, true)
        else readFrom numbers msg ⟨t, emitted⟩ := by
  have hne := List.splitOn_ne_nil lineFeed t
  unfold readFrom
  dsimp only
  rw [List.splitOn_append_cons_self_of_not_mem hl, List.dropLast_cons_of_ne_nil hne,
    getLastD_cons_of_ne_nil l hne, readLines]
  cases hparse : parse numbers l with
  | some msg' =>
    dsimp only
    rw [List.append_assoc, List.singleton_append]
  | none =>
    dsimp only
    cases hthrows : msg.any throwsAsString with
    | true => simp
    | false => rfl

theorem readFrom_open {p : Json.Text} (hp : lineFeed ∉ p) (msg : Option (JsonTree Num))
    (emitted : List (JsonTree Num)) :
    readFrom numbers msg ⟨p, emitted⟩ =
      match parse numbers p with
      | none => (⟨p, emitted⟩, false)
      | some msg => (⟨[], emitted ++ [msg]⟩, false) := by
  unfold readFrom
  dsimp only
  rw [List.splitOn_eq_singleton hp, List.dropLast_singleton, readLines, List.append_nil]
  simp only [Bool.false_eq_true, if_false]
  split
  · rename_i hnil
    have hp : p = [] := hnil
    subst hp
    rfl
  · rfl

end

/-! ## Chunks of any size -/

section

variable (numbers : Json.NumberSystem Num)

/-- Where a proper prefix of the line is a message by itself, the line is the same message,
and nothing in the rest is one. -/
def CutSafe (l : Json.Text) : Prop :=
  ∀ p r msg, p ++ r = l → r ≠ [] → parse numbers p = some msg →
    parse numbers l = some msg ∧ ∀ q q', q ++ q' = r → q ≠ [] → parse numbers q = none

def messages (t : Json.Text) : List (JsonTree Num) := (lines t).filterMap (parse numbers)

variable {numbers}

theorem messages_cons {l : Json.Text} (hl : lineFeed ∉ l) (t : Json.Text) :
    messages numbers (l ++ lineFeed :: t) = (parse numbers l).toList ++ messages numbers t := by
  rw [messages, lines_cons hl]
  cases h : parse numbers l with
  | none =>
    rw [List.filterMap_cons_none h]
    rfl
  | some msg =>
    rw [List.filterMap_cons_some h]
    rfl

/-- What is left of a line after a message has been taken off its front is no message. -/
theorem CutSafe.rest {p r : Json.Text} {msg : JsonTree Num} (h : CutSafe numbers (p ++ r))
    (hp : parse numbers p = some msg) :
    parse numbers (p ++ r) = some msg ∧ parse numbers r = none ∧ CutSafe numbers r := by
  by_cases hr : r = []
  · subst hr
    rw [List.append_nil]
    refine ⟨hp, parse_nil, fun q q' _ hq hq' => ?_⟩
    exact absurd (List.append_eq_nil_iff.mp hq).2 hq'
  · obtain ⟨hwhole, hnone⟩ := h p r msg rfl hr hp
    refine ⟨hwhole, hnone r [] (List.append_nil r) hr, fun q q' msg' hq hq' hmsg => ?_⟩
    by_cases hnil : q = []
    · subst hnil
      cases hmsg
    · rw [hnone q q' hq hnil] at hmsg
      cases hmsg

/-- What the lines of a text read as. -/
def readings (numbers : Json.NumberSystem Num) (t : Json.Text) : List (Option (JsonTree Num)) :=
  (lines t).map (parse numbers)

/-- The report of a line throws, as it comes behind a message that is no string; `rest` is
behind it. -/
def Lost (rs rest : List (Option (JsonTree Num))) : Prop :=
  ∃ before msg, rs = before ++ some msg :: none :: rest ∧ throwsAsString msg

def NoneLost (rs : List (Option (JsonTree Num))) : Prop :=
  ∀ rest, Lost rs rest → ∀ r ∈ rest, r = none

theorem readings_cons {l : Json.Text} (hl : lineFeed ∉ l) (t : Json.Text) :
    readings numbers (l ++ lineFeed :: t) = parse numbers l :: readings numbers t := by
  rw [readings, lines_cons hl, List.map_cons]
  rfl

theorem readings_append {s : Json.Text} (hs : Terminated s) (t : Json.Text) :
    readings numbers (s ++ t) = readings numbers s ++ readings numbers t := by
  rw [readings, lines_append hs, List.map_append]
  rfl

theorem messages_eq_nil {t : Json.Text} (h : ∀ r ∈ readings numbers t, r = none) :
    messages numbers t = [] :=
  List.filterMap_eq_nil_iff.mpr fun _ hl => h _ (List.mem_map_of_mem hl)

theorem Lost.append {rs rest : List (Option (JsonTree Num))} (h : Lost rs rest)
    (more : List (Option (JsonTree Num))) : Lost (more ++ rs) rest := by
  obtain ⟨before, msg, rfl, hmsg⟩ := h
  exact ⟨more ++ before, msg, (List.append_assoc ..).symm, hmsg⟩

theorem Lost.of_cons {r : Option (JsonTree Num)} {rs rest : List (Option (JsonTree Num))}
    (h : Lost (r :: rs) rest) (hr : r.any throwsAsString = false) : Lost rs rest := by
  obtain ⟨before, msg, heq, hmsg⟩ := h
  cases before with
  | nil =>
    rw [List.nil_append] at heq
    obtain ⟨rfl, -⟩ := List.cons.inj heq
    rw [Option.any_some, hmsg] at hr
    cases hr
  | cons first before => exact ⟨before, msg, (List.cons.inj heq).2, hmsg⟩

/-- Every line is safe to be cut. -/
structure Safe (numbers : Json.NumberSystem Num) (t : Json.Text) : Prop where
  terminated : Terminated t
  cutSafe : ∀ l ∈ lines t, CutSafe numbers l

theorem Safe.tail {l t : Json.Text} (hl : lineFeed ∉ l)
    (h : Safe numbers (l ++ lineFeed :: t)) : Safe numbers t := by
  refine ⟨h.terminated.tail, fun k hk => h.cutSafe k ?_⟩
  rw [lines_cons hl]
  exact List.mem_cons_of_mem _ hk

theorem Safe.suffix {s t : Json.Text} (hs : Terminated s) (h : Safe numbers (s ++ t)) :
    Safe numbers t := by
  refine ⟨h.terminated.suffix, fun k hk => h.cutSafe k ?_⟩
  rw [lines_append hs]
  exact List.mem_append_right _ hk

/-- What is still to come of the text `t`, behind `msg`, once `owed` has been emitted. -/
structure Owes (numbers : Json.NumberSystem Num) (msg : Option (JsonTree Num))
    (t : Json.Text) (owed : List (JsonTree Num)) (t' : Json.Text) : Prop where
  safe : Safe numbers t'
  whole : owed ++ messages numbers t' = messages numbers t
  lost : ∀ rest, Lost (readings numbers t') rest → Lost (msg :: readings numbers t) rest

/-- The message before has no string form, and the first line is malformed. -/
theorem Owes.of_throws {msg : Option (JsonTree Num)} {l s t : Json.Text} (hl : lineFeed ∉ l)
    (hs : Terminated s) (hsafe : Safe numbers (l ++ lineFeed :: (s ++ t)))
    (hnone : parse numbers l = none) (hthrows : msg.any throwsAsString)
    (hlost : NoneLost (msg :: readings numbers (l ++ lineFeed :: (s ++ t)))) :
    Owes numbers msg (l ++ lineFeed :: (s ++ t)) [] t ∧ messages numbers t = [] ∧
      ∃ rest, Lost (msg :: readings numbers (l ++ lineFeed :: (s ++ t))) rest := by
  obtain ⟨msg, rfl, hmsg⟩ : ∃ m, msg = some m ∧ throwsAsString m = true := by
    cases msg with
    | none => cases hthrows
    | some msg => exact ⟨msg, rfl, hthrows⟩
  rw [readings_cons hl, hnone, readings_append hs] at hlost ⊢
  have hfirst : Lost (some msg :: none :: (readings numbers s ++ readings numbers t))
      (readings numbers s ++ readings numbers t) := ⟨[], msg, rfl, hmsg⟩
  have hall := hlost _ hfirst
  have hrest : messages numbers t = [] :=
    messages_eq_nil fun r hr => hall r (List.mem_append_right _ hr)
  have hwhole : messages numbers (s ++ t) = [] := by
    refine messages_eq_nil ?_
    rw [readings_append hs]
    exact hall
  refine ⟨⟨(hsafe.tail hl).suffix hs, ?_, fun rest h => ?_⟩, hrest, _, hfirst⟩
  · rw [messages_cons hl, hnone, hrest, hwhole]
    rfl
  · rw [readings_cons hl, hnone, readings_append hs]
    exact h.append (some msg :: none :: readings numbers s)

/-- The beginning of a line is a message, and is emitted before the rest has come. -/
theorem Owes.of_cut {q r t : Json.Text} {msg : JsonTree Num}
    {last : Option (JsonTree Num)} (hl : lineFeed ∉ q ++ r)
    (hsafe : Safe numbers (q ++ r ++ lineFeed :: t)) (hparse : parse numbers q = some msg) :
    Owes numbers last (q ++ r ++ lineFeed :: t) [msg] (r ++ lineFeed :: t) := by
  have hr : lineFeed ∉ r := fun h => hl (List.mem_append_right _ h)
  have hline : CutSafe numbers (q ++ r) :=
    hsafe.cutSafe _ (by rw [lines_cons hl]; exact List.mem_cons_self)
  obtain ⟨hwhole, hnone, hcut⟩ := hline.rest hparse
  refine ⟨⟨hsafe.terminated.tail.cons_line r, ?_⟩, ?_, fun rest h => ?_⟩
  · rw [lines_cons hr]
    intro k hk
    rcases List.mem_cons.mp hk with rfl | hk
    · exact hcut
    · exact (hsafe.tail hl).cutSafe k hk
  · rw [messages_cons hr, messages_cons hl, hwhole, hnone]
    rfl
  · rw [readings_cons hr, hnone] at h
    rw [readings_cons hl]
    exact (h.of_cons rfl).append [last, _]

/-- A text that is safe to be cut: what a call emits of it, and what it still owes. -/
theorem readFrom_owes {q more : Json.Text} (hsafe : Safe numbers (q ++ more))
    (msg : Option (JsonTree Num)) (hlost : NoneLost (msg :: readings numbers (q ++ more)))
    (emitted : List (JsonTree Num)) :
    ∃ p owed threw, readFrom numbers msg ⟨q, emitted⟩ = (⟨p, emitted ++ owed⟩, threw) ∧
      lineFeed ∉ p ∧ Owes numbers msg (q ++ more) owed (p ++ more) ∧
      (threw = true → messages numbers (p ++ more) = [] ∧
        ∃ rest, Lost (msg :: readings numbers (q ++ more)) rest) := by
  induction hn : q.length using Nat.strong_induction_on generalizing q msg emitted with
  | _ n ih =>
    by_cases hmem : lineFeed ∈ q
    · obtain ⟨l, q, rfl, hl⟩ := List.eq_append_cons_of_mem hmem
      have hlen : q.length < n := by
        simp at hn
        omega
      rw [List.append_assoc, List.cons_append] at hsafe hlost ⊢
      rw [readFrom_cons hl]
      cases hparse : parse numbers l with
      | some msg' =>
        dsimp only
        have hreadings : readings numbers (l ++ lineFeed :: (q ++ more)) =
            some msg' :: readings numbers (q ++ more) := by rw [readings_cons hl, hparse]
        rw [hreadings] at hlost ⊢
        obtain ⟨p, owed, threw, heq, hp, howes, hthrew⟩ := ih q.length hlen (hsafe.tail hl)
          (some msg') (fun rest h => hlost rest (h.append [msg])) (emitted ++ [msg']) rfl
        refine ⟨p, msg' :: owed, threw, ?_, hp, ⟨howes.safe, ?_, fun rest h => ?_⟩, fun h => ?_⟩
        · rw [heq, List.append_assoc, List.singleton_append]
        · rw [messages_cons hl, hparse, List.cons_append, howes.whole]
          rfl
        · rw [hreadings]
          exact (howes.lost rest h).append [msg]
        · obtain ⟨hmessages, rest, hrest⟩ := hthrew h
          exact ⟨hmessages, rest, hrest.append [msg]⟩
      | none =>
        dsimp only
        cases hthrows : msg.any throwsAsString with
        | true =>
          obtain ⟨s, hs, heq, hlast⟩ := exists_last q
          generalize (q.splitOn lineFeed).getLastD [] = p at heq hlast
          subst heq
          rw [List.append_assoc] at hsafe hlost ⊢
          obtain ⟨howes, hmessages, hrest⟩ :=
            Owes.of_throws hl hs hsafe hparse hthrows hlost
          exact ⟨p, [], true, by rw [List.append_nil]; rfl, hlast, howes,
            fun _ => ⟨hmessages, hrest⟩⟩
        | false =>
          have hreadings : readings numbers (l ++ lineFeed :: (q ++ more)) =
              none :: readings numbers (q ++ more) := by rw [readings_cons hl, hparse]
          rw [hreadings] at hlost ⊢
          have hskip : ∀ rest, Lost (msg :: readings numbers (q ++ more)) rest →
              Lost (msg :: none :: readings numbers (q ++ more)) rest :=
            fun rest h => (h.of_cons hthrows).append [msg, none]
          obtain ⟨p, owed, threw, heq, hp, howes, hthrew⟩ := ih q.length hlen (hsafe.tail hl)
            msg (fun rest h => hlost rest (hskip rest h)) emitted rfl
          refine ⟨p, owed, threw, heq, hp, ⟨howes.safe, ?_, fun rest h => ?_⟩, fun h => ?_⟩
          · rw [messages_cons hl, hparse, howes.whole]
            rfl
          · rw [hreadings]
            exact hskip rest (howes.lost rest h)
          · obtain ⟨hmessages, rest, hrest⟩ := hthrew h
            exact ⟨hmessages, rest, hskip rest hrest⟩
    · rw [readFrom_open hmem]
      cases hparse : parse numbers q with
      | none =>
        exact ⟨q, [], false, by rw [List.append_nil], hmem,
          ⟨hsafe, rfl, fun rest h => h.append [msg]⟩, by rintro ⟨⟩⟩
      | some msg' =>
        rcases hsafe.terminated.cases with hnil | ⟨l, t, hl, heq, -⟩
        · rw [(List.append_eq_nil_iff.mp hnil).1, parse_nil] at hparse
          cases hparse
        · obtain ⟨r, rfl, rfl⟩ : ∃ r, l = q ++ r ∧ more = r ++ lineFeed :: t := by
            rcases List.append_eq_append_iff.mp heq with ⟨r, hr, hmore⟩ | ⟨r, rfl, hr⟩
            · exact ⟨r, hr, hmore⟩
            · cases r with
              | nil => exact ⟨[], by simp, hr.symm⟩
              | cons c r =>
                rw [List.cons_append] at hr
                have hc := (List.cons.inj hr).1
                exact absurd (List.mem_append_right _ (hc ▸ List.mem_cons_self)) hmem
          rw [← List.append_assoc] at hsafe ⊢
          exact ⟨[], [msg'], false, rfl, List.not_mem_nil, Owes.of_cut hl hsafe hparse,
            by rintro ⟨⟩⟩

theorem receive_safe (goesOn : Bool) (chunks : List Json.Text) :
    ∀ {p : Json.Text}, lineFeed ∉ p → Safe numbers (p ++ chunks.flatten) →
    NoneLost (readings numbers (p ++ chunks.flatten)) →
    ∀ emitted, ∃ q, receive numbers goesOn ⟨p, emitted⟩ chunks =
      ⟨q, emitted ++ messages numbers (p ++ chunks.flatten)⟩ ∧
      ((∀ rest, ¬ Lost (readings numbers (p ++ chunks.flatten)) rest) → q = []) := by
  induction chunks with
  | nil =>
    intro p hp hsafe _ emitted
    rw [List.flatten_nil, List.append_nil] at hsafe ⊢
    rcases hsafe.terminated with rfl | ⟨s, rfl⟩
    · exact ⟨[], congrArg _ (List.append_nil emitted).symm, fun _ => rfl⟩
    · exact absurd (List.mem_append_right _ (List.mem_singleton_self _)) hp
  | cons data chunks ih =>
    intro p hp hsafe hlost emitted
    rw [List.flatten_cons, ← List.append_assoc] at hsafe hlost ⊢
    have hnone : ∀ rest, Lost (none :: readings numbers (p ++ data ++ chunks.flatten)) rest →
        Lost (readings numbers (p ++ data ++ chunks.flatten)) rest := fun rest h => h.of_cons rfl
    obtain ⟨q, owed, threw, heq, hq, howes, hthrew⟩ :=
      readFrom_owes hsafe none (fun rest h => hlost rest (hnone rest h)) emitted
    have hdata : onData numbers ⟨p, emitted⟩ data = (⟨q, emitted ++ owed⟩, threw) := heq
    rw [receive, hdata, ← howes.whole, ← List.append_assoc]
    dsimp only
    split
    · rename_i hends
      obtain ⟨hmessages, rest, hrest⟩ := hthrew (Bool.and_eq_true_iff.mp hends).1
      refine ⟨q, ?_, fun h => absurd (hnone rest hrest) (h rest)⟩
      rw [hmessages, List.append_nil]
    · obtain ⟨q', hreceive, hsilent⟩ := ih hq howes.safe
        (fun rest h => hlost rest (hnone rest (howes.lost rest h))) (emitted ++ owed)
      exact ⟨q', hreceive, fun h => hsilent fun rest hrest =>
        h rest (hnone rest (howes.lost rest hrest))⟩

end

/-! ## The messages written -/

section

variable {numbers : Json.NumberSystem Num}

theorem lineFeed_not_mem_text (msg : JsonTree Num) :
    lineFeed ∉ Json.text numbers.format msg :=
  fun h => Json.text_not_control numbers msg lineFeed h (by decide)

theorem write_append (msg : JsonTree Num) (t : Json.Text) :
    write numbers msg ++ t = Json.text numbers.format msg ++ lineFeed :: t :=
  List.append_assoc ..

theorem terminated_write (msgs : List (JsonTree Num)) :
    Terminated (msgs.flatMap (write numbers)) := by
  induction msgs with
  | nil => exact .inl rfl
  | cons msg msgs ih =>
    right
    rw [List.flatMap_cons]
    rcases ih with hnil | ⟨s, hs⟩
    · rw [hnil, List.append_nil]
      exact ⟨_, rfl⟩
    · rw [hs, ← List.append_assoc]
      exact ⟨_, rfl⟩

theorem lines_write (msgs : List (JsonTree Num)) :
    lines (msgs.flatMap (write numbers)) = msgs.map (Json.text numbers.format) := by
  induction msgs with
  | nil => rfl
  | cons msg msgs ih =>
    rw [List.flatMap_cons, write_append, lines_cons (lineFeed_not_mem_text msg), ih,
      List.map_cons]

theorem parse_text (msg : JsonTree Num) :
    parse numbers (Json.text numbers.format msg) = some msg :=
  Json.read_text numbers.format msg

theorem messages_write (msgs : List (JsonTree Num)) :
    messages numbers (msgs.flatMap (write numbers)) = msgs := by
  induction msgs with
  | nil => rfl
  | cons msg msgs ih =>
    rw [List.flatMap_cons, write_append, messages_cons (lineFeed_not_mem_text msg), parse_text,
      ih]
    rfl

theorem cutSafe_text {msg : JsonTree Num} (hmsg : ∀ n, msg ≠ .number n) :
    CutSafe numbers (Json.text numbers.format msg) := by
  intro p r msg' h hr hparse
  have hcut : parse numbers p = none := Json.read_cut numbers hmsg hr h
  rw [hcut] at hparse
  cases hparse

theorem not_lost_readings_write (msgs : List (JsonTree Num))
    (rest : List (Option (JsonTree Num))) :
    ¬ Lost (readings numbers (msgs.flatMap (write numbers))) rest := by
  rintro ⟨before, msg, heq, -⟩
  rw [readings, lines_write, List.map_map] at heq
  have hmem : none ∈ msgs.map (parse numbers ∘ Json.text numbers.format) := by
    rw [heq]
    simp
  obtain ⟨msg', -, hnone⟩ := List.mem_map.mp hmem
  rw [Function.comp_apply, parse_text] at hnone
  cases hnone

end

/-- Whatever the chunks, the messages written come out, each once and in order. -/
theorem framing_round_trip (numbers : Json.NumberSystem Num) (goesOn : Bool)
    {msgs : List (JsonTree Num)} {chunks : List Json.Text}
    (hmsgs : ∀ msg ∈ msgs, ∀ n, msg ≠ .number n)
    (h : chunks.flatten = msgs.flatMap (write numbers)) :
    receive numbers goesOn initial chunks = ⟨[], msgs⟩ := by
  have hsafe : Safe numbers ([] ++ chunks.flatten) := by
    rw [List.nil_append, h]
    refine ⟨terminated_write msgs, fun l hl => ?_⟩
    rw [lines_write] at hl
    obtain ⟨msg, hmsg, rfl⟩ := List.mem_map.mp hl
    exact cutSafe_text (hmsgs msg hmsg)
  have hsilent : ∀ rest, ¬ Lost (readings numbers ([] ++ chunks.flatten)) rest := by
    rw [List.nil_append, h]
    exact not_lost_readings_write msgs
  obtain ⟨q, hreceive, hq⟩ := receive_safe goesOn chunks List.not_mem_nil hsafe
    (fun rest hrest => absurd hrest (hsilent rest)) []
  rw [List.nil_append, List.nil_append, h, messages_write, hq hsilent] at hreceive
  exact hreceive

/-- The chunks `[1`, `2]`, the empty one, and the line feed. -/
theorem framing_round_trip_array :
    receive Json.NumberSystem.literals false initial [[0x5b, 0x31], [0x32, 0x5d], [], [0x0a]] =
      ⟨[], [.array [.number ⟨[0x31, 0x32], by decide⟩]]⟩ :=
  framing_round_trip Json.NumberSystem.literals false
    (fun msg hmsg n h => by
      rw [List.mem_singleton.mp hmsg] at h
      cases h)
    (by decide)

/-! ## What the chunks can change -/

section

variable {numbers : Json.NumberSystem Num} {goesOn : Bool}

theorem onData_line {l : Json.Text} (hl : lineFeed ∉ l) (emitted : List (JsonTree Num)) :
    onData numbers ⟨[], emitted⟩ (l ++ [lineFeed]) =
      (⟨[], emitted ++ (parse numbers l).toList⟩, false) := by
  have hdata : onData numbers ⟨[], emitted⟩ (l ++ [lineFeed]) =
    readFrom numbers none ⟨l ++ lineFeed :: [], emitted⟩ := rfl
  rw [hdata, readFrom_cons hl]
  cases parse numbers l with
  | none =>
    have hskip : (none : Option (JsonTree Num)).any throwsAsString = false := rfl
    dsimp only
    rw [hskip, if_neg (by decide), readFrom_open List.not_mem_nil, parse_nil, Option.toList_none,
      List.append_nil]
  | some msg =>
    dsimp only
    rw [readFrom_open List.not_mem_nil, parse_nil]
    rfl

theorem onData_open {p : Json.Text} {msg : JsonTree Num} (hp : lineFeed ∉ p)
    (hparse : parse numbers p = some msg) (emitted : List (JsonTree Num)) :
    onData numbers ⟨[], emitted⟩ p = (⟨[], emitted ++ [msg]⟩, false) := by
  have hdata : onData numbers ⟨[], emitted⟩ p = readFrom numbers none ⟨p, emitted⟩ := rfl
  rw [hdata, readFrom_open hp, hparse]

/-- The report of the second line throws. -/
theorem onData_throws {k l t : Json.Text} {msg : JsonTree Num} (hk : lineFeed ∉ k)
    (hl : lineFeed ∉ l) (hparse : parse numbers k = some msg) (hnone : parse numbers l = none)
    (hthrows : throwsAsString msg) (emitted : List (JsonTree Num)) :
    (onData numbers ⟨[], emitted⟩ (k ++ lineFeed :: (l ++ lineFeed :: t))).1.emitted =
      emitted ++ [msg] := by
  have hdata : onData numbers ⟨[], emitted⟩ (k ++ lineFeed :: (l ++ lineFeed :: t)) =
    readFrom numbers none ⟨k ++ lineFeed :: (l ++ lineFeed :: t), emitted⟩ := rfl
  rw [hdata, readFrom_cons hk, hparse]
  dsimp only
  rw [readFrom_cons hl, hnone]
  dsimp only
  rw [Option.any_some, hthrows, if_pos rfl]

theorem receive_cons {s s' : JsonDatagramSocket Num} {data : Json.Text}
    (h : onData numbers s data = (s', false)) (chunks : List Json.Text) :
    receive numbers goesOn s (data :: chunks) = receive numbers goesOn s' chunks := by
  rw [receive, h]
  rfl

/-- A chunk of one line never throws, and so its messages are not lost. -/
theorem receive_byLine {ls : List Json.Text} (hls : ∀ l ∈ ls, lineFeed ∉ l)
    (chunks : List Json.Text) : ∀ emitted : List (JsonTree Num),
    receive numbers goesOn ⟨[], emitted⟩ (byLine ls ++ chunks) =
      receive numbers goesOn ⟨[], emitted ++ ls.filterMap (parse numbers)⟩ chunks := by
  induction ls with
  | nil =>
    intro emitted
    rw [List.filterMap_nil, List.append_nil]
    rfl
  | cons l ls ih =>
    intro emitted
    rw [byLine, List.map_cons, List.cons_append, ← byLine,
      receive_cons (onData_line (hls l List.mem_cons_self) emitted),
      ih fun k hk => hls k (List.mem_cons_of_mem _ hk), List.append_assoc]
    cases hparse : parse numbers l with
    | none => rw [List.filterMap_cons_none hparse, Option.toList_none, List.nil_append]
    | some msg => rw [List.filterMap_cons_some hparse, Option.toList_some, List.singleton_append]

theorem emitted_byLine {ls : List Json.Text} (hls : ∀ l ∈ ls, lineFeed ∉ l)
    (emitted : List (JsonTree Num)) :
    (receive numbers goesOn ⟨[], emitted⟩ (byLine ls)).emitted =
      emitted ++ ls.filterMap (parse numbers) := by
  have h := @receive_byLine _ numbers goesOn ls hls [] emitted
  rw [List.append_nil] at h
  rw [h]
  rfl

/-- The lines of a text in front of one line and behind it. -/
structure Around (t : Json.Text) (a : List Json.Text) (l : Json.Text) (b : List Json.Text) :
    Prop where
  text : t = (byLine a).flatten ++ (l ++ lineFeed :: (byLine b).flatten)
  front : ∀ k ∈ a, lineFeed ∉ k
  line : lineFeed ∉ l
  behind : ∀ k ∈ b, lineFeed ∉ k

theorem Around.of_lines {t l : Json.Text} {a b : List Json.Text} (ht : Terminated t)
    (h : lines t = a ++ l :: b) : Around t a l b := by
  have hall := lineFeed_not_mem_lines ht
  rw [h] at hall
  refine ⟨?_, fun k hk => hall k (by simp [hk]), hall l (by simp),
    fun k hk => hall k (by simp [hk])⟩
  have htext := flatten_byLine_lines ht
  rw [h, byLine, List.map_append, List.map_cons, List.flatten_append, List.flatten_cons,
    List.append_assoc, List.singleton_append] at htext
  exact htext.symm

def Unobservable (numbers : Json.NumberSystem Num) (goesOn : Bool) (t : Json.Text) : Prop :=
  ∀ chunks chunks' : List Json.Text, chunks.flatten = t → chunks'.flatten = t →
    (receive numbers goesOn initial chunks).emitted =
      (receive numbers goesOn initial chunks').emitted

/-- The lines in front come one by one; so the rest of the text may come in any chunks. -/
theorem Unobservable.behind {t l : Json.Text} {a b : List Json.Text}
    (h : Unobservable numbers goesOn t) (haround : Around t a l b) (chunks : List Json.Text)
    (hchunks : chunks.flatten = l ++ lineFeed :: (byLine b).flatten) :
    (receive numbers goesOn ⟨[], a.filterMap (parse numbers)⟩ chunks).emitted =
      a.filterMap (parse numbers) ++
        ((parse numbers l).toList ++ b.filterMap (parse numbers)) := by
  have hline : ((l ++ [lineFeed]) :: byLine b).flatten =
      l ++ lineFeed :: (byLine b).flatten := by
    rw [List.flatten_cons, List.append_assoc, List.singleton_append]
  have heq := h (byLine a ++ chunks) (byLine a ++ (l ++ [lineFeed]) :: byLine b)
    (by rw [List.flatten_append, hchunks, haround.text])
    (by rw [List.flatten_append, hline, haround.text])
  rw [initial, receive_byLine haround.front, receive_byLine haround.front,
    receive_cons (onData_line haround.line _), emitted_byLine haround.behind,
    List.nil_append, List.append_assoc] at heq
  exact heq

theorem Unobservable.cutSafe {t l : Json.Text} (h : Unobservable numbers goesOn t)
    (ht : Terminated t) (hl : l ∈ lines t) : CutSafe numbers l := by
  obtain ⟨a, b, hlines⟩ := List.append_of_mem hl
  have haround := Around.of_lines ht hlines
  rintro p r msg rfl hr hparse
  have hp : lineFeed ∉ p := fun hmem => haround.line (List.mem_append_left _ hmem)
  have hrest : lineFeed ∉ r := fun hmem => haround.line (List.mem_append_right _ hmem)
  have hcut := h.behind haround (p :: (r ++ [lineFeed]) :: byLine b) (by simp)
  rw [receive_cons (onData_open hp hparse _), receive_cons (onData_line hrest _),
    emitted_byLine haround.behind, List.append_assoc, List.append_assoc] at hcut
  have heq := List.append_cancel_left hcut
  rw [← List.append_assoc] at heq
  have hlists := List.append_cancel_right heq
  cases hl' : parse numbers (p ++ r) with
  | none =>
    rw [hl'] at hlists
    cases hlists
  | some msg' =>
    rw [hl'] at hlists
    obtain ⟨rfl, hnone⟩ := List.cons.inj hlists
    refine ⟨rfl, ?_⟩
    rintro q q' rfl hq
    have hq' : lineFeed ∉ q := fun hmem => hrest (List.mem_append_left _ hmem)
    have hrest' : lineFeed ∉ q' := fun hmem => hrest (List.mem_append_right _ hmem)
    cases hparse' : parse numbers q with
    | none => rfl
    | some msg'' =>
      -- a third message would come out of the three chunks
      have hcut' := h.behind haround (p :: q :: (q' ++ [lineFeed]) :: byLine b) (by simp)
      rw [receive_cons (onData_open hp hparse _), receive_cons (onData_open hq' hparse' _),
        receive_cons (onData_line hrest' _), emitted_byLine haround.behind, hl'] at hcut'
      have hlengths := congrArg List.length hcut'
      simp at hlengths
      omega

theorem Unobservable.noneLost {t : Json.Text} (h : Unobservable numbers goesOn t)
    (ht : Terminated t) : NoneLost (readings numbers t) := by
  rintro rest ⟨before, msg, heq, hmsg⟩
  obtain ⟨a, ls, hlines, -, hls⟩ := List.map_eq_append_iff.mp heq
  obtain ⟨k, ls, rfl, hk, hls⟩ := List.map_eq_cons_iff.mp hls
  obtain ⟨l, b, rfl, hl, rfl⟩ := List.map_eq_cons_iff.mp hls
  have haround := Around.of_lines ht hlines
  have hbehind := haround.behind l List.mem_cons_self
  -- the two lines and all behind them in one chunk
  have hcut := h.behind haround [k ++ lineFeed :: (l ++ lineFeed :: (byLine b).flatten)]
    (by simp [byLine])
  have hthrows := onData_throws (t := (byLine b).flatten) haround.line hbehind hk hl hmsg
    (a.filterMap (parse numbers))
  rw [receive, receive, ite_self, hthrows, hk, List.filterMap_cons_none hl] at hcut
  have hnone : b.filterMap (parse numbers) = [] := by
    have hlists := List.append_cancel_left hcut
    rw [Option.toList_some, List.singleton_append] at hlists
    exact (List.cons.inj hlists).2.symm
  intro r hr
  obtain ⟨l', hl', rfl⟩ := List.mem_map.mp hr
  exact List.filterMap_eq_nil_iff.mp hnone l' hl'

end

/-- No chunking is seen exactly when every line is safe to be cut, and nothing is lost to a
report that throws; whether the process goes on after it does not matter. -/
theorem chunking_unobservable_iff (numbers : Json.NumberSystem Num) (goesOn : Bool)
    {t : Json.Text} (ht : Terminated t) :
    (∀ chunks chunks' : List Json.Text, chunks.flatten = t → chunks'.flatten = t →
      (receive numbers goesOn initial chunks).emitted =
        (receive numbers goesOn initial chunks').emitted) ↔
      (∀ l ∈ lines t, CutSafe numbers l) ∧ NoneLost ((lines t).map (parse numbers)) := by
  constructor
  · intro h
    exact ⟨fun l hl => Unobservable.cutSafe h ht hl, Unobservable.noneLost h ht⟩
  · rintro ⟨hsafe, hlost⟩ chunks chunks' h h'
    have hreceive : ∀ cs : List Json.Text, cs.flatten = t →
        (receive numbers goesOn initial cs).emitted = messages numbers t := by
      rintro cs rfl
      obtain ⟨q, heq, -⟩ := receive_safe goesOn cs List.not_mem_nil ⟨ht, hsafe⟩ hlost []
      rw [initial, heq]
      rfl
    rw [hreceive chunks h, hreceive chunks' h']

/-- The text `{}` and its line feed, in any chunks. -/
theorem chunking_unobservable_object :
    Terminated [0x7b, 0x7d, 0x0a] ∧ ∀ chunks chunks' : List Json.Text,
      chunks.flatten = [0x7b, 0x7d, 0x0a] → chunks'.flatten = [0x7b, 0x7d, 0x0a] →
        (receive Json.NumberSystem.literals false initial chunks).emitted =
          (receive Json.NumberSystem.literals false initial chunks').emitted := by
  have hterminated : Terminated [0x7b, 0x7d, 0x0a] := .inr ⟨[0x7b, 0x7d], rfl⟩
  refine ⟨hterminated,
    (chunking_unobservable_iff Json.NumberSystem.literals false hterminated).mpr ⟨?_, ?_⟩⟩
  · intro l hl
    have hsafe := @cutSafe_text _ Json.NumberSystem.literals (.object []) (fun n h => by cases h)
    rw [Json.text] at hsafe
    rw [List.mem_singleton.mp hl]
    exact hsafe
  · rintro rest ⟨before, msg, heq, -⟩
    have hlength := congrArg List.length heq
    have hone : (lines [0x7b, 0x7d, 0x0a]).length = 1 := by decide
    simp [hone] at hlength
    omega

/-- The text `12` and its line feed are one message, and two when cut after the `1`. -/
theorem number_cut_in_two :
    ¬ ∀ t, Terminated t → ∀ chunks chunks' : List Json.Text,
      chunks.flatten = t → chunks'.flatten = t →
        (receive Json.NumberSystem.literals false initial chunks).emitted =
          (receive Json.NumberSystem.literals false initial chunks').emitted := by
  intro h
  have heq := h [0x31, 0x32, 0x0a] (.inr ⟨[0x31, 0x32], rfl⟩) [[0x31, 0x32, 0x0a]]
    [[0x31], [0x32, 0x0a]] rfl rfl
  have hlength := congrArg List.length heq
  exact absurd hlength (by decide)

end JsonDatagramSocket

end AlmondAndroid.App
