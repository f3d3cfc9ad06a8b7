import AlmondAndroid.Library.JsonNumber

/-!
# Texts of JSON data end by themselves

A proper prefix of the text of a tree is no JSON text, unless the tree is a number: whatever
the text is cut in, the reader finds it unfinished.
-/

namespace AlmondAndroid.Library.Json

universe u

variable {Num : Type u}

/-! ## Fuel

What is read is read with more fuel as well. -/

section Fuel

variable {format : NumberFormat Num}

theorem readValue_succ {fuel : Nat} {t : Text} {r : JsonTree Num × Text}
    (helements : ∀ t r, readElements format fuel t = some r →
      readElements format (fuel + 1) t = some r)
    (hmembers : ∀ t r, readMembers format fuel t = some r →
      readMembers format (fuel + 1) t = some r)
    (h : readValue format (fuel + 1) t = some r) : readValue format (fuel + 2) t = some r := by
  cases hskip : skip t with
  | nil =>
    rw [readValue, hskip] at h
    cases h
  | cons c rest =>
    rw [readValue, hskip] at h ⊢
    dsimp only at h ⊢
    by_cases hquote : c = quote
    · rw [if_pos hquote] at h ⊢
      exact h
    rw [if_neg hquote] at h ⊢
    by_cases hbracket : c = openBracket
    · rw [if_pos hbracket] at h ⊢
      cases hrest : skip rest with
      | nil =>
        rw [hrest] at h
        cases h
      | cons d rest' =>
        rw [hrest] at h
        dsimp only at h ⊢
        by_cases hclose : d = closeBracket
        · rw [if_pos hclose] at h ⊢
          exact h
        · rw [if_neg hclose] at h ⊢
          obtain ⟨x, hx, rfl⟩ := Option.map_eq_some_iff.mp h
          rw [helements _ _ hx]
          rfl
    rw [if_neg hbracket] at h ⊢
    by_cases hbrace : c = openBrace
    · rw [if_pos hbrace] at h ⊢
      cases hrest : skip rest with
      | nil =>
        rw [hrest] at h
        cases h
      | cons d rest' =>
        rw [hrest] at h
        dsimp only at h ⊢
        by_cases hclose : d = closeBrace
        · rw [if_pos hclose] at h ⊢
          exact h
        · rw [if_neg hclose] at h ⊢
          obtain ⟨x, hx, rfl⟩ := Option.map_eq_some_iff.mp h
          rw [hmembers _ _ hx]
          rfl
    · rw [if_neg hbrace] at h ⊢
      exact h

theorem readElements_succ {fuel : Nat} {t : Text} {r : List (JsonTree Num) × Text}
    (hvalue : ∀ t r, readValue format fuel t = some r → readValue format (fuel + 1) t = some r)
    (helements : ∀ t r, readElements format fuel t = some r →
      readElements format (fuel + 1) t = some r)
    (h : readElements format (fuel + 1) t = some r) :
    readElements format (fuel + 2) t = some r := by
  rw [readElements] at h ⊢
  obtain ⟨x, hx, h⟩ := Option.bind_eq_some_iff.mp h
  rw [hvalue _ _ hx, Option.bind_some]
  cases hskip : skip x.2 with
  | nil =>
    rw [hskip] at h
    cases h
  | cons c rest =>
    rw [hskip] at h
    dsimp only at h ⊢
    by_cases hclose : c = closeBracket
    · rw [if_pos hclose] at h ⊢
      exact h
    rw [if_neg hclose] at h ⊢
    by_cases hcomma : c = comma
    · rw [if_pos hcomma] at h ⊢
      obtain ⟨xs, hxs, rfl⟩ := Option.map_eq_some_iff.mp h
      rw [helements _ _ hxs]
      rfl
    · rw [if_neg hcomma] at h
      cases h

theorem readMembers_succ {fuel : Nat} {t : Text}
    {r : List (List UInt16 × JsonTree Num) × Text}
    (hvalue : ∀ t r, readValue format fuel t = some r → readValue format (fuel + 1) t = some r)
    (hmembers : ∀ t r, readMembers format fuel t = some r →
      readMembers format (fuel + 1) t = some r)
    (h : readMembers format (fuel + 1) t = some r) :
    readMembers format (fuel + 2) t = some r := by
  cases hskip : skip t with
  | nil =>
    rw [readMembers, hskip] at h
    cases h
  | cons c rest =>
    rw [readMembers, hskip] at h ⊢
    dsimp only at h ⊢
    by_cases hquote : c = quote
    · rw [if_pos hquote] at h ⊢
      obtain ⟨key, hkey, h⟩ := Option.bind_eq_some_iff.mp h
      rw [hkey, Option.bind_some]
      cases hcolon : skip key.2 with
      | nil =>
        rw [hcolon] at h
        cases h
      | cons d rest' =>
        rw [hcolon] at h
        dsimp only at h ⊢
        by_cases hd : d = colon
        · rw [if_pos hd] at h ⊢
          obtain ⟨x, hx, h⟩ := Option.bind_eq_some_iff.mp h
          rw [hvalue _ _ hx, Option.bind_some]
          cases hend : skip x.2 with
          | nil =>
            rw [hend] at h
            cases h
          | cons e more =>
            rw [hend] at h
            dsimp only at h ⊢
            by_cases hclose : e = closeBrace
            · rw [if_pos hclose] at h ⊢
              exact h
            rw [if_neg hclose] at h ⊢
            by_cases hcomma : e = comma
            · rw [if_pos hcomma] at h ⊢
              obtain ⟨xs, hxs, rfl⟩ := Option.map_eq_some_iff.mp h
              rw [hmembers _ _ hxs]
              rfl
            · rw [if_neg hcomma] at h
              cases h
        · rw [if_neg hd] at h
          cases h
    · rw [if_neg hquote] at h
      cases h

theorem read_succ (fuel : Nat) :
    (∀ t r, readValue format fuel t = some r → readValue format (fuel + 1) t = some r) ∧
    (∀ t r, readElements format fuel t = some r → readElements format (fuel + 1) t = some r) ∧
    ∀ t r, readMembers format fuel t = some r → readMembers format (fuel + 1) t = some r := by
  induction fuel with
  | zero =>
    refine ⟨fun t r h => ?_, fun t r h => ?_, fun t r h => ?_⟩
    · cases h
    · cases h
    · cases h
  | succ fuel ih =>
    obtain ⟨hvalue, helements, hmembers⟩ := ih
    exact ⟨fun _ _ => readValue_succ helements hmembers,
      fun _ _ => readElements_succ hvalue helements, fun _ _ => readMembers_succ hvalue hmembers⟩

theorem readValue_mono {fuel more : Nat} (hle : fuel ≤ more) {t : Text}
    {r : JsonTree Num × Text} (h : readValue format fuel t = some r) :
    readValue format more t = some r := by
  induction more, hle using Nat.le_induction with
  | base => exact h
  | succ more _ ih => exact (read_succ more).1 t r ih

/-- Behind the text of a tree, whatever the fuel, nothing else is read than this tree. -/
theorem eq_of_readValue {fuel : Nat} {x : JsonTree Num} {q : Text} {y : JsonTree Num × Text}
    (hq : Delimited q) (h : readValue format fuel (text format x ++ q) = some y) :
    y = (x, q) := by
  have hreads : Reads format x := reads x
  have hlarge := hreads (max fuel (text format x).length) q (le_max_right ..) hq
  rw [readValue_mono (le_max_left ..) h] at hlarge
  exact Option.some.inj hlarge

end Fuel

/-! ## Strings -/

theorem readString_codeUnit_cut {l : Text} (h : l.length < 4) :
    readString (backslash :: letterU :: l) = none := by
  rw [readString.eq_def]
  dsimp only
  rw [if_neg (by decide), if_pos rfl, if_pos rfl]
  split
  · simp at h
    omega
  · rfl

theorem readString_escape_cut (c : UInt16) {q r : Text} (hr : r ≠ []) (h : q ++ r = escape c) :
    readString q = none := by
  have hone : readString [backslash] = none := rfl
  unfold escape at h
  split at h
  · rcases List.append_eq_cons_iff.mp h with ⟨rfl, -⟩ | ⟨q, rfl, hq⟩
    · rfl
    · rcases List.append_eq_cons_iff.mp hq.symm with ⟨rfl, -⟩ | ⟨q, rfl, hnil⟩
      · exact hone
      · exact absurd (List.append_eq_nil_iff.mp hnil.symm).2 hr
  · split at h
    · rcases List.append_eq_cons_iff.mp h with ⟨rfl, -⟩ | ⟨q, rfl, hq⟩
      · rfl
      · rcases List.append_eq_cons_iff.mp hq.symm with ⟨rfl, -⟩ | ⟨q, rfl, hmore⟩
        · exact hone
        · have hlength := congrArg List.length hmore
          have hpos := List.length_pos_iff.mpr hr
          rw [List.length_append] at hlength
          apply readString_codeUnit_cut
          simp only [List.length_cons, List.length_nil] at hlength
          omega
    · rcases List.append_eq_cons_iff.mp h with ⟨rfl, -⟩ | ⟨q, rfl, hnil⟩
      · rfl
      · exact absurd (List.append_eq_nil_iff.mp hnil.symm).2 hr

theorem readString_cut (s : List UInt16) : ∀ {q r : Text}, r ≠ [] →
    q ++ r = s.flatMap escape ++ [quote] → readString q = none := by
  induction s with
  | nil =>
    intro q r hr h
    rcases List.append_eq_cons_iff.mp h with ⟨rfl, -⟩ | ⟨q, rfl, hnil⟩
    · rfl
    · exact absurd (List.append_eq_nil_iff.mp hnil.symm).2 hr
  | cons c s ih =>
    intro q r hr h
    rw [List.flatMap_cons, List.append_assoc] at h
    rcases List.append_eq_append_iff.mp h with ⟨a, ha, rfl⟩ | ⟨a, rfl, ha⟩
    · by_cases hnil : a = []
      · rw [hnil, List.append_nil] at ha
        have hrest := ih (q := []) (List.append_ne_nil_of_right_ne_nil _ (List.cons_ne_nil _ _)) rfl
        rw [← ha, ← List.append_nil (escape c), readString_escape, hrest]
        rfl
      · exact readString_escape_cut c hnil ha.symm
    · rw [readString_escape, ih hr ha.symm]
      rfl

theorem expect_cut {literal p : Text} (h : p.length < literal.length) :
    expect literal p = none := by
  rw [expect, if_neg]
  intro hprefix
  have hle := (List.isPrefixOf_iff_prefix.mp hprefix).length_le
  omega

/-! ## Trees -/

section Cut

variable (numbers : NumberSystem Num)

def Stuck (o : Option (JsonTree Num × Text)) : Prop :=
  ∀ x, o = some x → ∀ c ∈ (skip x.2).head?, ¬ IsDelimiter c

theorem stuck_none : Stuck (none : Option (JsonTree Num × Text)) := by
  intro x hx
  cases hx

/-- From a proper prefix of the text of this tree, no reader goes on. -/
def IsCut (x : JsonTree Num) : Prop :=
  ∀ fuel p r, r ≠ [] → p ++ r = text numbers.format x →
    Stuck (readValue numbers.format fuel p)

variable {numbers}

theorem readValue_nil (fuel : Nat) : readValue numbers.format fuel [] = none := by
  cases fuel with
  | zero => rfl
  | succ fuel => rfl

theorem value_cut {x : JsonTree Num} (hx : IsCut numbers x) (fuel : Nat) {p r tail : Text}
    (htail : Delimited tail) (hr : r ≠ []) (h : p ++ r = text numbers.format x ++ tail) :
    Stuck (readValue numbers.format fuel p) ∨ ∃ q, q ++ r = tail ∧
      ∀ y, readValue numbers.format fuel p = some y → y = (x, q) := by
  rcases List.append_eq_append_iff.mp h with ⟨a, ha, rfl⟩ | ⟨q, rfl, hq⟩
  · by_cases hnil : a = []
    · rw [hnil, List.append_nil] at ha
      refine .inr ⟨[], by rw [hnil]; rfl, fun y hy => ?_⟩
      rw [← ha, ← List.append_nil (text numbers.format x)] at hy
      exact eq_of_readValue delimited_nil hy
    · exact .inl (hx fuel p a hnil ha.symm)
  · refine .inr ⟨q, hq.symm, fun y hy => eq_of_readValue (fun c hc => ?_) hy⟩
    refine htail c ?_
    cases q with
    | nil => cases hc
    | cons d q =>
      rw [hq]
      exact hc

theorem elementsText_delimited (xs : List (JsonTree Num)) :
    Delimited (elementsText numbers.format xs) := by
  cases xs with
  | nil =>
    rw [elementsText]
    exact .cons (.inr (.inl rfl)) _
  | cons x xs =>
    rw [elementsText, List.cons_append]
    exact .cons (.inl rfl) _

theorem membersText_delimited (members : List (List UInt16 × JsonTree Num)) :
    Delimited (membersText numbers.format members) := by
  cases members with
  | nil =>
    rw [membersText]
    exact .cons (.inr (.inr rfl)) _
  | cons m members =>
    rw [membersText_cons]
    exact .cons (.inl rfl) _

theorem readElements_of_stuck {fuel : Nat} {p : Text}
    (h : Stuck (readValue numbers.format fuel p)) :
    readElements numbers.format (fuel + 1) p = none := by
  rw [readElements]
  cases hread : readValue numbers.format fuel p with
  | none => rfl
  | some y =>
    rw [Option.bind_some]
    cases hskip : skip y.2 with
    | nil => rfl
    | cons c rest =>
      have hc := h y hread c (by rw [hskip]; rfl)
      dsimp only
      rw [if_neg fun hclose => hc (.inr (.inl hclose)), if_neg fun hcomma => hc (.inl hcomma)]

theorem readElements_cut (xs : List (JsonTree Num)) : ∀ {x : JsonTree Num}, IsCut numbers x →
    (∀ y ∈ xs, IsCut numbers y) → ∀ fuel p r, r ≠ [] →
      p ++ r = text numbers.format x ++ elementsText numbers.format xs →
      readElements numbers.format fuel p = none := by
  induction xs with
  | nil =>
    intro x hx _ fuel p r hr h
    cases fuel with
    | zero => rfl
    | succ fuel =>
      rcases value_cut hx fuel (elementsText_delimited []) hr h with hstuck | ⟨q, hq, heq⟩
      · exact readElements_of_stuck hstuck
      · rw [readElements]
        cases hread : readValue numbers.format fuel p with
        | none => rfl
        | some y =>
          rw [Option.bind_some, heq y hread]
          rw [elementsText] at hq
          rcases List.append_eq_cons_iff.mp hq with ⟨rfl, -⟩ | ⟨q, rfl, hnil⟩
          · rfl
          · exact absurd (List.append_eq_nil_iff.mp hnil.symm).2 hr
  | cons z xs ih =>
    intro x hx hxs fuel p r hr h
    cases fuel with
    | zero => rfl
    | succ fuel =>
      rcases value_cut hx fuel (elementsText_delimited _) hr h with hstuck | ⟨q, hq, heq⟩
      · exact readElements_of_stuck hstuck
      · rw [readElements]
        cases hread : readValue numbers.format fuel p with
        | none => rfl
        | some y =>
          rw [Option.bind_some, heq y hread]
          rw [elementsText, List.cons_append] at hq
          rcases List.append_eq_cons_iff.mp hq with ⟨rfl, -⟩ | ⟨q, rfl, hmore⟩
          · rfl
          · have hrest := ih (hxs z List.mem_cons_self)
              (fun y hy => hxs y (List.mem_cons_of_mem _ hy)) fuel q r hr hmore.symm
            dsimp only
            rw [skip_cons (by decide)]
            dsimp only
            rw [if_neg (by decide), if_pos rfl, hrest]
            rfl

theorem string_cut {s : List UInt16} {q r tail : Text} (hr : r ≠ [])
    (h : q ++ r = s.flatMap escape ++ quote :: tail) :
    readString q = none ∨ ∃ q', q' ++ r = tail ∧ readString q = some (s, q') := by
  rw [← List.singleton_append, ← List.append_assoc] at h
  rcases List.append_eq_append_iff.mp h with ⟨a, ha, rfl⟩ | ⟨q', rfl, hq⟩
  · by_cases hnil : a = []
    · rw [hnil, List.append_nil] at ha
      refine .inr ⟨[], by rw [hnil]; rfl, ?_⟩
      rw [← ha]
      exact readString_flatMap s []
    · exact .inl (readString_cut s hnil ha.symm)
  · refine .inr ⟨q', hq.symm, ?_⟩
    rw [List.append_assoc]
    exact readString_flatMap s q'

/-- A member that is cut before its value is not read; after its key it is as far as its
value is. -/
theorem readMembers_key_cut {m : List UInt16 × JsonTree Num} (fuel : Nat) {p r tail : Text}
    (hr : r ≠ []) (h : p ++ r = memberText numbers.format m ++ tail) :
    readMembers numbers.format (fuel + 1) p = none ∨
      ∃ q, q ++ r = text numbers.format m.2 ++ tail ∧
        readMembers numbers.format (fuel + 1) p =
          (readValue numbers.format fuel q).bind fun x =>
            match skip x.2 with
            | [] => none
            | c :: rest =>
                if c = closeBrace then some ([(m.1, x.1)], rest)
                else if c = comma then
                  (readMembers numbers.format fuel rest).map fun r => ((m.1, x.1) :: r.1, r.2)
                else none := by
  rw [memberText, List.append_assoc, stringText_append] at h
  rcases List.append_eq_cons_iff.mp h with ⟨rfl, -⟩ | ⟨q, rfl, hq⟩
  · exact .inl rfl
  · rcases string_cut hr hq.symm with hnone | ⟨q', hq', hread⟩
    · left
      rw [readMembers, skip_cons (by decide)]
      dsimp only
      rw [if_pos rfl, hnone]
      rfl
    · rw [readMembers, skip_cons (by decide)]
      dsimp only
      rw [if_pos rfl, hread, Option.bind_some]
      rw [List.cons_append] at hq'
      rcases List.append_eq_cons_iff.mp hq' with ⟨rfl, -⟩ | ⟨q, rfl, hvalue⟩
      · exact .inl rfl
      · right
        refine ⟨q, hvalue.symm, ?_⟩
        dsimp only
        rw [skip_cons (by decide)]
        refine (if_pos rfl).trans ?_
        rfl

theorem memberEnd_of_stuck {m : List UInt16 × JsonTree Num} {fuel : Nat} {t : Text}
    (h : ∀ c ∈ (skip t).head?, ¬ IsDelimiter c) :
    (match skip t with
      | [] => none
      | c :: rest =>
          if c = closeBrace then some ([m], rest)
          else if c = comma then
            (readMembers numbers.format fuel rest).map fun r => (m :: r.1, r.2)
          else none) = none := by
  cases hskip : skip t with
  | nil => rfl
  | cons c rest =>
    have hc := h c (by rw [hskip]; rfl)
    dsimp only
    rw [if_neg fun hclose => hc (.inr (.inr hclose)), if_neg fun hcomma => hc (.inl hcomma)]

theorem readMembers_cut (members : List (List UInt16 × JsonTree Num)) :
    ∀ {m : List UInt16 × JsonTree Num}, IsCut numbers m.2 →
      (∀ n ∈ members, IsCut numbers n.2) → ∀ fuel p r, r ≠ [] →
      p ++ r = memberText numbers.format m ++ membersText numbers.format members →
      readMembers numbers.format fuel p = none := by
  induction members with
  | nil =>
    intro m hm _ fuel p r hr h
    cases fuel with
    | zero => rfl
    | succ fuel =>
      rcases readMembers_key_cut fuel hr h with hnone | ⟨q, hq, heq⟩
      · exact hnone
      · rw [heq]
        cases hread : readValue numbers.format fuel q with
        | none => rfl
        | some y =>
          rw [Option.bind_some]
          rcases value_cut hm fuel (membersText_delimited []) hr hq with
            hstuck | ⟨q', hq', heq'⟩
          · exact memberEnd_of_stuck (hstuck y hread)
          · rw [heq' y hread]
            rw [membersText] at hq'
            rcases List.append_eq_cons_iff.mp hq' with ⟨rfl, -⟩ | ⟨q', rfl, hnil⟩
            · rfl
            · exact absurd (List.append_eq_nil_iff.mp hnil.symm).2 hr
  | cons n members ih =>
    intro m hm hmembers fuel p r hr h
    cases fuel with
    | zero => rfl
    | succ fuel =>
      rcases readMembers_key_cut fuel hr h with hnone | ⟨q, hq, heq⟩
      · exact hnone
      · rw [heq]
        cases hread : readValue numbers.format fuel q with
        | none => rfl
        | some y =>
          rw [Option.bind_some]
          rcases value_cut hm fuel (membersText_delimited _) hr hq with
            hstuck | ⟨q', hq', heq'⟩
          · exact memberEnd_of_stuck (hstuck y hread)
          · rw [heq' y hread]
            rw [membersText_cons] at hq'
            rcases List.append_eq_cons_iff.mp hq' with ⟨rfl, -⟩ | ⟨q', rfl, hmore⟩
            · rfl
            · have hrest := ih (hmembers n List.mem_cons_self)
                (fun k hk => hmembers k (List.mem_cons_of_mem _ hk)) fuel q' r hr hmore.symm
              dsimp only
              rw [skip_cons (by decide)]
              dsimp only
              rw [if_neg (by decide), if_pos rfl, hrest]
              rfl

/-! One lemma for each kind of tree. -/

/-- No proper prefix of the text of this tree is read at all. -/
def NeverReads (numbers : NumberSystem Num) (x : JsonTree Num) : Prop :=
  ∀ fuel p r, r ≠ [] → p ++ r = text numbers.format x →
    readValue numbers.format fuel p = none

theorem NeverReads.isCut {x : JsonTree Num} (h : NeverReads numbers x) : IsCut numbers x := by
  intro fuel p r hr heq
  rw [h fuel p r hr heq]
  exact stuck_none

theorem neverReads_of_cons {x : JsonTree Num} {c : UInt16} {rest : Text}
    (htext : text numbers.format x = c :: rest)
    (h : ∀ fuel q r, r ≠ [] → q ++ r = rest →
      readValue numbers.format (fuel + 1) (c :: q) = none) : NeverReads numbers x := by
  intro fuel p r hr heq
  rw [htext] at heq
  rcases List.append_eq_cons_iff.mp heq with ⟨rfl, -⟩ | ⟨q, rfl, hq⟩
  · exact readValue_nil fuel
  · cases fuel with
    | zero => rfl
    | succ fuel => exact h fuel q r hr hq.symm

theorem neverReads_of_pair {x : JsonTree Num} {c d : UInt16}
    (htext : text numbers.format x = [c, d])
    (h : ∀ fuel, readValue numbers.format (fuel + 1) [c] = none) : NeverReads numbers x := by
  refine neverReads_of_cons htext fun fuel q r hr hq => ?_
  rcases List.append_eq_cons_iff.mp hq with ⟨rfl, -⟩ | ⟨q, rfl, hnil⟩
  · exact h fuel
  · exact absurd (List.append_eq_nil_iff.mp hnil.symm).2 hr

theorem cut_lt_length {q r rest : Text} (hr : r ≠ []) (h : q ++ r = rest) :
    q.length < rest.length := by
  have hpos := List.length_pos_iff.mpr hr
  rw [← h, List.length_append]
  omega

theorem neverReads_null : NeverReads numbers .null := by
  refine neverReads_of_cons (by rw [text, nullText]) fun fuel q r hr h => ?_
  have hexpect : expect nullText (0x6e :: q) = none :=
    expect_cut (Nat.succ_lt_succ (cut_lt_length hr h))
  rw [readValue, skip_cons (by decide)]
  dsimp only
  rw [if_neg (by decide), if_neg (by decide), if_neg (by decide), if_pos rfl,
    hexpect]
  rfl

theorem neverReads_boolean (b : Bool) : NeverReads numbers (.boolean b) := by
  cases b with
  | true =>
    refine neverReads_of_cons (by rw [text, trueText]) fun fuel q r hr h => ?_
    have hexpect : expect trueText (0x74 :: q) = none :=
      expect_cut (Nat.succ_lt_succ (cut_lt_length hr h))
    rw [readValue, skip_cons (by decide)]
    dsimp only
    rw [if_neg (by decide), if_neg (by decide), if_neg (by decide), if_neg (by decide),
      if_pos rfl, hexpect]
    rfl
  | false =>
    refine neverReads_of_cons (by rw [text, falseText]) fun fuel q r hr h => ?_
    have hexpect : expect falseText (0x66 :: q) = none :=
      expect_cut (Nat.succ_lt_succ (cut_lt_length hr h))
    rw [readValue, skip_cons (by decide)]
    dsimp only
    rw [if_neg (by decide), if_neg (by decide), if_neg (by decide), if_neg (by decide),
      if_neg (by decide), if_pos rfl, hexpect]
    rfl

theorem neverReads_string (s : List UInt16) : NeverReads numbers (.string s) := by
  refine neverReads_of_cons (by rw [text, stringText, List.cons_append]) fun fuel q r hr h => ?_
  rw [readValue, skip_cons (by decide)]
  dsimp only
  rw [if_pos rfl, readString_cut s hr h]
  rfl

theorem neverReads_array {xs : List (JsonTree Num)} (hxs : ∀ x ∈ xs, IsCut numbers x) :
    NeverReads numbers (.array xs) := by
  cases xs with
  | nil =>
    refine neverReads_of_pair (by rw [text]) fun fuel => ?_
    rw [readValue, skip_cons (by decide)]
    rfl
  | cons x xs =>
    refine neverReads_of_cons (by rw [text, List.cons_append]) fun fuel q r hr h => ?_
    have hrest := readElements_cut xs (hxs x List.mem_cons_self)
      (fun y hy => hxs y (List.mem_cons_of_mem _ hy)) fuel q r hr h
    obtain ⟨c, more, htext, hspace, hclose⟩ := text_eq_cons numbers.format x
    rw [htext, List.cons_append] at h
    rw [readValue, skip_cons (by decide)]
    dsimp only
    rw [if_neg (by decide), if_pos rfl]
    rcases List.append_eq_cons_iff.mp h with ⟨rfl, -⟩ | ⟨q, rfl, -⟩
    · rfl
    · rw [skip_cons hspace]
      dsimp only
      rw [if_neg hclose, hrest]
      rfl

theorem neverReads_object {members : List (List UInt16 × JsonTree Num)}
    (hmembers : ∀ m ∈ members, IsCut numbers m.2) : NeverReads numbers (.object members) := by
  cases members with
  | nil =>
    refine neverReads_of_pair (by rw [text]) fun fuel => ?_
    rw [readValue, skip_cons (by decide)]
    rfl
  | cons m members =>
    have htext : text numbers.format (.object (m :: members)) =
        openBrace :: (memberText numbers.format m ++ membersText numbers.format members) := by
      rw [text, memberText, List.cons_append, List.cons_append]
    refine neverReads_of_cons htext fun fuel q r hr h => ?_
    have hrest := readMembers_cut members (hmembers m List.mem_cons_self)
      (fun n hn => hmembers n (List.mem_cons_of_mem _ hn)) fuel q r hr h
    rw [memberText, List.append_assoc, stringText_append] at h
    rw [readValue, skip_cons (by decide)]
    dsimp only
    rw [if_neg (by decide), if_neg (by decide), if_pos rfl]
    rcases List.append_eq_cons_iff.mp h with ⟨rfl, -⟩ | ⟨q, rfl, -⟩
    · rfl
    · rw [skip_cons (by decide)]
      dsimp only
      rw [if_neg (by decide), hrest]
      rfl

/-- Of a number that is cut, what is left over belongs to numbers and not to arrays. -/
theorem isCut_number (n : Num) : IsCut numbers (.number n) := by
  intro fuel p r hr h y hy
  rw [text] at h
  cases p with
  | nil =>
    rw [readValue_nil] at hy
    cases hy
  | cons c p =>
    obtain ⟨d, more, htext, hstart⟩ := numbers.text_start n
    have hchars : ∀ x ∈ c :: p, isNumberChar x = true := by
      intro x hx
      apply numbers.isNumberChar_of_mem_text
      change x ∈ numbers.format.text n
      rw [← h]
      exact List.mem_append_left _ hx
    have hc : c = d := by
      have hcons : c :: p ++ r = d :: more := h.trans htext
      exact (List.cons.inj hcons).1
    subst hc
    have hstarts := hstart.starts
    cases fuel with
    | zero => cases hy
    | succ fuel =>
      rw [readValue, skip_cons hstarts.whiteSpace] at hy
      dsimp only at hy
      rw [if_neg hstarts.quote, if_neg hstarts.openBracket, if_neg hstarts.openBrace,
        if_neg hstarts.letters.1, if_neg hstarts.letters.2.1, if_neg hstarts.letters.2.2] at hy
      obtain ⟨v, hv, rfl⟩ := Option.map_eq_some_iff.mp hy
      obtain ⟨lit, hlit, rfl⟩ := Option.map_eq_some_iff.mp hv
      intro e he hdelimiter
      have hsplit := (readLiteral_readAs hlit).split
      have hmem : e ∈ c :: p := by
        rw [← hsplit]
        exact List.mem_append_right _ (List.dropWhile_subset _ (List.mem_of_mem_head? he))
      cases (NumberSystem.isNumberChar_of_isDelimiter hdelimiter).symm.trans (hchars e hmem)

end Cut

theorem isCut (numbers : NumberSystem Num) (x : JsonTree Num) : IsCut numbers x := by
  match x with
  | .null => exact neverReads_null.isCut
  | .boolean b => exact (neverReads_boolean b).isCut
  | .number n => exact isCut_number n
  | .string s => exact (neverReads_string s).isCut
  | .array xs => exact (neverReads_array fun y _ => isCut numbers y).isCut
  | .object members => exact (neverReads_object fun m _ => isCut numbers m.2).isCut
termination_by sizeOf x
decreasing_by
  · exact sizeOf_element_lt ‹y ∈ xs›
  · exact sizeOf_value_lt ‹m ∈ members›

/-- A proper prefix of the text of a tree is no JSON text, unless the tree is a number. -/
theorem read_cut (numbers : NumberSystem Num) {x : JsonTree Num} (hx : ∀ n, x ≠ .number n)
    {p r : Text} (hr : r ≠ []) (h : p ++ r = text numbers.format x) :
    read numbers.format p = none := by
  have hnever : NeverReads numbers x := by
    cases x with
    | null => exact neverReads_null
    | boolean b => exact neverReads_boolean b
    | number n => exact absurd rfl (hx n)
    | string s => exact neverReads_string s
    | array xs => exact neverReads_array fun y _ => isCut numbers y
    | object members => exact neverReads_object fun m _ => isCut numbers m.2
  rw [read, hnever _ p r hr h]

/-! ## No control characters -/

def IsControl (c : UInt16) : Prop := c.toNat < 32

instance : DecidablePred IsControl := fun c => inferInstanceAs (Decidable (c.toNat < 32))

theorem escape_not_control (c : UInt16) : ∀ d ∈ escape c, ¬ IsControl d := by
  have hshort : ∀ e ∈ shortEscapes, ¬ IsControl e.1 := by
    have hall : (shortEscapes.all fun e => ¬ IsControl e.1) = true := by decide
    exact fun e he => of_decide_eq_true (List.all_eq_true.mp hall e he)
  have hdigits : ∀ n : Fin 32, ¬ IsControl (hexDigit (n.val / 16)) ∧
      ¬ IsControl (hexDigit (n.val % 16)) := by
    unfold IsControl
    decide
  intro d hd
  unfold escape at hd
  split at hd
  · rename_i letter hletter
    obtain ⟨e, he, rfl⟩ := Option.map_eq_some_iff.mp hletter
    rcases List.mem_cons.mp hd with rfl | hd
    · exact Nat.not_lt.mpr (by decide)
    · rw [List.mem_singleton.mp hd]
      exact hshort e (List.mem_of_find?_eq_some he)
  · split at hd
    · rename_i hlt
      obtain ⟨hhigh, hlow⟩ := hdigits ⟨c.toNat, hlt⟩
      simp only [List.mem_cons, List.not_mem_nil, or_false] at hd
      rcases hd with rfl | rfl | rfl | rfl | rfl | rfl
      · exact Nat.not_lt.mpr (by decide)
      · exact Nat.not_lt.mpr (by decide)
      · exact Nat.not_lt.mpr (by decide)
      · exact Nat.not_lt.mpr (by decide)
      · exact hhigh
      · exact hlow
    · rename_i hge
      rw [List.mem_singleton.mp hd]
      exact hge

theorem stringText_not_control (s : List UInt16) : ∀ d ∈ stringText s, ¬ IsControl d := by
  have hquote : ¬ IsControl quote := Nat.not_lt.mpr (by decide)
  intro d hd
  rcases List.mem_append.mp hd with hd | hd
  · rcases List.mem_cons.mp hd with rfl | hd
    · exact hquote
    · obtain ⟨c, -, hd⟩ := List.mem_flatMap.mp hd
      exact escape_not_control c d hd
  · rw [List.mem_singleton.mp hd]
    exact hquote

theorem isNumberChar_not_control {c : UInt16} (h : isNumberChar c = true) : ¬ IsControl c := by
  unfold isNumberChar at h
  simp only [Bool.or_eq_true, decide_eq_true_eq] at h
  rcases h with ((h | h) | h) | rfl
  · have hlow := (Bool.and_eq_true_iff.mp h).1
    have hle : (0x30 : UInt16).toNat ≤ c.toNat := UInt16.le_iff_toNat_le.mp (of_decide_eq_true hlow)
    exact Nat.not_lt.mpr (Nat.le_trans (by decide) hle)
  · simp only [isExponent, Bool.or_eq_true, decide_eq_true_eq] at h
    rcases h with rfl | rfl
    · exact Nat.not_lt.mpr (by decide)
    · exact Nat.not_lt.mpr (by decide)
  · simp only [isSign, Bool.or_eq_true, decide_eq_true_eq] at h
    rcases h with rfl | rfl
    · exact Nat.not_lt.mpr (by decide)
    · exact Nat.not_lt.mpr (by decide)
  · exact Nat.not_lt.mpr (by decide)

section Control

variable {numbers : NumberSystem Num}

theorem elementsText_not_control (xs : List (JsonTree Num))
    (hxs : ∀ x ∈ xs, ∀ d ∈ text numbers.format x, ¬ IsControl d) :
    ∀ d ∈ elementsText numbers.format xs, ¬ IsControl d := by
  induction xs with
  | nil =>
    intro d hd
    rw [elementsText] at hd
    rw [List.mem_singleton.mp hd]
    exact Nat.not_lt.mpr (by decide)
  | cons x xs ih =>
    intro d hd
    rw [elementsText, List.cons_append] at hd
    rcases List.mem_cons.mp hd with rfl | hd
    · exact Nat.not_lt.mpr (by decide)
    · rcases List.mem_append.mp hd with hd | hd
      · exact hxs x List.mem_cons_self d hd
      · exact ih (fun y hy => hxs y (List.mem_cons_of_mem _ hy)) d hd

theorem memberText_not_control {m : List UInt16 × JsonTree Num}
    (hm : ∀ d ∈ text numbers.format m.2, ¬ IsControl d) :
    ∀ d ∈ memberText numbers.format m, ¬ IsControl d := by
  intro d hd
  rcases List.mem_append.mp hd with hd | hd
  · exact stringText_not_control m.1 d hd
  · rcases List.mem_cons.mp hd with rfl | hd
    · exact Nat.not_lt.mpr (by decide)
    · exact hm d hd

theorem membersText_not_control (members : List (List UInt16 × JsonTree Num))
    (hmembers : ∀ m ∈ members, ∀ d ∈ text numbers.format m.2, ¬ IsControl d) :
    ∀ d ∈ membersText numbers.format members, ¬ IsControl d := by
  induction members with
  | nil =>
    intro d hd
    rw [membersText] at hd
    rw [List.mem_singleton.mp hd]
    exact Nat.not_lt.mpr (by decide)
  | cons m members ih =>
    intro d hd
    rw [membersText_cons] at hd
    rcases List.mem_cons.mp hd with rfl | hd
    · exact Nat.not_lt.mpr (by decide)
    · rcases List.mem_append.mp hd with hd | hd
      · exact memberText_not_control (hmembers m List.mem_cons_self) d hd
      · exact ih (fun n hn => hmembers n (List.mem_cons_of_mem _ hn)) d hd

end Control

theorem keyword_not_control {c : UInt16} (h : c ∈ nullText ++ trueText ++ falseText) :
    ¬ IsControl c := by
  have hall : ((nullText ++ trueText ++ falseText).all fun c => ¬ IsControl c) = true := by
    decide
  exact of_decide_eq_true (List.all_eq_true.mp hall c h)

theorem brackets_not_control {c : UInt16}
    (h : c ∈ [openBracket, closeBracket, openBrace, closeBrace]) : ¬ IsControl c := by
  have hall : ([openBracket, closeBracket, openBrace, closeBrace].all
      fun c => ¬ IsControl c) = true := by decide
  exact of_decide_eq_true (List.all_eq_true.mp hall c h)

theorem text_not_control (numbers : NumberSystem Num) (x : JsonTree Num) :
    ∀ d ∈ text numbers.format x, ¬ IsControl d := by
  intro d hd
  match x with
  | .null =>
    rw [text] at hd
    exact keyword_not_control (by simp [hd])
  | .boolean true =>
    rw [text] at hd
    exact keyword_not_control (by simp [hd])
  | .boolean false =>
    rw [text] at hd
    exact keyword_not_control (by simp [hd])
  | .number n =>
    rw [text] at hd
    exact isNumberChar_not_control (numbers.isNumberChar_of_mem_text hd)
  | .string s =>
    rw [text] at hd
    exact stringText_not_control s d hd
  | .array [] =>
    rw [text] at hd
    exact brackets_not_control (by simp at hd ⊢; tauto)
  | .array (y :: ys) =>
    rw [text, List.cons_append] at hd
    rcases List.mem_cons.mp hd with rfl | hd
    · exact brackets_not_control (by simp)
    · rcases List.mem_append.mp hd with hd | hd
      · exact text_not_control numbers y d hd
      · exact elementsText_not_control ys (fun z _ => text_not_control numbers z) d hd
  | .object [] =>
    rw [text] at hd
    exact brackets_not_control (by simp at hd ⊢; tauto)
  | .object (m :: members) =>
    have htext : text numbers.format (.object (m :: members)) =
        openBrace :: (memberText numbers.format m ++ membersText numbers.format members) := by
      rw [text, memberText, List.cons_append, List.cons_append]
    rw [htext] at hd
    rcases List.mem_cons.mp hd with rfl | hd
    · exact brackets_not_control (by simp)
    · rcases List.mem_append.mp hd with hd | hd
      · exact memberText_not_control (text_not_control numbers m.2) d hd
      · exact membersText_not_control members (fun n _ => text_not_control numbers n.2) d hd
termination_by sizeOf x
decreasing_by
  · exact sizeOf_element_lt List.mem_cons_self
  · exact sizeOf_element_lt (List.mem_cons_of_mem _ ‹_›)
  · exact sizeOf_value_lt List.mem_cons_self
  · exact sizeOf_value_lt (List.mem_cons_of_mem _ ‹_›)

end AlmondAndroid.Library.Json
