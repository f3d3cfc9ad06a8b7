import AlmondAndroid.Storage.RowSet

/-!
# The terms of an OR

For `x1 OR x2 OR ...` SQLite scans the table once for each term, and passes a row to the
body of the loop unless it was passed for an earlier term. The instructions that it emits
number the scans by their terms, except the last, and look up and keep the rowids in one
`RowSet`.
-/

namespace AlmondAndroid.Storage

open Library RowSet

/-- `OP_RowSetTest`, and whether it jumps past the body. -/
def opRowSetTest (chunk : Nat) (memory : Bool) (p : RowSet) (iSet rowid : Int) :
    Option (RowSet × Bool) :=
  (if iSet = 0 then some (p, false) else p.test chunk memory iSet rowid).bind
    fun (p, found) =>
      if found then some (p, true)
      else if 0 ≤ iSet then (p.insert chunk memory rowid).map fun p => (p, false)
      else some (p, false)

/-- The scan of a term: the rows that it finds, and of these those for which the body runs. -/
def scanTerm (chunk : Nat) (memory : Bool) (iSet : Int) :
    RowSet → List Int → Option (RowSet × List Int)
  | p, [] => some (p, [])
  | p, rowid :: rows =>
      (opRowSetTest chunk memory p iSet rowid).bind fun (p, jumps) =>
        (scanTerm chunk memory iSet p rows).map fun (p, passed) =>
          (p, if jumps then passed else rowid :: passed)

/-- `iSet` of the term `ii` of `nTerm`. -/
def setOf (nTerm ii : Nat) : Int := if ii + 1 = nTerm then -1 else ii

/-- The terms from `ii` on; `none` is a term of another table, which is not scanned. -/
def scanTerms (chunk : Nat) (memory : Bool) (nTerm : Nat) :
    Nat → RowSet → List (Option (List Int)) → Option (List Int)
  | _, _, [] => some []
  | ii, p, none :: terms => scanTerms chunk memory nTerm (ii + 1) p terms
  | ii, p, some rows :: terms =>
      (scanTerm chunk memory (setOf nTerm ii) p rows).bind fun (p, passed) =>
        (scanTerms chunk memory nTerm (ii + 1) p terms).map fun rest => passed ++ rest

/-- The rows for which the body of the loop runs. -/
def orRows (chunk n : Nat) (memory : Bool) (terms : List (Option (List Int))) :
    Option (List Int) :=
  scanTerms chunk memory terms.length 0 (RowSet.init n) terms

namespace RowSet.Contents

/-- All that was added. -/
def all (c : Contents) : Set Int := c.earlier ∪ c.current

theorem all_add (c : Contents) (rowid : Int) : (c.add rowid).all = Insert.insert rowid c.all :=
  Set.union_insert

@[simp] theorem all_newBatch (c : Contents) (iBatch : Int) : (c.newBatch iBatch).all = c.all := by
  rw [newBatch]
  split
  · rfl
  · simp [all]

@[simp] theorem newBatch_iBatch (c : Contents) (iBatch : Int) :
    (c.newBatch iBatch).iBatch = iBatch := by
  rw [newBatch]
  split
  · rename_i h
    exact h.symm
  · rfl

theorem newBatch_self {c : Contents} {iBatch : Int} (h : c.iBatch = iBatch) :
    c.newBatch iBatch = c :=
  if_pos h.symm

theorem newBatch_of_ne {c : Contents} {iBatch : Int} (h : c.iBatch ≠ iBatch) :
    (c.newBatch iBatch).earlier = c.all := by
  rw [newBatch, if_neg h.symm]
  rfl

end RowSet.Contents

variable (chunk : Nat)

/-- The set in the middle of the scan of a term: `seen` has the rows of the earlier terms,
and `p` what it has kept of these and of this one. -/
structure Scanning (p : RowSet) (c : Contents) (iSet : Int) (seen : List Int) : Prop where
  represents : Represents p c
  next : p.rsNext = false
  earlier : ∀ x, x ∈ (c.newBatch iSet).earlier ↔ x ∈ seen
  first : iSet = 0 → c.iBatch = 0 ∧ seen = []

/-- The instruction jumps for the rows of the earlier terms, and keeps the others unless the
term is the last. -/
theorem opRowSetTest_spec {p : RowSet} {c : Contents} {iSet : Int} {seen : List Int}
    (h : Scanning p c iSet seen) (hroom : p.entry.length < 2 ^ 40) (rowid : Int) :
    ∃ q d, opRowSetTest chunk true p iSet rowid = some (q, decide (rowid ∈ seen)) ∧
      Scanning q d iSet seen ∧ q.entry.length ≤ p.entry.length + 1 ∧ d.iBatch = iSet ∧
      (0 ≤ iSet → ∀ x, x ∈ d.all ↔ x ∈ c.all ∨ x = rowid ∧ rowid ∉ seen) := by
  have htested : ∃ q found, (if iSet = 0 then some (p, false) else p.test chunk true iSet rowid) =
      some (q, found) ∧ q.rsNext = false ∧ q.entry.length ≤ p.entry.length ∧
      found = decide (rowid ∈ seen) ∧ Represents q (c.newBatch iSet) := by
    split
    · rename_i hzero
      obtain ⟨hbatch, rfl⟩ := h.first hzero
      refine ⟨p, false, rfl, h.next, le_rfl, rfl, ?_⟩
      rw [Contents.newBatch_self (hbatch.trans hzero.symm)]
      exact h.represents
    · obtain ⟨q, found, htest, hnext, hlength, hfound, hrep⟩ :=
        h.represents.test chunk h.next hroom iSet rowid
      refine ⟨q, found, htest, hnext, hlength, ?_, hrep⟩
      rw [h.earlier] at hfound
      cases found with
      | true => exact (decide_eq_true (hfound.mp rfl)).symm
      | false => exact (decide_eq_false fun hmem => by cases hfound.mpr hmem).symm
  obtain ⟨q, found, htest, hnext, hlength, hfound, hrep⟩ := htested
  have hself : (c.newBatch iSet).newBatch iSet = c.newBatch iSet :=
    Contents.newBatch_self (Contents.newBatch_iBatch c iSet)
  have hscanning : Scanning q (c.newBatch iSet) iSet seen :=
    ⟨hrep, hnext, fun x => by rw [hself, h.earlier],
      fun hzero => ⟨(Contents.newBatch_iBatch c iSet).trans hzero, (h.first hzero).2⟩⟩
  rw [opRowSetTest, htest, Option.bind_some, hfound]
  by_cases hseen : rowid ∈ seen
  · refine ⟨q, c.newBatch iSet, by simp [hseen], hscanning, by omega,
      Contents.newBatch_iBatch c iSet, fun _ x => ?_⟩
    simp [hseen]
  · simp only [hseen, decide_false, Bool.false_eq_true, if_false]
    by_cases hset : 0 ≤ iSet
    · obtain ⟨r, hr, hrnext, hrlength⟩ := insert_returns chunk hnext rowid
      have hrep' := hrep.insert chunk hr
      refine ⟨r, _, by rw [if_pos hset, hr, Option.map_some], ⟨hrep', hrnext, fun x => ?_,
        fun hzero => ⟨(Contents.newBatch_iBatch c iSet).trans hzero, (h.first hzero).2⟩⟩,
        by omega, Contents.newBatch_iBatch c iSet, fun _ x => ?_⟩
      · have hadded : ((c.newBatch iSet).add rowid).newBatch iSet = (c.newBatch iSet).add rowid :=
          Contents.newBatch_self (Contents.newBatch_iBatch c iSet)
        rw [hadded]
        exact h.earlier x
      · rw [Contents.all_add, Set.mem_insert_iff, Contents.all_newBatch, or_comm]
        simp
    · exact ⟨q, c.newBatch iSet, by rw [if_neg hset], hscanning, by omega,
        Contents.newBatch_iBatch c iSet, fun h => absurd h hset⟩

theorem scanTerm_spec {iSet : Int} {seen : List Int} (rows : List Int) {p : RowSet}
    {c : Contents} (h : Scanning p c iSet seen) (hroom : p.entry.length + rows.length < 2 ^ 40) :
    ∃ q d, scanTerm chunk true iSet p rows = some (q, rows.removeAll seen) ∧
      Scanning q d iSet seen ∧ q.entry.length ≤ p.entry.length + rows.length ∧
      (d.iBatch = c.iBatch ∨ d.iBatch = iSet) ∧
      (0 ≤ iSet → ∀ x, x ∈ d.all ↔ x ∈ c.all ∨ x ∈ rows ∧ x ∉ seen) := by
  induction rows generalizing p c with
  | nil => exact ⟨p, c, rfl, h, by simp, .inl rfl, by simp⟩
  | cons rowid rows ih =>
    rw [List.length_cons] at hroom
    obtain ⟨q, d, hq, hscanning, hlength, hbatch, hall⟩ :=
      opRowSetTest_spec chunk h (by omega) rowid
    obtain ⟨r, e, hr, hdone, hrlength, hrbatch, hrall⟩ := ih hscanning (by omega)
    refine ⟨r, e, ?_, hdone, by rw [List.length_cons]; omega, ?_, fun hset x => ?_⟩
    · simp only [scanTerm, hq, Option.bind_some, hr, Option.map_some, List.cons_removeAll]
      by_cases hseen : rowid ∈ seen <;> simp [hseen]
    · rw [hbatch] at hrbatch
      exact .inr (or_self_iff.mp hrbatch)
    · rw [hrall hset, hall hset]
      simp only [List.mem_cons]
      grind

/-- Between two terms the set has every row of those before. -/
structure Between (p : RowSet) (c : Contents) (ii : Nat) (seen : List Int) : Prop where
  represents : Represents p c
  next : p.rsNext = false
  all : ∀ x, x ∈ c.all ↔ x ∈ seen
  batch : 0 ≤ c.iBatch ∧ (c.iBatch < ii ∨ c.iBatch = ii ∧ seen = [])

/-- No number of a term is that of the batch before, unless there was none. -/
theorem Between.scanning {p : RowSet} {c : Contents} {ii : Nat} {seen : List Int}
    (h : Between p c ii seen) (nTerm : Nat) : Scanning p c (setOf nTerm ii) seen := by
  obtain ⟨hpos, hbatch⟩ := h.batch
  refine ⟨h.represents, h.next, fun x => ?_, fun hzero => ?_⟩
  · by_cases hsame : c.iBatch = setOf nTerm ii
    · have hseen : seen = [] := by
        rcases hbatch with hlt | ⟨-, hseen⟩
        · rw [setOf] at hsame
          split at hsame <;> omega
        · exact hseen
      have hempty := h.all x
      rw [Contents.newBatch_self hsame, hseen] at *
      exact iff_of_false (fun hx => by simpa using hempty.mp (.inl hx)) (by simp)
    · rw [Contents.newBatch_of_ne hsame, h.all]
  · have hii : ii = 0 := by
      rw [setOf] at hzero
      split at hzero <;> omega
    subst hii
    rcases hbatch with hlt | ⟨hbatch, hseen⟩
    · omega
    · exact ⟨hbatch, hseen⟩

theorem removeAll_removeAll (a b seen : List Int) :
    (b.removeAll seen).removeAll (a.removeAll seen) = b.removeAll (seen ++ a) := by
  simp only [List.removeAll, List.filter_filter]
  refine List.filter_congr fun x _ => ?_
  grind

theorem eraseDups_eq_self {rows : List Int} (h : rows.Nodup) : rows.eraseDups = rows := by
  induction rows with
  | nil => rfl
  | cons a rows ih =>
    obtain ⟨hnot, hrows⟩ := List.nodup_cons.mp h
    have hfilter : (rows.filter fun b => !b == a) = rows := by
      refine List.filter_eq_self.mpr fun b hb => ?_
      have hne : b ≠ a := ne_of_mem_of_not_mem hb hnot
      simpa using hne
    rw [List.eraseDups_cons, hfilter, ih hrows]

theorem scanTerms_spec {nTerm : Nat} (terms : List (Option (List Int))) {ii : Nat}
    (hlast : ii + terms.length = nTerm) (hnodup : ∀ rows, some rows ∈ terms → rows.Nodup)
    {p : RowSet} {c : Contents} {seen : List Int} (h : Between p c ii seen)
    (hroom : p.entry.length + (terms.flatMap (·.getD [])).length < 2 ^ 40) :
    scanTerms chunk true nTerm ii p terms =
      some ((terms.flatMap (·.getD [])).removeAll seen).eraseDups := by
  induction terms generalizing ii p c seen with
  | nil => simp [scanTerms]
  | cons term terms ih =>
    rw [List.length_cons] at hlast
    have hrest : ∀ rows, some rows ∈ terms → rows.Nodup :=
      fun rows hrows => hnodup rows (List.mem_cons_of_mem _ hrows)
    obtain ⟨hpos, hbatch⟩ := h.batch
    cases term with
    | none =>
      exact ih (by omega) hrest ⟨h.represents, h.next, h.all, hpos, .inl (by omega)⟩
        (by simpa using hroom)
    | some rows =>
      rw [List.flatMap_cons, Option.getD_some, List.length_append] at hroom
      obtain ⟨q, d, hq, hscanned, hlength, hdbatch, hall⟩ :=
        scanTerm_spec chunk rows (h.scanning nTerm) (by omega)
      have hsplit : ((some rows :: terms).flatMap (·.getD [])).removeAll seen =
          rows.removeAll seen ++ (terms.flatMap (·.getD [])).removeAll seen := by
        simp [List.removeAll]
      have honce : (rows.removeAll seen).eraseDups = rows.removeAll seen :=
        eraseDups_eq_self ((hnodup rows (List.mem_cons_self ..)).filter _)
      rw [hsplit, List.eraseDups_append, honce, removeAll_removeAll]
      simp only [scanTerms, hq, Option.bind_some]
      cases terms with
      | nil => simp [scanTerms]
      | cons next terms =>
        have hset : setOf nTerm ii = ii := if_neg (by simp at hlast; omega)
        rw [hset] at hdbatch hall
        have hbetween : Between q d (ii + 1) (seen ++ rows) := by
          refine ⟨hscanned.represents, hscanned.next, fun x => ?_, by omega, .inl (by omega)⟩
          rw [hall (by omega), h.all, List.mem_append]
          grind
        rw [ih (by omega) hrest hbetween (by omega), Option.map_some]

/-- Every row that some term finds is passed to the body once, where it is found first. -/
theorem or_rows_once {n : Nat} {terms : List (Option (List Int))}
    (hnodup : ∀ rows, some rows ∈ terms → rows.Nodup)
    (hroom : (terms.flatMap (·.getD [])).length < 2 ^ 40) :
    orRows chunk n true terms = some (terms.flatMap (·.getD [])).eraseDups := by
  have hstart : Between (RowSet.init n) .empty 0 [] :=
    ⟨.init n, rfl, by simp [Contents.all, Contents.empty], by decide, .inr ⟨rfl, rfl⟩⟩
  have h := scanTerms_spec chunk terms (Nat.zero_add _) hnodup hstart
    (by simpa [RowSet.init] using hroom)
  rwa [List.removeAll_nil] at h

/-- Three terms of which one is of another table. -/
theorem or_rows_once_three :
    orRows 63 2 true [some [7, 2], none, some [2, 9, 4], some [4, 7, 1]] =
      some [7, 2, 9, 4, 1] := by
  rw [or_rows_once 63 (by simp) (by decide)]
  decide

end AlmondAndroid.Storage
