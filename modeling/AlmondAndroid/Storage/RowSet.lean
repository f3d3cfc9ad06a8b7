import AlmondAndroid.Library.Carry
import AlmondAndroid.Library.Machine
import AlmondAndroid.Library.SearchTree

/-!
# Sets of rowids

SQLite collects the rowids of a statement in a `RowSet`: a list to which they are added,
sorted by merging into forty buckets, and a forest of search trees in which the rowids of
the earlier batches are looked up. Each tree of the forest takes the place of those before
it, as the buckets do.
-/

namespace AlmondAndroid.Storage

open Library

/-- Entries connected by `pRight`, in order. -/
abbrev EntryList := List Int

abbrev EntryTree := BinaryTree Int

def rowSetEntryMerge : EntryList → EntryList → EntryList
  | [], b => b
  | x :: a, [] => x :: a
  | x :: a, y :: b =>
      if x < y then x :: rowSetEntryMerge a (y :: b)
      else if y < x then y :: rowSetEntryMerge (x :: a) b
      else rowSetEntryMerge a (y :: b)
termination_by a b => a.length + b.length

/-- `aBucket`. -/
abbrev Buckets := List (Option EntryList)

/-- `none` is a bucket past the end of the array. -/
def placeInBuckets (buckets : Buckets) (v : Int) : Option Buckets :=
  match Carry.carry rowSetEntryMerge id buckets [v] with
  | (buckets, none) => some buckets
  | (_, some _) => none

def rowSetEntrySort (list : EntryList) : Option EntryList :=
  (list.foldlM placeInBuckets (List.replicate 40 none)).map fun buckets =>
    buckets.foldl (fun list bucket => rowSetEntryMerge list (bucket.getD [])) []

/-- The order in which the lists are kept: no rowid comes twice. -/
abbrev Ascending (list : EntryList) : Prop := list.Pairwise (· < ·)

theorem mem_rowSetEntryMerge {x : Int} (a b : EntryList) :
    x ∈ rowSetEntryMerge a b ↔ x ∈ a ∨ x ∈ b := by
  induction a, b using rowSetEntryMerge.induct with
  | case1 b => simp [rowSetEntryMerge]
  | case2 y a => simp [rowSetEntryMerge]
  | case3 y a z b hlt ih => simp [rowSetEntryMerge, hlt, ih, or_assoc]
  | case4 y a z b hlt hgt ih =>
    rw [rowSetEntryMerge, if_neg hlt, if_pos hgt, List.mem_cons, ih, List.mem_cons (l := b)]
    exact or_left_comm
  | case5 y a z b hlt hgt ih =>
    have heq : y = z := by omega
    rw [rowSetEntryMerge, if_neg hlt, if_neg hgt, ih, heq]
    grind

theorem rowSetEntryMerge_ascending (a b : EntryList) :
    Ascending a → Ascending b → Ascending (rowSetEntryMerge a b) := by
  induction a, b using rowSetEntryMerge.induct with
  | case1 b =>
    intro _ hb
    rwa [rowSetEntryMerge]
  | case2 y a =>
    intro ha _
    rwa [rowSetEntryMerge]
  | case3 y a z b hlt ih =>
    intro ha hb
    obtain ⟨hy, ha⟩ := List.pairwise_cons.mp ha
    rw [rowSetEntryMerge, if_pos hlt]
    refine List.pairwise_cons.mpr ⟨fun w hw => ?_, ih ha hb⟩
    rcases (mem_rowSetEntryMerge _ _).mp hw with hw | hw
    · exact hy w hw
    · rcases List.mem_cons.mp hw with rfl | hw
      · exact hlt
      · exact hlt.trans ((List.pairwise_cons.mp hb).1 w hw)
  | case4 y a z b hlt hgt ih =>
    intro ha hb
    obtain ⟨hz, hb⟩ := List.pairwise_cons.mp hb
    rw [rowSetEntryMerge, if_neg hlt, if_pos hgt]
    refine List.pairwise_cons.mpr ⟨fun w hw => ?_, ih ha hb⟩
    rcases (mem_rowSetEntryMerge _ _).mp hw with hw | hw
    · rcases List.mem_cons.mp hw with rfl | hw
      · exact hgt
      · exact hgt.trans ((List.pairwise_cons.mp ha).1 w hw)
    · exact hz w hw
  | case5 y a z b hlt hgt ih =>
    intro ha hb
    rw [rowSetEntryMerge, if_neg hlt, if_neg hgt]
    exact ih (List.pairwise_cons.mp ha).2 hb

/-- What the buckets are after these values: as many as the array has, with each value in
one of them and each of them in order. -/
structure Placed (values : EntryList) (buckets : Buckets) : Prop where
  length : buckets.length = 40
  count : Carry.count buckets = values.length
  holds : ∀ x, Carry.Holds (fun list x => x ∈ list) buckets x ↔ x ∈ values
  ascending : ∀ list, some list ∈ buckets → Ascending list

theorem Placed.none : Placed [] (List.replicate 40 none) where
  length := List.length_replicate
  count := Carry.count_replicate_none 40
  holds _ := iff_of_false (Carry.not_holds_replicate 40) List.not_mem_nil
  ascending list h := by cases List.eq_of_mem_replicate h

/-- The array is long enough for all the values that fit into the memory of a machine. -/
theorem Placed.place {values : EntryList} {buckets : Buckets} (h : Placed values buckets)
    (v : Int) (hroom : values.length + 1 < 2 ^ 40) :
    ∃ buckets', placeInBuckets buckets v = some buckets' ∧ Placed (values ++ [v]) buckets' := by
  have hroom' : Carry.count buckets + 1 < 2 ^ buckets.length := by
    rwa [h.count, h.length]
  have hfits := Carry.carry_fits rowSetEntryMerge id [v] hroom'
  have hholds := fun x => Carry.holds_carry rowSetEntryMerge id (c := x)
    (fun list x => x ∈ list) (fun list x => x ∈ list) mem_rowSetEntryMerge (fun _ => Iff.rfl)
    buckets [v]
  have hforall := Carry.carry_forall rowSetEntryMerge id Ascending Ascending
    rowSetEntryMerge_ascending (fun _ hx => hx) h.ascending (List.pairwise_singleton _ v)
  have hlength := Carry.length_carry rowSetEntryMerge id buckets [v]
  rw [placeInBuckets]
  cases hcarry : Carry.carry rowSetEntryMerge id buckets [v] with
  | mk buckets' left =>
    rw [hcarry] at hfits hholds hforall hlength
    obtain ⟨rfl, hcount⟩ := hfits
    refine ⟨buckets', rfl, hlength.trans h.length, ?_, fun x => ?_, hforall.1⟩
    · rw [hcount, h.count, List.length_append, List.length_singleton]
    · have hx := hholds x
      rw [h.holds] at hx
      simpa using hx

theorem Placed.placeAll {values : EntryList} {buckets : Buckets} (h : Placed values buckets)
    (list : EntryList) (hroom : values.length + list.length < 2 ^ 40) :
    ∃ buckets', list.foldlM placeInBuckets buckets = some buckets' ∧
      Placed (values ++ list) buckets' := by
  induction list generalizing values buckets with
  | nil => exact ⟨buckets, rfl, by rwa [List.append_nil]⟩
  | cons v list ih =>
    rw [List.length_cons] at hroom
    obtain ⟨next, hnext, hplaced⟩ := h.place v (by omega)
    obtain ⟨buckets', hrest, hall⟩ := ih hplaced (by
      rw [List.length_append, List.length_singleton]
      omega)
    refine ⟨buckets', ?_, by rwa [List.append_assoc, List.singleton_append] at hall⟩
    rw [List.foldlM_cons, hnext]
    exact hrest

theorem mergeBuckets_spec (buckets : Buckets) (list : EntryList) (hlist : Ascending list)
    (hbuckets : ∀ bucket, some bucket ∈ buckets → Ascending bucket) :
    Ascending (buckets.foldl (fun list bucket => rowSetEntryMerge list (bucket.getD [])) list) ∧
      ∀ x, x ∈ buckets.foldl (fun list bucket => rowSetEntryMerge list (bucket.getD [])) list ↔
        x ∈ list ∨ Carry.Holds (fun list x => x ∈ list) buckets x := by
  induction buckets generalizing list with
  | nil => simp [hlist]
  | cons bucket buckets ih =>
    have hrest := fun b hb => hbuckets b (List.mem_cons_of_mem _ hb)
    have hbucket : Ascending (bucket.getD []) := by
      cases bucket with
      | none => exact .nil
      | some bucket => exact hbuckets bucket (List.mem_cons_self ..)
    obtain ⟨hsorted, hmem⟩ :=
      ih _ (rowSetEntryMerge_ascending list _ hlist hbucket) hrest
    refine ⟨hsorted, fun x => ?_⟩
    rw [List.foldl_cons, hmem, mem_rowSetEntryMerge]
    cases bucket <;> simp [or_assoc]

theorem rowSetEntrySort_spec {list : EntryList} (hroom : list.length < 2 ^ 40) :
    ∃ sorted, rowSetEntrySort list = some sorted ∧ Ascending sorted ∧
      ∀ x, x ∈ sorted ↔ x ∈ list := by
  obtain ⟨buckets, hbuckets, hplaced⟩ := Placed.none.placeAll list (by simpa using hroom)
  obtain ⟨hsorted, hmem⟩ := mergeBuckets_spec buckets [] .nil hplaced.ascending
  refine ⟨_, by rw [rowSetEntrySort, hbuckets, Option.map_some], hsorted, fun x => ?_⟩
  rw [hmem, hplaced.holds]
  simp

def rowSetTreeToList (tree : EntryTree) : EntryList := SearchTree.inorder tree

/-- The tree, of depth `n + 1` at most, and the rest of the list. -/
def rowSetNDeepTree : Nat → EntryList → EntryTree × EntryList
  | _, [] => (.nil, [])
  | 0, v :: list => (.node v .nil .nil, list)
  | n + 1, v :: list =>
      match rowSetNDeepTree n (v :: list) with
      | (left, []) => (left, [])
      | (left, w :: rest) =>
          let (right, rest) := rowSetNDeepTree n rest
          (.node w left right, rest)

theorem inorder_rowSetNDeepTree (n : Nat) (list : EntryList) :
    SearchTree.inorder (rowSetNDeepTree n list).1 ++ (rowSetNDeepTree n list).2 = list := by
  induction n generalizing list with
  | zero => cases list <;> rfl
  | succ n ih =>
    cases list with
    | nil => rfl
    | cons v list =>
      have hleft := ih (v :: list)
      rw [rowSetNDeepTree]
      cases hdeep : rowSetNDeepTree n (v :: list) with
      | mk left rest =>
        rw [hdeep] at hleft
        cases rest with
        | nil => exact hleft
        | cons w rest =>
          have hright := ih rest
          simp only [SearchTree.inorder_node, List.append_assoc, List.cons_append]
          rw [hright]
          exact hleft

theorem length_rowSetNDeepTree (n : Nat) (list : EntryList) :
    (rowSetNDeepTree n list).2.length ≤ list.length := by
  have h := congrArg List.length (inorder_rowSetNDeepTree n list)
  rw [List.length_append] at h
  omega

/-- The loop of `rowSetListToTree`: `p` is the tree so far, of depth `n + 1`. -/
def deepen (n : Nat) (p : EntryTree) : EntryList → EntryTree
  | [] => p
  | v :: list => deepen (n + 1) (.node v p (rowSetNDeepTree n list).1) (rowSetNDeepTree n list).2
termination_by list => list.length
decreasing_by
  have h := length_rowSetNDeepTree n list
  simp only [List.length_cons]
  omega

def rowSetListToTree : EntryList → EntryTree
  | [] => .nil
  | v :: list => deepen 0 (.node v .nil .nil) list

theorem inorder_deepen (n : Nat) (p : EntryTree) (list : EntryList) :
    SearchTree.inorder (deepen n p list) = SearchTree.inorder p ++ list := by
  induction n, p, list using deepen.induct with
  | case1 n p => simp [deepen]
  | case2 n p v list ih =>
    rw [deepen, ih, SearchTree.inorder_node, List.append_assoc, List.cons_append,
      inorder_rowSetNDeepTree]

@[simp] theorem inorder_rowSetListToTree (list : EntryList) :
    SearchTree.inorder (rowSetListToTree list) = list := by
  cases list with
  | nil => rfl
  | cons v list => exact inorder_deepen 0 _ list

/-- `last` is `pLast->v`; of `db`, whether an allocation has failed. -/
structure RowSet where
  entry : EntryList
  last : Option Int
  forest : List (Option EntryTree)
  nFresh : Nat
  rsSorted : Bool
  rsNext : Bool
  iBatch : Int
  mallocFailed : Bool

namespace RowSet

/-- `sqlite3RowSetInit`, with room for `n` entries behind the object. -/
def init (n : Nat) : RowSet where
  entry := []
  last := none
  forest := []
  nFresh := n
  rsSorted := true
  rsNext := false
  iBatch := 0
  mallocFailed := false

def clear (p : RowSet) : RowSet :=
  { p with nFresh := 0, entry := [], last := none, forest := [], rsSorted := true, rsNext := false }

variable (chunk : Nat)

/-- `chunk` is `ROWSET_ENTRY_PER_CHUNK`, and `memory` whether `sqlite3DbMallocRaw` has any. -/
def rowSetEntryAlloc (memory : Bool) (p : RowSet) : RowSet × Bool :=
  if p.nFresh = 0 then
    if memory then ({ p with nFresh := chunk - 1 }, true)
    else ({ p with mallocFailed := true }, false)
  else ({ p with nFresh := p.nFresh - 1 }, true)

/-- `pEntry` behind `pLast`. -/
def append (p : RowSet) (rowid : Int) : RowSet :=
  match p.last with
  | some last =>
      { p with
        rsSorted := p.rsSorted && !decide (rowid ≤ last)
        entry := p.entry ++ [rowid]
        last := some rowid }
  | none => { p with entry := [rowid], last := some rowid }

/-- `none` is an assertion that fails. -/
def insert (memory : Bool) (p : RowSet) (rowid : Int) : Option RowSet :=
  if p.rsNext then none
  else match rowSetEntryAlloc chunk memory p with
    | (p, true) => some (p.append rowid)
    | (p, false) => some p

/-- The entries as `rowSetToList` and the first test of a batch take them. -/
def sortedEntry (p : RowSet) : Option EntryList :=
  if p.rsSorted then some p.entry else rowSetEntrySort p.entry

def rowSetToList (p : RowSet) : Option RowSet :=
  if p.rsNext then none
  else p.sortedEntry.bind fun list =>
    if p.forest = [] then some { p with entry := list, rsNext := true } else none

/-- The first entry, once the list is in order. -/
def takeFirst (p : RowSet) : RowSet × Option Int :=
  match p.entry with
  | [] => (p, none)
  | [v] => (clear { p with entry := [] }, some v)
  | v :: w :: list => ({ p with entry := w :: list }, some v)

/-- The rowid it gives, if any is left. -/
def next (p : RowSet) : Option (RowSet × Option Int) :=
  (if p.rsNext then some p else p.rowSetToList).map takeFirst

def mergeTree (tree : EntryTree) (list : EntryList) : EntryList :=
  rowSetEntryMerge (rowSetTreeToList tree) list

/-- Sorts the entries into the forest. -/
def intoForest (memory : Bool) (p : RowSet) (list : EntryList) : RowSet :=
  match Carry.carry mergeTree rowSetListToTree p.forest list with
  | (forest, none) => { p with forest := forest, entry := [], last := none, rsSorted := true }
  | (forest, some list) =>
      let (p, allocated) := rowSetEntryAlloc chunk memory p
      { p with
        forest := if allocated then forest ++ [some (rowSetListToTree list)] else forest
        entry := []
        last := none
        rsSorted := true }

/-- What the first test of a batch does. -/
def newBatch (memory : Bool) (p : RowSet) (iBatch : Int) : Option RowSet :=
  if iBatch = p.iBatch then some p
  else if p.entry = [] then some { p with iBatch := iBatch }
  else p.sortedEntry.map fun list => { intoForest chunk memory p list with iBatch := iBatch }

def inForest (p : RowSet) (rowid : Int) : Bool :=
  p.forest.any fun slot => slot.any (SearchTree.search rowid)

def test (memory : Bool) (p : RowSet) (iBatch rowid : Int) : Option (RowSet × Bool) :=
  if p.rsNext then none
  else (newBatch chunk memory p iBatch).map fun p => (p, p.inForest rowid)

/-- A call of the interface, with what it returned. -/
inductive Call
  | insert (rowid : Int)
  | test (iBatch rowid : Int) (found : Bool)
  | next (rowid : Option Int)
  | clear

structure Action where
  call : Call
  memory : Bool

def step (p : RowSet) (a : Action) : Option RowSet :=
  match a.call with
  | .insert rowid => insert chunk a.memory p rowid
  | .test iBatch rowid found =>
      (test chunk a.memory p iBatch rowid).bind fun (p, answer) =>
        if answer = found then some p else none
  | .next rowid => p.next.bind fun (p, answer) => if answer = rowid then some p else none
  | .clear => some p.clear

def machine (n : Nat) : Machine RowSet Action where
  Init p := p = init n
  step := step chunk

/-- What the set is for: what was added before the last change of the batch's number, and
what was added since. -/
structure Contents where
  earlier : Set Int
  current : Set Int
  iBatch : Int

namespace Contents

def empty : Contents := ⟨∅, ∅, 0⟩

def add (c : Contents) (rowid : Int) : Contents :=
  { c with current := Insert.insert rowid c.current }

/-- The contents after a change of the batch's number. -/
noncomputable def newBatch (c : Contents) (iBatch : Int) : Contents :=
  open Classical in if iBatch = c.iBatch then c else ⟨c.earlier ∪ c.current, ∅, iBatch⟩

/-- The calls with the answers that they should have. -/
noncomputable def step (c : Contents) : Call → Option Contents
  | .insert rowid => some (c.add rowid)
  | .test iBatch rowid found => open Classical in
      if found = true ↔ rowid ∈ (c.newBatch iBatch).earlier then some (c.newBatch iBatch) else none
  | .next (some rowid) => open Classical in
      if IsLeast c.current rowid then some { c with current := c.current \ {rowid} } else none
  | .next none => open Classical in if c.current = ∅ then some c else none
  | .clear => some { c with earlier := ∅, current := ∅ }

noncomputable def machine : Machine Contents Call where
  Init c := c = empty
  step := step

end Contents

/-- A rowid is in one of the trees. -/
abbrev InTrees (forest : List (Option EntryTree)) (rowid : Int) : Prop :=
  Carry.Holds (fun tree x => x ∈ SearchTree.inorder tree) forest rowid

abbrev IsSearchTree (tree : EntryTree) : Prop :=
  Ascending (SearchTree.inorder tree)

/-- The set represents these contents. -/
structure Represents (p : RowSet) (c : Contents) : Prop where
  iBatch : c.iBatch = p.iBatch
  current : ∀ x, x ∈ c.current ↔ x ∈ p.entry
  earlier : ∀ x, x ∈ c.earlier ↔ InTrees p.forest x
  trees : ∀ tree, some tree ∈ p.forest → IsSearchTree tree
  last : p.rsNext = false → p.last = p.entry.getLast?
  sorted : p.rsSorted = true → Ascending p.entry
  taken : p.rsNext = true → Ascending p.entry ∧ p.forest = []

theorem Represents.init (n : Nat) : Represents (RowSet.init n) .empty where
  iBatch := rfl
  current _ := iff_of_false id List.not_mem_nil
  earlier _ := iff_of_false id Carry.holds_nil
  trees _ h := by cases h
  last _ := rfl
  sorted _ := .nil
  taken h := by cases h

section

variable (chunk : Nat) {p : RowSet} {c : Contents}

/-- With memory an allocation changes nothing but the number of free entries. -/
theorem rowSetEntryAlloc_memory (p : RowSet) :
    ∃ n, rowSetEntryAlloc chunk true p = ({ p with nFresh := n }, true) := by
  rw [rowSetEntryAlloc]
  split
  · exact ⟨_, rfl⟩
  · exact ⟨_, rfl⟩

theorem Represents.append (h : Represents p c) (hnext : p.rsNext = false) (rowid : Int) :
    Represents (p.append rowid) (c.add rowid) := by
  have hlast := h.last hnext
  rw [RowSet.append]
  cases hp : p.last with
  | none =>
    have hentry : p.entry = [] := List.getLast?_eq_none_iff.mp (hlast.symm.trans hp)
    exact {
      iBatch := h.iBatch
      current := fun x => by simp [Contents.add, h.current, hentry]
      earlier := h.earlier
      trees := h.trees
      last := fun _ => rfl
      sorted := fun _ => List.pairwise_singleton _ _
      taken := fun hn => by rw [hnext] at hn; cases hn }
  | some last =>
    exact {
      iBatch := h.iBatch
      current := fun x => by simp [Contents.add, h.current, or_comm]
      earlier := h.earlier
      trees := h.trees
      last := fun _ => by simp
      sorted := fun hsorted => by
        obtain ⟨hsorted, hgt⟩ := Bool.and_eq_true_iff.mp hsorted
        have hascending := h.sorted hsorted
        obtain ⟨front, hfront⟩ := List.getLast?_eq_some_iff.mp (hlast.symm.trans hp)
        have hlt : last < rowid := by simpa using hgt
        refine List.pairwise_append.mpr ⟨hascending, List.pairwise_singleton _ _, ?_⟩
        intro x hx y hy
        rw [List.mem_singleton.mp hy]
        rw [hfront] at hx hascending
        rcases List.mem_append.mp hx with hx | hx
        · exact ((List.pairwise_append.mp hascending).2.2 x hx last
            (List.mem_singleton_self _)).trans hlt
        · rwa [List.mem_singleton.mp hx]
      taken := fun hn => by rw [hnext] at hn; cases hn }

theorem Represents.nFresh (h : Represents p c) (n : Nat) :
    Represents { p with nFresh := n } c :=
  ⟨h.iBatch, h.current, h.earlier, h.trees, h.last, h.sorted, h.taken⟩

theorem length_append (p : RowSet) (rowid : Int) :
    (p.append rowid).entry.length ≤ p.entry.length + 1 := by
  rw [append]
  split <;> simp

theorem insert_returns (hnext : p.rsNext = false) (rowid : Int) :
    ∃ q, p.insert chunk true rowid = some q ∧ q.rsNext = false ∧
      q.entry.length ≤ p.entry.length + 1 := by
  obtain ⟨n, halloc⟩ := rowSetEntryAlloc_memory chunk p
  rw [RowSet.insert, if_neg (by simp [hnext]), halloc]
  refine ⟨_, rfl, ?_, length_append _ rowid⟩
  rw [append]
  split <;> exact hnext

theorem Represents.insert (h : Represents p c) {q : RowSet} {rowid : Int}
    (hstep : p.insert chunk true rowid = some q) :
    Represents q (c.add rowid) := by
  rw [RowSet.insert] at hstep
  obtain ⟨n, halloc⟩ := rowSetEntryAlloc_memory chunk p
  cases hnext : p.rsNext with
  | true =>
    rw [if_pos hnext] at hstep
    cases hstep
  | false =>
    rw [if_neg (by simp [hnext]), halloc] at hstep
    cases hstep
    exact (h.nFresh n).append hnext rowid

theorem Represents.sortedEntry (h : Represents p c) (hroom : p.entry.length < 2 ^ 40) :
    ∃ list, p.sortedEntry = some list ∧ Ascending list ∧ ∀ x, x ∈ list ↔ x ∈ p.entry := by
  rw [RowSet.sortedEntry]
  cases hsorted : p.rsSorted with
  | true => exact ⟨p.entry, rfl, h.sorted hsorted, fun _ => Iff.rfl⟩
  | false => exact rowSetEntrySort_spec hroom

/-- The forest keeps what it had and gets what is on the list. -/
theorem intoForest_spec (htrees : ∀ tree, some tree ∈ p.forest → IsSearchTree tree)
    {list : EntryList} (hlist : Ascending list) :
    ∃ forest n, intoForest chunk true p list =
        { p with forest := forest, nFresh := n, entry := [], last := none, rsSorted := true } ∧
      (∀ x, InTrees forest x ↔ InTrees p.forest x ∨ x ∈ list) ∧
      ∀ tree, some tree ∈ forest → IsSearchTree tree := by
  have hholds := fun x => Carry.holds_carry mergeTree rowSetListToTree (c := x)
    (fun tree x => x ∈ SearchTree.inorder tree) (fun list x => x ∈ list)
    (fun _ _ => mem_rowSetEntryMerge _ _) (fun _ => by rw [inorder_rowSetListToTree])
    p.forest list
  have hforall := Carry.carry_forall mergeTree rowSetListToTree IsSearchTree Ascending
    (fun _ _ => rowSetEntryMerge_ascending _ _)
    (fun list h => by rwa [IsSearchTree, inorder_rowSetListToTree]) htrees hlist
  rw [intoForest]
  cases hcarry : Carry.carry mergeTree rowSetListToTree p.forest list with
  | mk forest left =>
    rw [hcarry] at hholds hforall
    cases left with
    | none => exact ⟨forest, p.nFresh, rfl, fun x => by simpa using hholds x, hforall.1⟩
    | some rest =>
      obtain ⟨n, halloc⟩ := rowSetEntryAlloc_memory chunk p
      simp only [halloc, if_true]
      refine ⟨_, n, rfl, fun x => ?_, fun tree htree => ?_⟩
      · have hx := hholds x
        simp only [Option.some.injEq, exists_eq_left'] at hx
        rw [← hx]
        simp [InTrees, Carry.Holds, or_and_right, exists_or]
      · rcases List.mem_append.mp htree with htree | htree
        · exact hforall.1 tree htree
        · cases List.mem_singleton.mp htree
          rw [IsSearchTree, inorder_rowSetListToTree]
          exact hforall.2 rest rfl

theorem Represents.newBatch (h : Represents p c) (hnext : p.rsNext = false)
    (hroom : p.entry.length < 2 ^ 40) (iBatch : Int) :
    ∃ q, p.newBatch chunk true iBatch = some q ∧ q.rsNext = false ∧
      q.entry.length ≤ p.entry.length ∧ Represents q (c.newBatch iBatch) := by
  rw [RowSet.newBatch, Contents.newBatch, h.iBatch]
  split
  · exact ⟨p, rfl, hnext, le_rfl, h⟩
  split
  · rename_i hentry
    have hcurrent : ∀ x, x ∉ c.current := fun x => by simp [h.current, hentry]
    refine ⟨_, rfl, hnext, le_rfl, rfl, fun x => ?_, fun x => ?_, h.trees, h.last, h.sorted,
      h.taken⟩
    · simp [hentry]
    · simp [h.earlier, hcurrent]
  · obtain ⟨list, hlist, hascending, hmem⟩ := h.sortedEntry hroom
    obtain ⟨forest, n, heq, hholds, htrees⟩ :=
      intoForest_spec chunk h.trees hascending
    rw [hlist, Option.map_some, heq]
    refine ⟨_, rfl, hnext, Nat.zero_le _, rfl, fun x => ?_, fun x => ?_, htrees, fun _ => rfl,
      fun _ => .nil, fun hn => ?_⟩
    · simp
    · rw [hholds, hmem]
      simp [h.earlier, h.current]
    · rw [hnext] at hn
      cases hn

theorem Represents.inForest (h : Represents p c) (rowid : Int) :
    p.inForest rowid = true ↔ rowid ∈ c.earlier := by
  rw [h.earlier, RowSet.inForest, List.any_eq_true]
  constructor
  · rintro ⟨slot, hslot, hfound⟩
    obtain ⟨tree, rfl, hsearch⟩ := (Option.any_eq_true _ _).mp hfound
    exact ⟨tree, hslot, (SearchTree.search_iff tree (h.trees tree hslot)).mp hsearch⟩
  · rintro ⟨tree, htree, hmem⟩
    exact ⟨some tree, htree, (SearchTree.search_iff tree (h.trees tree htree)).mpr hmem⟩

theorem Represents.test (h : Represents p c) (hnext : p.rsNext = false)
    (hroom : p.entry.length < 2 ^ 40) (iBatch rowid : Int) :
    ∃ q found, p.test chunk true iBatch rowid = some (q, found) ∧ q.rsNext = false ∧
      q.entry.length ≤ p.entry.length ∧
      (found = true ↔ rowid ∈ (c.newBatch iBatch).earlier) ∧
      Represents q (c.newBatch iBatch) := by
  obtain ⟨q, hq, hqnext, hlength, hrep⟩ := h.newBatch chunk hnext hroom iBatch
  refine ⟨q, q.inForest rowid, ?_, hqnext, hlength, hrep.inForest rowid, hrep⟩
  rw [RowSet.test, if_neg (by simp [hnext]), hq, Option.map_some]

theorem Represents.clear (h : Represents p c) :
    Represents p.clear { c with earlier := ∅, current := ∅ } where
  iBatch := h.iBatch
  current _ := iff_of_false id List.not_mem_nil
  earlier _ := iff_of_false id Carry.holds_nil
  trees _ htree := by cases htree
  last _ := rfl
  sorted _ := .nil
  taken hn := by cases hn

/-- The list is sorted before the first rowid is taken from it. -/
theorem Represents.rowSetToList (h : Represents p c) (hroom : p.entry.length < 2 ^ 40)
    (hforest : p.forest = []) (hnext : p.rsNext = false) :
    ∃ q, p.rowSetToList = some q ∧ q.rsNext = true ∧ Represents q c := by
  obtain ⟨list, hlist, hascending, hmem⟩ := h.sortedEntry hroom
  refine ⟨{ p with entry := list, rsNext := true }, ?_, rfl, h.iBatch, fun x => ?_, h.earlier,
    h.trees, by rintro ⟨⟩, fun _ => hascending, fun _ => ⟨hascending, hforest⟩⟩
  · rw [RowSet.rowSetToList, if_neg (by simp [hnext]), hlist, Option.bind_some, if_pos hforest]
  · rw [hmem, h.current]

theorem Represents.takeFirst (h : Represents p c) (hnext : p.rsNext = true) :
    ∃ d, c.step (.next p.takeFirst.2) = some d ∧ Represents p.takeFirst.1 d := by
  obtain ⟨hascending, hforest⟩ := h.taken hnext
  have hearlier : c.earlier = ∅ := Set.eq_empty_of_forall_notMem fun x => by
    simp [h.earlier, hforest]
  rw [RowSet.takeFirst]
  cases hentry : p.entry with
  | nil =>
    have hempty : c.current = ∅ := Set.eq_empty_of_forall_notMem fun x => by
      simp [h.current, hentry]
    exact ⟨c, if_pos hempty, h⟩
  | cons v list =>
    rw [hentry] at hascending
    obtain ⟨hlt, hrest⟩ := List.pairwise_cons.mp hascending
    have hleast : IsLeast c.current v := by
      refine ⟨by simp [h.current, hentry], fun x hx => ?_⟩
      rcases List.mem_cons.mp (hentry ▸ (h.current x).mp hx) with rfl | hx
      · exact le_rfl
      · exact (hlt x hx).le
    have hcurrent : ∀ x, x ∈ c.current \ {v} ↔ x ∈ list := by
      intro x
      rw [Set.mem_sdiff, Set.mem_singleton_iff, h.current, hentry, List.mem_cons]
      constructor
      · rintro ⟨rfl | hx, hne⟩
        · exact absurd rfl hne
        · exact hx
      · intro hx
        exact ⟨.inr hx, (hlt x hx).ne'⟩
    refine ⟨{ c with current := c.current \ {v} }, ?_, ?_⟩
    · cases list <;> exact if_pos hleast
    cases list with
    | nil =>
      exact ⟨h.iBatch, hcurrent, fun x => iff_of_false (by simp [hearlier]) Carry.holds_nil,
        by rintro _ ⟨⟩, fun _ => rfl, fun _ => .nil, by rintro ⟨⟩⟩
    | cons w list =>
      exact ⟨h.iBatch, hcurrent, h.earlier, h.trees, fun hn => by simp [hnext] at hn,
        fun _ => hrest, fun _ => ⟨hrest, hforest⟩⟩

theorem Represents.next (h : Represents p c) (hroom : p.entry.length < 2 ^ 40)
    (hforest : p.rsNext = false → p.forest = []) :
    ∃ q rowid d, p.next = some (q, rowid) ∧ c.step (.next rowid) = some d ∧ Represents q d := by
  cases hnext : p.rsNext with
  | true =>
    obtain ⟨d, hd, hrep⟩ := h.takeFirst hnext
    exact ⟨_, _, d, by rw [RowSet.next, if_pos hnext, Option.map_some], hd, hrep⟩
  | false =>
    obtain ⟨q, hq, hqnext, hqrep⟩ := h.rowSetToList hroom (hforest hnext) hnext
    obtain ⟨d, hd, hrep⟩ := hqrep.takeFirst hqnext
    exact ⟨_, _, d, by rw [RowSet.next, if_neg (by simp [hnext]), hq, Option.map_some], hd, hrep⟩

/-- Memory is to be had, and the buckets of a sort do not overflow. -/
def MemoryHolds (p : RowSet) (a : Action) : Prop :=
  a.memory = true ∧ p.entry.length < 2 ^ 40

instance (p : RowSet) (a : Action) : Decidable (MemoryHolds p a) :=
  inferInstanceAs (Decidable (_ ∧ _))

/-- A call whose assertion holds returns. -/
structure Returns (chunk : Nat) (p : RowSet) : Prop where
  insert : p.rsNext = false → ∀ rowid, ∃ q, p.insert chunk true rowid = some q
  test : p.rsNext = false → ∀ iBatch rowid, ∃ q found,
    p.test chunk true iBatch rowid = some (q, found)
  next : (p.rsNext = false → p.forest = []) → ∃ q rowid, p.next = some (q, rowid)

theorem Represents.returns (h : Represents p c) (hroom : p.entry.length < 2 ^ 40) :
    Returns chunk p where
  insert hnext rowid := by
    obtain ⟨q, hq, -⟩ := insert_returns chunk hnext rowid
    exact ⟨q, hq⟩
  test hnext iBatch rowid := by
    obtain ⟨q, found, htest, -⟩ := h.test chunk hnext hroom iBatch rowid
    exact ⟨q, found, htest⟩
  next hforest := by
    obtain ⟨q, rowid, -, hq, -⟩ := h.next hroom hforest
    exact ⟨q, rowid, hq⟩

theorem Represents.step (h : Represents p c) {q : RowSet} {a : Action}
    (hmemory : MemoryHolds p a) (hstep : p.step chunk a = some q) :
    ∃ d, c.step a.call = some d ∧ Represents q d := by
  obtain ⟨call, memory⟩ := a
  obtain ⟨rfl, hroom⟩ := hmemory
  cases call with
  | insert rowid => exact ⟨_, rfl, h.insert chunk hstep⟩
  | test iBatch rowid found =>
    cases hnext : p.rsNext with
    | true =>
      simp [RowSet.step, RowSet.test, hnext] at hstep
    | false =>
      obtain ⟨r, answer, htest, -, -, hanswer, hrep⟩ := h.test chunk hnext hroom iBatch rowid
      simp only [RowSet.step, htest, Option.bind_some] at hstep
      obtain ⟨rfl, hq⟩ := Option.ite_none_right_eq_some.mp hstep
      cases hq
      exact ⟨_, if_pos hanswer, hrep⟩
  | next rowid =>
    have hforest : p.rsNext = false → p.forest = [] := by
      intro hnext
      by_contra hforest
      have hnone : p.rowSetToList = none := by
        rw [RowSet.rowSetToList, if_neg (by simp [hnext])]
        cases p.sortedEntry with
        | none => rfl
        | some list => exact if_neg hforest
      simp [RowSet.step, RowSet.next, hnext, hnone] at hstep
    obtain ⟨r, answer, d, hr, hd, hrep⟩ := h.next hroom hforest
    simp only [RowSet.step, hr, Option.bind_some] at hstep
    obtain ⟨rfl, hq⟩ := Option.ite_none_right_eq_some.mp hstep
    cases hq
    exact ⟨d, hd, hrep⟩
  | clear =>
    cases hstep
    exact ⟨_, rfl, h.clear⟩

theorem represents_run {n : Nat} {as : List Action}
    (hmemory : (machine chunk n).Meets MemoryHolds (init n) as)
    (hrun : (machine chunk n).run (init n) as = some p) :
    ∃ c, Contents.machine.run .empty (as.map (·.call)) = some c ∧ Represents p c :=
  Machine.Meets.simulated Represents (·.call)
    (fun _ _ _ _ h hmemory hstep => h.step chunk hmemory hstep) as (.init n) hmemory hrun

/-- As long as memory lasts every call answers as the set of the rowids would, and no sort
runs out of buckets. -/
theorem answers_as_contents {n : Nat} {as : List Action}
    (hmemory : (machine chunk n).Meets MemoryHolds (init n) as)
    (hrun : (machine chunk n).run (init n) as = some p) :
    (Contents.machine.run .empty (as.map (·.call))).isSome ∧
      (p.entry.length < 2 ^ 40 → Returns chunk p) := by
  obtain ⟨c, hc, hrep⟩ := represents_run chunk hmemory hrun
  exact ⟨Option.isSome_iff_exists.mpr ⟨c, hc⟩, hrep.returns chunk⟩

/-- Two batches, the first with a rowid that comes twice and out of order. -/
def Sample.calls : List Action :=
  [.insert 5, .insert 3, .insert 5, .test 1 3 true, .insert 9, .test 1 9 false, .test (-1) 9 true]
    |>.map fun call => ⟨call, true⟩

theorem answers_as_contents_batches :
    (Contents.machine.run .empty (Sample.calls.map (·.call))).isSome := by
  obtain ⟨p, hp⟩ := Option.isSome_iff_exists.mp
    (by decide +kernel : ((machine 63 2).run (init 2) Sample.calls).isSome = true)
  refine (answers_as_contents 63 (n := 2) ?_ hp).1
  refine (Machine.Meets.congr (fun _ _ => decide_eq_true_iff) _ _).mp ?_
  exact Machine.Meets.of_check _ (by decide +kernel)

end

end RowSet

end AlmondAndroid.Storage
