import AlmondAndroid.Library.Machine

/-!
# The object cache

A bucket of `GenericObjectCache` is a list of soft references, each of which may be lost at
any time. Entries that have expired are dropped when a scan comes across them, and a scan ends
at the key it looks for. A store into a full bucket takes one entry out.
-/

namespace AlmondAndroid.Ui

open Library

universe u v

variable {K : Type u} {V : Type v}

structure CacheItem (K : Type u) (V : Type v) where
  key : K
  value : V
  expires : Int64
  deriving DecidableEq

/-- A soft reference that has been lost is `none`. -/
abbrev ListBucket (K : Type u) (V : Type v) := List (Option (CacheItem K V))

namespace ListBucket

variable [DecidableEq K]

def hit (now : Int64) (key : K) : ListBucket K V → ListBucket K V × Option V
  | [] => ([], none)
  | none :: bucket => hit now key bucket
  | some item :: bucket =>
    if item.expires ≤ now then hit now key bucket
    else if key = item.key then (some item :: bucket, some item.value)
    else
      let rest := hit now key bucket
      (some item :: rest.1, rest.2)

def clear (key : K) (bucket : ListBucket K V) : ListBucket K V :=
  bucket.filter fun
    | none => false
    | some other => other.key ≠ key

def freshen (item other : CacheItem K V) : CacheItem K V :=
  if item.expires > other.expires then
    { other with expires := item.expires, value := item.value }
  else other

/-- The first loop of `store`; `true` is its early return. -/
def scan (now : Int64) (item : CacheItem K V) : ListBucket K V → ListBucket K V × Bool
  | [] => ([], false)
  | none :: bucket => scan now item bucket
  | some other :: bucket =>
    if other.expires ≤ now then scan now item bucket
    else if item.key = other.key then (some (freshen item other) :: bucket, true)
    else
      let rest := scan now item bucket
      (some other :: rest.1, rest.2)

/-- The second loop of `store`, from the position `i` on. -/
def findToRemove (i : Nat) (toRemove : Option Nat) (minExpire : Int64) :
    ListBucket K V → Option Nat
  | [] => toRemove
  | none :: bucket => findToRemove (i + 1) (some i) 0 bucket
  | some other :: bucket =>
    if other.expires < minExpire then findToRemove (i + 1) (some i) minExpire bucket
    else findToRemove (i + 1) toRemove minExpire bucket

def toRemove (bucket : ListBucket K V) : Option Nat :=
  findToRemove 0 none Int64.maxValue bucket

def purge (bucket : ListBucket K V) : ListBucket K V :=
  match toRemove bucket with
  | none => bucket
  | some i => bucket.eraseIdx i

def maxBucketSize : Nat := 3

def add (item : CacheItem K V) (bucket : ListBucket K V) : ListBucket K V :=
  (if bucket.length > maxBucketSize then purge bucket else bucket) ++ [some item]

def lose (lost : Nat → Bool) (bucket : ListBucket K V) : ListBucket K V :=
  bucket.mapIdx fun i reference => if lost i then none else reference

/-- The references that are lost while `store` runs are those it finds lost in its second
loop. -/
def store (now : Int64) (item : CacheItem K V) (lost : Nat → Bool) (bucket : ListBucket K V) :
    ListBucket K V :=
  if item.expires = 0 then bucket
  else
    let scanned := scan now item bucket
    if scanned.2 then scanned.1 else add item (lose lost scanned.1)

end ListBucket

/-- `hashCode` of the keys, and the number of buckets. -/
structure Hashing (K : Type u) where
  hashCode : K → Int32
  nBuckets : Int32
  positive : 0 < nBuckets

namespace Hashing

def getBucket (H : Hashing K) (key : K) : Int32 :=
  let bucket := H.hashCode key % H.nBuckets
  if bucket < 0 then bucket + H.nBuckets else bucket

theorem getBucket_valid (H : Hashing K) (key : K) :
    0 ≤ H.getBucket key ∧ H.getBucket key < H.nBuckets := by
  have hpos : 0 < H.nBuckets.toInt := Int32.lt_iff_toInt_lt.mp H.positive
  have hmax : H.nBuckets.toInt ≤ 2147483647 := H.nBuckets.toInt_le
  have hmod : (H.hashCode key % H.nBuckets).toInt =
      (H.hashCode key).toInt.tmod H.nBuckets.toInt := Int32.toInt_mod ..
  have hhigh := Int.tmod_lt_of_pos (H.hashCode key).toInt hpos
  have hlow : -(H.hashCode key).toInt.tmod H.nBuckets.toInt < H.nBuckets.toInt := by
    rw [← Int.neg_tmod]
    exact Int.tmod_lt_of_pos _ hpos
  rw [← hmod] at hhigh hlow
  have hzero : (0 : Int32).toInt = 0 := rfl
  rw [Int32.le_iff_toInt_le, Int32.lt_iff_toInt_lt, hzero]
  unfold getBucket
  dsimp only
  split
  · rename_i hneg
    have hneg : (H.hashCode key % H.nBuckets).toInt < 0 := Int32.lt_iff_toInt_lt.mp hneg
    have hadd : (H.hashCode key % H.nBuckets + H.nBuckets).toInt =
        (H.hashCode key % H.nBuckets).toInt + H.nBuckets.toInt := by
      rw [Int32.toInt_add]
      exact Int.bmod_eq_of_le (by omega) (by omega)
    omega
  · rename_i hnonneg
    have hnonneg : ¬ (H.hashCode key % H.nBuckets).toInt < 0 :=
      fun h => hnonneg (Int32.lt_iff_toInt_lt.mpr h)
    omega

end Hashing

/-- `clock` is the last reading of `System.currentTimeMillis`, which is never negative.
`stores` are, for each key, the stores since the last clear that covers it. -/
structure GenericObjectCache (K : Type u) (V : Type v) where
  buckets : Int32 → ListBucket K V
  clock : Int64
  stores : K → List (V × Int64)

namespace GenericObjectCache

inductive Action (K : Type u) (V : Type v)
  | hit (now : Int64) (key : K)
  | store (now : Int64) (key : K) (value : V) (expires : Int64) (lost : Nat → Bool)
  | clear
  | clearKey (key : K)
  | lose (bucket : Int32) (lost : Nat → Bool)

variable [DecidableEq K]

def setBucket (s : GenericObjectCache K V) (i : Int32) (bucket : ListBucket K V) :
    GenericObjectCache K V :=
  { s with buckets := Function.update s.buckets i bucket }

def step (H : Hashing K) (s : GenericObjectCache K V) :
    Action K V → Option (GenericObjectCache K V)
  | .hit now key =>
    if now < s.clock then none
    else
      let i := H.getBucket key
      some { s.setBucket i (ListBucket.hit now key (s.buckets i)).1 with clock := now }
  | .store now key value expires lost =>
    if now < s.clock then none
    else
      let i := H.getBucket key
      some { s.setBucket i (ListBucket.store now ⟨key, value, expires⟩ lost (s.buckets i)) with
        clock := now
        stores := Function.update s.stores key (s.stores key ++ [(value, expires)]) }
  | .clear => some { s with buckets := fun _ => [], stores := fun _ => [] }
  | .clearKey key =>
    let i := H.getBucket key
    some { s.setBucket i (ListBucket.clear key (s.buckets i)) with
      stores := Function.update s.stores key [] }
  | .lose i lost => some (s.setBucket i (ListBucket.lose lost (s.buckets i)))

def machine (H : Hashing K) : Machine (GenericObjectCache K V) (Action K V) where
  Init s := (∀ i, s.buckets i = []) ∧ (∀ key, s.stores key = []) ∧ 0 ≤ s.clock
  step := step H

end GenericObjectCache

/-! ## What is in a bucket -/

namespace ListBucket

theorem mem_lose {lost : Nat → Bool} {bucket : ListBucket K V} {x : CacheItem K V}
    (h : some x ∈ lose lost bucket) : some x ∈ bucket := by
  obtain ⟨i, hi, heq⟩ := List.mem_mapIdx.mp h
  split at heq
  · cases heq
  · rw [← heq]
    exact List.getElem_mem hi

def unexpired (now : Int64) : Option (CacheItem K V) → Bool
  | none => false
  | some item => now < item.expires

def Distinct (bucket : ListBucket K V) : Prop :=
  bucket.Pairwise fun a b => ∀ x y, a = some x → b = some y → x.key ≠ y.key

theorem Distinct.lose {bucket : ListBucket K V} (h : Distinct bucket) :
    ∀ lost : Nat → Bool, Distinct (lose lost bucket) := by
  induction bucket with
  | nil => exact fun _ => .nil
  | cons reference bucket ih =>
    intro lost
    have hcons := List.pairwise_cons.mp h
    have hlose : ListBucket.lose lost (reference :: bucket) =
        (if lost 0 then none else reference) ::
          ListBucket.lose (fun i => lost (i + 1)) bucket := List.mapIdx_cons
    rw [hlose]
    refine List.pairwise_cons.mpr ⟨?_, ih hcons.2 _⟩
    intro other hother x y hx hy
    subst hy
    split at hx
    · cases hx
    · exact hcons.1 _ (mem_lose hother) x y hx rfl

theorem purge_sublist (bucket : ListBucket K V) : (purge bucket).Sublist bucket := by
  rw [purge]
  split
  · exact .refl _
  · exact List.eraseIdx_sublist ..

variable [DecidableEq K] {now : Int64} {key : K} {item : CacheItem K V}

theorem hit_sublist (bucket : ListBucket K V) : (hit now key bucket).1.Sublist bucket := by
  induction bucket with
  | nil => exact .slnil
  | cons reference bucket ih =>
    cases reference with
    | none => exact ih.cons _
    | some other =>
      rw [hit]
      split
      · exact ih.cons _
      · split
        · exact .refl _
        · exact ih.cons_cons _

theorem hit_eq_some {bucket : ListBucket K V} {value : V}
    (h : (hit now key bucket).2 = some value) :
    ∃ x, some x ∈ bucket ∧ x.key = key ∧ x.value = value ∧ now < x.expires := by
  induction bucket with
  | nil => cases h
  | cons reference bucket ih =>
    cases reference with
    | none =>
      obtain ⟨x, hx, hitem⟩ := ih h
      exact ⟨x, List.mem_cons_of_mem _ hx, hitem⟩
    | some other =>
      rw [hit] at h
      split at h
      · obtain ⟨x, hx, hitem⟩ := ih h
        exact ⟨x, List.mem_cons_of_mem _ hx, hitem⟩
      · rename_i hexpires
        split at h
        · rename_i hkey
          exact ⟨other, List.mem_cons_self, hkey.symm, Option.some.inj h,
            Int64.not_le.mp hexpires⟩
        · obtain ⟨x, hx, hitem⟩ := ih h
          exact ⟨x, List.mem_cons_of_mem _ hx, hitem⟩

def holds (key : K) (now : Int64) : Option (CacheItem K V) → Bool
  | none => false
  | some item => item.key = key ∧ now < item.expires

theorem holds_once {bucket : ListBucket K V} (h : Distinct bucket) (key : K)
    (now : Int64) : bucket.countP (holds key now) ≤ 1 := by
  induction bucket with
  | nil => exact Nat.zero_le 1
  | cons reference bucket ih =>
    obtain ⟨hhead, htail⟩ := List.pairwise_cons.mp h
    by_cases hholds : holds key now reference = true
    · have hrest : bucket.countP (holds key now) = 0 := by
        refine List.countP_eq_zero.mpr fun other hother hholds' => ?_
        cases reference with
        | none => cases hholds
        | some x =>
          cases other with
          | none => cases hholds'
          | some y =>
            have hx := (of_decide_eq_true hholds).1
            have hy := (of_decide_eq_true hholds').1
            exact hhead (some y) hother x y rfl rfl (hx.trans hy.symm)
      have hone : (reference :: bucket).countP (holds key now) = 0 + 1 := by
        rw [List.countP_cons_of_pos hholds, hrest]
      exact Nat.le_of_eq hone
    · rw [List.countP_cons_of_neg hholds]
      exact ih htail

theorem scan_new {bucket : ListBucket K V} (h : (scan now item bucket).2 = false) :
    (scan now item bucket).1 = bucket.filter (unexpired now) ∧
    ∀ x, some x ∈ (scan now item bucket).1 → x.key ≠ item.key := by
  induction bucket with
  | nil => exact ⟨rfl, fun x hx => by cases hx⟩
  | cons reference bucket ih =>
    cases reference with
    | none => exact ih h
    | some other =>
      rw [scan] at h ⊢
      split
      · rename_i hexpires
        rw [if_pos hexpires] at h
        rw [List.filter_cons_of_neg (by simpa [unexpired] using hexpires)]
        exact ih h
      · rename_i hexpires
        rw [if_neg hexpires] at h
        split
        · rename_i hkey
          rw [if_pos hkey] at h
          cases h
        · rename_i hkey
          rw [if_neg hkey] at h
          obtain ⟨hfilter, hnew⟩ := ih h
          refine ⟨?_, ?_⟩
          · rw [List.filter_cons_of_pos (by simpa [unexpired] using hexpires), ← hfilter]
          · intro x hx
            rcases List.mem_cons.mp hx with heq | hx
            · cases heq
              exact fun heq => hkey heq.symm
            · exact hnew x hx

theorem scan_found {bucket : ListBucket K V} (h : (scan now item bucket).2 = true) :
    ∃ before other after, bucket = before ++ some other :: after ∧ item.key = other.key ∧
      now < other.expires ∧ (∀ x, some x ∈ before → now < x.expires → x.key ≠ item.key) ∧
      (scan now item bucket).1 =
        before.filter (unexpired now) ++ some (freshen item other) :: after := by
  induction bucket with
  | nil => cases h
  | cons reference bucket ih =>
    cases reference with
    | none =>
      obtain ⟨before, other, after, rfl, hkey, hexpires, hnew, hscan⟩ := ih h
      refine ⟨none :: before, other, after, rfl, hkey, hexpires, fun x hx => ?_, hscan⟩
      rcases List.mem_cons.mp hx with hx | hx
      · cases hx
      · exact hnew x hx
    | some first =>
      rw [scan] at h ⊢
      split
      · rename_i hfirst
        rw [if_pos hfirst] at h
        obtain ⟨before, other, after, rfl, hkey, hexpires, hnew, hscan⟩ := ih h
        refine ⟨some first :: before, other, after, rfl, hkey, hexpires, fun x hx hlt => ?_, ?_⟩
        · rcases List.mem_cons.mp hx with heq | hx
          · cases heq
            exact absurd hlt (Int64.not_lt.mpr hfirst)
          · exact hnew x hx hlt
        · rw [List.filter_cons_of_neg (by simpa [unexpired] using hfirst)]
          exact hscan
      · rename_i hfirst
        rw [if_neg hfirst] at h
        split
        · rename_i hkey
          exact ⟨[], first, bucket, rfl, hkey, Int64.not_le.mp hfirst,
            (fun x hx => by cases hx), rfl⟩
        · rename_i hkey
          rw [if_neg hkey] at h
          obtain ⟨before, other, after, rfl, hother, hexpires, hnew, hscan⟩ := ih h
          refine ⟨some first :: before, other, after, rfl, hother, hexpires,
            fun x hx hlt => ?_, ?_⟩
          · rcases List.mem_cons.mp hx with heq | hx
            · cases heq
              exact fun heq => hkey heq.symm
            · exact hnew x hx hlt
          · dsimp only
            rw [hscan, List.filter_cons_of_pos (by simpa [unexpired] using hfirst)]
            rfl

end ListBucket

/-! ## What is served -/

/-- The item has the value and the expiry of a store that no later one supersedes. -/
def Current (stores : List (V × Int64)) (x : CacheItem K V) : Prop :=
  ∃ before after, stores = before ++ (x.value, x.expires) :: after ∧
    ∀ later ∈ after, later.2 ≤ x.expires ∨ later.2 = 0

theorem Current.snoc {stores : List (V × Int64)} {x : CacheItem K V} {value : V}
    {expires : Int64} (h : Current stores x) (hle : expires ≤ x.expires ∨ expires = 0) :
    Current (stores ++ [(value, expires)]) x := by
  obtain ⟨before, after, rfl, hafter⟩ := h
  refine ⟨before, after ++ [(value, expires)], ?_, fun later hlater => ?_⟩
  · rw [List.append_assoc, List.cons_append]
  · rcases List.mem_append.mp hlater with hlater | hlater
    · exact hafter later hlater
    · rw [List.mem_singleton.mp hlater]
      exact hle

theorem current_last (stores : List (V × Int64)) (x : CacheItem K V) :
    Current (stores ++ [(x.value, x.expires)]) x :=
  ⟨stores, [], rfl, fun _ hlater => by cases hlater⟩

theorem Current.freshen {stores : List (V × Int64)} {other : CacheItem K V}
    (h : Current stores other) (item : CacheItem K V) :
    Current (stores ++ [(item.value, item.expires)]) (ListBucket.freshen item other) := by
  unfold ListBucket.freshen
  split
  · exact current_last stores { other with expires := item.expires, value := item.value }
  · rename_i hle
    exact h.snoc (.inl (Int64.not_lt.mp hle))

theorem freshen_key (item other : CacheItem K V) :
    (ListBucket.freshen item other).key = other.key := by
  unfold ListBucket.freshen
  split
  · rfl
  · rfl

/-- The items of a bucket belong to it, are current, and have different keys. -/
structure Kept (H : Hashing K) (stores : K → List (V × Int64)) (i : Int32)
    (bucket : ListBucket K V) : Prop where
  belongs : ∀ x, some x ∈ bucket → H.getBucket x.key = i
  current : ∀ x, some x ∈ bucket → Current (stores x.key) x
  distinct : ListBucket.Distinct bucket

section

variable {H : Hashing K} {stores : K → List (V × Int64)} {i : Int32} {bucket : ListBucket K V}

theorem Kept.nil : Kept H stores i [] :=
  ⟨(fun _ hx => by cases hx), (fun _ hx => by cases hx), .nil⟩

theorem Kept.sublist {bucket' : ListBucket K V} (h : Kept H stores i bucket)
    (hsub : bucket'.Sublist bucket) : Kept H stores i bucket' where
  belongs x hx := h.belongs x (hsub.subset hx)
  current x hx := h.current x (hsub.subset hx)
  distinct := h.distinct.sublist hsub

theorem Kept.lose (h : Kept H stores i bucket) (lost : Nat → Bool) :
    Kept H stores i (ListBucket.lose lost bucket) where
  belongs x hx := h.belongs x (ListBucket.mem_lose hx)
  current x hx := h.current x (ListBucket.mem_lose hx)
  distinct := h.distinct.lose lost

variable [DecidableEq K] {key : K}

theorem Kept.update (h : Kept H stores i bucket) (hkey : ∀ x, some x ∈ bucket → x.key ≠ key)
    (l : List (V × Int64)) : Kept H (Function.update stores key l) i bucket where
  belongs := h.belongs
  current x hx := by
    rw [Function.update_of_ne (hkey x hx)]
    exact h.current x hx
  distinct := h.distinct

theorem Kept.update_elsewhere (h : Kept H stores i bucket) (hi : i ≠ H.getBucket key)
    (l : List (V × Int64)) : Kept H (Function.update stores key l) i bucket :=
  h.update (fun x hx heq => hi (by rw [← h.belongs x hx, heq])) l

theorem Kept.clear (h : Kept H stores i bucket) (key : K) :
    Kept H (Function.update stores key []) i (ListBucket.clear key bucket) := by
  refine (h.sublist List.filter_sublist).update (fun x hx => ?_) []
  exact of_decide_eq_true (List.mem_filter.mp hx).2

theorem Kept.found {before after : ListBucket K V} {item other : CacheItem K V}
    {kept : ListBucket K V} (h : Kept H stores i (before ++ some other :: after))
    (hkey : item.key = other.key) (hsub : kept.Sublist before)
    (hnew : ∀ x, some x ∈ kept → x.key ≠ item.key) :
    Kept H (Function.update stores item.key (stores item.key ++ [(item.value, item.expires)])) i
      (kept ++ some (ListBucket.freshen item other) :: after) := by
  have hother : some other ∈ before ++ some other :: after :=
    List.mem_append_right _ List.mem_cons_self
  obtain ⟨hbefore, hcons, hacross⟩ := List.pairwise_append.mp h.distinct
  obtain ⟨hhead, hafter⟩ := List.pairwise_cons.mp hcons
  have hsame := freshen_key item other
  refine ⟨fun x hx => ?_, fun x hx => ?_, ?_⟩
  · rcases List.mem_append.mp hx with hx | hx
    · exact h.belongs x (List.mem_append_left _ (hsub.subset hx))
    · rcases List.mem_cons.mp hx with heq | hx
      · rw [Option.some.inj heq, hsame]
        exact h.belongs other hother
      · exact h.belongs x (List.mem_append_right _ (List.mem_cons_of_mem _ hx))
  · rcases List.mem_append.mp hx with hx | hx
    · rw [Function.update_of_ne (hnew x hx)]
      exact h.current x (List.mem_append_left _ (hsub.subset hx))
    · rcases List.mem_cons.mp hx with heq | hx
      · rw [Option.some.inj heq, hsame, hkey, Function.update_self]
        exact (h.current other hother).freshen item
      · have hne : x.key ≠ item.key := by
          rw [hkey]
          exact (hhead (some x) hx other x rfl rfl).symm
        rw [Function.update_of_ne hne]
        exact h.current x (List.mem_append_right _ (List.mem_cons_of_mem _ hx))
  · refine List.pairwise_append.mpr ⟨hbefore.sublist hsub, ?_, ?_⟩
    · refine List.pairwise_cons.mpr ⟨fun b hb x y hx hy => ?_, hafter⟩
      rw [← Option.some.inj hx, hsame]
      exact hhead b hb other y rfl hy
    · intro a ha b hb x y hx hy
      rcases List.mem_cons.mp hb with rfl | hb
      · subst hx
        rw [← Option.some.inj hy, hsame, ← hkey]
        exact hnew x ha
      · exact hacross a (hsub.subset ha) b (List.mem_cons_of_mem _ hb) x y hx hy

theorem Kept.add {item : CacheItem K V} (h : Kept H stores i bucket)
    (hi : H.getBucket item.key = i) (hnew : ∀ x, some x ∈ bucket → x.key ≠ item.key) :
    Kept H (Function.update stores item.key (stores item.key ++ [(item.value, item.expires)])) i
      (ListBucket.add item bucket) := by
  have hsub : (if bucket.length > ListBucket.maxBucketSize then ListBucket.purge bucket
      else bucket).Sublist bucket := by
    split
    · exact ListBucket.purge_sublist bucket
    · exact .refl _
  have hkept := (h.update hnew (stores item.key ++ [(item.value, item.expires)])).sublist hsub
  refine ⟨fun x hx => ?_, fun x hx => ?_, ?_⟩
  · rcases List.mem_append.mp hx with hx | hx
    · exact hkept.belongs x hx
    · rw [Option.some.inj (List.mem_singleton.mp hx)]
      exact hi
  · rcases List.mem_append.mp hx with hx | hx
    · exact hkept.current x hx
    · rw [Option.some.inj (List.mem_singleton.mp hx), Function.update_self]
      exact current_last _ item
  · refine List.pairwise_append.mpr ⟨hkept.distinct, List.pairwise_singleton .., ?_⟩
    intro a ha b hb x y hx hy
    subst hx
    rw [List.mem_singleton.mp hb] at hy
    rw [← Option.some.inj hy]
    exact hnew x (hsub.subset ha)

theorem Kept.store (h : Kept H stores i bucket) {item : CacheItem K V}
    (hi : H.getBucket item.key = i) (now : Int64) (lost : Nat → Bool) :
    Kept H (Function.update stores item.key (stores item.key ++ [(item.value, item.expires)])) i
      (ListBucket.store now item lost bucket) := by
  unfold ListBucket.store
  split
  · rename_i hzero
    refine ⟨h.belongs, fun x hx => ?_, h.distinct⟩
    by_cases hx' : x.key = item.key
    · rw [hx', Function.update_self]
      rw [← hx']
      exact (h.current x hx).snoc (.inr hzero)
    · rw [Function.update_of_ne hx']
      exact h.current x hx
  · dsimp only
    split
    · rename_i hfound
      obtain ⟨before, other, after, rfl, hkey, -, hnew, hscan⟩ := ListBucket.scan_found hfound
      rw [hscan]
      refine h.found hkey List.filter_sublist fun x hx => ?_
      obtain ⟨hx, hexpires⟩ := List.mem_filter.mp hx
      exact hnew x hx (of_decide_eq_true hexpires)
    · rename_i hfound
      obtain ⟨hfilter, hnew⟩ := ListBucket.scan_new (Bool.eq_false_iff.mpr hfound)
      have hsub : (ListBucket.scan now item bucket).1.Sublist bucket := by
        rw [hfilter]
        exact List.filter_sublist
      exact ((h.sublist hsub).lose lost).add hi
        fun x hx => hnew x (ListBucket.mem_lose hx)

end

namespace GenericObjectCache

variable {H : Hashing K} {s t : GenericObjectCache K V}

structure Inv (H : Hashing K) (s : GenericObjectCache K V) : Prop where
  kept : ∀ i, Kept H s.stores i (s.buckets i)
  clock : 0 ≤ s.clock

theorem setBucket_self (s : GenericObjectCache K V) (i : Int32) (bucket : ListBucket K V) :
    (s.setBucket i bucket).buckets i = bucket :=
  Function.update_self ..

theorem setBucket_of_ne {i j : Int32} (h : j ≠ i) (s : GenericObjectCache K V)
    (bucket : ListBucket K V) : (s.setBucket i bucket).buckets j = s.buckets j :=
  Function.update_of_ne h ..

theorem mem_of_setBucket {i j : Int32} {bucket : ListBucket K V} {x : CacheItem K V}
    (h : some x ∈ (s.setBucket i bucket).buckets j) : some x ∈ bucket ∨ some x ∈ s.buckets j := by
  by_cases hj : j = i
  · subst hj
    rw [setBucket_self] at h
    exact .inl h
  · rw [setBucket_of_ne hj] at h
    exact .inr h

theorem mem_setBucket {i j : Int32} {bucket : ListBucket K V} {x : CacheItem K V}
    (hx : some x ∈ s.buckets j) (hbucket : j = i → some x ∈ bucket) :
    some x ∈ (s.setBucket i bucket).buckets j := by
  by_cases hj : j = i
  · have h := hbucket hj
    subst hj
    rw [setBucket_self]
    exact h
  · rw [setBucket_of_ne hj]
    exact hx

theorem Inv.setBucket (h : Inv H s) {i : Int32} {bucket : ListBucket K V}
    (hbucket : Kept H s.stores i bucket) : Inv H (s.setBucket i bucket) where
  kept j := by
    by_cases hj : j = i
    · subst hj
      rw [setBucket_self]
      exact hbucket
    · rw [setBucket_of_ne hj]
      exact h.kept j
  clock := h.clock

theorem Inv.setClock (h : Inv H s) {now : Int64} (hnow : ¬ now < s.clock) :
    Inv H { s with clock := now } where
  kept := h.kept
  clock := Int64.le_trans h.clock (Int64.not_lt.mp hnow)

variable [DecidableEq K]

theorem Inv.setStores (h : Inv H s) {key : K} {bucket : ListBucket K V} {l : List (V × Int64)}
    (hbucket : Kept H (Function.update s.stores key l) (H.getBucket key) bucket) :
    Inv H { s.setBucket (H.getBucket key) bucket with
      stores := Function.update s.stores key l } where
  kept j := by
    by_cases hj : j = H.getBucket key
    · subst hj
      rw [setBucket_self]
      exact hbucket
    · rw [setBucket_of_ne hj]
      exact (h.kept j).update_elsewhere hj l
  clock := h.clock

theorem Inv.init (h : (machine H).Init s) : Inv H s where
  kept i := by
    rw [h.1 i]
    exact .nil
  clock := h.2.2

theorem Inv.step (h : Inv H s) {a : Action K V} (hstep : step H s a = some t) : Inv H t := by
  cases a with
  | hit now key =>
    rw [GenericObjectCache.step] at hstep
    split at hstep
    · cases hstep
    · rename_i hnow
      cases hstep
      have hbucket := (h.kept (H.getBucket key)).sublist
        (@ListBucket.hit_sublist K V _ now key (s.buckets (H.getBucket key)))
      exact (h.setBucket hbucket).setClock hnow
  | store now key value expires lost =>
    rw [GenericObjectCache.step] at hstep
    split at hstep
    · cases hstep
    · rename_i hnow
      cases hstep
      have hbucket := @Kept.store _ _ _ _ _ _ _ (h.kept (H.getBucket key))
        ⟨key, value, expires⟩ rfl now lost
      exact (h.setStores hbucket).setClock hnow
  | clear =>
    cases hstep
    exact ⟨fun i => .nil, h.clock⟩
  | clearKey key =>
    cases hstep
    exact h.setStores ((h.kept (H.getBucket key)).clear key)
  | lose i lost =>
    cases hstep
    exact h.setBucket ((h.kept i).lose lost)

theorem Inv.of_reachable (h : (machine H).Reachable s) : Inv H s :=
  h.invariant (Inv H) (fun _ => Inv.init) fun _ _ _ hinv hstep => hinv.step hstep

/-- What a hit returns was stored since the last clear, has not expired, and no later store
of the key expires later. -/
theorem serves_current (H : Hashing K) (hs : (machine H).Reachable s) :
    (∀ key now value, s.clock ≤ now →
      (ListBucket.hit now key (s.buckets (H.getBucket key))).2 = some value →
      ∃ before expires after, s.stores key = before ++ (value, expires) :: after ∧
        now < expires ∧ ∀ later ∈ after, later.2 ≤ expires) ∧
    (∀ i key now, (s.buckets i).countP (ListBucket.holds key now) ≤ 1) ∧
    ∀ key, 0 ≤ H.getBucket key ∧ H.getBucket key < H.nBuckets := by
  have hinv := Inv.of_reachable hs
  refine ⟨fun key now value hnow hhit => ?_, fun i key now => ?_, H.getBucket_valid⟩
  · obtain ⟨x, hx, rfl, rfl, hexpires⟩ := ListBucket.hit_eq_some hhit
    obtain ⟨before, after, heq, hafter⟩ := (hinv.kept _).current x hx
    refine ⟨before, x.expires, after, heq, hexpires, fun later hlater => ?_⟩
    rcases hafter later hlater with hle | hzero
    · exact hle
    · -- a store with expiry 0 is ignored, and 0 is not after the clock
      rw [hzero]
      exact Int64.le_trans hinv.clock (Int64.le_trans hnow (Int64.le_of_lt hexpires))
  · exact ListBucket.holds_once (hinv.kept i).distinct key now

/-- Keys with negative hash codes, and all in one bucket. -/
def collide : Hashing Nat := ⟨fun _ => -16, 16, by decide⟩

def empty : GenericObjectCache K V := ⟨fun _ => [], 0, fun _ => []⟩

theorem empty_init : (machine H).Init (empty : GenericObjectCache K V) :=
  ⟨fun _ => rfl, fun _ => rfl, Int64.le_refl 0⟩

/-- The value 5 is stored at 10 and asked for at 15. -/
theorem serves_current_stored : ∃ s : GenericObjectCache Nat Nat, (machine collide).Reachable s ∧
    (ListBucket.hit 15 7 (s.buckets (collide.getBucket 7))).2 = some 5 ∧
    ∃ before expires after, s.stores 7 = before ++ (5, expires) :: after ∧
      15 < expires ∧ ∀ later ∈ after, later.2 ≤ expires := by
  have hs : (machine collide).Reachable _ :=
    Machine.Reachable.step (a := .store 10 7 5 20 fun _ => false) (.start empty_init) rfl
  refine ⟨_, hs, ?_, (serves_current collide hs).1 7 15 5 ?_ ?_⟩
  · decide
  · decide
  · decide

end GenericObjectCache

end AlmondAndroid.Ui
