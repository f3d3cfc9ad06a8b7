import AlmondAndroid.Ui.GenericObjectCache

/-!
# Eviction from the object cache

A store into a bucket that is too full is meant to take out a lost reference, or else the item
that expires first. The minimum of the loop does not follow the items, so that the last item
that expires before `Long.MAX_VALUE` goes; and the size is tested before the new item is added.
-/

namespace AlmondAndroid.Ui

open Library

universe u v

variable {K : Type u} {V : Type v}

namespace ListBucket

/-- The stated policy: a lost reference if there is one, or else an item that expires
first. -/
def ExpiresFirst (bucket : ListBucket K V) : Option (CacheItem K V) → Prop
  | none => True
  | some x => none ∉ bucket ∧ ∀ y, some y ∈ bucket → x.expires ≤ y.expires

/-- The last item that expires before `Long.MAX_VALUE` expires first. -/
def LastExpiresFirst (bucket : ListBucket K V) : Prop :=
  ∃ before x after, bucket = before ++ some x :: after ∧ x.expires < Int64.maxValue ∧
    (∀ y, some y ∈ after → ¬ y.expires < Int64.maxValue) ∧
    ∀ y, some y ∈ bucket → x.expires ≤ y.expires

/-- What is left in the bucket for a store of a new key. -/
def remaining (now : Int64) (lost : Nat → Bool) (bucket : ListBucket K V) : ListBucket K V :=
  lose lost (bucket.filter (unexpired now))

section

variable {bucket : ListBucket K V} {min : Int64}

theorem findToRemove_skip (hnone : none ∉ bucket)
    (hlt : ∀ y, some y ∈ bucket → ¬ y.expires < min) :
    ∀ i found, findToRemove i found min bucket = found := by
  induction bucket with
  | nil => exact fun _ _ => rfl
  | cons reference bucket ih =>
    intro i found
    cases reference with
    | none => exact absurd List.mem_cons_self hnone
    | some x =>
      rw [findToRemove, if_neg (hlt x List.mem_cons_self)]
      exact ih (fun h => hnone (List.mem_cons_of_mem _ h))
        (fun y hy => hlt y (List.mem_cons_of_mem _ hy)) _ _

theorem findToRemove_lost (hnone : none ∈ bucket)
    (hpos : ∀ y, some y ∈ bucket → 0 ≤ y.expires) :
    ∀ i found min, ∃ before after, bucket = before ++ none :: after ∧
      findToRemove i found min bucket = some (i + before.length) := by
  induction bucket with
  | nil => cases hnone
  | cons reference bucket ih =>
    intro i found min
    have hpos' : ∀ y, some y ∈ bucket → 0 ≤ y.expires :=
      fun y hy => hpos y (List.mem_cons_of_mem _ hy)
    by_cases hrest : none ∈ bucket
    · have hnext : ∀ found min, ∃ before after,
          reference :: bucket = before ++ none :: after ∧
            findToRemove (i + 1) found min bucket = some (i + before.length) := by
        intro found min
        obtain ⟨before, after, rfl, heq⟩ := ih hrest hpos' (i + 1) found min
        refine ⟨reference :: before, after, rfl, ?_⟩
        rw [heq, List.length_cons, Nat.add_assoc, Nat.add_comm 1]
      cases reference with
      | none => exact hnext _ _
      | some x =>
        rw [findToRemove]
        split
        · exact hnext _ _
        · exact hnext _ _
    · rcases List.mem_cons.mp hnone with rfl | hmem
      · refine ⟨[], bucket, rfl, ?_⟩
        rw [findToRemove]
        exact findToRemove_skip hrest (fun y hy => Int64.not_lt.mpr (hpos' y hy)) _ _
      · exact absurd hmem hrest

/-- Without lost references, the last item that expires before `min` is the one to remove. -/
theorem findToRemove_last {before after : ListBucket K V} {x : CacheItem K V}
    (hnone : none ∉ before) (hnone' : none ∉ after) (hx : x.expires < min)
    (hafter : ∀ y, some y ∈ after → ¬ y.expires < min) :
    ∀ i found, findToRemove i found min (before ++ some x :: after) =
      some (i + before.length) := by
  induction before with
  | nil =>
    intro i found
    rw [List.nil_append, findToRemove, if_pos hx]
    exact findToRemove_skip hnone' hafter _ _
  | cons reference before ih =>
    intro i found
    have hrest := ih fun h => hnone (List.mem_cons_of_mem _ h)
    have hlength : some (i + 1 + before.length) = some (i + (reference :: before).length) := by
      rw [List.length_cons, Nat.add_assoc, Nat.add_comm 1]
    cases reference with
    | none => exact absurd List.mem_cons_self hnone
    | some y =>
      rw [List.cons_append, findToRemove]
      split
      · exact (hrest _ _).trans hlength
      · exact (hrest _ _).trans hlength

theorem exists_last (bucket : ListBucket K V) (min : Int64) :
    (∀ y, some y ∈ bucket → ¬ y.expires < min) ∨
      ∃ before x after, bucket = before ++ some x :: after ∧ x.expires < min ∧
        ∀ y, some y ∈ after → ¬ y.expires < min := by
  induction bucket with
  | nil => exact .inl fun y hy => by cases hy
  | cons reference bucket ih =>
    rcases ih with hall | ⟨before, x, after, rfl, hx, hafter⟩
    · by_cases hhead : ∃ x, reference = some x ∧ x.expires < min
      · obtain ⟨x, rfl, hx⟩ := hhead
        exact .inr ⟨[], x, bucket, rfl, hx, hall⟩
      · left
        intro y hy hlt
        rcases List.mem_cons.mp hy with heq | hy
        · exact hhead ⟨y, heq.symm, hlt⟩
        · exact hall y hy hlt
    · exact .inr ⟨reference :: before, x, after, rfl, hx, hafter⟩

end

/-- The entry that is purged is the right one exactly if a reference is lost or the last
item that expires before `Long.MAX_VALUE` expires first. -/
theorem purge_iff {bucket : ListBucket K V} (hdistinct : Distinct bucket)
    (hpos : ∀ y, some y ∈ bucket → 0 ≤ y.expires) :
    (∃ (i : Nat) (reference : Option (CacheItem K V)), bucket[i]? = some reference ∧
      ExpiresFirst bucket reference ∧ purge bucket = bucket.eraseIdx i) ↔
      none ∈ bucket ∨ LastExpiresFirst bucket := by
  by_cases hnone : none ∈ bucket
  · refine iff_of_true ?_ (.inl hnone)
    obtain ⟨before, after, heq, hremove⟩ := findToRemove_lost hnone hpos 0 none Int64.maxValue
    rw [Nat.zero_add] at hremove
    refine ⟨before.length, none, ?_, trivial, ?_⟩
    · rw [heq]
      simp
    · rw [purge, toRemove, hremove]
  · constructor
    · rintro ⟨i, reference, hi, hfirst, hpurge⟩
      right
      rcases exists_last bucket Int64.maxValue with hall | ⟨before, x, after, rfl, hx, hafter⟩
      · rw [purge, toRemove, findToRemove_skip hnone hall] at hpurge
        have hlt : i < bucket.length := (List.getElem?_eq_some_iff.mp hi).1
        have hlength := congrArg List.length hpurge
        rw [List.length_eraseIdx_of_lt hlt] at hlength
        dsimp only at hlength
        omega
      · have hremove : toRemove (before ++ some x :: after) = some before.length := by
          rw [toRemove, findToRemove_last (fun h => hnone (List.mem_append_left _ h))
            (fun h => hnone (List.mem_append_right _ (List.mem_cons_of_mem _ h))) hx hafter,
            Nat.zero_add]
        rw [purge, hremove] at hpurge
        dsimp only at hpurge
        have hat : (before ++ some x :: after)[before.length]? = some (some x) := by simp
        by_cases hsame : before.length = i
        · rw [← hsame, hat] at hi
          rw [← Option.some.inj hi] at hfirst
          exact ⟨before, x, after, rfl, hx, hafter, hfirst.2⟩
        · -- the item that was taken out would still be there
          exfalso
          have hmem : some x ∈ (before ++ some x :: after).eraseIdx before.length := by
            rw [hpurge]
            exact List.mem_eraseIdx_iff_getElem?.mpr ⟨before.length, hsame, hat⟩
          rw [List.eraseIdx_append_of_length_le (Nat.le_refl _), Nat.sub_self,
            List.eraseIdx_cons_zero] at hmem
          obtain ⟨-, hcons, hacross⟩ := List.pairwise_append.mp hdistinct
          rcases List.mem_append.mp hmem with hmem | hmem
          · exact hacross _ hmem _ List.mem_cons_self x x rfl rfl rfl
          · exact (List.pairwise_cons.mp hcons).1 _ hmem x x rfl rfl rfl
    · rintro (hmem | ⟨before, x, after, rfl, hx, hafter, hfirst⟩)
      · exact absurd hmem hnone
      · refine ⟨before.length, some x, by simp, ⟨hnone, hfirst⟩, ?_⟩
        rw [purge, toRemove, findToRemove_last (fun h => hnone (List.mem_append_left _ h))
          (fun h => hnone (List.mem_append_right _ (List.mem_cons_of_mem _ h))) hx hafter,
          Nat.zero_add]

theorem Distinct.filter {bucket : ListBucket K V} (h : Distinct bucket)
    (p : Option (CacheItem K V) → Bool) : Distinct (bucket.filter p) :=
  List.Pairwise.filter p h

theorem mem_remaining {now : Int64} {lost : Nat → Bool} {bucket : ListBucket K V}
    {x : CacheItem K V} (h : some x ∈ remaining now lost bucket) : now < x.expires :=
  of_decide_eq_true (List.mem_filter.mp (mem_lose h)).2

theorem length_purge (bucket : ListBucket K V) :
    bucket.length ≤ (purge bucket).length + 1 := by
  rw [purge]
  split
  · omega
  · rw [List.length_eraseIdx]
    split
    · omega
    · omega

theorem length_add (item : CacheItem K V) (bucket : ListBucket K V) :
    (add item bucket).length ≤ maxBucketSize ↔ bucket.length < maxBucketSize := by
  rw [add, List.length_append, List.length_singleton]
  split
  · have hpurge := length_purge bucket
    omega
  · omega

section

variable [DecidableEq K] {now : Int64} {item : CacheItem K V} {lost : Nat → Bool}
  {bucket : ListBucket K V}

theorem store_new (hexpires : item.expires ≠ 0)
    (hnew : ∀ reference ∈ bucket, holds item.key now reference = false) :
    store now item lost bucket = add item (remaining now lost bucket) := by
  have hscan : (scan now item bucket).2 = false := by
    refine Bool.eq_false_iff.mpr fun hfound => ?_
    obtain ⟨before, other, after, rfl, hkey, hlt, -⟩ := scan_found hfound
    have hother := hnew (some other) (List.mem_append_right _ List.mem_cons_self)
    exact of_decide_eq_false hother ⟨hkey.symm, hlt⟩
  rw [store, if_neg hexpires]
  dsimp only
  rw [hscan, (scan_new hscan).1]
  rfl

def scanned (key : K) (now : Int64) (bucket : ListBucket K V) : Nat :=
  ((bucket.takeWhile fun reference => !holds key now reference).filter (unexpired now)).length +
    (bucket.dropWhile fun reference => !holds key now reference).length

theorem scan_of_holds (hfound : ∃ reference ∈ bucket, holds item.key now reference = true) :
    (scan now item bucket).2 = true := by
  by_contra hscan
  obtain ⟨hfilter, hnew⟩ := scan_new (Bool.eq_false_iff.mpr hscan)
  obtain ⟨reference, hmem, hholds⟩ := hfound
  cases reference with
  | none => cases hholds
  | some x =>
    obtain ⟨hkey, hlt⟩ := of_decide_eq_true hholds
    refine hnew x ?_ hkey
    rw [hfilter]
    exact List.mem_filter.mpr ⟨hmem, decide_eq_true hlt⟩

theorem store_found (hexpires : item.expires ≠ 0)
    (hfound : ∃ reference ∈ bucket, holds item.key now reference = true) :
    (store now item lost bucket).length = scanned item.key now bucket := by
  have hscan := scan_of_holds hfound
  rw [store, if_neg hexpires]
  dsimp only
  rw [if_pos hscan]
  obtain ⟨before, other, after, rfl, hkey, hlt, hnew, hresult⟩ := scan_found hscan
  have hbefore : ∀ reference ∈ before, (!holds item.key now reference) = true := by
    intro reference hmem
    cases reference with
    | none => rfl
    | some x =>
      refine Bool.not_eq_true' _ ▸ decide_eq_false ?_
      rintro ⟨hx, hlt⟩
      exact hnew x hmem hlt hx
  have hother : ¬ (!holds item.key now (some other)) = true := by
    have hholds : holds item.key now (some other) = true := decide_eq_true ⟨hkey.symm, hlt⟩
    rw [hholds]
    decide
  have htake : (some other :: after).takeWhile (fun r => !holds item.key now r) = [] :=
    List.takeWhile_cons_of_neg hother
  have hdrop : (some other :: after).dropWhile (fun r => !holds item.key now r) =
      some other :: after := List.dropWhile_cons_of_neg hother
  rw [hresult, scanned, List.takeWhile_append_of_pos hbefore,
    List.dropWhile_append_of_pos hbefore, htake, hdrop, List.append_nil, List.length_append]
  rfl

/-- The store takes out one entry, which the stated policy allows. -/
def EvictsFirst (now : Int64) (item : CacheItem K V) (lost : Nat → Bool)
    (bucket : ListBucket K V) : Prop :=
  ∃ (i : Nat) (reference : Option (CacheItem K V)),
    (remaining now lost bucket)[i]? = some reference ∧
      ExpiresFirst (remaining now lost bucket) reference ∧
      store now item lost bucket = (remaining now lost bucket).eraseIdx i ++ [some item]

def Fits (now : Int64) (item : CacheItem K V) (lost : Nat → Bool) (bucket : ListBucket K V) :
    Prop :=
  if item.expires = 0 then bucket.length ≤ maxBucketSize
  else if ∃ reference ∈ bucket, holds item.key now reference = true then
    scanned item.key now bucket ≤ maxBucketSize
  else (remaining now lost bucket).length < maxBucketSize

instance : Decidable (Fits now item lost bucket) :=
  inferInstanceAs (Decidable (ite _ _ (ite _ _ _)))

theorem store_fits : (store now item lost bucket).length ≤ maxBucketSize ↔
    Fits now item lost bucket := by
  unfold Fits
  split
  · rename_i hzero
    rw [store, if_pos hzero]
  · rename_i hexpires
    split
    · rename_i hfound
      rw [store_found hexpires hfound]
    · rename_i hfound
      have hnew : ∀ reference ∈ bucket, holds item.key now reference = false :=
        fun reference hmem => Bool.eq_false_iff.mpr fun h => hfound ⟨reference, hmem, h⟩
      rw [store_new hexpires hnew, length_add]

theorem evictsFirst_iff (hexpires : item.expires ≠ 0)
    (hnew : ∀ reference ∈ bucket, holds item.key now reference = false)
    (hfull : maxBucketSize < (remaining now lost bucket).length)
    (hdistinct : Distinct bucket) (hnow : 0 ≤ now) :
    EvictsFirst now item lost bucket ↔
      none ∈ remaining now lost bucket ∨ LastExpiresFirst (remaining now lost bucket) := by
  have hpos : ∀ y, some y ∈ remaining now lost bucket → 0 ≤ y.expires :=
    fun y hy => Int64.le_trans hnow (Int64.le_of_lt (mem_remaining hy))
  have hremaining : Distinct (remaining now lost bucket) := (hdistinct.filter _).lose lost
  rw [← purge_iff hremaining hpos, EvictsFirst, store_new hexpires hnew, add, if_pos hfull]
  constructor
  · rintro ⟨i, reference, hi, hfirst, heq⟩
    exact ⟨i, reference, hi, hfirst, List.append_cancel_right heq⟩
  · rintro ⟨i, reference, hi, hfirst, heq⟩
    exact ⟨i, reference, hi, hfirst, congrArg (· ++ [some item]) heq⟩

end

end ListBucket

namespace GenericObjectCache

variable [DecidableEq K] {s : GenericObjectCache K V}

/-- When a store into a bucket that is too full takes out the entry that the policy names,
and when it leaves no more than `maxBucketSize` entries. -/
theorem eviction_iff (H : Hashing K) (hs : (machine H).Reachable s) {now : Int64}
    (hnow : s.clock ≤ now) (item : CacheItem K V) (lost : Nat → Bool)
    {bucket : ListBucket K V} (hbucket : s.buckets (H.getBucket item.key) = bucket) :
    (item.expires ≠ 0 →
      (∀ reference ∈ bucket, ListBucket.holds item.key now reference = false) →
      ListBucket.maxBucketSize < (ListBucket.remaining now lost bucket).length →
      (ListBucket.EvictsFirst now item lost bucket ↔
        none ∈ ListBucket.remaining now lost bucket ∨
          ListBucket.LastExpiresFirst (ListBucket.remaining now lost bucket))) ∧
    ((ListBucket.store now item lost bucket).length ≤ ListBucket.maxBucketSize ↔
      ListBucket.Fits now item lost bucket) := by
  have hinv := Inv.of_reachable hs
  have hkept := hinv.kept (H.getBucket item.key)
  rw [hbucket] at hkept
  refine ⟨fun hexpires hnew hfull => ?_, ListBucket.store_fits⟩
  exact ListBucket.evictsFirst_iff hexpires hnew hfull hkept.distinct
    (Int64.le_trans hinv.clock hnow)

def itemsFrom (key : Nat) : List Int64 → ListBucket Nat Nat
  | [] => []
  | expires :: rest => some ⟨key, 0, expires⟩ :: itemsFrom (key + 1) rest

def storesFrom (key : Nat) : List Int64 → List (Action Nat Nat)
  | [] => []
  | expires :: rest => .store 0 key 0 expires (fun _ => false) :: storesFrom (key + 1) rest

/-- Four items of which the last expires first, and a fifth. -/
theorem eviction_iff_descending :
    ListBucket.EvictsFirst 0 ⟨4, 0, 50⟩ (fun _ => false) (itemsFrom 0 [40, 30, 20, 10]) ∧
      ¬ (ListBucket.store 0 ⟨4, 0, 50⟩ (fun _ => false) (itemsFrom 0 [40, 30, 20, 10])).length ≤
        ListBucket.maxBucketSize := by
  obtain ⟨s, hrun, hbucket, hclock⟩ : ∃ s, (machine collide).run empty
      (storesFrom 0 [40, 30, 20, 10]) = some s ∧
        s.buckets (collide.getBucket 4) = itemsFrom 0 [40, 30, 20, 10] ∧ s.clock = 0 :=
    ⟨_, rfl, by decide, rfl⟩
  have hs := Machine.Reachable.run (.start empty_init) hrun
  have hiff := eviction_iff collide hs (Int64.le_of_eq hclock) ⟨4, 0, 50⟩ (fun _ => false) hbucket
  constructor
  · refine (hiff.1 (by decide) (by decide) (by decide)).mpr (.inr ?_)
    have hall : ∀ r ∈ itemsFrom 0 [40, 30, 20, 10], r.all (fun y => 10 ≤ y.expires) = true := by
      decide
    exact ⟨itemsFrom 0 [40, 30, 20], ⟨3, 0, 10⟩, [], rfl, by decide, (fun y hy => by cases hy),
      fun y hy => of_decide_eq_true (hall _ hy)⟩
  · rw [hiff.2]
    decide

/-- Of four items the one that expires last goes, and four are left. -/
theorem evicts_last : ∃ s : GenericObjectCache Nat Nat, (machine collide).Reachable s ∧
    s.clock ≤ 0 ∧ s.buckets (collide.getBucket 4) = itemsFrom 0 [10, 20, 30, 40] ∧
    (∀ reference ∈ itemsFrom 0 [10, 20, 30, 40], ListBucket.holds 4 0 reference = false) ∧
    ListBucket.maxBucketSize <
      (ListBucket.remaining 0 (fun _ => false) (itemsFrom 0 [10, 20, 30, 40])).length ∧
    ¬ ListBucket.EvictsFirst 0 ⟨4, 0, 50⟩ (fun _ => false) (itemsFrom 0 [10, 20, 30, 40]) ∧
    ¬ (ListBucket.store 0 ⟨4, 0, 50⟩ (fun _ => false) (itemsFrom 0 [10, 20, 30, 40])).length ≤
      ListBucket.maxBucketSize := by
  obtain ⟨s, hrun, hbucket, hclock⟩ : ∃ s, (machine collide).run empty
      (storesFrom 0 [10, 20, 30, 40]) = some s ∧
        s.buckets (collide.getBucket 4) = itemsFrom 0 [10, 20, 30, 40] ∧ s.clock = 0 :=
    ⟨_, rfl, by decide, rfl⟩
  have hs := Machine.Reachable.run (.start empty_init) hrun
  refine ⟨s, hs, Int64.le_of_eq hclock, hbucket, by decide, by decide, ?_, by decide⟩
  rintro ⟨i, reference, hi, hfirst, hstore⟩
  match i with
  | 0 => exact absurd hstore (by decide)
  | 1 => exact absurd hstore (by decide)
  | 2 => exact absurd hstore (by decide)
  | 3 =>
    rw [← Option.some.inj hi] at hfirst
    exact absurd (hfirst.2 ⟨0, 0, 10⟩ (by decide)) (by decide)
  | n + 4 => cases hi

end GenericObjectCache

/-! ## What stays -/

namespace ListBucket

def Spares (key : K) (lost : Nat → Bool) (bucket : ListBucket K V) : Prop :=
  ∀ i x, bucket[i]? = some (some x) → x.key = key → lost i = false

def Passes (key : K) (bucket : ListBucket K V) : Prop :=
  ∀ i x, toRemove bucket = some i → bucket[i]? = some (some x) → x.key ≠ key

section

variable {now : Int64} {lost : Nat → Bool} {bucket : ListBucket K V} {x : CacheItem K V}

theorem mem_lose_of_spares (h : some x ∈ bucket) (hspares : Spares x.key lost bucket) :
    some x ∈ lose lost bucket := by
  obtain ⟨i, hi⟩ := List.mem_iff_getElem?.mp h
  refine List.mem_iff_getElem?.mpr ⟨i, ?_⟩
  rw [lose, List.getElem?_mapIdx, hi, Option.map_some, hspares i x hi rfl]
  rfl

theorem mem_purge_of_passes (h : some x ∈ bucket) (hpasses : Passes x.key bucket) :
    some x ∈ purge bucket := by
  rw [purge]
  split
  · exact h
  · rename_i i hremove
    obtain ⟨j, hj⟩ := List.mem_iff_getElem?.mp h
    refine List.mem_eraseIdx_iff_getElem?.mpr ⟨j, ?_, hj⟩
    rintro rfl
    exact hpasses j x hremove hj rfl

theorem Distinct.eq_of_key {y : CacheItem K V} (h : Distinct bucket) (hx : some x ∈ bucket)
    (hy : some y ∈ bucket) (hkey : x.key = y.key) : x = y := by
  induction bucket with
  | nil => cases hx
  | cons reference bucket ih =>
    obtain ⟨hhead, htail⟩ := List.pairwise_cons.mp h
    rcases List.mem_cons.mp hx with rfl | hx'
    · rcases List.mem_cons.mp hy with heq | hy'
      · exact (Option.some.inj heq).symm
      · exact absurd hkey (hhead _ hy' x y rfl rfl)
    · rcases List.mem_cons.mp hy with rfl | hy'
      · exact absurd hkey.symm (hhead _ hx' y x rfl rfl)
      · exact ih htail hx' hy'

variable [DecidableEq K] {item : CacheItem K V} {key : K}

theorem mem_hit (h : some x ∈ bucket) (hlt : now < x.expires) :
    some x ∈ (hit now key bucket).1 := by
  induction bucket with
  | nil => cases h
  | cons reference bucket ih =>
    cases reference with
    | none =>
      rcases List.mem_cons.mp h with heq | h
      · cases heq
      · exact ih h
    | some other =>
      rw [hit]
      split
      · rename_i hexpires
        rcases List.mem_cons.mp h with heq | h
        · cases heq
          exact absurd hlt (Int64.not_lt.mpr hexpires)
        · exact ih h
      · split
        · exact h
        · rcases List.mem_cons.mp h with heq | h
          · rw [heq]
            exact List.mem_cons_self
          · exact List.mem_cons_of_mem _ (ih h)

theorem hit_ne_none (h : some x ∈ bucket) (hlt : now < x.expires) :
    (hit now x.key bucket).2 ≠ none := by
  induction bucket with
  | nil => cases h
  | cons reference bucket ih =>
    cases reference with
    | none =>
      rcases List.mem_cons.mp h with heq | h
      · cases heq
      · exact ih h
    | some other =>
      rw [hit]
      split
      · rename_i hexpires
        rcases List.mem_cons.mp h with heq | h
        · cases heq
          exact absurd hlt (Int64.not_lt.mpr hexpires)
        · exact ih h
      · split
        · exact Option.some_ne_none _
        · rename_i hkey
          rcases List.mem_cons.mp h with heq | h
          · cases heq
            exact absurd rfl hkey
          · exact ih h

theorem hit_of_mem (hdistinct : Distinct bucket) (h : some x ∈ bucket) (hlt : now < x.expires) :
    (hit now x.key bucket).2 = some x.value := by
  obtain ⟨value, hvalue⟩ := Option.ne_none_iff_exists'.mp (hit_ne_none h hlt)
  obtain ⟨y, hy, hkey, rfl, -⟩ := hit_eq_some hvalue
  rw [hvalue, hdistinct.eq_of_key hy h hkey]

theorem mem_scan_found (hscan : (scan now item bucket).2 = true) (h : some x ∈ bucket)
    (hlt : now < x.expires) (hle : item.key = x.key → item.expires ≤ x.expires) :
    some x ∈ (scan now item bucket).1 := by
  obtain ⟨before, other, after, rfl, hkey, -, -, heq⟩ := scan_found hscan
  rw [heq]
  rcases List.mem_append.mp h with h | h
  · exact List.mem_append_left _ (List.mem_filter.mpr ⟨h, decide_eq_true hlt⟩)
  · refine List.mem_append_right _ ?_
    rcases List.mem_cons.mp h with heq | h
    · cases heq
      rw [freshen, if_neg (Int64.not_lt.mpr (hle hkey))]
      exact List.mem_cons_self
    · exact List.mem_cons_of_mem _ h

theorem mem_store_found (hfound : ∃ reference ∈ bucket, holds item.key now reference = true)
    (h : some x ∈ bucket) (hlt : now < x.expires)
    (hle : item.key = x.key → item.expires ≤ x.expires) :
    some x ∈ store now item lost bucket := by
  have hscan := scan_of_holds hfound
  unfold store
  split
  · exact h
  · dsimp only
    rw [if_pos hscan]
    exact mem_scan_found hscan h hlt hle

theorem mem_store (h : some x ∈ bucket) (hlt : now < x.expires)
    (hle : item.key = x.key → item.expires ≤ x.expires)
    (hspares : Spares x.key lost (bucket.filter (unexpired now)))
    (hpasses : Passes x.key (remaining now lost bucket)) :
    some x ∈ store now item lost bucket := by
  unfold store
  split
  · exact h
  · dsimp only
    split
    · rename_i hfound
      exact mem_scan_found hfound h hlt hle
    · rename_i hfound
      obtain ⟨hfilter, -⟩ := scan_new (Bool.eq_false_iff.mpr hfound)
      rw [hfilter]
      have hremaining : some x ∈ remaining now lost bucket :=
        mem_lose_of_spares (List.mem_filter.mpr ⟨h, decide_eq_true hlt⟩) hspares
      refine List.mem_append_left _ ?_
      split
      · exact mem_purge_of_passes hremaining hpasses
      · exact hremaining

theorem expires_store (h : some x ∈ store now item lost bucket) :
    x.expires = item.expires ∨ ∃ y, some y ∈ bucket ∧ x.expires = y.expires := by
  unfold store at h
  split at h
  · exact .inr ⟨x, h, rfl⟩
  · dsimp only at h
    split at h
    · rename_i hfound
      obtain ⟨before, other, after, rfl, -, -, -, hscan⟩ := scan_found hfound
      rw [hscan] at h
      rcases List.mem_append.mp h with h | h
      · exact .inr ⟨x, List.mem_append_left _ (List.mem_filter.mp h).1, rfl⟩
      · rcases List.mem_cons.mp h with heq | h
        · rw [Option.some.inj heq, freshen]
          split
          · exact .inl rfl
          · exact .inr ⟨other, List.mem_append_right _ List.mem_cons_self, rfl⟩
        · exact .inr ⟨x, List.mem_append_right _ (List.mem_cons_of_mem _ h), rfl⟩
    · rename_i hfound
      obtain ⟨hfilter, -⟩ := scan_new (Bool.eq_false_iff.mpr hfound)
      rw [hfilter] at h
      rcases List.mem_append.mp h with h | h
      · have hremaining : some x ∈ lose lost (bucket.filter (unexpired now)) := by
          split at h
          · exact (purge_sublist _).subset h
          · exact h
        exact .inr ⟨x, (List.mem_filter.mp (mem_lose hremaining)).1, rfl⟩
      · rw [Option.some.inj (List.mem_singleton.mp h)]
        exact .inl rfl

theorem item_mem_store (hexpires : item.expires ≠ 0)
    (hnew : ∀ reference ∈ bucket, holds item.key now reference = false) :
    some item ∈ store now item lost bucket := by
  rw [store_new hexpires hnew]
  exact List.mem_append_right _ (List.mem_singleton_self _)

end

end ListBucket

end AlmondAndroid.Ui
