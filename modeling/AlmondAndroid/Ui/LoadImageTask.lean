import AlmondAndroid.Ui.CacheEviction
import AlmondAndroid.Library.Table

/-!
# Loading images into views

`LoadImageTask.load` draws a cached drawable at once and otherwise starts a task, which draws
what it has downloaded when it has ended. The cache is given the number of milliseconds of an
hour where it expects a time.
-/

namespace AlmondAndroid.Ui

open Library

universe u v w

variable {View : Type u} {Url : Type v} {Drawable : Type w}

inductive Picture (Drawable : Type w)
  | drawable (drawable : Drawable)
  | stat_notify_error

/-- Where `doInBackground` is: before the download, at the end of the `try` block, where the
stream is closed, and after its return. -/
inductive LoadStage (Drawable : Type w)
  | reading
  | closing (drawable : Option Drawable)
  | returned (drawable : Option Drawable)

structure ImageLoad (View : Type u) (Url : Type v) (Drawable : Type w) where
  view : View
  url : Url
  stage : LoadStage Drawable

/-- `last` is the last load of each view, and `drawn` is what each load has drawn. A drawable
that could not be decoded is cached as `none`. -/
structure LoadImageTask (View : Type u) (Url : Type v) (Drawable : Type w) where
  cache : GenericObjectCache Url (Option Drawable)
  tasks : Nat → Option (ImageLoad View Url Drawable)
  loads : Nat
  shown : View → Option (Picture Drawable)
  last : View → Option Nat
  drawn : Nat → Option (Picture Drawable)

namespace LoadImageTask

/-- What `doInBackground` passes to `store` as the expiry, 1000 * 3600. -/
def EXPIRES : Int64 := 3600000

inductive Action (View : Type u) (Url : Type v) (Drawable : Type w)
  | load (now : Int64) (view : View) (url : Url)
  | readUrlFails (i : Nat)
  | store (now : Int64) (i : Nat) (drawable : Option Drawable) (lost : Nat → Bool)
  | close (i : Nat) (fails : Bool)
  | onPostExecute (i : Nat)
  | lose (bucket : Int32) (lost : Nat → Bool)

variable [DecidableEq View] [DecidableEq Url]

def setStage (s : LoadImageTask View Url Drawable) (i : Nat)
    (task : ImageLoad View Url Drawable) (stage : LoadStage Drawable) :
    LoadImageTask View Url Drawable :=
  { s with tasks := Function.update s.tasks i (some { task with stage := stage }) }

def draw (s : LoadImageTask View Url Drawable) (view : View) (picture : Picture Drawable) :
    LoadImageTask View Url Drawable :=
  { s with shown := Function.update s.shown view (some picture) }

/-- `setImageDrawable`, or `setImageResource` where there is no drawable. -/
def picture : Option Drawable → Picture Drawable
  | some d => .drawable d
  | none => .stat_notify_error

def cached (H : Hashing Url) (s : LoadImageTask View Url Drawable) (now : Int64) (url : Url) :
    Option Drawable :=
  (ListBucket.hit now url (s.cache.buckets (H.getBucket url))).2.join

def load (H : Hashing Url) (s : LoadImageTask View Url Drawable) (now : Int64) (view : View)
    (url : Url) (cache : GenericObjectCache Url (Option Drawable)) :
    LoadImageTask View Url Drawable :=
  let i := s.loads
  match cached H s now url with
  | some d =>
    { s.draw view (.drawable d) with
      cache := cache
      loads := i + 1
      last := Function.update s.last view (some i)
      drawn := Function.update s.drawn i (some (.drawable d)) }
  | none =>
    { s with
      cache := cache
      tasks := Function.update s.tasks i (some ⟨view, url, .reading⟩)
      loads := i + 1
      last := Function.update s.last view (some i) }

def onPostExecute (s : LoadImageTask View Url Drawable) (i : Nat) (view : View)
    (drawable : Option Drawable) : LoadImageTask View Url Drawable :=
  { s.draw view (picture drawable) with
    tasks := Function.update s.tasks i none
    drawn := Function.update s.drawn i (some (picture drawable)) }

def step (H : Hashing Url) (s : LoadImageTask View Url Drawable) :
    Action View Url Drawable → Option (LoadImageTask View Url Drawable)
  | .load now view url =>
    (GenericObjectCache.step H s.cache (.hit now url)).map (load H s now view url)
  | .readUrlFails i =>
    match s.tasks i with
    | some ⟨view, url, .reading⟩ => some (s.setStage i ⟨view, url, .reading⟩ (.returned none))
    | _ => none
  | .store now i drawable lost =>
    match s.tasks i with
    | some ⟨view, url, .reading⟩ =>
      (GenericObjectCache.step H s.cache (.store now url drawable EXPIRES lost)).map fun cache =>
        { s.setStage i ⟨view, url, .reading⟩ (.closing drawable) with cache := cache }
    | _ => none
  | .close i fails =>
    match s.tasks i with
    | some ⟨view, url, .closing drawable⟩ =>
      some (s.setStage i ⟨view, url, .closing drawable⟩
        (.returned (if fails then none else drawable)))
    | _ => none
  | .onPostExecute i =>
    match s.tasks i with
    | some ⟨view, _, .returned drawable⟩ => some (onPostExecute s i view drawable)
    | _ => none
  | .lose i lost =>
    (GenericObjectCache.step H s.cache (.lose i lost)).map fun cache => { s with cache := cache }

def machine (H : Hashing Url) :
    Machine (LoadImageTask View Url Drawable) (Action View Url Drawable) where
  Init s := (GenericObjectCache.machine H).Init s.cache ∧ (∀ i, s.tasks i = none) ∧
    (∀ i, s.drawn i = none) ∧ (∀ view, s.last view = none)
  step := step H

/-! ## An hour in the cache -/

section

variable {H : Hashing Url} {s t : LoadImageTask View Url Drawable} {a : Action View Url Drawable}

/-- What the tasks do with the cache. Nothing clears it. -/
def cacheAction (s : LoadImageTask View Url Drawable) :
    Action View Url Drawable → Option (GenericObjectCache.Action Url (Option Drawable))
  | .load now _ url => some (.hit now url)
  | .store now i drawable lost =>
    (s.tasks i).map fun task => .store now task.url drawable EXPIRES lost
  | .lose i lost => some (.lose i lost)
  | _ => none

theorem load_cache (H : Hashing Url) (s : LoadImageTask View Url Drawable) (now : Int64)
    (view : View) (url : Url) (cache : GenericObjectCache Url (Option Drawable)) :
    (load H s now view url cache).cache = cache := by
  unfold load
  dsimp only
  split
  · rfl
  · rfl

theorem step_cache (h : step H s a = some t) :
    (cacheAction s a = none ∧ t.cache = s.cache) ∨
      ∃ b, cacheAction s a = some b ∧ GenericObjectCache.step H s.cache b = some t.cache := by
  cases a with
  | load now view url =>
    obtain ⟨cache, hcache, rfl⟩ := Option.map_eq_some_iff.mp h
    refine .inr ⟨_, rfl, ?_⟩
    rw [load_cache]
    exact hcache
  | readUrlFails i =>
    rw [step] at h
    split at h
    · cases h
      exact .inl ⟨rfl, rfl⟩
    · cases h
  | store now i drawable lost =>
    rw [step] at h
    split at h
    · rename_i htask
      obtain ⟨cache, hcache, rfl⟩ := Option.map_eq_some_iff.mp h
      refine .inr ⟨_, ?_, hcache⟩
      rw [cacheAction, htask]
      rfl
    · cases h
  | close i fails =>
    rw [step] at h
    split at h
    · cases h
      exact .inl ⟨rfl, rfl⟩
    · cases h
  | onPostExecute i =>
    rw [step] at h
    split at h
    · cases h
      exact .inl ⟨rfl, rfl⟩
    · cases h
  | lose i lost =>
    rw [step] at h
    obtain ⟨cache, hcache, rfl⟩ := Option.map_eq_some_iff.mp h
    exact .inr ⟨_, rfl, hcache⟩

/-- Whatever is cached expires an hour after the epoch. -/
structure CacheInv (H : Hashing Url) (s : LoadImageTask View Url Drawable) : Prop where
  inv : GenericObjectCache.Inv H s.cache
  expires : ∀ i x, some x ∈ s.cache.buckets i → x.expires = EXPIRES

theorem CacheInv.step (h : CacheInv H s) (hstep : step H s a = some t) : CacheInv H t := by
  rcases step_cache hstep with ⟨-, hcache⟩ | ⟨b, hb, hcache⟩
  · exact ⟨hcache ▸ h.inv, hcache ▸ h.expires⟩
  · refine ⟨h.inv.step hcache, fun j x hx => ?_⟩
    cases a with
    | load now view url =>
      cases hb
      rw [GenericObjectCache.step] at hcache
      split at hcache
      · cases hcache
      · rw [← Option.some.inj hcache] at hx
        rcases GenericObjectCache.mem_of_setBucket hx with hx | hx
        · exact h.expires _ x ((ListBucket.hit_sublist _).subset hx)
        · exact h.expires j x hx
    | store now i drawable lost =>
      obtain ⟨task, -, rfl⟩ := Option.map_eq_some_iff.mp hb
      rw [GenericObjectCache.step] at hcache
      split at hcache
      · cases hcache
      · rw [← Option.some.inj hcache] at hx
        rcases GenericObjectCache.mem_of_setBucket hx with hx | hx
        · rcases ListBucket.expires_store hx with heq | ⟨y, hy, heq⟩
          · exact heq
          · exact heq.trans (h.expires _ y hy)
        · exact h.expires j x hx
    | lose i lost =>
      cases hb
      rw [← Option.some.inj hcache] at hx
      rcases GenericObjectCache.mem_of_setBucket hx with hx | hx
      · exact h.expires _ x (ListBucket.mem_lose hx)
      · exact h.expires j x hx
    | readUrlFails i => cases hb
    | close i fails => cases hb
    | onPostExecute i => cases hb

theorem CacheInv.of_reachable (h : (machine H).Reachable s) : CacheInv H s := by
  refine h.invariant (CacheInv H) (fun s hinit => ?_) fun _ _ _ hinv hstep => hinv.step hstep
  refine ⟨.init hinit.1, fun i x hx => ?_⟩
  rw [hinit.1.1 i] at hx
  cases hx

def Quiet (H : Hashing Url) (url : Url) (s : LoadImageTask View Url Drawable) :
    Action View Url Drawable → Prop
  | .store now i _ lost => ∀ task, s.tasks i = some task →
    ListBucket.Spares url lost
      ((s.cache.buckets (H.getBucket task.url)).filter (ListBucket.unexpired now)) ∧
    ListBucket.Passes url
      (ListBucket.remaining now lost (s.cache.buckets (H.getBucket task.url)))
  | .lose i lost => ListBucket.Spares url lost (s.cache.buckets i)
  | _ => True

def Stays (H : Hashing Url) (url : Url) (d : Drawable) (s : LoadImageTask View Url Drawable) :
    Prop :=
  s.cache.clock < EXPIRES → some ⟨url, some d, EXPIRES⟩ ∈ s.cache.buckets (H.getBucket url)

theorem Stays.step {url : Url} {d : Drawable} (h : Stays H url d s) (hquiet : Quiet H url s a)
    (hstep : step H s a = some t) : Stays H url d t := by
  rcases step_cache hstep with ⟨-, hcache⟩ | ⟨b, hb, hcache⟩
  · intro hclock
    rw [hcache] at hclock ⊢
    exact h hclock
  · intro hclock
    cases a with
    | load now view url' =>
      cases hb
      rw [GenericObjectCache.step] at hcache
      split at hcache
      · cases hcache
      · rename_i hnow
        rw [← Option.some.inj hcache] at hclock ⊢
        have hx := h (Int64.lt_of_le_of_lt (Int64.not_lt.mp hnow) hclock)
        refine GenericObjectCache.mem_setBucket hx fun heq => ?_
        rw [← heq]
        exact ListBucket.mem_hit hx hclock
    | store now i drawable lost =>
      obtain ⟨task, htask, rfl⟩ := Option.map_eq_some_iff.mp hb
      rw [GenericObjectCache.step] at hcache
      split at hcache
      · cases hcache
      · rename_i hnow
        rw [← Option.some.inj hcache] at hclock ⊢
        have hx := h (Int64.lt_of_le_of_lt (Int64.not_lt.mp hnow) hclock)
        refine GenericObjectCache.mem_setBucket hx fun heq => ?_
        rw [heq] at hx
        obtain ⟨hspares, hpasses⟩ := hquiet task htask
        exact ListBucket.mem_store hx hclock (fun _ => Int64.le_refl _) hspares hpasses
    | lose i lost =>
      cases hb
      rw [← Option.some.inj hcache] at hclock ⊢
      have hx := h hclock
      refine GenericObjectCache.mem_setBucket hx fun heq => ?_
      subst heq
      exact ListBucket.mem_lose_of_spares hx hquiet
    | readUrlFails i => cases hb
    | close i fails => cases hb
    | onPostExecute i => cases hb

theorem Stays.run {url : Url} {d : Drawable} (as : List (Action View Url Drawable))
    (h : Stays H url d s) (hmeets : (machine H).Meets (Quiet H url) s as)
    (hrun : (machine H).run s as = some t) : Stays H url d t :=
  Machine.Meets.invariant _ (fun _ _ _ hs hquiet hstep => hs.step hquiet hstep) as hmeets h hrun

omit [DecidableEq View] in
/-- After the first hour of the epoch nothing is found. -/
theorem CacheInv.cached_none (h : CacheInv H s) {now : Int64} (hnow : EXPIRES ≤ now)
    (url : Url) : cached H s now url = none := by
  unfold cached
  cases hhit : (ListBucket.hit now url (s.cache.buckets (H.getBucket url))).2 with
  | none => rfl
  | some value =>
    obtain ⟨x, hx, -, -, hlt⟩ := ListBucket.hit_eq_some hhit
    rw [h.expires _ x hx] at hlt
    exact absurd hlt (Int64.not_lt.mpr hnow)

omit [DecidableEq View] in
theorem CacheInv.cached_of_mem (h : CacheInv H s) {now : Int64}
    {x : CacheItem Url (Option Drawable)} (hx : some x ∈ s.cache.buckets (H.getBucket x.key))
    (hlt : now < x.expires) : cached H s now x.key = x.value := by
  unfold cached
  rw [ListBucket.hit_of_mem (h.inv.kept _).distinct hx hlt]
  rfl

theorem EXPIRES_toInt : EXPIRES.toInt = 3600000 := rfl

theorem store_cache {now : Int64} {i : Nat} {view : View} {url : Url} {d : Drawable}
    {lost : Nat → Bool} (htask : s.tasks i = some ⟨view, url, .reading⟩)
    (hstep : step H s (.store now i (some d) lost) = some t) :
    t.cache.clock = now ∧ t.cache.buckets (H.getBucket url) =
      ListBucket.store now ⟨url, some d, EXPIRES⟩ lost (s.cache.buckets (H.getBucket url)) := by
  rcases step_cache hstep with ⟨hnone, -⟩ | ⟨b, hb, hcache⟩
  · rw [cacheAction, htask] at hnone
    cases hnone
  · rw [cacheAction, htask] at hb
    cases hb
    rw [GenericObjectCache.step] at hcache
    split at hcache
    · cases hcache
    · rw [← Option.some.inj hcache]
      exact ⟨rfl, GenericObjectCache.setBucket_self ..⟩

omit [DecidableEq View] in
theorem CacheInv.stays_store (h : CacheInv H s) {url : Url} {d : Drawable} {lost : Nat → Bool}
    (hbucket : t.cache.buckets (H.getBucket url) =
      ListBucket.store 0 ⟨url, some d, EXPIRES⟩ lost (s.cache.buckets (H.getBucket url)))
    (hsame : ∀ x, some x ∈ s.cache.buckets (H.getBucket url) → x.key = url →
      0 < x.expires → x.value = some d) : Stays H url d t := by
  intro _
  rw [hbucket]
  by_cases hfound : ∃ reference ∈ s.cache.buckets (H.getBucket url),
      ListBucket.holds url 0 reference = true
  · obtain ⟨reference, hmem, hholds⟩ := hfound
    cases reference with
    | none => cases hholds
    | some x =>
      obtain ⟨hkey, hlt⟩ := of_decide_eq_true hholds
      have heq : x = ⟨url, some d, EXPIRES⟩ := by
        have hvalue := hsame x hmem hkey hlt
        have hexpires := h.expires _ x hmem
        cases x
        cases hkey
        cases hvalue
        cases hexpires
        rfl
      rw [heq] at hmem hlt
      exact ListBucket.mem_store_found ⟨_, hmem, decide_eq_true ⟨rfl, hlt⟩⟩ hmem hlt
        fun _ => Int64.le_refl _
  · have hexpires : EXPIRES ≠ 0 := by decide
    refine ListBucket.item_mem_store hexpires fun reference hmem => ?_
    exact Bool.eq_false_iff.mpr fun h => hfound ⟨reference, hmem, h⟩

omit [DecidableEq View] in
theorem CacheInv.eq_zero_of_hour (h : CacheInv H t) {url : Url} {d : Drawable}
    (hhour : ∀ now', t.cache.clock ≤ now' → now'.toInt < t.cache.clock.toInt + 3600000 →
      cached H t now' url = some d) : t.cache.clock = 0 := by
  by_contra hne
  have hpos : 0 < t.cache.clock.toInt := by
    have hle : (0 : Int64).toInt ≤ t.cache.clock.toInt := Int64.le_iff_toInt_le.mp h.inv.clock
    have hne' : t.cache.clock.toInt ≠ (0 : Int64).toInt := fun heq => hne (Int64.toInt_inj.mp heq)
    have hzero : (0 : Int64).toInt = 0 := rfl
    omega
  by_cases hlate : EXPIRES ≤ t.cache.clock
  · have hhit := hhour t.cache.clock (Int64.le_refl _) (by omega)
    rw [h.cached_none hlate] at hhit
    cases hhit
  · have hearly : t.cache.clock ≤ EXPIRES := Int64.le_of_lt (Int64.not_le.mp hlate)
    have hhit := hhour EXPIRES hearly (by rw [EXPIRES_toInt]; omega)
    rw [h.cached_none (Int64.le_refl _)] at hhit
    cases hhit

/-- The cache answers with the drawable for an hour, and no longer, exactly if it was stored
at the epoch and no other drawable of the URL was there. -/
theorem cached_an_hour_iff (H : Hashing Url) (hs : (machine H).Reachable s) {now : Int64}
    {i : Nat} {view : View} {url : Url} {d : Drawable} {lost : Nat → Bool}
    (htask : s.tasks i = some ⟨view, url, .reading⟩)
    (hstep : (machine H).step s (.store now i (some d) lost) = some t) :
    (∀ as u now', (machine H).Meets (Quiet H url) t as → (machine H).run t as = some u →
      u.cache.clock ≤ now' →
        (now'.toInt < now.toInt + 3600000 → cached H u now' url = some d) ∧
        (now.toInt + 3600000 ≤ now'.toInt → cached H u now' url ≠ some d)) ↔
      now = 0 ∧ ∀ x, some x ∈ s.cache.buckets (H.getBucket url) → x.key = url →
        now < x.expires → x.value = some d := by
  have hinv := CacheInv.of_reachable hs
  have ht := hs.step hstep
  have htinv := CacheInv.of_reachable ht
  obtain ⟨rfl, hbucket⟩ := store_cache htask hstep
  constructor
  · intro h
    have hhour : ∀ now', t.cache.clock ≤ now' → now'.toInt < t.cache.clock.toInt + 3600000 →
        cached H t now' url = some d :=
      fun now' hnow' => (h [] t now' trivial rfl hnow').1
    refine ⟨htinv.eq_zero_of_hour hhour, fun x hx hkey hlt => ?_⟩
    subst hkey
    have hmem : some x ∈ t.cache.buckets (H.getBucket x.key) := by
      rw [hbucket]
      exact ListBucket.mem_store_found ⟨some x, hx, decide_eq_true ⟨rfl, hlt⟩⟩ hx hlt
        fun _ => Int64.le_of_eq (hinv.expires _ x hx).symm
    have hhit := hhour t.cache.clock (Int64.le_refl _) (by omega)
    rw [htinv.cached_of_mem hmem hlt] at hhit
    exact hhit
  · rintro ⟨hzero, hsame⟩ as u now' hquiet hrun hnow'
    rw [hzero] at hbucket hsame ⊢
    have hstays : Stays H url d t := hinv.stays_store hbucket hsame
    have huinv := CacheInv.of_reachable (ht.run hrun)
    have hepoch : (0 : Int64).toInt = 0 := rfl
    constructor
    · intro hlt
      have hlt' : now' < EXPIRES := by
        rw [Int64.lt_iff_toInt_lt, EXPIRES_toInt]
        omega
      have hmem := hstays.run as hquiet hrun (Int64.lt_of_le_of_lt hnow' hlt')
      exact huinv.cached_of_mem (x := ⟨url, some d, EXPIRES⟩) hmem hlt'
    · intro hle
      have hle' : EXPIRES ≤ now' := by
        rw [Int64.le_iff_toInt_le, EXPIRES_toInt]
        omega
      rw [huinv.cached_none hle']
      exact fun h => by cases h

end

def initial : LoadImageTask View Url Drawable :=
  ⟨.empty, fun _ => none, 0, fun _ => none, fun _ => none, fun _ => none⟩

theorem initial_init (H : Hashing Url) :
    (machine H).Init (initial : LoadImageTask View Url Drawable) :=
  ⟨GenericObjectCache.empty_init, fun _ => rfl, fun _ => rfl, fun _ => rfl⟩

/-- Stored at the epoch, the drawable is found for an hour. -/
theorem cached_an_hour_epoch :
    ∃ t : LoadImageTask Unit Nat Nat, (machine GenericObjectCache.collide).Reachable t ∧
      ∀ as u now', (machine GenericObjectCache.collide).Meets
          (Quiet GenericObjectCache.collide 7) t as →
        (machine GenericObjectCache.collide).run t as = some u → u.cache.clock ≤ now' →
          (now'.toInt < (0 : Int64).toInt + 3600000 →
            cached GenericObjectCache.collide u now' 7 = some 5) ∧
          ((0 : Int64).toInt + 3600000 ≤ now'.toInt →
            cached GenericObjectCache.collide u now' 7 ≠ some 5) := by
  obtain ⟨s, hrun, htask, hbucket⟩ : ∃ s : LoadImageTask Unit Nat Nat,
      (machine GenericObjectCache.collide).run initial [.load 0 () 7] = some s ∧
        s.tasks 0 = some ⟨(), 7, .reading⟩ ∧
          s.cache.buckets (GenericObjectCache.collide.getBucket 7) = [] :=
    ⟨_, rfl, rfl, rfl⟩
  have hs := Machine.Reachable.run (.start (initial_init _)) hrun
  obtain ⟨t, hstep⟩ : ∃ t, (machine GenericObjectCache.collide).step s
      (.store 0 0 (some 5) fun _ => false) = some t := by
    cases hrun
    exact ⟨_, rfl⟩
  refine ⟨t, hs.step hstep, ?_⟩
  refine (cached_an_hour_iff GenericObjectCache.collide hs htask hstep).mpr ⟨rfl, fun x hx => ?_⟩
  rw [hbucket] at hx
  cases hx

/-- A drawable that is stored in 2016 is not found at the same time. -/
theorem stored_in_vain : ∃ s t : LoadImageTask Unit Nat Nat,
    (machine GenericObjectCache.collide).Reachable s ∧
      s.tasks 0 = some ⟨(), 7, .reading⟩ ∧
      (machine GenericObjectCache.collide).step s
        (.store 1472000000000 0 (some 5) fun _ => false) = some t ∧
      ¬ ∀ as u now', (machine GenericObjectCache.collide).Meets
          (Quiet GenericObjectCache.collide 7) t as →
        (machine GenericObjectCache.collide).run t as = some u → u.cache.clock ≤ now' →
          (now'.toInt < (1472000000000 : Int64).toInt + 3600000 →
            cached GenericObjectCache.collide u now' 7 = some 5) ∧
          ((1472000000000 : Int64).toInt + 3600000 ≤ now'.toInt →
            cached GenericObjectCache.collide u now' 7 ≠ some 5) := by
  obtain ⟨s, hrun, htask, t, hstep, hclock, hcached⟩ : ∃ s : LoadImageTask Unit Nat Nat,
      (machine GenericObjectCache.collide).run initial [.load 1472000000000 () 7] = some s ∧
        s.tasks 0 = some ⟨(), 7, .reading⟩ ∧
        ∃ t, (machine GenericObjectCache.collide).step s
          (.store 1472000000000 0 (some 5) fun _ => false) = some t ∧
            t.cache.clock = 1472000000000 ∧
            cached GenericObjectCache.collide t 1472000000000 7 = none :=
    ⟨_, rfl, rfl, _, rfl, rfl, by decide⟩
  refine ⟨s, t, Machine.Reachable.run (.start (initial_init _)) hrun, htask, hstep, fun h => ?_⟩
  have hfound := (h [] t 1472000000000 trivial rfl (Int64.le_of_eq hclock)).1 (by decide)
  rw [hcached] at hfound
  cases hfound

/-! ## The picture of a view -/

section

variable {H : Hashing Url} {s t : LoadImageTask View Url Drawable} {a : Action View Url Drawable}

/-- A task that draws on a view on which the last load has already drawn brings the same
picture. -/
def InOrder (s : LoadImageTask View Url Drawable) : Action View Url Drawable → Prop
  | .onPostExecute i => ∀ view url drawable, s.tasks i = some ⟨view, url, .returned drawable⟩ →
    ∀ j p, s.last view = some j → s.drawn j = some p → picture drawable = p
  | _ => True

structure Order (s : LoadImageTask View Url Drawable) : Prop where
  fresh : ∀ i, s.loads ≤ i → s.tasks i = none ∧ s.drawn i = none
  running : ∀ i task, s.tasks i = some task → s.drawn i = none
  owner : ∀ view i, s.last view = some i → i < s.loads ∧
    ∀ task, s.tasks i = some task → task.view = view
  apart : ∀ view view' i, s.last view = some i → s.last view' = some i → view = view'
  draws : ∀ view i, s.last view = some i → s.tasks i = none → ∃ p, s.drawn i = some p
  shows : ∀ view i p, s.last view = some i → s.drawn i = some p → s.shown view = some p

omit [DecidableEq View] [DecidableEq Url] in
theorem Order.setStage (h : Order s) {i : Nat} {view : View} {url : Url}
    {stage : LoadStage Drawable} (htask : s.tasks i = some ⟨view, url, stage⟩)
    (stage' : LoadStage Drawable) : Order (s.setStage i ⟨view, url, stage⟩ stage') := by
  have hat : ∀ j task, (s.setStage i ⟨view, url, stage⟩ stage').tasks j = some task →
      ∃ old, s.tasks j = some old ∧ old.view = task.view := by
    intro j task hj
    rcases Table.update_eq_some hj with ⟨rfl, heq⟩ | ⟨-, hj⟩
    · cases heq
      exact ⟨_, htask, rfl⟩
    · exact ⟨task, hj, rfl⟩
  have hnone : ∀ j, (s.setStage i ⟨view, url, stage⟩ stage').tasks j = none ↔
      s.tasks j = none := by
    intro j
    by_cases hj : j = i
    · subst hj
      dsimp only [LoadImageTask.setStage]
      rw [Function.update_self, htask]
      exact iff_of_false (Option.some_ne_none _) (Option.some_ne_none _)
    · dsimp only [LoadImageTask.setStage]
      rw [Function.update_of_ne hj]
  refine ⟨fun j hj => ⟨(hnone j).mpr (h.fresh j hj).1, (h.fresh j hj).2⟩, fun j task hj => ?_,
    fun v j hj => ⟨(h.owner v j hj).1, fun task hj' => ?_⟩, h.apart,
    fun v j hj hj' => h.draws v j hj ((hnone j).mp hj'), h.shows⟩
  · obtain ⟨old, hold, -⟩ := hat j task hj
    exact h.running j old hold
  · obtain ⟨old, hold, hview⟩ := hat j task hj'
    rw [← hview]
    exact (h.owner v j hj).2 old hold

omit [DecidableEq View] [DecidableEq Url] in
theorem Order.setCache (h : Order s) (cache : GenericObjectCache Url (Option Drawable)) :
    Order { s with cache := cache } :=
  ⟨h.fresh, h.running, h.owner, h.apart, h.draws, h.shows⟩

omit [DecidableEq View] [DecidableEq Url] in
theorem Order.ne_loads (h : Order s) {view : View} {i : Nat} (hi : s.last view = some i) :
    i ≠ s.loads :=
  Nat.ne_of_lt (h.owner view i hi).1

omit [DecidableEq Url] in
theorem Order.last_cases (h : Order s) {view v : View} {i : Nat}
    (hi : Function.update s.last view (some s.loads) v = some i) :
    (v = view ∧ i = s.loads) ∨ (v ≠ view ∧ s.last v = some i ∧ i ≠ s.loads) := by
  rcases Table.update_eq_some hi with ⟨hv, heq⟩ | ⟨hv, hi⟩
  · exact .inl ⟨hv, (Option.some.inj heq).symm⟩
  · exact .inr ⟨hv, hi, h.ne_loads hi⟩

omit [DecidableEq Url] in
theorem Order.apart_load (h : Order s) (view : View) : ∀ v v' i,
    Function.update s.last view (some s.loads) v = some i →
      Function.update s.last view (some s.loads) v' = some i → v = v' := by
  intro v v' i hi hi'
  rcases h.last_cases hi with ⟨hv, hi⟩ | ⟨-, hi, hne⟩
  · rcases h.last_cases hi' with ⟨hv', -⟩ | ⟨-, -, hne⟩
    · exact hv.trans hv'.symm
    · exact absurd hi hne
  · rcases h.last_cases hi' with ⟨-, heq⟩ | ⟨-, hi', -⟩
    · exact absurd heq hne
    · exact h.apart v v' i hi hi'

omit [DecidableEq Url] in
theorem Order.hit (h : Order s) (view : View) (d : Drawable)
    (cache : GenericObjectCache Url (Option Drawable)) :
    Order { s.draw view (.drawable d) with
      cache := cache
      loads := s.loads + 1
      last := Function.update s.last view (some s.loads)
      drawn := Function.update s.drawn s.loads (some (.drawable d)) } := by
  obtain ⟨htask, -⟩ := h.fresh s.loads (Nat.le_refl _)
  refine ⟨fun j hj => ?_, fun j task hj => ?_, fun v j hj => ?_, h.apart_load view,
    fun v j hj hj' => ?_, fun v j p hj hj' => ?_⟩
  · have hj : s.loads + 1 ≤ j := hj
    have hne : j ≠ s.loads := by omega
    refine ⟨(h.fresh j (by omega)).1, ?_⟩
    dsimp only
    rw [Function.update_of_ne hne]
    exact (h.fresh j (by omega)).2
  · have hne : j ≠ s.loads := by
      rintro rfl
      cases htask.symm.trans hj
    dsimp only
    rw [Function.update_of_ne hne]
    exact h.running j task hj
  · rcases h.last_cases hj with ⟨-, rfl⟩ | ⟨-, hj, -⟩
    · refine ⟨Nat.lt_succ_self _, fun task hj => ?_⟩
      cases htask.symm.trans hj
    · exact ⟨Nat.lt_succ_of_lt (h.owner v j hj).1, (h.owner v j hj).2⟩
  · rcases h.last_cases hj with ⟨-, rfl⟩ | ⟨-, hj, hne⟩
    · exact ⟨_, Function.update_self ..⟩
    · dsimp only
      rw [Function.update_of_ne hne]
      exact h.draws v j hj hj'
  · rcases h.last_cases hj with ⟨rfl, rfl⟩ | ⟨hv, hj, hne⟩
    · dsimp only at hj' ⊢
      rw [Function.update_self] at hj'
      rw [← hj']
      exact Function.update_self ..
    · dsimp only at hj' ⊢
      rw [Function.update_of_ne hne] at hj'
      dsimp only [draw]
      rw [Function.update_of_ne hv]
      exact h.shows v j p hj hj'

omit [DecidableEq Url] in
theorem Order.miss (h : Order s) (view : View) (url : Url)
    (cache : GenericObjectCache Url (Option Drawable)) :
    Order { s with
      cache := cache
      tasks := Function.update s.tasks s.loads (some ⟨view, url, .reading⟩)
      loads := s.loads + 1
      last := Function.update s.last view (some s.loads) } := by
  obtain ⟨-, hdrawn⟩ := h.fresh s.loads (Nat.le_refl _)
  refine ⟨fun j hj => ?_, fun j task hj => ?_, fun v j hj => ?_, h.apart_load view,
    fun v j hj hj' => ?_, fun v j p hj hj' => ?_⟩
  · have hj : s.loads + 1 ≤ j := hj
    have hne : j ≠ s.loads := by omega
    refine ⟨?_, (h.fresh j (by omega)).2⟩
    dsimp only
    rw [Function.update_of_ne hne]
    exact (h.fresh j (by omega)).1
  · rcases Table.update_eq_some hj with ⟨rfl, -⟩ | ⟨-, hj⟩
    · exact hdrawn
    · exact h.running j task hj
  · rcases h.last_cases hj with ⟨rfl, rfl⟩ | ⟨-, hj, hne⟩
    · refine ⟨Nat.lt_succ_self _, fun task hj => ?_⟩
      dsimp only at hj
      rw [Function.update_self] at hj
      cases hj
      rfl
    · refine ⟨Nat.lt_succ_of_lt (h.owner v j hj).1, fun task hj' => ?_⟩
      dsimp only at hj'
      rw [Function.update_of_ne hne] at hj'
      exact (h.owner v j hj).2 task hj'
  · rcases h.last_cases hj with ⟨-, rfl⟩ | ⟨-, hj, hne⟩
    · dsimp only at hj'
      rw [Function.update_self] at hj'
      cases hj'
    · dsimp only at hj'
      rw [Function.update_of_ne hne] at hj'
      exact h.draws v j hj hj'
  · rcases h.last_cases hj with ⟨-, rfl⟩ | ⟨-, hj, -⟩
    · rw [hdrawn] at hj'
      cases hj'
    · exact h.shows v j p hj hj'

theorem Order.load (h : Order s) (now : Int64) (view : View) (url : Url)
    (cache : GenericObjectCache Url (Option Drawable)) :
    Order (load H s now view url cache) := by
  unfold LoadImageTask.load
  dsimp only
  split
  · rename_i d _
    exact h.hit view d cache
  · exact h.miss view url cache

omit [DecidableEq Url] in
theorem Order.onPostExecute (h : Order s) {i : Nat} {view : View} {url : Url}
    {drawable : Option Drawable} (htask : s.tasks i = some ⟨view, url, .returned drawable⟩)
    (horder : ∀ j p, s.last view = some j → s.drawn j = some p → picture drawable = p) :
    Order (onPostExecute s i view drawable) := by
  have hlt : i < s.loads := by
    by_contra hle
    rw [(h.fresh i (by omega)).1] at htask
    cases htask
  refine ⟨fun j hj => ?_, fun j task hj => ?_, fun v j hj => ?_, h.apart,
    fun v j hj hj' => ?_, fun v j p hj hj' => ?_⟩
  · have hj : s.loads ≤ j := hj
    have hne : j ≠ i := by omega
    rw [LoadImageTask.onPostExecute]
    dsimp only
    rw [Function.update_of_ne hne, Function.update_of_ne hne]
    exact h.fresh j hj
  · rcases Table.update_eq_some hj with ⟨-, heq⟩ | ⟨hne, hj⟩
    · cases heq
    · rw [LoadImageTask.onPostExecute]
      dsimp only
      rw [Function.update_of_ne hne]
      exact h.running j task hj
  · refine ⟨(h.owner v j hj).1, fun task hj' => ?_⟩
    rcases Table.update_eq_some hj' with ⟨-, heq⟩ | ⟨-, hj'⟩
    · cases heq
    · exact (h.owner v j hj).2 task hj'
  · by_cases hne : j = i
    · subst hne
      exact ⟨_, Function.update_self ..⟩
    · rw [LoadImageTask.onPostExecute] at hj' ⊢
      dsimp only at hj' ⊢
      rw [Function.update_of_ne hne] at hj' ⊢
      exact h.draws v j hj hj'
  · rw [LoadImageTask.onPostExecute] at hj' ⊢
    dsimp only [draw] at hj' ⊢
    by_cases hv : v = view
    · subst hv
      rw [Function.update_self]
      by_cases hne : j = i
      · subst hne
        rw [Function.update_self] at hj'
        exact hj'
      · rw [Function.update_of_ne hne] at hj'
        rw [horder j p hj hj']
    · have hne : j ≠ i := by
        rintro rfl
        exact hv ((h.owner v j hj).2 _ htask).symm
      rw [Function.update_of_ne hne] at hj'
      rw [Function.update_of_ne hv]
      exact h.shows v j p hj hj'

theorem Order.step (h : Order s) (horder : InOrder s a) (hstep : step H s a = some t) :
    Order t := by
  cases a with
  | load now view url =>
    obtain ⟨cache, -, rfl⟩ := Option.map_eq_some_iff.mp hstep
    exact h.load now view url cache
  | readUrlFails i =>
    rw [LoadImageTask.step] at hstep
    split at hstep
    · rename_i htask
      cases hstep
      exact h.setStage htask _
    · cases hstep
  | store now i drawable lost =>
    rw [LoadImageTask.step] at hstep
    split at hstep
    · rename_i htask
      obtain ⟨cache, -, rfl⟩ := Option.map_eq_some_iff.mp hstep
      exact (h.setStage htask _).setCache cache
    · cases hstep
  | close i fails =>
    rw [LoadImageTask.step] at hstep
    split at hstep
    · rename_i htask
      cases hstep
      exact h.setStage htask _
    · cases hstep
  | onPostExecute i =>
    rw [LoadImageTask.step] at hstep
    split at hstep
    · rename_i htask
      cases hstep
      exact h.onPostExecute htask (horder _ _ _ htask)
    · cases hstep
  | lose i lost =>
    rw [LoadImageTask.step] at hstep
    obtain ⟨cache, -, rfl⟩ := Option.map_eq_some_iff.mp hstep
    exact h.setCache cache

/-- When no task of the view is left, it shows what its last load has drawn. -/
theorem shows_last (H : Hashing Url) (hs : (machine H).ReachableVia InOrder s) {view : View}
    (hdone : ∀ i task, s.tasks i = some task → task.view ≠ view) {i : Nat}
    (hlast : s.last view = some i) : ∃ p, s.drawn i = some p ∧ s.shown view = some p := by
  have h : Order s := by
    refine hs.invariant Order (fun s hinit => ?_) fun _ _ _ h horder hstep => h.step horder hstep
    obtain ⟨-, htasks, hdrawn, hlast⟩ := hinit
    refine ⟨fun j _ => ⟨htasks j, hdrawn j⟩, fun j _ _ => hdrawn j, fun v j hj => ?_,
      fun v v' j hj => ?_, fun v j hj => ?_, fun v j p hj => ?_⟩
    all_goals
      rw [hlast v] at hj
      cases hj
  have hnone : s.tasks i = none := by
    cases htask : s.tasks i with
    | none => rfl
    | some task => exact absurd ((h.owner view i hlast).2 task htask) (hdone i task htask)
  obtain ⟨p, hp⟩ := h.draws view i hlast hnone
  exact ⟨p, hp, h.shows view i p hlast hp⟩

end

/-- A load that is downloaded and drawn, and one that fails. -/
theorem shows_last_failed : ∃ s : LoadImageTask Unit Nat Nat,
    (machine GenericObjectCache.collide).ReachableVia InOrder s ∧ s.last () = some 1 ∧
      ∃ p, s.drawn 1 = some p ∧ s.shown () = some p := by
  obtain ⟨s, hrun, hlast, htasks⟩ : ∃ s : LoadImageTask Unit Nat Nat,
      (machine GenericObjectCache.collide).run initial [.load 10 () 7, .load 20 () 8,
        .store 30 0 (some 5) (fun _ => false), .close 0 false, .onPostExecute 0,
        .readUrlFails 1, .onPostExecute 1] = some s ∧
        s.last () = some 1 ∧ ∀ i, s.tasks i = none := by
    refine ⟨_, rfl, rfl, fun i => ?_⟩
    match i with
    | 0 => rfl
    | 1 => rfl
    | n + 2 => rfl
  have hmeets : (machine GenericObjectCache.collide).Meets InOrder initial [.load 10 () 7,
      .load 20 () 8, .store 30 0 (some 5) (fun _ => false), .close 0 false, .onPostExecute 0,
      .readUrlFails 1, .onPostExecute 1] := by
    refine ⟨trivial, fun _ h => ?_⟩
    cases h
    refine ⟨trivial, fun _ h => ?_⟩
    cases h
    refine ⟨trivial, fun _ h => ?_⟩
    cases h
    refine ⟨trivial, fun _ h => ?_⟩
    cases h
    refine ⟨?_, fun _ h => ?_⟩
    · -- the second load has not drawn
      intro view url drawable _ j p hj hp
      cases hj
      cases hp
    cases h
    refine ⟨trivial, fun _ h => ?_⟩
    cases h
    refine ⟨?_, fun _ h => trivial⟩
    intro view url drawable _ j p hj hp
    cases hj
    cases hp
  have hs := Machine.ReachableVia.run _ (.start (initial_init _)) hmeets hrun
  exact ⟨s, hs, hlast, shows_last _ hs (fun i task h => by rw [htasks i] at h; cases h) hlast⟩

/-- The task of the first load reports last. -/
theorem shows_first : ¬ ∀ s : LoadImageTask Unit Nat Nat,
    (machine GenericObjectCache.collide).Reachable s → (∀ i, s.tasks i = none) →
      ∀ view i, s.last view = some i → ∃ p, s.drawn i = some p ∧ s.shown view = some p := by
  intro h
  obtain ⟨s, hrun, hlast, htasks, hdrawn, hshown⟩ : ∃ s : LoadImageTask Unit Nat Nat,
      (machine GenericObjectCache.collide).run initial [.load 10 () 7, .load 20 () 8,
        .store 30 1 (some 6) (fun _ => false), .close 1 false, .onPostExecute 1,
        .store 40 0 (some 5) (fun _ => false), .close 0 false, .onPostExecute 0] = some s ∧
        s.last () = some 1 ∧ (∀ i, s.tasks i = none) ∧
        s.drawn 1 = some (.drawable 6) ∧ s.shown () = some (.drawable 5) := by
    refine ⟨_, rfl, rfl, fun i => ?_, rfl, rfl⟩
    match i with
    | 0 => rfl
    | 1 => rfl
    | n + 2 => rfl
  obtain ⟨p, hp, hp'⟩ :=
    h s (Machine.Reachable.run (.start (initial_init _)) hrun) htasks () 1 hlast
  rw [hdrawn] at hp
  rw [hshown] at hp'
  cases hp
  cases hp'

end LoadImageTask

end AlmondAndroid.Ui
