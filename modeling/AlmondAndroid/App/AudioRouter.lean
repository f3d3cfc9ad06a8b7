import Mathlib.Algebra.Ring.Int.Defs
import AlmondAndroid.Library.Machine

/-!
# The audio route

`AudioRouterAPI` counts its users and holds a proxy of the A2DP service while there are any.
The counter is atomic, but the request that follows the first `start` and the close that
follows the last `stop` are steps of their own, between which other threads count.
-/

namespace AlmondAndroid.App

open Library

universe u

variable {Proxy : Type u}

/-- `start` is called from JavaScript, or by `setAudioRouteBluetooth` and
`isAudioRouteBluetooth`, which call `stop` in the end. -/
inductive Starter
  | javaScript
  | route
  deriving DecidableEq

/-- Where a thread is: before `getProfileProxy`; between its `start` and its `stop`, with the
proxy it has found; before the `synchronized` block of `stop`; before `closeProfileProxy`. -/
inductive RouterThread (Proxy : Type u)
  | requesting (starter : Starter)
  | routing (proxy : Option Proxy)
  | clearing
  | closing (oldA2dp : Option Proxy)
  | finished

namespace RouterThread

def isRouting : RouterThread Proxy → Bool
  | routing _ => true
  | _ => false

def isRequesting : RouterThread Proxy → Bool
  | requesting _ => true
  | _ => false

/-- The thread has counted the last user out and has not closed the proxy yet. -/
def isClosing : RouterThread Proxy → Bool
  | clearing => true
  | closing _ => true
  | _ => false

end RouterThread

inductive ProfileRequest
  | accepted
  | refused
  | threw
  deriving DecidableEq

/-- The request that a connection answers. The service may also connect again by itself. -/
inductive Answered
  | fresh
  | stale
  | none
  deriving DecidableEq

/-- `started` counts the calls of `start` from JavaScript that have not been stopped. The
outstanding requests are `fresh` if they were made after the last `closeProfileProxy`.
`disconnected` tells that the service has taken the proxy away. -/
structure AudioRouter (Proxy : Type u) where
  refCount : Int
  ad2p : Option Proxy
  threads : List (RouterThread Proxy)
  started : Nat
  fresh : Nat
  stale : Nat
  disconnected : Bool

namespace AudioRouter

inductive Action (Proxy : Type u)
  | start (starter : Starter)
  | getProfileProxy (i : Nat) (outcome : ProfileRequest)
  | takeProxy (i : Nat)
  | stop
  | stopRoute (i : Nat)
  | clear (i : Nat)
  | closeProfileProxy (i : Nat)
  | onServiceConnected (proxy : Proxy) (answered : Answered)
  | onServiceDisconnected

def initial : AudioRouter Proxy := ⟨0, none, [], 0, 0, 0, false⟩

/-- `AtomicInteger` has 32 bits. -/
def wrap (n : Int) : Int := (Int32.ofInt n).toInt

def begun : Starter → RouterThread Proxy
  | .javaScript => .finished
  | .route => .routing none

def startsOf : Starter → Nat
  | .javaScript => 1
  | .route => 0

def start (s : AudioRouter Proxy) (starter : Starter) : AudioRouter Proxy :=
  let count := wrap (s.refCount + 1)
  if count = 1 then { s with refCount := count, threads := s.threads ++ [.requesting starter] }
  else
    { s with
      refCount := count
      threads := s.threads ++ [begun starter]
      started := s.started + startsOf starter }

def getProfileProxy (s : AudioRouter Proxy) (i : Nat) (starter : Starter) :
    ProfileRequest → AudioRouter Proxy
  | .accepted =>
      { s with
        threads := s.threads.set i (begun starter)
        started := s.started + startsOf starter
        fresh := s.fresh + 1 }
  | .refused =>
      { s with
        threads := s.threads.set i (begun starter)
        started := s.started + startsOf starter }
  | .threw => { s with threads := s.threads.set i .finished }

def decrementAndGet (s : AudioRouter Proxy) : AudioRouter Proxy × RouterThread Proxy :=
  let count := wrap (s.refCount - 1)
  ({ s with refCount := count }, if 0 < count then .finished else .clearing)

def stop (s : AudioRouter Proxy) : AudioRouter Proxy :=
  let (counted, thread) := s.decrementAndGet
  { counted with threads := s.threads ++ [thread], started := s.started - 1 }

def stopRoute (s : AudioRouter Proxy) (i : Nat) : AudioRouter Proxy :=
  let (counted, thread) := s.decrementAndGet
  { counted with threads := s.threads.set i thread }

def clear (s : AudioRouter Proxy) (i : Nat) : AudioRouter Proxy :=
  { s with
    ad2p := none
    threads := s.threads.set i (.closing s.ad2p)
    disconnected := false }

/-- What was requested before is no longer counted on. -/
def closeProfileProxy (s : AudioRouter Proxy) (i : Nat) : AudioRouter Proxy :=
  { s with threads := s.threads.set i .finished, fresh := 0, stale := s.stale + s.fresh }

def onProxyAcquired (s : AudioRouter Proxy) (proxy : Proxy) : AudioRouter Proxy :=
  { s with ad2p := some proxy, disconnected := false }

def onServiceConnected (s : AudioRouter Proxy) (proxy : Proxy) :
    Answered → Option (AudioRouter Proxy)
  | .fresh =>
      if 0 < s.fresh then some { s.onProxyAcquired proxy with fresh := s.fresh - 1 } else none
  | .stale =>
      if 0 < s.stale then some { s.onProxyAcquired proxy with stale := s.stale - 1 } else none
  | .none => some (s.onProxyAcquired proxy)

def onProxyLost (s : AudioRouter Proxy) : AudioRouter Proxy :=
  { s with ad2p := none, disconnected := true }

def step (s : AudioRouter Proxy) : Action Proxy → Option (AudioRouter Proxy)
  | .start starter => some (s.start starter)
  | .getProfileProxy i outcome =>
      match s.threads[i]? with
      | some (.requesting starter) => some (s.getProfileProxy i starter outcome)
      | _ => none
  | .takeProxy i =>
      match s.threads[i]?, s.ad2p with
      | some (.routing none), some proxy =>
          some { s with threads := s.threads.set i (.routing (some proxy)) }
      | _, _ => none
  | .stop => some s.stop
  | .stopRoute i =>
      match s.threads[i]? with
      | some (.routing _) => some (s.stopRoute i)
      | _ => none
  | .clear i =>
      match s.threads[i]? with
      | some .clearing => some (s.clear i)
      | _ => none
  | .closeProfileProxy i =>
      match s.threads[i]? with
      | some (.closing _) => some (s.closeProfileProxy i)
      | _ => none
  | .onServiceConnected proxy answered => s.onServiceConnected proxy answered
  | .onServiceDisconnected => some s.onProxyLost

def machine : Machine (AudioRouter Proxy) (Action Proxy) where
  Init s := s = initial
  step := step

/-! ## Users keep the proxy -/

/-- The threads between their `start` and their `stop`, and the starts from JavaScript. -/
def users (s : AudioRouter Proxy) : Nat :=
  s.threads.countP RouterThread.isRouting + s.started

/-- The counter is not negative, the users have a proxy or will be given one unless the
service itself has disconnected, and nobody gives up the proxy while there are users. -/
structure ProxyKept (s : AudioRouter Proxy) : Prop where
  nonneg : 0 ≤ s.refCount
  kept : 0 < s.users → s.ad2p ≠ none ∨ 0 < s.fresh ∨ s.disconnected = true
  notClosed : ∀ old, .clearing ∈ s.threads ∨ .closing old ∈ s.threads → s.users = 0

/-- Nobody starts while the first user is before its request, and no request is made while
the last user is before its close; the counter does not overflow; only what was started is
stopped; requests are accepted. -/
def Guard (s : AudioRouter Proxy) : Action Proxy → Prop
  | .start _ => s.threads.countP RouterThread.isRequesting = 0 ∧ s.refCount < 2 ^ 31 - 1
  | .stop => 0 < s.started
  | .getProfileProxy _ outcome =>
      outcome = .accepted ∧ s.threads.countP RouterThread.isClosing = 0
  | _ => True

structure Inv (s : AudioRouter Proxy) : Prop where
  count : s.refCount = s.users + s.threads.countP RouterThread.isRequesting
  bound : s.refCount < 2 ^ 31
  requesting : s.threads.countP RouterThread.isRequesting ≤ 1
  first : 0 < s.threads.countP RouterThread.isRequesting → s.users = 0
  last : 0 < s.threads.countP RouterThread.isClosing → s.users = 0
  kept : 0 < s.users → s.ad2p ≠ none ∨ 0 < s.fresh ∨ s.disconnected = true

section

variable {s t : AudioRouter Proxy} {i : Nat}

theorem wrap_eq {n : Int} (hlow : -2 ^ 31 ≤ n) (hhigh : n < 2 ^ 31) : wrap n = n :=
  Int32.toInt_ofInt_of_le (by omega) (by omega)

theorem countP_move (p : RouterThread Proxy → Bool) {x : RouterThread Proxy}
    (hi : s.threads[i]? = some x) (y : RouterThread Proxy) :
    (s.threads.set i y).countP p + (if p x then 1 else 0) =
      s.threads.countP p + (if p y then 1 else 0) := by
  obtain ⟨hlt, rfl⟩ := List.getElem?_eq_some_iff.mp hi
  rw [List.countP_set hlt]
  split
  · rename_i hx
    have hpos := List.countP_pos_iff.mpr ⟨_, List.getElem_mem hlt, hx⟩
    omega
  · omega

theorem countP_pos {p : RouterThread Proxy → Bool} {x : RouterThread Proxy}
    (hi : s.threads[i]? = some x) (hx : p x = true) : 0 < s.threads.countP p :=
  List.countP_pos_iff.mpr ⟨x, List.mem_of_getElem? hi, hx⟩

theorem countP_kept {p : RouterThread Proxy → Bool} {x y : RouterThread Proxy}
    (hi : s.threads[i]? = some x) (hp : p x = p y) :
    (s.threads.set i y).countP p = s.threads.countP p := by
  have hmove := countP_move p hi y
  rw [hp] at hmove
  exact Nat.add_right_cancel hmove

/-! ### Steps of the counter -/

theorem begun_counts (starter : Starter) :
    (begun starter : RouterThread Proxy).isRequesting = false ∧
      (begun starter : RouterThread Proxy).isClosing = false ∧
      (if (begun starter : RouterThread Proxy).isRouting then 1 else 0) + startsOf starter =
        1 := by
  cases starter with
  | javaScript => exact ⟨rfl, rfl, rfl⟩
  | route => exact ⟨rfl, rfl, rfl⟩

theorem users_eq (s : AudioRouter Proxy) :
    s.users = s.threads.countP RouterThread.isRouting + s.started :=
  rfl

theorem Inv.start (h : Inv s) (starter : Starter)
    (hnone : s.threads.countP RouterThread.isRequesting = 0) (hbound : s.refCount < 2 ^ 31 - 1) :
    Inv (s.start starter) := by
  have hcount := h.count
  have hlast := h.last
  have husers := users_eq s
  have hwrap : wrap (s.refCount + 1) = s.refCount + 1 := wrap_eq (by omega) (by omega)
  unfold AudioRouter.start
  dsimp only
  rw [hwrap]
  split
  · rename_i hone
    have hzero : s.users = 0 := by omega
    have hnobody : ∀ x : RouterThread Proxy, x.isRouting = false →
        (s.threads ++ [x]).countP RouterThread.isRouting + s.started = 0 := by
      intro x hx
      rw [List.countP_append, List.countP_singleton, hx]
      simp only [Bool.false_eq_true, if_false]
      omega
    have hthread := hnobody (.requesting starter) rfl
    constructor
    · rw [users_eq, hthread]
      simp only [List.countP_append, List.countP_singleton, RouterThread.isRequesting, if_true]
      omega
    · dsimp only
      omega
    · simp only [List.countP_append, List.countP_singleton, RouterThread.isRequesting, if_true]
      omega
    · exact fun _ => hthread
    · exact fun _ => hthread
    · exact fun hpos => absurd hthread (Nat.ne_of_gt hpos)
  · rename_i hne
    obtain ⟨hrequest, hclosing, huser⟩ := @begun_counts Proxy starter
    constructor
    · rw [users_eq]
      simp only [List.countP_append, List.countP_singleton, hrequest, Bool.false_eq_true,
        if_false]
      omega
    · dsimp only
      omega
    · simp only [List.countP_append, List.countP_singleton, hrequest, Bool.false_eq_true,
        if_false]
      omega
    · simp only [List.countP_append, List.countP_singleton, hrequest, Bool.false_eq_true,
        if_false]
      omega
    · simp only [List.countP_append, List.countP_singleton, hclosing, Bool.false_eq_true,
        if_false]
      omega
    · intro _
      exact h.kept (by omega)

theorem Inv.getProfileProxy {starter : Starter} (h : Inv s)
    (hi : s.threads[i]? = some (.requesting starter))
    (hnone : s.threads.countP RouterThread.isClosing = 0) :
    Inv (s.getProfileProxy i starter .accepted) := by
  obtain ⟨hisrequest, hisclosing, hone⟩ := @begun_counts Proxy starter
  have hrequest := countP_move RouterThread.isRequesting hi (begun starter)
  rw [hisrequest] at hrequest
  simp only [RouterThread.isRequesting, Bool.false_eq_true, if_true, if_false] at hrequest
  have hclosing := countP_kept (p := RouterThread.isClosing) (y := begun starter) hi
    hisclosing.symm
  have hrouting : _ + 0 = _ := countP_move RouterThread.isRouting hi (begun starter)
  have hcount := h.count
  have hmost := h.requesting
  have hzero : s.users = 0 := h.first (countP_pos hi rfl)
  have husers := users_eq s
  constructor
  · rw [users_eq]
    simp only [AudioRouter.getProfileProxy]
    omega
  · exact h.bound
  · simp only [AudioRouter.getProfileProxy]
    omega
  · simp only [AudioRouter.getProfileProxy]
    omega
  · simp only [AudioRouter.getProfileProxy]
    omega
  · intro _
    exact Or.inr (Or.inl (Nat.succ_pos _))

/-- While there are users, nobody is before a request or a close. -/
theorem Inv.settled (h : Inv s) (husers : 0 < s.users) :
    s.threads.countP RouterThread.isRequesting = 0 ∧
      s.threads.countP RouterThread.isClosing = 0 := by
  have hfirst := h.first
  have hlast := h.last
  constructor
  · omega
  · omega

theorem Inv.decrementAndGet_eq (h : Inv s) (husers : 0 < s.users) :
    s.decrementAndGet =
      ({ s with refCount := s.users - 1 }, if 1 < s.users then .finished else .clearing) := by
  have hcount := h.count
  have hbound := h.bound
  have hnone := (h.settled husers).1
  have heq : s.refCount = s.users := by omega
  have hwrap : wrap (s.refCount - 1) = s.refCount - 1 := wrap_eq (by omega) (by omega)
  unfold decrementAndGet
  dsimp only
  rw [hwrap, heq]
  by_cases hmore : 1 < s.users
  · rw [if_pos hmore, if_pos (by omega)]
  · rw [if_neg hmore, if_neg (by omega)]

theorem Inv.decremented (h : Inv s) (husers : 0 < s.users)
    {threads : List (RouterThread Proxy)} {started : Nat}
    (hrequest : threads.countP RouterThread.isRequesting = 0)
    (hclosing : threads.countP RouterThread.isClosing = if 1 < s.users then 0 else 1)
    (hless : threads.countP RouterThread.isRouting + started + 1 = s.users) :
    Inv { s with refCount := s.users - 1, threads := threads, started := started } := by
  have hcount := h.count
  have hbound := h.bound
  constructor
  · change (s.users : Int) - 1 =
      (threads.countP RouterThread.isRouting + started : Nat) +
        threads.countP RouterThread.isRequesting
    omega
  · dsimp only
    omega
  · dsimp only
    omega
  · dsimp only
    omega
  · change 0 < threads.countP RouterThread.isClosing →
      threads.countP RouterThread.isRouting + started = 0
    split at hclosing
    · omega
    · omega
  · intro _
    exact h.kept husers

theorem stopped_counts (n : Nat) :
    (if 1 < n then .finished else .clearing : RouterThread Proxy).isRequesting = false ∧
      (if (if 1 < n then .finished else .clearing : RouterThread Proxy).isClosing then 1 else 0) =
        (if 1 < n then 0 else 1) ∧
      (if 1 < n then .finished else .clearing : RouterThread Proxy).isRouting = false := by
  split
  · exact ⟨rfl, rfl, rfl⟩
  · exact ⟨rfl, rfl, rfl⟩

theorem Inv.stop (h : Inv s) (hstarted : 0 < s.started) : Inv s.stop := by
  have husers : 0 < s.users := by
    rw [users_eq]
    omega
  obtain ⟨hnone, hopen⟩ := h.settled husers
  obtain ⟨hrequest, hclosing, hrouting⟩ := @stopped_counts Proxy s.users
  unfold AudioRouter.stop
  rw [h.decrementAndGet_eq husers]
  apply h.decremented husers
  · rw [List.countP_append, List.countP_singleton, hrequest, hnone]
    rfl
  · rw [List.countP_append, List.countP_singleton, hclosing, hopen, Nat.zero_add]
  · rw [List.countP_append, List.countP_singleton, hrouting, users_eq]
    simp only [Bool.false_eq_true, if_false]
    omega

theorem Inv.stopRoute {proxy : Option Proxy} (h : Inv s)
    (hi : s.threads[i]? = some (.routing proxy)) : Inv (s.stopRoute i) := by
  have husers : 0 < s.users := by
    have hpos := countP_pos (p := RouterThread.isRouting) hi rfl
    rw [users_eq]
    omega
  obtain ⟨hnone, hopen⟩ := h.settled husers
  obtain ⟨hrequest, hclosing, hrouting⟩ := @stopped_counts Proxy s.users
  unfold AudioRouter.stopRoute
  rw [h.decrementAndGet_eq husers]
  apply h.decremented husers
  · exact (countP_kept hi hrequest.symm).trans hnone
  · have hmove := countP_move RouterThread.isClosing hi
      (if 1 < s.users then .finished else .clearing)
    rw [hclosing, hopen, Nat.zero_add] at hmove
    exact hmove
  · have hmove := countP_move RouterThread.isRouting hi
      (if 1 < s.users then .finished else .clearing)
    rw [hrouting] at hmove
    simp only [RouterThread.isRouting, Bool.false_eq_true, if_true, if_false] at hmove
    have hall := users_eq s
    dsimp only
    omega

/-! ### Steps of the proxy -/

theorem Inv.proxy (h : Inv s) {ad2p : Option Proxy} {fresh stale : Nat} {disconnected : Bool}
    (hkept : 0 < s.users → ad2p ≠ none ∨ 0 < fresh ∨ disconnected = true) :
    Inv { s with ad2p := ad2p, fresh := fresh, stale := stale, disconnected := disconnected } :=
  ⟨h.count, h.bound, h.requesting, h.first, h.last, hkept⟩

theorem Inv.takeProxy {proxy : Proxy} (h : Inv s)
    (hi : s.threads[i]? = some (.routing none)) :
    Inv { s with threads := s.threads.set i (.routing (some proxy)) } := by
  have hrequest := countP_kept (p := RouterThread.isRequesting) (y := .routing (some proxy)) hi rfl
  have hclosing := countP_kept (p := RouterThread.isClosing) (y := .routing (some proxy)) hi rfl
  have hrouting := countP_kept (p := RouterThread.isRouting) (y := .routing (some proxy)) hi rfl
  constructor
  · rw [users_eq, hrequest, hrouting]
    exact h.count
  · exact h.bound
  · rw [hrequest]
    exact h.requesting
  · rw [hrequest, users_eq, hrouting]
    exact h.first
  · rw [hclosing, users_eq, hrouting]
    exact h.last
  · rw [users_eq, hrouting]
    exact h.kept

theorem Inv.closes {x y : RouterThread Proxy} (h : Inv s) (hi : s.threads[i]? = some x)
    (hx : x.isClosing = true ∧ x.isRequesting = false ∧ x.isRouting = false)
    (hy : y.isRequesting = false ∧ y.isRouting = false)
    (ad2p : Option Proxy) (fresh stale : Nat) (disconnected : Bool) :
    Inv { s with
      threads := s.threads.set i y
      ad2p := ad2p
      fresh := fresh
      stale := stale
      disconnected := disconnected } := by
  have hrequest := countP_kept (p := RouterThread.isRequesting) (y := y) hi (by rw [hx.2.1, hy.1])
  have hrouting := countP_kept (p := RouterThread.isRouting) (y := y) hi (by rw [hx.2.2, hy.2])
  have hzero : s.users = 0 := h.last (countP_pos hi hx.1)
  have hnobody : (s.threads.set i y).countP RouterThread.isRouting + s.started = 0 := by
    rw [hrouting]
    exact hzero
  constructor
  · rw [users_eq, hrequest, hrouting]
    exact h.count
  · exact h.bound
  · rw [hrequest]
    exact h.requesting
  · exact fun _ => hnobody
  · exact fun _ => hnobody
  · exact fun hpos => absurd hnobody (Nat.ne_of_gt hpos)

theorem Inv.onServiceConnected {proxy : Proxy} {answered : Answered} (h : Inv s)
    (hstep : s.onServiceConnected proxy answered = some t) : Inv t := by
  cases answered with
  | fresh =>
    simp only [AudioRouter.onServiceConnected, Option.ite_none_right_eq_some,
      Option.some.injEq] at hstep
    obtain ⟨-, rfl⟩ := hstep
    exact h.proxy (fun _ => Or.inl (Option.some_ne_none proxy))
  | stale =>
    simp only [AudioRouter.onServiceConnected, Option.ite_none_right_eq_some,
      Option.some.injEq] at hstep
    obtain ⟨-, rfl⟩ := hstep
    exact h.proxy (fun _ => Or.inl (Option.some_ne_none proxy))
  | none =>
    cases hstep
    exact h.proxy (fun _ => Or.inl (Option.some_ne_none proxy))

theorem Inv.onProxyLost (h : Inv s) : Inv s.onProxyLost :=
  h.proxy (fun _ => Or.inr (Or.inr rfl))

/-! ### Runs -/

theorem Inv.step {a : Action Proxy} (h : Inv s) (hguard : Guard s a)
    (hstep : s.step a = some t) : Inv t := by
  cases a with
  | start starter =>
    cases hstep
    exact h.start starter hguard.1 hguard.2
  | getProfileProxy i outcome =>
    obtain ⟨rfl, hnone⟩ := hguard
    simp only [AudioRouter.step] at hstep
    split at hstep
    · rename_i starter hi
      cases hstep
      exact h.getProfileProxy hi hnone
    · cases hstep
  | takeProxy i =>
    simp only [AudioRouter.step] at hstep
    split at hstep
    · rename_i hi _
      cases hstep
      exact h.takeProxy hi
    · cases hstep
  | stop =>
    cases hstep
    exact h.stop hguard
  | stopRoute i =>
    simp only [AudioRouter.step] at hstep
    split at hstep
    · rename_i hi
      cases hstep
      exact h.stopRoute hi
    · cases hstep
  | clear i =>
    simp only [AudioRouter.step] at hstep
    split at hstep
    · rename_i hi
      cases hstep
      exact h.closes hi ⟨rfl, rfl, rfl⟩ ⟨rfl, rfl⟩ _ _ _ _
    · cases hstep
  | closeProfileProxy i =>
    simp only [AudioRouter.step] at hstep
    split at hstep
    · rename_i hi
      cases hstep
      exact h.closes hi ⟨rfl, rfl, rfl⟩ ⟨rfl, rfl⟩ _ _ _ _
    · cases hstep
  | onServiceConnected proxy answered => exact h.onServiceConnected hstep
  | onServiceDisconnected =>
    cases hstep
    exact h.onProxyLost

theorem inv_initial : Inv (initial : AudioRouter Proxy) := by
  constructor
  · rfl
  · change (0 : Int) < 2 ^ 31
    decide
  · exact Nat.zero_le 1
  · exact fun _ => rfl
  · exact fun _ => rfl
  · exact fun hpos => absurd hpos (Nat.lt_irrefl 0)

theorem inv_reachable (hreach : machine.ReachableVia Guard s) : Inv s := by
  refine hreach.invariant Inv ?_ ?_
  · rintro s rfl
    exact inv_initial
  · intro s a t h hguard hstep
    exact h.step hguard hstep

theorem Inv.proxyKept (h : Inv s) : ProxyKept s := by
  constructor
  · have hcount := h.count
    omega
  · exact h.kept
  · intro old hmem
    apply h.last
    rcases hmem with hmem | hmem
    · exact List.countP_pos_iff.mpr ⟨_, hmem, rfl⟩
    · exact List.countP_pos_iff.mpr ⟨_, hmem, rfl⟩

/-- In every run that meets the guard, the users keep the proxy in every state. -/
theorem keeps_proxy (h : machine.ReachableVia Guard s) : ProxyKept s :=
  (inv_reachable h).proxyKept

end

namespace Sample

def unmatched : List (Action Unit) := [.stop]

/-- JavaScript starts, is connected and stops; a route starts between the count of that `stop`
and its close, which takes the new proxy away from it. -/
def lateClose : List (Action Unit) :=
  [.start .javaScript, .getProfileProxy 0 .accepted, .onServiceConnected () .fresh, .stop,
    .start .route, .getProfileProxy 2 .accepted, .onServiceConnected () .fresh, .clear 1,
    .closeProfileProxy 1]

/-- The second user goes on before the first has made the request. -/
def earlyUser : List (Action Unit) := [.start .javaScript, .start .route]

def refused : List (Action Unit) := [.start .route, .getProfileProxy 0 .refused]

/-- A route that waits when the last step of a run is done, and nothing to wait for. -/
def Stranded (actions : List (Action Unit)) : Prop :=
  ∃ s, machine.run initial actions = some s ∧ 0 < s.users ∧ s.ad2p = none ∧ s.fresh = 0 ∧
    s.disconnected = false

end Sample

theorem keeps_proxy_stopped :
    ∃ s : AudioRouter Unit, ProxyKept s ∧ s.users = 1 ∧ s.refCount = 1 ∧ s.ad2p = some () := by
  have h : machine.ReachableVia Guard (initial : AudioRouter Unit) := .start rfl
  have hcounted := h.after (.start .javaScript) ⟨rfl, by decide⟩ rfl
  have hrequested := hcounted.after (.getProfileProxy 0 .accepted) ⟨rfl, rfl⟩ rfl
  have hconnected := hrequested.after (.onServiceConnected () .fresh) trivial rfl
  have hroute := hconnected.after (.start .route) ⟨rfl, by decide⟩ rfl
  have htaken := hroute.after (.takeProxy 1) trivial rfl
  have hstopped := htaken.after (.stopRoute 1) trivial rfl
  exact ⟨_, keeps_proxy hstopped, rfl, rfl, rfl⟩

/-- The counter goes below zero, and users are left without a proxy and without a request. -/
theorem loses_proxy :
    (∃ s, (machine : Machine (AudioRouter Unit) _).Reachable s ∧
      machine.run initial Sample.unmatched = some s ∧ s.refCount = -1) ∧
    ∀ actions ∈ [Sample.lateClose, Sample.earlyUser, Sample.refused],
      Sample.Stranded actions := by
  constructor
  · have h : (machine : Machine (AudioRouter Unit) _).Reachable initial := .start rfl
    exact ⟨_, h.step (a := .stop) rfl, rfl, rfl⟩
  · intro actions hactions
    simp only [List.mem_cons, List.not_mem_nil, or_false] at hactions
    rcases hactions with rfl | rfl | rfl
    · exact ⟨_, rfl, by decide, rfl, rfl, rfl⟩
    · exact ⟨_, rfl, by decide, rfl, rfl, rfl⟩
    · exact ⟨_, rfl, by decide, rfl, rfl, rfl⟩

end AudioRouter

end AlmondAndroid.App
