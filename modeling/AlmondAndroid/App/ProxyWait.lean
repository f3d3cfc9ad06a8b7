import AlmondAndroid.App.AudioRouter
import AlmondAndroid.Bridge.Values
import Mathlib.Data.Nat.Find

/-!
# Waiting for the audio proxy

`setAudioRouteBluetooth` and `isAudioRouteBluetooth` wait for the proxy of the A2DP service in
a loop. Each wait takes at most five seconds, but the loop waits again whatever has woken it
up, as long as there is no proxy. Before that the address has to be one of a device, and `start`,
which is outside the `try` block, can throw.
-/

namespace AlmondAndroid.App

open Bridge

universe u v w

variable {Proxy : Type u} {Device : Type v} {α : Type w}

/-- A return of `wait`: the milliseconds since the call began to wait, and the proxy that is
there. What has woken the thread up, a time-out, a notification or nothing, is not seen. -/
structure WakeUp (Proxy : Type u) where
  elapsed : Nat
  ad2p : Option Proxy

/-- The calls of `start` and `stop`, and the result; there is none while the call waits. -/
structure RouteOutcome (α : Type w) where
  starts : Nat
  stops : Nat
  result : Option α
  deriving DecidableEq

inductive RouteError
  | noAdapter
  | nullAddress
  | illegalAddress
  | profileProxy
  | sdkChanged
  | cause

/-- The texts that the methods give themselves. -/
def RouteError.message : RouteError → Option U16String
  | noAdapter => some (u16 "This device has no bluetooth adapter")
  | sdkChanged =>
    some (u16 "Unable to switch AD2P profile to given device, Android SDK changed incompatibly")
  | _ => none

/-- How the reflective call of `connect` ends. -/
inductive Connect
  | done
  | noSuchMethod
  | illegalAccess
  | invocationTarget

/-- What the calls ask the platform. An address that `getRemoteDevice` refuses is `none`, and so
is an exception of `isA2dpPlaying`. -/
structure RoutePlatform (Proxy : Type u) (Device : Type v) where
  hasAdapter : Bool
  isBluetoothA2dpOn : Bool
  toUpperCase : U16String → U16String
  getRemoteDevice : U16String → Option Device
  connect : Proxy → Device → Connect
  isA2dpPlaying : Proxy → Device → Option Bool

namespace ProxyWait

/-- `currentAd2p` after these returns of `wait`; at `none` the loop waits again. -/
def awaitProxy : Option Proxy → List (WakeUp Proxy) → Option Proxy
  | some p, _ => some p
  | none, [] => none
  | none, wakeUp :: wakeUps => awaitProxy wakeUp.ad2p wakeUps

/-- `start`, and where it does not throw the loop and, when that is left, the rest of the `try`
block and `stop`. `request` is what becomes of the request of the first user. -/
def route (request : Option ProfileRequest) (ad2p : Option Proxy)
    (wakeUps : List (WakeUp Proxy)) (body : Proxy → Except RouteError α) :
    RouteOutcome (Except RouteError α) :=
  if request = some .threw then ⟨1, 0, some (.error .profileProxy)⟩
  else
    match awaitProxy ad2p wakeUps with
    | none => ⟨1, 0, none⟩
    | some p => ⟨1, 1, some (body p)⟩

/-- `getRemoteDevice(address.toUpperCase())` -/
def remoteDevice (P : RoutePlatform Proxy Device) :
    Option U16String → Except RouteError Device
  | none => .error .nullAddress
  | some address =>
    match P.getRemoteDevice (P.toUpperCase address) with
    | none => .error .illegalAddress
    | some btDevice => .ok btDevice

/-- The part that the two methods have in common. -/
def routeTo (P : RoutePlatform Proxy Device) (address : Option U16String)
    (request : Option ProfileRequest) (ad2p : Option Proxy) (wakeUps : List (WakeUp Proxy))
    (body : Proxy → Device → Except RouteError α) : RouteOutcome (Except RouteError α) :=
  match remoteDevice P address with
  | .error e => ⟨0, 0, some (.error e)⟩
  | .ok btDevice => route request ad2p wakeUps fun p => body p btDevice

def connected : Connect → Except RouteError Unit
  | .done => .ok ()
  | .noSuchMethod => .error .sdkChanged
  | .illegalAccess => .error .sdkChanged
  | .invocationTarget => .error .cause

def setAudioRouteBluetooth (P : RoutePlatform Proxy Device) (address : Option U16String)
    (request : Option ProfileRequest) (ad2p : Option Proxy) (wakeUps : List (WakeUp Proxy)) :
    RouteOutcome (Except RouteError Unit) :=
  if !P.hasAdapter then ⟨0, 0, some (.error .noAdapter)⟩
  else
    routeTo P address request ad2p wakeUps fun p btDevice => connected (P.connect p btDevice)

/-- An exception of `isA2dpPlaying` is logged. -/
def isAudioRouteBluetooth (P : RoutePlatform Proxy Device) (address : Option U16String)
    (request : Option ProfileRequest) (ad2p : Option Proxy) (wakeUps : List (WakeUp Proxy)) :
    RouteOutcome (Except RouteError Bool) :=
  if !P.hasAdapter then ⟨0, 0, some (.ok false)⟩
  else if !P.isBluetoothA2dpOn then ⟨0, 0, some (.ok false)⟩
  else
    routeTo P address request ad2p wakeUps fun p btDevice =>
      .ok ((P.isA2dpPlaying p btDevice).getD false)

/-- "wait at most 5 seconds" -/
def BOUND : Nat := 5000

def before (wakeUps : Nat → WakeUp Proxy) (n : Nat) : List (WakeUp Proxy) :=
  (List.range n).map wakeUps

/-- The call ends, after as many calls of `stop` as of `start`; and where a wait ends after
five seconds, the call does not wait again, but ends, and fails if there is no proxy. -/
def Bounded (failed : α → Prop) (call : List (WakeUp Proxy) → RouteOutcome α)
    (wakeUps : Nat → WakeUp Proxy) : Prop :=
  (∃ n, (call (before wakeUps n)).result.isSome) ∧
    (∀ n, (call (before wakeUps n)).result.isSome →
      (call (before wakeUps n)).stops = (call (before wakeUps n)).starts) ∧
    ∀ n, (call (before wakeUps n)).result = none → BOUND ≤ (wakeUps n).elapsed →
      ∃ result, (call (before wakeUps (n + 1))).result = some result ∧
        ((wakeUps n).ad2p = none → failed result)

/-- There is a proxy at once, or at a return of `wait` before which five seconds were never
over. -/
def SeenInTime (ad2p : Option Proxy) (wakeUps : Nat → WakeUp Proxy) : Prop :=
  ad2p ≠ none ∨ ∃ n, (wakeUps n).ad2p ≠ none ∧ ∀ m < n, (wakeUps m).elapsed < BOUND

section

variable {ad2p : Option Proxy} {wakeUps : Nat → WakeUp Proxy}

theorem awaitProxy_append (l : List (WakeUp Proxy)) (wakeUp : WakeUp Proxy) :
    ∀ ad2p : Option Proxy, awaitProxy ad2p (l ++ [wakeUp]) =
      (awaitProxy ad2p l).or wakeUp.ad2p := by
  induction l with
  | nil =>
    intro ad2p
    cases ad2p with
    | none =>
      cases hwake : wakeUp.ad2p with
      | none => simp [awaitProxy, hwake]
      | some p => simp [awaitProxy, hwake]
    | some p => rfl
  | cons first l ih =>
    intro ad2p
    cases ad2p with
    | none => exact ih first.ad2p
    | some p => rfl

theorem awaitProxy_before (n : Nat) : awaitProxy ad2p (before wakeUps (n + 1)) =
    (awaitProxy ad2p (before wakeUps n)).or (wakeUps n).ad2p := by
  rw [before, List.range_succ, List.map_append, List.map_singleton, awaitProxy_append, before]

theorem awaitProxy_eq_none (n : Nat) : awaitProxy ad2p (before wakeUps n) = none ↔
    ad2p = none ∧ ∀ m < n, (wakeUps m).ad2p = none := by
  induction n with
  | zero =>
    cases ad2p with
    | none => exact iff_of_true rfl ⟨rfl, fun m hm => absurd hm (Nat.not_lt_zero m)⟩
    | some p => exact iff_of_false (Option.some_ne_none p) fun h => Option.some_ne_none p h.1
  | succ n ih =>
    rw [awaitProxy_before, Option.or_eq_none_iff, ih]
    constructor
    · rintro ⟨⟨hfirst, hall⟩, hlast⟩
      refine ⟨hfirst, fun m hm => ?_⟩
      rcases Nat.lt_succ_iff_lt_or_eq.mp hm with hm | rfl
      · exact hall m hm
      · exact hlast
    · rintro ⟨hfirst, hall⟩
      exact ⟨⟨hfirst, fun m hm => hall m (Nat.lt_succ_of_lt hm)⟩, hall n (Nat.lt_succ_self n)⟩

section

variable {request : Option ProfileRequest} {body : Proxy → Except RouteError α}

theorem route_waits (hrequest : request ≠ some .threw) {l : List (WakeUp Proxy)} :
    (route request ad2p l body).result = none ↔ awaitProxy ad2p l = none := by
  rw [route, if_neg hrequest]
  split
  · rename_i hnone
    exact iff_of_true rfl hnone
  · rename_i p hsome
    rw [hsome]
    exact iff_of_false (Option.some_ne_none _) (Option.some_ne_none _)

theorem route_stops (hrequest : request ≠ some .threw) {l : List (WakeUp Proxy)}
    (h : (route request ad2p l body).result.isSome) :
    (route request ad2p l body).stops = (route request ad2p l body).starts := by
  rw [route, if_neg hrequest] at h ⊢
  split
  · rename_i hnone
    rw [hnone] at h
    cases h
  · rfl

theorem route_bounded_iff (failed : Except RouteError α → Prop) :
    Bounded failed (fun l => route request ad2p l body) wakeUps ↔
      request ≠ some .threw ∧ SeenInTime ad2p wakeUps := by
  constructor
  · rintro ⟨⟨n, hn⟩, hstops, hbound⟩
    have hrequest : request ≠ some .threw := by
      rintro rfl
      have hstop := hstops 0 rfl
      cases hstop
    refine ⟨hrequest, ?_⟩
    by_cases hfirst : ad2p = none
    · right
      -- the first return of `wait` that finds a proxy
      have hsome : ∃ m, (wakeUps m).ad2p ≠ none := by
        by_contra hnone
        have hwait : awaitProxy ad2p (before wakeUps n) = none :=
          (awaitProxy_eq_none n).mpr ⟨hfirst, fun m _ => by
            by_contra hm
            exact hnone ⟨m, hm⟩⟩
        rw [(route_waits hrequest).mpr hwait] at hn
        cases hn
      classical
      refine ⟨Nat.find hsome, Nat.find_spec hsome, fun m hm => Nat.lt_of_not_le fun hle => ?_⟩
      have hwaits : ∀ k ≤ m + 1, awaitProxy ad2p (before wakeUps k) = none := by
        refine fun k hk => (awaitProxy_eq_none k).mpr ⟨hfirst, fun j hj => ?_⟩
        by_contra hne
        exact Nat.find_min hsome (by omega) hne
      obtain ⟨result, hresult, -⟩ :=
        hbound m ((route_waits hrequest).mpr (hwaits m (Nat.le_succ m))) hle
      rw [(route_waits hrequest).mpr (hwaits (m + 1) (Nat.le_refl _))] at hresult
      cases hresult
    · exact .inl hfirst
  · rintro ⟨hrequest, hseen⟩
    refine ⟨?_, fun n hn => route_stops hrequest hn, fun n hn hle => ?_⟩
    · rcases hseen with hfirst | ⟨n, hn, -⟩
      · refine ⟨0, Option.isSome_iff_ne_none.mpr fun hwait => hfirst ?_⟩
        exact ((awaitProxy_eq_none 0).mp ((route_waits hrequest).mp hwait)).1
      · refine ⟨n + 1, Option.isSome_iff_ne_none.mpr fun hwait => hn ?_⟩
        exact ((awaitProxy_eq_none (n + 1)).mp ((route_waits hrequest).mp hwait)).2 n
          (Nat.lt_succ_self n)
    · obtain ⟨hnone, hall⟩ := (awaitProxy_eq_none n).mp ((route_waits hrequest).mp hn)
      rcases hseen with hfirst | ⟨k, hk, hbound⟩
      · exact absurd hnone hfirst
      · have hkn : n ≤ k := Nat.le_of_not_lt fun hlt => hk (hall k hlt)
        have hnk : k ≤ n := Nat.le_of_not_lt fun hlt => Nat.not_lt.mpr hle (hbound n hlt)
        obtain rfl : k = n := Nat.le_antisymm hnk hkn
        obtain ⟨result, hresult⟩ := Option.ne_none_iff_exists'.mp fun hwait =>
          hk (((awaitProxy_eq_none (k + 1)).mp ((route_waits hrequest).mp hwait)).2 k
            (Nat.lt_succ_self k))
        exact ⟨result, hresult, fun hnone => absurd hnone hk⟩

end

theorem bounded_of_ended {failed : α → Prop} {call : List (WakeUp Proxy) → RouteOutcome α}
    (result : α) (h : ∀ l, call l = ⟨0, 0, some result⟩) : Bounded failed call wakeUps := by
  refine ⟨⟨0, ?_⟩, fun n _ => ?_, fun n hn => ?_⟩
  · rw [h]
    rfl
  · rw [h]
  · rw [h] at hn
    cases hn

end

/-- The address is `null`, or none that `getRemoteDevice` takes. -/
def NoDevice (P : RoutePlatform Proxy Device) (address : Option U16String) : Prop :=
  ∀ a, address = some a → P.getRemoteDevice (P.toUpperCase a) = none

theorem routeTo_bounded_iff (P : RoutePlatform Proxy Device) (address : Option U16String)
    (request : Option ProfileRequest) (ad2p : Option Proxy) (wakeUps : Nat → WakeUp Proxy)
    (body : Proxy → Device → Except RouteError α) (failed : Except RouteError α → Prop) :
    Bounded failed (fun l => routeTo P address request ad2p l body) wakeUps ↔
      NoDevice P address ∨ request ≠ some .threw ∧ SeenInTime ad2p wakeUps := by
  cases address with
  | none =>
    refine iff_of_true (bounded_of_ended (.error .nullAddress) fun l => rfl) (.inl ?_)
    rintro a ⟨⟩
  | some a =>
    cases hdevice : P.getRemoteDevice (P.toUpperCase a) with
    | none =>
      have hremote : remoteDevice P (some a) = .error .illegalAddress := by
        rw [remoteDevice, hdevice]
      refine iff_of_true (bounded_of_ended (.error .illegalAddress) fun l => ?_) (.inl ?_)
      · rw [routeTo, hremote]
      · rintro b ⟨⟩
        exact hdevice
    | some btDevice =>
      have hremote : remoteDevice P (some a) = .ok btDevice := by rw [remoteDevice, hdevice]
      have hcall : (fun l => routeTo P (some a) request ad2p l body) =
          fun l => route request ad2p l fun p => body p btDevice := by
        funext l
        rw [routeTo, hremote]
      have hsome : ¬ NoDevice P (some a) := fun h => by
        rw [h a rfl] at hdevice
        cases hdevice
      rw [hcall, route_bounded_iff, or_iff_right hsome]

def IsError (result : Except RouteError Unit) : Prop := ∃ e, result = .error e

def IsErrorOrFalse (result : Except RouteError Bool) : Prop :=
  result = .ok false ∨ ∃ e, result = .error e

/-- When the waits of the two calls are bounded, for every address, every outcome of the request
for the proxy and every sequence of returns of `wait`. -/
theorem wait_bounded_iff (P : RoutePlatform Proxy Device) (address : Option U16String)
    (request : Option ProfileRequest) (ad2p : Option Proxy) (wakeUps : Nat → WakeUp Proxy) :
    (Bounded IsError (setAudioRouteBluetooth P address request ad2p) wakeUps ↔
      P.hasAdapter = false ∨ NoDevice P address ∨
        request ≠ some .threw ∧ SeenInTime ad2p wakeUps) ∧
    (Bounded IsErrorOrFalse (isAudioRouteBluetooth P address request ad2p) wakeUps ↔
      P.hasAdapter = false ∨ P.isBluetoothA2dpOn = false ∨ NoDevice P address ∨
        request ≠ some .threw ∧ SeenInTime ad2p wakeUps) := by
  constructor
  · cases hadapter : P.hasAdapter with
    | false =>
      refine iff_of_true (bounded_of_ended (.error .noAdapter) fun l => ?_) (.inl rfl)
      rw [setAudioRouteBluetooth, hadapter]
      rfl
    | true =>
      have hcall : setAudioRouteBluetooth P address request ad2p =
          fun l => routeTo P address request ad2p l fun p d => connected (P.connect p d) := by
        funext l
        rw [setAudioRouteBluetooth, hadapter]
        rfl
      rw [hcall, routeTo_bounded_iff]
      exact ⟨.inr, fun h => h.resolve_left (by decide)⟩
  · cases hadapter : P.hasAdapter with
    | false =>
      refine iff_of_true (bounded_of_ended (.ok false) fun l => ?_) (.inl rfl)
      rw [isAudioRouteBluetooth, hadapter]
      rfl
    | true =>
      cases hon : P.isBluetoothA2dpOn with
      | false =>
        refine iff_of_true (bounded_of_ended (.ok false) fun l => ?_) (.inr (.inl rfl))
        rw [isAudioRouteBluetooth, hadapter, hon]
        rfl
      | true =>
        have hcall : isAudioRouteBluetooth P address request ad2p =
            fun l => routeTo P address request ad2p l fun p d =>
              .ok ((P.isA2dpPlaying p d).getD false) := by
          funext l
          rw [isAudioRouteBluetooth, hadapter, hon]
          rfl
        rw [hcall, routeTo_bounded_iff]
        exact ⟨fun h => .inr (.inr h), fun h => (h.resolve_left (by decide)).resolve_left
          (by decide)⟩

def headset : U16String := u16 "00:11:22:AA:BB:CC"

/-- A phone with one device, which plays. -/
def onePhone : RoutePlatform Unit Unit where
  hasAdapter := true
  isBluetoothA2dpOn := true
  toUpperCase := id
  getRemoteDevice address := if address = headset then some () else none
  connect _ _ := .done
  isA2dpPlaying _ _ := some true

/-- No proxy ever comes, and each wait ends after five seconds. -/
theorem waits_for_ever : ∃ (P : RoutePlatform Unit Unit) (wakeUps : Nat → WakeUp Unit),
    (∀ n, (setAudioRouteBluetooth P (some headset) (some .accepted) none
      (before wakeUps n)).result = none) ∧
      (∀ n, (isAudioRouteBluetooth P (some headset) (some .accepted) none
        (before wakeUps n)).result = none) ∧
      ¬ Bounded IsError (setAudioRouteBluetooth P (some headset) (some .accepted) none) wakeUps ∧
      ¬ Bounded IsErrorOrFalse (isAudioRouteBluetooth P (some headset) (some .accepted) none)
        wakeUps := by
  let wakeUps : Nat → WakeUp Unit := fun n => ⟨BOUND * (n + 1), none⟩
  have hwait : ∀ n, awaitProxy none (before wakeUps n) = none :=
    fun n => (awaitProxy_eq_none n).mpr ⟨rfl, fun _ _ => rfl⟩
  have hroute : ∀ {α : Type} n (body : Unit → Except RouteError α),
      (route (some .accepted) none (before wakeUps n) body).result = none :=
    fun n body => (route_waits (by decide)).mpr (hwait n)
  have hset : ∀ n, (setAudioRouteBluetooth onePhone (some headset) (some .accepted) none
      (before wakeUps n)).result = none := fun n => hroute n _
  have his : ∀ n, (isAudioRouteBluetooth onePhone (some headset) (some .accepted) none
      (before wakeUps n)).result = none := fun n => hroute n _
  refine ⟨onePhone, wakeUps, hset, his, ?_, ?_⟩
  · rintro ⟨⟨n, hn⟩, -⟩
    rw [hset n] at hn
    cases hn
  · rintro ⟨⟨n, hn⟩, -⟩
    rw [his n] at hn
    cases hn

end ProxyWait

end AlmondAndroid.App
