import AlmondAndroid.App.Preferences
import AlmondAndroid.Assistant.Message
import AlmondAndroid.Ui.Tasks

/-!
# The settings screen

`SettingsActivity` shows what the engine has stored of the account, and reads it again
whenever the store says that it has changed. The engine writes from node's thread, also
between the reads of the main thread and before the listener is registered.
-/

namespace AlmondAndroid.Ui

open Library Bridge App Assistant

/-- The preferences that `initAuthInfo` reads, in its order. -/
def authKeys : List U16String := [u16 "cloud-id", u16 "auth-token", u16 "developer-key"]

def storeLogKey : U16String := u16 "sabrina-store-log"

/-- `none` is a `JSONException` or a `ClassCastException`. -/
def readStringPref (rt : Runtime) (stored : Option U16String) : Option JavaString :=
  match rt.nextValue (stored.getD (u16 "null")) with
  | some (.string s) => some (some s)
  | some .jsonNull | some .null => some none
  | _ => none

def CloudAuthInfo.isValid (info : CloudAuthInfo) : Bool :=
  info.cloudId.isSome && info.authToken.isSome

/-- What the main thread is doing: `initAuthInfo`, with what it has read so far, or the end
of `refreshView`. An exception ends the process. -/
inductive MainThread
  | reading (values : List JavaString)
  | refreshing
  | idle
  | crashed
  | destroyed

/-- `posted` has the keys of the notifications that the main thread has yet to run. -/
structure SettingsActivity (lib : JsonLibraries) where
  prefs : AndroidSharedPreferences lib
  main : MainThread
  registered : Bool
  authInfo : CloudAuthInfo
  developerKey : JavaString
  storeLog : Bool
  posted : List U16String

namespace SettingsActivity

variable {lib : JsonLibraries}

inductive Action (lib : JsonLibraries)
  | prefs (action : AndroidSharedPreferences.Action lib)
  | read
  | register
  | onSharedPreferenceChanged
  | onPreferenceChange (storeLog : Bool)
  | onDestroy

/-- `onCreate` begins with `initAuthInfo`. -/
def initial (lib : JsonLibraries) (stored : Store) : SettingsActivity lib where
  prefs := .initial lib stored
  main := .reading []
  registered := false
  authInfo := ⟨none, none⟩
  developerKey := none
  storeLog := false
  posted := []

def cloudSyncEnabled (s : SettingsActivity lib) : Bool := s.authInfo.isValid

/-- The keys of a commit for which the listener does something. -/
def changed (before after : Store) : List U16String :=
  authKeys.filter fun key => before key ≠ after key

def readNext (s : SettingsActivity lib) (values : List JavaString) (value : JavaString) :
    SettingsActivity lib :=
  match values with
  | [] => { s with main := .reading [value] }
  | [cloudId] => { s with main := .reading [cloudId, value] }
  | cloudId :: authToken :: _ =>
      { s with
        main := .refreshing, authInfo := ⟨cloudId, authToken⟩, developerKey := value }

def read (s : SettingsActivity lib) : Option (SettingsActivity lib) :=
  match s.main with
  | .reading values =>
      match authKeys[values.length]? with
      | none => none
      | some key =>
          match readStringPref lib.rt (s.prefs.store key) with
          | some value => some (s.readNext values value)
          | none => some { s with main := .crashed }
  | .refreshing =>
      match readStringPref lib.rt (s.prefs.store storeLogKey) with
      | some value => some { s with main := .idle, storeLog := value = some (u16 "yes") }
      | none => some { s with main := .crashed }
  | _ => none

/-- The commits of the main thread call the listener at once, which leaves this key alone. -/
def putStoreLog (s : SettingsActivity lib) (storeLog : Bool) : SettingsActivity lib :=
  { s with
    prefs := { s.prefs with
      store := Table.assign s.prefs.store
        [(storeLogKey, if storeLog then u16 "\"yes\"" else u16 "\"no\"")] }
    storeLog := storeLog }

def step (s : SettingsActivity lib) : Action lib → Option (SettingsActivity lib)
  | .prefs action =>
      match s.main with
      | .crashed => none
      | _ => (s.prefs.step action).map fun prefs =>
          { s with
            prefs := prefs
            posted := s.posted ++
              if s.registered then changed s.prefs.store prefs.store else [] }
  | .read => s.read
  | .register =>
      match s.main, s.registered with
      | .idle, false => some { s with registered := true }
      | _, _ => none
  | .onSharedPreferenceChanged =>
      match s.main, s.posted with
      | .idle, _ :: posted => some { s with main := .reading [], posted := posted }
      | _, _ => none
  | .onPreferenceChange storeLog =>
      match s.main, s.registered with
      | .idle, true => some (s.putStoreLog storeLog)
      | _, _ => none
  | .onDestroy =>
      match s.main, s.registered with
      | .idle, true => some { s with main := .destroyed, registered := false }
      | _, _ => none

def machine (lib : JsonLibraries) (stored : Store) :
    Machine (SettingsActivity lib) (Action lib) where
  Init s := s = initial lib stored
  step := step

/-! ## What is shown -/

def shown (s : SettingsActivity lib) (key : U16String) : JavaString :=
  if key = u16 "cloud-id" then s.authInfo.cloudId
  else if key = u16 "auth-token" then s.authInfo.authToken
  else s.developerKey

/-- The preferences read since `initAuthInfo` was last called. -/
def keysRead (s : SettingsActivity lib) : List U16String :=
  match s.main with
  | .reading values => authKeys.take values.length
  | _ => authKeys

/-- Before the listener is registered no preference changes that has been read. -/
def UnchangedUntilRegistered (s : SettingsActivity lib) : Action lib → Prop
  | .prefs action => s.registered = false → ∀ prefs, s.prefs.step action = some prefs →
      ∀ key ∈ s.keysRead, prefs.store key = s.prefs.store key
  | _ => True

/-! ## The screen against the store -/

/-- What has been read since `initAuthInfo` was called, or is shown, is what is stored. -/
def Current (s : SettingsActivity lib) : Prop :=
  match s.main with
  | .reading values =>
      (authKeys.take values.length).map (fun key => readStringPref lib.rt (s.prefs.store key)) =
        values.map some
  | .refreshing | .idle =>
      ∀ key ∈ authKeys, readStringPref lib.rt (s.prefs.store key) = some (s.shown key)
  | .crashed | .destroyed => True

/-- A notification is on its way unless the screen agrees with the store. -/
structure Inv (s : SettingsActivity lib) : Prop where
  short : ∀ values, s.main = .reading values → values.length < authKeys.length
  unposted : s.registered = false → s.main ≠ .destroyed → s.posted = []
  current : s.posted = [] → s.Current

variable {s t : SettingsActivity lib}

theorem Current.congr (h : s.Current) {prefs : AndroidSharedPreferences lib}
    (hsame : ∀ key ∈ s.keysRead, prefs.store key = s.prefs.store key) {posted : List U16String}
    {storeLog : Bool} :
    Current { s with prefs := prefs, posted := posted, storeLog := storeLog } := by
  rw [keysRead] at hsame
  rw [Current] at h ⊢
  dsimp only
  cases hmain : s.main with
  | reading values =>
    rw [hmain] at h hsame
    refine (List.map_congr_left fun key hkey => ?_).trans h
    rw [hsame key hkey]
  | refreshing | idle =>
    rw [hmain] at h hsame
    intro key hkey
    rw [hsame key hkey]
    exact h key hkey
  | crashed | destroyed => trivial

theorem eq_of_changed_eq_nil {before after : Store} (h : changed before after = []) :
    ∀ key ∈ authKeys, after key = before key := by
  intro key hkey
  have hnot := List.filter_eq_nil_iff.mp h key hkey
  exact (of_not_not fun hne => hnot (decide_eq_true hne)).symm

theorem keysRead_subset (s : SettingsActivity lib) : s.keysRead ⊆ authKeys := by
  rw [keysRead]
  split
  · exact List.take_subset _ _
  · exact List.Subset.refl _

theorem storeLogKey_not_mem : storeLogKey ∉ authKeys := by decide

theorem store_putStoreLog {storeLog : Bool} {key : U16String} (hkey : key ∈ authKeys) :
    (s.putStoreLog storeLog).prefs.store key = s.prefs.store key := by
  have hne : key ≠ storeLogKey := fun heq => storeLogKey_not_mem (heq ▸ hkey)
  exact Function.update_of_ne hne _ _

theorem Inv.prefs (h : Inv s) {action : AndroidSharedPreferences.Action lib}
    (hguard : s.UnchangedUntilRegistered (.prefs action))
    (hstep : s.step (.prefs action) = some t) : Inv t := by
  rw [step] at hstep
  split at hstep
  · cases hstep
  obtain ⟨prefs, hprefs, rfl⟩ := Option.map_eq_some_iff.mp hstep
  refine ⟨h.short, fun hregistered hmain => ?_, fun hposted => ?_⟩
  · change s.registered = false at hregistered
    dsimp only
    rw [hregistered, h.unposted hregistered hmain]
    rfl
  · obtain ⟨hnone, hchanged⟩ := List.append_eq_nil_iff.mp hposted
    refine (h.current hnone).congr fun key hkey => ?_
    cases hregistered : s.registered with
    | false => exact hguard hregistered prefs hprefs key hkey
    | true =>
      rw [hregistered, if_pos rfl] at hchanged
      exact eq_of_changed_eq_nil hchanged key (s.keysRead_subset hkey)

theorem Current.of_reading {values : List JavaString} (h : s.Current)
    (hmain : s.main = .reading values) :
    (authKeys.take values.length).map (fun key => readStringPref lib.rt (s.prefs.store key)) =
      values.map some := by
  rw [Current, hmain] at h
  exact h

theorem Inv.readNext (h : Inv s) {values : List JavaString} {value : JavaString}
    {key : U16String} (hmain : s.main = .reading values)
    (hkey : authKeys[values.length]? = some key)
    (hvalue : readStringPref lib.rt (s.prefs.store key) = some value) :
    Inv (s.readNext values value) := by
  have hshort := h.short values hmain
  have hposted : s.registered = false → s.posted = [] := by
    intro hregistered
    refine h.unposted hregistered ?_
    rw [hmain]
    exact nofun
  rcases values with _ | ⟨cloudId, _ | ⟨authToken, _ | ⟨developerKey, rest⟩⟩⟩
  · cases Option.some.inj hkey
    refine ⟨?_, fun hregistered _ => hposted hregistered, fun _ => ?_⟩
    · rintro _ ⟨⟩
      exact Nat.one_lt_succ_succ 1
    · exact congrArg (fun read => [read]) hvalue
  · cases Option.some.inj hkey
    refine ⟨?_, fun hregistered _ => hposted hregistered, fun hnone => ?_⟩
    · rintro _ ⟨⟩
      exact Nat.lt_succ_self 2
    · have hread : readStringPref lib.rt (s.prefs.store (u16 "cloud-id")) = some cloudId :=
        (List.cons.inj ((h.current hnone).of_reading hmain)).1
      exact congrArg₂ (fun first second => [first, second]) hread hvalue
  · cases Option.some.inj hkey
    refine ⟨nofun, fun hregistered _ => hposted hregistered, fun hnone => ?_⟩
    obtain ⟨hcloudId, hrest⟩ := List.cons.inj ((h.current hnone).of_reading hmain)
    obtain ⟨hauthToken, -⟩ := List.cons.inj hrest
    intro key hkey
    obtain rfl | rfl | rfl : key = u16 "cloud-id" ∨ key = u16 "auth-token" ∨
        key = u16 "developer-key" := by
      simpa [authKeys] using hkey
    · exact hcloudId
    · exact hauthToken
    · exact hvalue
  · exact absurd hshort (by simp [authKeys])

theorem Inv.crash (h : Inv s) (hmain : s.main ≠ .destroyed) : Inv { s with main := .crashed } :=
  ⟨nofun, fun hregistered _ => h.unposted hregistered hmain, fun _ => trivial⟩

theorem Inv.read (h : Inv s) (hstep : s.read = some t) : Inv t := by
  rw [SettingsActivity.read] at hstep
  split at hstep
  · rename_i values hmain
    split at hstep
    · cases hstep
    · rename_i key hkey
      split at hstep
      · rename_i value hvalue
        cases hstep
        exact h.readNext hmain hkey hvalue
      · cases hstep
        exact h.crash (hmain ▸ nofun)
  · rename_i hmain
    split at hstep
    · cases hstep
      refine ⟨nofun, fun hregistered _ => h.unposted hregistered (hmain ▸ nofun), fun hnone => ?_⟩
      have hcurrent := h.current hnone
      rw [Current, hmain] at hcurrent
      exact hcurrent
    · cases hstep
      exact h.crash (hmain ▸ nofun)
  · cases hstep

theorem Inv.step (h : Inv s) {a : Action lib} (hguard : s.UnchangedUntilRegistered a)
    (hstep : s.step a = some t) : Inv t := by
  cases a with
  | prefs action => exact h.prefs hguard hstep
  | read => exact h.read hstep
  | register =>
    rw [SettingsActivity.step] at hstep
    split at hstep
    · cases hstep
      exact ⟨h.short, nofun, h.current⟩
    · cases hstep
  | onSharedPreferenceChanged =>
    rw [SettingsActivity.step] at hstep
    split at hstep
    · rename_i key posted hmain hposted
      cases hstep
      refine ⟨?_, fun hregistered _ => ?_, fun _ => rfl⟩
      · rintro _ ⟨⟩
        exact Nat.zero_lt_succ 2
      · have hnone := h.unposted hregistered (hmain ▸ nofun)
        rw [hnone] at hposted
        cases hposted
    · cases hstep
  | onPreferenceChange storeLog =>
    rw [SettingsActivity.step] at hstep
    split at hstep
    · rename_i hmain hregistered
      cases hstep
      refine ⟨h.short, h.unposted, fun hnone => (h.current hnone).congr fun key hkey => ?_⟩
      exact store_putStoreLog (s.keysRead_subset hkey)
    · cases hstep
  | onDestroy =>
    rw [SettingsActivity.step] at hstep
    split at hstep
    · cases hstep
      exact ⟨nofun, fun _ hmain => absurd rfl hmain, fun _ => trivial⟩
    · cases hstep

theorem inv_of_reachable {stored : Store}
    (h : (machine lib stored).ReachableVia UnchangedUntilRegistered s) : Inv s := by
  refine h.invariant Inv ?_ fun s a t hinv hguard hstep => hinv.step hguard hstep
  rintro s rfl
  refine ⟨?_, fun _ _ => rfl, fun _ => rfl⟩
  rintro _ ⟨⟩
  exact Nat.zero_lt_succ 2

/-- At rest the screen shows what is stored. -/
theorem shows_stored {stored : Store}
    (h : (machine lib stored).ReachableVia UnchangedUntilRegistered s) (hmain : s.main = .idle)
    (hposted : s.posted = []) :
    ∀ key ∈ authKeys, readStringPref lib.rt (s.prefs.store key) = some (s.shown key) := by
  have hcurrent := (inv_of_reachable h).current hposted
  rw [Current, hmain] at hcurrent
  exact hcurrent

/-! ## The store against the engine -/

/-- The store has the stored preferences after the writes that have reached it, but for those
that the screen writes itself. -/
def KeepsStored (stored : Store) (prefs : AndroidSharedPreferences lib) : Prop :=
  ∀ key ∈ authKeys, prefs.store key =
    Table.assign stored (prefs.flushed.map (AndroidSharedPreferences.javaWrite lib)) key

theorem KeepsStored.flushWrites {stored : Store} {prefs : AndroidSharedPreferences lib}
    (h : KeepsStored stored prefs) (writeThrows : Bool) :
    KeepsStored stored (prefs.flushWrites writeThrows) := by
  cases writeThrows with
  | true =>
    rw [AndroidSharedPreferences.flushWrites_throws]
    exact h
  | false =>
    rw [AndroidSharedPreferences.flushWrites_succeeds]
    intro key hkey
    dsimp only
    rw [Table.assign_apply, h key hkey, List.map_append, Table.assign_append]
    exact (Table.assign_apply ..).symm

theorem KeepsStored.step {stored : Store} {prefs prefs' : AndroidSharedPreferences lib}
    {a : AndroidSharedPreferences.Action lib} (h : KeepsStored stored prefs)
    (hstep : prefs.step a = some prefs') : KeepsStored stored prefs' := by
  cases AndroidSharedPreferences.step_does hstep with
  | throws _ => exact h
  | set =>
    rw [AndroidSharedPreferences.schedule]
    split
    · exact h
    · exact h
  | get => exact h.flushWrites _
  | timer => exact h.flushWrites _

/-- No call of `writeSharedPref` throws. -/
def WritesSucceed (s : SettingsActivity lib) : Action lib → Prop
  | .prefs action => AndroidSharedPreferences.NoneThrows s.prefs action
  | _ => True

structure Engine (stored : Store) (s : SettingsActivity lib) : Prop where
  keeps : KeepsStored stored s.prefs
  bounded : AndroidSharedPreferences.Bounded s.prefs
  lossless : AndroidSharedPreferences.Lossless s.prefs

theorem read_prefs (hstep : s.read = some t) : t.prefs = s.prefs := by
  rw [SettingsActivity.read] at hstep
  split at hstep
  · rename_i values _
    split at hstep
    · cases hstep
    · split at hstep
      · cases hstep
        rcases values with _ | ⟨_, _ | ⟨_, _⟩⟩
        · rfl
        · rfl
        · rfl
      · cases hstep
        rfl
  · split at hstep
    · cases hstep
      rfl
    · cases hstep
      rfl
  · cases hstep

theorem Engine.step {stored : Store} (h : Engine stored s) {a : Action lib}
    (hguard : s.WritesSucceed a) (hstep : s.step a = some t) : Engine stored t := by
  cases a with
  | prefs action =>
    rw [SettingsActivity.step] at hstep
    split at hstep
    · cases hstep
    obtain ⟨prefs, hprefs, rfl⟩ := Option.map_eq_some_iff.mp hstep
    refine ⟨h.keeps.step hprefs, AndroidSharedPreferences.bounded_step h.bounded hprefs, ?_⟩
    refine (AndroidSharedPreferences.lossless_step h.bounded hprefs).mpr ⟨h.lossless, ?_⟩
    cases action with
    | set name value => trivial
    | get name writeThrows => exact fun hthrows => nomatch hthrows.symm.trans hguard
    | timer writeThrows => exact fun hthrows => nomatch hthrows.symm.trans hguard
  | read =>
    have hprefs := read_prefs hstep
    exact ⟨hprefs ▸ h.keeps, hprefs ▸ h.bounded, hprefs ▸ h.lossless⟩
  | onPreferenceChange storeLog =>
    rw [SettingsActivity.step] at hstep
    split at hstep
    · cases hstep
      exact ⟨fun key hkey => (store_putStoreLog hkey).trans (h.keeps key hkey), h.bounded,
        h.lossless⟩
    · cases hstep
  | register | onSharedPreferenceChanged | onDestroy =>
    rw [SettingsActivity.step] at hstep
    split at hstep
    · cases hstep
      exact ⟨h.keeps, h.bounded, h.lossless⟩
    · cases hstep

theorem engine_of_reachable {stored : Store}
    (h : (machine lib stored).ReachableVia WritesSucceed s) : Engine stored s := by
  refine h.invariant (Engine stored) ?_ fun s a t hengine hguard hstep =>
    hengine.step hguard hstep
  rintro s rfl
  exact ⟨fun _ _ => rfl, AndroidSharedPreferences.bounded_initial stored,
    AndroidSharedPreferences.lossless_initial stored⟩

theorem store_of_engine {stored : Store} (h : Engine stored s) (hwrites : s.prefs.writes = [])
    {key : U16String} (hkey : key ∈ authKeys) :
    s.prefs.store key = ((Table.lastWrite s.prefs.sets key).map fun value =>
      (AndroidSharedPreferences.stringified (lib.rt.stringify value)).getD
        (lib.valueOf .null)).or (stored key) := by
  have hsets : s.prefs.flushed.map (AndroidSharedPreferences.javaWrite lib) =
      s.prefs.sets.map fun set => (set.1, (AndroidSharedPreferences.stringified
        (lib.rt.stringify set.2)).getD (lib.valueOf .null)) := by
    have hlossless := h.lossless
    rw [AndroidSharedPreferences.Lossless, hwrites, List.append_nil] at hlossless
    rw [← hlossless, List.map_map]
    rfl
  rw [h.keeps key hkey, hsets, Table.assign_apply]
  exact congrArg (Option.or · (stored key)) (Table.lastWrite_map (fun value =>
    (AndroidSharedPreferences.stringified (lib.rt.stringify value)).getD (lib.valueOf .null)) _ _)

/-! ## What the engine sets is shown -/

/-- What `readStringPref` makes of the JSON text of a value. -/
theorem readStringPref_of_reparse {rt : Runtime} (hlaw : rt.Lawful) {v w : rt.Value}
    {t : U16String} (hstringify : rt.stringify v = .text t) (hreparse : reparse rt v = some w) :
    (∀ str, w = .string str → readStringPref rt (some t) = some (some str)) ∧
    (w = .null → readStringPref rt (some t) = some none) := by
  rw [reparse, hstringify] at hreparse
  obtain ⟨j, hparse, rfl⟩ := Option.map_eq_some_iff.mp hreparse
  obtain ⟨o, hnext, hjson⟩ := hlaw.nextValue_parse t j hparse
  constructor
  · intro str hj
    have hstring : o = .string str := by
      cases j with
      | string s =>
        cases hj
        cases o <;> cases hjson
        rfl
      | _ => cases hj
    rw [readStringPref, Option.getD_some, hnext, hstring]
  · intro hj
    have hnull : o = .jsonNull := by
      cases j with
      | null => cases o <;> first | rfl | cases hjson
      | _ => cases hj
    rw [readStringPref, Option.getD_some, hnext, hnull]

/-- Once the engine has written what it was given and the screen has run its notifications,
the screen shows what was last set, or what was stored before. -/
theorem settings_show_last_set (hlaw : lib.rt.Lawful) {stored : Store}
    (h : (machine lib stored).ReachableVia (fun s a => s.UnchangedUntilRegistered a ∧
      s.WritesSucceed a) s) (hmain : s.main = .idle) (hposted : s.posted = [])
    (hwrites : s.prefs.writes = []) :
    ∀ key ∈ authKeys,
      (∀ v w, Table.lastWrite s.prefs.sets key = some v → reparse lib.rt v = some w →
        (∀ str, w = .string str → s.shown key = some str) ∧ (w = .null → s.shown key = none)) ∧
      (Table.lastWrite s.prefs.sets key = none →
        readStringPref lib.rt (stored key) = some (s.shown key)) := by
  intro key hkey
  have hshown := shows_stored (h.mono fun _ _ hguard => hguard.1) hmain hposted key hkey
  have hengine := engine_of_reachable (h.mono fun _ _ hguard => hguard.2)
  rw [store_of_engine hengine hwrites hkey] at hshown
  constructor
  · intro v w hlast hreparse
    rw [hlast, Option.map_some, Option.some_or] at hshown
    cases hstringify : lib.rt.stringify v with
    | text t =>
      rw [hstringify] at hshown
      obtain ⟨hstring, hnull⟩ := readStringPref_of_reparse hlaw hstringify hreparse
      exact ⟨fun str hw => Option.some.inj (hshown.symm.trans (hstring str hw)),
        fun hw => Option.some.inj (hshown.symm.trans (hnull hw))⟩
    | throws | undefined =>
      rw [reparse, hstringify] at hreparse
      cases hreparse
  · intro hlast
    rw [hlast] at hshown
    exact hshown

theorem unchanged_of_registered (h : s.registered = true) (a : Action lib) :
    s.UnchangedUntilRegistered a := by
  cases a with
  | prefs action => exact fun hnot => absurd (hnot.symm.trans h) Bool.false_ne_true
  | _ => trivial

/-! ## Samples -/

namespace Sample

open Bridge.Sample

/-- For strings without characters that JSON escapes. -/
def parse : U16String → Option (Json Container)
  | 34 :: quoted => some (.string quoted.dropLast)
  | t => Bridge.Sample.parse t

def stringify : JSValue Obj → Stringified
  | .string s => .text (34 :: s ++ [34])
  | v => Bridge.Sample.stringify v

def nextValue : U16String → Option (JavaObject Double Container)
  | 34 :: quoted => some (.string quoted.dropLast)
  | t => Bridge.Sample.nextValue t

def runtime : Runtime :=
  { Bridge.Sample.runtime with stringify := stringify, parse := parse, nextValue := nextValue }

theorem parse_containerText (c : Container) : parse (containerText c) = some (.container c) := by
  cases c <;> rfl

theorem runtime_lawful : runtime.Lawful where
  hasInstance_buffer := rfl
  parse_undefined := rfl
  stringify_valid v t h := by
    cases v with
    | string s =>
      cases h
      exact ⟨_, rfl⟩
    | object o =>
      cases o with
      | plain c =>
        cases h
        exact ⟨_, parse_containerText c⟩
      | invalidDate =>
        cases h
        exact ⟨_, rfl⟩
      | function | cyclic => cases h
    | null | view =>
      cases h
      exact ⟨_, rfl⟩
    | _ => cases h
  stringify_fresh c := ⟨containerText c, rfl, parse_containerText c⟩
  doubleValue_newDouble _ := rfl
  nextValue_parse t j h := by
    change parse t = some j at h
    change ∃ o, nextValue t = some o ∧ _
    unfold parse at h
    unfold nextValue
    split at h
    · cases h
      exact ⟨_, rfl, rfl⟩
    · obtain ⟨o, ho, hjson⟩ := Bridge.Sample.runtime_lawful.nextValue_parse _ _ h
      refine ⟨o, ho, ?_⟩
      cases o <;> exact hjson
  toJavaString_nextValue _ o _ := ⟨containerText o, rfl⟩
  toJavaString_parse c t h := by
    cases h
    exact parse_containerText c

def libraries : JsonLibraries where
  rt := runtime
  Num := Empty
  format := AndroidSharedPreferences.Sample.format
  valueOf _ := u16 "null"

def openScreen : List (Action libraries) := [.read, .read, .read, .read, .register]

def refresh : List (Action libraries) :=
  [.onSharedPreferenceChanged, .read, .read, .read, .read]

def opened : SettingsActivity libraries :=
  { initial libraries fun _ => none with main := .idle, registered := true }

/-- The account is set while the screen is shown. -/
def signedIn : SettingsActivity libraries :=
  { opened with
    prefs := ((AndroidSharedPreferences.initial libraries fun _ => none).push (u16 "cloud-id")
      (.string (u16 "me"))).schedule }

def written : SettingsActivity libraries :=
  { signedIn with
    prefs := { signedIn.prefs with
      writes := []
      scheduledWrite := false
      timers := 0
      store := Table.assign (fun _ => none) [(u16 "cloud-id", u16 "\"me\"")]
      flushed := [(u16 "cloud-id", some (u16 "\"me\""))] }
    posted := [u16 "cloud-id"] }

theorem step_timer : (machine libraries fun _ => none).step signedIn (.prefs (.timer false)) =
    some written := by
  have htimer : signedIn.prefs.step (.timer false) = some written.prefs := by
    rw [AndroidSharedPreferences.step, AndroidSharedPreferences.timer,
      AndroidSharedPreferences.flushWrites_succeeds]
    rfl
  have hstep : step signedIn (.prefs (.timer false)) = some written := by
    rw [step]
    change (signedIn.prefs.step (.timer false)).map _ = _
    rw [htimer]
    rfl
  exact hstep

end Sample

theorem settings_show_last_set_signIn : ∃ s : SettingsActivity Sample.libraries,
    (machine Sample.libraries fun _ => none).run (initial _ fun _ => none)
      (Sample.openScreen ++ .prefs (.set (u16 "cloud-id") (.string (u16 "me"))) ::
        .prefs (.timer false) :: Sample.refresh) = some s ∧
    s.shown (u16 "cloud-id") = some (u16 "me") := by
  have hopen : (machine Sample.libraries fun _ => none).run (initial _ fun _ => none)
      Sample.openScreen = some Sample.opened := rfl
  have hset : (machine Sample.libraries fun _ => none).step Sample.opened
      (.prefs (.set (u16 "cloud-id") (.string (u16 "me")))) = some Sample.signedIn := rfl
  obtain ⟨s, hrefresh, hmain, hposted, hwrites, hlast⟩ : ∃ s : SettingsActivity Sample.libraries,
      (machine Sample.libraries fun _ => none).run Sample.written Sample.refresh = some s ∧
      s.main = .idle ∧ s.posted = [] ∧ s.prefs.writes = [] ∧
      Table.lastWrite s.prefs.sets (u16 "cloud-id") = some (.string (u16 "me")) :=
    ⟨_, rfl, rfl, rfl, rfl, rfl⟩
  refine ⟨s, ?_, ?_⟩
  · rw [Machine.run_of_run hopen, Machine.run_of_step hset,
      Machine.run_of_step Sample.step_timer]
    exact hrefresh
  have hopened : (machine Sample.libraries fun _ => none).ReachableVia
      (fun s a => s.UnchangedUntilRegistered a ∧ s.WritesSucceed a) Sample.opened := by
    refine Machine.ReachableVia.run Sample.openScreen (.start rfl)
      (Machine.Meets.of_forall _ (fun a ha s => ?_) _) hopen
    cases a with
    | prefs action => simp [Sample.openScreen] at ha
    | _ => exact ⟨trivial, trivial⟩
  have hwritten : (machine Sample.libraries fun _ => none).ReachableVia
      (fun s a => s.UnchangedUntilRegistered a ∧ s.WritesSucceed a) Sample.written := by
    refine .next (.next hopened ?_ hset) ?_ Sample.step_timer
    · exact ⟨unchanged_of_registered rfl _, trivial⟩
    · exact ⟨unchanged_of_registered rfl _, rfl⟩
  have hs := hwritten.run Sample.refresh
    (Machine.Meets.of_forall _ (fun a ha s => by
      cases a with
      | prefs action => simp [Sample.refresh] at ha
      | _ => exact ⟨trivial, trivial⟩) _) hrefresh
  exact ((settings_show_last_set Sample.runtime_lawful hs hmain hposted hwrites
    (u16 "cloud-id") (by decide)).1 _ _ hlast rfl).1 _ rfl

end SettingsActivity

end AlmondAndroid.Ui
