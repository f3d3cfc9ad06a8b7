import AlmondAndroid.Library.Machine
import AlmondAndroid.Bridge.Marshal
import AlmondAndroid.Bridge.OrgJson

/-!
# Shared preferences

`AndroidSharedPreferences` keeps the writes in a buffer and gives them to Java as the
JSON text of an array of pairs, before each read and when the timer of the first
write fires. A value goes through JSON twice on its way to the store, and once back.
-/

namespace AlmondAndroid.App

open Library Bridge

/-- The JSON libraries of the two sides. `valueOf` is `String.valueOf` of JSON data
other than a string. -/
structure JsonLibraries where
  rt : Runtime
  Num : Type
  format : Json.NumberFormat Num
  valueOf : JsonTree Num → U16String

/-- An element of `_writes`: a name and what `JSON.stringify` has returned, where
`none` is undefined. -/
abbrev Write := U16String × Option U16String

abbrev Store := U16String → Option U16String

inductive GetResult (rt : Runtime)
  | undefined
  | value (v : rt.Value)
  | syntaxError

variable (lib : JsonLibraries)

/-! ## `SharedPreferencesAPI` -/

def parsedWrite : JsonTree lib.Num → Option (U16String × U16String)
  | .array (name :: value :: _) => some (getString lib.valueOf name, getString lib.valueOf value)
  | _ => none

/-- `none` is a `JSONException` or a `ClassCastException`, before `apply`. -/
def writeSharedPref (store : Store) (writes : U16String) : Option Store :=
  match Json.read lib.format writes with
  | some (.array parsedWrites) =>
      (parsedWrites.mapM (parsedWrite lib)).map fun writes => Table.assign store writes
  | _ => none

/-! ## `AndroidSharedPreferences` -/

/-- In an array, `JSON.stringify` writes undefined as null. -/
def writeTree (write : Write) : JsonTree lib.Num :=
  .array [.string write.1, match write.2 with
    | some value => .string value
    | none => .null]

def stringifyWrites (writes : List Write) : U16String :=
  Json.text lib.format (.array (writes.map (writeTree lib)))

/-- `timers` counts the pending ones. The values that were set and the writes that
have reached the store are histories. -/
structure AndroidSharedPreferences where
  writes : List Write
  scheduledWrite : Bool
  timers : Nat
  store : Store
  sets : List (U16String × lib.rt.Value)
  flushed : List Write

namespace AndroidSharedPreferences

/-- `writeThrows` says whether the call of `writeSharedPref` throws, if it is made. -/
inductive Action
  | set (name : U16String) (value : lib.rt.Value)
  | get (name : U16String) (writeThrows : Bool)
  | timer (writeThrows : Bool)

def initial (stored : Store) : AndroidSharedPreferences lib where
  writes := []
  scheduledWrite := false
  timers := 0
  store := stored
  sets := []
  flushed := []

variable {lib}

def flushWrites (s : AndroidSharedPreferences lib) (writeThrows : Bool) :
    AndroidSharedPreferences lib :=
  match s.writes with
  | [] => s
  | w :: writes =>
      if writeThrows then { s with writes := [] }
      else
        match writeSharedPref lib s.store (stringifyWrites lib (w :: writes)) with
        | none => { s with writes := [] }
        | some store =>
            { s with writes := [], store := store, flushed := s.flushed ++ w :: writes }

def jsonParse (t : U16String) : GetResult lib.rt :=
  match lib.rt.parse t with
  | some j => .value (lib.rt.ofJson j)
  | none => .syntaxError

def readBack : Option U16String → GetResult lib.rt
  | none => .undefined
  | some t => jsonParse t

def get (s : AndroidSharedPreferences lib) (name : U16String) (writeThrows : Bool) :
    AndroidSharedPreferences lib × GetResult lib.rt :=
  let s := s.flushWrites writeThrows
  (s, readBack (s.store name))

def stringified : Stringified → Option U16String
  | .text t => some t
  | _ => none

def writeOf (set : U16String × lib.rt.Value) : Write :=
  (set.1, stringified (lib.rt.stringify set.2))

def push (s : AndroidSharedPreferences lib) (name : U16String) (value : lib.rt.Value) :
    AndroidSharedPreferences lib :=
  { s with writes := s.writes ++ [writeOf (name, value)], sets := s.sets ++ [(name, value)] }

def schedule (s : AndroidSharedPreferences lib) : AndroidSharedPreferences lib :=
  if s.scheduledWrite then s else { s with scheduledWrite := true, timers := s.timers + 1 }

/-- An exception of `JSON.stringify` leaves everything as it was. -/
def set (s : AndroidSharedPreferences lib) (name : U16String) (value : lib.rt.Value) :
    AndroidSharedPreferences lib :=
  match lib.rt.stringify value with
  | .throws => s
  | .undefined | .text _ => (s.push name value).schedule

def timer (s : AndroidSharedPreferences lib) (writeThrows : Bool) :
    AndroidSharedPreferences lib :=
  { s.flushWrites writeThrows with scheduledWrite := false, timers := s.timers - 1 }

def step (s : AndroidSharedPreferences lib) : Action lib → Option (AndroidSharedPreferences lib)
  | .set name value => some (s.set name value)
  | .get name writeThrows => some (s.get name writeThrows).1
  | .timer writeThrows => if 0 < s.timers then some (s.timer writeThrows) else none

variable (lib) in
def machine (stored : Store) : Machine (AndroidSharedPreferences lib) (Action lib) where
  Init s := s = initial lib stored
  step := step

/-! ## A batch reaches the store -/

variable (lib) in
def javaWrite (write : Write) : U16String × U16String :=
  (write.1, write.2.getD (lib.valueOf .null))

theorem parsedWrite_writeTree (write : Write) :
    parsedWrite lib (writeTree lib write) = some (javaWrite lib write) := by
  obtain ⟨name, value⟩ := write
  cases value with
  | none => rfl
  | some value => rfl

theorem mapM_parsedWrite (writes : List Write) :
    (writes.map (writeTree lib)).mapM (parsedWrite lib) =
      some (writes.map (javaWrite lib)) := by
  induction writes with
  | nil => rfl
  | cons write writes ih =>
    rw [List.map_cons, List.mapM_cons, parsedWrite_writeTree, ih]
    rfl

theorem writeSharedPref_stringifyWrites (store : Store) (writes : List Write) :
    writeSharedPref lib store (stringifyWrites lib writes) =
      some (Table.assign store (writes.map (javaWrite lib))) := by
  rw [writeSharedPref, stringifyWrites, Json.read_text]
  dsimp only
  rw [mapM_parsedWrite]
  rfl

/-! ## What one step does to the buffer -/

theorem flushWrites_of_nil {s : AndroidSharedPreferences lib} (h : s.writes = [])
    (writeThrows : Bool) : s.flushWrites writeThrows = s := by
  rw [flushWrites, h]

theorem flushWrites_throws (s : AndroidSharedPreferences lib) :
    s.flushWrites true = { s with writes := [] } := by
  cases hwrites : s.writes with
  | nil =>
    rw [flushWrites_of_nil hwrites]
    cases s
    cases hwrites
    rfl
  | cons w writes =>
    rw [flushWrites, hwrites]
    rfl

theorem flushWrites_succeeds (s : AndroidSharedPreferences lib) :
    s.flushWrites false = { s with
      writes := []
      store := Table.assign s.store (s.writes.map (javaWrite lib))
      flushed := s.flushed ++ s.writes } := by
  cases hwrites : s.writes with
  | nil =>
    rw [flushWrites_of_nil hwrites, List.append_nil]
    cases s
    cases hwrites
    rfl
  | cons w writes =>
    rw [flushWrites, hwrites]
    dsimp only
    rw [writeSharedPref_stringifyWrites]
    rfl

/-- A value that is not pushed is one that `JSON.stringify` throws for. -/
inductive Does (s : AndroidSharedPreferences lib) :
    Action lib → AndroidSharedPreferences lib → Prop
  | throws {name : U16String} {value : lib.rt.Value} : lib.rt.stringify value = .throws →
      Does s (.set name value) s
  | set {name : U16String} {value : lib.rt.Value} :
      Does s (.set name value) (s.push name value).schedule
  | get {name : U16String} {writeThrows : Bool} :
      Does s (.get name writeThrows) (s.flushWrites writeThrows)
  | timer {writeThrows : Bool} : Does s (.timer writeThrows) (s.timer writeThrows)

theorem step_does {s t : AndroidSharedPreferences lib} {a : Action lib}
    (h : s.step a = some t) : Does s a t := by
  cases a with
  | set name value =>
    cases h
    rw [AndroidSharedPreferences.set]
    split
    · rename_i hthrows
      exact .throws hthrows
    · exact .set
    · exact .set
  | get name writeThrows =>
    cases h
    exact .get
  | timer writeThrows =>
    obtain ⟨-, h⟩ := Option.ite_none_right_eq_some.mp h
    cases h
    exact .timer

/-! ## The invariant -/

/-- The store is the stored preferences after the writes that have reached it, and
writes that have not are waited for by one timer. -/
structure Scheduled (stored : Store) (s : AndroidSharedPreferences lib) : Prop where
  store : s.store = Table.assign stored (s.flushed.map (javaWrite lib))
  timers : s.timers = if s.scheduledWrite then 1 else 0
  pending : s.writes ≠ [] → s.scheduledWrite = true

theorem Scheduled.flushWrites {stored : Store} {s : AndroidSharedPreferences lib}
    (hs : Scheduled stored s) (writeThrows : Bool) :
    Scheduled stored (s.flushWrites writeThrows) := by
  cases writeThrows with
  | true =>
    rw [flushWrites_throws]
    exact ⟨hs.store, hs.timers, fun h => absurd rfl h⟩
  | false =>
    rw [flushWrites_succeeds]
    refine ⟨?_, hs.timers, fun h => absurd rfl h⟩
    rw [List.map_append, Table.assign_append, ← hs.store]

theorem writes_flushWrites (s : AndroidSharedPreferences lib) (writeThrows : Bool) :
    (s.flushWrites writeThrows).writes = [] := by
  cases writeThrows with
  | true => rw [flushWrites_throws]
  | false => rw [flushWrites_succeeds]

theorem Scheduled.timer {stored : Store} {s : AndroidSharedPreferences lib}
    (hs : Scheduled stored s) (writeThrows : Bool) : Scheduled stored (s.timer writeThrows) where
  store := (hs.flushWrites writeThrows).store
  timers := by
    have htimers := hs.timers
    change s.timers - 1 = 0
    split at htimers
    · omega
    · omega
  pending h := absurd (writes_flushWrites s writeThrows) h

theorem Scheduled.schedule {stored : Store} {s : AndroidSharedPreferences lib}
    (hstore : s.store = Table.assign stored (s.flushed.map (javaWrite lib)))
    (htimers : s.timers = if s.scheduledWrite then 1 else 0) : Scheduled stored s.schedule := by
  rw [AndroidSharedPreferences.schedule]
  split
  · rename_i hscheduled
    exact ⟨hstore, htimers, fun _ => hscheduled⟩
  · rename_i hscheduled
    refine ⟨hstore, ?_, fun _ => rfl⟩
    rw [htimers, if_neg hscheduled]
    rfl

theorem Scheduled.step {stored : Store} {s t : AndroidSharedPreferences lib} {a : Action lib}
    (hs : Scheduled stored s) (h : s.step a = some t) : Scheduled stored t := by
  cases step_does h with
  | throws _ => exact hs
  | set => exact .schedule hs.store hs.timers
  | get => exact hs.flushWrites _
  | timer => exact hs.timer _

theorem scheduled_of_reachable {stored : Store} {s : AndroidSharedPreferences lib}
    (h : (machine lib stored).Reachable s) : Scheduled stored s := by
  apply h.invariant (Scheduled stored)
  · rintro s rfl
    exact ⟨rfl, rfl, fun h => absurd rfl h⟩
  · intro s a t hs hstep
    exact hs.step hstep

/-! ## Nothing is lost unless a flush fails -/

/-- Everything that was set has reached the store or is still in the buffer, in order. -/
def Lossless (s : AndroidSharedPreferences lib) : Prop :=
  s.sets.map writeOf = s.flushed ++ s.writes

def WriteSucceeds (s : AndroidSharedPreferences lib) : Action lib → Prop
  | .set _ _ => True
  | .get _ writeThrows => writeThrows = true → s.writes = []
  | .timer writeThrows => writeThrows = true → s.writes = []

def Bounded (s : AndroidSharedPreferences lib) : Prop :=
  s.flushed.length + s.writes.length ≤ s.sets.length

theorem lossless_push (s : AndroidSharedPreferences lib) (name : U16String)
    (value : lib.rt.Value) : Lossless (s.push name value).schedule ↔ Lossless s := by
  have hschedule : Lossless (s.push name value).schedule ↔ Lossless (s.push name value) := by
    rw [schedule]
    split <;> exact Iff.rfl
  rw [hschedule, Lossless, Lossless]
  change (s.sets ++ [(name, value)]).map writeOf =
    s.flushed ++ (s.writes ++ [writeOf (name, value)]) ↔ _
  rw [List.map_append, ← List.append_assoc]
  exact List.append_left_inj _

theorem bounded_push {s : AndroidSharedPreferences lib} (hs : Bounded s) (name : U16String)
    (value : lib.rt.Value) : Bounded (s.push name value).schedule := by
  have hpush : Bounded (s.push name value) := by
    rw [Bounded] at hs
    change s.flushed.length + (s.writes ++ [writeOf (name, value)]).length ≤
      (s.sets ++ [(name, value)]).length
    simp only [List.length_append, List.length_singleton]
    omega
  rw [schedule]
  split <;> exact hpush

theorem bounded_flushWrites {s : AndroidSharedPreferences lib} (hs : Bounded s)
    (writeThrows : Bool) : Bounded (s.flushWrites writeThrows) := by
  rw [Bounded] at hs
  cases writeThrows with
  | true =>
    rw [flushWrites_throws, Bounded]
    exact Nat.le_trans (Nat.le_add_right _ _) hs
  | false =>
    rw [flushWrites_succeeds, Bounded, List.length_append]
    exact hs

/-- A flush loses the buffer exactly if it fails. -/
theorem lossless_flushWrites {s : AndroidSharedPreferences lib} (hs : Bounded s)
    (writeThrows : Bool) : Lossless (s.flushWrites writeThrows) ↔
      Lossless s ∧ (writeThrows = true → s.writes = []) := by
  cases writeThrows with
  | false =>
    rw [flushWrites_succeeds, Lossless, Lossless, List.append_nil]
    exact (and_iff_left fun h => by cases h).symm
  | true =>
    rw [flushWrites_throws, Lossless, Lossless, List.append_nil]
    constructor
    · intro h
      have hwrites : s.writes = [] := by
        have hlength : s.sets.length = s.flushed.length := by
          simpa using congrArg List.length h
        rw [Bounded] at hs
        exact List.eq_nil_of_length_eq_zero (by omega)
      rw [hwrites, List.append_nil]
      exact ⟨h, fun _ => rfl⟩
    · rintro ⟨h, hwrites⟩
      rw [hwrites rfl, List.append_nil] at h
      exact h

theorem bounded_step {s t : AndroidSharedPreferences lib} {a : Action lib} (hs : Bounded s)
    (h : s.step a = some t) : Bounded t := by
  cases step_does h with
  | throws _ => exact hs
  | set => exact bounded_push hs _ _
  | get => exact bounded_flushWrites hs _
  | timer => exact bounded_flushWrites hs _

theorem lossless_step {s t : AndroidSharedPreferences lib} {a : Action lib} (hs : Bounded s)
    (h : s.step a = some t) : Lossless t ↔ Lossless s ∧ WriteSucceeds s a := by
  cases step_does h with
  | throws _ => exact (and_iff_left trivial).symm
  | set => exact (lossless_push s _ _).trans (and_iff_left trivial).symm
  | get => exact lossless_flushWrites hs _
  | timer => exact lossless_flushWrites hs _

theorem bounded_initial (stored : Store) : Bounded (initial lib stored) := Nat.le_refl 0

theorem lossless_initial (stored : Store) : Lossless (initial lib stored) := rfl

theorem lossless_iff_writesSucceed {stored : Store} {s : AndroidSharedPreferences lib}
    {as : List (Action lib)} (h : (machine lib stored).run (initial lib stored) as = some s) :
    Lossless s ↔ (machine lib stored).Meets WriteSucceeds (initial lib stored) as := by
  have hrun : Lossless s ↔ Lossless (initial lib stored) ∧
      (machine lib stored).Meets WriteSucceeds (initial lib stored) as :=
    Machine.run_iff_meets Lossless Bounded (fun _ _ _ hs hstep => bounded_step hs hstep)
      (fun _ _ _ hs hI hstep => (lossless_step hs hstep).trans (and_iff_right hI))
      (fun _ _ _ hs hI hstep hJ => hI ((lossless_step hs hstep).mp hJ).1) as
      (bounded_initial stored) h
  rw [hrun]
  exact and_iff_right (lossless_initial stored)

/-! ## What is read -/

theorem get_of_lossless {stored : Store} {s : AndroidSharedPreferences lib}
    (hs : Scheduled stored s) (hlossless : Lossless s) (name : U16String) :
    (s.get name false).2 =
      match Table.lastWrite s.sets name with
      | some v => jsonParse ((stringified (lib.rt.stringify v)).getD (lib.valueOf .null))
      | none => readBack (stored name) := by
  have hwrites : (s.flushed ++ s.writes).map (javaWrite lib) = s.sets.map fun set =>
      (set.1, (stringified (lib.rt.stringify set.2)).getD (lib.valueOf .null)) := by
    rw [← hlossless, List.map_map]
    rfl
  have hstore : (s.flushWrites false).store name =
      ((Table.lastWrite s.sets name).map fun v =>
        (stringified (lib.rt.stringify v)).getD (lib.valueOf .null)).or (stored name) := by
    rw [flushWrites_succeeds]
    dsimp only
    rw [hs.store, ← Table.assign_append, ← List.map_append, hwrites, Table.assign_apply]
    exact congrArg (Option.or · (stored name)) (Table.lastWrite_map (fun v =>
      (stringified (lib.rt.stringify v)).getD (lib.valueOf .null)) s.sets name)
  change readBack ((s.flushWrites false).store name) = _
  rw [hstore]
  cases Table.lastWrite s.sets name with
  | none => rfl
  | some v => rfl

theorem get_of_lastWrite {stored : Store} {s : AndroidSharedPreferences lib}
    (hs : Scheduled stored s) (hlossless : Lossless s) {name : U16String} {v w : lib.rt.Value}
    (hlast : Table.lastWrite s.sets name = some v) (hreparse : reparse lib.rt v = some w) :
    (s.get name false).2 = .value w := by
  rw [get_of_lossless hs hlossless, hlast]
  dsimp only
  rw [reparse] at hreparse
  split at hreparse
  · rename_i t hstringify
    obtain ⟨j, hparse, rfl⟩ := Option.map_eq_some_iff.mp hreparse
    rw [hstringify]
    change jsonParse t = _
    rw [jsonParse, hparse]
  · cases hreparse

def NoneThrows (_ : AndroidSharedPreferences lib) : Action lib → Prop
  | .set _ _ => True
  | .get _ writeThrows => writeThrows = false
  | .timer writeThrows => writeThrows = false

theorem lossless_of_noneThrows {stored : Store} {s : AndroidSharedPreferences lib}
    (h : (machine lib stored).ReachableVia NoneThrows s) : Lossless s := by
  have hboth : Bounded s ∧ Lossless s := by
    apply h.invariant fun s => Bounded s ∧ Lossless s
    · rintro s rfl
      exact ⟨bounded_initial stored, lossless_initial stored⟩
    · rintro s a t ⟨hbounded, hlossless⟩ hguard hstep
      refine ⟨bounded_step hbounded hstep, (lossless_step hbounded hstep).mpr ⟨hlossless, ?_⟩⟩
      cases a with
      | set name value => trivial
      | get name writeThrows =>
        intro hthrows
        rw [show writeThrows = false from hguard] at hthrows
        cases hthrows
      | timer writeThrows =>
        intro hthrows
        rw [show writeThrows = false from hguard] at hthrows
        cases hthrows
  exact hboth.2

/-! ## Samples -/

namespace Sample

def format : Json.NumberFormat Empty where
  text n := n.elim
  read _ := none
  start n := n.elim
  read_text n := n.elim

def libraries : JsonLibraries where
  rt := Bridge.Sample.runtime
  Num := Empty
  format := format
  valueOf _ := u16 "null"

def emptyObject : libraries.rt.Value := .object (.plain .emptyObject)

def emptyArray : libraries.rt.Value := .object (.plain .emptyArray)

def stored : Store := fun _ => none

end Sample

/-- While no write fails, `get` returns what was set last, or what was stored, and in
every state a write that waits has a timer. -/
theorem get_reads_last_set (stored : Store) :
    (∀ s, (machine lib stored).ReachableVia NoneThrows s → ∀ name,
      (∀ v w, Table.lastWrite s.sets name = some v → reparse lib.rt v = some w →
        (s.get name false).2 = .value w) ∧
      (Table.lastWrite s.sets name = none → (s.get name false).2 = readBack (stored name))) ∧
    ∀ s, (machine lib stored).Reachable s → s.writes ≠ [] → 0 < s.timers := by
  refine ⟨fun s h name => ?_, fun s h hwrites => ?_⟩
  · have hs := scheduled_of_reachable h.reachable
    have hlossless := lossless_of_noneThrows h
    refine ⟨fun v w hlast hreparse => get_of_lastWrite hs hlossless hlast hreparse,
      fun hlast => ?_⟩
    rw [get_of_lossless hs hlossless, hlast]
  · have hs := scheduled_of_reachable h
    rw [hs.timers, if_pos (hs.pending hwrites)]
    exact Nat.one_pos

theorem get_reads_last_set_twice : ∃ s : AndroidSharedPreferences Sample.libraries,
    (machine Sample.libraries Sample.stored).run (initial _ Sample.stored)
      [.set (u16 "a") Sample.emptyObject, .set (u16 "a") Sample.emptyArray] = some s ∧
    (s.get (u16 "a") false).2 = .value Sample.emptyArray := by
  refine ⟨_, rfl, ?_⟩
  have hinit : (machine Sample.libraries Sample.stored).ReachableVia NoneThrows
      (initial _ Sample.stored) := .start rfl
  have hmeets : (machine Sample.libraries Sample.stored).Meets NoneThrows
      (initial _ Sample.stored)
      [.set (u16 "a") Sample.emptyObject, .set (u16 "a") Sample.emptyArray] :=
    ⟨trivial, fun _ _ => ⟨trivial, fun _ _ => trivial⟩⟩
  exact ((get_reads_last_set Sample.stored).1 _ (hinit.run _ hmeets rfl) (u16 "a")).1
    Sample.emptyArray Sample.emptyArray rfl rfl

/-- Exactly in the runs in which every write succeeds, everything that was set is in
the store or in the buffer, and then the next flush that succeeds makes it readable. -/
theorem lossless_iff {stored : Store} {s : AndroidSharedPreferences lib}
    {as : List (Action lib)} (h : (machine lib stored).run (initial lib stored) as = some s) :
    (Lossless s ↔ (machine lib stored).Meets WriteSucceeds (initial lib stored) as) ∧
    (Lossless s → ∀ name v w, Table.lastWrite s.sets name = some v →
      reparse lib.rt v = some w → (s.get name false).2 = .value w) := by
  have hinit : (machine lib stored).Reachable (initial lib stored) := .start rfl
  have hs := scheduled_of_reachable (hinit.run h)
  exact ⟨lossless_iff_writesSucceed h,
    fun hlossless name v w hlast hreparse => get_of_lastWrite hs hlossless hlast hreparse⟩

theorem lossless_iff_emptyBuffer : ∃ s : AndroidSharedPreferences Sample.libraries,
    (machine Sample.libraries Sample.stored).run (initial _ Sample.stored)
      [.get (u16 "a") true, .set (u16 "a") Sample.emptyArray] = some s ∧
    Lossless s ∧ (s.get (u16 "a") false).2 = .value Sample.emptyArray := by
  obtain ⟨s, hrun, hlast⟩ : ∃ s : AndroidSharedPreferences Sample.libraries,
      (machine Sample.libraries Sample.stored).run (initial _ Sample.stored)
        [.get (u16 "a") true, .set (u16 "a") Sample.emptyArray] = some s ∧
      Table.lastWrite s.sets (u16 "a") = some Sample.emptyArray := ⟨_, rfl, rfl⟩
  have hmeets : (machine Sample.libraries Sample.stored).Meets WriteSucceeds
      (initial _ Sample.stored) [.get (u16 "a") true, .set (u16 "a") Sample.emptyArray] :=
    ⟨fun _ => rfl, fun _ _ => ⟨trivial, fun _ _ => trivial⟩⟩
  obtain ⟨hiff, hget⟩ := lossless_iff hrun
  have hlossless := hiff.mpr hmeets
  exact ⟨s, hrun, hlossless, hget hlossless (u16 "a") Sample.emptyArray _ hlast rfl⟩

/-- The timer fires, the write throws, and the value that was set is in neither place. -/
theorem not_lossless_writeThrows : ∃ s : AndroidSharedPreferences Sample.libraries,
    (machine Sample.libraries Sample.stored).run (initial _ Sample.stored)
      [.set (u16 "a") Sample.emptyArray, .timer true] = some s ∧
    ¬ Lossless s ∧ s.writes = [] ∧ s.store (u16 "a") = none ∧
    (s.get (u16 "a") false).2 = .undefined := by
  refine ⟨_, rfl, ?_, rfl, rfl, rfl⟩
  intro h
  cases h

end AndroidSharedPreferences

end AlmondAndroid.App
