import AlmondAndroid.App.Pairing

/-!
# Reading the UUIDs of Bluetooth devices

The calls of `BluetoothAPI.readUUIDs` for one address share an entry of `fetchingUuids` and
one of `fetchedUUIDs`. Every call takes both away when it ends, and with them the UUIDs that
were reported to the others.
-/

namespace AlmondAndroid.App

open Library Bridge

universe u v

variable {Device : Type u} {Uuid : Type v}

inductive UuidResult (Uuid : Type v)
  | uuids (l : List Uuid)
  | fetched (l : List Uuid)
  | timedOut
  | genericError

def UuidResult.message : UuidResult Uuid → Option U16String
  | uuids _ => none
  | fetched _ => none
  | timedOut => some (u16 "Fetching UUIDs timed out")
  | genericError => some (u16 "Fetching UUIDs failed with a generic error")

/-- Where a call is: before `synchronized`, then in the loop before `containsKey`,
`fetchUuidsWithSdp`, `getUuids` and the two readings of the clock. -/
inductive ReadStage (Device : Type u) (Uuid : Type v)
  | entering
  | looping
  | fetching
  | getting (d : Device)
  | timing
  | waiting
  | woken
  | resumed
  | ended (result : UuidResult Uuid)

def ReadStage.hasEnded : ReadStage Device Uuid → Bool
  | ended _ => true
  | _ => false

/-- `reported` are the UUIDs of the device that were reported since the call began, up to
its end. -/
structure UuidRead (Device : Type u) (Uuid : Type v) where
  address : U16String
  device : Device
  startTime : Int64
  stage : ReadStage Device Uuid
  reported : List Uuid

structure UuidReads (Device : Type u) (Uuid : Type v) where
  fetchingUuids : U16String → Option Device
  fetchedUUIDs : U16String → Option (List Uuid)
  lock : Option Nat
  reads : Nat → Option (UuidRead Device Uuid)

namespace UuidReads

inductive Action (Device : Type u) (Uuid : Type v)
  | readUUIDs (i : Nat) (address : U16String) (startTime : Int64)
  | acquire (i : Nat)
  | containsKey (i : Nat)
  | fetchUuidsWithSdp (i : Nat) (begins : Bool)
  | getUuids (i : Nat) (uuids : Option (List Uuid))
  | currentTimeMillis (i : Nat) (now : Int64)
  | wakeUp (i : Nat)
  | onDeviceChanged (d : Device) (named : Bool) (hasUuids : Bool)
  | onUUIDProbed (d : Device) (uuids : Option (List Uuid))

def FETCH_UUID_TIMEOUT : Int64 := 20000

def initial : UuidReads Device Uuid := ⟨fun _ => none, fun _ => none, none, fun _ => none⟩

def setRead (s : UuidReads Device Uuid) (i : Nat) (read : UuidRead Device Uuid) :
    UuidReads Device Uuid :=
  { s with reads := Function.update s.reads i (some read) }

def setStage (s : UuidReads Device Uuid) (i : Nat) (read : UuidRead Device Uuid)
    (stage : ReadStage Device Uuid) : UuidReads Device Uuid :=
  s.setRead i { read with stage := stage }

def getFetchedUUIDorTimeout (s : UuidReads Device Uuid) (hwAddress : U16String) :
    UuidResult Uuid :=
  match s.fetchedUUIDs hwAddress with
  | none => .timedOut
  | some [] => .timedOut
  | some (uuid :: uuids) => .fetched (uuid :: uuids)

def leave (s : UuidReads Device Uuid) (i : Nat) (read : UuidRead Device Uuid)
    (result : UuidResult Uuid) : UuidReads Device Uuid :=
  { s.setStage i read (.ended result) with
    fetchingUuids := Function.update s.fetchingUuids read.address none
    fetchedUUIDs := Function.update s.fetchedUUIDs read.address none
    lock := none }

def acquire (s : UuidReads Device Uuid) (i : Nat) (read : UuidRead Device Uuid) :
    Option (UuidReads Device Uuid) :=
  if s.lock = none then
    match read.stage with
    | .entering => some { s.setStage i read .looping with lock := some i }
    | .woken => some { s.setStage i read .resumed with lock := some i }
    | _ => none
  else none

def containsKey (s : UuidReads Device Uuid) (i : Nat) (read : UuidRead Device Uuid) :
    Option (UuidReads Device Uuid) :=
  match read.stage with
  | .looping =>
      match s.fetchingUuids read.address with
      | none =>
          some { s.setStage i read .fetching with
            fetchingUuids := Function.update s.fetchingUuids read.address (some read.device) }
      | some d => some (s.setStage i read (.getting d))
  | _ => none

def fetchUuidsWithSdp (s : UuidReads Device Uuid) (i : Nat) (read : UuidRead Device Uuid)
    (begins : Bool) : Option (UuidReads Device Uuid) :=
  match read.stage with
  | .fetching =>
      if begins then some (s.setStage i read .timing)
      else some (s.leave i read .genericError)
  | _ => none

def getUuids (s : UuidReads Device Uuid) (i : Nat) (read : UuidRead Device Uuid)
    (uuids : Option (List Uuid)) : Option (UuidReads Device Uuid) :=
  match read.stage with
  | .getting _ =>
      match uuids with
      | some (uuid :: uuids) => some (s.leave i read (.uuids (uuid :: uuids)))
      | _ => some (s.setStage i read .timing)
  | _ => none

/-- The clock is looked at before and after `wait`. -/
def currentTimeMillis (s : UuidReads Device Uuid) (i : Nat) (read : UuidRead Device Uuid)
    (now : Int64) : Option (UuidReads Device Uuid) :=
  match read.stage with
  | .timing =>
      if FETCH_UUID_TIMEOUT - (now - read.startTime) < 1 then
        some (s.leave i read (s.getFetchedUUIDorTimeout read.address))
      else some { s.setStage i read .waiting with lock := none }
  | .resumed =>
      if now - read.startTime > FETCH_UUID_TIMEOUT then
        some (s.leave i read (s.getFetchedUUIDorTimeout read.address))
      else some (s.setStage i read .looping)
  | _ => none

def wakeUp (s : UuidReads Device Uuid) (i : Nat) (read : UuidRead Device Uuid) :
    Option (UuidReads Device Uuid) :=
  match read.stage with
  | .waiting => some (s.setStage i read .woken)
  | _ => none

def notified (read : UuidRead Device Uuid) : UuidRead Device Uuid :=
  match read.stage with
  | .waiting => { read with stage := .woken }
  | _ => read

def deviceChanged (ad : BluetoothAdapter Device) (s : UuidReads Device Uuid) (d : Device) :
    UuidReads Device Uuid :=
  match s.fetchingUuids (ad.hwAddress d) with
  | some _ =>
      { s with
        fetchingUuids := Function.update s.fetchingUuids (ad.hwAddress d) (some d)
        reads := fun i => (s.reads i).map notified }
  | none => s

section

variable [DecidableEq Device]

def report (d : Device) (uuids : List Uuid) (read : UuidRead Device Uuid) :
    UuidRead Device Uuid :=
  if read.device = d ∧ read.stage.hasEnded = false then
    { read with reported := read.reported ++ uuids }
  else read

def uuidProbed (ad : BluetoothAdapter Device) (s : UuidReads Device Uuid) (d : Device)
    (uuids : List Uuid) : UuidReads Device Uuid :=
  { s with
    fetchedUUIDs := Function.update s.fetchedUUIDs (ad.hwAddress d)
      (some ((s.fetchedUUIDs (ad.hwAddress d)).getD [] ++ uuids))
    reads := fun i => (s.reads i).map (report d uuids) }

def readUUIDs (ad : BluetoothAdapter Device) (s : UuidReads Device Uuid) (i : Nat)
    (address : U16String) (startTime : Int64) : UuidReads Device Uuid :=
  if ad.present then
    match ad.getRemoteDevice address with
    | some d => s.setRead i ⟨address, d, startTime, .entering, []⟩
    | none => s
  else s

/-- A call may wake up at any time: by its time-out, by `notifyAll` or by itself. -/
def step (ad : BluetoothAdapter Device) (s : UuidReads Device Uuid) :
    Action Device Uuid → Option (UuidReads Device Uuid)
  | .readUUIDs i address startTime =>
      match s.reads i with
      | none => some (s.readUUIDs ad i address startTime)
      | some _ => none
  | .acquire i => (s.reads i).bind fun read => s.acquire i read
  | .containsKey i => (s.reads i).bind fun read => s.containsKey i read
  | .fetchUuidsWithSdp i begins => (s.reads i).bind fun read => s.fetchUuidsWithSdp i read begins
  | .getUuids i uuids => (s.reads i).bind fun read => s.getUuids i read uuids
  | .currentTimeMillis i now => (s.reads i).bind fun read => s.currentTimeMillis i read now
  | .wakeUp i => (s.reads i).bind fun read => s.wakeUp i read
  | .onDeviceChanged d named hasUuids =>
      if named then
        if s.lock = none then
          if hasUuids then some (s.deviceChanged ad d) else some s
        else none
      else some s
  | .onUUIDProbed d uuids =>
      match uuids with
      | some (uuid :: uuids) =>
          if s.lock = none then some (s.uuidProbed ad d (uuid :: uuids)) else none
      | _ => some s

def machine (ad : BluetoothAdapter Device) :
    Machine (UuidReads Device Uuid) (Action Device Uuid) where
  Init s := s = initial
  step := step ad

end

/-! ## What a step does -/

inductive Ends (read : UuidRead Device Uuid) (i : Nat) : Action Device Uuid → Prop
  | notBegun : read.stage = .fetching → Ends read i (.fetchUuidsWithSdp i false)
  | got {d : Device} {uuid : Uuid} {uuids : List Uuid} : read.stage = .getting d →
      Ends read i (.getUuids i (some (uuid :: uuids)))
  | late {now : Int64} : read.stage = .timing →
      FETCH_UUID_TIMEOUT - (now - read.startTime) < 1 → Ends read i (.currentTimeMillis i now)
  | expired {now : Int64} : read.stage = .resumed →
      now - read.startTime > FETCH_UUID_TIMEOUT → Ends read i (.currentTimeMillis i now)

theorem Ends.hasEnded {read : UuidRead Device Uuid} {i : Nat} {a : Action Device Uuid}
    (h : Ends read i a) : read.stage.hasEnded = false := by
  cases h with
  | notBegun hstage =>
    rw [hstage]
    rfl
  | got hstage =>
    rw [hstage]
    rfl
  | late hstage _ =>
    rw [hstage]
    rfl
  | expired hstage _ =>
    rw [hstage]
    rfl

structure Moves (s t : UuidReads Device Uuid) (i : Nat) (read : UuidRead Device Uuid)
    (stage : ReadStage Device Uuid) : Prop where
  found : s.reads i = some read
  goesOn : read.stage.hasEnded = false
  running : stage.hasEnded = false
  reads : t.reads = Function.update s.reads i (some { read with stage := stage })
  fetched : t.fetchedUUIDs = s.fetchedUUIDs

section

variable [DecidableEq Device]

inductive Does (ad : BluetoothAdapter Device) (s : UuidReads Device Uuid)
    (a : Action Device Uuid) : UuidReads Device Uuid → Prop
  | idle : Does ad s a s
  | began {i : Nat} {address : U16String} {d : Device} {startTime : Int64} :
      s.reads i = none → Does ad s a (s.setRead i ⟨address, d, startTime, .entering, []⟩)
  | moved {t : UuidReads Device Uuid} {i : Nat} {read : UuidRead Device Uuid}
      {stage : ReadStage Device Uuid} : Moves s t i read stage → Does ad s a t
  | ended {i : Nat} {read : UuidRead Device Uuid} {result : UuidResult Uuid} :
      s.reads i = some read → Ends read i a →
      result = s.getFetchedUUIDorTimeout read.address ∨ (∃ l, result = .uuids l) ∨
        result = .genericError → Does ad s a (s.leave i read result)
  | changed {d : Device} : Does ad s a (s.deviceChanged ad d)
  | probed {d : Device} {uuid : Uuid} {uuids : List Uuid} :
      a = .onUUIDProbed d (some (uuid :: uuids)) → Does ad s a (s.uuidProbed ad d (uuid :: uuids))

variable {ad : BluetoothAdapter Device} {s t : UuidReads Device Uuid} {i : Nat}
  {read : UuidRead Device Uuid}

theorem acquire_does (hread : s.reads i = some read) (h : s.acquire i read = some t) :
    Does ad s (.acquire i) t := by
  unfold acquire at h
  split at h
  · split at h
    case h_1 hstage =>
      cases h
      exact .moved ⟨hread, by rw [hstage]; rfl, rfl, rfl, rfl⟩
    case h_2 hstage =>
      cases h
      exact .moved ⟨hread, by rw [hstage]; rfl, rfl, rfl, rfl⟩
    case h_3 => cases h
  · cases h

theorem containsKey_does (hread : s.reads i = some read) (h : s.containsKey i read = some t) :
    Does ad s (.containsKey i) t := by
  unfold containsKey at h
  split at h
  case h_1 hstage =>
    split at h
    · cases h
      exact .moved ⟨hread, by rw [hstage]; rfl, rfl, rfl, rfl⟩
    · cases h
      exact .moved ⟨hread, by rw [hstage]; rfl, rfl, rfl, rfl⟩
  case h_2 => cases h

theorem fetchUuidsWithSdp_does {begins : Bool} (hread : s.reads i = some read)
    (h : s.fetchUuidsWithSdp i read begins = some t) :
    Does ad s (.fetchUuidsWithSdp i begins) t := by
  unfold fetchUuidsWithSdp at h
  split at h
  case h_1 hstage =>
    split at h
    · cases h
      exact .moved ⟨hread, by rw [hstage]; rfl, rfl, rfl, rfl⟩
    · rename_i hbegins
      cases h
      rw [Bool.not_eq_true _ |>.mp hbegins]
      exact .ended hread (.notBegun hstage) (.inr (.inr rfl))
  case h_2 => cases h

theorem getUuids_does {uuids : Option (List Uuid)} (hread : s.reads i = some read)
    (h : s.getUuids i read uuids = some t) : Does ad s (.getUuids i uuids) t := by
  unfold getUuids at h
  split at h
  case h_1 d hstage =>
    split at h
    · cases h
      exact .ended hread (.got hstage) (.inr (.inl ⟨_, rfl⟩))
    · cases h
      exact .moved ⟨hread, by rw [hstage]; rfl, rfl, rfl, rfl⟩
  case h_2 => cases h

theorem currentTimeMillis_does {now : Int64} (hread : s.reads i = some read)
    (h : s.currentTimeMillis i read now = some t) : Does ad s (.currentTimeMillis i now) t := by
  unfold currentTimeMillis at h
  split at h
  case h_1 hstage =>
    split at h
    · rename_i hlate
      cases h
      exact .ended hread (.late hstage hlate) (.inl rfl)
    · cases h
      exact .moved ⟨hread, by rw [hstage]; rfl, rfl, rfl, rfl⟩
  case h_2 hstage =>
    split at h
    · rename_i hover
      cases h
      exact .ended hread (.expired hstage hover) (.inl rfl)
    · cases h
      exact .moved ⟨hread, by rw [hstage]; rfl, rfl, rfl, rfl⟩
  case h_3 => cases h

theorem wakeUp_does (hread : s.reads i = some read) (h : s.wakeUp i read = some t) :
    Does ad s (.wakeUp i) t := by
  unfold wakeUp at h
  split at h
  case h_1 hstage =>
    cases h
    exact .moved ⟨hread, by rw [hstage]; rfl, rfl, rfl, rfl⟩
  case h_2 => cases h

theorem step_does {a : Action Device Uuid} (h : step ad s a = some t) : Does ad s a t := by
  unfold step at h
  split at h
  case h_1 i address startTime =>
    split at h
    · rename_i hnone
      cases h
      unfold readUUIDs
      split
      · split
        · exact .began hnone
        · exact .idle
      · exact .idle
    · cases h
  case h_2 i =>
    obtain ⟨read, hread, h⟩ := Option.bind_eq_some_iff.mp h
    exact acquire_does hread h
  case h_3 i =>
    obtain ⟨read, hread, h⟩ := Option.bind_eq_some_iff.mp h
    exact containsKey_does hread h
  case h_4 i begins =>
    obtain ⟨read, hread, h⟩ := Option.bind_eq_some_iff.mp h
    exact fetchUuidsWithSdp_does hread h
  case h_5 i uuids =>
    obtain ⟨read, hread, h⟩ := Option.bind_eq_some_iff.mp h
    exact getUuids_does hread h
  case h_6 i now =>
    obtain ⟨read, hread, h⟩ := Option.bind_eq_some_iff.mp h
    exact currentTimeMillis_does hread h
  case h_7 i =>
    obtain ⟨read, hread, h⟩ := Option.bind_eq_some_iff.mp h
    exact wakeUp_does hread h
  case h_8 d named hasUuids =>
    split at h
    · split at h
      · split at h
        · cases h
          exact .changed
        · cases h
          exact .idle
      · cases h
    · cases h
      exact .idle
  case h_9 d uuids =>
    split at h
    · split at h
      · cases h
        exact .probed rfl
      · cases h
    · cases h
      exact .idle

end

/-! ## Calls do not disturb each other -/

structure Undisturbed (s : UuidReads Device Uuid) : Prop where
  timedOut : ∀ i read, s.reads i = some read → read.stage = .ended .timedOut →
    read.reported = []
  fetched : ∀ i read l, s.reads i = some read → read.stage = .ended (.fetched l) →
    ∀ uuid ∈ read.reported, uuid ∈ l

/-- The calls for a device whose UUIDs are reported use the address of the report, and a call
that ends leaves behind no call with its address to which UUIDs have been reported. -/
def Guard (ad : BluetoothAdapter Device) (s : UuidReads Device Uuid)
    (a : Action Device Uuid) : Prop :=
  (∀ d uuid uuids, a = .onUUIDProbed d (some (uuid :: uuids)) → ∀ i read,
    s.reads i = some read → read.stage.hasEnded = false → read.device = d →
      read.address = ad.hwAddress d) ∧
  ∀ i read, s.reads i = some read → Ends read i a → ∀ j other, j ≠ i →
    s.reads j = some other → other.stage.hasEnded = false → other.address = read.address →
      other.reported = []

structure ReadOk (s : UuidReads Device Uuid) (read : UuidRead Device Uuid) : Prop where
  held : read.stage.hasEnded = false →
    ∀ uuid ∈ read.reported, uuid ∈ (s.fetchedUUIDs read.address).getD []
  timedOut : read.stage = .ended .timedOut → read.reported = []
  fetched : ∀ l, read.stage = .ended (.fetched l) → ∀ uuid ∈ read.reported, uuid ∈ l

def Inv (s : UuidReads Device Uuid) : Prop := ∀ i read, s.reads i = some read → ReadOk s read

section

variable {ad : BluetoothAdapter Device} {s t : UuidReads Device Uuid} {i : Nat}
  {read : UuidRead Device Uuid}

theorem ReadOk.of_running (hrunning : read.stage.hasEnded = false)
    (h : ∀ uuid ∈ read.reported, uuid ∈ (s.fetchedUUIDs read.address).getD []) :
    ReadOk s read where
  held _ := h
  timedOut hstage := by
    rw [hstage] at hrunning
    cases hrunning
  fetched l hstage := by
    rw [hstage] at hrunning
    cases hrunning

theorem ReadOk.congr (h : ReadOk s read) (hfetched : read.stage.hasEnded = false →
    ∀ uuid ∈ read.reported, uuid ∈ (s.fetchedUUIDs read.address).getD [] →
      uuid ∈ (t.fetchedUUIDs read.address).getD []) : ReadOk t read where
  held hrunning uuid huuid := hfetched hrunning uuid huuid (h.held hrunning uuid huuid)
  timedOut := h.timedOut
  fetched := h.fetched

theorem getFetchedUUIDorTimeout_timedOut {address : U16String}
    (h : s.getFetchedUUIDorTimeout address = .timedOut) :
    (s.fetchedUUIDs address).getD [] = [] := by
  unfold getFetchedUUIDorTimeout at h
  split at h
  · rename_i hnone
    rw [hnone]
    rfl
  · rename_i hnil
    rw [hnil]
    rfl
  · cases h

theorem getFetchedUUIDorTimeout_fetched {address : U16String} {l : List Uuid}
    (h : s.getFetchedUUIDorTimeout address = .fetched l) :
    (s.fetchedUUIDs address).getD [] = l := by
  unfold getFetchedUUIDorTimeout at h
  split at h
  · cases h
  · cases h
  · rename_i uuid uuids hcons
    cases h
    rw [hcons]
    rfl

theorem Inv.leave (h : Inv s) (hread : s.reads i = some read)
    (hrunning : read.stage.hasEnded = false) {result : UuidResult Uuid}
    (hresult : result = s.getFetchedUUIDorTimeout read.address ∨ (∃ l, result = .uuids l) ∨
      result = .genericError)
    (hothers : ∀ j other, j ≠ i → s.reads j = some other → other.stage.hasEnded = false →
      other.address = read.address → other.reported = []) : Inv (s.leave i read result) := by
  intro j other hj
  rcases Table.update_eq_some hj with ⟨rfl, heq⟩ | ⟨hne, hj⟩
  · cases heq
    have hheld := (h j read hread).held hrunning
    refine ⟨fun hended => ?_, fun hstage => ?_, fun l hstage => ?_⟩
    · cases hended
    · rcases hresult with rfl | ⟨l, rfl⟩ | rfl
      · rw [getFetchedUUIDorTimeout_timedOut (ReadStage.ended.inj hstage)] at hheld
        exact List.eq_nil_iff_forall_not_mem.mpr fun uuid huuid => by cases hheld uuid huuid
      · cases hstage
      · cases hstage
    · rcases hresult with rfl | ⟨l, rfl⟩ | rfl
      · rw [getFetchedUUIDorTimeout_fetched (ReadStage.ended.inj hstage)] at hheld
        exact hheld
      · cases hstage
      · cases hstage
  · apply (h j other hj).congr
    intro hother uuid huuid hmem
    by_cases haddress : other.address = read.address
    · rw [hothers j other hne hj hother haddress] at huuid
      cases huuid
    · change uuid ∈ (Function.update s.fetchedUUIDs read.address none other.address).getD []
      rw [Function.update_of_ne haddress]
      exact hmem

theorem notified_cases (read : UuidRead Device Uuid) :
    notified read = read ∨
      (read.stage = .waiting ∧ notified read = { read with stage := .woken }) := by
  unfold notified
  split
  · rename_i hstage
    exact .inr ⟨hstage, rfl⟩
  · exact .inl rfl

theorem Inv.deviceChanged (h : Inv s) (d : Device) : Inv (s.deviceChanged ad d) := by
  unfold UuidReads.deviceChanged
  split
  · intro i read hread
    obtain ⟨old, hold, rfl⟩ := Option.map_eq_some_iff.mp hread
    have hok := h i old hold
    rcases notified_cases old with heq | ⟨hstage, heq⟩
    · rw [heq]
      exact hok.congr fun _ _ _ => id
    · rw [heq]
      refine .of_running rfl fun uuid huuid => ?_
      exact hok.held (by rw [hstage]; rfl) uuid huuid
  · exact h

variable [DecidableEq Device]

theorem Inv.uuidProbed (h : Inv s) {d : Device} {uuids : List Uuid}
    (hguard : ∀ i read, s.reads i = some read → read.stage.hasEnded = false → read.device = d →
      read.address = ad.hwAddress d) : Inv (s.uuidProbed ad d uuids) := by
  intro i read hread
  obtain ⟨old, hold, rfl⟩ := Option.map_eq_some_iff.mp hread
  have hok := h i old hold
  -- The list of an address only grows.
  have hgrows : ∀ address, ∀ uuid ∈ (s.fetchedUUIDs address).getD [],
      uuid ∈ ((s.uuidProbed ad d uuids).fetchedUUIDs address).getD [] := by
    intro address uuid huuid
    by_cases haddress : address = ad.hwAddress d
    · rw [haddress] at huuid ⊢
      change uuid ∈ (Function.update s.fetchedUUIDs (ad.hwAddress d) _ (ad.hwAddress d)).getD []
      rw [Function.update_self]
      exact List.mem_append_left _ huuid
    · change uuid ∈ (Function.update s.fetchedUUIDs (ad.hwAddress d) _ address).getD []
      rw [Function.update_of_ne haddress]
      exact huuid
  unfold report
  split
  · rename_i hreported
    refine .of_running hreported.2 fun uuid huuid => ?_
    rcases List.mem_append.mp huuid with huuid | huuid
    · exact hgrows _ _ (hok.held hreported.2 uuid huuid)
    · change uuid ∈ (Function.update s.fetchedUUIDs (ad.hwAddress d) _ old.address).getD []
      rw [hguard i old hold hreported.2 hreported.1, Function.update_self]
      exact List.mem_append_right _ huuid
  · exact hok.congr fun _ uuid _ => hgrows _ uuid

theorem Inv.does (h : Inv s) {a : Action Device Uuid} (hguard : Guard ad s a)
    (hdoes : Does ad s a t) : Inv t := by
  cases hdoes with
  | idle => exact h
  | began hnone =>
    intro j read hj
    rcases Table.update_eq_some hj with ⟨-, heq⟩ | ⟨-, hj⟩
    · cases heq
      exact .of_running rfl fun uuid huuid => by cases huuid
    · exact (h j read hj).congr fun _ _ _ => id
  | moved hmoves =>
    intro j read hj
    rw [hmoves.reads] at hj
    rcases Table.update_eq_some hj with ⟨-, heq⟩ | ⟨-, hj⟩
    · cases heq
      refine .of_running hmoves.running fun uuid huuid => ?_
      rw [hmoves.fetched]
      exact (h _ _ hmoves.found).held hmoves.goesOn uuid huuid
    · refine (h j read hj).congr fun _ _ _ hmem => ?_
      rw [hmoves.fetched]
      exact hmem
  | ended hread hends hresult =>
    exact h.leave hread hends.hasEnded hresult (hguard.2 _ _ hread hends)
  | changed => exact h.deviceChanged _
  | probed heq => exact h.uuidProbed (hguard.1 _ _ _ heq)

/-- In the guarded runs the calls do not disturb each other. -/
theorem reads_undisturbed (ad : BluetoothAdapter Device)
    (h : (machine ad).ReachableVia (Guard ad) s) : s.Undisturbed := by
  have hinv : Inv s := by
    apply h.invariant Inv
    · rintro s rfl i read hread
      cases hread
    · intro s a t hs hguard hstep
      exact hs.does hguard (step_does hstep)
  exact ⟨fun i read hread => (hinv i read hread).timedOut,
    fun i read l hread => (hinv i read hread).fetched l⟩

end

namespace Sample

abbrev Reads : Type := UuidReads Unit Nat

def enter (i : Nat) (address : String) : List (Action Unit Nat) :=
  [.readUUIDs i (u16 address) 0, .acquire i, .containsKey i]

def expire (i : Nat) : List (Action Unit Nat) :=
  [.wakeUp i, .acquire i, .currentTimeMillis i 20001]

def upperCase : List (Action Unit Nat) :=
  enter 0 "AA:BB:CC:DD:EE:FF" ++ [.fetchUuidsWithSdp 0 true, .currentTimeMillis 0 0,
    .onUUIDProbed () (some [1])] ++ expire 0

/-- The first of two calls takes away what was reported to both. -/
def twoCalls : List (Action Unit Nat) :=
  enter 0 "aa:bb:cc:dd:ee:ff" ++ [.fetchUuidsWithSdp 0 true, .currentTimeMillis 0 0] ++
    enter 1 "aa:bb:cc:dd:ee:ff" ++ [.getUuids 1 none, .currentTimeMillis 1 0,
      .onUUIDProbed () (some [1])] ++ expire 0

def EndsWith (actions : List (Action Unit Nat)) (i : Nat) (result : UuidResult Nat)
    (reported : List Nat) : Prop :=
  ∃ s : Reads, (machine Pairing.Sample.adapter).Reachable s ∧
    (machine Pairing.Sample.adapter).run initial actions = some s ∧
    (s.reads i).map (fun read => (read.stage, read.reported)) = some (.ended result, reported)

theorem endsWith_of_run {s : Reads} {actions : List (Action Unit Nat)} {i : Nat}
    {result : UuidResult Nat} {reported : List Nat}
    (hrun : (machine Pairing.Sample.adapter).run initial actions = some s)
    (hread : (s.reads i).map (fun read => (read.stage, read.reported)) =
      some (.ended result, reported)) : EndsWith actions i result reported :=
  ⟨s, Machine.Reachable.run (.start rfl) hrun, hrun, hread⟩

theorem guard_of_quiet {s : Reads} {a : Action Unit Nat}
    (hreport : ∀ d uuids, a ≠ .onUUIDProbed d uuids)
    (hends : ∀ i read, s.reads i = some read → ¬ Ends read i a) :
    Guard Pairing.Sample.adapter s a :=
  ⟨fun d _ _ heq => absurd heq (hreport d _), fun i read hread h => absurd h (hends i read hread)⟩

end Sample

/-- A call that has been told of a UUID returns it. -/
theorem reads_undisturbed_fetched :
    ∃ s : Sample.Reads, s.Undisturbed ∧
      (s.reads 0).map (fun read => (read.stage, read.reported)) =
        some (.ended (.fetched [1]), [1]) := by
  have h : (machine Pairing.Sample.adapter).ReachableVia
      (Guard Pairing.Sample.adapter) (initial : Sample.Reads) := .start rfl
  have hcalled := h.after (.readUUIDs 0 (u16 "aa:bb:cc:dd:ee:ff") 0)
    (Sample.guard_of_quiet (by simp) fun i read _ hends => by cases hends) rfl
  have hentered := hcalled.after (.acquire 0)
    (Sample.guard_of_quiet (by simp) fun i read _ hends => by cases hends) rfl
  have hput := hentered.after (.containsKey 0)
    (Sample.guard_of_quiet (by simp) fun i read _ hends => by cases hends) rfl
  have hbegun := hput.after (.fetchUuidsWithSdp 0 true)
    (Sample.guard_of_quiet (by simp) fun i read _ hends => by cases hends) rfl
  have hwaits := hbegun.after (.currentTimeMillis 0 0)
    (Sample.guard_of_quiet (by simp) fun i read hread hends => by
      cases hends with
      | late _ hlate =>
        cases hread
        exact absurd hlate (by decide)
      | expired hstage _ =>
        cases hread
        cases hstage) rfl
  have hprobed := hwaits.after (.onUUIDProbed () (some [1])) (by
    constructor
    · intro d uuid uuids _ i read hread _ _
      cases i with
      | zero =>
        cases hread
        rfl
      | succ n => cases hread
    · intro i read _ hends
      cases hends) rfl
  have hwoken := hprobed.after (.wakeUp 0)
    (Sample.guard_of_quiet (by simp) fun i read _ hends => by cases hends) rfl
  have hacquired := hwoken.after (.acquire 0)
    (Sample.guard_of_quiet (by simp) fun i read _ hends => by cases hends) rfl
  have hended := hacquired.after (.currentTimeMillis 0 20001) (by
    constructor
    · intro d uuid uuids heq
      cases heq
    · intro i read _ hends j other hj hother
      cases hends
      all_goals
        cases j with
        | zero => exact absurd rfl hj
        | succ n => cases hother) rfl
  exact ⟨_, reads_undisturbed Pairing.Sample.adapter hended, rfl⟩

/-- UUIDs were reported to a call that times out, and to one that returns others. -/
theorem reads_disturbed :
    Sample.EndsWith Sample.upperCase 0 .timedOut [1] ∧
    Sample.EndsWith (Sample.twoCalls ++ Sample.expire 1) 1 .timedOut [1] ∧
    Sample.EndsWith (Sample.twoCalls ++ .onUUIDProbed () (some [2]) :: Sample.expire 1) 1
      (.fetched [2]) [1, 2] :=
  ⟨Sample.endsWith_of_run rfl rfl, Sample.endsWith_of_run rfl rfl,
    Sample.endsWith_of_run rfl rfl⟩

end UuidReads

end AlmondAndroid.App
