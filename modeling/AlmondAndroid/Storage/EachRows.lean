import AlmondAndroid.Library.Machine

/-!
# The rows of `Statement::Each`

The worker appends each row to a list under a mutex and wakes the loop, which takes the
list out until it finds it empty and looks at the flag `completed` only then. The two
threads interleave at the mutex, at the flag and at the wake-up.
-/

namespace AlmondAndroid.Storage

open Library

namespace EachRows

/-- Where `Work_Each` is. -/
inductive Worker
  | stepping
  | sendRow
  | complete
  | sendLast
  | done
  deriving DecidableEq

/-- Where `AsyncEach` is, and with which rows in hand. -/
inductive Listener (α : Type)
  | idle
  | swap
  | deliver (rows : List α)
  | check
  | closed

def Listener.rows {α : Type} : Listener α → List α
  | deliver rows => rows
  | _ => []

def Listener.isClosed {α : Type} : Listener α → Bool
  | closed => true
  | _ => false

end EachRows

open EachRows

/-- `Async`, of which `pending` is the flag of `uv_async_send`. The rows that the worker
found, those for which the callback was called and the calls of the other callback are
histories. -/
structure EachRows (α : Type) where
  worker : Worker
  listener : Listener α
  data : List α
  completed : Bool
  pending : Bool
  retrieved : Nat
  deleted : Bool
  sentLate : Bool
  found : List α
  delivered : List α
  completions : List Nat

namespace EachRows

variable {α : Type}

/-- `Work_BeginEach` has made the `Async`. -/
def new : EachRows α where
  worker := .stepping
  listener := .idle
  data := []
  completed := false
  pending := false
  retrieved := 0
  deleted := false
  sentLate := false
  found := []
  delivered := []
  completions := []

inductive Action (α : Type)
  | row (row : α)
  | noRow
  | send
  | complete
  | wake
  | swap
  | deliver
  | check
  | delete

/-- A wake-up on a deleted `Async` is recorded. -/
def asyncSend (e : EachRows α) (worker : Worker) : EachRows α :=
  { e with worker := worker, pending := true, sentLate := e.sentLate || e.deleted }

/-- Without a callback the rows that were taken are dropped. -/
def takeRows (item : Bool) (e : EachRows α) : EachRows α :=
  match e.data with
  | [] => { e with listener := .check }
  | rows => { e with data := [], listener := if item then .deliver rows else .swap }

/-- `item` and `last` say whether there are callbacks. -/
def step (item last : Bool) (e : EachRows α) : Action α → Option (EachRows α)
  | .row r =>
      if e.worker = .stepping then
        some { e with worker := .sendRow, data := e.data ++ [r], found := e.found ++ [r] }
      else none
  | .noRow => if e.worker = .stepping then some { e with worker := .complete } else none
  | .send =>
      match e.worker with
      | .sendRow => some (e.asyncSend .stepping)
      | .sendLast => some (e.asyncSend .done)
      | _ => none
  | .complete =>
      if e.worker = .complete then some { e with worker := .sendLast, completed := true } else none
  | .wake =>
      match e.listener with
      | .idle => if e.pending then some { e with pending := false, listener := .swap } else none
      | _ => none
  | .swap =>
      match e.listener with
      | .swap => some (e.takeRows item)
      | _ => none
  | .deliver =>
      match e.listener with
      | .deliver [] => some { e with listener := .swap }
      | .deliver (r :: rows) => some
          { e with
            listener := .deliver rows
            retrieved := e.retrieved + 1
            delivered := e.delivered ++ [r] }
      | _ => none
  | .check =>
      match e.listener with
      | .check => some <|
          if e.completed then
            { e with
              listener := .closed
              completions := if last then e.completions ++ [e.retrieved] else e.completions }
          else { e with listener := .idle }
      | _ => none
  | .delete =>
      match e.listener with
      | .closed => if e.deleted then none else some { e with deleted := true }
      | _ => none

def machine (α : Type) (item last : Bool) : Machine (EachRows α) (Action α) where
  Init e := e = new
  step := step item last

/-! ## The invariant -/

def Listener.isIdle : Listener α → Bool
  | idle => true
  | _ => false

/-- The loop is in `AsyncEach` and will find the rows that are there. -/
def Listener.taking : Listener α → Bool
  | swap => true
  | deliver _ => true
  | _ => false

structure Sound (item last : Bool) (e : EachRows α) : Prop where
  inOrder : item = true → e.found = e.delivered ++ e.listener.rows ++ e.data
  undelivered : item = false → e.delivered = [] ∧ e.listener.rows = []
  retrieved : e.retrieved = e.delivered.length
  completed : e.completed = true ↔ e.worker = .sendLast ∨ e.worker = .done
  closed : e.listener.isClosed = true → e.completed = true
  completions : e.completions = if e.listener.isClosed && last then [e.delivered.length] else []
  rowsAwaited : e.data ≠ [] → e.worker = .sendRow ∨ e.pending = true ∨
    e.listener.taking = true ∨ e.listener.isClosed = true
  endAwaited : e.worker = .done → e.pending = true ∨ e.listener.isIdle = false
  deleted : e.deleted = true → e.listener.isClosed = true
  late : e.sentLate = true → e.worker = .done

namespace Sound

variable {item last : Bool} {e e' : EachRows α}

theorem new : Sound item last (new : EachRows α) where
  inOrder _ := rfl
  undelivered _ := ⟨rfl, rfl⟩
  retrieved := rfl
  completed := by simp [EachRows.new]
  closed := nofun
  completions := rfl
  rowsAwaited h := absurd rfl h
  endAwaited := nofun
  deleted := nofun
  late := nofun

/-- The worker goes on without touching the flag. -/
theorem work (h : Sound item last e) (worker : Worker)
    (hfrom : e.worker ≠ .sendLast ∧ e.worker ≠ .done)
    (hto : worker ≠ .sendLast ∧ worker ≠ .done) (hsendRow : e.worker ≠ .sendRow) :
    Sound item last { e with worker := worker } where
  inOrder := h.inOrder
  undelivered := h.undelivered
  retrieved := h.retrieved
  completed := by
    have hnot : ¬ e.completed = true := fun htrue =>
      (h.completed.mp htrue).elim hfrom.1 hfrom.2
    exact iff_of_false hnot fun hworker => hworker.elim hto.1 hto.2
  closed := h.closed
  completions := h.completions
  rowsAwaited hdata := .inr ((h.rowsAwaited hdata).resolve_left hsendRow)
  endAwaited hdone := absurd hdone hto.2
  deleted := h.deleted
  late hlate := absurd (h.late hlate) hfrom.2

theorem row (h : Sound item last e) (hworker : e.worker = .stepping) (r : α) :
    Sound item last
      { e with worker := .sendRow, data := e.data ++ [r], found := e.found ++ [r] } := by
  have hwork := h.work .sendRow (by simp [hworker]) (by simp) (by simp [hworker])
  exact {
    hwork with
    inOrder := by
      intro hitem
      change e.found ++ [r] = e.delivered ++ e.listener.rows ++ (e.data ++ [r])
      rw [h.inOrder hitem, List.append_assoc]
    rowsAwaited := fun _ => .inl rfl }

theorem sendRow (h : Sound item last e) (hworker : e.worker = .sendRow) :
    Sound item last (e.asyncSend .stepping) where
  inOrder := h.inOrder
  undelivered := h.undelivered
  retrieved := h.retrieved
  completed := by
    have hnot : ¬ e.completed = true := by
      rw [h.completed, hworker]
      simp
    exact iff_of_false hnot (by simp [asyncSend])
  closed := h.closed
  completions := h.completions
  rowsAwaited _ := .inr (.inl rfl)
  endAwaited := nofun
  deleted := h.deleted
  late hlate := by
    rcases Bool.or_eq_true_iff.mp hlate with hlate | hdeleted
    · exact absurd (hworker.symm.trans (h.late hlate)) nofun
    · have hcompleted := h.completed.mp (h.closed (h.deleted hdeleted))
      rw [hworker] at hcompleted
      exact absurd hcompleted (by simp)

theorem complete (h : Sound item last e) (hworker : e.worker = .complete) :
    Sound item last { e with worker := .sendLast, completed := true } where
  inOrder := h.inOrder
  undelivered := h.undelivered
  retrieved := h.retrieved
  completed := iff_of_true rfl (.inl rfl)
  closed _ := rfl
  completions := h.completions
  rowsAwaited hdata := .inr ((h.rowsAwaited hdata).resolve_left (by simp [hworker]))
  endAwaited := nofun
  deleted := h.deleted
  late hlate := absurd (hworker.symm.trans (h.late hlate)) nofun

theorem sendLast (h : Sound item last e) (hworker : e.worker = .sendLast) :
    Sound item last (e.asyncSend .done) where
  inOrder := h.inOrder
  undelivered := h.undelivered
  retrieved := h.retrieved
  completed := iff_of_true (h.completed.mpr (.inl hworker)) (.inr rfl)
  closed := h.closed
  completions := h.completions
  rowsAwaited _ := .inr (.inl rfl)
  endAwaited _ := .inl rfl
  deleted := h.deleted
  late _ := rfl

theorem wake (h : Sound item last e) (hidle : e.listener = .idle) :
    Sound item last { e with pending := false, listener := .swap } where
  inOrder hitem := by
    have horder := h.inOrder hitem
    rw [hidle] at horder
    exact horder
  undelivered hitem := ⟨(h.undelivered hitem).1, rfl⟩
  retrieved := h.retrieved
  completed := h.completed
  closed := nofun
  completions := by
    have hcompletions := h.completions
    rw [hidle] at hcompletions
    exact hcompletions
  rowsAwaited _ := .inr (.inr (.inl rfl))
  endAwaited _ := .inr rfl
  deleted hdeleted := by
    have hclosed := h.deleted hdeleted
    rw [hidle] at hclosed
    cases hclosed
  late := h.late

/-- Inside the loop of `AsyncEach`. -/
theorem move (h : Sound item last e) (listener : Listener α) (data delivered : List α)
    (retrieved : Nat) (hopen : e.listener.isClosed = false)
    (hclosed : listener.isClosed = false) (hidle : listener.isIdle = false)
    (hinOrder : item = true → e.found = delivered ++ listener.rows ++ data)
    (hundelivered : item = false → delivered = [] ∧ listener.rows = [])
    (hretrieved : retrieved = delivered.length)
    (hdata : data ≠ [] → listener.taking = true) :
    Sound item last
      { e with
        listener := listener, data := data, delivered := delivered, retrieved := retrieved } where
  inOrder := hinOrder
  undelivered := hundelivered
  retrieved := hretrieved
  completed := h.completed
  closed htrue := absurd (hclosed.symm.trans htrue) Bool.false_ne_true
  completions := by
    have hcompletions := h.completions
    rw [hopen, Bool.false_and] at hcompletions
    change e.completions = if listener.isClosed && last then _ else _
    rw [hclosed, Bool.false_and]
    exact hcompletions
  rowsAwaited hne := .inr (.inr (.inl (hdata hne)))
  endAwaited _ := .inr hidle
  deleted hdeleted :=
    absurd (hopen.symm.trans (h.deleted hdeleted)) Bool.false_ne_true
  late := h.late

theorem takeRows (h : Sound item last e) (hswap : e.listener = .swap) :
    Sound item last (e.takeRows item) := by
  have hopen : e.listener.isClosed = false := by rw [hswap]; rfl
  have horder : item = true → e.found = e.delivered ++ e.data := by
    intro hitem
    have hfound := h.inOrder hitem
    rw [hswap] at hfound
    rw [hfound]
    exact congrArg (· ++ e.data) (List.append_nil _)
  unfold EachRows.takeRows
  split
  · rename_i hdata
    refine h.move .check e.data e.delivered e.retrieved hopen rfl rfl ?_ ?_ h.retrieved ?_
    · intro hitem
      rw [horder hitem]
      exact (congrArg (· ++ e.data) (List.append_nil _)).symm
    · exact fun hitem => ⟨(h.undelivered hitem).1, rfl⟩
    · exact fun hne => absurd hdata hne
  · cases item with
    | true =>
      refine h.move _ _ e.delivered e.retrieved hopen rfl rfl ?_ nofun
        h.retrieved fun hne => absurd rfl hne
      intro hitem
      rw [horder hitem, List.append_nil]
      rfl
    | false =>
      exact h.move _ _ e.delivered e.retrieved hopen rfl rfl nofun
        (fun hitem => ⟨(h.undelivered hitem).1, rfl⟩) h.retrieved fun hne => absurd rfl hne

theorem deliverRow (h : Sound item last e) {r : α} {rows : List α}
    (hdeliver : e.listener = .deliver (r :: rows)) :
    Sound item last
      { e with
        listener := .deliver rows
        retrieved := e.retrieved + 1
        delivered := e.delivered ++ [r] } := by
  have hopen : e.listener.isClosed = false := by rw [hdeliver]; rfl
  refine h.move (.deliver rows) e.data (e.delivered ++ [r]) (e.retrieved + 1) hopen rfl rfl
    ?_ ?_ ?_ fun _ => rfl
  · intro hitem
    rw [h.inOrder hitem, hdeliver]
    simp [Listener.rows]
  · intro hitem
    have hrows := (h.undelivered hitem).2
    rw [hdeliver] at hrows
    cases hrows
  · rw [h.retrieved, List.length_append, List.length_singleton]

theorem close (h : Sound item last e) (hcheck : e.listener = .check)
    (hcompleted : e.completed = true) :
    Sound item last
      { e with
        listener := .closed
        completions := if last then e.completions ++ [e.retrieved] else e.completions } where
  inOrder hitem := by
    have horder := h.inOrder hitem
    rw [hcheck] at horder
    exact horder
  undelivered hitem := ⟨(h.undelivered hitem).1, rfl⟩
  retrieved := h.retrieved
  completed := h.completed
  closed _ := hcompleted
  completions := by
    have hnone : e.completions = [] := by
      rw [h.completions, hcheck]
      rfl
    rw [hnone, h.retrieved]
    rfl
  rowsAwaited _ := .inr (.inr (.inr rfl))
  endAwaited _ := .inr rfl
  deleted _ := rfl
  late := h.late

theorem goIdle (h : Sound item last e) (hcheck : e.listener = .check)
    (hcompleted : ¬ e.completed = true) : Sound item last { e with listener := .idle } where
  inOrder hitem := by
    have horder := h.inOrder hitem
    rw [hcheck] at horder
    exact horder
  undelivered hitem := ⟨(h.undelivered hitem).1, rfl⟩
  retrieved := h.retrieved
  completed := h.completed
  closed := nofun
  completions := by
    have hcompletions := h.completions
    rw [hcheck] at hcompletions
    exact hcompletions
  rowsAwaited hdata := by
    rcases h.rowsAwaited hdata with hworker | hpending | htaking | hclosed
    · exact .inl hworker
    · exact .inr (.inl hpending)
    · rw [hcheck] at htaking
      cases htaking
    · rw [hcheck] at hclosed
      cases hclosed
  endAwaited hdone := absurd (h.completed.mpr (.inr hdone)) hcompleted
  deleted hdeleted := by
    have hclosed := h.deleted hdeleted
    rw [hcheck] at hclosed
    cases hclosed
  late := h.late

theorem step {a : Action α} (h : Sound item last e) (hstep : step item last e a = some e') :
    Sound item last e' := by
  cases a with
  | row r =>
    obtain ⟨hworker, hsome⟩ := Option.ite_none_right_eq_some.mp hstep
    cases hsome
    exact h.row hworker r
  | noRow =>
    obtain ⟨hworker, hsome⟩ := Option.ite_none_right_eq_some.mp hstep
    cases hsome
    exact h.work _ (by simp [hworker]) (by simp) (by simp [hworker])
  | send =>
    simp only [EachRows.step] at hstep
    split at hstep
    · rename_i hworker
      cases hstep
      exact h.sendRow hworker
    · rename_i hworker
      cases hstep
      exact h.sendLast hworker
    · cases hstep
  | complete =>
    obtain ⟨hworker, hsome⟩ := Option.ite_none_right_eq_some.mp hstep
    cases hsome
    exact h.complete hworker
  | wake =>
    simp only [EachRows.step] at hstep
    split at hstep
    · rename_i hidle
      obtain ⟨-, hsome⟩ := Option.ite_none_right_eq_some.mp hstep
      cases hsome
      exact h.wake hidle
    · cases hstep
  | swap =>
    simp only [EachRows.step] at hstep
    split at hstep
    · rename_i hswap
      cases hstep
      exact h.takeRows hswap
    · cases hstep
  | deliver =>
    simp only [EachRows.step] at hstep
    split at hstep
    · rename_i hdeliver
      cases hstep
      have hopen : e.listener.isClosed = false := by rw [hdeliver]; rfl
      refine h.move _ e.data e.delivered e.retrieved hopen
        rfl rfl ?_ (fun hitem => ⟨(h.undelivered hitem).1, rfl⟩) h.retrieved fun _ => rfl
      intro hitem
      rw [h.inOrder hitem, hdeliver]
      rfl
    · rename_i hdeliver
      cases hstep
      exact h.deliverRow hdeliver
    · cases hstep
  | check =>
    simp only [EachRows.step] at hstep
    split at hstep
    · rename_i hcheck
      cases hstep
      split
      · rename_i hcompleted
        exact h.close hcheck hcompleted
      · rename_i hcompleted
        exact h.goIdle hcheck hcompleted
    · cases hstep
  | delete =>
    simp only [EachRows.step] at hstep
    split at hstep
    · rename_i hclosed
      obtain ⟨-, hsome⟩ := Option.ite_none_left_eq_some.mp hstep
      cases hsome
      refine { h with deleted := fun _ => ?_ }
      rw [hclosed]
      rfl
    · cases hstep

theorem of_reachable (h : (machine α item last).Reachable e) : Sound item last e := by
  apply h.invariant (Sound item last)
  · rintro _ rfl
    exact new
  · exact fun _ _ _ hsound hstep => hsound.step hstep

end Sound

/-! ## Results -/

/-- Rows are delivered in the order in which they were found, the other callback is called
at most once, with their number, and while the loop sleeps it will be woken for what it has
not seen. -/
theorem each_rows_in_order {last : Bool} {e : EachRows α}
    (h : (machine α true last).Reachable e) :
    e.delivered <+: e.found ∧
    e.completions = (if e.listener.isClosed && last then [e.delivered.length] else []) ∧
    (e.listener = .idle → (e.data ≠ [] ∨ e.worker = .done) →
      e.worker = .sendRow ∨ e.pending = true) := by
  have hsound := Sound.of_reachable h
  refine ⟨?_, hsound.completions, fun hidle hleft => ?_⟩
  · rw [hsound.inOrder rfl, List.append_assoc]
    exact List.prefix_append ..
  · rcases hleft with hdata | hdone
    · have hawaited := hsound.rowsAwaited hdata
      rw [hidle] at hawaited
      rcases hawaited with hworker | hpending | htaking | hclosed
      · exact .inl hworker
      · exact .inr hpending
      · cases htaking
      · cases hclosed
    · have hawaited := hsound.endAwaited hdone
      rw [hidle] at hawaited
      exact .inr (hawaited.resolve_right nofun)

/-- A row comes between the last swap and the look at the flag, or before it. -/
def Sample.lateRow (late : Bool) : List (Action Nat) :=
  [.row 1, .send, .wake, .swap, .deliver, .deliver] ++
    (if late then [.swap, .row 2, .send, .noRow, .complete, .send]
      else [.row 2, .send, .noRow, .complete, .send, .swap, .deliver, .deliver, .swap]) ++ [.check]

theorem each_rows_in_order_sample : ∃ e,
    (machine Nat true true).run new (Sample.lateRow true) = some e ∧
    e.delivered <+: e.found ∧ (e.delivered, e.found, e.completions) = ([1], [1, 2], [1]) := by
  obtain ⟨e, hrun, hsame⟩ : ∃ e,
      (machine Nat true true).run new (Sample.lateRow true) = some e ∧
      (e.delivered, e.found, e.completions) = ([1], [1, 2], [1]) := ⟨_, rfl, rfl⟩
  have hnew : (machine Nat true true).Reachable new := .start rfl
  exact ⟨e, hrun, (each_rows_in_order (hnew.run hrun)).1, hsame⟩

/-- The look at the flag that ends the loop comes after the last row was taken. -/
def LooksInTime (e : EachRows α) : Action α → Prop
  | .check => e.completed = true → e.data = []
  | _ => True

/-- Only the look at the flag closes the handle, and no row comes after that. -/
theorem isClosed_step {item last : Bool} {e e' : EachRows α} {a : Action α}
    (h : Sound item last e) (hstep : step item last e a = some e') :
    (e.listener.isClosed = true → e'.listener.isClosed = true ∧ e'.data = e.data) ∧
    (e.listener.isClosed = false →
      (e'.listener.isClosed = true ↔ a = .check ∧ e.completed = true) ∧
      (a = .check → e'.data = e.data)) := by
  have hend : e.listener.isClosed = true → e.worker ≠ .stepping := by
    intro hclosed hworker
    have hcompleted := h.completed.mp (h.closed hclosed)
    rw [hworker] at hcompleted
    exact absurd hcompleted (by simp)
  cases a with
  | row r =>
    obtain ⟨hworker, hsome⟩ := Option.ite_none_right_eq_some.mp hstep
    cases hsome
    exact ⟨fun hclosed => absurd hworker (hend hclosed), fun hopen => by simp [hopen]⟩
  | noRow =>
    obtain ⟨-, hsome⟩ := Option.ite_none_right_eq_some.mp hstep
    cases hsome
    exact ⟨fun hclosed => ⟨hclosed, rfl⟩, fun hopen => by simp [hopen]⟩
  | send =>
    simp only [step] at hstep
    split at hstep
    · cases hstep
      exact ⟨fun hclosed => ⟨hclosed, rfl⟩, fun hopen => by simp [asyncSend, hopen]⟩
    · cases hstep
      exact ⟨fun hclosed => ⟨hclosed, rfl⟩, fun hopen => by simp [asyncSend, hopen]⟩
    · cases hstep
  | complete =>
    obtain ⟨-, hsome⟩ := Option.ite_none_right_eq_some.mp hstep
    cases hsome
    exact ⟨fun hclosed => ⟨hclosed, rfl⟩, fun hopen => by simp [hopen]⟩
  | wake =>
    simp only [step] at hstep
    split at hstep
    · rename_i hidle
      obtain ⟨-, hsome⟩ := Option.ite_none_right_eq_some.mp hstep
      cases hsome
      simp [hidle, Listener.isClosed]
    · cases hstep
  | swap =>
    simp only [step] at hstep
    split at hstep
    · rename_i hswap
      cases hstep
      unfold takeRows
      split
      · simp [hswap, Listener.isClosed]
      · cases item with
        | true => simp [hswap, Listener.isClosed]
        | false => simp [hswap, Listener.isClosed]
    · cases hstep
  | deliver =>
    simp only [step] at hstep
    split at hstep
    · rename_i hdeliver
      cases hstep
      simp [hdeliver, Listener.isClosed]
    · rename_i hdeliver
      cases hstep
      simp [hdeliver, Listener.isClosed]
    · cases hstep
  | check =>
    simp only [step] at hstep
    split at hstep
    · rename_i hcheck
      cases hstep
      by_cases hcompleted : e.completed = true
      · simp [hcheck, hcompleted, Listener.isClosed]
      · simp [hcheck, hcompleted, Listener.isClosed]
    · cases hstep
  | delete =>
    simp only [step] at hstep
    split at hstep
    · rename_i hclosed
      obtain ⟨-, hsome⟩ := Option.ite_none_left_eq_some.mp hstep
      cases hsome
      simp [hclosed, Listener.isClosed]
    · cases hstep

/-- The other callback is called after every row was delivered in exactly the runs in which
the look at the flag comes in time. -/
theorem each_reports_every_row (last : Bool) (as : List (Action α)) {e : EachRows α}
    (hrun : (machine α true last).run new as = some e) :
    (e.listener.isClosed = true → e.delivered = e.found) ↔
      (machine α true last).Meets LooksInTime new as := by
  have hsound := Sound.of_reachable (Machine.Reachable.run (.start rfl) hrun)
  have hiff : (e.listener.isClosed = true → e.data = []) ↔
      ((new : EachRows α).listener.isClosed = true → (new : EachRows α).data = []) ∧
        (machine α true last).Meets LooksInTime new as :=
    Machine.run_iff_meets (fun e => e.listener.isClosed = true → e.data = []) (Sound true last)
    (fun _ _ _ h hstep => h.step hstep)
    (by
      intro s a t h hs hstep
      obtain ⟨hclosed, hopen⟩ := isClosed_step h hstep
      cases hsc : s.listener.isClosed with
      | true =>
        obtain ⟨-, hdata⟩ := hclosed hsc
        refine iff_of_true (fun _ => hdata.trans (hs hsc)) ?_
        cases a with
        | check => exact fun _ => hs hsc
        | _ => trivial
      | false =>
        obtain ⟨hcloses, hdata⟩ := hopen hsc
        constructor
        · intro ht
          cases a with
          | check => exact fun hcompleted => hdata rfl ▸ ht (hcloses.mpr ⟨rfl, hcompleted⟩)
          | _ => trivial
        · intro hguard htc
          obtain ⟨rfl, hcompleted⟩ := hcloses.mp htc
          exact (hdata rfl).trans (hguard hcompleted))
    (by
      intro s a t h hs hstep ht
      obtain ⟨hclosed, -⟩ := isClosed_step h hstep
      obtain ⟨hsc, hdata⟩ := Classical.not_imp.mp hs
      obtain ⟨htc, hsame⟩ := hclosed hsc
      exact hdata (hsame.symm.trans (ht htc)))
    as Sound.new hrun
  rw [and_iff_right (by exact nofun)] at hiff
  rw [← hiff]
  refine imp_congr_right fun hclosed => ?_
  have horder := hsound.inOrder rfl
  have hrows : e.listener.rows = [] := by
    cases hlistener : e.listener with
    | closed => rfl
    | _ =>
      rw [hlistener] at hclosed
      cases hclosed
  rw [hrows, List.append_nil] at horder
  rw [horder]
  constructor
  · intro heq
    exact List.append_right_eq_self.mp heq.symm
  · intro hdata
    rw [hdata, List.append_nil]

theorem each_reports_every_row_sample :
    (∃ e, (machine Nat true true).run new (Sample.lateRow false) = some e ∧
      (machine Nat true true).Meets LooksInTime new (Sample.lateRow false) ∧
      e.completions = [2]) ∧
    ∃ e, (machine Nat true true).run new (Sample.lateRow true) = some e ∧
      ¬ (machine Nat true true).Meets LooksInTime new (Sample.lateRow true) ∧
      (e.found, e.completions) = ([1, 2], [1]) := by
  constructor
  · obtain ⟨e, hrun, hdelivered, hcompletions⟩ : ∃ e,
        (machine Nat true true).run new (Sample.lateRow false) = some e ∧
        e.delivered = e.found ∧ e.completions = [2] := ⟨_, rfl, rfl, rfl⟩
    exact ⟨e, hrun, (each_reports_every_row true _ hrun).mp fun _ => hdelivered, hcompletions⟩
  · obtain ⟨e, hrun, hclosed, hdelivered, hsame⟩ : ∃ e,
        (machine Nat true true).run new (Sample.lateRow true) = some e ∧
        e.listener.isClosed = true ∧ e.delivered = [1] ∧
        (e.found, e.completions) = ([1, 2], [1]) := ⟨_, rfl, rfl, rfl, rfl⟩
    refine ⟨e, hrun, fun hmeets => ?_, hsame⟩
    have hall := (each_reports_every_row true _ hrun).mpr hmeets hclosed
    have hfound : e.found = [1, 2] := congrArg Prod.fst hsame
    rw [hdelivered, hfound] at hall
    cases hall

end EachRows

end AlmondAndroid.Storage
