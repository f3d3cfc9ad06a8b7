import AlmondAndroid.App.StreamPool

/-!
# When the pool of streams gets stuck

Streams of content alone always go on: a task that forwards one waits for no other task.
With one image the reader of its pipe is left waiting for an end that does not come, and
six large ones fill the pool before any of their readers has a thread.
-/

namespace AlmondAndroid.App

open Library Bridge

namespace StreamPool

/-! ## Streams of content alone -/

/-- The calls that come before one which ends the process. -/
def survivable (requests : List StreamRequest) : List StreamRequest :=
  requests.takeWhile (· ≠ .toStream none)

def IsContent (task : Task) : Prop := ∃ handle, task = .getStream handle

def ContentWorkers (s : StreamPool) : Prop :=
  ∀ w r, s.running w = some r → ∃ handle closing, r = .getStream handle closing

structure ContentOnly (s : StreamPool) : Prop where
  requests : ∀ r ∈ survivable s.requests, r = .getStream
  queue : ∀ task ∈ s.queue, IsContent task
  workers : ContentWorkers s

/-- A task is going to end the process, and nothing that it waits for can block. -/
inductive Doomed (s : StreamPool) : Prop
  | queued {front back : List Task} {handle : Handle} :
      s.queue = front ++ .toStream handle none :: back → (∀ task ∈ front, IsContent task) →
      ContentWorkers s → Doomed s
  | running {w : Fin 6} {handle : Handle} :
      s.running w = some (.toStream handle none) ∨ s.running w = some (.compress handle none) →
      Doomed s

theorem ContentWorkers.setRunning {s : StreamPool} (h : ContentWorkers s) (w : Fin 6)
    {r : Option Running} (hr : ∀ x, r = some x → ∃ handle closing, x = .getStream handle closing) :
    ContentWorkers (s.setRunning w r) := by
  intro v x hx
  by_cases hv : v = w
  · rw [hv, running_self] at hx
    exact hr x hx
  · rw [running_of_ne hv] at hx
    exact h v x hx

theorem ContentWorkers.taken {s : StreamPool} (h : ContentWorkers s) (w : Fin 6) (handle : Handle) :
    ContentWorkers (s.setRunning w (some (Task.getStream handle).start)) :=
  h.setRunning w fun _ hx => ⟨handle, false, (Option.some.inj hx).symm⟩

theorem ContentWorkers.proceeds {s : StreamPool} (h : ContentWorkers s) {w : Fin 6} {r : Running}
    {next : Option Running} (hw : s.running w = some r) (hnext : Proceeds r next) :
    ContentWorkers (s.setRunning w next) := by
  obtain ⟨handle, closing, rfl⟩ := h w r hw
  refine h.setRunning w fun x hx => ?_
  cases hnext with
  | getStream => exact ⟨_, _, (Option.some.inj hx).symm⟩
  | closed => cases hx

/-- A task that runs can read or close, and one that waits can be taken if none runs. -/
theorem ContentWorkers.not_stuck {s : StreamPool} (h : ContentWorkers s) : ¬ Stuck s := by
  rintro ⟨hunfinished, hstuck⟩
  by_cases hidle : ∀ w, s.running w = none
  · have hqueue : s.queue ≠ [] := hunfinished.resolve_right fun ⟨w, hw⟩ => hw (hidle w)
    obtain ⟨task, queue, hqueue⟩ := List.exists_cons_of_ne_nil hqueue
    have htake := hstuck (.take 0) (by simp)
    rw [step, take, hidle 0, hqueue] at htake
    cases htake
  · obtain ⟨w, hw⟩ := not_forall.mp hidle
    obtain ⟨r, hr⟩ := Option.ne_none_iff_exists'.mp hw
    obtain ⟨handle, closing, rfl⟩ := h w r hr
    cases closing with
    | false =>
      have hread := hstuck (.read w .endOfStream) (by simp)
      rw [step, hr] at hread
      cases hread
    | true =>
      have hclose := hstuck (.close w none) (by simp)
      rw [step, hr] at hclose
      cases hclose

theorem Doomed.not_stuck {s : StreamPool} (h : Doomed s) : ¬ Stuck s := by
  cases h with
  | queued _ _ hworkers => exact hworkers.not_stuck
  | @running w handle hw =>
    rintro ⟨-, hstuck⟩
    rcases hw with hw | hw
    · have hconnect := hstuck (.connect w) (by simp)
      rw [step, hw] at hconnect
      cases hconnect
    · have hthrows := hstuck (.throws w) (by simp)
      rw [step, hw] at hthrows
      cases hthrows

theorem throws_contentOnly (s : StreamPool) : ContentOnly s.throws :=
  ⟨fun _ hr => (nomatch hr), fun _ htask => (nomatch htask), fun _ _ hr => (nomatch hr)⟩

theorem ContentOnly.does {s t : StreamPool} (h : ContentOnly s) (hdoes : Does s t) :
    ContentOnly t ∨ Doomed t := by
  cases hdoes with
  | @request r requests hrequests =>
    have hall := h.requests
    rw [hrequests] at hall
    by_cases hr : r = .toStream none
    · rw [hr]
      exact .inr (.queued rfl h.queue h.workers)
    · have hsurvivable : survivable (r :: requests) = r :: survivable requests :=
        List.takeWhile_cons_of_pos (decide_eq_true hr)
      rw [hsurvivable] at hall
      rw [hall r (List.mem_cons_self ..)]
      refine .inl ⟨fun r hr => hall r (List.mem_cons_of_mem _ hr), fun task htask => ?_, h.workers⟩
      rcases List.mem_append.mp htask with htask | htask
      · exact h.queue task htask
      · exact ⟨_, List.mem_singleton.mp htask⟩
  | @take w task queue hw hqueue =>
    have hall := h.queue
    rw [hqueue] at hall
    obtain ⟨handle, rfl⟩ := hall task (List.mem_cons_self ..)
    exact .inl ⟨h.requests, fun task htask => hall task (List.mem_cons_of_mem _ htask),
      h.workers.taken w handle⟩
  | connect hw =>
    obtain ⟨handle, closing, hr⟩ := h.workers _ _ hw
    cases hr
  | proceeds hw hnext => exact .inl ⟨h.requests, h.queue, h.workers.proceeds hw hnext⟩
  | throws hw => exact .inl (throws_contentOnly s)

theorem Doomed.does {s t : StreamPool} (h : Doomed s) (hdoes : Does s t) :
    ContentOnly t ∨ Doomed t := by
  cases h with
  | @queued front back handle hqueue hfront hworkers =>
    cases hdoes with
    | @request r requests hrequests =>
      have happend : ∀ task, s.queue ++ [task] =
          front ++ .toStream handle none :: (back ++ [task]) := by
        intro task
        rw [hqueue, List.append_assoc]
        rfl
      rw [request_eq]
      exact .inr (.queued (happend _) hfront hworkers)
    | @take w task queue hw htask =>
      rw [hqueue] at htask
      cases front with
      | nil =>
        cases htask
        exact .inr (.running (.inl (running_self ..)))
      | cons first front =>
        obtain ⟨rfl, rfl⟩ := List.cons.inj htask
        obtain ⟨content, rfl⟩ := hfront first (List.mem_cons_self ..)
        exact .inr (.queued rfl (fun task htask => hfront task (List.mem_cons_of_mem _ htask))
          (hworkers.taken w content))
    | connect hw =>
      obtain ⟨handle, closing, hr⟩ := hworkers _ _ hw
      cases hr
    | proceeds hw hnext => exact .inr (.queued hqueue hfront (hworkers.proceeds hw hnext))
    | throws hw => exact .inl (throws_contentOnly s)
  | @running w handle hrunning =>
    have hother : ∀ {v : Fin 6} (r : Option Running), w ≠ v → ∀ u : StreamPool,
        u.workers = s.workers → Doomed (u.setRunning v r) := by
      intro v r hne u hu
      have hsame : (u.setRunning v r).running w = s.running w :=
        (running_of_ne hne u r).trans (congrFun hu w)
      rw [← hsame] at hrunning
      exact .running hrunning
    cases hdoes with
    | @request r requests hrequests =>
      rw [request_eq]
      exact .inr (.running hrunning)
    | @take v task queue hv htask =>
      refine .inr (hother _ ?_ _ rfl)
      rintro rfl
      rcases hrunning with hw | hw
      · rw [hv] at hw
        cases hw
      · rw [hv] at hw
        cases hw
    | @connect v other compressed hv =>
      by_cases hvw : w = v
      · rw [← hvw] at hv ⊢
        rcases hrunning with hw | hw
        · rw [hv] at hw
          cases hw
          exact .inr (.running (.inr (running_self ..)))
        · rw [hv] at hw
          cases hw
      · exact .inr (hother _ hvw _ rfl)
    | @proceeds v r next pipes sent hv hnext =>
      refine .inr (hother _ ?_ _ rfl)
      rintro rfl
      rcases hrunning with hw | hw
      · rw [hv] at hw
        cases hw
        cases hnext
      · rw [hv] at hw
        cases hw
        cases hnext
    | throws hw => exact .inl (throws_contentOnly s)

/-! ## The reader of a pipe -/

variable {requests : List StreamRequest}

structure Idle (s : StreamPool) : Prop where
  queue : s.queue = []
  workers : ∀ w, s.running w = none

structure Feeding (s : StreamPool) (handle : Handle) (rest : List UInt8) : Prop where
  queue : s.queue = []
  compress : s.running 0 = some (.compress handle (some rest))
  forward : s.running 1 = some (.forward handle)
  others : ∀ w, w ≠ 0 → w ≠ 1 → s.running w = none
  buffer : (s.pipes handle.stream).buffer = []

/-- The reader of an empty pipe is all that is left. -/
structure Starved (s : StreamPool) (handle : Handle) : Prop where
  queue : s.queue = []
  forward : s.running 1 = some (.forward handle)
  others : ∀ w, w ≠ 1 → s.running w = none
  buffer : (s.pipes handle.stream).buffer = []

theorem Starved.stuck {s : StreamPool} {handle : Handle} (h : Starved s handle) : Stuck s := by
  have hrunning : ∀ w, s.running w = none ∨ s.running w = some (.forward handle) := by
    intro w
    by_cases hw : w = 1
    · exact .inr (hw ▸ h.forward)
    · exact .inl (h.others w hw)
  refine ⟨.inr ⟨1, h.forward ▸ Option.some_ne_none _⟩, fun a ha => ?_⟩
  cases a with
  | request => exact (ha rfl).elim
  | take w =>
    rw [StreamPool.step, take, h.queue]
    rcases hrunning w with hw | hw
    · rw [hw]
    · rw [hw]
  | readPipe w =>
    rw [StreamPool.step]
    rcases hrunning w with hw | hw
    · rw [hw]
    · rw [hw]
      dsimp only
      rw [readPipe, Pipe.read_of_nil h.buffer]
      rfl
  | read w | close w | connect w | write w | returns w | throws w =>
    rw [StreamPool.step]
    rcases hrunning w with hw | hw
    · rw [hw]
    · rw [hw]

theorem reachable_step {s t : StreamPool} {a : Action} (hs : (machine requests).Reachable s)
    (hstep : step s a = some t) : (machine requests).Reachable t := by
  have hstep : (machine requests).step s a = some t := hstep
  exact hs.step hstep

theorem step_request {s : StreamPool} {r : StreamRequest} {rest : List StreamRequest}
    (h : s.requests = r :: rest) :
    step s .request = some ({ s with requests := rest }.request r) := by
  rw [StreamPool.step, h]

theorem step_take {s : StreamPool} (w : Fin 6) {task : Task} {queue : List Task}
    (hrunning : s.running w = none) (hqueue : s.queue = task :: queue) :
    step s (.take w) = some ({ s with queue := queue }.setRunning w (some task.start)) := by
  rw [StreamPool.step, take, hrunning, hqueue]

theorem step_read_endOfStream {s : StreamPool} (w : Fin 6) {handle : Handle}
    (hrunning : s.running w = some (.getStream handle false)) :
    step s (.read w .endOfStream) =
      some ((s.sendEnd handle).setRunning w (some (.getStream handle true))) := by
  rw [StreamPool.step, hrunning]
  rfl

theorem step_close {s : StreamPool} (w : Fin 6) {handle : Handle}
    (hrunning : s.running w = some (.getStream handle true)) :
    step s (.close w none) = some (s.setRunning w none) := by
  rw [StreamPool.step, hrunning]
  rfl

theorem step_connect {s : StreamPool} (w : Fin 6) {handle : Handle}
    {compressed : Option (List UInt8)}
    (hrunning : s.running w = some (.toStream handle compressed)) :
    step s (.connect w) = some (s.connect w handle compressed) := by
  rw [StreamPool.step, hrunning]

theorem step_write {s : StreamPool} (w : Fin 6) {handle : Handle} {rest : List UInt8} {n : Nat}
    (hrunning : s.running w = some (.compress handle (some rest))) (hpos : 0 < n)
    (hle : n ≤ rest.length)
    (hfits : ((s.pipes handle.stream).buffer ++ rest.take n).length ≤ pipeSize) :
    step s (.write w n) =
      some ((s.setPipe handle.stream ⟨(s.pipes handle.stream).buffer ++ rest.take n,
        hfits⟩).setRunning w
          (some (.compress handle (some (rest.drop n))))) := by
  rw [StreamPool.step, hrunning]
  dsimp only
  rw [if_pos ⟨hpos, hle⟩, write, Pipe.receive_of_fits hfits]
  rfl

theorem step_readPipe {s : StreamPool} (w : Fin 6) {handle : Handle} {byte : UInt8}
    {bytes : List UInt8} (hrunning : s.running w = some (.forward handle))
    (hbuffer : (s.pipes handle.stream).buffer = byte :: bytes) :
    step s (.readPipe w) =
      some ((s.setPipe handle.stream .new).push handle (byte :: bytes)) := by
  rw [StreamPool.step, hrunning]
  dsimp only
  rw [readPipe, Pipe.read_of_cons hbuffer]
  rfl

theorem Idle.take {s : StreamPool} (hs : (machine requests).Reachable s) (h : Idle s)
    {r : StreamRequest} {rest : List StreamRequest} (hrequests : s.requests = r :: rest) :
    ∃ t handle, (machine requests).Reachable t ∧ t.requests = rest ∧ t.queue = [] ∧
      t.running 0 = some (taskOf handle r).start ∧ ∀ w, w ≠ 0 → t.running w = none := by
  have hsubmitted := reachable_step hs (step_request hrequests)
  rw [request_eq] at hsubmitted
  have hqueue : s.queue ++ [taskOf ⟨s.created, s.counter + 1⟩ r] = [taskOf _ r] :=
    congrArg (· ++ [taskOf ⟨s.created, s.counter + 1⟩ r]) h.queue
  have htaken := reachable_step hsubmitted (step_take 0 (h.workers 0) hqueue)
  exact ⟨_, _, htaken, rfl, rfl, running_self .., fun w hw =>
    (running_of_ne hw ..).trans (h.workers w)⟩

theorem Idle.getStream {s : StreamPool} (hs : (machine requests).Reachable s) (h : Idle s)
    {rest : List StreamRequest} (hrequests : s.requests = .getStream :: rest) :
    ∃ t, (machine requests).Reachable t ∧ Idle t ∧ t.requests = rest := by
  obtain ⟨u, handle, hu, hrest, hqueue, htask, hothers⟩ := h.take hs hrequests
  have hread := reachable_step hu (step_read_endOfStream 0 htask)
  have hclosed := reachable_step hread (step_close 0 (running_self ..))
  refine ⟨_, hclosed, ⟨hqueue, fun w => ?_⟩, hrest⟩
  by_cases hw : w = 0
  · rw [hw]
    exact running_self ..
  · rw [running_of_ne hw, running_of_ne hw]
    exact hothers w hw

theorem Idle.getStreams (front : List StreamRequest) :
    ∀ {s : StreamPool}, (machine requests).Reachable s → Idle s →
      (∀ r ∈ front, r = .getStream) → ∀ {back}, s.requests = front ++ back →
      ∃ t, (machine requests).Reachable t ∧ Idle t ∧ t.requests = back := by
  induction front with
  | nil => exact fun hs h _ _ hrequests => ⟨_, hs, h, hrequests⟩
  | cons r front ih =>
    intro s hs h hfront back hrequests
    cases hfront r (List.mem_cons_self ..)
    obtain ⟨t, ht, hidle, hrest⟩ := h.getStream hs hrequests
    exact ih ht hidle (fun r hr => hfront r (List.mem_cons_of_mem _ hr)) hrest

theorem Idle.toStream {s : StreamPool} (hs : (machine requests).Reachable s) (h : Idle s)
    {bytes : List UInt8} {rest : List StreamRequest}
    (hrequests : s.requests = .toStream (some bytes) :: rest) :
    ∃ t handle, (machine requests).Reachable t ∧ Feeding t handle bytes := by
  obtain ⟨u, handle, hu, -, hqueue, htask, hothers⟩ := h.take hs hrequests
  have hconnected := reachable_step hu (step_connect 0 htask)
  have hqueue' : (u.connect 0 handle (some bytes)).queue = [.forward handle] :=
    congrArg (· ++ [Task.forward handle]) hqueue
  have hidle : ∀ w, w ≠ 0 → (u.connect 0 handle (some bytes)).running w = none := fun w hw =>
    (connect_running_of_ne hw ..).trans (hothers w hw)
  have hreader := reachable_step hconnected (step_take 1 (hidle 1 (by decide)) hqueue')
  refine ⟨_, handle, hreader, rfl, ?_, running_self .., fun w h0 h1 => ?_, ?_⟩
  · have hcompress := connect_running_self u 0 handle (some bytes)
    exact (running_of_ne (by decide) ..).trans hcompress
  · exact (running_of_ne h1 ..).trans (hidle w h0)
  · exact congrArg Pipe.buffer (pipes_setPipe ..)

theorem Feeding.write {s : StreamPool} (hs : (machine requests).Reachable s) {handle : Handle}
    {byte : UInt8} {bytes : List UInt8} (h : Feeding s handle (byte :: bytes)) :
    ∃ t, (machine requests).Reachable t ∧ Feeding t handle bytes := by
  have hfits : ((s.pipes handle.stream).buffer ++ (byte :: bytes).take 1).length ≤ pipeSize := by
    rw [h.buffer]
    exact (by decide : 1 ≤ pipeSize)
  have hwritten := reachable_step hs
    (step_write 0 h.compress Nat.one_pos (Nat.le_add_left 1 bytes.length) hfits)
  have hbuffer : (s.pipes handle.stream).buffer ++ (byte :: bytes).take 1 = [byte] := by
    rw [h.buffer]
    rfl
  have hread := reachable_step hwritten (step_readPipe 1
    ((running_of_ne (by decide) ..).trans h.forward)
    ((congrArg Pipe.buffer (pipes_setPipe ..)).trans hbuffer))
  refine ⟨_, hread, ⟨h.queue, ?_, ?_, fun w h0 h1 => ?_, ?_⟩⟩
  · rw [running_push, running_setPipe]
    exact running_self ..
  · rw [running_push, running_setPipe, running_of_ne (by decide)]
    exact h.forward
  · rw [running_push, running_setPipe, running_of_ne h0]
    exact h.others w h0 h1
  · exact congrArg Pipe.buffer (pipes_setPipe ..)

theorem Feeding.writeAll {handle : Handle} (bytes : List UInt8) :
    ∀ {s : StreamPool}, (machine requests).Reachable s → Feeding s handle bytes →
      ∃ t, (machine requests).Reachable t ∧ Feeding t handle [] := by
  induction bytes with
  | nil => exact fun hs h => ⟨_, hs, h⟩
  | cons byte bytes ih =>
    intro s hs h
    obtain ⟨t, ht, hfeeding⟩ := h.write hs
    exact ih ht hfeeding

theorem Feeding.returns {s : StreamPool} (hs : (machine requests).Reachable s) {handle : Handle}
    (h : Feeding s handle []) :
    ∃ t, (machine requests).Reachable t ∧ Starved t handle := by
  have hstep : step s (.returns 0) = some (s.setRunning 0 none) := by
    rw [StreamPool.step, h.compress]
  refine ⟨_, reachable_step hs hstep, h.queue, ?_, ?_, h.buffer⟩
  · exact (running_of_ne (by decide) ..).trans h.forward
  · intro w h1
    by_cases h0 : w = 0
    · rw [h0]
      exact running_self ..
    · exact (running_of_ne h0 ..).trans (h.others w h0 h1)

/-- One image is enough: its reader never comes to an end. -/
theorem Idle.starves {s : StreamPool} (hs : (machine requests).Reachable s) (h : Idle s)
    {bytes : List UInt8} {rest : List StreamRequest}
    (hrequests : s.requests = .toStream (some bytes) :: rest) :
    ∃ t handle, (machine requests).Reachable t ∧ Starved t handle := by
  obtain ⟨t, handle, ht, hfeeding⟩ := h.toStream hs hrequests
  obtain ⟨u, hu, hwritten⟩ := hfeeding.writeAll bytes ht
  obtain ⟨v, hv, hstarved⟩ := hwritten.returns hu
  exact ⟨v, handle, hv, hstarved⟩

theorem exists_toStream (requests : List StreamRequest)
    (h : ¬ ∀ r ∈ survivable requests, r = .getStream) : ∃ front bytes back,
      requests = front ++ .toStream (some bytes) :: back ∧ ∀ r ∈ front, r = .getStream := by
  induction requests with
  | nil => exact (h fun _ hr => (nomatch hr)).elim
  | cons r requests ih =>
    cases r with
    | getStream =>
      have hrest : ¬ ∀ r ∈ survivable requests, r = .getStream := fun hall =>
        h (List.forall_mem_cons.mpr ⟨rfl, hall⟩)
      obtain ⟨front, bytes, back, rfl, hfront⟩ := ih hrest
      exact ⟨.getStream :: front, bytes, back, rfl, List.forall_mem_cons.mpr ⟨rfl, hfront⟩⟩
    | toStream compressed =>
      cases compressed with
      | none => exact (h fun _ hr => (nomatch hr)).elim
      | some bytes => exact ⟨[], bytes, requests, rfl, fun _ hr => (nomatch hr)⟩

theorem idle_initial (requests : List StreamRequest) : Idle (initial requests) :=
  ⟨rfl, fun _ => rfl⟩

/-- The pool gets stuck in some run exactly if an image is compressed: if a call of
`toStream` comes before the first one that ends the process. -/
theorem deadlockFree_iff (requests : List StreamRequest) :
    (∀ s, (machine requests).Reachable s → ¬ Stuck s) ↔
      ∀ r ∈ survivable requests, r = .getStream := by
  constructor
  · intro hfree
    by_contra hnot
    obtain ⟨front, bytes, back, rfl, hfront⟩ := exists_toStream requests hnot
    obtain ⟨t, ht, hidle, hrest⟩ :=
      (idle_initial _).getStreams front (.start rfl) hfront rfl
    obtain ⟨u, handle, hu, hstarved⟩ := hidle.starves ht hrest
    exact hfree u hu hstarved.stuck
  · intro hall s hs
    have hboth : ContentOnly s ∨ Doomed s := by
      refine hs.invariant (fun s => ContentOnly s ∨ Doomed s) ?_ fun s a t h hstep =>
        h.elim (fun h => h.does (step_does hstep)) fun h => h.does (step_does hstep)
      rintro s rfl
      exact .inl ⟨hall, fun _ htask => (nomatch htask), fun _ _ hr => (nomatch hr)⟩
    exact hboth.elim (fun h => h.workers.not_stuck) Doomed.not_stuck

/-! ## Six images at once -/

/-- Every thread waits for room in a pipe whose reader has no thread. -/
structure Full (s : StreamPool) : Prop where
  queue : s.queue ≠ []
  workers : ∀ w, ∃ handle byte rest,
    s.running w = some (.compress handle (some (byte :: rest))) ∧
    (s.pipes handle.stream).buffer.length = pipeSize

theorem Full.stuck {s : StreamPool} (h : Full s) : Stuck s := by
  refine ⟨.inl h.queue, fun a ha => ?_⟩
  cases a with
  | request => exact (ha rfl).elim
  | take w =>
    obtain ⟨handle, byte, rest, hw, -⟩ := h.workers w
    rw [StreamPool.step, take, hw]
  | write w n =>
    obtain ⟨handle, byte, rest, hw, hfull⟩ := h.workers w
    rw [StreamPool.step, hw]
    dsimp only
    split
    · rename_i hn
      have hdata : 0 < ((byte :: rest).take n).length := by
        rw [List.length_take]
        omega
      rw [StreamPool.write, Pipe.receive_of_full hfull hdata]
      rfl
    · rfl
  | read w | close w | connect w | returns w | throws w | readPipe w =>
    obtain ⟨handle, byte, rest, hw, -⟩ := h.workers w
    rw [StreamPool.step, hw]

/-- Six images that do not fit the pipes are called for, and each has a thread before any
of their readers is submitted. -/
def sixWriters : List Action :=
  [.request, .request, .request, .request, .request, .request, .take 0, .take 1, .take 2, .take 3,
    .take 4, .take 5, .connect 0, .connect 1, .connect 2, .connect 3, .connect 4, .connect 5]

def sixImages (bytes : List UInt8) : List StreamRequest :=
  List.replicate 6 (.toStream (some bytes))

structure Filling (s : StreamPool) (bytes : List UInt8) (k : Nat) : Prop where
  queue : s.queue ≠ []
  full : ∀ w : Fin 6, w.val < k → ∃ token,
    s.running w = some (.compress ⟨w, token⟩ (some (bytes.drop pipeSize))) ∧
    (s.pipes w).buffer.length = pipeSize
  empty : ∀ w : Fin 6, k ≤ w.val → ∃ token,
    s.running w = some (.compress ⟨w, token⟩ (some bytes)) ∧ (s.pipes w).buffer = []

theorem filling_start (bytes : List UInt8) :
    ∃ s, (machine (sixImages bytes)).Reachable s ∧ Filling s bytes 0 := by
  have hrun : (machine (sixImages bytes)).run (initial (sixImages bytes)) sixWriters =
      some _ := rfl
  refine ⟨_, Machine.Reachable.run (.start rfl) hrun, nofun, ?_, ?_⟩
  · exact fun w hw => (Nat.not_lt_zero _ hw).elim
  · intro w _
    match w with
    | 0 => exact ⟨_, rfl, rfl⟩
    | 1 => exact ⟨_, rfl, rfl⟩
    | 2 => exact ⟨_, rfl, rfl⟩
    | 3 => exact ⟨_, rfl, rfl⟩
    | 4 => exact ⟨_, rfl, rfl⟩
    | 5 => exact ⟨_, rfl, rfl⟩

theorem Filling.next (k : Fin 6) {s : StreamPool} (hs : (machine requests).Reachable s)
    {bytes : List UInt8} (hlarge : pipeSize < bytes.length) (h : Filling s bytes k) :
    ∃ t, (machine requests).Reachable t ∧ Filling t bytes (k + 1) := by
  obtain ⟨token, hrunning, hbuffer⟩ := h.empty k (Nat.le_refl _)
  have hlength : ((s.pipes k).buffer ++ bytes.take pipeSize).length = pipeSize := by
    rw [hbuffer, List.nil_append, List.length_take]
    exact Nat.min_eq_left (Nat.le_of_lt hlarge)
  have hwritten := reachable_step hs
    (step_write k hrunning (by decide) (Nat.le_of_lt hlarge) (Nat.le_of_eq hlength))
  have hother : ∀ w : Fin 6, w ≠ k → ∀ pipe, (s.setPipe k pipe).pipes w = s.pipes w :=
    fun w hw pipe => Function.update_of_ne (fun heq => hw (Fin.ext heq)) _ _
  refine ⟨_, hwritten, h.queue, fun w hw => ?_, fun w hw => ?_⟩
  · by_cases hk : w = k
    · rw [hk]
      refine ⟨token, running_self .., ?_⟩
      exact (congrArg (List.length ∘ Pipe.buffer) (pipes_setPipe ..)).trans hlength
    · obtain ⟨token, hrunning, hfull⟩ := h.full w (by omega)
      refine ⟨token, (running_of_ne hk ..).trans hrunning, ?_⟩
      exact (congrArg (List.length ∘ Pipe.buffer) (hother w hk _)).trans hfull
  · have hk : w ≠ k := fun heq => by omega
    obtain ⟨token, hrunning, hempty⟩ := h.empty w (by omega)
    refine ⟨token, (running_of_ne hk ..).trans hrunning, ?_⟩
    exact (congrArg Pipe.buffer (hother w hk _)).trans hempty

theorem filling {bytes : List UInt8} (hlarge : pipeSize < bytes.length) :
    ∀ k, k ≤ 6 → ∃ s, (machine (sixImages bytes)).Reachable s ∧ Filling s bytes k := by
  intro k
  induction k with
  | zero => exact fun _ => filling_start bytes
  | succ k ih =>
    intro hk
    obtain ⟨s, hs, h⟩ := ih (Nat.le_of_succ_le hk)
    exact Filling.next ⟨k, hk⟩ hs hlarge h

theorem six_writers_full {bytes : List UInt8} (hlarge : pipeSize < bytes.length) :
    ∃ s, (machine (sixImages bytes)).Reachable s ∧ Full s := by
  obtain ⟨s, hs, h⟩ := filling hlarge 6 (Nat.le_refl 6)
  have hdrop : bytes.drop pipeSize ≠ [] := by
    rw [ne_eq, List.drop_eq_nil_iff]
    exact Nat.not_le_of_lt hlarge
  obtain ⟨byte, rest, hrest⟩ := List.exists_cons_of_ne_nil hdrop
  refine ⟨s, hs, h.queue, fun w => ?_⟩
  obtain ⟨token, hrunning, hfull⟩ := h.full w w.isLt
  rw [hrest] at hrunning
  exact ⟨_, byte, rest, hrunning, hfull⟩

theorem pool_deadlock : ¬ ∀ requests s, (machine requests).Reachable s → ¬ Stuck s := by
  intro h
  have hlarge : pipeSize < (List.replicate 1025 (0 : UInt8)).length := by
    rw [List.length_replicate]
    decide
  obtain ⟨s, hs, hfull⟩ := six_writers_full hlarge
  exact h _ s hs hfull.stuck

end StreamPool

end AlmondAndroid.App
