import AlmondAndroid.App.StreamDeadlock

/-!
# The stream of an image

`toStream` gives the read end of a pipe to a second task and compresses the image into
the write end, which it never closes. So what the stream sends are data and nothing
else: its end is not reported, nor is a format that is not supported.
-/

namespace AlmondAndroid.App

open Library Bridge

def Task.handle : Task → Handle
  | getStream handle => handle
  | toStream handle _ => handle
  | forward handle => handle

def Running.handle : Running → Handle
  | getStream handle _ => handle
  | toStream handle _ => handle
  | compress handle _ => handle
  | forward handle => handle

def Task.Serves (r : StreamRequest) : Task → Prop
  | getStream _ => r = .getStream
  | toStream _ compressed => r = .toStream compressed
  | forward _ => ∃ compressed, r = .toStream compressed

def Running.Serves (r : StreamRequest) : Running → Prop
  | getStream _ _ => r = .getStream
  | toStream _ compressed => r = .toStream compressed
  | compress _ _ => ∃ compressed, r = .toStream compressed
  | forward _ => ∃ compressed, r = .toStream compressed

theorem Task.start_serves {r : StreamRequest} {task : Task} (h : task.Serves r) :
    task.start.Serves r := by
  cases task with
  | getStream => exact h
  | toStream => exact h
  | forward => exact h

theorem Task.start_handle (task : Task) : task.start.handle = task.handle := by
  cases task with
  | getStream => rfl
  | toStream => rfl
  | forward => rfl

namespace StreamPool

def callsOf (s : StreamPool) (i : Nat) : List StreamCall :=
  (s.sent.filter (·.stream = i)).map SentCall.call

structure TasksFinished (s : StreamPool) (i : Nat) : Prop where
  queue : ∀ task ∈ s.queue, task.handle.stream ≠ i
  workers : ∀ w r, s.running w = some r → r.handle.stream ≠ i

/-- How the stream of an image has to end. -/
def EndsWith (compressed : Option (List UInt8)) (token : Token) (delivered : List UInt8)
    (last : StreamCall) : Prop :=
  match compressed with
  | some bytes => last = .onstreamend token ∧ delivered = bytes
  | none => ∃ e, last = .onstreamerror token e

structure Terminated (s : StreamPool) (i : Nat) (compressed : Option (List UInt8)) : Prop where
  calls : ∃ (token : Token) (chunks : List (List UInt8)) (last : StreamCall), s.callsOf i =
      chunks.map (fun data => .onstreamdata token (encodeToString data)) ++ [last] ∧
    EndsWith compressed token chunks.flatten last
  tasks : TasksFinished s i

/-! ## Which task belongs to which request -/

variable {requests : List StreamRequest}

theorem taskOf_serves (handle : Handle) (r : StreamRequest) : (taskOf handle r).Serves r := by
  cases r with
  | getStream => rfl
  | toStream => rfl

theorem taskOf_handle (handle : Handle) (r : StreamRequest) :
    (taskOf handle r).handle = handle := by
  cases r with
  | getStream => rfl
  | toStream => rfl

theorem Proceeds.serves {r : StreamRequest} {running next : Running}
    (h : Proceeds running (some next)) (hserves : running.Serves r) :
    next.Serves r ∧ next.handle = running.handle := by
  cases h with
  | getStream => exact ⟨hserves, rfl⟩
  | compress => exact ⟨hserves, rfl⟩
  | forward => exact ⟨hserves, rfl⟩

structure Numbered (requests : List StreamRequest) (s : StreamPool) : Prop where
  pending : s.requests <+: requests.drop s.created
  queue : ∀ task ∈ s.queue, ∃ r, requests[task.handle.stream]? = some r ∧ task.Serves r
  workers : ∀ w running, s.running w = some running →
    ∃ r, requests[running.handle.stream]? = some r ∧ running.Serves r

theorem Numbered.setRunning {s : StreamPool} (h : Numbered requests s) (w : Fin 6)
    {next : Option Running} (hnext : ∀ running, next = some running →
      ∃ r, requests[running.handle.stream]? = some r ∧ running.Serves r) :
    Numbered requests (s.setRunning w next) := by
  refine ⟨h.pending, h.queue, fun v running hv => ?_⟩
  by_cases hvw : v = w
  · rw [hvw, running_self] at hv
    exact hnext running hv
  · rw [running_of_ne hvw] at hv
    exact h.workers v running hv

theorem Numbered.does {s t : StreamPool} (h : Numbered requests s) (hdoes : Does s t) :
    Numbered requests t := by
  cases hdoes with
  | @request r rest hrequests =>
    have hprefix := h.pending
    rw [hrequests] at hprefix
    obtain ⟨back, hback⟩ := hprefix
    have hget : requests[s.created]? = some r := by
      have hzero := congrArg (·[0]?) hback
      rw [List.getElem?_drop] at hzero
      exact hzero.symm
    rw [request_eq]
    refine ⟨⟨back, ?_⟩, fun task htask => ?_, h.workers⟩
    · rw [← List.tail_drop, ← hback]
      rfl
    · rcases List.mem_append.mp htask with htask | htask
      · exact h.queue task htask
      · rw [List.mem_singleton.mp htask, taskOf_handle]
        exact ⟨r, hget, taskOf_serves ..⟩
  | @take w task queue hw hqueue =>
    have hall := h.queue
    rw [hqueue] at hall
    have hrest : Numbered requests { s with queue := queue } :=
      ⟨h.pending, fun task htask => hall task (List.mem_cons_of_mem _ htask), h.workers⟩
    refine hrest.setRunning w fun running hrunning => ?_
    cases hrunning
    obtain ⟨r, hget, hserves⟩ := hall task (List.mem_cons_self ..)
    exact ⟨r, task.start_handle.symm ▸ hget, Task.start_serves hserves⟩
  | @connect w handle compressed hw =>
    obtain ⟨r, hget, hserves⟩ := h.workers w _ hw
    have hsubmitted :
        Numbered requests ((s.setPipe handle.stream .new).execute (.forward handle)) := by
      refine ⟨h.pending, fun task htask => ?_, h.workers⟩
      rcases List.mem_append.mp htask with htask | htask
      · exact h.queue task htask
      · rw [List.mem_singleton.mp htask]
        exact ⟨r, hget, compressed, hserves⟩
    refine hsubmitted.setRunning w fun running hrunning => ?_
    cases hrunning
    exact ⟨r, hget, compressed, hserves⟩
  | @proceeds w running next pipes sent hw hnext =>
    have hsame : Numbered requests { s with pipes := pipes, sent := sent } :=
      ⟨h.pending, h.queue, h.workers⟩
    refine hsame.setRunning w fun running' hrunning => ?_
    obtain ⟨r, hget, hserves⟩ := h.workers w running hw
    rw [hrunning] at hnext
    obtain ⟨hserves', hhandle⟩ := hnext.serves hserves
    exact ⟨r, hhandle.symm ▸ hget, hserves'⟩
  | throws hw =>
    exact ⟨List.nil_prefix, List.forall_mem_nil _, fun w running hrunning => by cases hrunning⟩

theorem numbered {s : StreamPool} (h : (machine requests).Reachable s) : Numbered requests s := by
  refine h.invariant _ ?_ fun s a t hs hstep => hs.does (step_does hstep)
  rintro s rfl
  exact ⟨List.prefix_refl _, List.forall_mem_nil _, fun w running hrunning => by cases hrunning⟩

/-! ## What the tasks send -/

def Sends : Running → StreamCall → Prop
  | .getStream _ _, _ => True
  | .forward _, call => ¬ call.IsTerminal
  | _, _ => False

inductive Sent (s : StreamPool) : StreamPool → Prop
  | nothing {t : StreamPool} : t.sent = s.sent → Sent s t
  | call {t : StreamPool} {w : Fin 6} {r : Running} {call : StreamCall} :
      s.running w = some r → Sends r call → t.sent = s.sent ++ [⟨r.handle.stream, call⟩] → Sent s t

theorem forwardSync_sent (s : StreamPool) (handle : Handle) (result : ReadResult) :
    ∃ call, (s.forwardSync handle result).1.sent = s.sent ++ [⟨handle.stream, call⟩] := by
  cases result with
  | read data =>
    rw [forwardSync]
    split
    · exact ⟨_, rfl⟩
    · exact ⟨_, rfl⟩
  | endOfStream => exact ⟨_, rfl⟩
  | ioException e => exact ⟨_, rfl⟩

theorem read_sent (s : StreamPool) (w : Fin 6) (handle : Handle) (result : ReadResult) :
    ∃ call, (s.read w handle result).sent = s.sent ++ [⟨handle.stream, call⟩] := by
  obtain ⟨call, hcall⟩ := forwardSync_sent s handle result
  refine ⟨call, ?_⟩
  rw [← hcall, read]
  split
  · rename_i heq
    rw [heq]
  · rename_i heq
    rw [heq]
    rfl

theorem readPipe_sent {s t : StreamPool} {w : Fin 6} {handle : Handle}
    (h : s.readPipe w handle = some t) :
    ∃ data, t.sent = s.sent ++ [⟨handle.stream, .onstreamdata handle.token data⟩] := by
  obtain ⟨⟨data, pipe⟩, hread, rfl⟩ := Option.map_eq_some_iff.mp h
  rw [Pipe.read] at hread
  split at hread
  · cases hread
    exact ⟨_, rfl⟩
  · cases hread

theorem step_sent {s t : StreamPool} {a : Action} (hstep : step s a = some t) : Sent s t := by
  cases a with
  | request =>
    rw [step] at hstep
    split at hstep
    · cases hstep
    · cases hstep
      rw [request_eq]
      exact .nothing rfl
  | take w =>
    rw [step, take] at hstep
    split at hstep
    · cases hstep
      exact .nothing rfl
    · cases hstep
  | read w result =>
    rw [step] at hstep
    split at hstep
    · rename_i handle hw
      obtain ⟨-, hstep⟩ := Option.ite_none_right_eq_some.mp hstep
      cases hstep
      obtain ⟨call, hcall⟩ := read_sent s w handle result
      exact .call hw trivial hcall
    · cases hstep
  | close w closeError =>
    rw [step] at hstep
    split at hstep
    · rename_i handle hw
      cases hstep
      cases closeError with
      | none => exact .nothing rfl
      | some e => exact .call hw trivial rfl
    · cases hstep
  | connect w =>
    rw [step] at hstep
    split at hstep
    · cases hstep
      exact .nothing rfl
    · cases hstep
  | write w n =>
    rw [step] at hstep
    split at hstep
    · obtain ⟨-, hstep⟩ := Option.ite_none_right_eq_some.mp hstep
      obtain ⟨pipe, -, rfl⟩ := Option.map_eq_some_iff.mp hstep
      exact .nothing rfl
    · cases hstep
  | returns w | throws w =>
    rw [step] at hstep
    split at hstep
    · cases hstep
      exact .nothing rfl
    · cases hstep
  | readPipe w =>
    rw [step] at hstep
    split at hstep
    · rename_i handle hw
      obtain ⟨data, hdata⟩ := readPipe_sent hstep
      have hsends : Sends (.forward handle) (.onstreamdata handle.token data) := not_false
      exact .call hw hsends hdata
    · cases hstep

def DataOnly (requests : List StreamRequest) (s : StreamPool) : Prop :=
  ∀ sent ∈ s.sent, ∀ compressed, requests[sent.stream]? = some (.toStream compressed) →
    ¬ sent.call.IsTerminal

theorem dataOnly {s : StreamPool} (h : (machine requests).Reachable s) : DataOnly requests s := by
  refine (h.invariant (fun s => Numbered requests s ∧ DataOnly requests s) ?_ ?_).2
  · rintro s rfl
    exact ⟨numbered (.start rfl), List.forall_mem_nil _⟩
  · rintro s a t ⟨hnumbered, hdata⟩ hstep
    refine ⟨hnumbered.does (step_does hstep), ?_⟩
    cases step_sent hstep with
    | nothing hsent =>
      rw [DataOnly, hsent]
      exact hdata
    | @call w r call hw hsends hsent =>
      rw [DataOnly, hsent]
      intro sent hmem compressed hrequest
      rcases List.mem_append.mp hmem with hmem | hmem
      · exact hdata sent hmem compressed hrequest
      · rw [List.mem_singleton.mp hmem] at hrequest ⊢
        obtain ⟨request, hget, hserves⟩ := hnumbered.workers w r hw
        cases hget.symm.trans hrequest
        cases r with
        | getStream => cases hserves
        | toStream => exact hsends.elim
        | compress => exact hsends.elim
        | forward => exact hsends

theorem EndsWith.isTerminal {compressed : Option (List UInt8)} {token : Token}
    {delivered : List UInt8} {last : StreamCall} (h : EndsWith compressed token delivered last) :
    last.IsTerminal := by
  cases compressed with
  | some bytes => exact h.1 ▸ trivial
  | none =>
    obtain ⟨e, rfl⟩ := h
    exact trivial

theorem not_terminated {s : StreamPool} (h : DataOnly requests s) {i : Nat}
    {compressed : Option (List UInt8)} (hrequest : requests[i]? = some (.toStream compressed)) :
    ¬ Terminated s i compressed := by
  rintro ⟨⟨token, chunks, last, hcalls, hends⟩, -⟩
  have hlast : last ∈ s.callsOf i := by
    rw [hcalls]
    exact List.mem_append_right _ (List.mem_singleton_self last)
  obtain ⟨sent, hsent, rfl⟩ := List.mem_map.mp hlast
  obtain ⟨hmem, hstream⟩ := List.mem_filter.mp hsent
  exact h sent hmem compressed (of_decide_eq_true hstream ▸ hrequest) hends.isTerminal

/-- No run brings the stream of an image to its end. -/
theorem toStream_not_terminated {s : StreamPool} (h : (machine requests).Reachable s) {i : Nat}
    {compressed : Option (List UInt8)} (hrequest : requests[i]? = some (.toStream compressed)) :
    ¬ Terminated s i compressed :=
  not_terminated (dataOnly h) hrequest

theorem toStream_not_terminated_unsupported :
    ∃ s, (machine [.toStream none]).Reachable s ∧ s.requests = [] ∧ ¬ Terminated s 0 none := by
  have hstart : (machine [.toStream none]).Reachable (initial [.toStream none]) := .start rfl
  have h := reachable_step hstart (step_request rfl)
  exact ⟨_, h, rfl, toStream_not_terminated h rfl⟩

/-- One byte is written and read with four threads to spare, and then nothing happens. -/
theorem toStream_runs_out :
    ¬ ∀ (requests : List StreamRequest) (s : StreamPool) (i : Nat)
      (compressed : Option (List UInt8)), (machine requests).Reachable s →
      requests[i]? = some (.toStream compressed) → (∀ a, step s a = none) →
      Terminated s i compressed := by
  intro h
  have hrun : ∃ s, (machine [.toStream (some [7])]).run (initial [.toStream (some [7])])
      [.request, .take 0, .connect 0, .take 1, .write 0 1, .returns 0, .readPipe 1] = some s ∧
      s.requests = [] ∧ Starved s ⟨0, 1⟩ := by
    refine ⟨_, rfl, rfl, rfl, rfl, ?_, rfl⟩
    decide
  obtain ⟨s, hrun, hrequests, hstarved⟩ := hrun
  have hreachable := Machine.Reachable.run (.start rfl) hrun
  refine not_terminated (dataOnly hreachable) rfl (h _ s 0 (some [7]) hreachable rfl fun a => ?_)
  by_cases ha : a = .request
  · rw [ha, StreamPool.step, hrequests]
  · exact hstarved.stuck.2 a ha

end StreamPool

end AlmondAndroid.App
