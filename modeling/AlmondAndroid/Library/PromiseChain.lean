import Mathlib.Data.List.Range
import Mathlib.Logic.Function.Basic

/-!
# A promise that is replaced by its own continuation

Operations are called on an object that holds a promise. Each is attached to the promise
that is held at the time, and some operations put the promise of their own result in its
place. Reactions wait until their promise is settled and then run one after the other.
Whatever the order in which promises are settled, the operations run in the order of
their calls.
-/

namespace AlmondAndroid.Library

universe u v

/-- Promise 0 is the first one, and `i + 1` the one that the call `i` makes. -/
structure PromiseChain.Reaction where
  promise : Nat
  call : Nat

structure PromiseChain.Job (V : Type v) where
  call : Nat
  argument : V

structure PromiseChain (Op : Type u) (V : Type v) where
  calls : List Op
  promise : Nat
  settled : Nat → Option V
  reactions : List PromiseChain.Reaction
  jobs : List (PromiseChain.Job V)

namespace PromiseChain

variable {Op : Type u} {V : Type v} (chains : Op → Bool)

def initial : PromiseChain Op V := ⟨[], 0, fun _ => none, [], []⟩

/-- `then`: a promise that is settled already has its reaction run as the next job. -/
def attach (c : PromiseChain Op V) (i : Nat) : PromiseChain Op V :=
  match c.settled c.promise with
  | some v => { c with jobs := c.jobs ++ [⟨i, v⟩] }
  | none => { c with reactions := c.reactions ++ [⟨c.promise, i⟩] }

def call (c : PromiseChain Op V) (op : Op) : PromiseChain Op V :=
  { c.attach c.calls.length with
    calls := c.calls ++ [op]
    promise := if chains op then c.calls.length + 1 else c.promise }

def settle (c : PromiseChain Op V) (p : Nat) (v : V) : PromiseChain Op V :=
  { c with
    settled := Function.update c.settled p (some v)
    reactions := c.reactions.filter (·.promise ≠ p)
    jobs := c.jobs ++ (c.reactions.filter (·.promise = p)).map fun r => ⟨r.call, v⟩ }

theorem settled_settle_self (c : PromiseChain Op V) (p : Nat) (v : V) :
    (c.settle p v).settled p = some v :=
  Function.update_self ..

theorem settled_settle_of_ne (c : PromiseChain Op V) {p q : Nat} (h : q ≠ p) (v : V) :
    (c.settle p v).settled q = c.settled q :=
  Function.update_of_ne h ..

theorem settled_attach (c : PromiseChain Op V) (i : Nat) : (c.attach i).settled = c.settled := by
  rw [attach]
  split
  · rfl
  · rfl

theorem settled_call (c : PromiseChain Op V) (op : Op) : (c.call chains op).settled = c.settled :=
  c.settled_attach _

/-! ## The promise that a call finds -/

def promiseAt (ops : List Op) : Nat → Nat
  | 0 => 0
  | i + 1 => if (ops[i]?).any chains then i + 1 else promiseAt ops i

theorem promiseAt_succ_of_chains {ops : List Op} {i : Nat} {op : Op} (h : ops[i]? = some op)
    (hop : chains op = true) : promiseAt chains ops (i + 1) = i + 1 := by
  rw [promiseAt, h, Option.any_some, if_pos hop]

theorem promiseAt_eq_or_lt (ops : List Op) (i k : Nat) :
    promiseAt chains ops (i + k) = promiseAt chains ops i ∨ i < promiseAt chains ops (i + k) := by
  induction k with
  | zero => exact .inl rfl
  | succ k ih =>
    rw [← Nat.add_assoc, promiseAt]
    split
    · exact .inr (by omega)
    · exact ih

theorem promiseAt_append {ops : List Op} (more : List Op) {i : Nat} (h : i ≤ ops.length) :
    promiseAt chains (ops ++ more) i = promiseAt chains ops i := by
  induction i with
  | zero => rfl
  | succ i ih =>
    rw [promiseAt, promiseAt, List.getElem?_append_left h, ih (Nat.le_of_succ_le h)]

theorem promiseAt_length_append (ops : List Op) (op : Op) :
    promiseAt chains (ops ++ [op]) (ops.length + 1) =
      if chains op then ops.length + 1 else promiseAt chains ops ops.length := by
  rw [promiseAt, List.getElem?_append_right le_rfl, Nat.sub_self,
    promiseAt_append chains [op] le_rfl]
  rfl

theorem filter_range' {g : Nat → Nat} {p : Nat} (len : Nat) :
    ∀ a, (∀ i k, a ≤ i → g i ≠ p → g (i + k) ≠ p) → ∃ k, k ≤ len ∧
      (List.range' a len).filter (g · = p) = List.range' a k ∧
      (List.range' a len).filter (g · ≠ p) = List.range' (a + k) (len - k) ∧
      ∀ i, a ≤ i → i < a + k → g i = p := by
  induction len with
  | zero => exact fun a _ => ⟨0, le_rfl, rfl, rfl, by omega⟩
  | succ len ih =>
    intro a hleft
    by_cases ha : g a = p
    · obtain ⟨k, hk, hsame, hother, hall⟩ := ih (a + 1) fun i k hi => hleft i k (by omega)
      refine ⟨k + 1, by omega, ?_, ?_, fun i hi hik => ?_⟩
      · rw [List.range'_succ, List.filter_cons, if_pos (decide_eq_true ha), hsame, List.range'_succ]
      · rw [List.range'_succ, List.filter_cons, if_neg (by simpa using ha), hother,
          Nat.add_sub_add_right, Nat.add_right_comm, Nat.add_assoc]
      · rcases Nat.eq_or_lt_of_le hi with rfl | hi
        · exact ha
        · exact hall i hi (by omega)
    · have hall : ∀ i ∈ List.range' a (len + 1), g i ≠ p := by
        intro i hi
        obtain ⟨k, -, rfl⟩ := List.mem_range'.mp hi
        exact hleft a (1 * k) le_rfl ha
      refine ⟨0, Nat.zero_le _, ?_, ?_, by omega⟩
      · exact List.filter_eq_nil_iff.mpr fun i hi => by simpa using hall i hi
      · exact List.filter_eq_self.mpr fun i hi => by simpa using hall i hi

/-! ## The order -/

/-- The first `ran` calls have run and the first `queued` have left their promises. All the
promises that these have found are settled, and no promise that a later call makes is. -/
structure Ordered (c : PromiseChain Op V) (ran queued : Nat) : Prop where
  ran_le : ran ≤ queued
  queued_le : queued ≤ c.calls.length
  promise : c.promise = promiseAt chains c.calls c.calls.length
  jobs : c.jobs.map Job.call = List.range' ran (queued - ran)
  arguments : ∀ job ∈ c.jobs, c.settled (promiseAt chains c.calls job.call) = some job.argument
  reactions : c.reactions = (List.range' queued (c.calls.length - queued)).map fun i =>
    ⟨promiseAt chains c.calls i, i⟩
  settled : ∀ i, i < queued → c.settled (promiseAt chains c.calls i) ≠ none
  pending : ∀ p, ran < p → c.settled p = none
  all_queued : c.settled (promiseAt chains c.calls queued) ≠ none → queued = c.calls.length

variable {chains}

theorem ordered_initial : Ordered chains (initial : PromiseChain Op V) 0 0 :=
  ⟨le_rfl, le_rfl, rfl, rfl, List.forall_mem_nil _, rfl, by omega, fun _ _ => rfl, fun _ => rfl⟩

namespace Ordered

variable {c : PromiseChain Op V} {ran queued : Nat} (h : Ordered chains c ran queued)

include h

/-- A call that finds a settled promise has none before it that waits. -/
theorem eq_length_of_settled {i : Nat} (hle : queued ≤ i)
    (hsettled : c.settled (promiseAt chains c.calls i) ≠ none) : queued = c.calls.length := by
  obtain ⟨k, rfl⟩ := Nat.exists_eq_add_of_le hle
  rcases promiseAt_eq_or_lt chains c.calls queued k with heq | hlt
  · rw [heq] at hsettled
    exact h.all_queued hsettled
  · exact absurd (h.pending _ (h.ran_le.trans_lt hlt)) hsettled

/-- While the promise of the last call that has run is pending, no later call runs. -/
theorem queued_eq_of_pending {i : Nat} {op : Op} (hget : c.calls[i]? = some op)
    (hop : chains op = true) (hran : i + 1 = ran) (hpending : c.settled ran = none) :
    queued = ran := by
  refine Nat.le_antisymm (Nat.le_of_not_lt fun hlt => h.settled ran hlt ?_) h.ran_le
  rw [← hran, promiseAt_succ_of_chains chains hget hop, hran]
  exact hpending

omit h in
theorem range'_snoc {a b : Nat} (hle : a ≤ b) :
    List.range' a (b + 1 - a) = List.range' a (b - a) ++ [b] := by
  rw [Nat.succ_sub hle, List.range'_concat, Nat.one_mul, Nat.add_sub_cancel' hle]

theorem lt_of_mem_jobs {job : Job V} (hjob : job ∈ c.jobs) : job.call < queued := by
  have hmem : job.call ∈ List.range' ran (queued - ran) := h.jobs ▸ List.mem_map_of_mem hjob
  have hbounds := List.mem_range'_1.mp hmem
  have hle := h.ran_le
  omega

theorem le_of_mem_jobs {job : Job V} (hjob : job ∈ c.jobs) : job.call ≤ c.calls.length :=
  ((h.lt_of_mem_jobs hjob).trans_le h.queued_le).le

theorem promise_call (op : Op) : (if chains op then c.calls.length + 1 else c.promise) =
    promiseAt chains (c.calls ++ [op]) (c.calls ++ [op]).length := by
  rw [List.length_append, List.length_singleton, promiseAt_length_append, h.promise]

theorem arguments_call (op : Op) {job : Job V} (hjob : job ∈ c.jobs) :
    c.settled (promiseAt chains (c.calls ++ [op]) job.call) = some job.argument := by
  rw [promiseAt_append chains [op] (h.le_of_mem_jobs hjob)]
  exact h.arguments job hjob

theorem call_settled (op : Op) {v : V} (hsettled : c.settled c.promise = some v) :
    queued = c.calls.length ∧ Ordered chains (c.call chains op) ran (c.calls.length + 1) := by
  have hlength : (c.calls ++ [op]).length = c.calls.length + 1 := List.length_append
  have hran := h.ran_le.trans h.queued_le
  have hfound := hsettled
  rw [h.promise] at hfound
  have hqueued := h.eq_length_of_settled h.queued_le (hfound ▸ Option.some_ne_none v)
  have hcall : c.call chains op = { c with
      jobs := c.jobs ++ [⟨c.calls.length, v⟩]
      calls := c.calls ++ [op]
      promise := if chains op then c.calls.length + 1 else c.promise } := by
    rw [PromiseChain.call, attach, hsettled]
  rw [hcall]
  refine ⟨hqueued, by omega, hlength.ge, h.promise_call op, ?_, ?_, ?_, ?_, h.pending,
    fun _ => hlength.symm⟩
  · rw [List.map_append, h.jobs, hqueued, range'_snoc hran]
    rfl
  · intro job hjob
    rcases List.mem_append.mp hjob with hjob | hjob
    · exact h.arguments_call op hjob
    · rw [List.mem_singleton.mp hjob, promiseAt_append chains [op] le_rfl]
      exact hfound
  · rw [h.reactions, hqueued, hlength, Nat.sub_self, Nat.sub_self]
    rfl
  · intro i hi
    rw [promiseAt_append chains [op] (Nat.le_of_lt_succ hi)]
    rcases Nat.lt_succ_iff_lt_or_eq.mp hi with hi | rfl
    · exact h.settled i (by omega)
    · exact hfound ▸ Option.some_ne_none v

theorem call_pending (op : Op) (hsettled : c.settled c.promise = none) :
    Ordered chains (c.call chains op) ran queued := by
  have hlength : (c.calls ++ [op]).length = c.calls.length + 1 := List.length_append
  have hle := h.queued_le
  have hcall : c.call chains op = { c with
      reactions := c.reactions ++ [⟨c.promise, c.calls.length⟩]
      calls := c.calls ++ [op]
      promise := if chains op then c.calls.length + 1 else c.promise } := by
    rw [PromiseChain.call, attach, hsettled]
  rw [hcall]
  refine ⟨h.ran_le, (Nat.le_succ_of_le hle).trans hlength.ge, h.promise_call op, h.jobs,
    fun job hjob => h.arguments_call op hjob, ?_, ?_, h.pending, ?_⟩
  · have hreactions : c.reactions = (List.range' queued (c.calls.length - queued)).map fun i =>
        ⟨promiseAt chains (c.calls ++ [op]) i, i⟩ := by
      rw [h.reactions]
      refine List.map_congr_left fun i hi => ?_
      have hbounds := List.mem_range'_1.mp hi
      rw [promiseAt_append chains [op] (by omega)]
    dsimp only
    rw [hreactions, hlength, range'_snoc hle, List.map_append, List.map_singleton,
      promiseAt_append chains [op] le_rfl, ← h.promise]
  · intro i hi
    rw [promiseAt_append chains [op] (by omega)]
    exact h.settled i hi
  · intro hne
    rw [promiseAt_append chains [op] hle] at hne
    have heq := h.all_queued hne
    rw [heq, ← h.promise] at hne
    exact absurd hsettled hne

theorem call (op : Op) : ∃ queued', queued ≤ queued' ∧
    Ordered chains (c.call chains op) ran queued' := by
  cases hsettled : c.settled c.promise with
  | some v =>
    obtain ⟨hqueued, hordered⟩ := h.call_settled op hsettled
    exact ⟨c.calls.length + 1, by omega, hordered⟩
  | none => exact ⟨queued, le_rfl, h.call_pending op hsettled⟩

theorem next {job : Job V} {jobs : List (Job V)} (hjobs : c.jobs = job :: jobs) :
    job.call = ran ∧ ran < queued ∧ Ordered chains { c with jobs := jobs } (ran + 1) queued := by
  have hmap := h.jobs
  have hlt : ran < queued := by
    by_contra hge
    rw [hjobs, Nat.sub_eq_zero_of_le (Nat.le_of_not_lt hge)] at hmap
    cases hmap
  have hsucc : queued - ran = queued - (ran + 1) + 1 := by omega
  rw [hjobs, List.map_cons, hsucc, List.range'_succ] at hmap
  obtain ⟨hcall, hrest⟩ := List.cons.inj hmap
  have hall := h.arguments
  rw [hjobs] at hall
  exact ⟨hcall, hlt, hlt, h.queued_le, h.promise, hrest,
    fun job hjob => hall job (List.mem_cons_of_mem _ hjob), h.reactions, h.settled,
    fun p hp => h.pending p (Nat.lt_of_succ_lt hp), h.all_queued⟩

/-- The promise that the calls to come have found is settled, and they are let go up to the
next one that makes a promise. -/
theorem settle (v : V) (hpending : c.settled (promiseAt chains c.calls queued) = none)
    (hran : promiseAt chains c.calls queued ≤ ran) : ∃ queued', queued ≤ queued' ∧
      Ordered chains (c.settle (promiseAt chains c.calls queued) v) ran queued' := by
  set p := promiseAt chains c.calls queued with hp
  have hle := h.queued_le
  have hran_le := h.ran_le
  have hleft : ∀ i k, queued ≤ i → promiseAt chains c.calls i ≠ p →
      promiseAt chains c.calls (i + k) ≠ p := by
    intro i k hi hne
    rcases promiseAt_eq_or_lt chains c.calls i k with heq | hlt
    · rw [heq]
      exact hne
    · omega
  obtain ⟨k, hk, hsame, hother, hall⟩ := filter_range' (c.calls.length - queued) queued hleft
  have hnew : ∀ {q : Nat}, q ≠ p → (c.settle p v).settled q = c.settled q := fun hq =>
    c.settled_settle_of_ne hq v
  have hold : ∀ {q : Nat}, c.settled q ≠ none → q ≠ p := by
    rintro q hq rfl
    exact hq hpending
  have hwaiting : c.reactions.filter (·.promise = p) =
      (List.range' queued k).map fun i => ⟨promiseAt chains c.calls i, i⟩ := by
    rw [h.reactions, List.filter_map, ← hsame]
    rfl
  refine ⟨queued + k, by omega, by omega, by dsimp only [PromiseChain.settle]; omega, h.promise,
    ?_, ?_, ?_, ?_, ?_, ?_⟩
  · have hcalls : ((c.reactions.filter (·.promise = p)).map fun r => (⟨r.call, v⟩ : Job V)).map
        Job.call = List.range' queued k := by
      rw [hwaiting, List.map_map, List.map_map]
      exact List.map_id _
    dsimp only [PromiseChain.settle]
    rw [List.map_append, hcalls, h.jobs]
    have hsplit : queued + k - ran = queued - ran + k := by omega
    have hmid : queued = ran + 1 * (queued - ran) := by omega
    rw [hsplit, ← List.range'_append, ← hmid]
  · intro job hjob
    rcases List.mem_append.mp hjob with hjob | hjob
    · have hargument := h.arguments job hjob
      exact (hnew (hold (hargument ▸ Option.some_ne_none _))).trans hargument
    · rw [hwaiting, List.map_map] at hjob
      obtain ⟨i, hi, rfl⟩ := List.mem_map.mp hjob
      have hbounds := List.mem_range'_1.mp hi
      exact hall i hbounds.1 hbounds.2 ▸ c.settled_settle_self p v
  · dsimp only [PromiseChain.settle]
    rw [h.reactions, List.filter_map, ← Nat.sub_sub, ← hother]
    rfl
  · intro i hi
    rcases Nat.lt_or_ge i queued with hlt | hge
    · have hsettled := h.settled i hlt
      exact (hnew (hold hsettled)).trans_ne hsettled
    · exact hall i hge hi ▸ (c.settled_settle_self p v).trans_ne (Option.some_ne_none v)
  · intro q hq
    exact (hnew (by omega)).trans (h.pending q hq)
  · intro hne
    by_contra hlt
    dsimp only [PromiseChain.settle] at hlt
    have hleave : promiseAt chains c.calls (queued + k) ≠ p := by
      intro heq
      have hmem : queued + k ∈ (List.range' queued (c.calls.length - queued)).filter
          (promiseAt chains c.calls · = p) :=
        List.mem_filter.mpr ⟨List.mem_range'_1.mpr ⟨by omega, by omega⟩, decide_eq_true heq⟩
      rw [hsame] at hmem
      have hbounds := List.mem_range'_1.mp hmem
      omega
    replace hne := (hnew hleave).symm.trans_ne hne
    rcases promiseAt_eq_or_lt chains c.calls queued k with heq | hgt
    · exact hleave heq
    · exact hne (h.pending _ (by omega))

end Ordered

end PromiseChain

end AlmondAndroid.Library
