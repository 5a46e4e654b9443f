import Mathlib.Tactic
import Ratelimitly.Lib.Lts
import Ratelimitly.Lib.Word
import Ratelimitly.Discovery

/-! The traffic counters, which tasks update without a lock. Each atomic operation is one step. -/
namespace Ratelimitly

open Lib

/-- `Ipv6Addr::to_ipv4_mapped` is `Some`. -/
def isIpv4Mapped (octets : Bytes 16) : Bool :=
  octets.toList.take 12 == List.replicate 10 0 ++ [0xff, 0xff]

namespace Traffic

inductive Direction where
  | sent
  | received
  deriving DecidableEq, Repr

/-- The fields of `TrafficCounters` other than `incomplete`. -/
inductive Counter where
  | datagrams (direction : Direction)
  | payloadBytes (direction : Direction)
  | ipBytes (direction : Direction)
  | sendFailures
  deriving DecidableEq, Repr

/-- The arguments of a call of `add`. -/
structure Add where
  counter : Counter
  value : UInt64
  deriving DecidableEq, Repr

/-- The size of the headers before the payload. -/
def headers : SocketAddr → UInt64
  | .v4 _ _ => 28
  | .v6 octets _ _ _ => if isIpv4Mapped octets then 28 else 48

/-- The calls of `add` in `record`. The sum wraps, as in a release build. -/
def record (direction : Direction) (len : UInt64) (peer : SocketAddr) : List Add :=
  [⟨.datagrams direction, 1⟩, ⟨.payloadBytes direction, len⟩,
    ⟨.ipBytes direction, len + headers peer⟩]

/-- `matches!(result, Ok(sent) if *sent == len)` -/
def isComplete (len : UInt64) (result : Except IoError UInt64) : Bool :=
  match result with
  | .ok sent => sent == len
  | .error _ => false

/-- A call of `sent` or of `received`, with its arguments. A `usize` has 64 bits. -/
inductive Call where
  | sent (len : UInt64) (peer : SocketAddr) (result : Except IoError UInt64)
  | received (len : UInt64) (peer : SocketAddr)

def Call.adds : Call → List Add
  | .sent len peer result =>
    if isComplete len result then record .sent len peer else [⟨.sendFailures, 1⟩]
  | .received len peer => record .received len peer

/-- A task, at its next atomic operation, with the calls of `add` it has still to make. -/
inductive Task where
  /-- `counter.load(..)` -/
  | load (add : Add) (rest : List Add)
  /-- `counter.compare_exchange_weak(previous, ..)` -/
  | exchange (add : Add) (previous : UInt64) (rest : List Add)
  /-- `self.incomplete.store(true, ..)` -/
  | store (rest : List Add)
  | finished
  deriving DecidableEq, Repr

/-- The code up to the next atomic operation. -/
def Task.next : List Add → Task
  | [] => .finished
  | add :: rest => .load add rest

/-- A task that makes the calls one after the other. -/
def Task.begin (calls : List Call) : Task := .next (calls.flatMap Call.adds)

structure State (ι : Type) where
  counters : Counter → UInt64
  incomplete : Bool
  tasks : ι → Task

/-- An atomic operation. A weak exchange may fail although the counter has the expected value. -/
inductive Op where
  | load
  | exchange (succeeds : Bool)
  | store
  deriving DecidableEq, Repr

variable {ι : Type} [DecidableEq ι]

def State.setTask (s : State ι) (i : ι) (task : Task) : State ι :=
  { s with tasks := Function.update s.tasks i task }

/-- A successful exchange. -/
def State.exchange (s : State ι) (i : ι) (add : Add) (previous : UInt64) (rest : List Add) :
    State ι where
  counters := Function.update s.counters add.counter (saturatingAdd64 previous add.value)
  incomplete := s.incomplete
  tasks := Function.update s.tasks i
    (if checkedAdd64 previous add.value = none then .store rest else .next rest)

/-- The next atomic operation of task `i`. -/
def step (s : State ι) (i : ι) (op : Op) : Option (State ι) :=
  match s.tasks i, op with
  | .load add rest, .load => some (s.setTask i (.exchange add (s.counters add.counter) rest))
  | .exchange add previous rest, .exchange true =>
    if s.counters add.counter = previous then some (s.exchange i add previous rest) else none
  | .exchange add _ rest, .exchange false =>
    some (s.setTask i (.exchange add (s.counters add.counter) rest))
  | .store rest, .store => some { s.setTask i (.next rest) with incomplete := true }
  | _, _ => none

def start (calls : ι → List Call) : State ι := ⟨fun _ => 0, false, fun i => .begin (calls i)⟩

def lts (calls : ι → List Call) : Lts (State ι) (ι × Op) where
  init s := s = start calls
  step s label t := step s label.1 label.2 = some t

/-- All calls have finished. -/
def State.Finished (s : State ι) : Prop := ∀ i, s.tasks i = .finished

/-! ### Exact totals -/

/-- What a complete datagram contributes. -/
def recorded (direction : Direction) (len : UInt64) (peer : SocketAddr) : Counter → ℕ
  | .datagrams d => if d = direction then 1 else 0
  | .payloadBytes d => if d = direction then len.toNat else 0
  | .ipBytes d => if d = direction then len.toNat + (headers peer).toNat else 0
  | .sendFailures => 0

/-- What a call contributes to a counter. -/
def Call.contribution (c : Counter) : Call → ℕ
  | .sent len peer result =>
    if isComplete len result then recorded .sent len peer c else if c = .sendFailures then 1 else 0
  | .received len peer => recorded .received len peer c

/-- The exact total of a counter. -/
def total [Fintype ι] (calls : ι → List Call) (c : Counter) : ℕ :=
  ∑ i, ((calls i).map (Call.contribution c)).sum

/-- The bytes of the datagram with its headers are a 64-bit number. -/
def Call.Fits (call : Call) : Prop := ∀ direction, call.contribution (.ipBytes direction) < 2 ^ 64

/-! ### Steps -/

/-- What one atomic operation does. -/
inductive Steps (s : State ι) (i : ι) : Op → State ι → Prop
  | load {add rest} : s.tasks i = .load add rest →
      Steps s i .load (s.setTask i (.exchange add (s.counters add.counter) rest))
  | success {add rest} : s.tasks i = .exchange add (s.counters add.counter) rest →
      Steps s i (.exchange true) (s.exchange i add (s.counters add.counter) rest)
  | failure {add previous rest} : s.tasks i = .exchange add previous rest →
      Steps s i (.exchange false) (s.setTask i (.exchange add (s.counters add.counter) rest))
  | store {rest} : s.tasks i = .store rest →
      Steps s i .store { s.setTask i (.next rest) with incomplete := true }

variable {s t : State ι} {i : ι} {op : Op} {calls : ι → List Call} {labels : List (ι × Op)}
  {task : Task} {add : Add} {rest : List Add}

theorem steps_of_step (h : step s i op = some t) : Steps s i op t := by
  unfold step at h
  split at h
  next htask => exact Option.some.inj h ▸ .load htask
  next htask =>
    split at h
    next hprevious =>
      subst hprevious
      exact Option.some.inj h ▸ .success htask
    next => cases h
  next htask => exact Option.some.inj h ▸ .failure htask
  next htask => exact Option.some.inj h ▸ .store htask
  next => cases h

theorem mono_step (h : step s i op = some t) :
    (∀ c, s.counters c ≤ t.counters c) ∧ (s.incomplete = true → t.incomplete = true) := by
  cases steps_of_step h with
  | load | failure => exact ⟨fun c => UInt64.le_refl _, id⟩
  | store => exact ⟨fun c => UInt64.le_refl _, fun _ => rfl⟩
  | @success add rest htask =>
    refine ⟨fun c => ?_, id⟩
    by_cases hc : c = add.counter
    · subst hc
      have hlt := (s.counters add.counter).toNat_lt
      rw [UInt64.le_iff_toNat_le]
      simp only [State.exchange, Function.update_self, toNat_saturatingAdd64]
      omega
    · simp [State.exchange, Function.update_of_ne hc]

/-- No counter decreases and `incomplete` is not reset. -/
theorem mono_run (h : (lts calls).Run s labels t) :
    (∀ c, s.counters c ≤ t.counters c) ∧ (s.incomplete = true → t.incomplete = true) := by
  induction h with
  | refl => exact ⟨fun c => UInt64.le_refl _, id⟩
  | head hstep _ ih =>
    obtain ⟨hcounters, hincomplete⟩ := mono_step hstep
    exact ⟨fun c => UInt64.le_trans (hcounters c) (ih.1 c), ih.2 ∘ hincomplete⟩

theorem reachable_of_runSteps {s : State ι} (h : Lts.runSteps (fun s label => step s label.1 label.2)
    labels (start calls) = some s) : (lts calls).Reachable s :=
  (Lts.Run.of_runSteps (fun _ _ _ _ h => h) h).reachable (.init rfl)

/-! ### The totals that have been applied -/

/-- What calls of `add` contribute to a counter. -/
def added (c : Counter) (adds : List Add) : ℕ :=
  (adds.map fun add => if add.counter = c then add.value.toNat else 0).sum

/-- The calls of `add` of a task that have not been applied. -/
def Task.pending : Task → List Add
  | .load add rest | .exchange add _ rest => add :: rest
  | .store rest => rest
  | .finished => []

/-- The task has yet to set `incomplete`. -/
def Task.Storing (task : Task) : Prop := ∃ rest, task = .store rest

@[simp] theorem pending_next (adds : List Add) : (Task.next adds).pending = adds := by
  cases adds <;> rfl

theorem not_storing_load : ¬ (Task.load add rest).Storing := by
  rintro ⟨rest', h⟩
  cases h

theorem not_storing_exchange {previous : UInt64} :
    ¬ (Task.exchange add previous rest).Storing := by
  rintro ⟨rest', h⟩
  cases h

theorem not_storing_next (adds : List Add) : ¬ (Task.next adds).Storing := by
  rintro ⟨rest, h⟩
  cases adds <;> cases h

theorem pending_ite (p : Prop) [Decidable p] (rest : List Add) :
    (if p then Task.store rest else .next rest).pending = rest := by
  split
  · rfl
  · rw [pending_next]

theorem exists_storing_update_of_not (tasks : ι → Task) (hold : ¬ (tasks i).Storing)
    (hnew : ¬ task.Storing) :
    (∃ j, (Function.update tasks i task j).Storing) ↔ ∃ j, (tasks j).Storing := by
  refine exists_congr fun j => ?_
  by_cases hj : j = i
  · subst hj
    simp [hold, hnew]
  · rw [Function.update_of_ne hj]

variable [Fintype ι]

def remaining (s : State ι) (c : Counter) : ℕ := ∑ i, added c (s.tasks i).pending

/-- What has been applied and what remains make up the totals, the counters are the applied totals
up to saturation, and an applied total that does not fit has been noticed. -/
structure Exact (totals : Counter → ℕ) (s : State ι) (applied : Counter → ℕ) : Prop where
  applied_add : ∀ c, applied c + remaining s c = totals c
  counters : ∀ c, (s.counters c).toNat = min (2 ^ 64 - 1) (applied c)
  incomplete : (s.incomplete = true ∨ ∃ i, (s.tasks i).Storing) ↔ ∃ c, 2 ^ 64 - 1 < applied c

variable {totals applied : Counter → ℕ}

theorem sum_added_update (tasks : ι → Task) (i : ι) (task : Task) (c : Counter) :
    ∑ j, added c (Function.update tasks i task j).pending + added c (tasks i).pending =
      ∑ j, added c (tasks j).pending + added c task.pending := by
  have hupdate (j : ι) : added c (Function.update tasks i task j).pending =
      Function.update (fun j => added c (tasks j).pending) i (added c task.pending) j := by
    rw [← Function.apply_update (fun _ task => added c (Task.pending task))]
  simp only [hupdate]
  rw [Finset.sum_update_of_mem (Finset.mem_univ i), Finset.sdiff_singleton_eq_erase,
    ← Finset.add_sum_erase Finset.univ (fun j => added c (tasks j).pending) (Finset.mem_univ i)]
  omega

/-- A task moves without applying anything. -/
theorem remaining_of_pending_eq (htasks : t.tasks = Function.update s.tasks i task)
    (hpending : task.pending = (s.tasks i).pending) (c : Counter) :
    remaining t c = remaining s c := by
  have h := sum_added_update s.tasks i task c
  rw [hpending] at h
  unfold remaining
  rw [htasks]
  omega

/-- A task applies one addition. -/
theorem remaining_of_pending_cons (htasks : t.tasks = Function.update s.tasks i task)
    (hpending : (s.tasks i).pending = add :: task.pending) (c : Counter) :
    added c [add] + remaining t c = remaining s c := by
  have h := sum_added_update s.tasks i task c
  rw [hpending] at h
  unfold remaining
  rw [htasks]
  simp only [added, List.map_cons, List.sum_cons, List.map_nil, List.sum_nil] at h ⊢
  omega

/-- A task moves without applying anything or setting `incomplete`. -/
theorem exact_setTask (h : Exact totals s applied) (hold : ¬ (s.tasks i).Storing)
    (hnew : ¬ task.Storing) (hpending : task.pending = (s.tasks i).pending) :
    Exact totals (s.setTask i task) applied := by
  refine ⟨fun c => ?_, h.counters, ?_⟩
  · rw [remaining_of_pending_eq rfl hpending]
    exact h.applied_add c
  · rw [← h.incomplete]
    exact or_congr_right (exists_storing_update_of_not s.tasks hold hnew)

theorem exact_store (h : Exact totals s applied) (htask : s.tasks i = .store rest) :
    Exact totals { s.setTask i (.next rest) with incomplete := true } applied := by
  refine ⟨fun c => ?_, h.counters, fun _ => ?_, fun _ => .inl rfl⟩
  · have hpending : (Task.next rest).pending = (s.tasks i).pending := by
      rw [htask, pending_next]
      rfl
    rw [remaining_of_pending_eq (s := s) rfl hpending]
    exact h.applied_add c
  · exact h.incomplete.mp (.inr ⟨i, rest, htask⟩)

theorem added_singleton (c : Counter) (add : Add) :
    added c [add] = if add.counter = c then add.value.toNat else 0 := by simp [added]

/-- A successful exchange applies its addition. -/
theorem exact_exchange (h : Exact totals s applied)
    (htask : s.tasks i = .exchange add (s.counters add.counter) rest) :
    Exact totals (s.exchange i add (s.counters add.counter) rest)
      (fun c => applied c + added c [add]) := by
  have hcounter := h.counters add.counter
  have hold : ¬ (s.tasks i).Storing := by
    rw [htask]
    exact not_storing_exchange
  refine ⟨fun c => ?_, fun c => ?_, ?_⟩
  · have hpending : (s.tasks i).pending = add :: (if checkedAdd64 (s.counters add.counter) add.value =
        none then Task.store rest else .next rest).pending := by
      rw [htask, pending_ite]
      rfl
    have hremaining :=
      remaining_of_pending_cons (s := s) (t := s.exchange i add _ rest) rfl hpending c
    have happlied := h.applied_add c
    omega
  · by_cases hc : c = add.counter
    · subst hc
      simp only [State.exchange, Function.update_self, toNat_saturatingAdd64, hcounter,
        added_singleton, if_pos]
      omega
    · simp [State.exchange, Function.update_of_ne hc, h.counters c, added_singleton, Ne.symm hc]
  · by_cases hnone : checkedAdd64 (s.counters add.counter) add.value = none
    · -- The addition does not fit, so the task goes on to set `incomplete`.
      refine iff_of_true (.inr ⟨i, rest, by simp [State.exchange, hnone]⟩) ⟨add.counter, ?_⟩
      rw [checkedAdd64_eq_none_iff, hcounter] at hnone
      simp only [added_singleton, if_pos]
      omega
    · have hstoring := exists_storing_update_of_not s.tasks hold (not_storing_next rest)
      have htasks : (s.exchange i add (s.counters add.counter) rest).tasks =
          Function.update s.tasks i (.next rest) := by simp [State.exchange, hnone]
      rw [htasks, hstoring]
      refine h.incomplete.trans (exists_congr fun c => ?_)
      rw [checkedAdd64_eq_none_iff, hcounter] at hnone
      rw [added_singleton]
      split
      next hc =>
        subst hc
        omega
      next => rfl

theorem exact_step (h : Exact totals s applied) (hstep : step s i op = some t) :
    ∃ applied', Exact totals t applied' := by
  cases steps_of_step hstep with
  | load htask =>
    refine ⟨applied, exact_setTask h ?_ not_storing_exchange ?_⟩
    · rw [htask]
      exact not_storing_load
    · rw [htask]
      rfl
  | success htask => exact ⟨_, exact_exchange h htask⟩
  | failure htask =>
    refine ⟨applied, exact_setTask h ?_ not_storing_exchange ?_⟩
    · rw [htask]
      exact not_storing_exchange
    · rw [htask]
      rfl
  | store htask => exact ⟨applied, exact_store h htask⟩

omit [DecidableEq ι] in
theorem exact_start (calls : ι → List Call) :
    Exact (fun c => ∑ i, added c ((calls i).flatMap Call.adds)) (start calls) (fun _ => 0) := by
  refine ⟨fun c => ?_, fun c => rfl, ?_⟩
  · simp [remaining, start, Task.begin]
  · constructor
    · rintro (h | ⟨i, h⟩)
      · cases h
      · exact absurd h (not_storing_next _)
    · rintro ⟨c, h⟩
      exact absurd h (Nat.not_lt_zero _)

theorem exact_reachable (h : (lts calls).Reachable s) :
    ∃ applied, Exact (fun c => ∑ i, added c ((calls i).flatMap Call.adds)) s applied := by
  refine h.invariant (P := fun s => ∃ applied, Exact _ s applied) ?_ ?_
  · rintro _ rfl
    exact ⟨_, exact_start calls⟩
  · rintro s label t - ⟨applied, hs⟩ hstep
    exact exact_step hs hstep

omit [DecidableEq ι] in
/-- Once all calls have finished, everything has been applied. -/
theorem Exact.of_finished (h : Exact totals s applied) (hfinished : s.Finished) :
    (∀ c, (s.counters c).toNat = min (2 ^ 64 - 1) (totals c)) ∧
      (s.incomplete = true ↔ ∃ c, 2 ^ 64 - 1 < totals c) := by
  have htotals : applied = totals := by
    funext c
    have happlied := h.applied_add c
    have hzero : remaining s c = 0 := by simp [remaining, hfinished _, Task.pending, added]
    omega
  have hnot : ¬ ∃ i, (s.tasks i).Storing := by
    rintro ⟨i, rest, htask⟩
    cases (hfinished i).symm.trans htask
  subst htotals
  exact ⟨h.counters, by rw [← h.incomplete, or_iff_left hnot]⟩

/-! ### What a call contributes -/

theorem added_record {direction : Direction} {len : UInt64} {peer : SocketAddr}
    (hfits : len.toNat + (headers peer).toNat < 2 ^ 64) (c : Counter) :
    added c (record direction len peer) = recorded direction len peer c := by
  have hsum : (len + headers peer).toNat = len.toNat + (headers peer).toNat := by
    rw [UInt64.toNat_add, Nat.mod_eq_of_lt hfits]
  cases c <;> simp [added, record, recorded, hsum, eq_comm]

theorem Call.added_adds {call : Call} (hfits : call.Fits) (c : Counter) :
    added c call.adds = call.contribution c := by
  cases call with
  | sent len peer result =>
    have hsent := hfits .sent
    by_cases hcomplete : isComplete len result
    · have hadds : (Call.sent len peer result).adds = record .sent len peer := if_pos hcomplete
      have hcontribution (c : Counter) :
          (Call.sent len peer result).contribution c = recorded .sent len peer c := if_pos hcomplete
      rw [hcontribution] at hsent
      rw [hadds, hcontribution]
      exact added_record (by simpa [recorded] using hsent) c
    · have hadds : (Call.sent len peer result).adds = [⟨.sendFailures, 1⟩] := if_neg hcomplete
      rw [hadds, added_singleton, contribution, if_neg hcomplete]
      simp [eq_comm]
  | received len peer =>
    have hreceived := hfits .received
    exact added_record (by simpa [contribution, recorded] using hreceived) c

theorem added_flatMap {calls : List Call} (hfits : ∀ call ∈ calls, call.Fits) (c : Counter) :
    added c (calls.flatMap Call.adds) = (calls.map (Call.contribution c)).sum := by
  induction calls with
  | nil => rfl
  | cons call rest ih =>
    rw [List.map_cons, List.sum_cons, ← ih fun call' h => hfits call' (List.mem_cons_of_mem _ h),
      ← Call.added_adds (hfits call List.mem_cons_self)]
    simp [added]

/-- However the atomic operations of the tasks interleave, the counters end at the exact totals up to
saturation and `incomplete` tells whether one of them does not fit, if each datagram has a size. On
the way neither goes back, whatever the lengths. -/
theorem totals_exact {ι : Type} [DecidableEq ι] [Fintype ι] (calls : ι → List Call) :
    ((∀ i, ∀ call ∈ calls i, call.Fits) → ∀ s, (lts calls).Reachable s → s.Finished →
      (∀ c, (s.counters c).toNat = min (2 ^ 64 - 1) (total calls c)) ∧
      (s.incomplete = true ↔ ∃ c, 2 ^ 64 - 1 < total calls c)) ∧
    (∀ s labels t, (lts calls).Reachable s → (lts calls).Run s labels t →
      (∀ c, s.counters c ≤ t.counters c) ∧ (s.incomplete = true → t.incomplete = true)) := by
  refine ⟨fun hfits s hs hfinished => ?_, fun s labels t _ h => mono_run h⟩
  obtain ⟨applied, hexact⟩ := exact_reachable hs
  have htotals : (fun c => ∑ i, added c ((calls i).flatMap Call.adds)) = total calls := by
    funext c
    exact Finset.sum_congr rfl fun i _ => added_flatMap (hfits i) c
  rw [htotals] at hexact
  exact hexact.of_finished hfinished

/-! ### Runs on given calls -/

def samplePeer : SocketAddr := .v4 (.ofList 4 [127, 0, 0, 1]) 1

/-- One task sends a datagram, another fails to send one. -/
def sampleCalls : Bool → List Call
  | false => [.sent 10 samplePeer (.ok 10)]
  | true => [.sent 10 samplePeer (.error ⟨.other, "Network is unreachable"⟩)]

/-- The tasks take turns, and the first exchange fails once. -/
def sampleLabels : List (Bool × Op) :=
  [(false, .load), (true, .load), (false, .exchange false), (true, .exchange true),
    (false, .exchange true), (false, .load), (false, .exchange true), (false, .load),
    (false, .exchange true)]

theorem totals_exact_sample : ∃ s, (lts sampleCalls).Reachable s ∧ s.Finished ∧
    (∀ c, (s.counters c).toNat = min (2 ^ 64 - 1) (total sampleCalls c)) ∧
    (s.incomplete = true ↔ ∃ c, 2 ^ 64 - 1 < total sampleCalls c) := by
  have hrun : ∃ s, Lts.runSteps (fun s label => step s label.1 label.2) sampleLabels
      (start sampleCalls) = some s ∧ s.Finished :=
    ⟨_, rfl, by rintro (_ | _) <;> rfl⟩
  obtain ⟨s, hs, hfinished⟩ := hrun
  have hreachable := reachable_of_runSteps hs
  refine ⟨s, hreachable, hfinished, (totals_exact sampleCalls).1 ?_ s hreachable hfinished⟩
  rintro (_ | _) call hcall (_ | _) <;> cases List.mem_singleton.mp hcall <;> decide

/-- The size of a datagram with its headers is added without a check. -/
theorem not_exact_of_long : ¬ ∀ (calls : Unit → List Call) (s : State Unit),
    (lts calls).Reachable s → s.Finished →
      (∀ c, (s.counters c).toNat = min (2 ^ 64 - 1) (total calls c)) ∧
      (s.incomplete = true ↔ ∃ c, 2 ^ 64 - 1 < total calls c) := by
  intro h
  let calls : Unit → List Call := fun _ => [.received (UInt64.ofNat (2 ^ 64 - 1)) samplePeer]
  let labels : List (Unit × Op) := [((), .load), ((), .exchange true), ((), .load),
    ((), .exchange true), ((), .load), ((), .exchange true)]
  have hrun : (Lts.runSteps (fun s label => step s label.1 label.2) labels (start calls)).map
      (fun s => (s.tasks (), s.counters (.ipBytes .received))) = some (.finished, 27) := by
    decide +kernel
  obtain ⟨s, hs, hends⟩ := Option.map_eq_some_iff.mp hrun
  obtain ⟨hfinished, hbytes⟩ := Prod.mk.inj hends
  have hexact := (h calls s (reachable_of_runSteps hs) fun _ => hfinished).1 (.ipBytes .received)
  rw [hbytes] at hexact
  simp [total, calls, Call.contribution, recorded, headers, samplePeer] at hexact

end Traffic

end Ratelimitly
