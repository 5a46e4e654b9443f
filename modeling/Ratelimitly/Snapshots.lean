import Mathlib.Tactic
import Ratelimitly.Lib.Progress
import Ratelimitly.Traffic

/-! What a snapshot sees while tasks update the counters, and how long the updates take. -/
namespace Ratelimitly

open Lib

namespace Traffic

structure TrafficDirection where
  datagrams : UInt64
  payloadBytes : UInt64
  ipBytes : UInt64
  deriving DecidableEq, Repr

structure TrafficStats where
  sent : TrafficDirection
  received : TrafficDirection
  sendFailures : UInt64
  incomplete : Bool
  deriving DecidableEq, Repr

inductive Field where
  | counter (c : Counter)
  | incomplete
  deriving DecidableEq, Repr

/-- The loads of `snapshot`, in their order. -/
def fields : List Field :=
  [.counter (.datagrams .sent), .counter (.payloadBytes .sent), .counter (.ipBytes .sent),
    .counter (.datagrams .received), .counter (.payloadBytes .received),
    .counter (.ipBytes .received), .counter .sendFailures, .incomplete]

namespace TrafficStats

def direction (stats : TrafficStats) : Direction → TrafficDirection
  | .sent => stats.sent
  | .received => stats.received

def get (stats : TrafficStats) : Counter → UInt64
  | .datagrams d => (stats.direction d).datagrams
  | .payloadBytes d => (stats.direction d).payloadBytes
  | .ipBytes d => (stats.direction d).ipBytes
  | .sendFailures => stats.sendFailures

def setDirection (stats : TrafficStats) (d : Direction) (value : TrafficDirection) : TrafficStats :=
  match d with
  | .sent => { stats with sent := value }
  | .received => { stats with received := value }

def set (stats : TrafficStats) (c : Counter) (value : UInt64) : TrafficStats :=
  match c with
  | .datagrams d => stats.setDirection d { stats.direction d with datagrams := value }
  | .payloadBytes d => stats.setDirection d { stats.direction d with payloadBytes := value }
  | .ipBytes d => stats.setDirection d { stats.direction d with ipBytes := value }
  | .sendFailures => { stats with sendFailures := value }

variable (stats : TrafficStats) (c : Counter) (value : UInt64)

@[simp] theorem get_set_self : (stats.set c value).get c = value := by
  cases c with
  | sendFailures => rfl
  | datagrams d | payloadBytes d | ipBytes d => cases d <;> rfl

theorem get_set_of_ne {c c' : Counter} (h : c' ≠ c) :
    (stats.set c value).get c' = stats.get c' := by
  cases c with
  | sendFailures => cases c' <;> first | rfl | exact absurd rfl h
  | datagrams d | payloadBytes d | ipBytes d =>
    cases d <;> cases c' with
    | sendFailures => rfl
    | datagrams d' | payloadBytes d' | ipBytes d' => cases d' <;> first | rfl | exact absurd rfl h

@[simp] theorem incomplete_set : (stats.set c value).incomplete = stats.incomplete := by
  cases c with
  | sendFailures => rfl
  | datagrams d | payloadBytes d | ipBytes d => cases d <;> rfl

end TrafficStats

/-- A call of `snapshot`, with the loads it has still to make and what it has loaded. -/
structure Reader where
  todo : List Field
  stats : TrafficStats
  deriving DecidableEq, Repr

def Reader.begin : Reader := ⟨fields, ⟨⟨0, 0, 0⟩, ⟨0, 0, 0⟩, 0, false⟩⟩

/-- The counters, and the latest call of `snapshot`. -/
structure Watched (ι : Type) where
  state : State ι
  reader : Reader

inductive Watched.Label (ι : Type) where
  | task (i : ι) (op : Op)
  | snapshot
  | load

variable {ι : Type} [DecidableEq ι]

def State.load (s : State ι) (stats : TrafficStats) : Field → TrafficStats
  | .counter c => stats.set c (s.counters c)
  | .incomplete => { stats with incomplete := s.incomplete }

def Watched.step (w : Watched ι) : Watched.Label ι → Option (Watched ι)
  | .task i op => (Traffic.step w.state i op).map fun state => { w with state }
  | .snapshot => some { w with reader := .begin }
  | .load =>
    match w.reader.todo with
    | [] => none
    | field :: todo => some { w with reader := ⟨todo, w.state.load w.reader.stats field⟩ }

def watched (calls : ι → List Call) : Lts (Watched ι) (Watched.Label ι) where
  init w := w.state = start calls ∧ w.reader = .begin
  step w label w' := w.step label = some w'

/-! ### What is sampled -/

def State.Before (s t : State ι) : Prop :=
  (∀ c, s.counters c ≤ t.counters c) ∧ (s.incomplete = true → t.incomplete = true)

/-- The field was loaded between the two states. -/
def Sampled (s t : State ι) (stats : TrafficStats) : Field → Prop
  | .counter c => s.counters c ≤ stats.get c ∧ stats.get c ≤ t.counters c
  | .incomplete => (s.incomplete = true → stats.incomplete = true) ∧
      (stats.incomplete = true → t.incomplete = true)

variable {calls : ι → List Call} {s t u : State ι} {i : ι} {w w' : Watched ι}
  {label : Watched.Label ι}
  {labels : List (Watched.Label ι)} {stats : TrafficStats} {field : Field}

omit [DecidableEq ι] in
theorem State.Before.trans (h : s.Before t) (h' : t.Before u) : s.Before u :=
  ⟨fun c => UInt64.le_trans (h.1 c) (h'.1 c), h'.2 ∘ h.2⟩

omit [DecidableEq ι] in
theorem Sampled.trans (h : Sampled s t stats field) (ht : t.Before u) :
    Sampled s u stats field := by
  cases field with
  | counter c => exact ⟨h.1, UInt64.le_trans h.2 (ht.1 c)⟩
  | incomplete => exact ⟨h.1, ht.2 ∘ h.2⟩

omit [DecidableEq ι] in
theorem sampled_load_self (h : s.Before t) (stats : TrafficStats) (field : Field) :
    Sampled s t (t.load stats field) field := by
  cases field with
  | counter c =>
    simp only [Sampled, State.load, TrafficStats.get_set_self]
    exact ⟨h.1 c, UInt64.le_refl _⟩
  | incomplete => exact ⟨h.2, id⟩

omit [DecidableEq ι] in
/-- A load changes no other field. -/
theorem sampled_load_of_ne {field' : Field} (hne : field' ≠ field) :
    Sampled s t (t.load stats field) field' ↔ Sampled s t stats field' := by
  cases field with
  | counter c =>
    cases field' with
    | counter c' =>
      have hc : c' ≠ c := fun h => hne (h ▸ rfl)
      simp only [Sampled, State.load, TrafficStats.get_set_of_ne _ _ hc]
    | incomplete => simp only [Sampled, State.load, TrafficStats.incomplete_set]
  | incomplete =>
    cases field' with
    | counter c' => exact Iff.rfl
    | incomplete => exact absurd rfl hne

/-- Whatever has been loaded was loaded since `s`. -/
structure Since (s : State ι) (w : Watched ι) : Prop where
  before : s.Before w.state
  sampled : ∀ field, field ∉ w.reader.todo → Sampled s w.state w.reader.stats field

theorem mem_fields (field : Field) : field ∈ fields := by
  cases field with
  | incomplete => decide
  | counter c =>
    cases c with
    | sendFailures => decide
    | datagrams d | payloadBytes d | ipBytes d => cases d <;> decide

omit [DecidableEq ι] in
theorem since_begin (hbefore : s.Before w.state) (h : w.reader = .begin) : Since s w := by
  refine ⟨hbefore, fun field hfield => ?_⟩
  rw [h] at hfield
  exact absurd (mem_fields field) hfield

theorem since_step (h : Since s w) (hstep : w.step label = some w') : Since s w' := by
  cases label with
  | task i op =>
    obtain ⟨state, hstate, rfl⟩ := Option.map_eq_some_iff.mp hstep
    have hbefore : w.state.Before state := mono_step hstate
    exact ⟨h.before.trans hbefore, fun field hfield => (h.sampled field hfield).trans hbefore⟩
  | snapshot =>
    cases hstep
    exact since_begin h.before rfl
  | load =>
    unfold Watched.step at hstep
    dsimp only at hstep
    split at hstep
    · cases hstep
    next field todo htodo =>
      cases hstep
      refine ⟨h.before, fun field' hfield' => ?_⟩
      by_cases heq : field' = field
      · subst heq
        exact sampled_load_self h.before _ _
      · refine (sampled_load_of_ne heq).mpr (h.sampled field' ?_)
        rw [htodo]
        exact fun hmem => (List.mem_cons.mp hmem).elim heq hfield'

/-- Each field of a snapshot lies between its values at the beginning and at the end. -/
theorem sampled_run (hrun : (watched calls).Run w labels w') (hbegin : w.reader = .begin)
    (hend : w'.reader.todo = []) (field : Field) :
    Sampled w.state w'.state w'.reader.stats field := by
  have hsince : Since w.state w := since_begin ⟨fun c => UInt64.le_refl _, id⟩ hbegin
  have hsince' : Since w.state w' := hrun.preserves (fun _ _ _ h hstep => since_step h hstep) hsince
  refine hsince'.sampled field ?_
  rw [hend]
  exact List.not_mem_nil

/-- Of two snapshots, one after the other, the second is nowhere behind the first. -/
theorem snapshots_mono {v : Watched ι} {labels' : List (Watched.Label ι)}
    (hrun : (watched calls).Run v labels w) (hbegin : v.reader = .begin)
    (hend : w.reader.todo = []) (hrun' : (watched calls).Run { w with reader := .begin } labels' w')
    (hend' : w'.reader.todo = []) :
    (∀ c, w.reader.stats.get c ≤ w'.reader.stats.get c) ∧
      (w.reader.stats.incomplete = true → w'.reader.stats.incomplete = true) := by
  have hfirst := sampled_run hrun hbegin hend
  have hsecond := sampled_run hrun' rfl hend'
  exact ⟨fun c => UInt64.le_trans (hfirst (.counter c)).2 (hsecond (.counter c)).1,
    (hsecond .incomplete).1 ∘ (hfirst .incomplete).2⟩

/-! ### What a snapshot counts -/

/-- The first `n i` calls of each task `i`. -/
def upTo (calls : ι → List Call) (n : ι → ℕ) (i : ι) : List Call := (calls i).take (n i)

/-- The first `n i` calls of each task `i` have been applied. -/
def State.Applied (s : State ι) (calls : ι → List Call) (n : ι → ℕ) : Prop :=
  ∀ i, (s.tasks i).pending <:+ ((calls i).drop (n i)).flatMap Call.adds

/-- Nothing of the other calls has been applied. -/
def State.Untouched (s : State ι) (calls : ι → List Call) (n : ι → ℕ) : Prop :=
  ∀ i, ((calls i).drop (n i)).flatMap Call.adds <:+ (s.tasks i).pending

theorem added_append (c : Counter) (adds adds' : List Add) :
    added c (adds ++ adds') = added c adds + added c adds' := by
  simp [added]

theorem added_le_of_suffix {c : Counter} {adds adds' : List Add} (h : adds <:+ adds') :
    added c adds ≤ added c adds' := by
  obtain ⟨front, rfl⟩ := h
  rw [added_append]
  omega

theorem reachable_state (h : (watched calls).Reachable w) : (lts calls).Reachable w.state := by
  refine h.invariant (P := fun w => (lts calls).Reachable w.state) ?_ ?_
  · rintro w ⟨hstart, -⟩
    exact .init hstart
  · intro w label w' _ hw hstep
    cases label with
    | task i op =>
      obtain ⟨state, hstate, rfl⟩ := Option.map_eq_some_iff.mp hstep
      exact hw.step (i := (i, op)) hstate
    | snapshot =>
      cases hstep
      exact hw
    | load =>
      unfold watched Watched.step at hstep
      dsimp only at hstep
      split at hstep
      · cases hstep
      · cases hstep
        exact hw

section Totals

variable [Fintype ι] {applied : Counter → ℕ} {n : ι → ℕ}

omit [DecidableEq ι] in
theorem total_upTo_add (hfits : ∀ i, ∀ call ∈ calls i, call.Fits) (n : ι → ℕ) (c : Counter) :
    total (upTo calls n) c + ∑ i, added c (((calls i).drop (n i)).flatMap Call.adds) =
      ∑ i, added c ((calls i).flatMap Call.adds) := by
  rw [total, ← Finset.sum_add_distrib]
  refine Finset.sum_congr rfl fun i _ => ?_
  have hfirst : ∀ call ∈ upTo calls n i, call.Fits := fun call hcall =>
    hfits i call (List.mem_of_mem_take hcall)
  rw [← added_flatMap hfirst, ← added_append, ← List.flatMap_append, upTo, List.take_append_drop]

omit [DecidableEq ι] in
theorem total_le_applied (hfits : ∀ i, ∀ call ∈ calls i, call.Fits)
    (h : Exact (fun c => ∑ i, added c ((calls i).flatMap Call.adds)) s applied)
    (hn : s.Applied calls n) (c : Counter) : total (upTo calls n) c ≤ applied c := by
  have hremaining : remaining s c ≤ ∑ i, added c (((calls i).drop (n i)).flatMap Call.adds) :=
    Finset.sum_le_sum fun i _ => added_le_of_suffix (hn i)
  have htotal := total_upTo_add hfits n c
  have happlied : applied c + remaining s c = _ := h.applied_add c
  omega

omit [DecidableEq ι] in
theorem applied_le_total (hfits : ∀ i, ∀ call ∈ calls i, call.Fits)
    (h : Exact (fun c => ∑ i, added c ((calls i).flatMap Call.adds)) s applied)
    (hn : s.Untouched calls n) (c : Counter) : applied c ≤ total (upTo calls n) c := by
  have hremaining : ∑ i, added c (((calls i).drop (n i)).flatMap Call.adds) ≤ remaining s c :=
    Finset.sum_le_sum fun i _ => added_le_of_suffix (hn i)
  have htotal := total_upTo_add hfits n c
  have happlied : applied c + remaining s c = _ := h.applied_add c
  omega

/-- A snapshot never reports more than there is, and all of it once the tasks have finished. -/
theorem snapshot_total (hfits : ∀ i, ∀ call ∈ calls i, call.Fits)
    (hreachable : (watched calls).Reachable w) (hrun : (watched calls).Run w labels w')
    (hbegin : w.reader = .begin) (hend : w'.reader.todo = []) :
    (∀ c, (w'.reader.stats.get c).toNat ≤ total calls c) ∧
      (w'.reader.stats.incomplete = true → ∃ c, 2 ^ 64 - 1 < total calls c) ∧
      (w.state.Finished → (∀ c, (w'.reader.stats.get c).toNat = min (2 ^ 64 - 1) (total calls c)) ∧
        ((∃ c, 2 ^ 64 - 1 < total calls c) → w'.reader.stats.incomplete = true)) := by
  have htotals : (fun c => ∑ i, added c ((calls i).flatMap Call.adds)) = total calls :=
    funext fun c => Finset.sum_congr rfl fun i _ => added_flatMap (hfits i) c
  obtain ⟨first, hfirst⟩ := exact_reachable (reachable_state hreachable)
  obtain ⟨last, hlast⟩ := exact_reachable (reachable_state (hrun.reachable hreachable))
  rw [htotals] at hfirst hlast
  have hsampled := sampled_run hrun hbegin hend
  have hle (c : Counter) : (w'.reader.stats.get c).toNat ≤ min (2 ^ 64 - 1) (total calls c) := by
    have hget := (hsampled (.counter c)).2
    rw [UInt64.le_iff_toNat_le, hlast.counters] at hget
    have happlied := hlast.applied_add c
    omega
  refine ⟨fun c => (hle c).trans (min_le_right _ _), fun hincomplete => ?_, fun hfinished => ?_⟩
  · obtain ⟨c, hc⟩ := hlast.incomplete.mp (.inl ((hsampled .incomplete).2 hincomplete))
    have happlied := hlast.applied_add c
    exact ⟨c, by omega⟩
  · obtain ⟨hcounters, hincomplete⟩ := hfirst.of_finished hfinished
    refine ⟨fun c => le_antisymm (hle c) ?_,
      fun hc => (hsampled .incomplete).1 (hincomplete.mpr hc)⟩
    have hget := (hsampled (.counter c)).1
    rwa [UInt64.le_iff_toNat_le, hcounters] at hget

/-- A snapshot counts, up to saturation, every call that was applied when it began and no call that
was untouched when it ended, provided that every datagram has a length that can be counted. It
reports an overflow only if there is one, and it does not miss one that was there at the beginning,
unless a task has yet to say so. -/
theorem snapshot_regular (hfits : ∀ i, ∀ call ∈ calls i, call.Fits)
    (hreachable : (watched calls).Reachable w) (hrun : (watched calls).Run w labels w')
    (hbegin : w.reader = .begin) (hend : w'.reader.todo = []) {n m : ι → ℕ}
    (hn : w.state.Applied calls n) (hm : w'.state.Untouched calls m) :
    (∀ c, min (2 ^ 64 - 1) (total (upTo calls n) c) ≤ (w'.reader.stats.get c).toNat ∧
      (w'.reader.stats.get c).toNat ≤ min (2 ^ 64 - 1) (total (upTo calls m) c)) ∧
    (w'.reader.stats.incomplete = true → ∃ c, 2 ^ 64 - 1 < total (upTo calls m) c) ∧
    (∀ c, 2 ^ 64 - 1 < total (upTo calls n) c → (∀ i, ¬ (w.state.tasks i).Storing) →
      w'.reader.stats.incomplete = true) := by
  obtain ⟨first, hfirst⟩ := exact_reachable (reachable_state hreachable)
  obtain ⟨last, hlast⟩ := exact_reachable (reachable_state (hrun.reachable hreachable))
  have hlower := total_le_applied hfits hfirst hn
  have hupper := applied_le_total hfits hlast hm
  have hsampled := sampled_run hrun hbegin hend
  refine ⟨fun c => ?_, fun hincomplete => ?_, fun c hlt hstoring => ?_⟩
  · obtain ⟨hge, hle⟩ := hsampled (.counter c)
    rw [UInt64.le_iff_toNat_le, hfirst.counters] at hge
    rw [UInt64.le_iff_toNat_le, hlast.counters] at hle
    have hlower := hlower c
    have hupper := hupper c
    omega
  · obtain ⟨c, hc⟩ := hlast.incomplete.mp (.inl ((hsampled .incomplete).2 hincomplete))
    exact ⟨c, hc.trans_le (hupper c)⟩
  · have hoverflow := hfirst.incomplete.mpr ⟨c, hlt.trans_le (hlower c)⟩
    refine (hsampled .incomplete).1 (hoverflow.resolve_right ?_)
    rintro ⟨i, hi⟩
    exact hstoring i hi

/-! ### Retries -/

/-- The counter has changed since the task read it. -/
def State.stale (s : State ι) (i : ι) : Bool :=
  match s.tasks i with
  | .exchange add previous _ => s.counters add.counter ≠ previous
  | _ => false

/-- An exchange fails only if the counter has changed. -/
def Genuine (s : State ι) (label : ι × Op) : Prop :=
  label.2 = .exchange false → s.stale label.1 = true

omit [DecidableEq ι] [Fintype ι] in
instance {label : ι × Op} : Decidable (Genuine s label) := inferInstanceAs (Decidable (_ → _))

/-- The operations that a task has still to make, if each exchange can fail `n + 1` times. -/
def Task.work (n : ℕ) : Task → ℕ
  | .load _ rest => (n + 2) * (rest.length + 1)
  | .exchange _ _ rest => (n + 2) * rest.length + (n + 1)
  | .store rest => (n + 2) * rest.length + 1
  | .finished => 0

def State.work (s : State ι) : ℕ :=
  ∑ i, ((s.tasks i).work (Fintype.card ι) + (s.stale i).toNat)

@[simp] theorem Task.work_next (n : ℕ) (adds : List Add) :
    (Task.next adds).work n = (n + 2) * adds.length := by
  cases adds <;> rfl

omit [DecidableEq ι] [Fintype ι] in
theorem stale_of_exchange {add : Add} {rest : List Add}
    (h : s.tasks i = .exchange add (s.counters add.counter) rest) : s.stale i = false := by
  simp [State.stale, h]

omit [DecidableEq ι] [Fintype ι] in
theorem stale_of_next {adds : List Add} (h : s.tasks i = .next adds) : s.stale i = false := by
  unfold State.stale
  rw [h]
  cases adds <;> rfl

omit [DecidableEq ι] [Fintype ι] in
theorem stale_of_store {rest : List Add} (h : s.tasks i = .store rest) : s.stale i = false := by
  simp [State.stale, h]

/-- A step of one task that changes no counter. -/
theorem work_lt_of_setTask {task : Task} (hcounters : t.counters = s.counters)
    (htasks : t.tasks = Function.update s.tasks i task)
    (hlt : task.work (Fintype.card ι) + (t.stale i).toNat <
      (s.tasks i).work (Fintype.card ι) + (s.stale i).toNat) : t.work < s.work := by
  refine Finset.sum_lt_sum (fun j _ => ?_) ⟨i, Finset.mem_univ i, ?_⟩
  · by_cases hj : j = i
    · subst hj
      rw [htasks, Function.update_self]
      exact hlt.le
    · have hstale : t.stale j = s.stale j := by
        simp only [State.stale, hcounters, htasks, Function.update_of_ne hj]
      rw [hstale, htasks, Function.update_of_ne hj]
  · rw [htasks, Function.update_self]
    exact hlt

/-- A successful exchange can fail at most one exchange of each other task. -/
theorem work_lt_of_exchange {add : Add} {rest : List Add}
    (htask : s.tasks i = .exchange add (s.counters add.counter) rest) :
    (s.exchange i add (s.counters add.counter) rest).work < s.work := by
  set t := s.exchange i add (s.counters add.counter) rest with ht
  have hself : (t.tasks i).work (Fintype.card ι) + (t.stale i).toNat ≤
      (Fintype.card ι + 2) * rest.length + 1 := by
    have htask' : t.tasks i = if checkedAdd64 (s.counters add.counter) add.value = none
        then .store rest else .next rest := Function.update_self ..
    split at htask'
    · rw [htask', stale_of_store htask']
      exact le_refl _
    · rw [htask', stale_of_next htask', Task.work_next]
      exact Nat.le_succ _
  have hothers : ∑ j ∈ Finset.univ.erase i,
      ((t.tasks j).work (Fintype.card ι) + (t.stale j).toNat) ≤
      ∑ j ∈ Finset.univ.erase i, ((s.tasks j).work (Fintype.card ι) + (s.stale j).toNat) +
        (Fintype.card ι - 1) := by
    have hcard : ∑ j ∈ Finset.univ.erase i, 1 = Fintype.card ι - 1 := by
      rw [Finset.sum_const, Finset.card_erase_of_mem (Finset.mem_univ i), smul_eq_mul, mul_one]
      rfl
    rw [← hcard, ← Finset.sum_add_distrib]
    refine Finset.sum_le_sum fun j hj => ?_
    have hne := Finset.ne_of_mem_erase hj
    have htask' : t.tasks j = s.tasks j := Function.update_of_ne hne ..
    have hle := Bool.toNat_le (t.stale j)
    rw [htask']
    omega
  have hpos : 0 < Fintype.card ι := Fintype.card_pos_iff.mpr ⟨i⟩
  have hbefore : (s.tasks i).work (Fintype.card ι) =
      (Fintype.card ι + 2) * rest.length + (Fintype.card ι + 1) := by
    rw [htask]
    rfl
  rw [State.work, State.work, ← Finset.add_sum_erase _ _ (Finset.mem_univ i),
    ← Finset.add_sum_erase Finset.univ (fun j => (s.tasks j).work _ + _) (Finset.mem_univ i)]
  omega

theorem work_step {op : Op} (hgenuine : Genuine s (i, op)) (hstep : step s i op = some t) :
    t.work < s.work := by
  cases steps_of_step hstep with
  | load htask =>
    refine work_lt_of_setTask rfl rfl ?_
    rw [stale_of_exchange (Function.update_self ..), htask]
    simp only [Task.work, Bool.toNat_false, Nat.mul_add]
    omega
  | success htask => exact work_lt_of_exchange htask
  | failure htask =>
    refine work_lt_of_setTask rfl rfl ?_
    rw [stale_of_exchange (Function.update_self ..), hgenuine rfl, htask]
    exact Nat.lt_succ_self _
  | store htask =>
    refine work_lt_of_setTask rfl rfl ?_
    rw [stale_of_next (Function.update_self ..), htask, Task.work_next]
    exact Nat.lt_add_right _ (Nat.lt_succ_self _)

omit [Fintype ι] in
/-- A task that has not finished can go on, whatever the others do. -/
theorem exists_step_of_unfinished (h : s.tasks i ≠ .finished) :
    ∃ op t, Genuine s (i, op) ∧ step s i op = some t := by
  cases htask : s.tasks i with
  | load add rest => exact ⟨.load, _, nofun, by simp [step, htask]; rfl⟩
  | exchange add previous rest =>
    by_cases hprevious : s.counters add.counter = previous
    · exact ⟨.exchange true, _, nofun, by simp [step, htask, hprevious]; rfl⟩
    · exact ⟨.exchange false, _, fun _ => by simp [State.stale, htask, hprevious],
        by simp [step, htask]; rfl⟩
  | store rest => exact ⟨.store, _, nofun, by simp [step, htask]; rfl⟩
  | finished => exact absurd htask h

/-- However the tasks interleave, if an exchange fails only because the counter has changed, then
all calls together take a bounded number of atomic operations, and no task waits for another. -/
theorem retries_bounded {labels : List (ι × Op)}
    (hrun : ((lts calls).restrict Genuine).Run (start calls) labels s) :
    labels.length ≤ (Fintype.card ι + 2) * ∑ i, ((calls i).flatMap Call.adds).length ∧
      ∀ i, s.tasks i ≠ .finished → ∃ op t, ((lts calls).restrict Genuine).step s (i, op) t := by
  refine ⟨?_, fun i hi => ?_⟩
  · have hstart : (start calls).work =
        (Fintype.card ι + 2) * ∑ i, ((calls i).flatMap Call.adds).length := by
      rw [Finset.mul_sum]
      refine Finset.sum_congr rfl fun i _ => ?_
      have htask : (start calls).tasks i = .next ((calls i).flatMap Call.adds) := rfl
      rw [stale_of_next htask, htask, Task.work_next]
      rfl
    have hlength : labels.length + s.work ≤ (start calls).work := by
      refine hrun.length_add_le State.work ?_
      rintro s label t ⟨hgenuine, hstep⟩
      exact work_step hgenuine hstep
    omega
  · obtain ⟨op, t, hgenuine, hstep⟩ := exists_step_of_unfinished hi
    exact ⟨op, t, hgenuine, hstep⟩

end Totals

/-! ### Runs on given calls -/

def sampleWatched : Watched Bool := ⟨start sampleCalls, .begin⟩

/-- A datagram is counted after the first load of the snapshot. -/
def sampleTorn : List (Watched.Label Bool) :=
  [.load, .task false .load, .task false (.exchange true), .task false .load,
    .task false (.exchange true), .task false .load, .task false (.exchange true)] ++
    List.replicate 7 .load

theorem snapshot_regular_sample : ∃ w, (watched sampleCalls).Run sampleWatched sampleTorn w ∧
    w.reader.stats.sent = ⟨0, 10, 38⟩ ∧
    ∀ c, min (2 ^ 64 - 1) (total (upTo sampleCalls fun _ => 0) c) ≤ (w.reader.stats.get c).toNat ∧
      (w.reader.stats.get c).toNat ≤
        min (2 ^ 64 - 1) (total (upTo sampleCalls fun i => if i then 0 else 1) c) := by
  obtain ⟨w, hw, htest⟩ := (Option.any_eq_true _ _).mp
    (show (Lts.runSteps Watched.step sampleTorn sampleWatched).any (fun w => w.reader.todo = [] ∧
      w.reader.stats.sent = ⟨0, 10, 38⟩ ∧ ∀ i, ((sampleCalls i).drop (if i then 0 else 1)).flatMap
        Call.adds <:+ (w.state.tasks i).pending) = true by decide +kernel)
  obtain ⟨hend, hsent, huntouched⟩ := of_decide_eq_true htest
  have hrun : (watched sampleCalls).Run sampleWatched sampleTorn w :=
    .of_runSteps (fun _ _ _ _ h => h) hw
  have hfits : ∀ i, ∀ call ∈ sampleCalls i, call.Fits := by
    rintro (_ | _) call hcall (_ | _) <;> cases List.mem_singleton.mp hcall <;> decide
  have hbegin : sampleWatched.state.Applied sampleCalls fun _ => 0 := by
    rintro (_ | _) <;> exact List.suffix_refl _
  exact ⟨w, hrun, hsent,
    (snapshot_regular hfits (.init ⟨rfl, rfl⟩) hrun rfl hend hbegin huntouched).1⟩

/-- Two tasks count a datagram at the same time. -/
def sampleContended : Bool → List Call := fun _ => [.sent 10 samplePeer (.ok 10)]

/-- One exchange fails because the other task was faster. -/
def sampleRetry : List (Bool × Op) :=
  [(false, .load), (true, .load), (true, .exchange true), (false, .exchange false),
    (false, .exchange true)]

theorem retries_bounded_sample : ∃ s, ((lts sampleContended).restrict Genuine).Run
      (start sampleContended) sampleRetry s ∧
    sampleRetry.length ≤
      (Fintype.card Bool + 2) * ∑ i, ((sampleContended i).flatMap Call.adds).length ∧
    ∀ i, s.tasks i ≠ .finished →
      ∃ op t, ((lts sampleContended).restrict Genuine).step s (i, op) t := by
  obtain ⟨s, hs, -⟩ := (Option.any_eq_true _ _).mp
    (show (Lts.runSteps (fun s label => if Genuine s label then step s label.1 label.2 else none)
      sampleRetry (start sampleContended)).any (fun _ => true) = true by decide +kernel)
  have hrun : ((lts sampleContended).restrict Genuine).Run
      (start sampleContended) sampleRetry s := by
    refine .of_runSteps (fun label _ s t hstep => ?_) hs
    split at hstep
    next hgenuine => exact ⟨hgenuine, hstep⟩
    next => cases hstep
  exact ⟨s, hrun, retries_bounded hrun⟩

end Traffic

end Ratelimitly
