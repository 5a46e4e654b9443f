import Mathlib.Tactic
import Ratelimitly.Flights
import Ratelimitly.Horizon
import Ratelimitly.Selection

/-! When a registered request decides, compared with the end of its deduplication lifetime. -/
namespace Ratelimitly

open Lib Rounds

namespace Registration

variable {reg : Registration} {s t : State} {k : ℕ} {log : List Entry} {e : Entry}

/-- No response has been accepted. -/
def Silent (log : List Entry) : Prop :=
  ∀ e ∈ log, ∀ packet result, e.effect ≠ .accepted packet result

def Undecided (log : List Entry) : Prop := ∀ e ∈ log, ∀ outcome, e.effect ≠ .decided outcome

/-- When a request decides. It fails only with the error of a broadcast to which no send succeeded,
and it times out only at the end of its lifetime; both are late by the delay, and no response was
accepted before. -/
inductive Verdict (reg : Registration) (log : List Entry) (e : Entry) :
    Outcome CoreError (Option RateLimitResult) → Prop
  | selected {result} : e.time ≤ reg.expiry + e.delay → Verdict reg log e (.ok (some result))
  | timeout : e.time = reg.expiry + e.delay → Silent log → Verdict reg log e (.ok none)
  | failed {k error} : k ≤ reg.lastRound → e.time = reg.nominal k + e.delay → Silent log →
      Verdict reg log e (.err (.io error))

def Due (reg : Registration) (log : List Entry) : Prop :=
  ∀ e ∈ log, ∀ outcome, e.effect = .decided outcome → Verdict reg log e outcome

theorem Silent.cons (h : Silent log) (he : ∀ packet result, e.effect ≠ .accepted packet result) :
    Silent (e :: log) := by
  intro e' he'
  rcases List.mem_cons.mp he' with rfl | he'
  · exact he
  · exact h e' he'

theorem Undecided.cons (h : Undecided log) (he : ∀ outcome, e.effect ≠ .decided outcome) :
    Undecided (e :: log) := by
  intro e' he'
  rcases List.mem_cons.mp he' with rfl | he'
  · exact he
  · exact h e' he'

theorem Undecided.due (h : Undecided log) : Due reg log :=
  fun e he outcome heff => absurd heff (h e he outcome)

theorem Verdict.cons {e' : Entry} {outcome : Outcome CoreError (Option RateLimitResult)}
    (h : Verdict reg log e outcome) (he' : ∀ packet result, e'.effect ≠ .accepted packet result) :
    Verdict reg (e' :: log) e outcome := by
  cases h with
  | selected hle => exact .selected hle
  | timeout htime hsilent => exact .timeout htime (hsilent.cons he')
  | failed hk htime hsilent => exact .failed hk htime (hsilent.cons he')

theorem Due.cons (h : Due reg log) (hdecided : ∀ outcome, e.effect ≠ .decided outcome)
    (haccepted : ∀ packet result, e.effect ≠ .accepted packet result) : Due reg (e :: log) := by
  intro e' he' outcome heff
  rcases List.mem_cons.mp he' with rfl | he'
  · exact absurd heff (hdecided outcome)
  · exact (h e' he' outcome heff).cons haccepted

theorem undecided_of_upto (h : Upto reg.lastRound (2 * reg.lastRound + 3) log) : Undecided log := by
  intro e he outcome heff
  have hle := h e he
  rw [heff] at hle
  simp only [Effect.rank] at hle
  omega

/-- The final receive phase of an accepted policy ends with the lifetime. -/
theorem nominal_add_final (h : reg.policy.Accepted reg.dedupTtlMs.toNat) :
    reg.nominal (reg.lastRound + 1) + reg.units reg.policy.finalReceiveUnits = reg.expiry := by
  have hhorizon := h.horizon_eq
  have hlt := h.horizon_lt
  rw [units_eq (by omega), nominal, expiry, hhorizon, lastRound, fromMillis, fromMillis, fromMillis]
  ring

theorem nominal_le_expiry (h : reg.policy.Accepted reg.dedupTtlMs.toNat)
    (hk : k ≤ reg.lastRound + 1) : reg.nominal k ≤ reg.expiry :=
  Nat.add_le_add_left (Nat.mul_le_mul_right _ (h.elapsedMs_le hk)) _

/-! ### The invariant -/

/-- What holds before the sends of a delivery. -/
def DeliveryDue (reg : Registration) (s : State) : Delivery → Prop
  | .round k => k ≤ reg.lastRound ∧ s.clock = reg.nominal k + s.delay ∧
      Undecided s.log ∧ Silent s.log
  | .completion _ => True

/-- The final receive phase would end with the lifetime, but for the delay. -/
def PcDue (reg : Registration) (s : State) : Prop :=
  match s.pc with
  | .receiving .final deadline | .accepting .final deadline _ =>
    max s.clock deadline = reg.expiry + s.delay
  | _ => True

structure Dues (reg : Registration) (s : State) : Prop where
  log : Due reg s.log
  pc : PcDue reg s

theorem dues_conclude {outcome : Outcome CoreError (Option RateLimitResult)} (h : Undecided s.log)
    (hverdict : Verdict reg s.log ⟨s.clock, s.delay, .decided outcome⟩ outcome) :
    reg.Dues (reg.conclude outcome s) := by
  have hdecided : Due reg (s.emit (.decided outcome)).log := by
    intro e he outcome' heff
    rcases List.mem_cons.mp he with rfl | he
    · cases heff
      exact hverdict.cons (by simp)
    · exact absurd heff (h e he outcome')
  unfold conclude
  dsimp only
  split
  · split
    · exact ⟨hdecided.cons (by simp) (by simp), trivial⟩
    · exact ⟨hdecided, trivial⟩
  all_goals exact ⟨hdecided, trivial⟩

theorem dues_receiveFinal {deadline : ℕ} (h : Undecided s.log) (hsilent : Silent s.log)
    (hmax : max s.clock deadline = reg.expiry + s.delay) :
    reg.Dues (reg.receiveFinal deadline s) := by
  unfold receiveFinal
  split
  · exact ⟨h.due, hmax⟩
  next hle =>
    rw [max_eq_left (not_lt.mp hle)] at hmax
    exact dues_conclude h (.timeout hmax hsilent)

section

variable (haccepted : reg.policy.Accepted reg.dedupTtlMs.toNat)
include haccepted

theorem dues_leaveRound (h : Undecided s.log) (hk : k ≤ reg.lastRound)
    (hclock : s.clock = reg.nominal (k + 1) + s.delay) (hsilent : s.best = none → Silent s.log) :
    reg.Dues (reg.leaveRound k s) := by
  have hfinal := nominal_add_final haccepted
  unfold leaveRound
  split_ifs with hbest hlt hunits
  · obtain ⟨result, hresult⟩ := Option.isSome_iff_exists.mp hbest
    rw [hresult]
    refine dues_conclude h (.selected ?_)
    have hle := nominal_le_expiry haccepted (Nat.add_le_add_right hk 1)
    dsimp only
    omega
  · exact ⟨(h.cons (by simp)).due, trivial⟩
  all_goals
    have hnone : s.best = none := by simpa using hbest
    obtain rfl : k = reg.lastRound := le_antisymm hk (not_lt.mp hlt)
  · refine dues_receiveFinal (h.cons (by simp)) ((hsilent hnone).cons (by simp)) ?_
    show max s.clock (s.clock + _) = _ + s.delay
    rw [max_eq_right (Nat.le_add_right _ _)]
    omega
  · refine dues_conclude h (.timeout ?_ (hsilent hnone))
    have hzero : reg.units reg.policy.finalReceiveUnits = 0 := by
      have hzero : reg.policy.finalReceiveUnits.toNat = 0 :=
        Nat.le_zero.mp (UInt32.not_lt.mp hunits)
      have hproduct : reg.policy.unitMs.toNat * reg.policy.finalReceiveUnits.toNat = 0 := by
        rw [hzero, Nat.mul_zero]
      rw [units_eq (hproduct ▸ Nat.two_pow_pos 64), hproduct, fromMillis, Nat.zero_mul]
    dsimp only
    omega

theorem dues_receiveRound {deadline : ℕ} (h : Undecided s.log) (hk : k ≤ reg.lastRound)
    (hmax : max s.clock deadline = reg.nominal (k + 1) + s.delay)
    (hsilent : s.best = none → Silent s.log) : reg.Dues (reg.receiveRound k deadline s) := by
  unfold receiveRound
  split
  · exact ⟨h.due, trivial⟩
  next hle =>
    rw [max_eq_left (not_lt.mp hle)] at hmax
    exact dues_leaveRound haccepted h hk hmax hsilent

/-- What holds while a window is open. -/
def WindowDue (reg : Registration) (s : State) (deadline : ℕ) : Window → Prop
  | .round k => k ≤ reg.lastRound ∧ max s.clock deadline = reg.nominal (k + 1) + s.delay ∧
      (s.best = none → Silent s.log)
  | .final => max s.clock deadline = reg.expiry + s.delay ∧ Silent s.log

theorem dues_receive {window : Window} {deadline : ℕ} (h : Undecided s.log)
    (hw : reg.WindowDue s deadline window) : reg.Dues (reg.receive window deadline s) := by
  cases window with
  | round k => exact dues_receiveRound haccepted h hw.1 hw.2.1 hw.2.2
  | final => exact dues_receiveFinal h hw.2 hw.1

theorem dues_leave {window : Window} {deadline : ℕ} (h : Undecided s.log)
    (hw : reg.WindowDue s deadline window) (hle : deadline ≤ s.clock) :
    reg.Dues (reg.leave window s) := by
  cases window with
  | round k =>
    obtain ⟨hk, hmax, hsilent⟩ := hw
    rw [max_eq_left hle] at hmax
    exact dues_leaveRound haccepted h hk hmax hsilent
  | final =>
    obtain ⟨hmax, hsilent⟩ := hw
    rw [max_eq_left hle] at hmax
    exact dues_conclude h (.timeout hmax hsilent)

theorem dues_onPacket {window : Window} {deadline : ℕ} {packet : ResponsePacket}
    (h : Undecided s.log) (hw : reg.WindowDue s deadline window) :
    reg.Dues (reg.onPacket window deadline packet s) := by
  unfold onPacket
  split
  · exact dues_receive haccepted h hw
  · refine ⟨(h.cons (by simp)).due, ?_⟩
    cases window with
    | round k => trivial
    | final => exact hw.1

theorem dues_onAccepted {window : Window} {deadline : ℕ} {result : RateLimitResult}
    (h : Undecided s.log) (hk : ∀ k, window = .round k → k ≤ reg.lastRound ∧
      max s.clock deadline = reg.nominal (k + 1) + s.delay)
    (hfinal : window = .final → max s.clock deadline = reg.expiry + s.delay) :
    reg.Dues (reg.onAccepted window deadline result s) := by
  have hclock : s.clock ≤ max s.clock deadline := le_max_left _ _
  unfold onAccepted
  split
  · rw [hfinal rfl] at hclock
    exact dues_conclude h (.selected hclock)
  next k =>
    obtain ⟨hk, hmax⟩ := hk k rfl
    dsimp only
    split
    · obtain ⟨best, hbest⟩ := Option.ne_none_iff_exists'.mp (keepOlder_ne_none s.best result)
      rw [hbest]
      refine dues_conclude h (.selected ?_)
      have hle := nominal_le_expiry haccepted (Nat.add_le_add_right hk 1)
      dsimp only
      omega
    · exact dues_receiveRound haccepted h hk hmax fun hnone => absurd hnone (keepOlder_ne_none _ _)

/-- A delivery fails with the error of a send. -/
theorem dues_afterDelivery {delivery : Delivery} {result : Except CoreError Unit}
    (hlog : Due reg s.log) (hd : reg.DeliveryDue s delivery)
    (hresult : ∀ e, result = .error e → ∃ error, e = .io error) :
    reg.Dues (reg.afterDelivery delivery result s) := by
  unfold afterDelivery
  split
  · exact ⟨hlog, trivial⟩
  next k =>
    obtain ⟨hk, hclock, hundecided, hsilent⟩ := hd
    split
    next e =>
      obtain ⟨error, rfl⟩ := hresult e rfl
      exact dues_conclude hundecided (.failed hk hclock hsilent)
    · obtain ⟨gap, hgap⟩ := haccepted.units_ok k hk
      rw [hgap]
      refine dues_receiveRound haccepted hundecided hk ?_ fun _ => hsilent
      rw [max_eq_right (Nat.le_add_right _ _), nominal_succ haccepted hk hgap, hclock]
      omega

theorem dues_finishSends {delivery : Delivery} {sends : SendLoop} (hlog : Due reg s.log)
    (hd : reg.DeliveryDue s delivery) : reg.Dues (reg.finishSends delivery sends s) := by
  unfold finishSends
  split
  · split
    · refine dues_afterDelivery haccepted hlog hd ?_
      rintro _ ⟨⟩
      exact ⟨_, rfl⟩
    · exact dues_afterDelivery haccepted hlog hd nofun
  · split
    · exact ⟨hlog, trivial⟩
    · exact dues_afterDelivery haccepted hlog hd nofun

theorem dues_sendNext {delivery : Delivery} {socket : ℕ} {targets : List SocketAddr}
    {sends : SendLoop} (hlog : Due reg s.log) (hd : reg.DeliveryDue s delivery) :
    reg.Dues (reg.sendNext delivery socket targets sends s) := by
  induction targets with
  | nil => exact dues_finishSends haccepted hlog hd
  | cons target rest ih =>
    rw [sendNext]
    split
    · exact ih
    · exact ⟨hlog.cons (by simp) (by simp), trivial⟩

end

/-! ### Runs -/

theorem dues_advance (h : reg.Dues s) {now : ℕ} (hle : s.clock ≤ now) :
    reg.Dues (s.advance now) := by
  refine ⟨h.log, ?_⟩
  have hpc := h.pc
  unfold PcDue at hpc ⊢
  cases hs : s.pc with
  | receiving window deadline | accepting window deadline =>
    cases window with
    | round k => simp [State.advance, hs]
    | final =>
      simp only [hs, State.advance, State.overrun] at hpc ⊢
      omega
  | _ => simp [State.advance, hs]

theorem deliveryDue {rest : List SocketAddr} {delivery : Delivery}
    (hbooks : reg.DeliveryBooks s rest delivery) (htimely : reg.DeliveryTimely s delivery) :
    reg.DeliveryDue s delivery := by
  cases delivery with
  | completion => trivial
  | round k =>
    obtain ⟨hk, hupto, -⟩ := hbooks
    exact ⟨hk, htimely.2, undecided_of_upto (hupto.mono (by omega)), not_accepted_of_upto hk hupto⟩

theorem windowDue {window : Window} {deadline : ℕ} (hbooks : reg.WindowBooks s window)
    (htimely : reg.WindowTimely s deadline window)
    (hfinal : window = .final → max s.clock deadline = reg.expiry + s.delay) :
    reg.WindowDue s deadline window := by
  cases window with
  | round k =>
    exact ⟨hbooks.1, htimely.2,
      fun hnone => not_accepted_of_upto hbooks.1 (hbooks.2.2.1 hnone)⟩
  | final =>
    refine ⟨hfinal rfl, fun e he packet result heff => ?_⟩
    have hrank := hbooks.2 e he
    rw [heff] at hrank
    simp only [Effect.rank] at hrank
    omega

theorem dues_resumes (haccepted : reg.policy.Accepted reg.dedupTtlMs.toNat) {reply : Reply}
    (hbooked : reg.Booked s) (htimed : reg.Timed s) (h : reg.Dues s)
    (hstep : reg.Resumes s reply t) :
    reg.Dues t := by
  have hbooks := hbooked.pc
  have htimely := htimed.pc
  have hpc := h.pc
  unfold PcBooks at hbooks
  unfold PcTimely at htimely
  unfold PcDue at hpc
  cases hstep with
  | socket hs =>
    rw [hs] at hbooks htimely
    exact dues_sendNext haccepted h.log (deliveryDue hbooks.1 htimely)
  | sent hs =>
    rw [hs] at hbooks htimely
    exact dues_sendNext haccepted h.log (deliveryDue hbooks htimely)
  | @failures delivery now serverIds hs =>
    rw [hs] at hbooks htimely
    have hd := deliveryDue hbooks htimely
    refine dues_afterDelivery haccepted (h.log.cons (by simp) (by simp)) ?_ nofun
    cases delivery with
    | completion => trivial
    | round k =>
      obtain ⟨hk, hclock, hundecided, hsilent⟩ := hd
      exact ⟨hk, hclock, hundecided.cons (by simp), hsilent.cons (by simp)⟩
  | @received window deadline packet hs =>
    rw [hs] at hbooks htimely hpc
    refine dues_onPacket haccepted (undecided_of_upto hbooks.upto) (windowDue hbooks htimely ?_)
    rintro rfl
    exact hpc
  | @elapsed window deadline hs hle =>
    rw [hs] at hbooks htimely hpc
    refine dues_leave haccepted (undecided_of_upto hbooks.upto) (windowDue hbooks htimely ?_) hle
    rintro rfl
    exact hpc
  | @accepted window deadline result hs =>
    rw [hs] at hbooks htimely hpc
    obtain ⟨hupto, -, hwindow⟩ := hbooks
    refine dues_onAccepted haccepted ((undecided_of_upto hupto).cons (by simp)) ?_ ?_
    · rintro k rfl
      exact ⟨hwindow.1, htimely.2⟩
    · rintro rfl
      exact hpc

theorem dues_reachable (haccepted : reg.policy.Accepted reg.dedupTtlMs.toNat)
    (h : reg.lts.Reachable s) : reg.Dues s := by
  refine h.invariant ?_ ?_
  · rintro _ rfl
    refine ⟨fun e he outcome heff => ?_, trivial⟩
    rw [List.mem_singleton.mp he] at heff
    cases heff
  · intro s i t hreachable hs hstep
    obtain ⟨hle, hresumes⟩ := resumes_of_step hstep
    exact dues_resumes haccepted (booked_advance (booked_reachable hreachable) i.1)
      (timed_advance (timed_reachable haccepted hreachable) hle) (dues_advance hs hle) hresumes

end Registration

namespace Request

variable {client : CoreClient} {query : Query} {pc : Pc} {flight : Flight}

/-- However long the sends, the locks and the wake-ups of a call take, and whatever datagrams it
gets: it selects a response no later than the end of its deduplication lifetime, it times out
exactly then and only if it has accepted none, and it fails only with the error of a send and at the
start of a round, all but for the delay accumulated by then. -/
theorem decides_in_time (h : (lts client query).Reachable pc) (hflight : pc.flight = some flight) :
    ∀ e ∈ flight.state.log, ∀ outcome, e.effect = .decided outcome →
      Registration.Verdict flight.reg flight.state.log e outcome := by
  have hsound := sound_flight h hflight
  have hpolicy : flight.reg.policy.horizonMs client.config.apiKey.limits.dedupTtlMsMax =
      .ok flight.reg.dedupTtlMs := by
    obtain ⟨seed, -, hreg⟩ := hsound.registered.packet
    rw [hreg]
    exact hsound.registered.horizon
  exact (Registration.dues_reachable (RequestPolicy.accepted_of_horizonMs hpolicy)
    hsound.reachable).log

/-- Silence under the default policy, and a last wake-up that is 5 ms late. -/
def sampleTimeout : List Reply :=
  sampleStart ++ [.flight 20000000 .elapsed, .flight 20000000 (.socket 0),
    .flight 20000000 (.sent (.ok 100)), .flight 20000000 (.sent (.ok 100)),
    .flight 40000000 .elapsed, .flight 65000000 .elapsed]

theorem decides_in_time_sample : ∃ pc flight, (lts sampleClient sampleQuery).Reachable pc ∧
    pc.flight = some flight ∧ ∃ e ∈ flight.state.log, e.effect = .decided (.ok none) ∧
      e.delay = 5000000 ∧ Registration.Verdict flight.reg flight.state.log e (.ok none) := by
  obtain ⟨pc, hpc, htest⟩ := (Option.any_eq_true _ _).mp
    (show (sampleCall sampleTimeout).any (fun pc => pc.flight.any fun flight =>
      flight.state.log.any fun e => e.effect = .decided (.ok none) ∧ e.delay = 5000000) = true by
        decide +kernel)
  obtain ⟨flight, hflight, htest⟩ := (Option.any_eq_true _ _).mp htest
  obtain ⟨e, he, htest⟩ := List.any_eq_true.mp htest
  obtain ⟨heff, hdelay⟩ := of_decide_eq_true htest
  exact ⟨pc, flight, reachable_sampleCall hpc, hflight, e, he, heff, hdelay,
    decides_in_time (reachable_sampleCall hpc) hflight e he _ heff⟩

end Request

end Ratelimitly
