import Mathlib.Tactic
import Ratelimitly.SendSchedule

/-! When the deliveries of a request start, compared with its deduplication lifetime. -/
namespace Ratelimitly

open Lib Rounds

namespace RequestPolicy

/-- `U × (B(k) + ... + B(N) + F)`: what the policy provides for from round `k` on. -/
def remainingMs (policy : RequestPolicy) (k : ℕ) : ℕ :=
  policy.unitMs.toNat * (((policy.rounds.drop k).map policy.replayGap.gapUnits).sum +
    policy.finalReceiveUnits.toNat)

variable {policy : RequestPolicy} {horizon k : ℕ}

theorem Accepted.elapsedMs_add_remainingMs (h : policy.Accepted horizon)
    (hk : k ≤ policy.replayCount.toNat) : policy.elapsedMs k + policy.remainingMs k = horizon := by
  have hsplit : policy.rounds = List.range k ++ policy.rounds.drop k := by
    conv_lhs => rw [← List.take_append_drop k policy.rounds]
    rw [rounds, List.take_range, min_eq_left (by omega)]
  have hsum := congrArg (fun rounds => (rounds.map policy.replayGap.gapUnits).sum) hsplit
  simp only [List.map_append, List.sum_append] at hsum
  rw [h.horizon_eq, elapsedMs, elapsedMs, remainingMs, ← rounds, hsum]
  ring

theorem Accepted.elapsedMs_le (h : policy.Accepted horizon)
    (hk : k ≤ policy.replayCount.toNat + 1) : policy.elapsedMs k ≤ horizon := by
  rw [h.horizon_eq, elapsedMs, elapsedMs]
  refine Nat.le_add_right_of_le (Nat.mul_le_mul_left _ ?_)
  exact (List.Sublist.map _ (List.range_sublist.mpr hk)).sum_le_sum (by simp)

end RequestPolicy

namespace Registration

variable {reg : Registration} {s t : State} {k : ℕ}

/-- When round `k` starts if nothing is late. -/
def nominal (reg : Registration) (k : ℕ) : ℕ :=
  reg.startedAt + fromMillis (reg.policy.elapsedMs k)

theorem units_eq {n : UInt32} (h : reg.policy.unitMs.toNat * n.toNat < 2 ^ 64) :
    reg.units n = fromMillis (reg.policy.unitMs.toNat * n.toNat) := by
  have hn : n.toUInt64.toNat = n.toNat := UInt32.toNat_toUInt64 n
  rw [units, RequestPolicy.phaseMs, toNat_saturatingMul64 (by rwa [hn]), hn]

/-- An accepted policy never saturates a round. -/
theorem nominal_succ (h : reg.policy.Accepted reg.dedupTtlMs.toNat)
    (hk : k ≤ reg.policy.replayCount.toNat) {gap : UInt32}
    (hgap : reg.policy.replayGap.units (UInt32.ofNat k) = .ok gap) :
    reg.nominal (k + 1) = reg.nominal k + reg.units gap := by
  have hsucc := reg.policy.elapsedMs_succ k
  rw [Schedule.gapUnits_of_ok hgap] at hsucc
  have hle := h.elapsedMs_le (k := k + 1) (by omega)
  have hlt := h.horizon_lt
  rw [units_eq (by omega), nominal, nominal, hsucc, fromMillis, fromMillis, fromMillis]
  ring

/-! ### The invariant -/

/-- Every broadcast so far started late by exactly the delay it had accumulated. -/
def Timely (reg : Registration) (s : State) : Prop :=
  ∀ e ∈ s.log, ∀ k, e.effect = .broadcast k →
    k ≤ reg.policy.replayCount.toNat ∧ e.time = reg.nominal k + e.delay

def DeliveryTimely (reg : Registration) (s : State) : Delivery → Prop
  | .round k => k ≤ reg.policy.replayCount.toNat ∧ s.clock = reg.nominal k + s.delay
  | .completion _ => True

def WindowTimely (reg : Registration) (s : State) (deadline : ℕ) : Window → Prop
  | .round k => k ≤ reg.policy.replayCount.toNat ∧
      max s.clock deadline = reg.nominal (k + 1) + s.delay
  | .final => True

def PcTimely (reg : Registration) (s : State) : Prop :=
  match s.pc with
  | .sendSocket delivery | .sending delivery _ _ _ _ | .recordFailures delivery _ _ =>
    reg.DeliveryTimely s delivery
  | .receiving window deadline | .accepting window deadline _ => reg.WindowTimely s deadline window
  | .settled _ | .returned _ => True

structure Timed (reg : Registration) (s : State) : Prop where
  log : reg.Timely s
  pc : reg.PcTimely s

theorem Timely.emit (h : reg.Timely s) (effect : Effect)
    (hb : ∀ k, effect = .broadcast k →
      k ≤ reg.policy.replayCount.toNat ∧ s.clock = reg.nominal k + s.delay) :
    reg.Timely (s.emit effect) := by
  intro e he k hk
  rcases List.mem_cons.mp he with rfl | he
  · exact hb k hk
  · exact h e he k hk

theorem Timely.of_log_eq (h : reg.Timely s) (hlog : t.log = s.log) : reg.Timely t := by
  rw [Timely, hlog]
  exact h

/-! ### What the code between two awaits keeps -/

theorem timed_conclude (h : reg.Timely s) (outcome : Outcome CoreError (Option RateLimitResult)) :
    reg.Timed (reg.conclude outcome s) := by
  have hdecided := h.emit (.decided outcome) (by simp)
  unfold conclude
  dsimp only
  split
  · split
    · exact ⟨(hdecided.emit .completion (by simp)).of_log_eq rfl, trivial⟩
    · exact ⟨hdecided.of_log_eq rfl, trivial⟩
  all_goals exact ⟨hdecided.of_log_eq rfl, trivial⟩

theorem timed_startRound (h : reg.Timely s) (hk : k ≤ reg.policy.replayCount.toNat)
    (hclock : s.clock = reg.nominal k + s.delay) : reg.Timed (startRound k s) := by
  refine ⟨(h.emit (.broadcast k) ?_).of_log_eq rfl, hk, hclock⟩
  rintro _ ⟨⟩
  exact ⟨hk, hclock⟩

theorem timed_receiveFinal (h : reg.Timely s) (deadline : ℕ) :
    reg.Timed (reg.receiveFinal deadline s) := by
  unfold receiveFinal
  split
  · exact ⟨h.of_log_eq rfl, trivial⟩
  · exact timed_conclude h _

theorem timed_leaveRound (h : reg.Timely s) (hclock : s.clock = reg.nominal (k + 1) + s.delay) :
    reg.Timed (reg.leaveRound k s) := by
  unfold leaveRound
  split_ifs with hbest hk hfinal
  · exact timed_conclude h _
  · exact timed_startRound h hk hclock
  · exact timed_receiveFinal (h.emit .finalReceive (by simp)) _
  · exact timed_conclude h _

theorem timed_receiveRound {deadline : ℕ} (h : reg.Timely s)
    (hw : reg.WindowTimely s deadline (.round k)) : reg.Timed (reg.receiveRound k deadline s) := by
  unfold receiveRound
  split
  · exact ⟨h.of_log_eq rfl, hw⟩
  next hle =>
    refine timed_leaveRound h ?_
    have hmax := hw.2
    rwa [max_eq_left (not_lt.mp hle)] at hmax

theorem timed_receive {window : Window} {deadline : ℕ} (h : reg.Timely s)
    (hw : reg.WindowTimely s deadline window) : reg.Timed (reg.receive window deadline s) := by
  cases window with
  | round k => exact timed_receiveRound h hw
  | final => exact timed_receiveFinal h deadline

theorem timed_onPacket {window : Window} {deadline : ℕ} {packet : ResponsePacket}
    (h : reg.Timely s) (hw : reg.WindowTimely s deadline window) :
    reg.Timed (reg.onPacket window deadline packet s) := by
  unfold onPacket
  split
  · exact timed_receive h hw
  · refine ⟨(h.emit (.accepted packet _) (by simp)).of_log_eq rfl, ?_⟩
    cases window <;> exact hw

theorem timed_onAccepted {window : Window} {deadline : ℕ} {result : RateLimitResult}
    (h : reg.Timely s) (hw : reg.WindowTimely s deadline window) :
    reg.Timed (reg.onAccepted window deadline result s) := by
  unfold onAccepted
  split
  · exact timed_conclude h _
  · have hbest : reg.Timely { s with best := keepOlder s.best result } := h.of_log_eq rfl
    dsimp only
    split
    · exact timed_conclude hbest _
    · exact timed_receiveRound hbest hw

theorem timed_afterDelivery (haccepted : reg.policy.Accepted reg.dedupTtlMs.toNat)
    {delivery : Delivery} {result : Except CoreError Unit} (h : reg.Timely s)
    (hd : reg.DeliveryTimely s delivery) : reg.Timed (reg.afterDelivery delivery result s) := by
  unfold afterDelivery
  split
  · exact ⟨h.of_log_eq rfl, trivial⟩
  next k =>
    obtain ⟨hk, hclock⟩ := hd
    split
    · exact timed_conclude h _
    · split
      next gap hgap =>
        refine timed_receiveRound h ⟨hk, ?_⟩
        rw [max_eq_right (Nat.le_add_right _ _), nominal_succ haccepted hk hgap, hclock]
        omega
      · exact timed_conclude h _
      · exact timed_conclude h _

theorem timed_finishSends (haccepted : reg.policy.Accepted reg.dedupTtlMs.toNat)
    {delivery : Delivery} {sends : SendLoop} (h : reg.Timely s)
    (hd : reg.DeliveryTimely s delivery) : reg.Timed (reg.finishSends delivery sends s) := by
  unfold finishSends
  split
  · split <;> exact timed_afterDelivery haccepted h hd
  · split
    · refine ⟨h.of_log_eq rfl, ?_⟩
      cases delivery <;> exact hd
    · exact timed_afterDelivery haccepted h hd

theorem timed_sendNext (haccepted : reg.policy.Accepted reg.dedupTtlMs.toNat)
    {delivery : Delivery} {socket : ℕ} {targets : List SocketAddr} {sends : SendLoop}
    (h : reg.Timely s) (hd : reg.DeliveryTimely s delivery) :
    reg.Timed (reg.sendNext delivery socket targets sends s) := by
  induction targets with
  | nil => exact timed_finishSends haccepted h hd
  | cons target rest ih =>
    rw [sendNext]
    split
    · exact ih
    · refine ⟨(h.emit (.attempt delivery socket target) (by simp)).of_log_eq rfl, ?_⟩
      cases delivery <;> exact hd

/-! ### Runs -/

/-- Waiting adds to the delay what the policy does not provide for. -/
theorem timed_advance (h : reg.Timed s) {now : ℕ} (hle : s.clock ≤ now) :
    reg.Timed (s.advance now) := by
  refine ⟨h.log.of_log_eq rfl, ?_⟩
  have hpc := h.pc
  unfold PcTimely at hpc ⊢
  cases hs : s.pc with
  | sendSocket delivery | sending delivery | recordFailures delivery =>
    cases delivery with
    | completion => simp_all [State.advance, DeliveryTimely]
    | round k =>
      simp only [hs, DeliveryTimely, State.advance, State.overrun] at hpc ⊢
      omega
  | receiving window deadline | accepting window deadline =>
    cases window with
    | final => simp_all [State.advance, WindowTimely]
    | round k =>
      simp only [hs, WindowTimely, State.advance, State.overrun] at hpc ⊢
      omega
  | settled | returned => simp_all [State.advance]

theorem timed_resumes (haccepted : reg.policy.Accepted reg.dedupTtlMs.toNat) {reply : Reply}
    (h : reg.Timed s) (hstep : reg.Resumes s reply t) : reg.Timed t := by
  have hlog := h.log
  have hpc := h.pc
  unfold PcTimely at hpc
  cases hstep with
  | socket hs =>
    rw [hs] at hpc
    exact timed_sendNext haccepted hlog hpc
  | sent hs =>
    rw [hs] at hpc
    exact timed_sendNext haccepted hlog hpc
  | @failures delivery now serverIds hs =>
    rw [hs] at hpc
    refine timed_afterDelivery haccepted (hlog.emit (.sendFailures delivery now serverIds) (by simp)) ?_
    cases delivery <;> exact hpc
  | received hs =>
    rw [hs] at hpc
    exact timed_onPacket hlog hpc
  | @elapsed window deadline hs hle =>
    rw [hs] at hpc
    cases window with
    | round k =>
      refine timed_leaveRound hlog ?_
      have hmax := hpc.2
      rwa [max_eq_left hle] at hmax
    | final => exact timed_conclude hlog (.ok none)
  | @accepted window deadline result hs =>
    rw [hs] at hpc
    refine timed_onAccepted (hlog.emit (.counted result.serverId) (by simp)) ?_
    cases window <;> exact hpc

theorem timed_start : reg.Timed reg.start := by
  have hnominal : reg.nominal 0 = reg.startedAt := by
    simp [nominal, RequestPolicy.elapsedMs, fromMillis]
  refine ⟨?_, Nat.zero_le _, by simp [hnominal, start]⟩
  simp [Timely, start, hnominal]

theorem timed_reachable (haccepted : reg.policy.Accepted reg.dedupTtlMs.toNat)
    (h : reg.lts.Reachable s) : reg.Timed s := by
  refine h.invariant ?_ ?_
  · rintro _ rfl
    exact timed_start
  · intro s i t _ hs hstep
    obtain ⟨hle, hresumes⟩ := resumes_of_step hstep
    exact timed_resumes haccepted (timed_advance hs hle) hresumes

/-- A broadcast starts before the expiry if the delays so far fit into what is left of the policy,
and not otherwise. -/
theorem broadcast_before_expiry_iff (haccepted : reg.policy.Accepted reg.dedupTtlMs.toNat)
    (h : reg.lts.Reachable s) {e : Entry} (he : e ∈ s.log) (hk : e.effect = .broadcast k) :
    e.time < reg.expiry ↔ e.delay < fromMillis (reg.policy.remainingMs k) := by
  obtain ⟨hle, htime⟩ := (timed_reachable haccepted h).log e he k hk
  have hsum := haccepted.elapsedMs_add_remainingMs hle
  rw [htime, expiry, nominal, ← hsum, fromMillis, fromMillis, fromMillis]
  omega

theorem completion_before_expiry (h : reg.lts.Reachable s) {e : Entry} (he : e ∈ s.log)
    (hc : e.effect = .completion) : e.time < reg.expiry := by
  obtain ⟨older, -, hp⟩ := (booked_reachable h).books.permitted.of_mem he
  rw [Permitted, hc] at hp
  exact hp.2.1

/-- The start of a copy of the request: a replay or a completion delivery. -/
def Copies (effect : Effect) : Prop := (∃ k, effect = .broadcast (k + 1)) ∨ effect = .completion

/-- Every copy of a request starts within its deduplication lifetime exactly when, at the start of
each replay, the sends and late wake-ups so far have taken less than what the policy provides for
from that round on. -/
theorem copies_before_expiry_iff {limit : UInt32}
    (hpolicy : reg.policy.horizonMs limit = .ok reg.dedupTtlMs) (h : reg.lts.Reachable s) :
    (∀ e ∈ s.log, Copies e.effect → e.time < reg.expiry) ↔
      ∀ e ∈ s.log, ∀ k, e.effect = .broadcast (k + 1) →
        e.delay < fromMillis (reg.policy.remainingMs (k + 1)) := by
  have haccepted := RequestPolicy.accepted_of_horizonMs hpolicy
  constructor
  · intro hcopies e he k hk
    exact (broadcast_before_expiry_iff haccepted h he hk).mp (hcopies e he (.inl ⟨k, hk⟩))
  · rintro hdelay e he (⟨k, hk⟩ | hc)
    · exact (broadcast_before_expiry_iff haccepted h he hk).mpr (hdelay e he k hk)
    · exact completion_before_expiry h he hc

/-- A silent round 0 whose first send takes `delay`. -/
def sampleSilence (delay : ℕ) : List (ℕ × Reply) :=
  [(0, .socket 0), (delay, .sent (.ok 100)), (delay, .sent (.ok 100)), (delay + 20000000, .elapsed)]

def sampleSilenceEnd (delay : ℕ) : Option State :=
  Lts.runSteps (fun s i => sampleRegistration.step s i.1 i.2) (sampleSilence delay)
    sampleRegistration.start

theorem reachable_sampleSilenceEnd {delay : ℕ} (h : sampleSilenceEnd delay = some s) :
    sampleRegistration.lts.Reachable s :=
  (Lts.Run.of_runSteps (m := sampleRegistration.lts) (fun _ _ _ _ h => h) h).reachable (.init rfl)

/-- A send as long as the request is to live: the replay starts at 80 ms. -/
theorem not_copies_before_expiry : ¬ ∀ (reg : Registration) (limit : UInt32) (s : State),
    reg.policy.horizonMs limit = .ok reg.dedupTtlMs → reg.lts.Reachable s →
      ∀ e ∈ s.log, Copies e.effect → e.time < reg.expiry := by
  intro hall
  obtain ⟨s, hs, hlate⟩ := (Option.any_eq_true _ _).mp
    (show (sampleSilenceEnd 60000000).any (fun s => s.log.any fun e =>
      e.effect = .broadcast 1 ∧ ¬ e.time < sampleRegistration.expiry) = true by decide +kernel)
  obtain ⟨e, he, hlate⟩ := List.any_eq_true.mp hlate
  obtain ⟨heff, hnot⟩ := of_decide_eq_true hlate
  exact hnot (hall sampleRegistration 2000 s (by decide +kernel) (reachable_sampleSilenceEnd hs) e he
    (.inl ⟨0, heff⟩))

theorem copies_before_expiry_iff_prompt : ∃ s, sampleRegistration.lts.Reachable s ∧
    (∃ e ∈ s.log, e.effect = .broadcast 1) ∧
      ∀ e ∈ s.log, Copies e.effect → e.time < sampleRegistration.expiry := by
  obtain ⟨s, hs, hprompt⟩ := (Option.any_eq_true _ _).mp
    (show (sampleSilenceEnd 5000000).any (fun s => s.log.any (fun e => e.effect = .broadcast 1) &&
      s.log.all fun e =>
        match e.effect with
        | .broadcast k => e.delay < fromMillis (sampleRegistration.policy.remainingMs k)
        | _ => true) = true by decide +kernel)
  obtain ⟨hreplay, hdelay⟩ := Bool.and_eq_true_iff.mp hprompt
  refine ⟨s, reachable_sampleSilenceEnd hs, by simpa using hreplay, ?_⟩
  have hpolicy : sampleRegistration.policy.horizonMs 2000 = .ok sampleRegistration.dedupTtlMs := by
    decide +kernel
  refine (copies_before_expiry_iff hpolicy (reachable_sampleSilenceEnd hs)).mpr fun e he k hk => ?_
  simpa [hk] using List.all_eq_true.mp hdelay e he

end Registration

end Ratelimitly
