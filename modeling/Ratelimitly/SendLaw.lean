import Mathlib.Tactic
import Ratelimitly.Flights

/-! The send schedule of a call as a whole. -/
namespace Ratelimitly

open Lib Rounds

/-- A send is under way. -/
def Rounds.Pc.sends : Rounds.Pc → Bool
  | .sending .. => true
  | _ => false

namespace Registration

/-! ### The send loop -/

/-- The code between two awaits attempts no send. -/
structure Rests (s t : State) : Prop where
  attempts : allAttempts t.log = allAttempts s.log
  sends : t.pc.sends = false

/-- The delivery goes on to the first of these targets without an answer; without such a target, its
sends are over. -/
inductive Advances (reg : Registration) (delivery : Delivery) (socket : ℕ)
    (targets : List SocketAddr) (s t : State) : Prop
  | next {target rest sends} : reg.missing s targets = target :: reg.missing s rest →
      t.pc = .sending delivery socket target rest sends →
      t.log = ⟨t.clock, t.delay, .attempt delivery socket target⟩ :: s.log →
      Advances reg delivery socket targets s t
  | done : reg.missing s targets = [] → Rests s t → Advances reg delivery socket targets s t

section

variable {reg : Registration} {s t u : State} {effect : Effect} {now : ℕ}

theorem Rests.of_log_eq (hlog : t.log = s.log) (hpc : t.pc.sends = false) : Rests s t :=
  ⟨congrArg allAttempts hlog, hpc⟩

theorem Rests.of_log (h : Rests u t) (hlog : u.log = s.log) : Rests s t :=
  ⟨h.attempts.trans (congrArg allAttempts hlog), h.sends⟩

theorem allAttempts_emit
    (heffect : ∀ delivery socket target, effect ≠ .attempt delivery socket target) :
    allAttempts (s.emit effect).log = allAttempts s.log := by
  refine List.filterMap_cons_none ?_
  split
  next delivery socket target heq => exact absurd heq (heffect delivery socket target)
  next => rfl

theorem Rests.after (h : Rests (s.emit effect) t)
    (heffect : ∀ delivery socket target, effect ≠ .attempt delivery socket target) : Rests s t :=
  ⟨h.attempts.trans (allAttempts_emit heffect), h.sends⟩

theorem rests_conclude (outcome : Outcome CoreError (Option RateLimitResult)) :
    Rests s (reg.conclude outcome s) := by
  suffices h : Rests (s.emit (.decided outcome)) (reg.conclude outcome s) from h.after (by simp)
  unfold conclude
  dsimp only
  split
  · split
    · exact @Rests.after _ _ .completion (.of_log_eq rfl rfl) (by simp)
    · exact .of_log_eq rfl rfl
  all_goals exact .of_log_eq rfl rfl

theorem rests_receiveFinal (deadline : ℕ) : Rests s (reg.receiveFinal deadline s) := by
  unfold receiveFinal
  split
  · exact .of_log_eq rfl rfl
  · exact rests_conclude _

theorem rests_leaveRound (k : ℕ) : Rests s (reg.leaveRound k s) := by
  unfold leaveRound
  split_ifs
  · exact rests_conclude _
  · exact @Rests.after s _ (.broadcast (k + 1)) (.of_log_eq rfl rfl) (by simp)
  · exact (rests_receiveFinal _).after (by simp)
  · exact rests_conclude _

theorem rests_receiveRound (k deadline : ℕ) : Rests s (reg.receiveRound k deadline s) := by
  unfold receiveRound
  split
  · exact .of_log_eq rfl rfl
  · exact rests_leaveRound k

theorem rests_receive (window : Window) (deadline : ℕ) :
    Rests s (reg.receive window deadline s) := by
  cases window with
  | round k => exact rests_receiveRound k deadline
  | final => exact rests_receiveFinal deadline

theorem rests_leave (window : Window) : Rests s (reg.leave window s) := by
  cases window with
  | round k => exact rests_leaveRound k
  | final => exact @rests_conclude reg s (.ok none)

theorem rests_onAccepted (window : Window) (deadline : ℕ) (result : RateLimitResult) :
    Rests s (reg.onAccepted window deadline result s) := by
  unfold onAccepted
  split
  · exact rests_conclude _
  · dsimp only
    split
    · exact (@rests_conclude reg { s with best := keepOlder s.best result } _).of_log rfl
    · exact (@rests_receiveRound reg { s with best := keepOlder s.best result } _ _).of_log rfl

theorem rests_afterDelivery (delivery : Delivery) (result : Except CoreError Unit) :
    Rests s (reg.afterDelivery delivery result s) := by
  unfold afterDelivery
  split
  · exact .of_log_eq rfl rfl
  · split
    · exact rests_conclude _
    · split
      · exact rests_receiveRound _ _
      · exact rests_conclude _
      · exact rests_conclude _

theorem rests_finishSends (delivery : Delivery) (sends : SendLoop) :
    Rests s (reg.finishSends delivery sends s) := by
  unfold finishSends
  split
  · split <;> exact rests_afterDelivery _ _
  · split
    · exact .of_log_eq rfl rfl
    · exact rests_afterDelivery _ _

theorem advances_sendNext (delivery : Delivery) (socket : ℕ) (targets : List SocketAddr)
    (sends : SendLoop) :
    reg.Advances delivery socket targets s (reg.sendNext delivery socket targets sends s) := by
  induction targets with
  | nil => exact .done rfl (rests_finishSends delivery sends)
  | cons target rest ih =>
    have hskip (h : reg.responded s target = true) :
        reg.missing s (target :: rest) = reg.missing s rest := by
      simp [missing, h]
    rw [sendNext]
    split
    next h =>
      cases ih with
      | next hmissing hpc hlog => exact .next ((hskip h).trans hmissing) hpc hlog
      | done hmissing hrests => exact .done ((hskip h).trans hmissing) hrests
    next h => exact .next (by simp [missing, h]) rfl rfl

theorem Advances.of_advance {delivery : Delivery} {socket : ℕ} {targets : List SocketAddr}
    (h : reg.Advances delivery socket targets (s.advance now) t) :
    reg.Advances delivery socket targets s t := by
  cases h with
  | next hmissing hpc hlog => exact .next hmissing hpc hlog
  | done hmissing hrests => exact .done hmissing (hrests.of_log rfl)

/-- With the socket at hand a delivery sends to its first target. -/
theorem advances_of_socket {delivery : Delivery} (hpc : s.pc = .sendSocket delivery)
    (hnow : s.clock ≤ now) (handle : ℕ) : ∃ t, reg.step s now (.socket handle) = some t ∧
      reg.Advances delivery handle reg.resolved.targets s t := by
  refine ⟨_, ?_, (@advances_sendNext reg (s.advance now) delivery handle reg.resolved.targets
    ⟨0, 0, none, []⟩).of_advance⟩
  rw [step, if_pos hnow]
  simp only [resume, State.advance, hpc]

/-- Whatever a send comes to, the delivery goes on. -/
theorem advances_of_sent {delivery : Delivery} {socket : ℕ} {target : SocketAddr}
    {rest : List SocketAddr} {sends : SendLoop}
    (hpc : s.pc = .sending delivery socket target rest sends) (hnow : s.clock ≤ now)
    (result : Except IoError ℕ) : ∃ t, reg.step s now (.sent result) = some t ∧
      reg.Advances delivery socket rest s t := by
  refine ⟨_, ?_, (@advances_sendNext reg (s.advance now) delivery socket rest
    (reg.recordSend target result sends)).of_advance⟩
  rw [step, if_pos hnow]
  simp only [resume, State.advance, hpc]

end

/-! ### The schedule -/

/-- What the sends of a request obey, read off its log from any point of its run. -/
structure SendLaw (reg : Registration) (s : State) : Prop where
  /-- A round starts only while no response has been accepted. -/
  broadcast_silent : ∀ newer e older k, s.log = newer ++ e :: older → e.effect = .broadcast k →
    ∀ e' ∈ older, ∀ packet result, e'.effect ≠ .accepted packet result
  seen_empty : ∀ k, Delivering s (.round k) → s.seenServerIds = [] ∧ s.seenAddrs = []
  attempts_round : ∀ k, attempts (.round k) s.log <+: reg.resolved.targets
  attempts_round_eq : ∀ k, Logged s.log (.broadcast k) → ¬ Delivering s (.round k) →
    attempts (.round k) s.log = reg.resolved.targets
  /-- After the final receive phase has begun, only a completion delivery sends. -/
  final_silent : ∀ newer e older, s.log = newer ++ e :: older → e.effect = .finalReceive →
    ∀ e' ∈ newer, ∀ d socket target, e'.effect = .attempt d socket target → Logged newer .completion
  /-- Nothing is sent after a timeout or a failure. -/
  failed_silent : ∀ newer e older outcome, s.log = newer ++ e :: older →
    e.effect = .decided outcome → (∀ result, outcome ≠ .ok (some result)) →
    ∀ e' ∈ newer, ∀ d socket target, e'.effect ≠ .attempt d socket target
  completion_once : ∀ e ∈ s.log, ∀ e' ∈ s.log, e.effect = .completion → e'.effect = .completion →
    e = e'
  completion_allowed : ∀ newer e older, s.log = newer ++ e :: older → e.effect = .completion →
    reg.policy.completionDelivery = true ∧ e.time < reg.expiry ∧
      ∃ selected, Logged older (.decided (.ok (some selected)))
  /-- A completion delivery goes to the targets without an answer, in order. -/
  attempts_completion : ∀ selected, Delivering s (.completion selected) →
    attempts (.completion selected) s.log <+: reg.missing s reg.resolved.targets
  attempts_completion_eq : ∀ selected, s.pc = .settled selected → Logged s.log .completion →
    attempts (.completion selected) s.log = reg.missing s reg.resolved.targets
  missing_iff : ∀ target, target ∈ reg.missing s reg.resolved.targets ↔
    target ∈ reg.resolved.targets ∧ ¬ reg.Answered s.log target
  count_le : ∀ target, (allAttempts s.log).count target ≤
    (reg.policy.replayCount.toNat + 2) * reg.resolved.targets.count target
  never_answered : ∀ newer e older d socket target, s.log = newer ++ e :: older →
    e.effect = .attempt d socket target → ¬ reg.Answered older target
  /-- A delivery goes from target to target, whatever its sends come to. -/
  socket_advances : ∀ delivery now handle, s.pc = .sendSocket delivery → s.clock ≤ now →
    ∃ t, reg.step s now (.socket handle) = some t ∧
      reg.Advances delivery handle reg.resolved.targets s t
  sent_advances : ∀ delivery socket target rest sends now result,
    s.pc = .sending delivery socket target rest sends → s.clock ≤ now →
    ∃ t, reg.step s now (.sent result) = some t ∧ reg.Advances delivery socket rest s t

variable {reg : Registration} {s : State}

/-- An attempt belongs to a delivery announced before it. -/
theorem Books.announced (h : reg.Books s) {newer older : List Entry} {e : Entry} {d : Delivery}
    {socket : ℕ} {target : SocketAddr} (hs : s.log = newer ++ e :: older)
    (heff : e.effect = .attempt d socket target) : ¬ reg.Answered older target ∧
      match d with
      | .round k => k ≤ reg.lastRound ∧ Logged older (.broadcast k)
      | .completion _ => Logged older .completion := by
  have hpermitted := h.permitted
  rw [hs] at hpermitted
  have hp := hpermitted.of_append
  rw [Permitted, heff] at hp
  cases d with
  | round k => exact ⟨hp.2.2, hp.1, hp.2.1⟩
  | completion selected => exact ⟨hp.2, hp.1⟩

/-- Where an attempt stands in the log, given an older entry. -/
theorem Books.rank_le_of_newer (h : reg.Books s) {newer older : List Entry} {e e' : Entry}
    (hs : s.log = newer ++ e :: older) (he' : e' ∈ newer) :
    ∃ n₁ n₂, newer = n₁ ++ e' :: n₂ ∧ s.log = n₁ ++ e' :: (n₂ ++ e :: older) ∧
      e.effect.rank reg.lastRound ≤ e'.effect.rank reg.lastRound := by
  obtain ⟨n₁, n₂, rfl⟩ := List.append_of_mem he'
  have hs' : s.log = n₁ ++ e' :: (n₂ ++ e :: older) := by simpa using hs
  exact ⟨n₁, n₂, rfl, hs', (h.rank_le hs' (by simp)).1⟩

/-- After the rounds only a completion delivery sends. -/
theorem Books.completion_before_attempt (h : reg.Books s) {newer older : List Entry} {e e' : Entry}
    {d : Delivery} {socket : ℕ} {target : SocketAddr} (hs : s.log = newer ++ e :: older)
    (hrank : 2 * reg.lastRound + 2 ≤ e.effect.rank reg.lastRound) (he' : e' ∈ newer)
    (heff' : e'.effect = .attempt d socket target) : ∃ n₁ n₂, newer = n₁ ++ e' :: n₂ ∧
      Logged (n₂ ++ e :: older) .completion := by
  obtain ⟨n₁, n₂, hnewer, hs', hle⟩ := h.rank_le_of_newer hs he'
  have hannounced := (h.announced hs' heff').2
  cases d with
  | round k =>
    have hk := hannounced.1
    replace hle : e.effect.rank reg.lastRound ≤ 2 * k + 1 := by
      rw [heff'] at hle
      exact hle
    omega
  | completion selected => exact ⟨n₁, n₂, hnewer, hannounced⟩

theorem Booked.sendLaw (h : reg.Booked s) : reg.SendLaw s where
  broadcast_silent := by
    intro newer e older k hs heff e' he' packet result heff'
    have hle := (h.books.rank_le hs he').1
    obtain ⟨older', -, hp⟩ := h.books.permitted.of_mem (show e ∈ s.log by simp [hs])
    rw [Permitted, heff] at hp
    simp only [heff, heff', Effect.rank] at hle
    omega
  seen_empty k hd := h.seen_empty hd
  attempts_round := h.attempts_round
  attempts_round_eq k hlogged hnot := h.attempts_round_eq hlogged hnot
  final_silent := by
    intro newer e older hs heff e' he' d socket target heff'
    obtain ⟨n₁, n₂, rfl, c, hc, hceff⟩ := h.books.completion_before_attempt hs
      (by simp [heff, Effect.rank]) he' heff'
    rcases List.mem_append.mp hc with hc | hc
    · exact ⟨c, by simp [hc], hceff⟩
    · rcases List.mem_cons.mp hc with rfl | hc
      · rw [heff] at hceff
        cases hceff
      · have hle := (h.books.rank_le hs hc).1
        simp only [heff, hceff, Effect.rank] at hle
        omega
  failed_silent := by
    intro newer e older outcome hs heff hne e' he' d socket target heff'
    obtain ⟨n₁, n₂, rfl, c, hc, hceff⟩ := h.books.completion_before_attempt hs
      (by simp [heff, Effect.rank]) he' heff'
    have hmem : c ∈ s.log := by
      rw [hs, List.append_assoc]
      exact List.mem_append_right _ (List.mem_cons_of_mem _ hc)
    obtain ⟨older', ⟨newer', hs'⟩, hp⟩ := h.books.permitted.of_mem hmem
    rw [Permitted, hceff] at hp
    obtain ⟨-, -, selected, e'', he'', heff''⟩ := hp
    have hdecided : Logged s.log (.decided (.ok (some selected))) :=
      ⟨e'', by simp [hs', he''], heff''⟩
    exact hne selected (h.books.decided_unique ⟨e, by simp [hs], heff⟩ hdecided)
  completion_once e he e' he' heff heff' :=
    h.books.eq_of_once he he' (by simp [heff, Effect.Once]) (by simp [heff', Effect.Once])
      (by rw [heff, heff'])
  completion_allowed := by
    intro newer e older hs heff
    have hpermitted := h.books.permitted
    rw [hs] at hpermitted
    have hp := hpermitted.of_append
    rw [Permitted, heff] at hp
    exact hp
  attempts_completion selected hd := h.attempts_completion hd
  attempts_completion_eq selected hs hlogged := h.attempts_completion_eq hs hlogged
  missing_iff target := by simp [missing, ← h.books.responded_iff target]
  count_le target := h.count_allAttempts_le target
  never_answered newer e older d socket target hs heff := (h.books.announced hs heff).1
  socket_advances _ _ handle hpc hnow := advances_of_socket hpc hnow handle
  sent_advances _ _ _ _ _ _ result hpc hnow := advances_of_sent hpc hnow result

end Registration

namespace Request

variable {client : CoreClient} {query : Query} {pc pc' : Pc} {reply : Reply} {flight : Flight}

/-- The sends of a call obey the schedule at every point of every run, and a call that has left its
round loop, by a return or for the rebind, sends nothing more. -/
theorem sendLaw_of_flight (h : (lts client query).Reachable pc) (hflight : pc.flight = some flight) :
    flight.reg.SendLaw flight.state ∧
      ((∀ f, pc ≠ .flying f) → ∀ reply pc', step client query pc reply = some pc' →
        pc'.flight = some flight) := by
  refine ⟨(Registration.booked_reachable (sound_flight h hflight).reachable).sendLaw, ?_⟩
  intro hlanded reply pc' hstep
  cases steps_of_step hstep with
  | flight => exact absurd rfl (hlanded _)
  | steering =>
    rw [flight_steer]
    exact hflight
  | lastRefresh | refreshed | unrefreshed | servers | activity => cases hflight

/-- Nothing comes in for round 0; the second server answers in round 1, and the completion delivery
goes to the first one. -/
def sampleReplay : List Reply :=
  sampleStart ++ [.flight 20000000 .elapsed, .flight 20000000 (.socket 0),
    .flight 20000000 (.sent (.ok 100)), .flight 20000000 (.sent (.ok 100)),
    .flight 25000000 (.received (sampleResponse 2)), .flight 25000000 .stats,
    .flight 25000000 (.socket 0)]

theorem sendLaw_of_flight_sample : ∃ pc flight, sampleCall sampleReplay = some pc ∧
    pc.flight = some flight ∧ flight.reg.SendLaw flight.state ∧
      Registration.Logged flight.state.log (.broadcast 1) ∧
      Registration.Logged flight.state.log .completion := by
  obtain ⟨pc, hpc, htest⟩ := (Option.any_eq_true _ _).mp
    (show (sampleCall sampleReplay).any (fun pc =>
      pc.flyingLogged (.broadcast 1) && pc.flyingLogged .completion) = true by decide +kernel)
  obtain ⟨hreplay, hcompletion⟩ := Bool.and_eq_true_iff.mp htest
  cases pc with
  | flying flight =>
    simp only [Pc.flyingLogged, List.any_eq_true, decide_eq_true_eq] at hreplay hcompletion
    exact ⟨_, flight, hpc, rfl, (sendLaw_of_flight (reachable_sampleCall hpc) rfl).1, hreplay,
      hcompletion⟩
  | _ => cases hreplay

end Request

end Ratelimitly
