import Mathlib.Tactic
import Ratelimitly.Flights

/-! A selected response is returned unless the rebind after it fails. -/
namespace Ratelimitly

open Lib Rounds

namespace Registration

variable {reg : Registration} {s : State} {result : RateLimitResult} {now : ℕ} {reply : Reply}

/-- A settled request and one that has returned make no step of the round loop. -/
theorem step_of_ended (h : (∃ result, s.pc = .settled result) ∨ ∃ outcome, s.pc = .returned outcome)
    (now : ℕ) (reply : Reply) : reg.step s now reply = none := by
  unfold step
  split
  · rcases h with ⟨result, hs⟩ | ⟨outcome, hs⟩ <;>
      cases reply <;> simp [resume, State.advance, hs]
  · rfl

theorem leads_of_resume {t : State} (reply : Reply)
    (hresume : reg.resume (s.advance s.clock) reply = some t) : reg.lts.Leads s t := by
  refine .of_step (i := (s.clock, reply)) ?_
  show reg.step s s.clock reply = some t
  rw [step, if_pos le_rfl, hresume]

theorem leads_finishSends (sends : SendLoop) (s : State) : ∃ t, t.pc = .settled result ∧
    reg.lts.Leads (reg.finishSends (.completion result) sends s) t := by
  unfold finishSends
  split
  · split <;> exact ⟨_, rfl, .refl _⟩
  · split
    · let failing : State :=
        { s with pc := .recordFailures (.completion result) s.clock sends.failedServerIds }
      exact ⟨_, rfl, leads_of_resume (s := failing) .stats (t :=
        { (failing.advance s.clock).emit (.sendFailures (.completion result) s.clock
          sends.failedServerIds) with pc := .settled result }) rfl⟩
    · exact ⟨_, rfl, .refl _⟩

/-- A completion delivery can always be carried to its end. -/
theorem leads_sendNext_completion (socket : ℕ) (targets : List SocketAddr) (sends : SendLoop)
    (s : State) : ∃ t, t.pc = .settled result ∧
      reg.lts.Leads (reg.sendNext (.completion result) socket targets sends s) t := by
  induction targets generalizing sends s with
  | nil => exact leads_finishSends sends s
  | cons target rest ih =>
    rw [sendNext]
    split
    · exact ih sends s
    · obtain ⟨t, ht, hleads⟩ := ih _ _
      exact ⟨t, ht, .trans (leads_of_resume (.sent (.ok 0)) rfl) hleads⟩

theorem leads_settled (h : Delivering s (.completion result)) :
    ∃ t, t.pc = .settled result ∧ reg.lts.Leads s t := by
  unfold Delivering at h
  split at h
  next delivery hs =>
    subst h
    obtain ⟨t, ht, hleads⟩ := @leads_sendNext_completion reg result 0 reg.resolved.targets
      ⟨0, 0, none, []⟩ (s.advance s.clock)
    refine ⟨t, ht, .trans (leads_of_resume (.socket 0) ?_) hleads⟩
    simp [resume, State.advance, hs]
  next delivery socket target rest sends hs =>
    subst h
    obtain ⟨t, ht, hleads⟩ := @leads_sendNext_completion reg result socket rest
      (reg.recordSend target (.ok 0) sends) (s.advance s.clock)
    refine ⟨t, ht, .trans (leads_of_resume (.sent (.ok 0)) ?_) hleads⟩
    simp [resume, State.advance, hs]
  next delivery now serverIds hs =>
    subst h
    refine ⟨_, rfl, leads_of_resume .stats (t := { (s.advance s.clock).emit
      (.sendFailures (.completion result) now serverIds) with pc := .settled result }) ?_⟩
    simp [resume, State.advance, hs, afterDelivery]
  next => exact h.elim

end Registration

namespace Request

variable {client : CoreClient} {query : Query} {pc pc' : Pc} {reply : Reply} {flight : Flight}
  {result : RateLimitResult}

/-- In a step of the rebind its system calls succeed; other steps are free. -/
def RebindSucceeds : Pc → Reply → Prop
  | .steering _ _ pc, .steering reply => Steering.Succeeds pc reply
  | _, _ => True

theorem rebindSucceeds_of_ne (h : ∀ r, reply ≠ .steering r) : RebindSucceeds pc reply := by
  unfold RebindSucceeds
  split
  next r => exact absurd rfl (h r)
  next => trivial

/-- The calls whose rebinds, if any, succeed. -/
def steadyLts (client : CoreClient) (query : Query) : Lts Pc Reply :=
  (lts client query).restrict RebindSucceeds

/-- The round loop of the call has selected this response. -/
def Pc.Selected (pc : Pc) (result : RateLimitResult) : Prop :=
  ∃ flight, pc.flight = some flight ∧ Registration.Selected flight.state result

/-- A call that returns after its response has settled returns that response. -/
def Pc.Steady (pc : Pc) : Prop := ∀ flight outcome, pc = .returned (some flight) outcome →
  ∀ result, flight.state.pc = .settled result → outcome = .ok result

theorem steady_steer (hs : flight.state.pc = .settled result) {pc : Steering.Pc}
    (h : ¬ Steering.Failed pc) : (steer flight result pc).Steady := by
  rintro flight' outcome heq result' hs'
  unfold steer at heq
  split at heq
  next =>
    cases heq
    rw [hs] at hs'
    cases hs'
    rfl
  next error stats => exact absurd ⟨error, stats, rfl⟩ h
  next => cases heq

theorem steady_steps (hsound : pc.Sound client query) (hstep : Steps client query pc reply pc')
    (hsucceeds : RebindSucceeds pc reply) : pc'.Steady := by
  cases hstep with
  | lastRefresh =>
    intro flight outcome heq
    split at heq <;> cases heq
  | refreshed =>
    intro flight outcome heq
    cases heq
  | unrefreshed =>
    intro flight outcome heq
    cases heq
  | servers =>
    intro flight outcome heq
    have hflight := congrArg Pc.flight heq
    rw [flight_enter] at hflight
    cases hflight
  | activity =>
    intro flight outcome heq
    unfold register at heq
    split at heq <;> cases heq
  | @flight flight now reply state hstep =>
    unfold leaveFlight
    split
    next hs => exact steady_steer hs (Steering.not_failed_start _ _)
    next hs =>
      rintro _ _ ⟨⟩ result hs'
      rw [hs] at hs'
      cases hs'
    next =>
      intro flight outcome heq
      cases heq
  | steering hsteering =>
    refine steady_steer hsound.2.1 ?_
    exact fun hfailed => (Steering.failed_iff_not_succeeds hsteering).mp hfailed hsucceeds

theorem steady_reachable (h : (steadyLts client query).Reachable pc) : pc.Steady := by
  refine h.invariant ?_ ?_
  · rintro _ rfl flight outcome heq
    have hflight := congrArg Pc.flight heq
    rw [flight_begin] at hflight
    cases hflight
  · intro pc reply pc' hpc _ hstep
    exact steady_steps (sound_reachable hpc.of_restrict) (steps_of_step hstep.2) hstep.1

/-! ### The way to the return -/

/-- A step of the rebind within the call. -/
theorem leads_steer_of_step {pc : Steering.Pc} (pc' : Steering.Pc) (reply : Steering.Reply)
    (hstep : Steering.step pc reply = some pc') (hsucceeds : Steering.Succeeds pc reply) :
    (steadyLts client query).Leads (steer flight result pc) (steer flight result pc') := by
  have hpc (outcome : Except CoreError Unit) (stats : Option SteeringStats) :
      pc ≠ .done outcome stats := by
    rintro rfl
    cases hstep
  have hsteering : steer flight result pc = .steering flight result pc := by
    unfold steer
    split
    next => exact absurd rfl (hpc _ _)
    next => exact absurd rfl (hpc _ _)
    next => rfl
  rw [hsteering]
  refine .of_step (i := .steering reply) ⟨hsucceeds, ?_⟩
  show step client query (.steering flight result pc) (.steering reply) = _
  rw [step, hstep]
  rfl

/-- The rebind can always be carried to its end. -/
theorem leads_steer {pc : Steering.Pc} (h : ¬ Steering.Failed pc) :
    (steadyLts client query).Leads (steer flight result pc)
      (.returned (some flight) (.ok result)) := by
  have happlyLock : (steadyLts client query).Leads (steer flight result .applyLock)
      (.returned (some flight) (.ok result)) :=
    leads_steer_of_step (.done (.ok ()) none) (.applyLock false) rfl trivial
  have hsocketWrite (stats : SteeringStats) (newSocket : FamilySockets) :
      (steadyLts client query).Leads (steer flight result (.socketWrite stats newSocket))
        (.returned (some flight) (.ok result)) :=
    leads_steer_of_step (.done (.ok ()) _) (.socketWrite 0 (.ok (sampleAddr 1)) 1) rfl
      ⟨_, rfl⟩
  have hepochReadyLock (stats : SteeringStats) (newSocket : FamilySockets) :
      (steadyLts client query).Leads (steer flight result (.epochReadyLock stats newSocket))
        (.returned (some flight) (.ok result)) :=
    .trans (leads_steer_of_step _ .epochReadyLock rfl trivial) (hsocketWrite stats newSocket)
  have hsocketRead (stats : SteeringStats) :
      (steadyLts client query).Leads (steer flight result (.socketRead stats))
        (.returned (some flight) (.ok result)) := by
    have hfound : PortFound (fun _ _ => .ok 0) steeringPortCount
        (firstSteeringPort stats.nextPort (sampleAddr 1).port) :=
      ⟨0, by decide, by simp, by simp [PortInUse, isAddrInUse], false, 0, rfl⟩
    obtain ⟨⟨newSocket, nextPort⟩, hbind⟩ := exists_bindNextSteeringSocket_eq_ok_iff.mpr hfound
    refine .trans (leads_steer_of_step _ (.socketRead (.ok (sampleAddr 1)) fun _ _ => .ok 0) ?_
      ⟨_, rfl, hfound⟩) (hepochReadyLock { stats with nextPort } newSocket)
    simp only [Steering.step, hbind]
  cases pc with
  | storePending =>
    exact .trans (leads_steer_of_step _ .storePending rfl trivial) happlyLock
  | applyLock => exact happlyLock
  | activityWrite =>
    exact leads_steer_of_step (.done (.ok ()) none) (.activityWrite false) rfl trivial
  | statsLock =>
    exact .trans (leads_steer_of_step _ (.stats ⟨0, 0, none, 0⟩) rfl trivial)
      (hsocketRead _)
  | socketRead stats => exact hsocketRead stats
  | epochReadyLock stats newSocket => exact hepochReadyLock stats newSocket
  | socketWrite stats newSocket => exact hsocketWrite stats newSocket
  | epochChanged stats nextEpoch actualPort =>
    refine leads_steer_of_step (.done (.ok ()) (some
      { stats with
        portChanges := if stats.lastPort ≠ some actualPort then stats.portChanges + 1
          else stats.portChanges
        lastPort := some actualPort })) (.epochChanged (some nextEpoch)) ?_
      (Option.some_ne_none _)
    simp [Steering.step, Steering.awaitEpoch]
  | done outcome stats =>
    cases outcome with
    | ok => exact .refl _
    | error error => exact absurd ⟨error, stats, rfl⟩ h

/-- A run of the round loop is a run of the call. -/
theorem leads_leaveFlight {reg : Registration} {s t : State} (h : reg.lts.Leads s t) :
    (steadyLts client query).Leads (leaveFlight client ⟨reg, s⟩) (leaveFlight client ⟨reg, t⟩) := by
  obtain ⟨xs, hrun⟩ := h
  induction hrun with
  | refl => exact .refl _
  | @head s i u xs t hstep _ ih =>
    have hflying : leaveFlight client ⟨reg, s⟩ = .flying ⟨reg, s⟩ := by
      replace hstep : reg.step s i.1 i.2 = some u := hstep
      have hnone (h) : reg.step s i.1 i.2 = none := Registration.step_of_ended h i.1 i.2
      unfold leaveFlight
      split
      next result hs =>
        rw [hnone (.inl ⟨result, hs⟩)] at hstep
        cases hstep
      next outcome hs =>
        rw [hnone (.inr ⟨outcome, hs⟩)] at hstep
        cases hstep
      next => rfl
    rw [hflying]
    refine .trans (.of_step (i := .flight i.1 i.2) ⟨trivial, ?_⟩) ih
    show step client query (.flying ⟨reg, s⟩) (.flight i.1 i.2) = _
    rw [step, hstep]
    rfl

/-- If the rebinds succeed, a call that has selected a response returns no other result and can
always come to return. -/
theorem selected_returned (h : (steadyLts client query).Reachable pc) (hselected : pc.Selected result) :
    (∀ flight outcome, pc = .returned flight outcome → outcome = .ok result) ∧
      ∃ flight, (steadyLts client query).Leads pc (.returned flight (.ok result)) := by
  obtain ⟨flight, hflight, hselected⟩ := hselected
  have hreachable := h.of_restrict
  have hsound := sound_reachable hreachable
  have hbooked := Registration.booked_reachable (sound_flight hreachable hflight).reachable
  have hsettled := hbooked.settled_or_completing hselected
  have hnot {r : RateLimitResult} (hs : flight.state.pc = .settled r) : r = result := by
    rcases hsettled with hsettled | hdelivering
    · rw [hs] at hsettled
      exact Rounds.Pc.settled.inj hsettled
    · rw [Registration.Delivering, hs] at hdelivering
      exact hdelivering.elim
  unfold Pc.flight at hflight
  split at hflight
  next =>
    cases hflight
    refine ⟨fun _ _ heq => (by cases heq), ?_⟩
    rcases hsettled with hsettled | hdelivering
    · exact absurd hsettled (hsound.2.1 result)
    obtain ⟨t, ht, hleads⟩ := @Registration.leads_settled flight.reg _ _ hdelivering
    have hflying : leaveFlight client flight = .flying flight := by
      unfold leaveFlight
      split
      next r hs => exact absurd hs (hsound.2.1 r)
      next outcome hs => exact absurd hs (hsound.2.2 outcome)
      next => rfl
    have hlanded : leaveFlight client ⟨flight.reg, t⟩ =
        steer ⟨flight.reg, t⟩ result (Steering.start client.config result) := by
      unfold leaveFlight
      rw [ht]
    have hround := @leads_leaveFlight client query _ _ _ hleads
    rw [hflying, hlanded] at hround
    exact ⟨_, hround.trans (leads_steer (Steering.not_failed_start _ _))⟩
  next r pc =>
    cases hflight
    obtain rfl := hnot hsound.2.1
    refine ⟨fun _ _ heq => (by cases heq), some flight, ?_⟩
    have hsteering : steer flight r pc = .steering flight r pc := by
      unfold steer
      split
      next => exact absurd rfl (hsound.2.2 _ _)
      next => exact absurd rfl (hsound.2.2 _ _)
      next => rfl
    rw [← hsteering]
    refine leads_steer ?_
    rintro ⟨error, stats, rfl⟩
    exact hsound.2.2 _ _ rfl
  next outcome =>
    subst hflight
    have hok : outcome = .ok result := by
      cases hsound.2 with
      | unselected hs =>
        rcases hsettled with hsettled | hdelivering
        · rw [hs] at hsettled
          cases hsettled
        · rw [Registration.Delivering, hs] at hdelivering
          exact hdelivering.elim
      | steered hs | unsteered hs =>
        obtain rfl := hnot hs
        exact steady_reachable h _ _ rfl _ hs
    subst hok
    refine ⟨?_, some flight, .refl _⟩
    rintro _ _ ⟨⟩
    rfl
  next => cases hflight

/-- The older server's grant in round 0 asks for another source port, and the two families bind
none. -/
def sampleBindFailure : List Reply :=
  sampleStart ++ [.flight 5000000 (.received (sampleResponse 1)), .flight 5000000 .stats,
    .flight 5000000 (.socket 0), .flight 5000000 (.sent (.ok 100)), .steering .storePending,
    .steering (.applyLock true), .steering (.activityWrite true), .steering (.stats ⟨0, 0, none, 0⟩),
    .steering (.socketRead (.ok (sampleAddr 50000)) fun _ _ =>
      .error (.io ⟨.other, "permission denied"⟩))]

/-- The call has returned a failure although the grant of server 1 was selected. -/
def Pc.failsSelected : Pc → Bool
  | .returned (some flight) outcome => !outcome.isOk && flight.state.log.any fun e =>
      e.effect = .decided (.ok (some (sampleGrant 1)))
  | _ => false

/-- The call then returns the error of the bind. -/
theorem not_selected_returned : ¬ ∀ (client : CoreClient) (query : Query) (pc : Pc)
    (result : RateLimitResult), (lts client query).Reachable pc → pc.Selected result →
      ∀ flight outcome, pc = .returned flight outcome → outcome = .ok result := by
  intro hall
  obtain ⟨pc, hpc, htest⟩ := (Option.any_eq_true _ _).mp
    (show (sampleCall sampleBindFailure).any (·.failsSelected) = true by decide +kernel)
  have hreachable := reachable_sampleCall hpc
  unfold Pc.failsSelected at htest
  split at htest
  next flight outcome =>
    obtain ⟨hnot, hlog⟩ := Bool.and_eq_true_iff.mp htest
    obtain ⟨e, he, heff⟩ := List.any_eq_true.mp hlog
    have hok := hall sampleClient sampleQuery _ (sampleGrant 1) hreachable
      ⟨flight, rfl, e, he, of_decide_eq_true heff⟩ _ _ rfl
    subst hok
    cases hnot
  next => cases htest

/-- The same run up to the completion delivery. -/
def sampleCompletion : List Reply :=
  sampleStart ++ [.flight 5000000 (.received (sampleResponse 1)), .flight 5000000 .stats]

theorem selected_returned_sample : ∃ flight, (steadyLts sampleClient sampleQuery).Leads
    (begin sampleClient sampleQuery) (.returned flight (.ok (sampleGrant 1))) := by
  obtain ⟨pc, hpc, htest⟩ := (Option.any_eq_true _ _).mp
    (show (sampleCall sampleCompletion).any
      (·.flyingLogged (.decided (.ok (some (sampleGrant 1))))) = true by decide +kernel)
  have hrun : (steadyLts sampleClient sampleQuery).Run (begin sampleClient sampleQuery)
      sampleCompletion pc := by
    refine .of_runSteps (fun i hi s t hstep => ⟨rebindSucceeds_of_ne ?_, hstep⟩) hpc
    revert i
    simp [sampleCompletion, sampleStart]
  unfold Pc.flyingLogged at htest
  split at htest
  next flight =>
    obtain ⟨e, he, heff⟩ := List.any_eq_true.mp htest
    obtain ⟨-, flight', hleads⟩ := selected_returned (hrun.reachable (.init rfl))
      ⟨flight, rfl, e, he, of_decide_eq_true heff⟩
    exact ⟨flight', .trans ⟨_, hrun⟩ hleads⟩
  next => cases htest

end Request

end Ratelimitly
