import Mathlib.Tactic
import Ratelimitly.SocketEpochs

/-! Advice to change the source port is applied once per socket. -/
namespace Ratelimitly

open Lib

theorem Steering.step_ne_storePending {pc : Pc} {reply : Reply} :
    step pc reply ≠ some .storePending := by
  intro h
  unfold step at h
  split at h
  case h_2 | h_3 => split at h <;> cases h
  case h_5 =>
    split at h
    · cases h
    · split at h <;> cases h
  case h_7 =>
    split at h
    · cases h
    · unfold awaitEpoch at h
      split at h <;> cases h
  case h_8 =>
    split at h
    · cases h
    · unfold awaitEpoch at h
      split at h <;> cases h
  all_goals cases h

theorem Steering.awaitEpoch_eq (stats : SteeringStats) (nextEpoch : UInt64) (actualPort : UInt16)
    (ready : UInt64) :
    awaitEpoch stats nextEpoch actualPort ready = .epochChanged stats nextEpoch actualPort ∨
      ∃ stats', awaitEpoch stats nextEpoch actualPort ready = .done (.ok ()) stats' := by
  unfold awaitEpoch
  split
  · exact .inl rfl
  · exact .inr ⟨_, rfl⟩

namespace Request

variable {client : CoreClient} {query : Query} {pc pc' : Pc} {reply : Reply}

/-- The call has returned a response that advises a port change, and the client follows advice. -/
def Pc.Advised (client : CoreClient) (pc : Pc) : Prop := ∃ flight result,
  pc = .returned (some flight) (.ok result) ∧
    Steering.start client.config result = .storePending

/-- The call has yet to set the flag. -/
def Pc.Storing (pc : Pc) : Prop := pc.steeringPc = some .storePending

/-- The call has set the flag and has not returned. -/
def Pc.Stored (pc : Pc) : Prop := ∃ steering, pc.steeringPc = some steering ∧ steering ≠ .storePending

theorem start_eq (config : CoreConfig) (result : RateLimitResult) :
    Steering.start config result = .storePending ∨
      Steering.start config result = .done (.ok ()) none := by
  unfold Steering.start
  split
  · exact .inr rfl
  · exact .inl rfl

/-- A call enters steering before it sets the flag. -/
theorem not_stored_of_steps (h : Steps client query pc reply pc') (hpc : pc.steeringPc = none) :
    ¬ pc'.Stored := by
  rintro ⟨steering, hsteering, hne⟩
  cases h with
  | lastRefresh => split at hsteering <;> cases hsteering
  | refreshed | unrefreshed => cases hsteering
  | servers =>
    unfold enter at hsteering
    split at hsteering
    · cases hsteering
    · cases hsteering
    · split at hsteering <;> cases hsteering
  | activity =>
    unfold register at hsteering
    split at hsteering <;> cases hsteering
  | flight =>
    unfold leaveFlight at hsteering
    split at hsteering
    next result _ =>
      rcases start_eq client.config result with hstart | hstart
      · rw [hstart] at hsteering
        exact hne (Option.some.inj hsteering).symm
      · rw [hstart] at hsteering
        cases hsteering
    · cases hsteering
    · cases hsteering
  | steering => cases hpc

/-- A call that has not been in steering does not return advice. -/
theorem not_advised_of_steps (hreachable : (lts client query).Reachable pc')
    (h : Steps client query pc reply pc') (hpc : pc.steeringPc = none) : ¬ pc'.Advised client := by
  rintro ⟨flight, result, hpc', hstart⟩
  have hflight : pc'.flight = some flight := by rw [hpc']; rfl
  have hbooked := Registration.booked_reachable (sound_flight hreachable hflight).reachable
  cases h with
  | lastRefresh => split at hpc' <;> cases hpc'
  | refreshed | unrefreshed => cases hpc'
  | servers =>
    rw [flight_enter] at hflight
    cases hflight
  | activity =>
    unfold register at hpc'
    split at hpc' <;> cases hpc'
  | flight =>
    unfold leaveFlight at hpc'
    split at hpc'
    next selected hs =>
      rcases start_eq client.config selected with hstart' | hstart'
      · rw [hstart'] at hpc'
        cases hpc'
      · rw [hstart'] at hpc'
        cases hpc'
        rw [hstart] at hstart'
        cases hstart'
    next hs =>
      cases hpc'
      exact hbooked.returned_ne_ok hs result rfl
    next => cases hpc'
  | steering => cases hpc

theorem not_rebinding_of_not_stored (h : ¬ pc.Stored) : ¬ pc.rebinding = true := by
  intro hrebinding
  obtain ⟨steering, hsteering, hpc⟩ := (Option.any_eq_true _ _).mp hrebinding
  refine h ⟨steering, hsteering, ?_⟩
  rintro rfl
  cases hpc

/-- Only a call that leaves its round loop comes to set the flag. -/
theorem active_of_storing (h : Steps client query pc reply pc') (hpc' : pc'.Storing) :
    pc.active = true := by
  cases h with
  | flight => rfl
  | lastRefresh =>
    split at hpc' <;> cases hpc'
  | refreshed | unrefreshed => cases hpc'
  | servers =>
    unfold enter at hpc'
    split at hpc'
    · cases hpc'
    · cases hpc'
    · split at hpc' <;> cases hpc'
  | activity =>
    unfold register at hpc'
    split at hpc' <;> cases hpc'
  | @steering flight result steering reply steering' hstep =>
    unfold Pc.Storing steer at hpc'
    split at hpc'
    · cases hpc'
    · cases hpc'
    next =>
      obtain rfl := Option.some.inj hpc'
      exact absurd hstep Steering.step_ne_storePending

theorem not_storing_begin : ¬ (begin client query).Storing ∧ ¬ (begin client query).Stored ∧
    ¬ (begin client query).Advised client := by
  have hsteering : (begin client query).steeringPc = none := by
    unfold begin
    dsimp only
    split
    · rfl
    · rfl
    · split
      · rfl
      · split <;> rfl
  refine ⟨?_, ?_, ?_⟩
  · rw [Pc.Storing, hsteering]
    nofun
  · rintro ⟨steering, heq, -⟩
    rw [hsteering] at heq
    cases heq
  · rintro ⟨flight, result, heq, -⟩
    have hflight := congrArg Pc.flight heq
    rw [flight_begin] at hflight
    cases hflight

variable {flight : Flight} {result : RateLimitResult} {steering : Steering.Pc}

theorem not_advised_steering : ¬ (Pc.steering flight result steering).Advised client := by
  rintro ⟨_, _, h, -⟩
  cases h

theorem not_storing_steering (h : steering ≠ .storePending) :
    ¬ (Pc.steering flight result steering).Storing := fun hstoring => h (Option.some.inj hstoring)

theorem not_storing_returned {flight : Option Flight} {outcome : Outcome CoreError RateLimitResult} :
    ¬ (Pc.returned flight outcome).Storing := by
  intro h
  cases h

end Request

namespace Client

variable {client : CoreClient} {s t : State} {event : Event} {i j : ℕ} {slot : Slot} {query : Query}
  {pc pc' : Request.Pc} {wake : Wake} {reply : Request.Reply} {p : Request.Pc → Prop}
  {g : ℕ} {epoch : UInt64} {old : ℕ → Prop} {events : List Event}

/-- No call is where it has the property. -/
def Never (s : State) (p : Request.Pc → Prop) : Prop := ∀ i pc, s.pcAt i = some pc → ¬ p pc

theorem Never.idle (h : Never s p) (hidle : Idle client s t)
    (hbegin : ∀ query, ¬ p (Request.begin client query)) : Never t p := by
  intro j pc hpc
  rcases hidle.pcAt j with heq | ⟨-, hnew⟩
  · exact h j pc (heq ▸ hpc)
  · obtain ⟨query, rfl⟩ := hnew pc hpc
    exact hbegin query

theorem Never.update (h : Never s p) (hpcs : ∀ k, t.pcAt k = if k = i then some pc' else s.pcAt k)
    (hpc' : ¬ p pc') : Never t p := by
  intro j pc hpc
  rw [hpcs] at hpc
  split at hpc
  · exact Option.some.inj hpc ▸ hpc'
  · exact h j pc hpc

theorem never_active_of_rebinding (hguarded : Guarded s) (hpc : s.pcAt i = some pc)
    (hrebinding : pc.rebinding = true) : Never s (·.active = true) := by
  intro j other hother hactive
  have hwriter := (hguarded.writer i).mpr (by simpa [hpc] using hrebinding)
  have hreader := (hguarded.readers j).mpr (by simpa [hother] using hactive)
  rcases hguarded.exclusive with hnil | hnone
  · rw [hnil] at hreader
    cases hreader
  · rw [hnone] at hwriter
    cases hwriter

/-! ### The phases of a rebind -/

/-- The steps of requests that all use the socket of generation `g`, when nothing is dropped and
rebinds succeed. -/
def OnSocket (g : ℕ) (s : State) : Event → Prop
  | .drop _ => False
  | .wake _ (.activity _) => s.generation = g
  | .wake i (.socketRead localAddr bindUdp) => ∀ flight result pc,
      s.pcAt i = some (.steering flight result pc) →
        Steering.Succeeds pc (.socketRead localAddr bindUdp)
  | .wake _ (.socketWrite localAddr) => ∃ actual, localAddr = .ok actual
  | _ => True

/-- When a rebind clears the flag, no request has yet to set it. -/
def AdviceInTime (s : State) : Event → Prop
  | .wake _ .activityWrite => s.steeringPending = true → Never s (·.Storing)
  | _ => True

/-- The socket is that of generation `g` until the rebind replaces it. -/
def AtEpoch (g : ℕ) (epoch : UInt64) (s : State) : Steering.Pc → Prop
  | .epochChanged _ _ _ => s.generation = g + 1 ∧ s.epoch = epoch + 1
  | _ => s.generation = g ∧ s.epoch = epoch

theorem AtEpoch.congr {steering : Steering.Pc} (h : AtEpoch g epoch s steering)
    (hgeneration : t.generation = s.generation) (hepoch : t.epoch = s.epoch) :
    AtEpoch g epoch t steering := by
  unfold AtEpoch at h ⊢
  rw [hgeneration, hepoch]
  exact h

/-- Where the requests of the socket of generation `g` are. The calls of `old` were there before. -/
inductive Phase (client : CoreClient) (old : ℕ → Prop) (g : ℕ) (epoch : UInt64) (s : State) : Prop
  | collecting : s.generation = g → s.epoch = epoch → Never s (·.rebinding = true) →
      (s.steeringPending = true ∨ Never s (·.Stored)) →
      (∀ i pc, ¬ old i → s.pcAt i = some pc → ¬ pc.Advised client) → Phase client old g epoch s
  | rebinding {i : ℕ} {flight : Flight} {result : RateLimitResult} {steering : Steering.Pc} :
      s.pcAt i = some (.steering flight result steering) → steering.rebinding = true →
      s.steeringPending = false → Never s (·.Storing) →
      AtEpoch g epoch s steering → Phase client old g epoch s
  | rebound : s.generation = g + 1 → s.epoch = epoch + 1 → Never s (·.rebinding = true) →
      Never s (·.active = true) → s.steeringPending = false → Never s (·.Storing) →
      Phase client old g epoch s

theorem Phase.idle (h : Phase client old g epoch s) (hidle : Idle client s t) :
    Phase client old g epoch t := by
  have hrebinding (query : Query) : ¬ (Request.begin client query).rebinding = true := by
    rw [Request.not_rebinding_of_not_applying Request.not_applying_begin.1]
    nofun
  have hactive (query : Query) : ¬ (Request.begin client query).active = true := by
    rw [Request.not_applying_begin.2]
    nofun
  have hstoring (query : Query) : ¬ (Request.begin client query).Storing :=
    Request.not_storing_begin.1
  cases h with
  | collecting hg he hrebind hstored hadvised =>
    refine .collecting (hidle.generation.trans hg) (hidle.epoch.trans he)
      (hrebind.idle hidle hrebinding) ?_ ?_
    · rw [hidle.steeringPending]
      exact hstored.imp_right fun h => h.idle hidle fun query => Request.not_storing_begin.2.1
    · intro i pc hold hpc
      rcases hidle.pcAt i with heq | ⟨-, hnew⟩
      · exact hadvised i pc hold (heq ▸ hpc)
      · obtain ⟨query, rfl⟩ := hnew pc hpc
        exact Request.not_storing_begin.2.2
  | @rebinding i flight result steering hpc hrebind hpending hstore hat =>
    have hpc' : t.pcAt i = some (.steering flight result steering) := by
      rcases hidle.pcAt i with heq | ⟨hnone, -⟩
      · exact heq.trans hpc
      · rw [hpc] at hnone
        cases hnone
    exact .rebinding hpc' hrebind (hidle.steeringPending.trans hpending) (hstore.idle hidle hstoring)
      (hat.congr hidle.generation hidle.epoch)
  | rebound hg he hrebind hread hpending hstore =>
    exact .rebound (hidle.generation.trans hg) (hidle.epoch.trans he)
      (hrebind.idle hidle hrebinding) (hread.idle hidle hactive)
      (hidle.steeringPending.trans hpending) (hstore.idle hidle hstoring)

/-- A wake-up of call `i` that leads to `t`. -/
structure Wakes (client : CoreClient) (s : State) (i : ℕ) (slot : Slot) (query : Query)
    (pc pc' : Request.Pc) (wake : Wake) (reply : Request.Reply) (t : State) : Prop where
  here : s.pcAt i = some pc
  answers : Answers s slot.channel wake reply
  step : Request.step client query pc reply = some pc'
  pcs : ∀ k, t.pcAt k = if k = i then some pc' else s.pcAt k
  eq : t = s.move client i slot query pc pc' wake reply

theorem Wakes.pcAt_self (h : Wakes client s i slot query pc pc' wake reply t) :
    t.pcAt i = some pc' := (h.pcs i).trans (if_pos rfl)

theorem Wakes.pcAt_ne (h : Wakes client s i slot query pc pc' wake reply t) (hne : j ≠ i) :
    t.pcAt j = s.pcAt j := (h.pcs j).trans (if_neg hne)

theorem Wakes.sameSocket (h : Wakes client s i slot query pc pc' wake reply t)
    (hreplaces : ¬ Replaces pc reply) : SameSocket s t := h.eq ▸ (sameSocket_move hreplaces).1

theorem Wakes.steeringPending (h : Wakes client s i slot query pc pc' wake reply t)
    (hpc : pc.steeringPc = none) : t.steeringPending = s.steeringPending := by
  rw [h.eq]
  cases pc with
  | steering => cases hpc
  | _ => rfl

/-- A step of a call outside of steering. -/
theorem Phase.outside (h : Phase client old g epoch s) (hguarded : Guarded s)
    (hwakes : Wakes client s i slot query pc pc' wake reply t) (hsocket : OnSocket g s (.wake i wake))
    (hreachable : (Request.lts client query).Reachable pc') (hpc : pc.steeringPc = none) :
    Phase client old g epoch t := by
  have hsteps := Request.steps_of_step hwakes.step
  have hsame := hwakes.sameSocket fun hreplaces => by
    obtain ⟨_, _, _, _, _, _, _, rfl, -⟩ := hreplaces.exists
    cases hpc
  have hpending := hwakes.steeringPending hpc
  have hstored := Request.not_stored_of_steps hsteps hpc
  have hrebinding := Request.not_rebinding_of_not_stored hstored
  cases h with
  | collecting hg he hrebind hstore hadvised =>
    refine .collecting (hsame.generation.trans hg) (hsame.epoch.trans he)
      (hrebind.update hwakes.pcs hrebinding) ?_ ?_
    · rw [hpending]
      exact hstore.imp_right fun h => h.update hwakes.pcs hstored
    · intro k pc₀ hold hpc₀
      rw [hwakes.pcs] at hpc₀
      split at hpc₀
      · exact Option.some.inj hpc₀ ▸ Request.not_advised_of_steps hreachable hsteps hpc
      · exact hadvised k pc₀ hold hpc₀
  | @rebinding i₀ flight result steering hpc₀ hrebind hpending₀ hstore hat =>
    have hne : i₀ ≠ i := by
      rintro rfl
      rw [hwakes.here] at hpc₀
      cases hpc₀
      cases hpc
    have hactive := never_active_of_rebinding hguarded hpc₀ hrebind i pc hwakes.here
    refine .rebinding ((hwakes.pcAt_ne hne).trans hpc₀) hrebind (hpending.trans hpending₀) ?_ ?_
    · exact hstore.update hwakes.pcs fun hstoring => hactive (Request.active_of_storing hsteps hstoring)
    · exact hat.congr hsame.generation hsame.epoch
  | rebound hg he hrebind hread hpending₀ hstore =>
    have hactive := hread i pc hwakes.here
    refine .rebound (hsame.generation.trans hg) (hsame.epoch.trans he)
      (hrebind.update hwakes.pcs hrebinding) (hread.update hwakes.pcs ?_)
      (hpending.trans hpending₀) ?_
    · intro hactive'
      rcases Request.active_of_steps hsteps hactive' with hold | ⟨seed, now, rfl⟩
      · exact hactive hold
      -- the guard is only taken on the socket of generation `g`
      · obtain ⟨-, -, -, rfl⟩ := hwakes.answers
        have heq : s.generation = g := hsocket
        omega
    · exact hstore.update hwakes.pcs fun hstoring => hactive (Request.active_of_storing hsteps hstoring)

section

variable {flight : Flight} {result : RateLimitResult} {steering : Steering.Pc}

theorem Wakes.exists_steering
    (h : Wakes client s i slot query (.steering flight result steering) pc' wake reply t) :
    ∃ reply' steering', reply = .steering reply' ∧ Steering.step steering reply' = some steering' ∧
      pc' = Request.steer flight result steering' := by
  cases Request.steps_of_step h.step with
  | steering hstep => exact ⟨_, _, rfl, hstep, rfl⟩

theorem Phase.steering_collecting (hg : s.generation = g) (he : s.epoch = epoch)
    (hrebind : Never s (·.rebinding = true)) (hstore : s.steeringPending = true ∨ Never s (·.Stored))
    (hadvised : ∀ i pc, ¬ old i → s.pcAt i = some pc → ¬ pc.Advised client)
    (hwakes : Wakes client s i slot query (.steering flight result steering) pc' wake reply t)
    (htime : AdviceInTime s (.wake i wake)) : Phase client old g epoch t := by
  have hsame := hwakes.sameSocket fun hreplaces => hrebind i _ hwakes.here hreplaces.rebinding
  have hstay (hrebinding : ¬ pc'.rebinding = true) (hpending : t.steeringPending = true)
      (hpc' : ¬ pc'.Advised client) : Phase client old g epoch t := by
    refine .collecting (hsame.generation.trans hg) (hsame.epoch.trans he)
      (hrebind.update hwakes.pcs hrebinding) (.inl hpending) fun k pc₀ hold hpc₀ => ?_
    rw [hwakes.pcs] at hpc₀
    split at hpc₀
    · exact Option.some.inj hpc₀ ▸ hpc'
    · exact hadvised k pc₀ hold hpc₀
  obtain ⟨reply', steering', rfl, hstep, rfl⟩ := hwakes.exists_steering
  have hset (hne : steering ≠ .storePending) : s.steeringPending = true :=
    hstore.resolve_right fun hnever => hnever i _ hwakes.here ⟨steering, rfl, hne⟩
  cases steering with
  | storePending =>
    cases reply' with
    | storePending =>
      cases hstep
      exact hstay Bool.false_ne_true (by rw [hwakes.eq]; rfl) Request.not_advised_steering
    | _ => cases hstep
  | applyLock =>
    cases reply' with
    | applyLock pending =>
      have hpending := hset nofun
      obtain ⟨-, rfl⟩ := hwakes.answers
      rw [hpending] at hstep
      cases hstep
      exact hstay Bool.false_ne_true (by rw [hwakes.eq]; exact hpending)
        Request.not_advised_steering
    | _ => cases hstep
  | activityWrite =>
    cases reply' with
    | activityWrite pending =>
      have hpending := hset nofun
      obtain ⟨-, -, rfl, rfl⟩ := hwakes.answers
      rw [hpending] at hstep
      cases hstep
      -- the flag is cleared, and the condition says that no advice is still on its way
      exact .rebinding hwakes.pcAt_self rfl (by rw [hwakes.eq]; rfl)
        ((htime hpending).update hwakes.pcs (Request.not_storing_steering nofun))
        ⟨hsame.generation.trans hg, hsame.epoch.trans he⟩
    | _ => cases hstep
  | done => cases hstep
  | _ => exact absurd rfl (hrebind i _ hwakes.here)

/-- Once the flag is cleared, a call that waits for the locks finds nothing to do. -/
theorem Wakes.finds_nothing
    (h : Wakes client s i slot query (.steering flight result steering) pc' wake reply t)
    (hpending : s.steeringPending = false) (hrebinding : steering.rebinding = false)
    (hne : steering ≠ .storePending) :
    pc' = .returned (some flight) (.ok result) ∧ t.steeringPending = false := by
  obtain ⟨reply', steering', rfl, hstep, rfl⟩ := h.exists_steering
  cases steering with
  | storePending => exact absurd rfl hne
  | applyLock =>
    cases reply' with
    | applyLock pending =>
      obtain ⟨-, rfl⟩ := h.answers
      rw [hpending] at hstep
      cases hstep
      exact ⟨rfl, by rw [h.eq]; exact hpending⟩
    | _ => cases hstep
  | activityWrite =>
    cases reply' with
    | activityWrite pending =>
      obtain ⟨-, -, rfl, -⟩ := h.answers
      rw [hpending] at hstep
      cases hstep
      exact ⟨rfl, by rw [h.eq]; rfl⟩
    | _ => cases hstep
  | done => cases hstep
  | _ => cases hrebinding

/-- The rebind goes on, and ends with the new socket and its epoch. -/
theorem Phase.steering_rebinding (hguarded : Guarded s)
    (hrebinding : steering.rebinding = true) (hpending : s.steeringPending = false)
    (hstore : Never s (·.Storing))
    (hat : AtEpoch g epoch s steering)
    (hwakes : Wakes client s i slot query (.steering flight result steering) pc' wake reply t)
    (hsocket : OnSocket g s (.wake i wake)) : Phase client old g epoch t := by
  have hactive := never_active_of_rebinding hguarded hwakes.here hrebinding
  have hfinish (hgeneration : t.generation = g + 1) (hepoch : t.epoch = epoch + 1)
      (hpending' : t.steeringPending = false)
      (hpc' : pc' = .returned (some flight) (.ok result)) : Phase client old g epoch t := by
    subst hpc'
    refine .rebound hgeneration hepoch (fun k pc₀ hpc₀ hrebinding' => ?_)
      (hactive.update hwakes.pcs Bool.false_ne_true) hpending'
      (hstore.update hwakes.pcs Request.not_storing_returned)
    rw [hwakes.pcs] at hpc₀
    split at hpc₀
    · cases hpc₀
      cases hrebinding'
    next hne => exact hne (eq_of_rebinding hguarded hwakes.here hrebinding hpc₀ hrebinding')
  have hnext {steering' : Steering.Pc} (hpc' : pc' = .steering flight result steering')
      (hrebinding' : steering'.rebinding = true) (hpending' : t.steeringPending = false)
      (hat' : AtEpoch g epoch t steering') : Phase client old g epoch t := by
    subst hpc'
    have hne : steering' ≠ .storePending := by
      rintro rfl
      cases hrebinding'
    exact .rebinding hwakes.pcAt_self hrebinding' hpending'
      (hstore.update hwakes.pcs (Request.not_storing_steering hne)) hat'
  have hawait {stats : SteeringStats} {nextEpoch ready : UInt64} {actualPort : UInt16}
      (hpc' : pc' = Request.steer flight result
        (Steering.awaitEpoch stats nextEpoch actualPort ready))
      (hpending' : t.steeringPending = false) (hgeneration : t.generation = g + 1)
      (hepoch : t.epoch = epoch + 1) : Phase client old g epoch t := by
    rcases Steering.awaitEpoch_eq stats nextEpoch actualPort ready with heq | ⟨stats', heq⟩
    · rw [heq] at hpc'
      exact hnext hpc' rfl hpending' ⟨hgeneration, hepoch⟩
    · rw [heq] at hpc'
      exact hfinish hgeneration hepoch hpending' hpc'
  obtain ⟨reply', steering', rfl, hstep, hpc'⟩ := hwakes.exists_steering
  cases steering with
  | storePending | applyLock | activityWrite | done => cases hrebinding
  | statsLock =>
    cases reply' with
    | stats stats =>
      cases hstep
      exact hnext hpc' rfl (by rw [hwakes.eq]; exact hpending) (by rw [hwakes.eq]; exact hat)
    | _ => cases hstep
  | socketRead stats =>
    cases reply' with
    | socketRead localAddr bindUdp =>
      obtain rfl := hwakes.answers
      obtain ⟨current, rfl, hfound⟩ := hsocket _ _ _ hwakes.here
      obtain ⟨⟨newSocket, nextPort⟩, hbind⟩ := exists_bindNextSteeringSocket_eq_ok_iff.mpr hfound
      simp only [Steering.step, hbind] at hstep
      cases hstep
      exact hnext hpc' rfl (by rw [hwakes.eq]; exact hpending) (by rw [hwakes.eq]; exact hat)
    | _ => cases hstep
  | epochReadyLock stats newSocket =>
    cases reply' with
    | epochReadyLock =>
      cases hstep
      exact hnext hpc' rfl (by rw [hwakes.eq]; exact hpending) (by rw [hwakes.eq]; exact hat)
    | _ => cases hstep
  | socketWrite stats newSocket =>
    cases reply' with
    | socketWrite epoch₀ localAddr ready =>
      obtain ⟨rfl, rfl, rfl⟩ := hwakes.answers
      obtain ⟨actual, rfl⟩ := hsocket
      have hgeneration : t.generation = g + 1 := by
        rw [hwakes.eq, ← hat.1]
        rfl
      have hepoch : t.epoch = epoch + 1 := by
        rw [hwakes.eq, ← hat.2]
        rfl
      have hpending' : t.steeringPending = false := by rw [hwakes.eq]; exact hpending
      obtain rfl := Option.some.inj hstep
      exact hawait hpc' hpending' hgeneration hepoch
    | _ => cases hstep
  | epochChanged stats nextEpoch actualPort =>
    cases reply' with
    | epochChanged ready =>
      obtain ⟨rfl, -⟩ := hwakes.answers
      have hgeneration : t.generation = g + 1 := by
        rw [hwakes.eq, ← hat.1]
        rfl
      have hepoch : t.epoch = epoch + 1 := by
        rw [hwakes.eq, ← hat.2]
        rfl
      have hpending' : t.steeringPending = false := by rw [hwakes.eq]; exact hpending
      obtain rfl := Option.some.inj hstep
      exact hawait hpc' hpending' hgeneration hepoch
    | _ => cases hstep

/-- A step of a call in steering. -/
theorem Phase.inside (h : Phase client old g epoch s) (hguarded : Guarded s)
    (hwakes : Wakes client s i slot query (.steering flight result steering) pc' wake reply t)
    (hsocket : OnSocket g s (.wake i wake)) (htime : AdviceInTime s (.wake i wake)) :
    Phase client old g epoch t := by
  have hnothing (hpending : s.steeringPending = false) (hrebinding : ¬ steering.rebinding = true)
      (hstore : Never s (·.Storing)) :=
    hwakes.finds_nothing hpending (by simpa using hrebinding)
      fun heq => hstore i _ hwakes.here (congrArg some heq)
  cases h with
  | collecting hg he hrebind hstored hadvised =>
    exact Phase.steering_collecting hg he hrebind hstored hadvised hwakes htime
  | @rebinding i₀ flight₀ result₀ steering₀ hpc₀ hrebind hpending hstore hat =>
    by_cases heq : i = i₀
    · subst heq
      have hpc := hwakes.here
      rw [hpc₀] at hpc
      cases hpc
      exact Phase.steering_rebinding hguarded hrebind hpending hstore hat hwakes hsocket
    · have hother : ¬ steering.rebinding = true := fun hrebinding =>
        heq (eq_of_rebinding hguarded hpc₀ hrebind hwakes.here hrebinding)
      obtain ⟨rfl, hpending'⟩ := hnothing hpending hother hstore
      have hsame := hwakes.sameSocket fun hreplaces => hother hreplaces.rebinding
      refine .rebinding ((hwakes.pcAt_ne (Ne.symm heq)).trans hpc₀) hrebind hpending'
        (hstore.update hwakes.pcs Request.not_storing_returned) ?_
      exact hat.congr hsame.generation hsame.epoch
  | rebound hg he hrebind hread hpending hstore =>
    have hother := hrebind i _ hwakes.here
    obtain ⟨rfl, hpending'⟩ := hnothing hpending hother hstore
    have hsame := hwakes.sameSocket fun hreplaces => hother hreplaces.rebinding
    exact .rebound (hsame.generation.trans hg) (hsame.epoch.trans he)
      (hrebind.update hwakes.pcs Bool.false_ne_true) (hread.update hwakes.pcs Bool.false_ne_true)
      hpending' (hstore.update hwakes.pcs Request.not_storing_returned)

end

/-! ### Runs -/

theorem Phase.step (h : Phase client old g epoch s) (hreachable : (lts client).Reachable s)
    (hsocket : OnSocket g s event) (htime : AdviceInTime s event)
    (hstep : Client.step client s event = some t) : Phase client old g epoch t := by
  have hguarded := guarded_reachable hreachable
  cases changes_of_step hstep with
  | idle hidle => exact h.idle hidle
  | @request i slot query pc pc' wake reply hevent hslot hcall hpc hanswers hrequest hpcs ht =>
    subst hevent
    have hwakes : Wakes client s i slot query pc pc' wake reply t := ⟨hpc, hanswers, hrequest, hpcs, ht⟩
    by_cases hsteering : pc.steeringPc = none
    · have hcall' := calls_reachable hreachable i slot hslot
      rw [hcall] at hcall'
      exact h.outside hguarded hwakes hsocket (Lts.Reachable.step hcall' hrequest) hsteering
    · cases pc with
      | steering => exact h.inside hguarded hwakes hsocket htime
      | _ => exact absurd rfl hsteering
  | drop hevent =>
    subst hevent
    exact hsocket.elim

theorem pcAt_of_returned (hstep : Client.step client s event = some t) (hpc : s.pcAt i = some pc)
    (hreturned : pc.Returned) (hdrop : event ≠ .drop i) : t.pcAt i = some pc := by
  obtain ⟨flight, outcome, rfl⟩ := hreturned
  cases changes_of_step hstep with
  | idle hidle =>
    rcases hidle.pcAt i with heq | ⟨hnone, -⟩
    · exact heq.trans hpc
    · rw [hpc] at hnone
      cases hnone
  | request _ _ _ hfrom _ hrequest hpcs =>
    rw [hpcs, if_neg, hpc]
    rintro rfl
    rw [hpc] at hfrom
    cases hfrom
    cases hrequest
  | drop hevent _ _ hpcs =>
    rw [hpcs, if_neg, hpc]
    rintro rfl
    exact hdrop hevent

/-- Advice to change the port leads to one rebind, to the next socket and epoch, when all requests
were on one socket and each of them has set the flag before the rebind clears it. -/
theorem rebound_once (hreachable : (lts client).Reachable s)
    (hreturned : ∀ i pc, s.pcAt i = some pc → pc.Returned)
    (hrun : ((lts client).restrict fun u event =>
      OnSocket s.generation u event ∧ AdviceInTime u event).Run s events t)
    (hadvised : ∀ i pc, s.pcAt i = none → t.pcAt i = some pc → pc.Advised client)
    (hsome : ∃ i, s.pcAt i = none ∧ t.pcAt i ≠ none) :
    t.generation = s.generation + 1 ∧ t.epoch = s.epoch + 1 := by
  have hphase : (lts client).Reachable t ∧
      (∀ i pc, s.pcAt i = some pc → t.pcAt i = some pc) ∧
      Phase client (fun i => s.pcAt i ≠ none) s.generation s.epoch t := by
    refine hrun.preserves (P := fun u => (lts client).Reachable u ∧
      (∀ i pc, s.pcAt i = some pc → u.pcAt i = some pc) ∧
      Phase client (fun i => s.pcAt i ≠ none) s.generation s.epoch u) ?_ ?_
    · rintro u event v ⟨hu, hold, hphase⟩ ⟨⟨hsocket, htime⟩, hstep⟩
      refine ⟨hu.step hstep, fun i pc hpc => ?_, hphase.step hu hsocket htime hstep⟩
      refine pcAt_of_returned hstep (hold i pc hpc) (hreturned i pc hpc) ?_
      rintro rfl
      exact hsocket
    · refine ⟨hreachable, fun _ _ hpc => hpc, .collecting rfl rfl ?_ (.inr ?_) ?_⟩
      · intro i pc hpc hrebinding
        obtain ⟨flight, outcome, rfl⟩ := hreturned i pc hpc
        cases hrebinding
      · intro i pc hpc hstored
        obtain ⟨flight, outcome, rfl⟩ := hreturned i pc hpc
        obtain ⟨steering, hsteering, -⟩ := hstored
        cases hsteering
      · intro i pc hold hpc
        exact absurd (by simp [hpc]) hold
  obtain ⟨-, hold, hphase⟩ := hphase
  cases hphase with
  | collecting _ _ _ _ hnone =>
    obtain ⟨i, hi, ht⟩ := hsome
    obtain ⟨pc, hpc⟩ := Option.ne_none_iff_exists'.mp ht
    exact absurd (hadvised i pc hi hpc) (hnone i pc (by simpa using hi) hpc)
  | @rebinding i flight result steering hpc =>
    exfalso
    cases hi : s.pcAt i with
    | none =>
      obtain ⟨_, _, heq, -⟩ := hadvised i _ hi hpc
      cases heq
    | some pc =>
      obtain ⟨_, _, rfl⟩ := hreturned i pc hi
      rw [hold i _ hi] at hpc
      cases hpc
  | rebound hgeneration hepoch => exact ⟨hgeneration, hepoch⟩

/-! ### Two requests on one socket -/

def Slot.advised (slot : Slot) : Bool :=
  match slot.live with
  | some (.returned (some _) (.ok result)) =>
    Steering.start sampleClient.config result = .storePending
  | _ => false

theorem advised_of_all (h : s.slots.all (·.advised) = true) (hpc : s.pcAt i = some pc) :
    pc.Advised sampleClient := by
  obtain ⟨slot, hslot, hlive⟩ := Option.bind_eq_some_iff.mp hpc
  have hadvised := List.all_eq_true.mp h slot (List.mem_of_getElem? hslot)
  unfold Slot.advised at hadvised
  rw [hlive] at hadvised
  split at hadvised
  next flight result heq =>
    cases heq
    exact ⟨flight, result, rfl, of_decide_eq_true hadvised⟩
  next => cases hadvised

/-- The new sockets, and their address. -/
def sampleBind : BindUdp := fun _ _ => .ok 7

/-- The router takes the new socket, and call `i` sees it. -/
def sampleFollow (i : ℕ) : List Event := [.routerRead, .routerAck, .wake i .epochChanged]

/-- One request, whose advice is followed. -/
def sampleFollowed : List Event :=
  sampleBegin 0 0 ++ sampleSelect 0 0 ++ sampleRebind 0 sampleBind (.ok (sampleAddr 6)) ++
    sampleFollow 0

/-- The second request leaves its round loop before the rebind of the first one, and sets the flag
after it. -/
def sampleOverlap : List Event :=
  sampleBegin 0 0 ++ sampleBegin 1 1 ++ sampleSelect 0 0 ++ sampleSelect 1 1 ++
    sampleRebind 0 sampleBind (.ok (sampleAddr 6)) ++ sampleFollow 0 ++
    sampleRebind 1 sampleBind (.ok (sampleAddr 6)) ++ [.epochChanged] ++ sampleFollow 1

/-- Nothing is dropped, and the system calls of a rebind succeed. -/
def Smooth : Event → Prop
  | .drop _ => False
  | .wake _ (.socketRead localAddr bindUdp) => localAddr = .ok (sampleAddr 5) ∧ bindUdp = sampleBind
  | .wake _ (.socketWrite localAddr) => localAddr = .ok (sampleAddr 6)
  | _ => True

theorem smooth_sampleFollowed : ∀ event ∈ sampleFollowed, Smooth event := by
  simp [sampleFollowed, sampleBegin, sampleSelect, sampleRebind, sampleFollow, Smooth]

theorem smooth_sampleOverlap : ∀ event ∈ sampleOverlap, Smooth event := by
  simp [sampleOverlap, sampleBegin, sampleSelect, sampleRebind, sampleFollow, Smooth]

/-- A step that takes no read guard on a later socket, and clears no flag too early. -/
def sampleCheck (inTime : Bool) (s : State) : Event → Bool
  | .wake _ (.activity _) => s.generation = 0
  | .wake _ .activityWrite => !inTime ||
    s.slots.all fun slot => slot.live.all fun pc => pc.steeringPc ≠ some .storePending
  | _ => true

def sampleStep (inTime : Bool) (s : State) (event : Event) : Option State :=
  if sampleCheck inTime s event then step sampleClient s event else none

theorem onSocket_of_smooth {inTime : Bool} (h : Smooth event)
    (hcheck : sampleCheck inTime s event = true) : OnSocket 0 s event := by
  cases event with
  | drop => exact h
  | wake i wake =>
    cases wake with
    | activity =>
      have heq : s.generation = 0 := of_decide_eq_true hcheck
      exact heq
    | socketWrite => exact ⟨_, h⟩
    | socketRead =>
      obtain ⟨rfl, rfl⟩ := h
      intro flight result pc hpc
      cases pc with
      | socketRead stats =>
        refine ⟨_, rfl, 0, by decide, fun i hi => absurd hi (Nat.not_lt_zero i), ?_⟩
        exact ⟨by simp [PortInUse, sampleBind, isAddrInUse], false, 7, rfl⟩
      | _ => trivial
    | _ => trivial
  | _ => trivial

theorem adviceInTime_of_check (hcheck : sampleCheck true s event = true) : AdviceInTime s event := by
  cases event with
  | wake i wake =>
    cases wake with
    | activityWrite =>
      intro _ j pc hpc
      obtain ⟨slot, hslot, hlive⟩ := Option.bind_eq_some_iff.mp hpc
      have hall := List.all_eq_true.mp hcheck slot (List.mem_of_getElem? hslot)
      rw [hlive] at hall
      have hne : pc.steeringPc ≠ some .storePending := of_decide_eq_true hall
      exact hne
    | _ => trivial
  | _ => trivial

theorem rebound_once_sample : ∃ t : State, t.pcAt 0 ≠ none ∧
    t.generation = sampleState.generation + 1 ∧ t.epoch = sampleState.epoch + 1 := by
  obtain ⟨t, ht, htest⟩ := (Option.any_eq_true _ _).mp
    (show (Lts.runSteps (sampleStep true) sampleFollowed sampleState).any (fun t =>
      t.slots.all (·.advised) ∧ (t.pcAt 0).isSome) = true by decide +kernel)
  obtain ⟨hall, hsome⟩ := of_decide_eq_true htest
  have hstart : ∀ i, sampleState.pcAt i = none := fun i => rfl
  have hne : t.pcAt 0 ≠ none := Option.isSome_iff_ne_none.mp hsome
  refine ⟨t, hne, rebound_once (.init init_sampleState) (fun i pc hpc => ?_) (Lts.Run.of_runSteps
    (fun event hevent u v hstep => ?_) ht) (fun i pc _ hpc => advised_of_all hall hpc)
    ⟨0, hstart 0, hne⟩⟩
  · rw [hstart] at hpc
    cases hpc
  · obtain ⟨hcheck, hstep⟩ := Option.ite_none_right_eq_some.mp hstep
    exact ⟨⟨onSocket_of_smooth (smooth_sampleFollowed event hevent) hcheck,
      adviceInTime_of_check hcheck⟩, hstep⟩

/-- Two requests on one socket rebind it twice. -/
theorem not_rebound_once : ¬ ∀ (s t : State) (events : List Event), (lts sampleClient).Reachable s →
    (∀ i pc, s.pcAt i = some pc → pc.Returned) →
    ((lts sampleClient).restrict (OnSocket s.generation)).Run s events t →
    (∀ i pc, s.pcAt i = none → t.pcAt i = some pc → pc.Advised sampleClient) →
    (∃ i, s.pcAt i = none ∧ t.pcAt i ≠ none) →
    t.generation = s.generation + 1 ∧ t.epoch = s.epoch + 1 := by
  intro h
  obtain ⟨t, ht, htest⟩ := (Option.any_eq_true _ _).mp
    (show (Lts.runSteps (sampleStep false) sampleOverlap sampleState).any (fun t =>
      t.slots.all (·.advised) ∧ (t.pcAt 0).isSome ∧ t.epoch = 2) = true by decide +kernel)
  obtain ⟨hall, hsome, hepoch⟩ := of_decide_eq_true htest
  have hstart : ∀ i, sampleState.pcAt i = none := fun i => rfl
  have hrun : ((lts sampleClient).restrict (OnSocket 0)).Run sampleState sampleOverlap t := by
    refine Lts.Run.of_runSteps (fun event hevent u v hstep => ?_) ht
    obtain ⟨hcheck, hstep⟩ := Option.ite_none_right_eq_some.mp hstep
    exact ⟨onSocket_of_smooth (smooth_sampleOverlap event hevent) hcheck, hstep⟩
  have honce := h sampleState t sampleOverlap (.init init_sampleState)
    (fun i pc hpc => by rw [hstart] at hpc; cases hpc) hrun
    (fun i pc _ hpc => advised_of_all hall hpc)
    ⟨0, hstart 0, Option.isSome_iff_ne_none.mp hsome⟩
  rw [hepoch] at honce
  exact absurd honce.2 (by decide)

end Client

end Ratelimitly
