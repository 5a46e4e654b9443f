import Mathlib.Tactic
import Ratelimitly.ClientSteps

/-! Who holds the guards of a client. -/
namespace Ratelimitly

open Lib

namespace Steering

variable {pc pc' : Pc} {reply : Reply}

theorem applying_of_step (h : step pc reply = some pc') (hpc : pc'.applying = true) :
    pc.applying = true ∨ ∃ pending, reply = .applyLock pending := by
  unfold step at h
  split at h <;> cases h
  case h_2 pending => exact .inr ⟨pending, rfl⟩
  case h_1 => cases hpc
  all_goals exact .inl rfl

theorem rebinding_of_step (h : step pc reply = some pc') (hpc : pc'.rebinding = true) :
    pc.rebinding = true ∨ ∃ pending, reply = .activityWrite pending := by
  unfold step at h
  split at h <;> cases h
  case h_3 pending => exact .inr ⟨pending, rfl⟩
  case h_1 => cases hpc
  case h_2 => split at hpc <;> cases hpc
  all_goals exact .inl rfl

end Steering

namespace Request

variable {client : CoreClient} {query : Query} {pc pc' : Pc} {reply : Reply} {flight : Flight}
  {result : RateLimitResult}

@[simp] theorem active_steer (pc : Steering.Pc) : (steer flight result pc).active = false := by
  unfold steer
  split <;> rfl

@[simp] theorem applying_steer (pc : Steering.Pc) :
    (steer flight result pc).applying = pc.applying := by
  unfold steer
  split <;> rfl

@[simp] theorem rebinding_steer (pc : Steering.Pc) :
    (steer flight result pc).rebinding = pc.rebinding := by
  unfold steer
  split <;> rfl

theorem applying_start (config : CoreConfig) (result : RateLimitResult) :
    (Steering.start config result).applying = false := by
  unfold Steering.start
  split <;> rfl

theorem rebinding_of_applying {pc : Steering.Pc} (h : pc.rebinding = true) :
    pc.applying = true := by
  cases pc with
  | storePending | applyLock | activityWrite | done => cases h
  | _ => rfl

theorem not_applying_leaveFlight : (leaveFlight client flight).applying = false := by
  unfold leaveFlight
  split
  · rw [applying_steer, applying_start]
  · rfl
  · rfl

theorem not_rebinding_of_not_applying (h : pc.applying = false) : pc.rebinding = false := by
  cases hpc : pc.steeringPc with
  | none => simp [Pc.rebinding, hpc]
  | some steering =>
    by_contra hne
    have hr : steering.rebinding = true := by simpa [Pc.rebinding, hpc] using hne
    simp [Pc.applying, hpc, rebinding_of_applying hr] at h

theorem not_applying_enter (dedupTtlMs : UInt32) (servers : List ServerEndpoint)
    (resolver : Resolver) : (enter client dedupTtlMs servers resolver).applying = false ∧
      (enter client dedupTtlMs servers resolver).active = false := by
  unfold enter
  split
  · exact ⟨rfl, rfl⟩
  · exact ⟨rfl, rfl⟩
  · split <;> exact ⟨rfl, rfl⟩

theorem not_applying_register (dedupTtlMs : UInt32) (resolved : ResolvedTargets)
    (seed : PacketSeed) (now : ℕ) :
    (register client query dedupTtlMs resolved seed now).applying = false := by
  unfold register
  split <;> rfl

theorem not_applying_begin : (begin client query).applying = false ∧
    (begin client query).active = false := by
  unfold begin
  dsimp only
  split
  · exact ⟨rfl, rfl⟩
  · exact ⟨rfl, rfl⟩
  · split
    · exact ⟨rfl, rfl⟩
    · split <;> exact ⟨rfl, rfl⟩

/-- A call takes its read guard in one step only. -/
theorem active_of_steps (h : Steps client query pc reply pc') (hpc : pc'.active = true) :
    pc.active = true ∨ ∃ seed now, reply = .activity seed now := by
  cases h with
  | activity => exact .inr ⟨_, _, rfl⟩
  | flight => exact .inl rfl
  | lastRefresh => split at hpc <;> cases hpc
  | refreshed | unrefreshed => cases hpc
  | servers =>
    rw [(not_applying_enter _ _ _).2] at hpc
    cases hpc
  | steering =>
    rw [active_steer] at hpc
    cases hpc

theorem applying_of_steps (h : Steps client query pc reply pc') (hpc : pc'.applying = true) :
    pc.applying = true ∨ ∃ pending, reply = .steering (.applyLock pending) := by
  cases h with
  | steering h =>
    rw [applying_steer] at hpc
    rcases Steering.applying_of_step h hpc with hpc | ⟨pending, rfl⟩
    · exact .inl hpc
    · exact .inr ⟨pending, rfl⟩
  | activity =>
    rw [not_applying_register] at hpc
    cases hpc
  | flight =>
    rw [not_applying_leaveFlight] at hpc
    cases hpc
  | lastRefresh => split at hpc <;> cases hpc
  | refreshed | unrefreshed => cases hpc
  | servers =>
    rw [(not_applying_enter _ _ _).1] at hpc
    cases hpc

theorem rebinding_of_steps (h : Steps client query pc reply pc') (hpc : pc'.rebinding = true) :
    pc.rebinding = true ∨ ∃ pending, reply = .steering (.activityWrite pending) := by
  have happlying : pc'.applying = true := by
    by_contra hne
    rw [not_rebinding_of_not_applying (by simpa using hne)] at hpc
    cases hpc
  cases h with
  | steering h =>
    rw [rebinding_steer] at hpc
    rcases Steering.rebinding_of_step h hpc with hpc | ⟨pending, rfl⟩
    · exact .inl hpc
    · exact .inr ⟨pending, rfl⟩
  | activity =>
    rw [not_applying_register] at happlying
    cases happlying
  | flight =>
    rw [not_applying_leaveFlight] at happlying
    cases happlying
  | lastRefresh => split at happlying <;> cases happlying
  | refreshed | unrefreshed => cases happlying
  | servers =>
    rw [(not_applying_enter _ _ _).1] at happlying
    cases happlying

theorem not_rebinding_of_active (h : pc.active = true) : pc.rebinding = false := by
  cases pc with
  | flying => rfl
  | _ => cases h

end Request

namespace Client

variable {client : CoreClient} {s t : State} {event : Event} {i j : ℕ}

theorem owner_eq_some_iff {current : Option ℕ} {P : ℕ → Prop} {holds : Bool}
    (h : ∀ j, current = some j ↔ P j) (hholds : holds = true → P i ∨ current = none) (j : ℕ) :
    owner current i holds = some j ↔ if j = i then holds = true else P j := by
  unfold owner
  cases holds with
  | true =>
    rw [if_pos rfl, Option.some.injEq]
    split
    next heq => simp [heq]
    next hne =>
      refine iff_of_false (Ne.symm hne) fun hj => ?_
      rcases hholds rfl with hi | hnone
      · exact hne (Option.some.inj (((h j).mpr hj).symm.trans ((h i).mpr hi)))
      · rw [(h j).mpr hj] at hnone
        cases hnone
  | false =>
    rw [if_neg (by simp)]
    split
    next hcurrent =>
      refine iff_of_false (by simp) fun hj => ?_
      split at hj
      next => cases hj
      next hne => exact hne (Option.some.inj (((h j).mpr hj).symm.trans hcurrent))
    next hcurrent =>
      split
      next heq => simp [heq, hcurrent]
      next => exact h j

theorem mem_readers_settle {guards : Guards} {pc : Option Request.Pc} :
    j ∈ (guards.settle i pc).readers ↔
      if j = i then pc.any (·.active) = true else j ∈ guards.readers := by
  unfold Guards.settle
  dsimp only
  split
  next hactive => by_cases heq : j = i <;> simp [heq, hactive]
  next hactive => by_cases heq : j = i <;> simp [heq, hactive]

/-- Each guard is held by the calls that are where they hold it, and the write guard excludes the
read guards. -/
structure Guarded (s : State) : Prop where
  readers : ∀ i, i ∈ s.guards.readers ↔ (s.pcAt i).any (·.active) = true
  writer : ∀ i, s.guards.writer = some i ↔ (s.pcAt i).any (·.rebinding) = true
  applying : ∀ i, s.guards.applying = some i ↔ (s.pcAt i).any (·.applying) = true
  exclusive : s.guards.readers = [] ∨ s.guards.writer = none

theorem Guarded.idle (h : Guarded s) (hidle : Idle client s t) : Guarded t := by
  have hany {p : Request.Pc → Bool} (hbegin : ∀ query, p (Request.begin client query) = false)
      (j : ℕ) : (t.pcAt j).any p = (s.pcAt j).any p := by
    rcases hidle.pcAt j with heq | ⟨hnone, hpc⟩
    · rw [heq]
    · rw [hnone]
      cases hj : t.pcAt j with
      | none => rfl
      | some pc =>
        obtain ⟨query, rfl⟩ := hpc pc hj
        exact hbegin query
  refine ⟨fun j => ?_, fun j => ?_, fun j => ?_, ?_⟩
  · rw [hidle.guards, h.readers, hany fun query => Request.not_applying_begin.2]
  · rw [hidle.guards, h.writer, hany fun query =>
      Request.not_rebinding_of_not_applying Request.not_applying_begin.1]
  · rw [hidle.guards, h.applying, hany fun query => Request.not_applying_begin.1]
  · rw [hidle.guards]
    exact h.exclusive

/-- A call moves to where it may hold the guards it has or has just been given. -/
theorem Guarded.settle (h : Guarded s) {new : Option Request.Pc}
    (hpcs : ∀ j, t.pcAt j = if j = i then new else s.pcAt j)
    (hguards : t.guards = s.guards.settle i new)
    (hactive : new.any (·.active) = true →
      (s.pcAt i).any (·.active) = true ∨ s.guards.writer = none)
    (hrebinding : new.any (·.rebinding) = true →
      (s.pcAt i).any (·.rebinding) = true ∨ s.guards.readers = [] ∧ s.guards.writer = none)
    (happlying : new.any (·.applying) = true →
      (s.pcAt i).any (·.applying) = true ∨ s.guards.applying = none) : Guarded t := by
  have hany (p : Request.Pc → Bool) (j : ℕ) : (t.pcAt j).any p = true ↔
      if j = i then new.any p = true else (s.pcAt j).any p = true := by
    rw [hpcs]
    split <;> rfl
  refine ⟨fun j => ?_, fun j => ?_, fun j => ?_, ?_⟩
  · rw [hguards, mem_readers_settle, hany, h.readers]
  · rw [hguards, hany]
    exact owner_eq_some_iff h.writer (fun hb => (hrebinding hb).imp_right (·.2)) j
  · rw [hguards, hany]
    exact owner_eq_some_iff h.applying happlying j
  · rw [hguards]
    cases hnew : new.any (·.rebinding) with
    | true =>
      -- the writer was alone before, and its call is no reader
      have hnot : new.any (·.active) = false := by
        cases new with
        | none => rfl
        | some pc =>
          cases hpc : pc.active with
          | false => simpa using hpc
          | true =>
            rw [Option.any_some, Request.not_rebinding_of_active hpc] at hnew
            cases hnew
      have hreaders : s.guards.readers = [] := by
        rcases hrebinding hnew with hi | hnone
        · rcases h.exclusive with hnil | hwriter
          · exact hnil
          · rw [(h.writer i).mpr hi] at hwriter
            cases hwriter
        · exact hnone.1
      left
      simp [Guards.settle, hnot, hreaders]
    | false =>
      have hwriter : s.guards.writer = none → (s.guards.settle i new).writer = none := by
        intro hnone
        simp [Guards.settle, owner, hnew, hnone]
      cases hnew' : new.any (·.active) with
      | true =>
        right
        rcases hactive hnew' with hi | hnone
        · rcases h.exclusive with hnil | hnone
          · have hmem := (h.readers i).mpr hi
            rw [hnil] at hmem
            cases hmem
          · exact hwriter hnone
        · exact hwriter hnone
      | false =>
        rcases h.exclusive with hnil | hnone
        · left
          simp [Guards.settle, hnew', hnil]
        · exact .inr (hwriter hnone)

theorem guarded_step (h : Guarded s) (hstep : step client s event = some t) : Guarded t := by
  cases changes_of_step hstep with
  | idle hidle => exact h.idle hidle
  | @request i slot query pc wake reply pc' _ _ _ hpc hanswers hrequest hpcs ht =>
    have hsteps := Request.steps_of_step hrequest
    refine h.settle hpcs (ht ▸ rfl) ?_ ?_ ?_
    · intro hactive
      rcases Request.active_of_steps hsteps hactive with hold | ⟨seed, now, rfl⟩
      · exact .inl (by simpa [hpc] using hold)
      · exact .inr hanswers.1
    · intro hrebinding
      rcases Request.rebinding_of_steps hsteps hrebinding with hold | ⟨pending, rfl⟩
      · exact .inl (by simpa [hpc] using hold)
      · exact .inr ⟨hanswers.1, hanswers.2.1⟩
    · intro happlying
      rcases Request.applying_of_steps hsteps happlying with hold | ⟨pending, rfl⟩
      · exact .inl (by simpa [hpc] using hold)
      · exact .inr hanswers.1
  | drop _ _ _ hpcs ht => exact h.settle hpcs (ht ▸ rfl) nofun nofun nofun

theorem guarded_reachable (h : (lts client).Reachable s) : Guarded s := by
  refine h.invariant ?_ ?_
  · rintro s ⟨bindUdp, now, hnew⟩
    obtain ⟨socket, -, -, -, rfl⟩ := new_eq_ok_iff.mp hnew
    exact ⟨by simp [start, State.pcAt], by simp [start, State.pcAt], by simp [start, State.pcAt],
      .inl rfl⟩
  · intro s event t _ hs hstep
    exact guarded_step hs hstep

/-- One call rebinds at a time. -/
theorem eq_of_rebinding {pc pc' : Request.Pc} (hguarded : Guarded s) (hpc : s.pcAt i = some pc)
    (hrebinding : pc.rebinding = true) (hother : s.pcAt j = some pc')
    (hrebinding' : pc'.rebinding = true) : j = i := by
  have hi := (hguarded.writer i).mpr (by simpa [hpc] using hrebinding)
  have hj := (hguarded.writer j).mpr (by simpa [hother] using hrebinding')
  exact Option.some.inj (hj.symm.trans hi)

end Client

end Ratelimitly
