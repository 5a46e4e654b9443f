import Mathlib.Tactic
import Ratelimitly.Rotation

/-! What the steering statistics count. -/
namespace Ratelimitly

open Lib

namespace Steering

/-- How often a socket was put in place, advice recorded, and another port recorded. -/
structure Tally where
  generation : ℕ
  advised : ℕ
  moved : ℕ

variable {pc pc' : Pc} {reply : Reply} {stats : SteeringStats} {tally : Tally}

/-- The step replaces the shared socket. -/
def replaces : Pc → Reply → Bool
  | .socketWrite _ _, .socketWrite _ _ _ => true
  | _, _ => false

/-- The step records advice. -/
def advises : Pc → Reply → Bool
  | .statsLock, .stats _ => true
  | _, _ => false

/-- Another port is recorded. -/
def moves (old new : SteeringStats) : Bool := decide (new.lastPort ≠ old.lastPort)

/-- The tally after a step, by the statistics before and after it. -/
def Tally.next (tally : Tally) (pc : Pc) (reply : Reply) (old new : SteeringStats) : Tally where
  generation := tally.generation + (replaces pc reply).toNat
  advised := tally.advised + (advises pc reply).toNat
  moved := tally.moved + (moves old new).toNat

/-- The statistics are the tally modulo 2^64. A change of the port is a replaced socket, and a
replaced socket is advice that was followed. -/
structure Counts (tally : Tally) (stats : SteeringStats) : Prop where
  feedbackZeroCount : stats.feedbackZeroCount = .ofNat tally.advised
  portChanges : stats.portChanges = .ofNat tally.moved
  changes : tally.moved ≤ tally.generation
  replaced : tally.generation ≤ tally.advised
  last : stats.lastPort = none ↔ tally.moved = 0

/-- Where a rebind is, it has the statistics, and it has yet to count or has counted its part. -/
def Pc.Counted (tally : Tally) (stats : SteeringStats) : Pc → Prop
  | .socketRead held | .epochReadyLock held _ | .socketWrite held _ =>
    held = stats ∧ tally.generation < tally.advised
  | .epochChanged held _ _ => held = stats ∧ tally.moved < tally.generation
  | _ => True

/-- What a step leaves. -/
def Leaves (tally : Tally) (stats : SteeringStats) (pc : Pc) : Prop :=
  Counts tally stats ∧ pc.Counted tally stats

theorem moves_self (stats : SteeringStats) : moves stats stats = false := decide_eq_false (· rfl)

/-- A step that neither replaces the socket nor records anything. -/
theorem Tally.next_of_idle {old new : SteeringStats} (hreplaces : replaces pc reply = false)
    (hadvises : advises pc reply = false) (hlast : new.lastPort = old.lastPort) :
    tally.next pc reply old new = tally := by
  simp [next, hreplaces, hadvises, moves, hlast]

/-- The look at the router's answer, which ends a rebind or waits on. -/
theorem leaves_awaitEpoch (h : Counts tally stats) (hlt : tally.moved < tally.generation)
    (nextEpoch : UInt64) (actualPort : UInt16) (ready : UInt64) :
    let pc := awaitEpoch stats nextEpoch actualPort ready
    Leaves { tally with moved := tally.moved + (moves stats (pc.stats.getD stats)).toNat }
      (pc.stats.getD stats) pc := by
  intro pc
  by_cases hready : ready = nextEpoch
  · by_cases hport : stats.lastPort = some actualPort
    · have hpc : pc = .done (.ok ()) (some { stats with lastPort := some actualPort }) := by
        simp [pc, awaitEpoch, hready, hport]
      have hsame : { stats with lastPort := some actualPort } = stats := by rw [← hport]
      rw [hpc, hsame]
      simp only [Pc.stats, Option.getD_some, moves_self, Bool.toNat_false, Nat.add_zero]
      exact ⟨h, trivial⟩
    · have hpc : pc = .done (.ok ()) (some { stats with
          portChanges := stats.portChanges + 1
          lastPort := some actualPort }) := by
        simp [pc, awaitEpoch, hready, hport]
      have hmoves (changes : UInt64) : moves stats { stats with
          portChanges := changes
          lastPort := some actualPort } = true := decide_eq_true (Ne.symm hport)
      rw [hpc]
      simp only [Pc.stats, Option.getD_some, hmoves, Bool.toNat_true]
      refine ⟨⟨h.feedbackZeroCount, ?_, hlt, h.replaced, by simp⟩, trivial⟩
      rw [h.portChanges]
      exact (UInt64.ofNat_add _ _).symm
  · have hpc : pc = .epochChanged stats nextEpoch actualPort := by
      simp [pc, awaitEpoch, hready]
    rw [hpc]
    simp only [Pc.stats, Option.getD_some, moves_self, Bool.toNat_false, Nat.add_zero]
    exact ⟨h, rfl, hlt⟩

theorem leaves_of_idle (h : Counts tally stats) (hreplaces : replaces pc reply = false)
    (hadvises : advises pc reply = false) (hstats : pc'.stats.getD stats = stats)
    (hcounted : pc'.Counted tally stats) :
    Leaves (tally.next pc reply stats (pc'.stats.getD stats)) (pc'.stats.getD stats) pc' := by
  rw [hstats, Tally.next_of_idle hreplaces hadvises rfl]
  exact ⟨h, hcounted⟩

/-- A step of the steering keeps the counts. -/
theorem leaves_of_step (h : Counts tally stats) (hpc : pc.Counted tally stats)
    (hreply : ∀ held, reply = .stats held → held = stats) (hstep : step pc reply = some pc') :
    Leaves (tally.next pc reply stats (pc'.stats.getD stats)) (pc'.stats.getD stats) pc' := by
  unfold step at hstep
  split at hstep
  · cases hstep
    exact leaves_of_idle h rfl rfl rfl trivial
  · cases hstep
    split
    · exact leaves_of_idle h rfl rfl rfl trivial
    · exact leaves_of_idle h rfl rfl rfl trivial
  · cases hstep
    split
    · exact leaves_of_idle h rfl rfl rfl trivial
    · exact leaves_of_idle h rfl rfl rfl trivial
  next held =>
    cases hstep
    obtain rfl : held = stats := hreply _ rfl
    have hnext : tally.next .statsLock (.stats held) held
        { held with feedbackZeroCount := held.feedbackZeroCount + 1 } =
          { tally with advised := tally.advised + 1 } := by
      simp [Tally.next, replaces, advises, moves]
    have hadvised : held.feedbackZeroCount + 1 = .ofNat (tally.advised + 1) := by
      rw [h.feedbackZeroCount]
      exact (UInt64.ofNat_add _ _).symm
    simp only [Pc.stats, Option.getD_some, hnext]
    exact ⟨⟨hadvised, h.portChanges, h.changes, h.replaced.trans (Nat.le_succ _), h.last⟩, rfl,
      Nat.lt_succ_of_le h.replaced⟩
  · cases hstep
    obtain ⟨rfl, hlt⟩ := hpc
    split
    · exact leaves_of_idle h rfl rfl rfl trivial
    · split
      · exact leaves_of_idle h rfl rfl rfl trivial
      · simp only [Pc.stats, Option.getD_some]
        rw [Tally.next_of_idle (by rfl) (by rfl) (by rfl)]
        exact ⟨⟨h.feedbackZeroCount, h.portChanges, h.changes, h.replaced, h.last⟩, rfl, hlt⟩
  · cases hstep
    obtain ⟨rfl, hlt⟩ := hpc
    exact leaves_of_idle h rfl rfl rfl ⟨rfl, hlt⟩
  · cases hstep
    obtain ⟨rfl, hlt⟩ := hpc
    have hcounts : Counts { tally with generation := tally.generation + 1 } _ :=
      ⟨h.feedbackZeroCount, h.portChanges, h.changes.trans (Nat.le_succ _), hlt, h.last⟩
    split
    · simp only [Pc.stats, Option.getD_some, Tally.next, replaces, advises, moves_self,
        Bool.toNat_true, Bool.toNat_false, Nat.add_zero]
      exact ⟨hcounts, trivial⟩
    · exact leaves_awaitEpoch hcounts (Nat.lt_succ_of_le h.changes) _ _ _
  · cases hstep
    obtain ⟨rfl, hlt⟩ := hpc
    split
    · exact leaves_of_idle h rfl rfl rfl trivial
    · exact leaves_awaitEpoch h hlt _ _ _
  · cases hstep

/-- Only a rebind touches the statistics or the socket. -/
theorem rebinding_of_touch (hstep : step pc reply = some pc') :
    pc.rebinding = true ∨
      pc'.stats = none ∧ replaces pc reply = false ∧ advises pc reply = false := by
  cases pc with
  | storePending | applyLock | activityWrite =>
    cases reply <;> cases hstep
    all_goals
      refine .inr ⟨?_, rfl, rfl⟩
      first | rfl | (split <;> rfl)
  | done => cases hstep
  | _ => exact .inl rfl

theorem counted_of_not_rebinding (h : pc.rebinding = false) : pc.Counted tally stats := by
  cases pc with
  | storePending | applyLock | activityWrite | done => trivial
  | _ => cases h

end Steering

namespace Client

variable {client : CoreClient} {s t : State} {event : Event} {i : ℕ} {slot : Slot} {query : Query}
  {flight : Flight} {result : RateLimitResult} {steering : Steering.Pc} {pc' : Request.Pc}
  {wake : Wake} {reply : Steering.Reply}

theorem generation_steer : (s.steer steering reply).generation =
    s.generation + (Steering.replaces steering reply).toNat ∧
      (s.steer steering reply).epoch =
        if Steering.replaces steering reply then s.epoch + 1 else s.epoch := by
  cases reply with
  | socketWrite => cases steering <;> exact ⟨rfl, rfl⟩
  | _ => cases steering <;> exact ⟨rfl, rfl⟩

theorem generation_move :
    let t := s.move client i slot query (.steering flight result steering)
      pc' wake (.steering reply)
    t.generation = s.generation + (Steering.replaces steering reply).toNat ∧
      t.epoch = if Steering.replaces steering reply then s.epoch + 1 else s.epoch :=
  generation_steer

/-! ### The counts of a run -/

/-- A client, with how often it has recorded advice and another port. -/
structure Tallied where
  state : State
  advised : ℕ
  moved : ℕ

/-- `feedback_zero_count += 1`. -/
def Event.advises : Event → Bool
  | .wake _ .steeringStats => true
  | _ => false

def Tallied.tally (c : Tallied) : Steering.Tally := ⟨c.state.generation, c.advised, c.moved⟩

def Tallied.step (client : CoreClient) (c : Tallied) (event : Event) : Option Tallied :=
  (Client.step client c.state event).map fun t =>
    ⟨t, c.advised + event.advises.toNat, c.moved + (Steering.moves c.state.stats t.stats).toNat⟩

def tallied (client : CoreClient) : Lts Tallied Event where
  init c := (lts client).init c.state ∧ c.advised = 0 ∧ c.moved = 0
  step c event c' := c.step client event = some c'

variable {c c' : Tallied}

theorem reachable_of_tallied (h : (tallied client).Reachable c) :
    (lts client).Reachable c.state := by
  refine h.invariant (P := fun c => (lts client).Reachable c.state) ?_ ?_
  · rintro c ⟨hinit, -⟩
    exact .init hinit
  · intro c event c' _ hc hstep
    obtain ⟨t, ht, rfl⟩ := Option.map_eq_some_iff.mp hstep
    exact hc.step ht

theorem advises_of_request {channel : List ResponsePacket} {steering' : Steering.Pc}
    (hreply : s.requestReply channel wake = some (.steering reply))
    (hstep : Steering.step steering reply = some steering') :
    (Event.wake i wake).advises = Steering.advises steering reply := by
  cases wake with
  | steeringStats =>
    cases hreply
    cases steering with
    | statsLock => rfl
    | _ => cases hstep
  | _ =>
    cases steering with
    | statsLock =>
      cases reply with
      | stats => simp [State.requestReply] at hreply
      | _ => cases hstep
    | _ => rfl

theorem not_advises_of_unsteered (hstep : step client s event = some t)
    (hunsteered : Unsteered s event t) : event.advises = false := by
  cases moves_of_step hstep with
  | @request i slot query pc wake reply pc' hslot hdropped hcall hreply hrequest =>
    cases wake with
    | steeringStats =>
      cases hreply
      have hpc := pcAt_of_slot hslot hdropped hcall
      cases Request.steps_of_step hrequest
      exact absurd hpc (hunsteered.event _ _ _ _ _ rfl)
    | _ => rfl
  | @reporting i slot reports state wake reply state' hslot hdropped hcall hreply =>
    cases wake with
    | steeringStats => cases hreply
    | _ => rfl
  | _ => rfl

/-- The counts of the statistics agree with the run, and with where a rebind is. -/
structure Counted (c : Tallied) : Prop where
  counts : Steering.Counts c.tally c.state.stats
  pcs : ∀ i flight result steering, c.state.pcAt i = some (.steering flight result steering) →
    steering.Counted c.tally c.state.stats
  epoch : c.state.epoch = UInt64.ofNat c.state.generation

theorem Counted.unsteered (h : Counted c) (hstep : c.step client event = some c')
    (hunsteered : Unsteered c.state event c'.state) : Counted c' := by
  obtain ⟨t, ht, rfl⟩ := Option.map_eq_some_iff.mp hstep
  have hsame : SameSocket c.state t := by
    rcases sameSocket_of_changes (changes_of_step ht) with
      hsame | ⟨j, _, pc, _, wake, _, _, hevent, hpc, hreplaces, _⟩
    · exact hsame
    · obtain ⟨flight, result, stats, newSocket, _, _, _, rfl, -⟩ := hreplaces.exists
      exact absurd hpc (hunsteered.event j wake flight result _ hevent)
  have htally : Tallied.tally ⟨t, c.advised + event.advises.toNat,
      c.moved + (Steering.moves c.state.stats t.stats).toNat⟩ = c.tally := by
    rw [not_advises_of_unsteered ht hunsteered, hunsteered.stats, Steering.moves_self]
    exact congrArg (Steering.Tally.mk · _ _) hsame.generation
  refine ⟨?_, fun i flight result steering hpc => ?_, ?_⟩
  · rw [htally, hunsteered.stats]
    exact h.counts
  · rw [htally, hunsteered.stats]
    cases hrebinding : steering.rebinding with
    | false => exact Steering.counted_of_not_rebinding hrebinding
    | true => exact h.pcs i flight result steering (hunsteered.rebinding i _ hpc hrebinding)
  · rw [hsame.epoch, hsame.generation]
    exact h.epoch

theorem Counted.steered {steering' : Steering.Pc} (h : Counted c) (hguarded : Guarded c.state)
    (hslot : c.state.slots[i]? = some slot) (hdropped : slot.dropped = false)
    (hcall : slot.call = .check query (.steering flight result steering))
    (hreply : c.state.requestReply slot.channel wake = some (.steering reply))
    (hstep : Steering.step steering reply = some steering') :
    let t := c.state.move client i slot query (.steering flight result steering)
      (Request.steer flight result steering') wake (.steering reply)
    Counted ⟨t, c.advised + (Event.wake i wake).advises.toNat,
      c.moved + (Steering.moves c.state.stats t.stats).toNat⟩ := by
  intro t
  have hpc := pcAt_of_slot hslot hdropped hcall
  obtain ⟨hgeneration, hepoch⟩ := @generation_move client c.state i slot query flight result
    steering (Request.steer flight result steering') wake reply
  have hstats : t.stats = steering'.stats.getD c.state.stats := by
    rw [stats_move]
    simp only [hstep, Option.bind_some]
  have htally : Tallied.tally ⟨t, c.advised + (Event.wake i wake).advises.toNat,
      c.moved + (Steering.moves c.state.stats t.stats).toNat⟩ =
        c.tally.next steering reply c.state.stats (steering'.stats.getD c.state.stats) := by
    rw [advises_of_request hreply hstep, hstats]
    exact congrArg (Steering.Tally.mk · _ _) hgeneration
  obtain ⟨hcounts, hcounted⟩ := Steering.leaves_of_step h.counts
    (h.pcs i flight result steering hpc) (fun held heq => by
      subst heq
      exact answers_of_requestReply hreply) hstep
  refine ⟨?_, fun j flight' result' steering'' hpc' => ?_, ?_⟩
  · rw [htally, hstats]
    exact hcounts
  · rw [htally, hstats]
    rw [pcAt_move hslot hdropped] at hpc'
    split at hpc'
    next =>
      have heq : Request.steer flight result steering' = .steering flight' result' steering'' :=
        Option.some.inj hpc'
      unfold Request.steer at heq
      split at heq <;> cases heq
      exact hcounted
    next hne =>
      -- Another call is where nothing counts, or this one is not.
      cases hrebinding : steering''.rebinding with
      | false => exact Steering.counted_of_not_rebinding hrebinding
      | true =>
        rcases Steering.rebinding_of_touch hstep with hrebinding' | ⟨hnone, hkept, hsilent⟩
        · exact absurd (eq_of_rebinding hguarded hpc hrebinding' hpc' hrebinding) hne
        · rw [hnone, Option.getD_none, Steering.Tally.next_of_idle hkept hsilent rfl]
          exact h.pcs j flight' result' steering'' hpc'
  · show t.epoch = UInt64.ofNat t.generation
    rw [hgeneration, hepoch, h.epoch]
    cases Steering.replaces steering reply with
    | false => rfl
    | true => exact (UInt64.ofNat_add _ _).symm

theorem counted_step (h : Counted c) (hguarded : Guarded c.state)
    (hstep : c.step client event = some c') : Counted c' := by
  obtain ⟨t, ht, rfl⟩ := Option.map_eq_some_iff.mp hstep
  rcases steers_of_step ht with
    hunsteered | ⟨i, flight, result, steering, wake, _, _, rfl, hsteers⟩
  · exact h.unsteered hstep hunsteered
  · cases moves_of_step ht with
    | request hslot hdropped hcall hreply hrequest =>
      cases (pcAt_of_slot hslot hdropped hcall).symm.trans hsteers.here
      cases Request.steps_of_step hrequest with
      | steering hsteering => exact h.steered hguarded hslot hdropped hcall hreply hsteering
    | reporting hslot hdropped hcall =>
      have hpc := hsteers.here
      simp [State.pcAt, hslot, Slot.live, hdropped, hcall] at hpc

/-- However calls and rebinds interleave, fail or are dropped, the epoch is the number of sockets
that were put in place, and the statistics are the numbers of times that advice and another port
were recorded, all modulo 2^64. Other ports are at most as many as sockets, and these as advice. -/
theorem rebinds_counted (h : (tallied client).Reachable c) :
    c.state.epoch = UInt64.ofNat c.state.generation ∧
      c.state.stats.feedbackZeroCount = UInt64.ofNat c.advised ∧
      c.state.stats.portChanges = UInt64.ofNat c.moved ∧
      c.moved ≤ c.state.generation ∧ c.state.generation ≤ c.advised ∧
      (c.state.stats.lastPort = none ↔ c.moved = 0) := by
  have hcounted : Counted c := by
    refine h.invariant (P := Counted) ?_ fun c event c' hreachable hc hstep =>
      counted_step hc (guarded_reachable (reachable_of_tallied hreachable)) hstep
    rintro ⟨s, advised, moved⟩ ⟨⟨bindUdp, now, hnew⟩, rfl, rfl⟩
    obtain ⟨socket, -, -, -, rfl⟩ := new_eq_ok_iff.mp hnew
    refine ⟨⟨rfl, rfl, le_refl _, le_refl _, iff_of_true rfl rfl⟩,
      fun i flight result steering hpc => ?_, rfl⟩
    simp [start, State.pcAt] at hpc
  obtain ⟨hadvised, hmoved, hchanges, hreplaced, hlast⟩ := hcounted.counts
  exact ⟨hcounted.epoch, hadvised, hmoved, hchanges, hreplaced, hlast⟩

/-- Two calls are advised on one socket each; both rebinds are confirmed, to the same port. -/
def sampleMoves : List Event :=
  sampleBegin 0 0 ++ sampleSelect 0 0 ++
    sampleRebind 0 (fun _ _ => .ok 7) (.ok (sampleAddr 6)) ++
    [.routerRead, .routerAck, .wake 0 .epochChanged] ++
  sampleBegin 1 1 ++ (sampleSelect 1 1).drop 2 ++
    sampleRebind 1 (fun _ _ => .ok 8) (.ok (sampleAddr 6)) ++
    [.routerRead, .routerAck, .wake 1 .epochChanged]

theorem rebinds_counted_sample : ∃ c, (tallied sampleClient).Reachable c ∧ c.advised = 2 ∧
    c.moved = 1 ∧ c.state.epoch = UInt64.ofNat c.state.generation ∧
      c.state.stats.feedbackZeroCount = 2 ∧ c.state.stats.portChanges = 1 ∧
      1 ≤ c.state.generation ∧ c.state.generation ≤ 2 ∧ c.state.stats.lastPort ≠ none := by
  obtain ⟨c, hc, htest⟩ := (Option.any_eq_true _ _).mp
    (show (Lts.runSteps (Tallied.step sampleClient) sampleMoves ⟨sampleState, 0, 0⟩).any
      (fun c => c.advised = 2 ∧ c.moved = 1) = true by decide +kernel)
  obtain ⟨hadvised, hmoved⟩ := of_decide_eq_true htest
  have hreachable : (tallied sampleClient).Reachable c :=
    (Lts.Run.of_runSteps (m := tallied sampleClient) (fun _ _ _ _ h => h) hc).reachable
      (.init ⟨init_sampleState, rfl, rfl⟩)
  obtain ⟨hepoch, hzero, hchanges, hle, hreplaced, hlast⟩ := rebinds_counted hreachable
  rw [hadvised] at hzero hreplaced
  rw [hmoved] at hchanges hle hlast
  exact ⟨c, hreachable, hadvised, hmoved, hepoch, hzero, hchanges, hle, hreplaced,
    fun hnone => absurd (hlast.mp hnone) (by decide)⟩

end Client

end Ratelimitly
