import Mathlib.Tactic
import Ratelimitly.Rotation

/-! A port that cannot be acquired ends the search for one, unless it is in use. -/
namespace Ratelimitly

open Lib

variable {bindUdp : BindUdp} {port nextPort currentPort : UInt16}

theorem FamilySockets.exists_bind_iff :
    (∃ sockets, bind bindUdp port = .ok sockets) ↔ PortBinds bindUdp port := by
  refine ⟨?_, bind_of_binds⟩
  rintro ⟨sockets, h⟩
  by_contra hnot
  obtain ⟨error, herror, -⟩ := bind_of_fails (bind_eq_ok h).1 hnot
  rw [herror] at h
  cases h

/-- The search yields the first port that can be bound, and fails only if there is none. -/
def SkipsUnacquirable (bindUdp : BindUdp) (nextPort currentPort : UInt16) : Prop :=
  let first := firstSteeringPort nextPort currentPort
  match bindNextSteeringSocket bindUdp nextPort currentPort with
  | .ok (sockets, next) => ∃ n < steeringPortCount,
      FamilySockets.bind bindUdp (nextSteeringPort^[n] first) = .ok sockets ∧
        next = nextSteeringPort^[n + 1] first ∧
        ∀ i < n, ¬ ∃ sockets, FamilySockets.bind bindUdp (nextSteeringPort^[i] first) = .ok sockets
  | .error _ => ∀ port, steeringPortMin ≤ port →
      ¬ ∃ sockets, FamilySockets.bind bindUdp port = .ok sockets

/-- No port that fails for another reason than being in use comes first, unless no port of the range
can be bound at all. -/
def FirstFreeBinds (bindUdp : BindUdp) (nextPort currentPort : UInt16) : Prop :=
  let first := firstSteeringPort nextPort currentPort
  (∀ n < steeringPortCount, (∀ i < n, PortInUse bindUdp (nextSteeringPort^[i] first)) →
    PortInUse bindUdp (nextSteeringPort^[n] first) ∨
      PortBinds bindUdp (nextSteeringPort^[n] first)) ∨
  ∀ port, steeringPortMin ≤ port → ¬ PortBinds bindUdp port

/-- What a client stores as its next port. -/
def StoredPort (nextPort : UInt16) : Prop := nextPort = 0 ∨ steeringPortMin ≤ nextPort

theorem le_firstSteeringPort (h : StoredPort nextPort) (currentPort : UInt16) :
    steeringPortMin ≤ firstSteeringPort nextPort currentPort := by
  unfold firstSteeringPort
  split
  next => exact le_nextSteeringPort _
  next hne => exact h.resolve_left hne

/-- The search skips what it cannot acquire exactly when no other failure comes first. -/
theorem skipsUnacquirable_iff (h : StoredPort nextPort) :
    SkipsUnacquirable bindUdp nextPort currentPort ↔
      FirstFreeBinds bindUdp nextPort currentPort := by
  have hmin := le_firstSteeringPort h currentPort
  unfold SkipsUnacquirable FirstFreeBinds
  simp only [FamilySockets.exists_bind_iff]
  cases hsearch : bindNextSteeringSocket bindUdp nextPort currentPort with
  | ok found =>
    obtain ⟨sockets, next⟩ := found
    obtain ⟨n, hn, hinUse, hbind, hnext⟩ := bindLoop_eq_ok hsearch
    constructor
    · intro _
      left
      intro m hm hall
      rcases lt_trichotomy m n with hlt | rfl | hgt
      · exact .inl (hinUse m hlt)
      · exact .inr (FamilySockets.exists_bind_iff.mp ⟨sockets, hbind⟩)
      · have hfree := (FamilySockets.bind_eq_ok hbind).1
        exact absurd (hall n hgt) hfree
    · intro _
      exact ⟨n, hn, hbind, hnext, fun i hi hbinds => hbinds.1 (hinUse i hi)⟩
  | error error =>
    have hnot : ¬ PortFound bindUdp steeringPortCount (firstSteeringPort nextPort currentPort) := by
      rw [← exists_bindNextSteeringSocket_eq_ok_iff, hsearch]
      rintro ⟨found, hfound⟩
      cases hfound
    refine ⟨.inr, ?_⟩
    rintro (hfirst | hnone)
    · -- then every port of the range is in use
      have hinUse : ∀ n < steeringPortCount,
          PortInUse bindUdp (nextSteeringPort^[n] (firstSteeringPort nextPort currentPort)) := by
        intro n
        induction n using Nat.strong_induction_on with
        | _ n ih =>
          intro hn
          have hall : ∀ i < n,
              PortInUse bindUdp (nextSteeringPort^[i] (firstSteeringPort nextPort currentPort)) :=
            fun i hi => ih i hi (hi.trans hn)
          rcases hfirst n hn hall with hinUse | hbinds
          · exact hinUse
          · exact absurd ⟨n, hn, hall, hbinds⟩ hnot
      intro port hport hbinds
      obtain ⟨d, -, hd, rfl⟩ := exists_iterate_eq hmin hport 0
      exact hbinds.1 (hinUse d (hd.trans_eq (Nat.zero_add _)))
    · exact hnone

namespace Client

variable {client : CoreClient} {s t : State} {event : Event} {i : ℕ} {flight : Flight}
  {result : RateLimitResult} {steering : Steering.Pc} {stats : SteeringStats}
  {current : SocketAddr}

/-- The next port in the shared statistics, and in those that a rebind works on. -/
structure PortsStored (s : State) : Prop where
  shared : StoredPort s.stats.nextPort
  held : ∀ i flight result steering stats, s.pcAt i = some (.steering flight result steering) →
    steering.rebinding = true → steering.stats = some stats → StoredPort stats.nextPort

theorem storedPort_of_search {sockets : FamilySockets} {next : UInt16}
    (h : bindNextSteeringSocket bindUdp nextPort currentPort = .ok (sockets, next)) :
    StoredPort next := by
  obtain ⟨n, -, -, -, rfl⟩ := bindLoop_eq_ok h
  rw [Function.iterate_succ_apply']
  exact .inr (le_nextSteeringPort _)

theorem PortsStored.step (h : PortsStored s) (hstep : step client s event = some t) :
    PortsStored t := by
  rcases steers_of_step hstep with
    hsteers | ⟨i, f, r, steering, wake, reply, steering', rfl, hsteers⟩
  · refine ⟨hsteers.stats ▸ h.shared, ?_⟩
    intro j flight result steering stats hpc hrebinding hstats
    exact h.held j flight result steering stats (hsteers.rebinding j _ hpc hrebinding) hrebinding
      hstats
  · have hstored : ∀ stats', steering'.stats = some stats' → StoredPort stats'.nextPort := by
      intro stats' hstats'
      rcases Steering.nextPort_of_step hsteers.step hstats' with
        ⟨stats, hstats | rfl, heq⟩ | ⟨stats, current, bindUdp, newSocket, -, -, hbind⟩
      · rw [heq]
        exact h.held i f r steering stats hsteers.here
          (Steering.rebinding_of_stats hsteers.step hstats) hstats
      · obtain ⟨channel, hanswers⟩ := hsteers.answers
        rw [heq, show stats = s.stats from hanswers]
        exact h.shared
      · exact storedPort_of_search hbind
    refine ⟨?_, ?_⟩
    · rw [hsteers.stats]
      cases hcase : steering'.stats with
      | none => exact h.shared
      | some stats' => exact hstored stats' hcase
    · intro j flight result steering₀ stats hpc hrebinding hstats
      rw [hsteers.pcs] at hpc
      split at hpc
      · unfold Request.steer at hpc
        split at hpc <;> cases hpc
        exact hstored stats hstats
      · exact h.held j flight result steering₀ stats hpc hrebinding hstats

theorem portsStored_reachable (h : (lts client).Reachable s) : PortsStored s := by
  refine h.invariant ?_ ?_
  · rintro s ⟨bindUdp, now, hnew⟩
    obtain ⟨socket, -, -, -, rfl⟩ := new_eq_ok_iff.mp hnew
    exact ⟨.inl rfl, by simp [start, State.pcAt]⟩
  · intro s event t _ hs hstep
    exact hs.step hstep

/-- Call `i` is about to search for a port. -/
def Searches (s : State) (i : ℕ) (stats : SteeringStats) : Prop :=
  ∃ flight result, s.pcAt i = some (.steering flight result (.socketRead stats))

/-- A search that fails leaves the next port as it was, and ends the call. -/
theorem failed_search (hpc : s.pcAt i = some (.steering flight result (.socketRead stats)))
    (hstep : step client s (.wake i (.socketRead (.ok current) bindUdp)) = some t)
    {error : CoreError}
    (hsearch : bindNextSteeringSocket bindUdp stats.nextPort current.port = .error error) :
    t.stats.nextPort = stats.nextPort ∧ t.pcAt i = some (.returned (some flight) (.err error)) := by
  rcases steers_of_step hstep with hnone | ⟨j, f, r, steering, wake, reply, steering', hevent, hsteers⟩
  · exact absurd hpc (hnone.event i _ flight result _ rfl)
  cases hevent
  cases hpc.symm.trans hsteers.here
  obtain ⟨channel, hanswers⟩ := hsteers.answers
  have hsteering := hsteers.step
  cases reply with
  | socketRead localAddr bindUdp' =>
    cases hanswers
    rw [Steering.step, hsearch] at hsteering
    cases hsteering
    refine ⟨by rw [hsteers.stats]; rfl, ?_⟩
    rw [hsteers.pcs, if_pos rfl]
    rfl
  | _ => cases hsteering

/-- In every run, at every search for a port: it skips what it cannot acquire exactly when no failure
other than a port in use comes first, and a search that fails leaves the next one where it started. -/
theorem steering_skips (client : CoreClient) :
    (∀ s, (lts client).Reachable s → StoredPort s.stats.nextPort) ∧
    (∀ s i stats, (lts client).Reachable s → Searches s i stats →
      StoredPort stats.nextPort ∧ ∀ (current : SocketAddr) bindUdp t error,
        step client s (.wake i (.socketRead (.ok current) bindUdp)) = some t →
          bindNextSteeringSocket bindUdp stats.nextPort current.port = .error error →
            t.stats.nextPort = stats.nextPort) ∧
    ∀ nextPort, StoredPort nextPort → ∀ bindUdp currentPort,
      SkipsUnacquirable bindUdp nextPort currentPort ↔
        FirstFreeBinds bindUdp nextPort currentPort := by
  refine ⟨fun s hs => (portsStored_reachable hs).shared, ?_, ?_⟩
  · rintro s i stats hs ⟨flight, result, hpc⟩
    refine ⟨(portsStored_reachable hs).held i flight result _ stats hpc rfl rfl, ?_⟩
    intro current bindUdp t error hstep hsearch
    exact (failed_search hpc hstep hsearch).1
  · intro nextPort hstored bindUdp currentPort
    exact skipsUnacquirable_iff hstored

/-- Port 49152 is reserved on both families, and every other port binds. -/
def sampleReserved : BindUdp := fun port _ =>
  if port = 49152 then .error (.io ⟨.unlisted 13, "Permission denied"⟩) else .ok port.toNat

/-- A rebind that ends with its search. -/
def sampleSearch (i : ℕ) : List Event :=
  [.wake i .storePending, .wake i .applyLock, .wake i .activityWrite, .wake i .steeringStats,
    .wake i (.socketRead (.ok (sampleAddr 5)) sampleReserved)]

/-- Two calls, one after the other, that are advised to change the port. -/
def sampleBlocked : List Event :=
  sampleBegin 0 0 ++ sampleSelect 0 0 ++ sampleSearch 0 ++
    (sampleBegin 1 1 ++ sampleSelect 1 1 ++ sampleSearch 1)

/-- Call `i` has failed for want of permission. -/
def State.denied (s : State) (i : ℕ) : Bool :=
  match s.pcAt i with
  | some (.returned (some _) (.err (.io error))) => error.kind = .unlisted 13
  | _ => false

/-- One reserved port makes both calls fail, although the port after it binds. -/
theorem not_skips_reserved :
    (∃ s, (lts sampleClient).Reachable s ∧ s.denied 0 = true ∧ s.denied 1 = true) ∧
    ¬ ∀ s, (lts sampleClient).Reachable s → ∀ (bindUdp : BindUdp) (currentPort : UInt16),
      SkipsUnacquirable bindUdp s.stats.nextPort currentPort := by
  constructor
  · obtain ⟨s, hs, htest⟩ := (Option.any_eq_true _ _).mp
      (show (sampleRun sampleBlocked).any (fun s => s.denied 0 && s.denied 1) = true by
        decide +kernel)
    exact ⟨s, reachable_sampleRun hs, Bool.and_eq_true_iff.mp htest⟩
  · intro h
    have hskips : SkipsUnacquirable sampleReserved 0 5 := h sampleState (.init init_sampleState)
      sampleReserved 5
    rw [skipsUnacquirable_iff (.inl rfl)] at hskips
    have hfree : ¬ PortInUse sampleReserved 49152 := by
      rintro (h | h) <;> cases h
    have hbinds : PortBinds sampleReserved 49153 :=
      ⟨(by rintro (h | h) <;> cases h), false, 49153, rfl⟩
    rcases hskips with hfirst | hnone
    · rcases hfirst 0 (by decide) (by simp) with hinUse | ⟨-, ipv6, socket, hsocket⟩
      · exact hfree hinUse
      · cases hsocket
    · exact hnone 49153 (by decide) hbinds

end Client

end Ratelimitly
