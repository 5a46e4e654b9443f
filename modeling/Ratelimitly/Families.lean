import Mathlib.Tactic
import Ratelimitly.SocketEpochs

/-! Which address families a client can send to after a rebind. -/
namespace Ratelimitly

open Lib

variable {bindUdp : BindUdp} {port nextPort currentPort next : UInt16} {tries : ℕ}
  {lastError : Option IoError} {old new sockets : FamilySockets} {ipv6 : Bool}

def SocketAddr.isIpv6 : SocketAddr → Bool
  | .v4 _ _ => false
  | .v6 _ _ _ _ => true

namespace FamilySockets

/-- The socket of a family. -/
def socketFor (sockets : FamilySockets) (ipv6 : Bool) : Option ℕ :=
  if ipv6 then sockets.v6 else sockets.v4

/-- `send_to`, where `send` is what the sockets yield. -/
def sendTo (sockets : FamilySockets) (send : ℕ → Except IoError ℕ) (target : SocketAddr) :
    Except IoError ℕ :=
  match sockets.socketFor target.isIpv6 with
  | some socket => send socket
  | none => .error ⟨.addrNotAvailable, "no local socket for the target's address family"⟩

/-- Every family that had a socket has one. -/
def Keeps (old new : FamilySockets) : Prop :=
  ∀ ipv6, old.socketFor ipv6 ≠ none → new.socketFor ipv6 ≠ none

theorem Keeps.refl (sockets : FamilySockets) : sockets.Keeps sockets := fun _ h => h

theorem Keeps.trans (h : old.Keeps new) (h' : new.Keeps sockets) : old.Keeps sockets :=
  fun ipv6 hold => h' ipv6 (h ipv6 hold)

/-- What could be sent before is handed to a socket still. -/
theorem Keeps.exists_sendTo (h : old.Keeps new) {target : SocketAddr}
    (hold : old.socketFor target.isIpv6 ≠ none) (send : ℕ → Except IoError ℕ) :
    ∃ socket, new.socketFor target.isIpv6 = some socket ∧ new.sendTo send target = send socket := by
  obtain ⟨socket, hsocket⟩ := Option.ne_none_iff_exists'.mp (h _ hold)
  exact ⟨socket, hsocket, by rw [sendTo, hsocket]⟩

/-- A bind yields the sockets of the families that it could bind. -/
theorem bind_eq_ok (h : bind bindUdp port = .ok sockets) :
    ¬ PortInUse bindUdp port ∧ ∀ ipv6, sockets.socketFor ipv6 = (bindUdp port ipv6).toOption := by
  by_cases hinUse : PortInUse bindUdp port
  · rw [bind_of_inUse hinUse] at h
    cases h
  · refine ⟨hinUse, fun ipv6 => ?_⟩
    rw [PortInUse] at hinUse
    rw [bind, if_neg hinUse] at h
    split at h
    · cases h
    · cases h
      cases ipv6 <;> rfl

end FamilySockets

/-- The search ends at the first port that is not in use. -/
theorem bindLoop_eq_ok (h : bindLoop bindUdp tries port lastError = .ok (sockets, next)) :
    ∃ n < tries, (∀ i < n, PortInUse bindUdp (nextSteeringPort^[i] port)) ∧
      FamilySockets.bind bindUdp (nextSteeringPort^[n] port) = .ok sockets ∧
        next = nextSteeringPort^[n + 1] port := by
  induction tries generalizing port lastError with
  | zero => cases h
  | succ tries ih =>
    rw [bindLoop] at h
    by_cases hinUse : PortInUse bindUdp port
    · rw [FamilySockets.bind_of_inUse hinUse] at h
      obtain ⟨n, hn, hall, hfound, hnext⟩ := ih h
      refine ⟨n + 1, by omega, fun i hi => ?_, hfound, hnext⟩
      cases i with
      | zero => exact hinUse
      | succ i => exact hall i (by omega)
    · by_cases hbinds : PortBinds bindUdp port
      · obtain ⟨socket, hsocket⟩ := FamilySockets.bind_of_binds hbinds
        rw [hsocket] at h
        cases h
        exact ⟨0, Nat.succ_pos _, fun i hi => absurd hi (Nat.not_lt_zero i), hsocket, rfl⟩
      · obtain ⟨error, herror, hkind⟩ := FamilySockets.bind_of_fails hinUse hbinds
        rw [herror] at h
        cases error with
        | io source => simp [hkind source rfl] at h
        | _ => cases h

/-- At the first port that is not in use, every family of `old` binds. -/
def FamiliesBind (bindUdp : BindUdp) (first : UInt16) (old : FamilySockets) : Prop :=
  ∀ n < steeringPortCount, (∀ i < n, PortInUse bindUdp (nextSteeringPort^[i] first)) →
    ¬ PortInUse bindUdp (nextSteeringPort^[n] first) → ∀ ipv6, old.socketFor ipv6 ≠ none →
      ∃ socket, bindUdp (nextSteeringPort^[n] first) ipv6 = .ok socket

/-- The sockets of a rebind keep the families exactly in that case. -/
theorem keeps_iff_familiesBind
    (h : bindNextSteeringSocket bindUdp nextPort currentPort = .ok (new, next)) :
    old.Keeps new ↔ FamiliesBind bindUdp (firstSteeringPort nextPort currentPort) old := by
  obtain ⟨n, hn, hinUse, hbind, -⟩ := bindLoop_eq_ok h
  obtain ⟨hfree, hsockets⟩ := FamilySockets.bind_eq_ok hbind
  constructor
  · intro hkeeps m hm hinUse' hfree' ipv6 hold
    obtain rfl : m = n := by
      rcases lt_trichotomy m n with hlt | heq | hgt
      · exact absurd (hinUse m hlt) hfree'
      · exact heq
      · exact absurd (hinUse' n hgt) hfree
    have hnew := hkeeps ipv6 hold
    rw [hsockets] at hnew
    cases hres : bindUdp (nextSteeringPort^[m] (firstSteeringPort nextPort currentPort)) ipv6 with
    | ok socket => exact ⟨socket, rfl⟩
    | error error =>
      rw [hres] at hnew
      exact absurd rfl hnew
  · intro hfamilies ipv6 hold
    obtain ⟨socket, hsocket⟩ := hfamilies n hn hinUse hfree ipv6 hold
    rw [hsockets, hsocket]
    exact Option.some_ne_none _

theorem Steering.newSocket_of_step {pc pc' : Pc} {reply : Reply} (h : step pc reply = some pc')
    (hnew : pc'.newSocket = some new) : pc.newSocket = some new ∨
      ∃ stats current bindUdp next, pc = .socketRead stats ∧
        reply = .socketRead (.ok current) bindUdp ∧
        bindNextSteeringSocket bindUdp stats.nextPort current.port = .ok (new, next) := by
  unfold step at h
  split at h
  case h_5 stats localAddr bindUdp =>
    cases localAddr with
    | error error =>
      cases h
      cases hnew
    | ok current =>
      dsimp only at h
      split at h
      · cases h
        cases hnew
      next hbind =>
        cases h
        cases hnew
        exact .inr ⟨stats, current, bindUdp, _, rfl, rfl, hbind⟩
  case h_6 =>
    cases h
    exact .inl hnew
  case h_2 | h_3 =>
    cases h
    split at hnew <;> cases hnew
  case h_7 | h_8 =>
    cases h
    split at hnew
    · cases hnew
    · unfold awaitEpoch at hnew
      split at hnew <;> cases hnew
  all_goals
    cases h
    try cases hnew

namespace Client

variable {client : CoreClient} {s t : State} {event : Event} {i j : ℕ} {slot : Slot} {query : Query}
  {pc pc' : Request.Pc} {wake : Wake} {reply : Request.Reply}

/-- The new socket that a call has bound and not installed yet. -/
def pending (pc : Request.Pc) : Option FamilySockets := pc.steeringPc.bind (·.newSocket)

/-- A rebind that finds a port finds one that binds every family that is bound. A rebind that finds
none leaves the sockets. -/
def BindsFamilies (s : State) : Event → Prop
  | .wake i (.socketRead (.ok current) bindUdp) => ∀ flight result stats,
      s.pcAt i = some (.steering flight result (.socketRead stats)) →
        PortFound bindUdp steeringPortCount (firstSteeringPort stats.nextPort current.port) →
          FamiliesBind bindUdp (firstSteeringPort stats.nextPort current.port) s.socket
  | _ => True

theorem pending_steer (flight : Flight) (result : RateLimitResult) (steering : Steering.Pc) :
    pending (Request.steer flight result steering) = steering.newSocket := by
  unfold Request.steer
  split <;> rfl

theorem rebinding_of_pending (h : pending pc = some new) : pc.rebinding = true := by
  obtain ⟨steering, hsteering, hnew⟩ := Option.bind_eq_some_iff.mp h
  rw [Request.Pc.rebinding, hsteering, Option.any_some]
  cases steering with
  | epochReadyLock | socketWrite => rfl
  | _ => cases hnew

/-- A call has a new socket since its bind. -/
theorem pending_of_steps (h : Request.Steps client query pc reply pc')
    (hnew : pending pc' = some new) : pending pc = some new ∨
      ∃ flight result stats current bindUdp next,
        pc = .steering flight result (.socketRead stats) ∧
          reply = .steering (.socketRead (.ok current) bindUdp) ∧
          bindNextSteeringSocket bindUdp stats.nextPort current.port = .ok (new, next) := by
  have hrebinding := Request.rebinding_of_steps h (rebinding_of_pending hnew)
  cases h with
  | steering hstep =>
    rw [pending_steer] at hnew
    rcases Steering.newSocket_of_step hstep hnew with hold | ⟨stats, current, bindUdp, next, rfl, rfl, hbind⟩
    · exact .inl hold
    · exact .inr ⟨_, _, stats, current, bindUdp, next, rfl, rfl, hbind⟩
  | _ => rcases hrebinding with hold | ⟨_, hreply⟩ <;> contradiction

/-- A new socket has the families of the one that it is to replace. -/
def PendingKeeps (s : State) : Prop := ∀ i pc newSocket, s.pcAt i = some pc →
  pending pc = some newSocket → s.socket.Keeps newSocket

theorem Replaces.exists_pending (h : Replaces pc reply)
    (ht : t = s.move client i slot query pc pc' wake reply) :
    ∃ newSocket, pending pc = some newSocket ∧ t.socket = newSocket := by
  obtain ⟨_, _, _, newSocket, _, _, _, rfl, rfl⟩ := h.exists
  exact ⟨newSocket, rfl, ht ▸ rfl⟩

/-- The swap installs the sockets that the call has bound. -/
theorem socket_of_socketWrite {flight : Flight} {result : RateLimitResult} {stats : SteeringStats}
    {newSocket : FamilySockets} {localAddr : Except IoError SocketAddr}
    (hpc : s.pcAt i = some (.steering flight result (.socketWrite stats newSocket)))
    (hstep : step client s (.wake i (.socketWrite localAddr)) = some t) :
    t.socket = newSocket := by
  obtain ⟨slot, query, hslot, hdropped, hcall⟩ := exists_slot_of_pcAt hpc
  cases moves_of_step hstep with
  | request hslot' _ hcall' hreply =>
    cases hslot.symm.trans hslot'
    cases hcall.symm.trans hcall'
    obtain ⟨-, hreply⟩ := Option.ite_none_left_eq_some.mp hreply
    cases hreply
    rfl
  | reporting hslot' _ hcall' =>
    cases hslot.symm.trans hslot'
    cases hcall.symm.trans hcall'

theorem Replaces.not_pending (h : Replaces pc reply)
    (hstep : Request.step client query pc reply = some pc') : pending pc' = none := by
  cases hpending : pending pc' with
  | none => rfl
  | some newSocket =>
    obtain ⟨_, _, _, _, _, _, _, rfl, rfl⟩ := h.exists
    cases Request.steps_of_step hstep with
    | steering hsteering =>
      rw [pending_steer] at hpending
      cases hsteering
      split at hpending
      · cases hpending
      · unfold Steering.awaitEpoch at hpending
        split at hpending <;> cases hpending

/-- Where the pending sockets of a step come from. -/
def PendingFrom (s t : State) (event : Event) : Prop := ∀ j pc newSocket, t.pcAt j = some pc →
  pending pc = some newSocket → (∃ old, s.pcAt j = some old ∧ pending old = some newSocket) ∨
    ∃ flight result stats current bindUdp next, event = .wake j (.socketRead (.ok current) bindUdp) ∧
      s.pcAt j = some (.steering flight result (.socketRead stats)) ∧
        bindNextSteeringSocket bindUdp stats.nextPort current.port = .ok (newSocket, next)

/-- A step replaces the shared sockets by the ones that a call had pending, and none are left, or it
leaves them. -/
theorem pending_of_step (hguarded : Guarded s) (hstep : step client s event = some t) :
    SameSocket s t ∧ PendingFrom s t event ∨
      (∃ i pc, s.pcAt i = some pc ∧ pending pc = some t.socket) ∧
        ∀ j pc, t.pcAt j = some pc → pending pc = none := by
  rcases sameSocket_of_changes (changes_of_step hstep) with
    hsame | ⟨i, query, pc, pc', wake, reply, slot, rfl, hpc, hreplaces, hanswers, hrequest, hpcs, ht⟩
  · refine .inl ⟨hsame, fun j pc newSocket hpc hpending => ?_⟩
    cases changes_of_step hstep with
    | idle hidle =>
      rcases hidle.pcAt j with heq | ⟨-, hnew⟩
      · exact .inl ⟨pc, heq ▸ hpc, hpending⟩
      · obtain ⟨query, rfl⟩ := hnew pc hpc
        have hrebinding := rebinding_of_pending hpending
        rw [Request.not_rebinding_of_not_applying Request.not_applying_begin.1] at hrebinding
        cases hrebinding
    | @request i slot query old pc' wake reply hevent _ _ hold hanswers hrequest hpcs =>
      subst hevent
      rw [hpcs] at hpc
      split at hpc
      next heq =>
        subst heq
        cases hpc
        rcases pending_of_steps (Request.steps_of_step hrequest) hpending with
          hkept | ⟨flight, result, stats, current, bindUdp, next, rfl, rfl, hbind⟩
        · exact .inl ⟨old, hold, hkept⟩
        · obtain rfl := hanswers
          exact .inr ⟨flight, result, stats, current, bindUdp, next, rfl, hold, hbind⟩
      next => exact .inl ⟨pc, hpc, hpending⟩
    | drop _ _ _ hpcs =>
      rw [hpcs] at hpc
      split at hpc
      · cases hpc
      · exact .inl ⟨pc, hpc, hpending⟩
  · obtain ⟨newSocket, hpending, rfl⟩ := hreplaces.exists_pending ht
    refine .inr ⟨⟨i, pc, hpc, hpending⟩, fun j pc₀ hpc₀ => ?_⟩
    rw [hpcs] at hpc₀
    split at hpc₀
    · cases hpc₀
      exact hreplaces.not_pending hrequest
    next hne =>
      by_contra hpending₀
      obtain ⟨newSocket₀, hpending₀⟩ := Option.ne_none_iff_exists'.mp hpending₀
      exact hne (eq_of_rebinding hguarded hpc (rebinding_of_pending hpending) hpc₀
        (rebinding_of_pending hpending₀))

theorem keeps_of_step (hguarded : Guarded s) (h : PendingKeeps s) (hbinds : BindsFamilies s event)
    (hstep : step client s event = some t) : s.socket.Keeps t.socket ∧ PendingKeeps t := by
  rcases pending_of_step hguarded hstep with ⟨hsame, hfrom⟩ | ⟨⟨i, pc, hpc, hpending⟩, hnone⟩
  · refine ⟨hsame.socket ▸ .refl _, fun j pc newSocket hpc hpending => ?_⟩
    rw [hsame.socket]
    rcases hfrom j pc newSocket hpc hpending with
      ⟨old, hold, hkept⟩ | ⟨flight, result, stats, current, bindUdp, next, rfl, hold, hbind⟩
    · exact h j old newSocket hold hkept
    · have hfound := exists_bindNextSteeringSocket_eq_ok_iff.mp ⟨_, hbind⟩
      exact (keeps_iff_familiesBind hbind).mpr (hbinds flight result stats hold hfound)
  · refine ⟨h i pc t.socket hpc hpending, fun j pc newSocket hpc hpending => ?_⟩
    rw [hnone j pc hpc] at hpending
    cases hpending

theorem pendingKeeps_reachable (h : ((lts client).restrict BindsFamilies).Reachable s) :
    PendingKeeps s := by
  refine h.invariant ?_ ?_
  · rintro s ⟨bindUdp, now, hnew⟩ i pc newSocket hpc
    obtain ⟨socket, -, -, -, rfl⟩ := new_eq_ok_iff.mp hnew
    cases hpc
  · rintro s event t hreachable hs ⟨hbinds, hstep⟩
    exact (keeps_of_step (guarded_reachable hreachable.of_restrict) hs hbinds hstep).2

/-- The sockets that a rebind binds keep the families of the client exactly when each of them binds at
the first port that is not in use. In every run in which that is so of the rebinds that find a port,
no family is lost, and what could be sent is still handed to a socket. -/
theorem families_kept (client : CoreClient) :
    (∀ bindUdp nextPort currentPort (old new : FamilySockets) next,
      bindNextSteeringSocket bindUdp nextPort currentPort = .ok (new, next) →
        (old.Keeps new ↔ FamiliesBind bindUdp (firstSteeringPort nextPort currentPort) old)) ∧
    ∀ s events t, ((lts client).restrict BindsFamilies).Reachable s →
      ((lts client).restrict BindsFamilies).Run s events t → s.socket.Keeps t.socket ∧
        ∀ (target : SocketAddr) send, s.socket.socketFor target.isIpv6 ≠ none →
          ∃ socket, t.socket.socketFor target.isIpv6 = some socket ∧
            t.socket.sendTo send target = send socket := by
  refine ⟨fun bindUdp nextPort currentPort old new next h => keeps_iff_familiesBind h,
    fun s events t h hrun => ?_⟩
  have hkeeps : ((lts client).restrict BindsFamilies).Reachable t ∧ s.socket.Keeps t.socket := by
    refine hrun.preserves (P := fun u =>
      ((lts client).restrict BindsFamilies).Reachable u ∧ s.socket.Keeps u.socket) ?_ ⟨h, .refl _⟩
    rintro u event v ⟨hu, hold⟩ hstep
    exact ⟨hu.step hstep, hold.trans (keeps_of_step (guarded_reachable hu.of_restrict)
      (pendingKeeps_reachable hu) hstep.1 hstep.2).1⟩
  exact ⟨hkeeps.2, fun target send hold => hkeeps.2.exists_sendTo hold send⟩

/-- A rebind that may not bind any port, and one that binds both families. -/
def sampleDenied : List Event :=
  sampleBegin 0 0 ++ sampleSelect 0 0 ++ (sampleRebind 0 (fun _ _ =>
    .error (.io ⟨.other, "permission denied"⟩)) (.ok (sampleAddr 6))).take 5 ++
  sampleBegin 1 1 ++ sampleSelect 1 1 ++
    sampleRebind 1 (fun _ ipv6 => .ok (if ipv6 then 8 else 7)) (.ok (sampleAddr 6))

theorem bindsFamilies_sampleDenied : ∀ event ∈ sampleDenied, ∀ s, BindsFamilies s event := by
  intro event hevent s
  unfold BindsFamilies
  split
  next i current bindUdp =>
    intro flight result stats _ hfound
    obtain ⟨-, -, rfl⟩ | ⟨-, -, rfl⟩ :
        i = 0 ∧ current = sampleAddr 5 ∧
            bindUdp = (fun _ _ => .error (.io ⟨.other, "permission denied"⟩)) ∨
          i = 1 ∧ current = sampleAddr 5 ∧
            bindUdp = (fun _ ipv6 => .ok (if ipv6 then 8 else 7)) := by
      simpa [sampleDenied, sampleBegin, sampleSelect, sampleRebind] using hevent
    · obtain ⟨n, -, -, -, ipv6, socket, hbind⟩ := hfound
      cases hbind
    · exact fun _ _ _ _ ipv6 _ => ⟨_, rfl⟩
  next => trivial

theorem families_kept_sample : ∃ t, ((lts sampleClient).restrict BindsFamilies).Run sampleState
    sampleDenied t ∧ t.socket ≠ sampleState.socket ∧ sampleState.socket.Keeps t.socket := by
  obtain ⟨t, ht, htest⟩ := (Option.any_eq_true _ _).mp
    (show (sampleRun sampleDenied).any (·.socket.v4 = some 7) = true by decide +kernel)
  have hrun : ((lts sampleClient).restrict BindsFamilies).Run sampleState sampleDenied t :=
    run_restrict_sampleRun bindsFamilies_sampleDenied ht
  refine ⟨t, hrun, fun heq => ?_, ((families_kept sampleClient).2 sampleState sampleDenied t
    (.init init_sampleState) hrun).1⟩
  rw [heq] at htest
  cases of_decide_eq_true htest

/-- A rebind for which the IPv6 bind of the free port fails, and not because the port is in use. -/
def sampleOneFamily : List Event :=
  sampleBegin 0 0 ++ sampleSelect 0 0 ++ sampleRebind 0 (fun _ ipv6 =>
    if ipv6 then .error (.io ⟨.other, "permission denied"⟩) else .ok 7) (.ok (sampleAddr 6))

theorem not_families_kept : ¬ ∀ s events t, (lts sampleClient).Reachable s →
    (lts sampleClient).Run s events t → s.socket.Keeps t.socket := by
  intro h
  obtain ⟨t, ht, htest⟩ := (Option.any_eq_true _ _).mp
    (show (sampleRun sampleOneFamily).any (·.socket.v6 = none) = true by decide +kernel)
  have hkeeps := h sampleState sampleOneFamily t (.init init_sampleState)
    (Lts.Run.of_runSteps (m := lts sampleClient) (fun _ _ _ _ h => h) ht) true nofun
  exact hkeeps (of_decide_eq_true htest)

end Client

end Ratelimitly
