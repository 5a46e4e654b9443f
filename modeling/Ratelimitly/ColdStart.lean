import Mathlib.Tactic
import Ratelimitly.StoredServers

/-! Operations of a client that knows no server yet. -/
namespace Ratelimitly

open Lib

namespace Report

variable {client : CoreClient} {reports : List ServiceLatencyReport} {s t : State} {reply : Reply}

/-- A call that ends well has sent something, and a call about to send has a target. -/
def Pc.Sends (reports : List ServiceLatencyReport) (sent : List Datagram) : Pc → Prop
  | .sendSocket _ resolved => resolved.targets ≠ []
  | .sending .. | .recordFailures _ => sent ≠ []
  | .returned (.ok ()) => reports = [] ∨ sent ≠ []
  | _ => True

def Sends (reports : List ServiceLatencyReport) (s : State) : Prop := s.pc.Sends reports s.sent

theorem sends_begin : Sends reports (begin reports) := by
  unfold Sends begin
  dsimp only
  split
  next hempty => exact .inl hempty
  next => trivial

theorem sends_build (seed : PacketSeed) (sent : List Datagram) :
    (build client reports seed).Sends reports sent := by
  unfold build
  split <;> trivial

theorem sends_finishSends (resolved : ResolvedTargets) (sends : SendLoop) {sent : List Datagram}
    (hsent : sent ≠ []) : (finishSends resolved sends).Sends reports sent := by
  unfold finishSends
  split
  · split
    · trivial
    · exact .inr hsent
  · split
    · exact hsent
    · exact .inr hsent

theorem sends_sendNext {packet : List UInt8} {resolved : ResolvedTargets} {socket : ℕ}
    {targets : List SocketAddr} {sends : SendLoop} {sent : List Datagram}
    (h : targets ≠ [] ∨ sent ≠ []) :
    Sends reports (sendNext packet resolved socket targets sends sent) := by
  cases targets with
  | nil => exact sends_finishSends _ _ (h.resolve_left fun hne => hne rfl)
  | cons target rest => exact List.cons_ne_nil _ _

/-- A step keeps this as long as no snapshot is empty. -/
theorem sends_step (h : Sends reports s) (hstep : step client reports s reply = some t)
    (hservers : ∀ servers resolver resolved, reply = .servers servers resolver →
      currentTargets client.ipText resolver servers = .ok resolved → resolved.targets ≠ []) :
    Sends reports t := by
  obtain ⟨pc, sent⟩ := s
  cases steps_of_step hstep with
  | lastRefresh =>
    unfold Sends
    dsimp only
    split
    · trivial
    · exact sends_build _ _
  | refreshed => exact sends_build _ _
  | unrefreshed => trivial
  | resolved hresolved => exact hservers _ _ _ rfl hresolved
  | @unresolved _ _ _ outcome _ hne =>
    cases outcome with
    | ok => exact absurd rfl hne
    | _ => trivial
  | socket => exact sends_sendNext (.inl h)
  | sent => exact sends_sendNext (.inr h)
  | stats => exact .inr h

end Report

/-! ### When the first refresh is due -/

/-- The age check at time `now`, when nothing was refreshed since the client was built at `origin`. -/
def Overdue (client : CoreClient) (origin now : ℕ) : Prop :=
  Request.refreshDue client
    (Client.initialLastDnsRefresh client.config.dnsRefreshIntervalS origin) now = true

/-- The check finds a refresh due when the interval and a second could be subtracted from the time of
construction, and otherwise only once the interval has passed since then. -/
theorem overdue_iff {client : CoreClient} {origin now : ℕ} (hle : origin ≤ now)
    (hinterval : client.config.dnsRefreshIntervalS.toNat + 1 < 2 ^ 64) :
    Overdue client origin now ↔
      (client.config.dnsRefreshIntervalS.toNat + 1) * 1000000000 ≤ origin ∨
        client.config.dnsRefreshIntervalS.toNat < (now - origin) / 1000000000 := by
  unfold Overdue Request.refreshDue Client.initialLastDnsRefresh
  generalize client.config.dnsRefreshIntervalS.toNat = interval at hinterval ⊢
  have hspan : min (interval + 1) (2 ^ 64 - 1) = interval + 1 := by omega
  rw [hspan, decide_eq_true_iff]
  dsimp only
  split
  · refine iff_of_true ?_ (.inl ‹_›)
    have hge : (interval + 1) * 1000000000 ≤ now - (origin - (interval + 1) * 1000000000) := by omega
    exact (Nat.le_div_iff_mul_le (by omega)).mpr hge
  · omega

/-! ### Calls that find the list empty -/

namespace Client

variable {client : CoreClient} {s t : State} {event : Event} {i : ℕ} {slot : Slot} {origin : ℕ}

/-- The call runs SRV discovery. -/
def Call.Refreshing : Call → Prop
  | .check _ (.refreshing _) => True
  | .report _ state => state.pc = .refreshing
  | _ => False

/-- The call is about to read the stored servers. -/
def Call.Resolving : Call → Prop
  | .check _ (.resolving _) => True
  | .report _ state => ∃ packet, state.pc = .resolving packet
  | _ => False

/-- The call has returned that discovery found nothing. -/
def Call.Undiscovered : Call → Prop
  | .check _ pc => pc = .returned none (.err (.dns "No SRV servers found"))
  | .report _ state => state.pc = .returned (.err (.dns "No SRV servers found"))

/-- The runs of a client that was built at `origin`. -/
def ltsFrom (client : CoreClient) (origin : ℕ) : Lts State Event where
  init s := ∃ bindUdp, new client.config bindUdp origin = .ok s
  step s event t := step client s event = some t

theorem reachable_of_ltsFrom (h : (ltsFrom client origin).Reachable s) : (lts client).Reachable s := by
  induction h with
  | init hs =>
    obtain ⟨bindUdp, hnew⟩ := hs
    exact .init ⟨bindUdp, origin, hnew⟩
  | step _ hstep ih => exact ih.step hstep

theorem servers_ne_nil_of_step (htext : client.ipText.Faithful) (hstep : step client s event = some t)
    (h : s.servers.servers ≠ []) : t.servers.servers ≠ [] := by
  rw [servers_of_step hstep]
  unfold State.stored
  split
  next resolver _ =>
    rcases refreshedWith_spec htext s resolver with herr | ⟨stored, hok, hne, -⟩
    · rw [herr]
      exact h
    · rw [hok]
      exact hne
  next => exact h

/-- As long as nothing is stored the time of the last refresh is that of construction. -/
theorem lastDnsRefresh_of_empty (htext : client.ipText.Faithful)
    (h : (ltsFrom client origin).Reachable s) : s.servers.servers = [] →
      s.servers.lastDnsRefresh = initialLastDnsRefresh client.config.dnsRefreshIntervalS origin := by
  refine h.invariant (P := fun s => s.servers.servers = [] → s.servers.lastDnsRefresh =
    initialLastDnsRefresh client.config.dnsRefreshIntervalS origin) ?_ ?_
  · rintro s ⟨bindUdp, hnew⟩ -
    obtain ⟨socket, -, -, -, rfl⟩ := new_eq_ok_iff.mp hnew
    rfl
  · intro s event t _ hs hstep hempty
    rw [servers_of_step hstep] at hempty ⊢
    unfold State.stored at hempty ⊢
    split at hempty
    next resolver _ =>
      rcases refreshedWith_spec htext s resolver with herr | ⟨stored, hok, hne, -⟩
      · rw [herr] at hempty ⊢
        exact hs hempty
      · rw [hok] at hempty
        exact absurd hempty hne
    next => exact hs hempty

theorem clock_ge_origin (h : (ltsFrom client origin).Reachable s) : origin ≤ s.clock := by
  refine h.invariant (P := fun s => origin ≤ s.clock) ?_ ?_
  · rintro s ⟨bindUdp, hnew⟩
    obtain ⟨socket, -, -, -, rfl⟩ := new_eq_ok_iff.mp hnew
    exact le_rfl
  · intro s event t _ hs hstep
    rcases clock_of_step hstep with heq | ⟨-, -, hle⟩
    · exact heq ▸ hs
    · exact hs.trans hle

/-! ### Steps of one call -/

/-- A call goes on with the answer that the client has for it. -/
inductive CallSteps (client : CoreClient) (s : State) (channel : List ResponsePacket) (wake : Wake) :
    Call → Call → Prop
  | check {query : Query} {pc pc' : Request.Pc} {reply : Request.Reply} :
      s.requestReply channel wake = some reply → Request.step client query pc reply = some pc' →
      CallSteps client s channel wake (.check query pc) (.check query pc')
  | report {reports : List ServiceLatencyReport} {state state' : Report.State}
      {reply : Report.Reply} : s.reportReply wake = some reply →
      Report.step client reports state reply = some state' →
      CallSteps client s channel wake (.report reports state) (.report reports state')

variable {channel : List ResponsePacket} {wake : Wake} {call call' : Call}

theorem callSteps_of_wake (h : step client s (.wake i wake) = some t) :
    ∃ slot slot', s.slots[i]? = some slot ∧ t.slots[i]? = some slot' ∧
      CallSteps client s slot.channel wake slot.call slot'.call := by
  have hset {slots : List Slot} {slot slot' : Slot} (hslot : slots[i]? = some slot) :
      (slots.set i slot')[i]? = some slot' := by
    obtain ⟨hlt, -⟩ := List.getElem?_eq_some_iff.mp hslot
    simp [hlt]
  cases moves_of_step h with
  | @request i slot query pc wake reply pc' hslot _ hcall hreply hrequest =>
    refine ⟨slot, _, hslot, (congrArg (·[i]?) slots_move).trans (hset hslot), ?_⟩
    rw [hcall]
    exact .check hreply hrequest
  | @reporting i slot reports state wake reply state' hslot _ hcall hreply hreport =>
    refine ⟨slot, _, hslot, hset hslot, ?_⟩
    rw [hcall]
    exact .report hreply hreport

theorem not_resolving_sendNext (packet : List UInt8) (resolved : ResolvedTargets) (socket : ℕ)
    (targets : List SocketAddr) (sends : SendLoop) (sent : List Datagram) {packet' : List UInt8} :
    (Report.sendNext packet resolved socket targets sends sent).pc ≠ .resolving packet' := by
  cases targets with
  | cons => nofun
  | nil =>
    unfold Report.sendNext Report.finishSends
    dsimp only
    split
    · split <;> nofun
    · split <;> nofun

theorem not_refreshing_build {reports : List ServiceLatencyReport} {seed : PacketSeed} :
    Report.build client reports seed ≠ .refreshing := by
  unfold Report.build
  split <;> nofun

/-- What the age check leads to. -/
theorem refreshing_iff_due {seed : PacketSeed}
    (h : CallSteps client s channel (.lastRefresh seed) call call') :
    call'.Refreshing ↔ Request.refreshDue client s.servers.lastDnsRefresh s.clock = true := by
  cases h with
  | check hreply hrequest =>
    cases hreply
    cases Request.steps_of_step hrequest with
    | lastRefresh =>
      split
      next hdue => exact iff_of_true trivial hdue
      next hdue => exact iff_of_false id hdue
  | @report reports state state' reply hreply hreport =>
    cases hreply
    obtain ⟨pc, sent⟩ := state
    cases Report.steps_of_step hreport with
    | lastRefresh =>
      unfold Call.Refreshing
      dsimp only
      split
      next hdue => exact iff_of_true rfl hdue
      next hdue => exact iff_of_false not_refreshing_build hdue

/-- A refresh that finds nothing ends the call with an error. -/
theorem undiscovered_of_refresh {resolver : Resolver} {seed : PacketSeed}
    (htext : client.ipText.Faithful)
    (h : CallSteps client s channel (.refresh resolver seed) call call')
    (hempty : (s.refreshedWith client resolver).2.servers = []) : call'.Undiscovered := by
  have herr : (s.refreshedWith client resolver).1 = .err (.dns "No SRV servers found") := by
    rcases refreshedWith_spec htext s resolver with herr | ⟨stored, hok, hne, -⟩
    · rw [herr]
    · rw [hok] at hempty
      exact absurd hempty hne
  rw [State.refreshedWith] at herr
  cases h with
  | check hreply hrequest =>
    cases hreply
    cases Request.steps_of_step hrequest with
    | refreshed hok =>
      rw [herr] at hok
      cases hok
    | unrefreshed =>
      have hpc := Option.some.inj hrequest
      rw [herr] at hpc
      exact hpc.symm
  | @report reports state state' reply hreply hreport =>
    cases hreply
    obtain ⟨pc, sent⟩ := state
    cases Report.steps_of_step hreport with
    | refreshed hok =>
      rw [herr] at hok
      cases hok
    | unrefreshed herr' =>
      rw [herr] at herr'
      cases herr'
      rfl

/-- A call comes to the stored servers when no refresh is due, or after one that has found some. -/
theorem resolving_of_callSteps (h : CallSteps client s channel wake call call')
    (hresolving : call'.Resolving) :
    (∃ seed, wake = .lastRefresh seed ∧
        Request.refreshDue client s.servers.lastDnsRefresh s.clock = false) ∨
      ∃ resolver seed, wake = .refresh resolver seed ∧ (s.refreshedWith client resolver).1 = .ok () := by
  cases h with
  | @check query pc pc' reply hreply hrequest =>
    have hanswers := answers_of_requestReply hreply
    cases Request.steps_of_step hrequest with
    | lastRefresh =>
      obtain ⟨rfl, rfl, seed, rfl⟩ := hanswers
      refine .inl ⟨seed, rfl, ?_⟩
      split at hresolving
      · exact hresolving.elim
      next hdue => simpa using hdue
    | refreshed hok =>
      obtain ⟨rfl, rfl, seed, rfl⟩ := hanswers
      exact .inr ⟨_, seed, rfl, hok⟩
    | unrefreshed => exact hresolving.elim
    | servers =>
      unfold Request.enter at hresolving
      split at hresolving
      · exact hresolving.elim
      · exact hresolving.elim
      · split at hresolving <;> exact hresolving.elim
    | activity =>
      unfold Request.register at hresolving
      split at hresolving <;> exact hresolving.elim
    | flight =>
      unfold Request.leaveFlight at hresolving
      split at hresolving
      · unfold Request.steer at hresolving
        split at hresolving <;> exact hresolving.elim
      · exact hresolving.elim
      · exact hresolving.elim
    | steering =>
      unfold Request.steer at hresolving
      split at hresolving <;> exact hresolving.elim
  | @report reports state state' reply hreply hreport =>
    obtain ⟨packet, hresolving⟩ := hresolving
    obtain ⟨pc, sent⟩ := state
    cases Report.steps_of_step hreport with
    | lastRefresh =>
      cases wake <;> cases hreply
      refine .inl ⟨_, rfl, ?_⟩
      dsimp only at hresolving
      split at hresolving
      · cases hresolving
      next hdue => simpa using hdue
    | refreshed hok =>
      cases wake <;> cases hreply
      exact .inr ⟨_, _, rfl, hok⟩
    | unrefreshed | resolved | unresolved | stats => cases hresolving
    | socket =>
      exact absurd hresolving (not_resolving_sendNext _ _ _ _ _ _)
    | sent =>
      exact absurd hresolving (not_resolving_sendNext _ _ _ _ _ _)

/-! ### Runs -/

/-- An age check on an empty list finds a refresh due. -/
def DueWhenEmpty (client : CoreClient) (origin : ℕ) (s : State) : Event → Prop
  | .wake _ (.lastRefresh _) => s.servers.servers = [] → Overdue client origin s.clock
  | _ => True

/-- No call reads an empty list, and no report ends well that has sent nothing. -/
structure Supplied (s : State) : Prop where
  resolving : ∀ (i : ℕ) (slot : Slot), s.slots[i]? = some slot → slot.call.Resolving → s.servers.servers ≠ []
  reports : ∀ (i : ℕ) (slot : Slot) reports state, s.slots[i]? = some slot →
    slot.call = .report reports state →
    Report.Sends reports state

theorem Supplied.resolving_step (h : Supplied s) (htext : client.ipText.Faithful)
    (hreachable : (ltsFrom client origin).Reachable s) (hdue : DueWhenEmpty client origin s event)
    (hstep : step client s event = some t) (hslot : t.slots[i]? = some slot)
    (hresolving : slot.call.Resolving) : t.servers.servers ≠ [] := by
  have hkept (slot : Slot) (hslot : s.slots[i]? = some slot) (hresolving : slot.call.Resolving) :
      t.servers.servers ≠ [] :=
    servers_ne_nil_of_step htext hstep (h.resolving i slot hslot hresolving)
  have hcall {channel : List ResponsePacket} {wake : Wake} {call call' : Call}
      (hcalls : CallSteps client s channel wake call call') (hevent : event = .wake i wake)
      (hresolving : call'.Resolving) : t.servers.servers ≠ [] := by
    subst hevent
    rcases resolving_of_callSteps hcalls hresolving with ⟨seed, rfl, hnot⟩ | ⟨resolver, seed, rfl, hok⟩
    · refine servers_ne_nil_of_step htext hstep fun hempty => ?_
      have hoverdue := hdue hempty
      rw [Overdue, ← lastDnsRefresh_of_empty htext hreachable hempty, hnot] at hoverdue
      cases hoverdue
    · rw [servers_of_step hstep, State.stored]
      rcases refreshedWith_spec htext s resolver with herr | ⟨stored, hok', hne, -⟩
      · rw [herr] at hok
        cases hok
      · rw [hok']
        exact hne
  cases origin_of_step hstep hslot with
  | kept hold => exact hkept _ hold hresolving
  | check query =>
    unfold Request.begin at hresolving
    dsimp only at hresolving
    split at hresolving
    · exact hresolving.elim
    · exact hresolving.elim
    · split at hresolving
      · exact hresolving.elim
      · split at hresolving <;> exact hresolving.elim
  | report reports =>
    obtain ⟨packet, hpacket⟩ := hresolving
    unfold Report.begin at hpacket
    dsimp only at hpacket
    split at hpacket <;> cases hpacket
  | request _ _ _ hevent hreply hrequest =>
    exact hcall (.check hreply hrequest) hevent hresolving
  | reporting _ _ hevent hreply hreport =>
    have hcalls : CallSteps client s [] _ _ _ := .report hreply hreport
    exact hcall hcalls hevent hresolving
  | @drop old hold => exact hkept old hold hresolving
  | @deliver old _ _ hold => exact hkept old hold hresolving

theorem targets_ne_nil_of_discovered {ipText : IpText} {resolver : Resolver}
    {servers : List ServerEndpoint} {resolved : ResolvedTargets}
    (hservers : ∀ server ∈ servers, Discovered ipText server) (hne : servers ≠ [])
    (h : currentTargets ipText resolver servers = .ok resolved) : resolved.targets ≠ [] := by
  obtain ⟨resolved', hresolved', -, hlength⟩ := currentTargets_of_discovered resolver hservers
  obtain rfl := Outcome.ok.inj (h.symm.trans hresolved')
  rw [← List.length_pos_iff, hlength]
  exact List.length_pos_iff.mpr hne

theorem Supplied.reports_step (h : Supplied s) (htext : client.ipText.Faithful)
    (hreachable : (ltsFrom client origin).Reachable s) (hstep : step client s event = some t)
    {reports : List ServiceLatencyReport} {state : Report.State} (hslot : t.slots[i]? = some slot)
    (hcall : slot.call = .report reports state) : Report.Sends reports state := by
  cases origin_of_step hstep hslot with
  | kept hold => exact h.reports i slot reports state hold hcall
  | check => cases hcall
  | report =>
    cases hcall
    exact Report.sends_begin
  | request => cases hcall
  | @reporting old _ state₀ _ wake reply hold hcall₀ hevent hreply hreport =>
    cases hcall
    refine Report.sends_step (h.reports i old _ state₀ hold hcall₀) hreport ?_
    rintro servers resolver resolved rfl hcurrent
    cases wake <;> cases hreply
    have hresolving : old.call.Resolving := by
      rw [hcall₀]
      obtain ⟨pc, sent⟩ := state₀
      cases Report.steps_of_step hreport <;> exact ⟨_, rfl⟩
    exact targets_ne_nil_of_discovered (discovered_reachable htext (reachable_of_ltsFrom hreachable))
      (h.resolving i old hold hresolving) hcurrent
  | @drop old hold => exact h.reports i old reports state hold hcall
  | @deliver old _ _ hold => exact h.reports i old reports state hold hcall

theorem supplied_reachable (htext : client.ipText.Faithful)
    (h : ((ltsFrom client origin).restrict (DueWhenEmpty client origin)).Reachable s) :
    Supplied s := by
  refine h.invariant ?_ ?_
  · rintro s ⟨bindUdp, hnew⟩
    obtain ⟨socket, -, -, -, rfl⟩ := new_eq_ok_iff.mp hnew
    exact ⟨by simp [start], by simp [start]⟩
  · rintro s event t hreachable hs ⟨hdue, hstep⟩
    exact ⟨fun i slot => hs.resolving_step htext hreachable.of_restrict hdue hstep,
      fun i slot reports state => hs.reports_step htext hreachable.of_restrict hstep⟩

/-- The call has a snapshot with a target. -/
def Call.Targeting : Call → Prop
  | .check _ (.entering _ resolved) => resolved.targets ≠ []
  | .report _ state => ∃ packet resolved, state.pc = .sendSocket packet resolved ∧ resolved.targets ≠ []
  | _ => False

/-- A call that reads a list that is not empty does not fail for lack of servers. -/
theorem targeting_of_servers {resolver : Resolver} (htext : client.ipText.Faithful)
    (hreachable : (ltsFrom client origin).Reachable s)
    (hne : call.Resolving → s.servers.servers ≠ [])
    (h : CallSteps client s channel (.servers resolver) call call') : call'.Targeting := by
  obtain ⟨resolved, hcurrent, -⟩ := currentTargets_of_discovered resolver
    (discovered_reachable htext (reachable_of_ltsFrom hreachable))
  have htargets (hresolving : call.Resolving) : resolved.targets ≠ [] :=
    targets_ne_nil_of_discovered (discovered_reachable htext (reachable_of_ltsFrom hreachable))
      (hne hresolving) hcurrent
  cases h with
  | check hreply hrequest =>
    cases hreply
    cases Request.steps_of_step hrequest with
    | servers =>
      have hresolved := htargets trivial
      rw [Request.enter, hcurrent]
      dsimp only
      rw [if_neg hresolved]
      exact hresolved
  | @report reports state state' reply hreply hreport =>
    cases hreply
    obtain ⟨pc, sent⟩ := state
    cases Report.steps_of_step hreport with
    | resolved hresolved =>
      obtain rfl := Outcome.ok.inj (hresolved.symm.trans hcurrent)
      exact ⟨_, _, rfl, htargets ⟨_, rfl⟩⟩
    | unresolved hnone => exact absurd hcurrent (hnone resolved)

/-- A call that finds the list empty at its age check runs discovery exactly when the interval and a
second fit before the time of construction or the interval has passed since then, and a discovery that
leaves the list empty ends the call with its error. In a run in which that condition holds at every
such check no call reads an empty list or fails for lack of servers, and no report ends well that has
sent nothing. -/
theorem discovery_of_empty (client : CoreClient) (htext : client.ipText.Faithful) (origin : ℕ) :
    (∀ s i seed t, (ltsFrom client origin).Reachable s → s.servers.servers = [] →
      step client s (.wake i (.lastRefresh seed)) = some t → ∃ slot, t.slots[i]? = some slot ∧
        (slot.call.Refreshing ↔ Overdue client origin s.clock)) ∧
    (∀ s, (ltsFrom client origin).Reachable s →
      client.config.dnsRefreshIntervalS.toNat + 1 < 2 ^ 64 → (Overdue client origin s.clock ↔
        (client.config.dnsRefreshIntervalS.toNat + 1) * 1000000000 ≤ origin ∨
          client.config.dnsRefreshIntervalS.toNat < (s.clock - origin) / 1000000000)) ∧
    (∀ s i resolver seed t, step client s (.wake i (.refresh resolver seed)) = some t →
      t.servers.servers = [] → ∃ slot, t.slots[i]? = some slot ∧ slot.call.Undiscovered) ∧
    ∀ s, ((ltsFrom client origin).restrict (DueWhenEmpty client origin)).Reachable s →
      (∀ (i : ℕ) (slot : Slot), s.slots[i]? = some slot → slot.call.Resolving →
        s.servers.servers ≠ []) ∧
      (∀ i resolver t, step client s (.wake i (.servers resolver)) = some t →
        ∃ slot, t.slots[i]? = some slot ∧ slot.call.Targeting) ∧
      ∀ (i : ℕ) (slot : Slot) reports state, s.slots[i]? = some slot →
        slot.call = .report reports state → reports ≠ [] → state.pc = .returned (.ok ()) →
          state.sent ≠ [] := by
  refine ⟨fun s i seed t h hempty hstep => ?_, fun s h hinterval => ?_,
    fun s i resolver seed t hstep hempty => ?_, fun s h => ⟨?_, fun i resolver t hstep => ?_, ?_⟩⟩
  · obtain ⟨slot, slot', -, hslot', hcalls⟩ := callSteps_of_wake hstep
    refine ⟨slot', hslot', ?_⟩
    rw [refreshing_iff_due hcalls, lastDnsRefresh_of_empty htext h hempty, Overdue]
  · exact overdue_iff (clock_ge_origin h) hinterval
  · obtain ⟨slot, slot', -, hslot', hcalls⟩ := callSteps_of_wake hstep
    rw [servers_of_step hstep] at hempty
    exact ⟨slot', hslot', undiscovered_of_refresh htext hcalls hempty⟩
  · exact (supplied_reachable htext h).resolving
  · obtain ⟨slot, slot', hslot, hslot', hcalls⟩ := callSteps_of_wake hstep
    exact ⟨slot', hslot', targeting_of_servers htext h.of_restrict
      ((supplied_reachable htext h).resolving i slot hslot) hcalls⟩
  · intro i slot reports state hslot hcall hreports hpc
    have hsends := (supplied_reachable htext h).reports i slot reports state hslot hcall
    rw [Report.Sends, hpc] at hsends
    exact hsends.resolve_left hreports

def sampleReports : List ServiceLatencyReport := [⟨"db", 5, 60000, 100, 10⟩]

/-- The sample client with a report that has just been called. -/
def sampleCold : State :=
  { sampleState with slots := [⟨.report sampleReports (Report.begin sampleReports), [], false⟩] }

theorem discovery_of_empty_sample : ∃ (t : State) (slot : Slot),
    step faithfulClient sampleCold (.wake 0 (.lastRefresh (sampleSeedOf 0))) = some t ∧
      t.slots[0]? = some slot ∧ slot.call.Refreshing := by
  have hinit : (ltsFrom faithfulClient 100000000000).init sampleState :=
    ⟨fun _ ipv6 => .ok (if ipv6 then 1 else 0),
      new_eq_ok_iff.mpr ⟨⟨some 0, some 1⟩, 60, rfl, by decide +kernel, rfl⟩⟩
  have hstep : step faithfulClient sampleState (.report sampleReports) = some sampleCold := rfl
  have hreachable : (ltsFrom faithfulClient 100000000000).Reachable sampleCold :=
    Lts.Reachable.step (.init hinit) hstep
  obtain ⟨t, ht⟩ := Option.isSome_iff_exists.mp (show (step faithfulClient sampleCold
    (.wake 0 (.lastRefresh (sampleSeedOf 0)))).isSome = true by decide +kernel)
  obtain ⟨slot, hslot, hrefreshing⟩ := (discovery_of_empty faithfulClient faithful_faithfulIpText
    100000000000).1 sampleCold 0 (sampleSeedOf 0) t hreachable rfl ht
  have hoverdue : Overdue faithfulClient 100000000000 sampleCold.clock := by
    unfold Overdue
    decide +kernel
  exact ⟨t, slot, ht, hslot, hrefreshing.mpr hoverdue⟩

/-- The report of a client that was built at the earliest instant. -/
def sampleUnsent : List Event :=
  [.report sampleReports, .wake 0 (.lastRefresh (sampleSeedOf 0)), .wake 0 (.servers sampleResolver),
    .wake 0 .socket]

/-- The first call is a report that has returned well and sent nothing. -/
def State.unsent (s : State) : Bool :=
  match (s.slots[0]? : Option Slot) with
  | some ⟨.report reports ⟨.returned (.ok ()), []⟩, _, _⟩ => reports ≠ []
  | _ => false

theorem not_discovery_of_empty : ¬ ∀ origin s, (ltsFrom faithfulClient origin).Reachable s →
    ∀ (i : ℕ) (slot : Slot) reports state, s.slots[i]? = some slot →
      slot.call = .report reports state → reports ≠ [] → state.pc = .returned (.ok ()) →
        state.sent ≠ [] := by
  intro h
  obtain ⟨s, hs, htest⟩ := (Option.any_eq_true _ _).mp
    (show (Lts.runSteps (step faithfulClient) sampleUnsent
      (start faithfulClient.config ⟨some 0, some 1⟩ 0)).any (·.unsent) = true by decide +kernel)
  have hreachable : (ltsFrom faithfulClient 0).Reachable s :=
    (Lts.Run.of_runSteps (m := ltsFrom faithfulClient 0) (fun _ _ _ _ h => h) hs).reachable
      (.init ⟨fun _ ipv6 => .ok (if ipv6 then 1 else 0),
        new_eq_ok_iff.mpr ⟨⟨some 0, some 1⟩, 60, rfl, by decide +kernel, rfl⟩⟩)
  unfold State.unsent at htest
  split at htest
  next reports channel dropped hslot =>
    exact h 0 s hreachable 0 _ reports _ hslot rfl (of_decide_eq_true htest) rfl rfl
  next => cases htest

end Client

end Ratelimitly
