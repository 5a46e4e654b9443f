import Mathlib.Tactic
import Ratelimitly.ColdStart

/-! How old the servers can be that a request sends to. -/
namespace Ratelimitly

open Lib

/-- A refresh fails and keeps the list, or it stores what it has found, with the time. -/
theorem refreshServers_kept_or_found (ipText : IpText) (resolver : Resolver) (domain : String)
    (now : ℕ) (state : ServerList) :
    (∃ error, refreshServers ipText resolver domain now state = (.err error, state)) ∨
      ∃ servers, refreshServers ipText resolver domain now state = (.ok (), ⟨servers, now⟩) := by
  unfold refreshServers
  split
  · dsimp only
    split
    · exact .inr ⟨_, rfl⟩
    · exact .inl ⟨_, rfl⟩
  · exact .inl ⟨_, rfl⟩

namespace Client

variable {client : CoreClient} {s t : State} {event : Event} {events : List Event} {i since : ℕ}
  {list : ServerList} {pc : Request.Pc} {resolved : ResolvedTargets}

/-- At the time `since` the list was at most as old as the interval allows, or was not there yet. -/
def Recent (client : CoreClient) (since : ℕ) (list : ServerList) : Prop :=
  since < list.lastDnsRefresh + (client.config.dnsRefreshIntervalS.toNat + 1) * 1000000000

theorem recent_of_not_due {now : ℕ} (hle : since ≤ now)
    (h : Request.refreshDue client list.lastDnsRefresh now = false) : Recent client since list := by
  have hage : (now - list.lastDnsRefresh) / 1000000000 ≤ client.config.dnsRefreshIntervalS.toNat :=
    not_lt.mp (of_decide_eq_false h)
  unfold Recent
  omega

theorem recent_of_le (hle : since ≤ list.lastDnsRefresh) : Recent client since list := by
  unfold Recent
  omega

/-! ### The stored list -/

/-- The refresh of a call finds a list that is not empty, and stores it with the time. -/
structure Finds (client : CoreClient) (list : ServerList) (s : State) (event : Event) (t : State) :
    Prop where
  step : Client.step client s event = some t
  refresh : ∃ i resolver seed, event = .wake i (.refresh resolver seed) ∧
    refreshServers client.ipText resolver client.config.apiKey.serviceDomain s.clock s.servers =
      (.ok (), list)
  stored : t.servers = list
  time : list.lastDnsRefresh = s.clock

theorem clock_le_of_step (h : step client s event = some t) : s.clock ≤ t.clock := by
  rcases clock_of_step h with heq | ⟨-, -, hle⟩
  · exact heq.ge
  · exact hle

/-- A step keeps the stored list, or replaces it by what it finds. -/
theorem servers_kept_or_found (h : step client s event = some t) :
    t.servers = s.servers ∨ Finds client t.servers s event t := by
  have hservers := servers_of_step h
  unfold State.stored at hservers
  split at hservers
  next j resolver seed =>
    rcases refreshServers_kept_or_found client.ipText resolver client.config.apiKey.serviceDomain
      s.clock s.servers with ⟨error, herr⟩ | ⟨servers, hok⟩
    · exact .inl (hservers.trans (congrArg Prod.snd herr))
    · have hlist : t.servers = ⟨servers, s.clock⟩ := hservers.trans (congrArg Prod.snd hok)
      exact .inr ⟨h, ⟨j, resolver, seed, rfl, by rw [hlist, hok]⟩, rfl, by rw [hlist]⟩
  next => exact .inl hservers

/-- The stored list is empty, or a refresh of the run has found it and no later one another. -/
theorem found_reachable (h : (lts client).Reachable s) : s.servers.servers = [] ∨
    ∃ u event v, (lts client).Reachable u ∧ Finds client s.servers u event v ∧
      (lts client).Leads v s := by
  refine h.invariant (P := fun s => s.servers.servers = [] ∨ ∃ u event v,
    (lts client).Reachable u ∧ Finds client s.servers u event v ∧ (lts client).Leads v s) ?_ ?_
  · rintro s ⟨bindUdp, now, hnew⟩
    obtain ⟨socket, -, -, -, rfl⟩ := new_eq_ok_iff.mp hnew
    exact .inl rfl
  · intro s event t hreachable hs hstep
    rcases servers_kept_or_found hstep with heq | hfinds
    · rw [heq]
      exact hs.imp_right fun ⟨u, event, v, hu, hfinds, hleads⟩ =>
        ⟨u, event, v, hu, hfinds, hleads.trans (.of_step hstep)⟩
    · exact .inr ⟨s, event, t, hreachable, hfinds, .refl t⟩

theorem Recent.step (h : Recent client since s.servers) (hle : since ≤ s.clock)
    (hstep : step client s event = some t) : Recent client since t.servers := by
  rcases servers_kept_or_found hstep with heq | hfinds
  · rwa [heq]
  · exact recent_of_le (hfinds.time ▸ hle)

/-! ### The list that a request reads -/

/-- Since the given time call `i` reads only lists that were recent at that time. -/
structure UpToDate (client : CoreClient) (since i : ℕ) (s : State) : Prop where
  clock : since ≤ s.clock
  slot : i < s.slots.length
  resolving : ∀ slot, s.slots[i]? = some slot → slot.call.Resolving → Recent client since s.servers

theorem UpToDate.resolving_step {slot : Slot} (h : UpToDate client since i s)
    (hstep : step client s event = some t) (hslot : t.slots[i]? = some slot)
    (hresolving : slot.call.Resolving) : Recent client since t.servers := by
  have hcall {channel : List ResponsePacket} {wake : Wake} {call call' : Call}
      (hcalls : CallSteps client s channel wake call call') (hevent : event = .wake i wake)
      (hresolving : call'.Resolving) : Recent client since t.servers := by
    subst hevent
    rcases resolving_of_callSteps hcalls hresolving with
      ⟨seed, rfl, hnot⟩ | ⟨resolver, seed, rfl, hok⟩
    · exact (recent_of_not_due h.clock hnot).step h.clock hstep
    · rw [servers_of_step hstep, State.stored]
      rcases refreshServers_kept_or_found client.ipText resolver client.config.apiKey.serviceDomain
        s.clock s.servers with ⟨error, herr⟩ | ⟨servers, hok'⟩
      · cases hok.symm.trans (congrArg Prod.fst herr)
      · rw [State.refreshedWith, hok']
        exact recent_of_le h.clock
  have hnew (hnone : s.slots[i]? = none) : False :=
    absurd h.slot (not_lt.mpr (List.getElem?_eq_none_iff.mp hnone))
  cases origin_of_step hstep hslot with
  | kept hold => exact (h.resolving _ hold hresolving).step h.clock hstep
  | check _ hnone => exact (hnew hnone).elim
  | report _ hnone => exact (hnew hnone).elim
  | request _ _ _ hevent hreply hrequest => exact hcall (.check hreply hrequest) hevent hresolving
  | reporting _ _ hevent hreply hreport =>
    have hcalls : CallSteps client s [] _ _ _ := .report hreply hreport
    exact hcall hcalls hevent hresolving
  | @drop old hold => exact (h.resolving old hold hresolving).step h.clock hstep
  | @deliver old _ _ hold => exact (h.resolving old hold hresolving).step h.clock hstep

theorem upToDate_run (h : UpToDate client since i s) (hrun : (lts client).Run s events t) :
    UpToDate client since i t :=
  hrun.preserves (fun _ _ _ h hstep => ⟨h.clock.trans (clock_le_of_step hstep),
    h.slot.trans_le (length_slots_of_step hstep),
    fun _ hslot hresolving => h.resolving_step hstep hslot hresolving⟩) h

/-- Whatever other calls refresh in the meantime: after a request has looked at the age of the list,
it takes its targets in a step that finds a list stored which a discovery of the run has found, and
which was no older than the interval and a second when the request looked. -/
theorem targets_fresh {dedupTtlMs : UInt32} (hreachable : (lts client).Reachable s)
    (hcheck : s.pcAt i = some (.refreshCheck dedupTtlMs)) (hrun : (lts client).Run s events t)
    (hpc : t.pcAt i = some pc) (hsnapshot : pc.snapshot = some resolved) :
    ∃ before event after u v, events = before ++ event :: after ∧ (lts client).Run s before u ∧
      Takes client i resolved u event v ∧ (lts client).Run v after t ∧
      s.clock < u.servers.lastDnsRefresh +
        (client.config.dnsRefreshIntervalS.toNat + 1) * 1000000000 ∧
      ∃ u₀ event₀ v₀, (lts client).Reachable u₀ ∧ Finds client u.servers u₀ event₀ v₀ ∧
        (lts client).Leads v₀ u := by
  obtain ⟨slot, hslot, hlive⟩ := Option.bind_eq_some_iff.mp hcheck
  have hstart : UpToDate client s.clock i s := by
    refine ⟨le_refl _, (List.getElem?_eq_some_iff.mp hslot).1, fun slot' hslot' hresolving => ?_⟩
    cases hslot.symm.trans hslot'
    unfold Slot.live at hlive
    split at hlive
    next hcall =>
      cases hlive
      rw [hcall] at hresolving
      exact hresolving.elim
    next => cases hlive
  rcases snapshot_of_run (fun _ _ _ h => h) hrun hpc hsnapshot with
    ⟨pc', hpc', hsnapshot'⟩ | ⟨before, event, after, u, v, hevents, hbefore, -, htakes, hafter⟩
  · cases hcheck.symm.trans hpc'
    cases hsnapshot'
  refine ⟨before, event, after, u, v, hevents, hbefore, htakes, hafter, ?_, ?_⟩
  · obtain ⟨_, hresolving, -⟩ := htakes.pcs
    obtain ⟨slot', query', hslot', -, hcall'⟩ := exists_slot_of_pcAt hresolving
    refine (upToDate_run hstart hbefore).resolving slot' hslot' ?_
    rw [hcall']
    trivial
  · refine (found_reachable (hbefore.reachable hreachable)).resolve_left fun hempty => ?_
    obtain ⟨resolver, -, hcurrent⟩ := htakes.current
    rw [hempty] at hcurrent
    cases hcurrent
    exact htakes.targets rfl

/-- The second request looks at the list 50 s after the first one has found it. -/
def sampleChecking : List Event :=
  sampleBegin 0 0 ++ [.tick 150000000000, .check sampleQuery]

/-- The list is not due for a refresh, and is read. -/
def sampleReading : List Event :=
  [.wake 1 (.lastRefresh (sampleSeedOf 1)), .wake 1 (.servers sampleResolver)]

/-- The call is at its look at the age of the list. -/
def checking : Request.Pc → Bool
  | .refreshCheck _ => true
  | _ => false

theorem targets_fresh_sample : ∃ resolved u event v, Takes sampleClient 1 resolved u event v ∧
    150000000000 < u.servers.lastDnsRefresh + (60 + 1) * 1000000000 ∧
    ∃ u₀ event₀ v₀, (lts sampleClient).Reachable u₀ ∧
      Finds sampleClient u.servers u₀ event₀ v₀ ∧ (lts sampleClient).Leads v₀ u := by
  obtain ⟨s, hs, htest⟩ := (Option.any_eq_true _ _).mp
    (show (sampleRun sampleChecking).any (fun s => s.clock = 150000000000 ∧
      (s.pcAt 1).any checking ∧ (Lts.runSteps (step sampleClient) sampleReading s).any
        fun t => ((t.pcAt 1).bind (·.snapshot)).isSome) = true by decide +kernel)
  obtain ⟨hclock, hchecking, htest⟩ := of_decide_eq_true htest
  obtain ⟨dedupTtlMs, hcheck⟩ : ∃ dedupTtlMs, s.pcAt 1 = some (.refreshCheck dedupTtlMs) := by
    obtain ⟨pc, hpc, hchecking⟩ := (Option.any_eq_true _ _).mp hchecking
    cases pc with
    | refreshCheck dedupTtlMs => exact ⟨dedupTtlMs, hpc⟩
    | _ => cases hchecking
  obtain ⟨t, ht, htest⟩ := (Option.any_eq_true _ _).mp htest
  obtain ⟨resolved, hresolved⟩ := Option.isSome_iff_exists.mp htest
  obtain ⟨pc, hpc, hsnapshot⟩ := Option.bind_eq_some_iff.mp hresolved
  obtain ⟨before, event, after, u, v, -, -, htakes, -, hfresh, hfound⟩ :=
    targets_fresh (reachable_sampleRun hs) hcheck
      (.of_runSteps (m := lts sampleClient) (fun _ _ _ _ h => h) ht) hpc hsnapshot
  rw [hclock] at hfresh
  exact ⟨resolved, u, event, v, htakes, hfresh, hfound⟩

end Client

end Ratelimitly
