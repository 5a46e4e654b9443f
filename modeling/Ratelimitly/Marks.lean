import Mathlib.Tactic
import Ratelimitly.StoredServers

/-! What one wake-up adds to the log of a call, and the logs of all calls of a client. -/
namespace Ratelimitly

open Lib Rounds

/-- Effects other than the acceptance of a response and the two updates of the statistics. -/
def Rounds.Effect.Routine : Effect → Prop
  | .sendFailures _ _ _ | .accepted _ _ | .counted _ => False
  | _ => True

/-- The server whose response was accepted, on the way into the statistics. -/
def Rounds.Pc.pendingIds : Rounds.Pc → List UInt64
  | .accepting _ _ result => [result.serverId]
  | _ => []

namespace Rounds.Effect

def packets : Effect → List ResponsePacket
  | .accepted packet _ => [packet]
  | _ => []

def acceptedIds : Effect → List UInt64
  | .accepted _ result => [result.serverId]
  | _ => []

def countedIds : Effect → List UInt64
  | .counted serverId => [serverId]
  | _ => []

/-- The servers that failed sends are charged to. -/
def chargedIds : Effect → List UInt64
  | .sendFailures _ _ serverIds => serverIds
  | _ => []

end Rounds.Effect

/-- What the effects so far have of a kind, latest first. -/
def collect {α : Type} (f : Effect → List α) (log : List Entry) : List α :=
  log.flatMap fun e => f e.effect

namespace Registration

variable {reg : Registration} {s t u : State} {reply : Reply} {effect : Effect} {now : ℕ}

/-- A routine part of the log was added. -/
def Grows (s t : State) : Prop :=
  ∃ newer, t.log = newer ++ s.log ∧ ∀ e ∈ newer, e.effect.Routine ∧ e.time = s.clock

theorem Grows.of_log_eq (h : t.log = s.log) : Grows s t := ⟨[], h, nofun⟩

theorem Grows.emit (s : State) (effect : Effect) (heffect : effect.Routine) :
    Grows s (s.emit effect) := by
  refine ⟨[⟨s.clock, s.delay, effect⟩], rfl, fun e he => ?_⟩
  rw [List.mem_singleton.mp he]
  exact ⟨heffect, rfl⟩

theorem Grows.trans (hst : Grows s t) (htu : Grows t u) (hclock : t.clock = s.clock) :
    Grows s u := by
  obtain ⟨first, ht, hfirst⟩ := hst
  obtain ⟨second, hu, hsecond⟩ := htu
  refine ⟨second ++ first, by rw [hu, ht, List.append_assoc], fun e he => ?_⟩
  rcases List.mem_append.mp he with he | he
  · exact ⟨(hsecond e he).1, (hsecond e he).2.trans hclock⟩
  · exact hfirst e he

/-- What the code between two awaits does to the log, unless a response was accepted. -/
structure Adds (s t : State) : Prop where
  grows : Grows s t
  pending : t.pc.pendingIds = []

theorem Grows.adds (h : Grows s t) (hlog : u.log = t.log) (hpending : u.pc.pendingIds = []) :
    Adds s u := by
  obtain ⟨newer, ht, hnewer⟩ := h
  exact ⟨⟨newer, hlog.trans ht, hnewer⟩, hpending⟩

theorem Adds.of_log_eq (hlog : t.log = s.log) (hpending : t.pc.pendingIds = []) : Adds s t :=
  ⟨.of_log_eq hlog, hpending⟩

theorem Adds.after (h : Adds t u) (hst : Grows s t) (hclock : t.clock = s.clock) : Adds s u :=
  ⟨hst.trans h.grows hclock, h.pending⟩

/-! ### The code between two awaits -/

theorem adds_conclude (outcome : Outcome CoreError (Option RateLimitResult)) :
    Adds s (reg.conclude outcome s) := by
  have hdecided : Grows s (s.emit (.decided outcome)) := .emit _ _ trivial
  unfold conclude
  dsimp only
  split
  · split
    · exact (hdecided.trans (.emit _ .completion trivial) rfl).adds rfl rfl
    · exact hdecided.adds rfl rfl
  all_goals exact hdecided.adds rfl rfl

theorem adds_receiveFinal (deadline : ℕ) : Adds s (reg.receiveFinal deadline s) := by
  unfold receiveFinal
  split
  · exact .of_log_eq rfl rfl
  · exact adds_conclude _

theorem adds_leaveRound (k : ℕ) : Adds s (reg.leaveRound k s) := by
  unfold leaveRound
  split_ifs
  · exact adds_conclude _
  · exact (Grows.emit s (.broadcast (k + 1)) trivial).adds rfl rfl
  · exact (adds_receiveFinal _).after (.emit s .finalReceive trivial) rfl
  · exact adds_conclude _

theorem adds_receiveRound (k deadline : ℕ) : Adds s (reg.receiveRound k deadline s) := by
  unfold receiveRound
  split
  · exact .of_log_eq rfl rfl
  · exact adds_leaveRound k

theorem adds_receive (window : Window) (deadline : ℕ) : Adds s (reg.receive window deadline s) := by
  cases window with
  | round k => exact adds_receiveRound k deadline
  | final => exact adds_receiveFinal deadline

theorem adds_leave (window : Window) : Adds s (reg.leave window s) := by
  cases window with
  | round k => exact adds_leaveRound k
  | final => exact @adds_conclude reg s (.ok none)

theorem adds_onAccepted (window : Window) (deadline : ℕ) (result : RateLimitResult) :
    Adds s (reg.onAccepted window deadline result s) := by
  unfold onAccepted
  split
  · exact adds_conclude _
  · have hbest : Grows s { s with best := keepOlder s.best result } := .of_log_eq rfl
    dsimp only
    split
    · exact (adds_conclude _).after hbest rfl
    · exact (adds_receiveRound _ _).after hbest rfl

theorem adds_afterDelivery (delivery : Delivery) (result : Except CoreError Unit) :
    Adds s (reg.afterDelivery delivery result s) := by
  unfold afterDelivery
  split
  · exact .of_log_eq rfl rfl
  · split
    · exact adds_conclude _
    · split
      · exact adds_receiveRound _ _
      · exact adds_conclude _
      · exact adds_conclude _

theorem adds_finishSends (delivery : Delivery) (sends : SendLoop) :
    Adds s (reg.finishSends delivery sends s) := by
  unfold finishSends
  split
  · split <;> exact adds_afterDelivery _ _
  · split
    · exact .of_log_eq rfl rfl
    · exact adds_afterDelivery _ _

theorem adds_sendNext (delivery : Delivery) (socket : ℕ) (targets : List SocketAddr)
    (sends : SendLoop) : Adds s (reg.sendNext delivery socket targets sends s) := by
  induction targets with
  | nil => exact adds_finishSends delivery sends
  | cons target rest ih =>
    rw [sendNext]
    split
    · exact ih
    · exact (Grows.emit s (.attempt delivery socket target) trivial).adds rfl rfl

/-! ### Wake-ups -/

/-- What a wake-up itself stands for in the log. -/
def marks (reg : Registration) (pc : Pc) (reply : Reply) : List Effect :=
  match pc, reply with
  | .recordFailures delivery now serverIds, .stats => [.sendFailures delivery now serverIds]
  | .accepting _ _ result, .stats => [.counted result.serverId]
  | .receiving _ _, .received packet => (reg.acceptedResult packet).toList.map (.accepted packet)
  | _, _ => []

/-- A wake-up enters what it stands for, and then a routine part; what it accepts is what waits to be
counted after it, and what it counts is what waited before. -/
structure Enters (effects : List Effect) (s t : State) : Prop where
  log : ∃ newer, t.log = newer ++ (effects.map fun effect => ⟨s.clock, s.delay, effect⟩) ++ s.log ∧
    ∀ e ∈ newer, e.effect.Routine ∧ e.time = s.clock
  exchange : effects.flatMap Effect.acceptedIds ++ s.pc.pendingIds =
    t.pc.pendingIds ++ effects.flatMap Effect.countedIds

theorem Adds.enters (h : Adds s t) (hpending : s.pc.pendingIds = []) : Enters [] s t := by
  obtain ⟨newer, ht, hnewer⟩ := h.grows
  exact ⟨⟨newer, by simpa using ht, hnewer⟩, by simp [hpending, h.pending]⟩

theorem Adds.enters_of_emit (h : Adds (s.emit effect) t)
    (hexchange : effect.acceptedIds ++ s.pc.pendingIds = effect.countedIds) :
    Enters [effect] s t := by
  obtain ⟨newer, ht, hnewer⟩ := h.grows
  exact ⟨⟨newer, by simpa [State.emit] using ht, hnewer⟩, by simpa [h.pending] using hexchange⟩

theorem enters_of_resumes (h : reg.Resumes s reply t) : Enters (reg.marks s.pc reply) s t := by
  cases h with
  | socket hpc =>
    rw [hpc]
    exact (adds_sendNext _ _ _ _).enters (by rw [hpc]; rfl)
  | sent hpc =>
    rw [hpc]
    exact (adds_sendNext _ _ _ _).enters (by rw [hpc]; rfl)
  | failures hpc =>
    rw [hpc]
    exact (adds_afterDelivery _ _).enters_of_emit (by rw [hpc]; rfl)
  | @received window deadline packet hpc =>
    rw [hpc, onPacket, marks]
    cases reg.acceptedResult packet with
    | none => exact (adds_receive window deadline).enters (by rw [hpc]; rfl)
    | some result =>
      refine ⟨⟨[], rfl, nofun⟩, ?_⟩
      rw [hpc]
      rfl
  | elapsed hpc =>
    rw [hpc]
    exact (adds_leave _).enters (by rw [hpc]; rfl)
  | accepted hpc =>
    rw [hpc]
    exact (adds_onAccepted _ _ _).enters_of_emit (by rw [hpc]; rfl)

theorem enters_of_step (h : reg.step s now reply = some t) :
    Enters (reg.marks s.pc reply) (s.advance now) t :=
  enters_of_resumes (resumes_of_step h).2

end Registration

namespace Request

/-- The instant that an answer comes with, if any. -/
def Reply.At (now : ℕ) : Reply → Prop
  | .activity _ time | .flight time _ => time = now
  | _ => True

variable {client : CoreClient} {query : Query} {pc pc' : Pc} {reply : Reply}
  {effects : List Effect} {now : ℕ}

/-- The log of a registered request, also after its end. -/
def Pc.log (pc : Pc) : List Entry := (pc.flight.map (·.state.log)).getD []

def Pc.pendingIds (pc : Pc) : List UInt64 := (pc.flight.map (·.state.pc.pendingIds)).getD []

def Pc.marks : Pc → Reply → List Effect
  | .flying flight, .flight _ reply => flight.reg.marks flight.state.pc reply
  | _, _ => []

theorem log_eq_nil (h : pc.flight = none) : pc.log = [] := by
  rw [Pc.log, h]
  rfl

theorem log_of_flight {flight : Flight} (h : pc.flight = some flight) : pc.log = flight.state.log := by
  rw [Pc.log, h]
  rfl

/-- The same for a whole call. -/
structure Entered (pc pc' : Pc) (effects : List Effect) (now : ℕ) : Prop where
  log : ∃ routine marked, pc'.log = routine ++ marked ++ pc.log ∧
    marked.map Entry.effect = effects ∧ (∀ e ∈ routine, e.effect.Routine) ∧
      ∀ e ∈ routine ++ marked, e.time = now
  exchange : effects.flatMap Effect.acceptedIds ++ pc.pendingIds =
    pc'.pendingIds ++ effects.flatMap Effect.countedIds

theorem map_effect (effects : List Effect) (time delay : ℕ) :
    (effects.map fun effect => (⟨time, delay, effect⟩ : Entry)).map Entry.effect = effects := by
  simp [Function.comp_def]

theorem entered_of_flight_eq (h : pc'.flight = pc.flight) : Entered pc pc' [] now := by
  refine ⟨⟨[], [], ?_, rfl, nofun, nofun⟩, ?_⟩
  · rw [Pc.log, Pc.log, h]
    rfl
  · rw [Pc.pendingIds, Pc.pendingIds, h]
    simp

theorem entered_of_step (h : step client query pc reply = some pc') (hat : reply.At now) :
    Entered pc pc' (pc.marks reply) now := by
  cases steps_of_step h with
  | lastRefresh =>
    refine entered_of_flight_eq ?_
    split <;> rfl
  | refreshed | unrefreshed => exact entered_of_flight_eq rfl
  | servers => exact entered_of_flight_eq (flight_enter _ _ _)
  | @activity dedupTtlMs resolved seed now =>
    cases hat
    have hflight := @flight_register client query dedupTtlMs resolved seed now
    split at hflight
    next packet _ =>
      refine ⟨⟨[⟨now, 0, .broadcast 0⟩], [], ?_, rfl, by simp [Effect.Routine], by simp⟩, ?_⟩
      · rw [log_of_flight hflight]
        rfl
      · rw [Pc.pendingIds, Pc.pendingIds, hflight]
        rfl
    next => exact entered_of_flight_eq hflight
  | @flight flight now reply state hstep =>
    cases hat
    obtain ⟨⟨newer, hlog, hnewer⟩, hexchange⟩ := Registration.enters_of_step hstep
    let advanced := flight.state.advance now
    refine ⟨⟨newer, _, (log_of_flight (flight_leaveFlight _)).trans hlog,
      map_effect _ advanced.clock advanced.delay, fun e he => (hnewer e he).1, ?_⟩, ?_⟩
    · intro e he
      rcases List.mem_append.mp he with he | he
      · exact (hnewer e he).2
      · obtain ⟨effect, -, rfl⟩ := List.mem_map.mp he
        rfl
    · rw [Pc.pendingIds, Pc.pendingIds, flight_leaveFlight]
      exact hexchange
  | steering => exact entered_of_flight_eq (flight_steer _ _ _)

theorem Entered.collect {α : Type} {f : Effect → List α} (h : Entered pc pc' effects now)
    (hf : ∀ effect, effect.Routine → f effect = []) :
    collect f pc'.log = effects.flatMap f ++ collect f pc.log := by
  obtain ⟨routine, marked, hlog, rfl, hroutine, -⟩ := h.log
  have hnone : routine.flatMap (fun e => f e.effect) = [] :=
    List.flatMap_eq_nil_iff.mpr fun e he => hf e.effect (hroutine e he)
  rw [Ratelimitly.collect, hlog, List.flatMap_append, List.flatMap_append, hnone, List.nil_append,
    List.flatMap_map]
  rfl

theorem exists_at (reply : Reply) : ∃ now, reply.At now := by
  cases reply with
  | activity _ now | flight now _ => exact ⟨now, rfl⟩
  | _ => exact ⟨0, trivial⟩

/-- Every response that was accepted is counted once, but for one that waits for the statistics. -/
theorem collect_acceptedIds (h : (lts client query).Reachable pc) :
    collect Effect.acceptedIds pc.log = pc.pendingIds ++ collect Effect.countedIds pc.log := by
  refine h.invariant (P := fun pc => collect Effect.acceptedIds pc.log =
    pc.pendingIds ++ collect Effect.countedIds pc.log) ?_ ?_
  · rintro _ rfl
    rw [log_eq_nil flight_begin, Pc.pendingIds, flight_begin]
    rfl
  · intro pc reply pc' _ hpc hstep
    obtain ⟨now, hat⟩ := exists_at reply
    have hentered := entered_of_step hstep hat
    rw [hentered.collect (f := Effect.acceptedIds) ?_, hentered.collect (f := Effect.countedIds) ?_,
      hpc, ← List.append_assoc, hentered.exchange, List.append_assoc]
    · intro effect heffect
      cases effect with
      | counted => exact heffect.elim
      | _ => rfl
    · intro effect heffect
      cases effect with
      | accepted => exact heffect.elim
      | _ => rfl

end Request

namespace Client

variable {client : CoreClient} {s t : State} {event : Event} {i : ℕ} {slot slot' : Slot} {e : Entry}

/-- The log of the call. -/
def Slot.log (slot : Slot) : List Entry :=
  match slot.call with
  | .check _ pc => pc.log
  | .report _ _ => []

theorem log_of_check {query : Query} {pc : Request.Pc} (hcall : slot.call = .check query pc) :
    slot.log = pc.log := by rw [Slot.log, hcall]

theorem log_of_report {reports : List ServiceLatencyReport} {state : Report.State}
    (hcall : slot.call = .report reports state) : slot.log = [] := by rw [Slot.log, hcall]

/-- A call draws its instants from the client's clock. -/
theorem at_of_requestReply {channel : List ResponsePacket} {wake : Wake} {reply : Request.Reply}
    (h : s.requestReply channel wake = some reply) : reply.At s.clock := by
  cases wake with
  | received =>
    obtain ⟨packet, -, rfl⟩ := Option.map_eq_some_iff.mp h
    rfl
  | activity | applyLock | activityWrite =>
    obtain ⟨-, h⟩ := Option.ite_none_right_eq_some.mp h
    cases h
    trivial
  | socketWrite | epochChanged =>
    obtain ⟨-, h⟩ := Option.ite_none_left_eq_some.mp h
    cases h
    trivial
  | _ =>
    cases h
    trivial

/-- Where the log of a call comes from. -/
inductive LogFrom (s : State) (event : Event) (i : ℕ) (log : List Entry) : Prop
  | kept {slot : Slot} : s.slots[i]? = some slot → log = slot.log → LogFrom s event i log
  | new : s.slots[i]? = none → log = [] → LogFrom s event i log
  | woken {slot : Slot} {query : Query} {pc pc' : Request.Pc} {wake : Wake}
      {reply : Request.Reply} : event = .wake i wake → s.slots[i]? = some slot →
      slot.call = .check query pc → s.requestReply slot.channel wake = some reply →
      Request.Entered pc pc' (pc.marks reply) s.clock → log = pc'.log → LogFrom s event i log

theorem logFrom_of_step (hstep : step client s event = some t) (hslot : t.slots[i]? = some slot) :
    LogFrom s event i slot.log := by
  cases origin_of_step hstep hslot with
  | kept hold => exact .kept hold rfl
  | check query hnone => exact .new hnone (Request.log_eq_nil Request.flight_begin)
  | report reports hnone => exact .new hnone rfl
  | request hold _ hcall hevent hreply hrequest =>
    exact .woken hevent hold hcall hreply
      (Request.entered_of_step hrequest (at_of_requestReply hreply)) rfl
  | reporting hold hcall => exact .kept hold (log_of_report hcall).symm
  | drop hold => exact .kept hold rfl
  | deliver hold => exact .kept hold rfl

/-- A log only grows. -/
theorem log_suffix_of_step (hstep : step client s event = some t) (hslot : s.slots[i]? = some slot) :
    ∃ slot', t.slots[i]? = some slot' ∧ slot.log <:+ slot'.log := by
  have hlt : i < t.slots.length :=
    (List.getElem?_eq_some_iff.mp hslot).1.trans_le (length_slots_of_step hstep)
  refine ⟨t.slots[i], List.getElem?_eq_getElem hlt, ?_⟩
  cases logFrom_of_step hstep (List.getElem?_eq_getElem hlt) with
  | kept hold hlog =>
    cases hslot.symm.trans hold
    exact hlog ▸ List.suffix_rfl
  | new hnone =>
    rw [hslot] at hnone
    cases hnone
  | woken _ hold hcall _ hentered hlog =>
    cases hslot.symm.trans hold
    obtain ⟨routine, marked, hpc, -⟩ := hentered.log
    rw [hlog, hpc, log_of_check hcall]
    exact List.suffix_append _ _

/-- No entry is of a later time than the client's clock. -/
theorem times_reachable (h : (lts client).Reachable s) :
    ∀ slot ∈ s.slots, ∀ e ∈ slot.log, e.time ≤ s.clock := by
  refine h.invariant (P := fun s => ∀ slot ∈ s.slots, ∀ e ∈ slot.log, e.time ≤ s.clock) ?_ ?_
  · rintro s ⟨bindUdp, now, hnew⟩ slot hslot
    obtain ⟨socket, -, -, -, rfl⟩ := new_eq_ok_iff.mp hnew
    cases hslot
  · intro s event t _ hs hstep slot hslot e he
    obtain ⟨i, hi⟩ := List.mem_iff_getElem?.mp hslot
    have hclock : s.clock ≤ t.clock := by
      rcases clock_of_step hstep with heq | ⟨now, -, hle⟩
      · exact heq.ge
      · exact hle
    cases logFrom_of_step hstep hi with
    | kept hold hlog =>
      rw [hlog] at he
      exact (hs _ (List.mem_of_getElem? hold) e he).trans hclock
    | new _ hlog =>
      rw [hlog] at he
      cases he
    | woken _ hold hcall _ hentered hlog =>
      obtain ⟨routine, marked, hpc, -, -, htime⟩ := hentered.log
      rw [hlog, hpc, ← log_of_check hcall] at he
      rcases List.mem_append.mp he with he | he
      · exact (htime e he).le.trans hclock
      · exact (hs _ (List.mem_of_getElem? hold) e he).trans hclock

end Client

end Ratelimitly
