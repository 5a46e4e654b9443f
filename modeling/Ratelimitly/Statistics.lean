import Mathlib.Tactic
import Ratelimitly.Broadcast
import Ratelimitly.Deliveries

/-! The server statistics over a whole run of the client. -/
namespace Ratelimitly

open Lib Rounds

/-- The statistics part of `accept_policy_response`, once it has the lock. -/
def recordResponse (now : ℕ) (serverId : UInt64) (stats : StatsMap) : StatsMap :=
  let entry := (stats serverId).getD (.new now)
  Function.update stats serverId
    (some { entry with lastSeen := now, validResponses := entry.validResponses + 1 })

/-- The datagram is a response of this server, by its header. -/
def ResponsePacket.names (id : UInt64) (packet : ResponsePacket) : Bool :=
  match peekServerId packet.data with
  | .ok serverId => serverId = id
  | _ => false

namespace Client

/-- A client with its `server_stats`. `drawn i` is the `now` of `record_send_failures` for the
report `i`, read when the last send returns; `reported` is history: the servers that reports have
charged. -/
structure Ledger where
  state : State
  stats : StatsMap
  drawn : ℕ → ℕ
  reported : List UInt64

namespace Ledger

/-- The client and its statistics after call `i` was woken. -/
def woken (l : Ledger) (i : ℕ) (slot : Slot) (wake : Wake) (state : State) : Ledger :=
  match slot.call, wake with
  | .check _ (.flying flight), .stats =>
    match flight.state.pc with
    | .recordFailures _ now serverIds =>
      { l with state, stats := recordSendFailures now serverIds l.stats }
    | .accepting _ _ result =>
      { l with state, stats := recordResponse l.state.clock result.serverId l.stats }
    | _ => { l with state }
  | .report _ _, .sent _ => { l with state, drawn := Function.update l.drawn i l.state.clock }
  | .report _ report, .stats =>
    match report.pc with
    | .recordFailures serverIds =>
      { l with
        state
        stats := recordSendFailures (l.drawn i) serverIds l.stats
        reported := l.reported ++ serverIds }
    | _ => { l with state }
  | _, _ => { l with state }

def step (client : CoreClient) (l : Ledger) (event : Event) : Option Ledger :=
  (Client.step client l.state event).map fun state =>
    match event with
    | .wake i wake =>
      match l.state.slots[i]? with
      | some slot => l.woken i slot wake state
      | none => { l with state }
    | _ => { l with state }

end Ledger

def ledger (client : CoreClient) : Lts Ledger Event where
  init l := (lts client).init l.state ∧ l.stats = (fun _ => none) ∧ l.reported = []
  step l event l' := Ledger.step client l event = some l'

variable {client : CoreClient} {s t : State} {l l' : Ledger} {event : Event} {i : ℕ} {slot : Slot}
  {id : UInt64}

/-! ### Tallies over all calls -/

/-- How often the effects of all calls name a server. -/
def State.tally (f : Effect → List UInt64) (id : UInt64) (s : State) : ℕ :=
  (s.slots.map fun slot => (collect f slot.log).count id).sum

theorem tally_set {f : Effect → List UInt64} {slot' : Slot} (new : List UInt64)
    (hslot : s.slots[i]? = some slot) (hslots : t.slots = s.slots.set i slot')
    (hlog : collect f slot'.log = new ++ collect f slot.log) :
    t.tally f id = s.tally f id + new.count id := by
  have hsum := sum_map_set (fun slot => (collect f slot.log).count id) hslot slot'
  rw [hlog, List.count_append] at hsum
  rw [State.tally, State.tally, hslots]
  omega

theorem tally_append {f : Effect → List UInt64} {slot' : Slot}
    (hslots : t.slots = s.slots ++ [slot']) (hlog : slot'.log = []) :
    t.tally f id = s.tally f id := by
  simp [State.tally, hslots, hlog, collect]

/-- Some response of the server was counted at this time. -/
def State.SeenAt (s : State) (id : UInt64) (time : ℕ) : Prop :=
  ∃ slot ∈ s.slots, ∃ e ∈ slot.log, e.effect = .counted id ∧ e.time = time

namespace Ledger

/-- How many responses of the server were counted. -/
def counted (l : Ledger) (id : UInt64) : ℕ := l.state.tally Effect.countedIds id

/-- How many failed sends were charged to the server. -/
def charged (l : Ledger) (id : UInt64) : ℕ :=
  l.state.tally Effect.chargedIds id + l.reported.count id

end Ledger

/-! ### What a wake-up does to the statistics -/

theorem seenAt_step (hstep : step client s event = some t) {time : ℕ} (h : s.SeenAt id time) :
    t.SeenAt id time := by
  obtain ⟨slot, hslot, e, he, heffect, htime⟩ := h
  obtain ⟨i, hi⟩ := List.mem_iff_getElem?.mp hslot
  obtain ⟨slot', hslot', hsuffix⟩ := log_suffix_of_step hstep hi
  exact ⟨slot', List.mem_of_getElem? hslot', e, hsuffix.subset he, heffect, htime⟩

/-- A response is counted by the call that was woken, and now. -/
theorem seenAt_of_step (hstep : step client s event = some t) {time : ℕ} (h : t.SeenAt id time) :
    s.SeenAt id time ∨ time = s.clock ∧ ∃ i slot query pc wake reply, event = .wake i wake ∧
      s.slots[i]? = some slot ∧ slot.call = .check query pc ∧
      s.requestReply slot.channel wake = some reply ∧ .counted id ∈ pc.marks reply := by
  obtain ⟨slot, hslot, e, he, heffect, htime⟩ := h
  obtain ⟨i, hi⟩ := List.mem_iff_getElem?.mp hslot
  cases logFrom_of_step hstep hi with
  | kept hold hlog => exact .inl ⟨_, List.mem_of_getElem? hold, e, hlog ▸ he, heffect, htime⟩
  | new _ hlog =>
    rw [hlog] at he
    cases he
  | @woken old query pc pc' wake reply hevent hold hcall hreply hentered hlog =>
    obtain ⟨routine, marked, hpc, hmarks, hroutine, htimes⟩ := hentered.log
    rw [hlog, hpc] at he
    rcases List.mem_append.mp he with hnew | hlogged
    · right
      refine ⟨htime.symm.trans (htimes e hnew), i, old, query, pc, wake, reply, hevent, hold, hcall,
        hreply, ?_⟩
      rcases List.mem_append.mp hnew with hrest | hmark
      · have hr := hroutine e hrest
        rw [heffect] at hr
        exact hr.elim
      · rw [← hmarks, ← heffect]
        exact List.mem_map_of_mem hmark
    · rw [← log_of_check hcall] at hlogged
      exact .inl ⟨old, List.mem_of_getElem? hold, e, hlogged, heffect, htime⟩

/-- What a wake-up of a call stands for in the statistics. -/
inductive Post
  | nothing
  | response (serverId : UInt64)
  | failures (now : ℕ) (serverIds : List UInt64)

namespace Post

def countedIds : Post → List UInt64
  | .response serverId => [serverId]
  | _ => []

def chargedIds : Post → List UInt64
  | .failures _ serverIds => serverIds
  | _ => []

def stats (now : ℕ) (stats : StatsMap) : Post → StatsMap
  | .nothing => stats
  | .response serverId => recordResponse now serverId stats
  | .failures now serverIds => recordSendFailures now serverIds stats

end Post

theorem marks_of_not_stats (pc : Request.Pc) {reply : Request.Reply}
    (h : ∀ now, reply ≠ .flight now .stats) : (pc.marks reply).flatMap Effect.countedIds = [] ∧
      (pc.marks reply).flatMap Effect.chargedIds = [] := by
  unfold Request.Pc.marks
  split
  next flight now reply =>
    unfold Registration.marks
    split
    · exact absurd rfl (h now)
    · exact absurd rfl (h now)
    next packet _ =>
      cases flight.reg.acceptedResult packet with
      | none => exact ⟨rfl, rfl⟩
      | some result => exact ⟨rfl, rfl⟩
    · exact ⟨rfl, rfl⟩
  next => exact ⟨rfl, rfl⟩

theorem stats_of_requestReply {wake : Wake} {reply : Request.Reply} {channel : List ResponsePacket}
    (h : s.requestReply channel wake = some reply) :
    wake = .stats ∧ reply = .flight s.clock .stats ∨
      wake ≠ .stats ∧ ∀ now, reply ≠ .flight now .stats := by
  cases wake with
  | stats => exact .inl ⟨rfl, (Option.some.inj h).symm⟩
  | received =>
    obtain ⟨packet, -, rfl⟩ := Option.map_eq_some_iff.mp h
    simp
  | activity | applyLock | activityWrite =>
    obtain ⟨-, h⟩ := Option.ite_none_right_eq_some.mp h
    cases h
    simp
  | socketWrite | epochChanged =>
    obtain ⟨-, h⟩ := Option.ite_none_left_eq_some.mp h
    cases h
    simp
  | _ =>
    cases h
    simp

/-- A wake-up enters in the log of a call what it does to the statistics. -/
theorem exists_post {query : Query} {pc : Request.Pc} {wake : Wake} {reply : Request.Reply}
    (hcall : slot.call = .check query pc)
    (hreply : l.state.requestReply slot.channel wake = some reply)
    (i : ℕ) (state : State) : ∃ post : Post,
      l.woken i slot wake state = { l with state, stats := post.stats l.state.clock l.stats } ∧
        (pc.marks reply).flatMap Effect.countedIds = post.countedIds ∧
        (pc.marks reply).flatMap Effect.chargedIds = post.chargedIds := by
  unfold Ledger.woken
  rw [hcall]
  rcases stats_of_requestReply hreply with ⟨rfl, rfl⟩ | ⟨hwake, hother⟩
  · cases pc with
    | flying flight =>
      rw [Request.Pc.marks]
      dsimp only
      cases flight.state.pc with
      | recordFailures delivery now serverIds =>
        exact ⟨.failures now serverIds, rfl, rfl, List.append_nil _⟩
      | accepting window deadline result => exact ⟨.response result.serverId, rfl, rfl, rfl⟩
      | _ => exact ⟨.nothing, rfl, rfl, rfl⟩
    | _ => exact ⟨.nothing, rfl, rfl, rfl⟩
  · obtain ⟨hcounted, hcharged⟩ := marks_of_not_stats pc hother
    refine ⟨.nothing, ?_, hcounted, hcharged⟩
    cases wake with
    | stats => exact absurd rfl hwake
    | _ => cases pc <;> rfl

/-! ### Steps -/

/-- The clients' states before and after a step, and what it posts. -/
structure Posts (l l' : Ledger) (post : Post) : Prop where
  stats : l'.stats = post.stats l.state.clock l.stats
  counted : ∀ id, l'.counted id = l.counted id + post.countedIds.count id
  charged : ∀ id, l'.charged id = l.charged id + post.chargedIds.count id
  seen : ∀ id time, l'.state.SeenAt id time →
    l.state.SeenAt id time ∨ time = l.state.clock ∧ id ∈ post.countedIds
  counts : ∀ id ∈ post.countedIds, l'.state.SeenAt id l.state.clock

theorem posts_nothing (hstats : l'.stats = l.stats) (hreported : l'.reported = l.reported)
    (htally : ∀ f id, l'.state.tally f id = l.state.tally f id)
    (hseen : ∀ id time, l'.state.SeenAt id time → l.state.SeenAt id time) :
    Posts l l' .nothing where
  stats := hstats
  counted id := htally _ id
  charged id := by
    rw [Ledger.charged, htally, hreported]
    rfl
  seen id time h := .inl (hseen id time h)
  counts := nofun

theorem tally_of_log_eq {f : Effect → List UInt64} (slot' : Slot) (hslot : s.slots[i]? = some slot)
    (hslots : t.slots = s.slots.set i slot') (hlog : slot'.log = slot.log) :
    t.tally f id = s.tally f id :=
  tally_set [] hslot hslots (by rw [hlog]; rfl)

theorem tally_deliver {f : Effect → List UInt64} {packet : ResponsePacket}
    (hslots : t.slots = s.deliver i packet) : t.tally f id = s.tally f id := by
  unfold State.deliver at hslots
  split at hslots
  next slot hslot => exact tally_of_log_eq _ hslot hslots rfl
  next => rw [State.tally, hslots, State.tally]

theorem ledger_step (h : Ledger.step client l event = some l') :
    Client.step client l.state event = some l'.state := by
  obtain ⟨state, hstate, rfl⟩ := Option.map_eq_some_iff.mp h
  rw [hstate, Option.some_inj]
  cases event with
  | wake i wake =>
    dsimp only
    split
    · unfold Ledger.woken
      split
      · split <;> rfl
      · rfl
      · split <;> rfl
      · rfl
    · rfl
  | _ => rfl

theorem seenAt_of_other (hstep : Client.step client s event = some t)
    (hother : ∀ i wake slot query pc, event = .wake i wake → s.slots[i]? = some slot →
      slot.call ≠ .check query pc) (id : UInt64) (time : ℕ) (h : t.SeenAt id time) :
    s.SeenAt id time := by
  refine (seenAt_of_step hstep h).resolve_right ?_
  rintro ⟨-, i, slot, query, pc, wake, reply, hevent, hslot, hcall, -⟩
  exact hother i wake slot query pc hevent hslot hcall

/-- Only a wake-up touches the statistics. -/
theorem posts_of_asleep (hstep : Client.step client l.state event = some t)
    (hevent : ∀ i wake, event ≠ .wake i wake) : Posts l { l with state := t } .nothing := by
  refine posts_nothing rfl rfl (fun f id => ?_)
    (seenAt_of_other hstep fun i wake _ _ _ heq => absurd heq (hevent i wake))
  cases moves_of_step hstep with
  | check => exact tally_append rfl (Request.log_eq_nil Request.flight_begin)
  | report => exact tally_append rfl rfl
  | deliver => exact tally_deliver rfl
  | @drop i slot hslot =>
    exact tally_of_log_eq (t := l.state.dropCall i slot) _ hslot rfl rfl
  | request | reporting => exact absurd rfl (hevent _ _)
  | _ => rfl

theorem mem_of_countedIds {effects : List Effect} (h : id ∈ effects.flatMap Effect.countedIds) :
    .counted id ∈ effects := by
  obtain ⟨effect, heffect, hid⟩ := List.mem_flatMap.mp h
  cases effect with
  | counted serverId => exact List.mem_singleton.mp hid ▸ heffect
  | _ => cases hid

theorem posts_of_request {query : Query} {pc pc' : Request.Pc} {wake : Wake}
    {reply : Request.Reply} (hstep : Client.step client l.state (.wake i wake) =
      some (l.state.move client i slot query pc pc' wake reply))
    (hslot : l.state.slots[i]? = some slot) (hcall : slot.call = .check query pc)
    (hreply : l.state.requestReply slot.channel wake = some reply)
    (hrequest : Request.step client query pc reply = some pc') :
    ∃ post, Posts l (l.woken i slot wake (l.state.move client i slot query pc pc' wake reply))
      post := by
  obtain ⟨post, hwoken, hcounted, hcharged⟩ :=
    exists_post hcall hreply i (l.state.move client i slot query pc pc' wake reply)
  have hentered := Request.entered_of_step hrequest (at_of_requestReply hreply)
  have hlog (f : Effect → List UInt64) (hf : ∀ effect, effect.Routine → f effect = [])
      (id : UInt64) :
      (l.state.move client i slot query pc pc' wake reply).tally f id =
        l.state.tally f id + ((pc.marks reply).flatMap f).count id := by
    refine tally_set _ hslot slots_move_unread ?_
    rw [log_of_check hcall]
    exact hentered.collect hf
  rw [hwoken]
  refine ⟨post, rfl, fun id => ?_, fun id => ?_, fun id time h => ?_, fun id hid => ?_⟩
  · rw [← hcounted]
    refine hlog Effect.countedIds (fun effect heffect => ?_) id
    cases effect with
    | counted => exact heffect.elim
    | _ => rfl
  · rw [← hcharged, Ledger.charged, Ledger.charged]
    dsimp only
    rw [hlog Effect.chargedIds ?_ id, Nat.add_right_comm]
    intro effect heffect
    cases effect with
    | sendFailures => exact heffect.elim
    | _ => rfl
  · refine (seenAt_of_step hstep h).imp_right ?_
    rintro ⟨htime, i', slot', query', pc₀, wake', reply', hevent, hslot', hcall', hreply', hmark⟩
    cases hevent
    cases hslot.symm.trans hslot'
    cases hcall.symm.trans hcall'
    cases hreply.symm.trans hreply'
    rw [← hcounted]
    exact ⟨htime, List.mem_flatMap_of_mem hmark (List.mem_singleton.mpr rfl)⟩
  · rw [← hcounted] at hid
    obtain ⟨routine, marked, hpc, hmarks, -, htimes⟩ := hentered.log
    have hmark := mem_of_countedIds hid
    rw [← hmarks] at hmark
    obtain ⟨e, he, heffect⟩ := List.mem_map.mp hmark
    refine ⟨{ slot with call := .check query pc', channel := slot.unread wake }, ?_, e, ?_, heffect,
      htimes e (List.mem_append_right _ he)⟩
    · rw [slots_move_unread]
      exact List.mem_set (List.getElem?_eq_some_iff.mp hslot).1 _
    · show e ∈ pc'.log
      rw [hpc]
      exact List.mem_append_left _ (List.mem_append_right _ he)

theorem posts_of_reporting {reports : List ServiceLatencyReport} {report : Report.State}
    {wake : Wake} (hcall : slot.call = .report reports report)
    (htally : ∀ f id, t.tally f id = l.state.tally f id)
    (hseen : ∀ id time, t.SeenAt id time → l.state.SeenAt id time) :
    ∃ post, Posts l (l.woken i slot wake t) post := by
  unfold Ledger.woken
  rw [hcall]
  cases wake with
  | stats =>
    dsimp only
    split
    next serverIds _ =>
      refine ⟨.failures (l.drawn i) serverIds, rfl, fun id => htally _ id, fun id => ?_,
        fun id time h => .inl (hseen id time h), nofun⟩
      rw [Ledger.charged, Ledger.charged]
      dsimp only
      rw [htally, List.count_append, Nat.add_assoc]
      rfl
    next => exact ⟨.nothing, posts_nothing rfl rfl htally hseen⟩
  | _ => exact ⟨.nothing, posts_nothing rfl rfl htally hseen⟩

/-- Every step posts once at most. -/
theorem posts_of_step (h : Ledger.step client l event = some l') : ∃ post, Posts l l' post := by
  obtain ⟨state, hstep, hl⟩ := Option.map_eq_some_iff.mp h
  cases event with
  | wake i wake =>
    cases moves_of_step hstep with
    | request hslot _ hcall hreply hrequest =>
      dsimp only at hl
      rw [hslot] at hl
      exact hl ▸ posts_of_request hstep hslot hcall hreply hrequest
    | @reporting _ slot reports report _ _ report' hslot _ hcall =>
      dsimp only at hl
      rw [hslot] at hl
      refine hl ▸ posts_of_reporting hcall (fun f id => ?_)
        (seenAt_of_other hstep fun i' wake' slot' _ _ hevent hslot' => ?_)
      · refine tally_of_log_eq { slot with call := .report reports report' } hslot rfl ?_
        exact (log_of_report hcall).symm
      · cases hevent
        cases hslot.symm.trans hslot'
        simp [hcall]
  | _ => exact ⟨.nothing, hl ▸ posts_of_asleep hstep nofun⟩

/-! ### What the statistics say -/

theorem stats_of_not_mem {post : Post} {now : ℕ} {stats : StatsMap}
    (hcounted : id ∉ post.countedIds)
    (hcharged : id ∉ post.chargedIds) : post.stats now stats id = stats id := by
  cases post with
  | nothing => rfl
  | response serverId =>
    rw [Post.stats, recordResponse,
      Function.update_of_ne (by simpa [Post.countedIds] using hcounted)]
  | failures now serverIds =>
    exact (Broadcast.recordSendFailures_apply serverIds stats id).trans (if_neg hcharged)

/-- The record after a post that names the server. -/
theorem stats_of_mem {post : Post} (now : ℕ) (stats : StatsMap)
    (h : id ∈ post.countedIds ∨ id ∈ post.chargedIds) : ∃ record,
      post.stats now stats id = some record ∧
        record.validResponses = ((stats id).getD (.new 0)).validResponses +
          UInt64.ofNat (post.countedIds.count id) ∧
        record.sendFailures = ((stats id).getD (.new 0)).sendFailures +
          UInt64.ofNat (post.chargedIds.count id) ∧
        (id ∈ post.countedIds → record.lastSeen = now) ∧
        (id ∉ post.countedIds → ∀ old, stats id = some old → record.lastSeen = old.lastSeen) := by
  cases post with
  | nothing => simp [Post.countedIds, Post.chargedIds] at h
  | response serverId =>
    obtain rfl : id = serverId := by simpa [Post.countedIds, Post.chargedIds] using h
    refine ⟨_, Function.update_self _ _ _, ?_, ?_, fun _ => rfl, fun hnot => ?_⟩
    · cases stats id <;> simp [Post.countedIds, ServerStats.new]
    · cases stats id <;> simp [Post.chargedIds, ServerStats.new]
    · exact absurd (List.mem_singleton.mpr rfl) hnot
  | failures drawn serverIds =>
    have hmem : id ∈ serverIds := by simpa [Post.countedIds, Post.chargedIds] using h
    refine ⟨_, (Broadcast.recordSendFailures_apply serverIds stats id).trans (if_pos hmem), ?_, ?_,
      nofun, fun _ old hold => ?_⟩
    · cases stats id <;> simp [Post.countedIds, ServerStats.new]
    · cases stats id <;> simp [Post.chargedIds, ServerStats.new]
    · rw [hold]
      rfl

/-- The statistics agree with the logs of all calls and with what reports have charged. -/
structure Exact (l : Ledger) : Prop where
  none_iff : ∀ id, l.stats id = none ↔ l.counted id = 0 ∧ l.charged id = 0
  validResponses : ∀ id record, l.stats id = some record →
    record.validResponses = UInt64.ofNat (l.counted id)
  sendFailures : ∀ id record, l.stats id = some record →
    record.sendFailures = UInt64.ofNat (l.charged id)
  lastSeen : ∀ id record, l.stats id = some record → 0 < l.counted id →
    IsGreatest { time | l.state.SeenAt id time } record.lastSeen

theorem Exact.getD (h : Exact l) (id : UInt64) :
    ((l.stats id).getD (.new 0)).validResponses = UInt64.ofNat (l.counted id) ∧
      ((l.stats id).getD (.new 0)).sendFailures = UInt64.ofNat (l.charged id) := by
  cases hstats : l.stats id with
  | none =>
    obtain ⟨hcounted, hcharged⟩ := (h.none_iff id).mp hstats
    rw [hcounted, hcharged]
    exact ⟨rfl, rfl⟩
  | some record => exact ⟨h.validResponses id record hstats, h.sendFailures id record hstats⟩

theorem lastSeen_of_posts {post : Post} (h : Exact l) (hposts : Posts l l' post)
    (hstep : Client.step client l.state event = some l'.state)
    (htimes : ∀ slot ∈ l.state.slots, ∀ e ∈ slot.log, e.time ≤ l.state.clock) {record : ServerStats}
    (hrecord : l'.stats id = some record) (hpos : 0 < l'.counted id) :
    IsGreatest { time | l'.state.SeenAt id time } record.lastSeen := by
  rw [hposts.stats] at hrecord
  by_cases hmem : id ∈ post.countedIds
  · obtain ⟨record', hrecord', -, -, hnow, -⟩ :=
      stats_of_mem l.state.clock l.stats (.inl hmem)
    cases hrecord.symm.trans hrecord'
    rw [hnow hmem]
    refine ⟨hposts.counts id hmem, fun time htime => ?_⟩
    rcases hposts.seen id time htime with ⟨slot, hslot, e, he, -, rfl⟩ | ⟨rfl, -⟩
    · exact htimes slot hslot e he
    · exact le_rfl
  · rw [hposts.counted, List.count_eq_zero_of_not_mem hmem, Nat.add_zero] at hpos
    obtain ⟨old, hold⟩ : ∃ old, l.stats id = some old :=
      Option.ne_none_iff_exists'.mp fun hnone => by
        rw [((h.none_iff id).mp hnone).1] at hpos
        exact Nat.lt_irrefl 0 hpos
    have hsame : record.lastSeen = old.lastSeen := by
      by_cases hcharged : id ∈ post.chargedIds
      · obtain ⟨record', hrecord', -, -, -, hkept⟩ :=
          stats_of_mem l.state.clock l.stats (.inr hcharged)
        cases hrecord.symm.trans hrecord'
        exact hkept hmem old hold
      · rw [stats_of_not_mem hmem hcharged, hold] at hrecord
        rw [Option.some.inj hrecord]
    obtain ⟨hseen, hgreatest⟩ := h.lastSeen id old hold hpos
    rw [hsame]
    refine ⟨seenAt_step hstep hseen, fun time htime => hgreatest ?_⟩
    exact (hposts.seen id time htime).resolve_right fun hnew => hmem hnew.2

theorem exact_of_posts {post : Post} (h : Exact l) (hposts : Posts l l' post)
    (hstep : Client.step client l.state event = some l'.state)
    (htimes : ∀ slot ∈ l.state.slots, ∀ e ∈ slot.log, e.time ≤ l.state.clock) : Exact l' := by
  have hkept (id : UInt64) (hmem : ¬ (id ∈ post.countedIds ∨ id ∈ post.chargedIds)) :
      l'.stats id = l.stats id ∧ l'.counted id = l.counted id ∧ l'.charged id = l.charged id := by
    obtain ⟨hcounted, hcharged⟩ := not_or.mp hmem
    rw [hposts.stats, stats_of_not_mem hcounted hcharged, hposts.counted, hposts.charged,
      List.count_eq_zero_of_not_mem hcounted, List.count_eq_zero_of_not_mem hcharged]
    exact ⟨rfl, rfl, rfl⟩
  have hposted (id : UInt64) (hmem : id ∈ post.countedIds ∨ id ∈ post.chargedIds) :
      ∃ record, l'.stats id = some record ∧
        record.validResponses = UInt64.ofNat (l'.counted id) ∧
        record.sendFailures = UInt64.ofNat (l'.charged id) := by
    obtain ⟨record, hrecord, hvalid, hfailures, -⟩ :=
      stats_of_mem l.state.clock l.stats hmem
    obtain ⟨hcounted, hcharged⟩ := h.getD id
    refine ⟨record, hposts.stats ▸ hrecord, ?_, ?_⟩
    · rw [hvalid, hcounted, hposts.counted, UInt64.ofNat_add]
    · rw [hfailures, hcharged, hposts.charged, UInt64.ofNat_add]
  refine ⟨fun id => ?_, fun id record hrecord => ?_, fun id record hrecord => ?_,
    fun id record hrecord hpos => lastSeen_of_posts h hposts hstep htimes hrecord hpos⟩
  · by_cases hmem : id ∈ post.countedIds ∨ id ∈ post.chargedIds
    · obtain ⟨record, hrecord, -⟩ := hposted id hmem
      rw [hrecord, hposts.counted, hposts.charged]
      refine iff_of_false nofun fun hzero => ?_
      rcases hmem with hmem | hmem
      · have hcount := List.count_pos_iff.mpr hmem
        omega
      · have hcount := List.count_pos_iff.mpr hmem
        omega
    · obtain ⟨hstats, hcounted, hcharged⟩ := hkept id hmem
      rw [hstats, hcounted, hcharged, h.none_iff]
  · by_cases hmem : id ∈ post.countedIds ∨ id ∈ post.chargedIds
    · obtain ⟨record', hrecord', hvalid, -⟩ := hposted id hmem
      cases hrecord.symm.trans hrecord'
      exact hvalid
    · obtain ⟨hstats, hcounted, -⟩ := hkept id hmem
      rw [hcounted]
      exact h.validResponses id record (hstats ▸ hrecord)
  · by_cases hmem : id ∈ post.countedIds ∨ id ∈ post.chargedIds
    · obtain ⟨record', hrecord', -, hfailures⟩ := hposted id hmem
      cases hrecord.symm.trans hrecord'
      exact hfailures
    · obtain ⟨hstats, -, hcharged⟩ := hkept id hmem
      rw [hcharged]
      exact h.sendFailures id record (hstats ▸ hrecord)

theorem reachable_of_ledger (h : (ledger client).Reachable l) : (lts client).Reachable l.state := by
  refine h.invariant (P := fun l => (lts client).Reachable l.state) (fun l hl => .init hl.1) ?_
  intro l event l' _ hl hstep
  exact hl.step (ledger_step hstep)

theorem exact_reachable (h : (ledger client).Reachable l) : Exact l := by
  refine h.invariant ?_ ?_
  · rintro l ⟨⟨bindUdp, now, hnew⟩, hstats, hreported⟩
    obtain ⟨socket, -, -, -, hstate⟩ := new_eq_ok_iff.mp hnew
    have hnone (id : UInt64) : l.stats id = none := by rw [hstats]
    refine ⟨fun id => iff_of_true (hnone id) ?_, ?_, ?_, ?_⟩
    · rw [Ledger.counted, Ledger.charged, hreported, State.tally, State.tally, hstate]
      exact ⟨rfl, rfl⟩
    all_goals simp [hnone]
  · intro l event l' hreachable hl hstep
    obtain ⟨post, hposts⟩ := posts_of_step hstep
    exact exact_of_posts hl hposts (ledger_step hstep)
      (times_reachable (reachable_of_ledger hreachable))

/-! ### Responses and datagrams -/

theorem names_of_acceptedResult {reg : Registration} {packet : ResponsePacket}
    {result : RateLimitResult} (h : reg.acceptedResult packet = some result) (id : UInt64) :
    packet.names id = decide (result.serverId = id) := by
  obtain ⟨-, header, pos, hheader, hid, -⟩ := Registration.acceptedResult_spec h
  rw [ResponsePacket.names, peekServerId_of_header hheader, hid]

/-- The server of an accepted response is the one its datagram names. -/
theorem count_acceptedIds {reg : Registration} {log : List Entry}
    (h : ∀ e ∈ log, ∀ packet result, e.effect = .accepted packet result →
      reg.acceptedResult packet = some result) (id : UInt64) :
    (collect Effect.acceptedIds log).count id = (acceptedPackets log).countP (·.names id) := by
  rw [acceptedPackets, List.countP_reverse]
  induction log with
  | nil => rfl
  | cons e older ih =>
    have hold := ih fun e' he' => h e' (List.mem_cons_of_mem _ he')
    rw [collect, collect, List.flatMap_cons, List.flatMap_cons, List.count_append,
      List.countP_append]
    refine congrArg₂ (· + ·) ?_ hold
    cases heffect : e.effect with
    | accepted packet result =>
      have hnames := names_of_acceptedResult (h e List.mem_cons_self packet result heffect) id
      simp [Effect.acceptedIds, Effect.packets, List.count_singleton, List.countP_singleton, hnames]
    | _ => rfl

/-- The servers whose responses the call has accepted but not counted. -/
def Slot.pendingIds (slot : Slot) : List UInt64 :=
  match slot.call with
  | .check _ pc => pc.pendingIds
  | .report _ _ => []

theorem acceptedIds_of_slot (h : (lts client).Reachable s) (hslot : s.slots[i]? = some slot) :
    collect Effect.acceptedIds slot.log =
      slot.pendingIds ++ collect Effect.countedIds slot.log := by
  have hreachable := calls_reachable h i slot hslot
  cases hcall : slot.call with
  | check query pc =>
    rw [hcall] at hreachable
    rw [log_of_check hcall, Slot.pendingIds, hcall]
    exact Request.collect_acceptedIds hreachable
  | report reports state =>
    rw [log_of_report hcall, Slot.pendingIds, hcall]
    rfl

theorem count_intake_of_slot (h : (lts client).Reachable s) (hslot : s.slots[i]? = some slot)
    (id : UInt64) :
    (collect Effect.countedIds slot.log).count id ≤ slot.intake.countP (·.names id) := by
  have haccepted := congrArg (List.count id) (acceptedIds_of_slot h hslot)
  rw [List.count_append] at haccepted
  have hpackets : (collect Effect.acceptedIds slot.log).count id =
      (acceptedPackets slot.log).countP (·.names id) := by
    have hcall := calls_reachable h i slot hslot
    unfold Slot.log
    split
    next query pc heq =>
      rw [heq] at hcall
      cases hflight : pc.flight with
      | none =>
        rw [Request.log_eq_nil hflight]
        rfl
      | some flight =>
        rw [Request.log_of_flight hflight]
        have hbooked := Registration.booked_reachable (Request.sound_flight hcall hflight).reachable
        refine @count_acceptedIds flight.reg _ (fun e he packet result heffect => ?_) id
        obtain ⟨older, -, hpermitted⟩ := hbooked.books.permitted.of_mem he
        rw [Registration.Permitted, heffect] at hpermitted
        exact hpermitted
    next => rfl
  rw [Slot.intake, List.countP_append]
  omega

theorem counted_le (h : (lts client).Reachable s) (id : UInt64) :
    s.tally Effect.countedIds id ≤ s.received.countP (·.names id) := by
  refine le_trans ?_ (kept_reachable h (·.names id))
  refine Nat.le_add_right_of_le (List.sum_le_sum fun slot hslot => ?_)
  obtain ⟨i, hi⟩ := List.mem_iff_getElem?.mp hslot
  exact count_intake_of_slot h hi id

/-- Over any run of the client, with any interleaving of its calls and whether they return or are
dropped: a server's record says how many of its responses were counted, how many failed sends were
charged to it, and when the last of its responses was counted. Each call counts every response that
it accepts, but for one on its way; and no more are counted than datagrams of the server were
received. -/
theorem stats_exact (h : (ledger client).Reachable l) :
    (∀ id, (l.stats id = none ↔ l.counted id = 0 ∧ l.charged id = 0) ∧
      ∀ record, l.stats id = some record →
        record.validResponses = UInt64.ofNat (l.counted id) ∧
        record.sendFailures = UInt64.ofNat (l.charged id) ∧
        (0 < l.counted id → IsGreatest { time | l.state.SeenAt id time } record.lastSeen)) ∧
      (∀ slot ∈ l.state.slots, collect Effect.acceptedIds slot.log =
        slot.pendingIds ++ collect Effect.countedIds slot.log) ∧
      ∀ id, l.counted id ≤ l.state.received.countP (·.names id) := by
  have hexact := exact_reachable h
  have hreachable := reachable_of_ledger h
  refine ⟨fun id => ⟨hexact.none_iff id, fun record hrecord => ?_⟩, fun slot hslot => ?_,
    fun id => counted_le hreachable id⟩
  · exact ⟨hexact.validResponses id record hrecord, hexact.sendFailures id record hrecord,
      hexact.lastSeen id record hrecord⟩
  · obtain ⟨i, hi⟩ := List.mem_iff_getElem?.mp hslot
    exact acceptedIds_of_slot hreachable hi

def sampleLedger : Ledger := ⟨sampleState, fun _ => none, fun _ => 0, []⟩

/-- A first send that fails and a second one that does not, and then an answer. -/
def samplePartial : List Event :=
  let seed := sampleSeedOf 0
  [.check sampleQuery, .wake 0 (.lastRefresh seed), .wake 0 (.refresh sampleResolver seed),
    .wake 0 (.servers sampleResolver), .wake 0 (.activity seed), .wake 0 .socket,
    .wake 0 (.sent (.error ⟨.other, "unreachable"⟩)), .wake 0 (.sent (.ok 100)), .wake 0 .stats] ++
    sampleSelect 0 0

theorem stats_exact_sample : ∃ l, (ledger sampleClient).Reachable l ∧
    ∃ record, l.stats 1 = some record ∧
    record.validResponses = 1 ∧ record.sendFailures = 1 ∧
      IsGreatest { time | l.state.SeenAt 1 time } record.lastSeen := by
  obtain ⟨l, hl, htest⟩ := (Option.any_eq_true _ _).mp
    (show (Lts.runSteps (Ledger.step sampleClient) samplePartial sampleLedger).any (fun l =>
      (l.stats 1).isSome ∧ l.counted 1 = 1 ∧ l.charged 1 = 1) = true by decide +kernel)
  obtain ⟨hsome, hcounted, hcharged⟩ := of_decide_eq_true htest
  obtain ⟨record, hrecord⟩ := Option.isSome_iff_exists.mp hsome
  have hreachable : (ledger sampleClient).Reachable l :=
    (Lts.Run.of_runSteps (m := ledger sampleClient) (fun _ _ _ _ h => h) hl).reachable
      (.init ⟨init_sampleState, rfl, rfl⟩)
  obtain ⟨hvalid, hfailures, hseen⟩ := ((stats_exact hreachable).1 1).2 record hrecord
  rw [hcounted] at hvalid hseen
  rw [hcharged] at hfailures
  exact ⟨l, hreachable, record, hrecord, hvalid, hfailures, hseen Nat.one_pos⟩

end Client

end Ratelimitly
