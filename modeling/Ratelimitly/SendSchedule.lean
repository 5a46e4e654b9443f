import Mathlib.Tactic
import Ratelimitly.Rounds

/-! Which sends a request makes, in which order, and to whom. -/
namespace Ratelimitly

open Lib Rounds

namespace Rounds

variable {e : Entry} {log older : List Entry} {d : Delivery} {b : ℕ}

/-- The place of an effect in the order in which a request with `n` replays does things. -/
def Effect.rank (n : ℕ) : Effect → ℕ
  | .broadcast k => 2 * k
  | .attempt (.round k) _ _ | .sendFailures (.round k) _ _ => 2 * k + 1
  | .finalReceive => 2 * n + 2
  | .accepted _ _ | .counted _ => 2 * n + 3
  | .decided _ => 2 * n + 4
  | .completion => 2 * n + 5
  | .attempt (.completion _) _ _ | .sendFailures (.completion _) _ _ => 2 * n + 6

/-- The effects that happen at most once. -/
def Effect.Once : Effect → Prop
  | .broadcast _ | .finalReceive | .decided _ | .completion => True
  | _ => False

/-- `newer` may come after `older`. -/
def Follows (n : ℕ) (newer older : Entry) : Prop :=
  older.effect.rank n ≤ newer.effect.rank n ∧
    (newer.effect.Once → older.effect.rank n < newer.effect.rank n)

/-- No effect so far has a rank above `b`. -/
def Upto (n b : ℕ) (log : List Entry) : Prop := ∀ e ∈ log, e.effect.rank n ≤ b

theorem Upto.mono {n b' : ℕ} (h : Upto n b log) (hle : b ≤ b') : Upto n b' log :=
  fun e he => (h e he).trans hle

theorem Upto.cons {n b' : ℕ} (h : Upto n b log) (hle : b ≤ b') (he : e.effect.rank n ≤ b') :
    Upto n b' (e :: log) := by
  rintro e' he'
  rcases List.mem_cons.mp he' with rfl | he'
  · exact he
  · exact (h e' he').trans hle

/-- Each entry is in the relation `P` to the log before it. -/
def Each (P : Entry → List Entry → Prop) : List Entry → Prop
  | [] => True
  | e :: older => P e older ∧ Each P older

theorem Each.of_append {P : Entry → List Entry → Prop} {newer : List Entry}
    (h : Each P (newer ++ e :: older)) : P e older := by
  induction newer with
  | nil => exact h.1
  | cons _ newer ih => exact ih h.2

theorem Each.of_mem {P : Entry → List Entry → Prop} (h : Each P log) (he : e ∈ log) :
    ∃ older, (∃ newer, log = newer ++ e :: older) ∧ P e older := by
  obtain ⟨newer, older, rfl⟩ := List.append_of_mem he
  exact ⟨older, ⟨newer, rfl⟩, h.of_append⟩

/-- The targets that one delivery has attempted, in order. -/
def attempts (d : Delivery) : List Entry → List SocketAddr
  | [] => []
  | e :: older =>
    match e.effect with
    | .attempt d' _ target => if d' = d then attempts d older ++ [target] else attempts d older
    | _ => attempts d older

theorem attempts_cons_of_ne (h : ∀ socket target, e.effect ≠ .attempt d socket target) :
    attempts d (e :: older) = attempts d older := by
  rw [attempts]
  split
  next d' socket target he =>
    rw [if_neg]
    rintro rfl
    exact h socket target he
  next => rfl

theorem attempts_cons_self {time delay socket : ℕ} {target : SocketAddr} :
    attempts d (⟨time, delay, .attempt d socket target⟩ :: older) =
      attempts d older ++ [target] := by simp [attempts]

theorem attempts_eq_nil (h : ∀ e ∈ log, ∀ socket target, e.effect ≠ .attempt d socket target) :
    attempts d log = [] := by
  induction log with
  | nil => rfl
  | cons e older ih =>
    rw [attempts_cons_of_ne (h e List.mem_cons_self)]
    exact ih fun e' he' => h e' (List.mem_cons_of_mem _ he')

end Rounds

namespace Registration

variable {reg : Registration} {s t : State} {k b : ℕ}

/-- A response from server `id` has been accepted. -/
def AcceptedId (log : List Entry) (id : UInt64) : Prop :=
  ∃ e ∈ log, ∃ packet result, e.effect = .accepted packet result ∧ result.serverId = id

/-- A response from the address `addr` has been accepted. -/
def AcceptedAddr (log : List Entry) (addr : SocketAddr) : Prop :=
  ∃ e ∈ log, ∃ packet result, e.effect = .accepted packet result ∧ packet.addr = addr

/-- A response from the target's server, or from the target if its server is unknown, has been
accepted. -/
def Answered (reg : Registration) (log : List Entry) (target : SocketAddr) : Prop :=
  match reg.resolved.targetServerIds target with
  | some id => AcceptedId log id
  | none => AcceptedAddr log target

/-- An effect of this kind is in the log. -/
def Logged (log : List Entry) (effect : Effect) : Prop := ∃ e ∈ log, e.effect = effect

/-- The result comes from an accepted datagram. -/
def Justified (log : List Entry) (result : RateLimitResult) : Prop :=
  ∃ packet, Logged log (.accepted packet result)

/-- Rounds are those of the policy, attempts belong to a delivery that has started and go to targets
that have not answered, a selected response was accepted, and a completion delivery is enabled and
follows a selection in time. -/
def Permitted (reg : Registration) (e : Entry) (older : List Entry) : Prop :=
  match e.effect with
  | .broadcast k => k ≤ reg.lastRound
  | .attempt (.round k) _ target => k ≤ reg.lastRound ∧ Logged older (.broadcast k) ∧
      ¬ reg.Answered older target
  | .attempt (.completion _) _ target => Logged older .completion ∧ ¬ reg.Answered older target
  | .accepted packet result => reg.acceptedResult packet = some result
  | .decided (.ok (some result)) => Justified older result
  | .completion => reg.policy.completionDelivery = true ∧ e.time < reg.expiry ∧
      ∃ selected, Logged older (.decided (.ok (some selected)))
  | _ => True

/-- What the log says whatever the request is doing. -/
structure Books (reg : Registration) (s : State) : Prop where
  ordered : s.log.Pairwise (Follows reg.lastRound)
  seenServerIds : ∀ id, id ∈ s.seenServerIds ↔ AcceptedId s.log id
  seenAddrs : ∀ addr, addr ∈ s.seenAddrs ↔ AcceptedAddr s.log addr
  permitted : Each reg.Permitted s.log
  best : ∀ result, s.best = some result → Justified s.log result

/-- The rounds that have started are `0..K-1`, and each attempted every target in order. -/
structure Complete (reg : Registration) (K : ℕ) (log : List Entry) : Prop where
  attempts_eq : ∀ k < K, attempts (.round k) log = reg.resolved.targets
  started : ∀ e ∈ log, ∀ k, e.effect = .broadcast k → k < K

/-- The targets a completion delivery goes to. -/
def missing (reg : Registration) (s : State) (targets : List SocketAddr) : List SocketAddr :=
  targets.filter fun target => ¬ reg.responded s target

/-- `rest` is what the delivery has still to consider. -/
def DeliveryBooks (reg : Registration) (s : State) (rest : List SocketAddr) : Delivery → Prop
  | .round k => k ≤ reg.lastRound ∧ Upto reg.lastRound (2 * k + 1) s.log ∧ s.best = none ∧
      Logged s.log (.broadcast k) ∧
      (∀ j < k, attempts (.round j) s.log = reg.resolved.targets) ∧
      (∀ e ∈ s.log, ∀ j, e.effect = .broadcast j → j ≤ k) ∧
      attempts (.round k) s.log ++ rest = reg.resolved.targets
  | .completion selected => (∃ K, reg.Complete K s.log) ∧
      Upto reg.lastRound (2 * reg.lastRound + 6) s.log ∧
      Logged s.log .completion ∧ Logged s.log (.decided (.ok (some selected))) ∧
      (∀ e ∈ s.log, ∀ r socket target, e.effect = .attempt (.completion r) socket target →
        r = selected) ∧
      attempts (.completion selected) s.log ++ reg.missing s rest =
        reg.missing s reg.resolved.targets

/-- What holds while a window is open. -/
def WindowBooks (reg : Registration) (s : State) : Window → Prop
  | .round k => k ≤ reg.lastRound ∧ reg.Complete (k + 1) s.log ∧
      (s.best = none → Upto reg.lastRound (2 * k + 1) s.log) ∧
      (s.best ≠ none → k = 0 ∧ Upto reg.lastRound (2 * reg.lastRound + 3) s.log)
  | .final => reg.Complete (reg.lastRound + 1) s.log ∧
      Upto reg.lastRound (2 * reg.lastRound + 2) s.log

/-- How the call ends without a selected response. -/
def Concludes (outcome : Outcome CoreError RateLimitResult) :
    Outcome CoreError (Option RateLimitResult) → Prop
  | .ok (some _) => False
  | .ok none => outcome = .err .timeout
  | .err error => outcome = .err error
  | .panic => outcome = .panic

def PcBooks (reg : Registration) (s : State) : Prop :=
  match s.pc with
  | .sendSocket delivery => reg.DeliveryBooks s reg.resolved.targets delivery ∧
      attempts delivery s.log = []
  | .sending delivery _ _ rest _ => reg.DeliveryBooks s rest delivery
  | .recordFailures delivery _ _ => reg.DeliveryBooks s [] delivery
  | .receiving window _ => reg.WindowBooks s window
  | .accepting window _ result =>
    Upto reg.lastRound (2 * reg.lastRound + 3) s.log ∧ Justified s.log result ∧
      match window with
      | .round k => k ≤ reg.lastRound ∧ reg.Complete (k + 1) s.log ∧ (s.best ≠ none → k = 0)
      | .final => reg.Complete (reg.lastRound + 1) s.log
  | .settled selected => (∃ K, reg.Complete K s.log) ∧
      Logged s.log (.decided (.ok (some selected))) ∧
      (Logged s.log .completion → reg.DeliveryBooks s [] (.completion selected))
  | .returned outcome => (∃ K, reg.Complete K s.log) ∧
      Upto reg.lastRound (2 * reg.lastRound + 4) s.log ∧
      ∃ decided, Logged s.log (.decided decided) ∧ Concludes outcome decided

structure Booked (reg : Registration) (s : State) : Prop where
  books : reg.Books s
  pc : reg.PcBooks s

/-! ### Bookkeeping -/

theorem Logged.cons {e : Entry} {log : List Entry} {effect : Effect} (h : Logged log effect) :
    Logged (e :: log) effect := by
  obtain ⟨e', he', heff⟩ := h
  exact ⟨e', List.mem_cons_of_mem _ he', heff⟩

theorem Justified.cons {e : Entry} {log : List Entry} {result : RateLimitResult}
    (h : Justified log result) : Justified (e :: log) result := by
  obtain ⟨packet, hlogged⟩ := h
  exact ⟨packet, hlogged.cons⟩

theorem acceptedId_cons_of_ne {e : Entry} {log : List Entry} {id : UInt64}
    (h : ∀ packet result, e.effect ≠ .accepted packet result) :
    AcceptedId (e :: log) id ↔ AcceptedId log id := by
  simp [AcceptedId, h]

theorem acceptedAddr_cons_of_ne {e : Entry} {log : List Entry} {addr : SocketAddr}
    (h : ∀ packet result, e.effect ≠ .accepted packet result) :
    AcceptedAddr (e :: log) addr ↔ AcceptedAddr log addr := by
  simp [AcceptedAddr, h]

theorem Books.responded_iff (h : reg.Books s) (target : SocketAddr) :
    reg.responded s target = true ↔ reg.Answered s.log target := by
  cases hid : reg.resolved.targetServerIds target with
  | some id => simp [responded, Answered, hid, h.seenServerIds id]
  | none => simp [responded, Answered, hid, h.seenAddrs target]

theorem Books.congr (h : reg.Books s) (hids : t.seenServerIds = s.seenServerIds)
    (haddrs : t.seenAddrs = s.seenAddrs) (hlog : t.log = s.log) (hbest : t.best = s.best) :
    reg.Books t := by
  obtain ⟨ho, hi, ha, hp, hb⟩ := h
  constructor <;> simp only [hids, haddrs, hlog, hbest] <;> assumption

/-- A retained response is one that was accepted. -/
theorem Books.keepOlder (h : reg.Books s) {result : RateLimitResult}
    (hresult : Justified s.log result) :
    reg.Books { s with best := Registration.keepOlder s.best result } := by
  refine ⟨h.ordered, h.seenServerIds, h.seenAddrs, h.permitted, fun kept hkept => ?_⟩
  dsimp only at hkept
  unfold Registration.keepOlder at hkept
  split at hkept
  · cases hkept
    exact hresult
  next current hcurrent =>
    split at hkept
    · cases hkept
      exact hresult
    · exact h.best _ (hcurrent.trans hkept)

theorem ordered_cons {n : ℕ} {e : Entry} {log : List Entry} (h : log.Pairwise (Follows n))
    (hupto : Upto n b log) (hle : b ≤ e.effect.rank n)
    (honce : e.effect.Once → b < e.effect.rank n) : (e :: log).Pairwise (Follows n) := by
  refine List.pairwise_cons.mpr ⟨fun older holder => ⟨?_, fun ho => ?_⟩, h⟩
  · exact (hupto older holder).trans hle
  · exact (hupto older holder).trans_lt (honce ho)

/-- An effect other than the acceptance of a response is entered. -/
theorem Books.emit (h : reg.Books s) (effect : Effect) (hupto : Upto reg.lastRound b s.log)
    (hle : b ≤ effect.rank reg.lastRound)
    (honce : effect.Once → b < effect.rank reg.lastRound)
    (haccepted : ∀ packet result, effect ≠ .accepted packet result)
    (hpermitted : reg.Permitted ⟨s.clock, s.delay, effect⟩ s.log) : reg.Books (s.emit effect) := by
  constructor
  · exact ordered_cons h.ordered hupto hle honce
  · intro id
    exact (h.seenServerIds id).trans (acceptedId_cons_of_ne haccepted).symm
  · intro addr
    exact (h.seenAddrs addr).trans (acceptedAddr_cons_of_ne haccepted).symm
  · exact ⟨hpermitted, h.permitted⟩
  · intro result hbest
    exact (h.best result hbest).cons

/-- A response is accepted and its server and address are noted. -/
theorem Books.accept (h : reg.Books s) {packet : ResponsePacket} {result : RateLimitResult}
    (haccepted : reg.acceptedResult packet = some result)
    (hupto : Upto reg.lastRound (2 * reg.lastRound + 3) s.log) {pc : Pc} :
    reg.Books { s.emit (.accepted packet result) with
      seenServerIds := s.seenServerIds.insert result.serverId
      seenAddrs := s.seenAddrs.insert packet.addr
      pc := pc } := by
  constructor
  · exact ordered_cons h.ordered hupto le_rfl (by simp [Effect.Once])
  · intro id
    simp [State.emit, AcceptedId, h.seenServerIds id, eq_comm]
  · intro addr
    simp [State.emit, AcceptedAddr, h.seenAddrs addr, eq_comm]
  · exact ⟨haccepted, h.permitted⟩
  · intro best hbest
    exact (h.best best hbest).cons

theorem Complete.cons {K : ℕ} {e : Entry} {log : List Entry} (h : reg.Complete K log)
    (hattempt : ∀ k socket target, e.effect ≠ .attempt (.round k) socket target)
    (hbroadcast : ∀ k, e.effect ≠ .broadcast k) : reg.Complete K (e :: log) := by
  constructor
  · intro k hk
    rw [attempts_cons_of_ne (hattempt k), h.attempts_eq k hk]
  · intro e' he' k hk
    rcases List.mem_cons.mp he' with rfl | he'
    · exact absurd hk (hbroadcast k)
    · exact h.started e' he' k hk

/-! ### What the code between two awaits keeps -/

theorem booked_conclude (h : reg.Books s)
    (hupto : Upto reg.lastRound (2 * reg.lastRound + 3) s.log)
    (hcomplete : ∃ K, reg.Complete K s.log) (outcome : Outcome CoreError (Option RateLimitResult))
    (hjustified : ∀ result, outcome = .ok (some result) → Justified s.log result) :
    reg.Booked (reg.conclude outcome s) := by
  obtain ⟨K, hK⟩ := hcomplete
  have hpermitted : reg.Permitted ⟨s.clock, s.delay, .decided outcome⟩ s.log := by
    unfold Permitted
    split <;> simp_all
  have hbooks : reg.Books (s.emit (.decided outcome)) :=
    h.emit (.decided outcome) hupto (by simp [Effect.rank]) (by simp [Effect.rank]) (by simp)
      hpermitted
  have hdecided : reg.Complete K (s.emit (.decided outcome)).log := hK.cons (by simp) (by simp)
  have hupto' : Upto reg.lastRound (2 * reg.lastRound + 4) (s.emit (.decided outcome)).log :=
    hupto.cons (by omega) le_rfl
  have hnone : ∀ e ∈ (s.emit (.decided outcome)).log, ∀ r socket target,
      e.effect ≠ .attempt (.completion r) socket target := by
    intro e he r socket target heff
    have hle := hupto' e he
    rw [heff] at hle
    simp only [Effect.rank] at hle
    omega
  unfold conclude
  dsimp only
  split
  next selected =>
    split
    next hc =>
      have hexpiry : (s.emit (.decided (.ok (some selected)))).clock < reg.expiry := by
        have hlt := hc.2
        simp only [State.emit] at hlt ⊢
        rw [expiry]
        omega
      have hcompletion := hbooks.emit .completion hupto' (by simp [Effect.rank])
        (by simp [Effect.rank]) (by simp) ⟨hc.1, hexpiry, selected, _, List.mem_cons_self, rfl⟩
      have hattempts : attempts (.completion selected)
          ((s.emit (.decided (.ok (some selected)))).emit .completion).log = [] := by
        apply attempts_eq_nil
        intro e he socket target heff
        rcases List.mem_cons.mp he with rfl | he
        · cases heff
        · exact hnone e he selected socket target heff
      refine ⟨hcompletion.congr rfl rfl rfl rfl, ⟨⟨K, hdecided.cons (by simp) (by simp)⟩, ?_, ?_, ?_, ?_,
        ?_⟩, hattempts⟩
      · exact hupto'.cons (by omega) (by simp [Effect.rank])
      · exact ⟨_, List.mem_cons_self, rfl⟩
      · exact ⟨_, List.mem_cons_of_mem _ List.mem_cons_self, rfl⟩
      · intro e he r socket target heff
        rcases List.mem_cons.mp he with rfl | he
        · cases heff
        · exact absurd heff (hnone e he r socket target)
      · rw [hattempts, List.nil_append]
    next =>
      refine ⟨hbooks.congr rfl rfl rfl rfl, ⟨K, hdecided⟩, ⟨_, List.mem_cons_self, rfl⟩, ?_⟩
      rintro ⟨e, he, heff⟩
      have hle := hupto' e he
      rw [heff] at hle
      simp only [Effect.rank] at hle
      omega
  all_goals
    exact ⟨hbooks.congr rfl rfl rfl rfl, ⟨K, hdecided⟩, hupto', _, ⟨_, List.mem_cons_self, rfl⟩, rfl⟩

theorem booked_startRound (h : reg.Books s) (hk : k ≤ reg.lastRound)
    (hupto : Upto reg.lastRound b s.log) (hb : b < 2 * k) (hbest : s.best = none)
    (hcomplete : reg.Complete k s.log) : reg.Booked (startRound k s) := by
  have hbooks : reg.Books (s.emit (.broadcast k)) :=
    h.emit (.broadcast k) hupto (by simp only [Effect.rank]; omega) (fun _ => hb) (by simp) hk
  have hattempts : attempts (.round k) (s.emit (.broadcast k)).log = [] := by
    apply attempts_eq_nil
    intro e he socket target heff
    rcases List.mem_cons.mp he with rfl | he
    · cases heff
    · have hle := hupto e he
      rw [heff] at hle
      simp only [Effect.rank] at hle
      omega
  refine ⟨hbooks.congr rfl rfl rfl rfl, ⟨hk, ?_, hbest, ⟨_, List.mem_cons_self, rfl⟩, ?_, ?_, ?_⟩,
    hattempts⟩
  · exact hupto.cons (by omega) (by simp [Effect.rank])
  · intro j hj
    exact (attempts_cons_of_ne (by simp)).trans (hcomplete.attempts_eq j hj)
  · intro e he j hj
    rcases List.mem_cons.mp he with rfl | he
    · cases hj
      exact le_rfl
    · exact (hcomplete.started e he j hj).le
  · exact congrArg (· ++ reg.resolved.targets) hattempts

theorem booked_receiveFinal (h : reg.Books s) (hw : reg.WindowBooks s .final) (deadline : ℕ) :
    reg.Booked (reg.receiveFinal deadline s) := by
  unfold receiveFinal
  split
  · exact ⟨h.congr rfl rfl rfl rfl, hw⟩
  · exact booked_conclude h (hw.2.mono (by omega)) ⟨_, hw.1⟩ _ nofun

theorem booked_leaveRound (h : reg.Books s) (hw : reg.WindowBooks s (.round k)) :
    reg.Booked (reg.leaveRound k s) := by
  obtain ⟨hk, hcomplete, hsilent, hbest⟩ := hw
  unfold leaveRound
  split_ifs with hsome hlast hfinal
  · refine booked_conclude h (hbest (Option.isSome_iff_ne_none.mp hsome)).2 ⟨_, hcomplete⟩ _ ?_
    exact fun result heq => h.best result (Outcome.ok.inj heq)
  · have hnone : s.best = none := Option.not_isSome_iff_eq_none.mp hsome
    exact booked_startRound h hlast (hsilent hnone) (by omega) hnone hcomplete
  · have hnone : s.best = none := Option.not_isSome_iff_eq_none.mp hsome
    have heq : k = reg.lastRound := le_antisymm hk (not_lt.mp hlast)
    subst heq
    refine booked_receiveFinal ?_ ⟨?_, ?_⟩ _
    · exact h.emit .finalReceive (hsilent hnone) (by simp [Effect.rank]) (by simp [Effect.rank]) (by simp)
        trivial
    · exact hcomplete.cons (by simp) (by simp)
    · exact (hsilent hnone).cons (by omega) (by simp [Effect.rank])
  · have hnone : s.best = none := Option.not_isSome_iff_eq_none.mp hsome
    exact booked_conclude h ((hsilent hnone).mono (by omega)) ⟨_, hcomplete⟩ _ nofun

theorem booked_receiveRound (h : reg.Books s) (hw : reg.WindowBooks s (.round k)) (deadline : ℕ) :
    reg.Booked (reg.receiveRound k deadline s) := by
  unfold receiveRound
  split
  · exact ⟨h.congr rfl rfl rfl rfl, hw⟩
  · exact booked_leaveRound h hw

theorem booked_receive {window : Window} (h : reg.Books s) (hw : reg.WindowBooks s window)
    (deadline : ℕ) : reg.Booked (reg.receive window deadline s) := by
  cases window with
  | round k => exact booked_receiveRound h hw deadline
  | final => exact booked_receiveFinal h hw deadline

theorem WindowBooks.upto {window : Window} (hw : reg.WindowBooks s window) :
    Upto reg.lastRound (2 * reg.lastRound + 3) s.log := by
  cases window with
  | round k =>
    obtain ⟨hk, -, hsilent, hbest⟩ := hw
    by_cases hnone : s.best = none
    · exact (hsilent hnone).mono (by omega)
    · exact (hbest hnone).2
  | final => exact hw.2.mono (by omega)

theorem booked_onPacket {window : Window} {packet : ResponsePacket} (h : reg.Books s)
    (hw : reg.WindowBooks s window) (deadline : ℕ) :
    reg.Booked (reg.onPacket window deadline packet s) := by
  unfold onPacket
  split
  · exact booked_receive h hw deadline
  next result haccepted =>
    refine ⟨h.accept haccepted hw.upto, hw.upto.cons le_rfl le_rfl,
      ⟨packet, _, List.mem_cons_self, rfl⟩, ?_⟩
    cases window with
    | round k => exact ⟨hw.1, hw.2.1.cons (by simp) (by simp), fun hne => (hw.2.2.2 hne).1⟩
    | final => exact hw.1.cons (by simp) (by simp)

theorem booked_onAccepted {window : Window} {result : RateLimitResult} (h : reg.Books s)
    (hupto : Upto reg.lastRound (2 * reg.lastRound + 3) s.log) (hjustified : Justified s.log result)
    (hw : match window with
      | .round k => k ≤ reg.lastRound ∧ reg.Complete (k + 1) s.log ∧ (s.best ≠ none → k = 0)
      | .final => reg.Complete (reg.lastRound + 1) s.log) (deadline : ℕ) :
    reg.Booked (reg.onAccepted window deadline result s) := by
  unfold onAccepted
  cases window with
  | final =>
    refine booked_conclude h hupto ⟨_, hw⟩ _ ?_
    rintro _ ⟨⟩
    exact hjustified
  | round k =>
    obtain ⟨hk, hcomplete, -⟩ := hw
    have hbest := h.keepOlder hjustified
    dsimp only
    split
    · refine booked_conclude hbest hupto ⟨_, hcomplete⟩ _ ?_
      exact fun kept heq => hbest.best kept (Outcome.ok.inj heq)
    next hround =>
      refine booked_receiveRound hbest ⟨hk, hcomplete, fun hnone => ?_, fun _ => ⟨by omega, hupto⟩⟩ _
      unfold keepOlder at hnone
      split at hnone
      · cases hnone
      · split at hnone <;> cases hnone

theorem windowBooks_of_deliveryBooks (hd : reg.DeliveryBooks s [] (.round k)) :
    reg.WindowBooks s (.round k) := by
  obtain ⟨hk, hupto, hbest, -, hbefore, hstarted, hattempts⟩ := hd
  rw [List.append_nil] at hattempts
  refine ⟨hk, ⟨fun j hj => ?_, fun e he j hj => Nat.lt_succ_of_le (hstarted e he j hj)⟩,
    fun _ => hupto, fun hne => absurd hbest hne⟩
  rcases Nat.lt_succ_iff_lt_or_eq.mp hj with hlt | rfl
  · exact hbefore j hlt
  · exact hattempts

theorem booked_afterDelivery {delivery : Delivery} {result : Except CoreError Unit}
    (h : reg.Books s) (hd : reg.DeliveryBooks s [] delivery) :
    reg.Booked (reg.afterDelivery delivery result s) := by
  unfold afterDelivery
  split
  next selected => exact ⟨h.congr rfl rfl rfl rfl, hd.1, hd.2.2.2.1, fun _ => hd⟩
  next k =>
    have hw := windowBooks_of_deliveryBooks hd
    split
    · exact booked_conclude h hw.upto ⟨_, hw.2.1⟩ _ nofun
    · split
      · exact booked_receiveRound h hw _
      · exact booked_conclude h hw.upto ⟨_, hw.2.1⟩ _ nofun
      · exact booked_conclude h hw.upto ⟨_, hw.2.1⟩ _ nofun

theorem booked_finishSends {delivery : Delivery} {sends : SendLoop} (h : reg.Books s)
    (hd : reg.DeliveryBooks s [] delivery) : reg.Booked (reg.finishSends delivery sends s) := by
  unfold finishSends
  split
  · split <;> exact booked_afterDelivery h hd
  · split
    · refine ⟨h.congr rfl rfl rfl rfl, ?_⟩
      cases delivery <;> exact hd
    · exact booked_afterDelivery h hd

theorem not_accepted_of_upto {log : List Entry} (hk : k ≤ reg.lastRound)
    (h : Upto reg.lastRound (2 * k + 1) log) :
    ∀ e ∈ log, ∀ packet result, e.effect ≠ .accepted packet result := by
  intro e he packet result heff
  have hle := h e he
  rw [heff] at hle
  simp only [Effect.rank] at hle
  omega

/-- No target has answered while a round is being sent. -/
theorem not_answered_of_upto {log : List Entry} (hk : k ≤ reg.lastRound)
    (h : Upto reg.lastRound (2 * k + 1) log) (target : SocketAddr) : ¬ reg.Answered log target := by
  have hnone := not_accepted_of_upto hk h
  unfold Answered
  split
  · rintro ⟨e, he, packet, result, heff, -⟩
    exact hnone e he packet result heff
  · rintro ⟨e, he, packet, result, heff, -⟩
    exact hnone e he packet result heff

theorem DeliveryBooks.skip {delivery : Delivery} {target : SocketAddr} {rest : List SocketAddr}
    (h : reg.Books s) (hd : reg.DeliveryBooks s (target :: rest) delivery)
    (hresponded : reg.responded s target = true) : reg.DeliveryBooks s rest delivery := by
  cases delivery with
  | round k =>
    exact absurd ((h.responded_iff target).mp hresponded) (not_answered_of_upto hd.1 hd.2.1 target)
  | completion selected => simpa [DeliveryBooks, missing, hresponded] using hd

theorem booked_attempt {delivery : Delivery} {socket : ℕ} {target : SocketAddr}
    {rest : List SocketAddr} (h : reg.Books s)
    (hd : reg.DeliveryBooks s (target :: rest) delivery)
    (hresponded : ¬ reg.responded s target = true) (sends : SendLoop) :
    reg.Booked { s.emit (.attempt delivery socket target) with
      pc := .sending delivery socket target rest sends } := by
  have hanswered := (h.responded_iff target).not.mp hresponded
  cases delivery with
  | round k =>
    obtain ⟨hk, hupto, hbest, hbroadcast, hbefore, hstarted, hattempts⟩ := hd
    refine ⟨(h.emit (.attempt (.round k) socket target) hupto le_rfl (by simp [Effect.Once])
      (by simp) ⟨hk, hbroadcast, hanswered⟩).congr rfl rfl rfl rfl, hk, hupto.cons le_rfl le_rfl, hbest,
      hbroadcast.cons, ?_, ?_, ?_⟩
    · intro j hj
      refine (attempts_cons_of_ne ?_).trans (hbefore j hj)
      rintro _ _ ⟨⟩
      exact lt_irrefl _ hj
    · intro e he j hj
      rcases List.mem_cons.mp he with rfl | he
      · cases hj
      · exact hstarted e he j hj
    · show attempts _ (_ :: s.log) ++ rest = _
      rw [attempts_cons_self, List.append_assoc]
      exact hattempts
  | completion selected =>
    obtain ⟨⟨K, hK⟩, hupto, hcompletion, hdecided, hlabel, hattempts⟩ := hd
    refine ⟨(h.emit (.attempt (.completion selected) socket target) hupto le_rfl
      (by simp [Effect.Once]) (by simp) ⟨hcompletion, hanswered⟩).congr rfl rfl rfl rfl,
      ⟨K, hK.cons (by simp) (by simp)⟩, hupto.cons le_rfl le_rfl, hcompletion.cons, hdecided.cons,
      ?_, ?_⟩
    · intro e he r socket' target' heff
      rcases List.mem_cons.mp he with rfl | he
      · cases heff
        rfl
      · exact hlabel e he r socket' target' heff
    · show attempts _ (_ :: s.log) ++ reg.missing s rest = reg.missing s _
      rw [← hattempts, attempts_cons_self, List.append_assoc]
      simp [missing, hresponded]

theorem booked_sendNext {delivery : Delivery} {socket : ℕ} {targets : List SocketAddr}
    {sends : SendLoop} (h : reg.Books s) (hd : reg.DeliveryBooks s targets delivery) :
    reg.Booked (reg.sendNext delivery socket targets sends s) := by
  induction targets with
  | nil => exact booked_finishSends h hd
  | cons target rest ih =>
    rw [sendNext]
    split
    next hresponded => exact ih (hd.skip h hresponded)
    next hresponded => exact booked_attempt h hd hresponded _

/-! ### Runs -/

theorem booked_advance (h : reg.Booked s) (now : ℕ) : reg.Booked (s.advance now) := by
  refine ⟨h.books.congr rfl rfl rfl rfl, ?_⟩
  have hpc := h.pc
  unfold PcBooks at hpc ⊢
  cases hs : s.pc with
  | sendSocket delivery | sending delivery | recordFailures delivery =>
    simp only [State.advance, hs] at hpc ⊢
    cases delivery <;> exact hpc
  | receiving window | accepting window =>
    simp only [State.advance, hs] at hpc ⊢
    cases window <;> exact hpc
  | settled | returned =>
    simp only [State.advance, hs] at hpc ⊢
    exact hpc

theorem booked_resumes {reply : Reply} (h : reg.Booked s) (hstep : reg.Resumes s reply t) :
    reg.Booked t := by
  have hbooks := h.books
  have hpc := h.pc
  unfold PcBooks at hpc
  cases hstep with
  | socket hs =>
    rw [hs] at hpc
    exact booked_sendNext hbooks hpc.1
  | sent hs =>
    rw [hs] at hpc
    exact booked_sendNext hbooks hpc
  | @failures delivery now serverIds hs =>
    rw [hs] at hpc
    cases delivery with
    | round k =>
      obtain ⟨hk, hupto, hbest, hbroadcast, hbefore, hstarted, hattempts⟩ := hpc
      refine booked_afterDelivery (hbooks.emit (.sendFailures (.round k) now serverIds) hupto le_rfl
        (by simp [Effect.Once]) (by simp) trivial) ⟨hk, hupto.cons le_rfl le_rfl, hbest,
        hbroadcast.cons, hbefore, ?_, hattempts⟩
      intro e he j hj
      rcases List.mem_cons.mp he with rfl | he
      · cases hj
      · exact hstarted e he j hj
    | completion selected =>
      obtain ⟨⟨K, hK⟩, hupto, hcompletion, hdecided, hlabel, hattempts⟩ := hpc
      refine booked_afterDelivery (hbooks.emit (.sendFailures (.completion selected) now serverIds)
        hupto le_rfl (by simp [Effect.Once]) (by simp) trivial) ⟨⟨K, hK.cons (by simp) (by simp)⟩,
        hupto.cons le_rfl le_rfl, hcompletion.cons, hdecided.cons, ?_, hattempts⟩
      intro e he r socket target heff
      rcases List.mem_cons.mp he with rfl | he
      · cases heff
      · exact hlabel e he r socket target heff
  | received hs =>
    rw [hs] at hpc
    exact booked_onPacket hbooks hpc _
  | @elapsed window deadline hs hle =>
    rw [hs] at hpc
    cases window with
    | round k => exact booked_leaveRound hbooks hpc
    | final => exact booked_conclude hbooks hpc.upto ⟨_, hpc.1⟩ (.ok none) nofun
  | @accepted window deadline result hs =>
    rw [hs] at hpc
    obtain ⟨hupto, hjustified, hw⟩ := hpc
    refine booked_onAccepted (hbooks.emit (.counted result.serverId) hupto le_rfl
      (by simp [Effect.Once]) (by simp) trivial) (hupto.cons le_rfl le_rfl) hjustified.cons ?_ deadline
    cases window with
    | round k => exact ⟨hw.1, hw.2.1.cons (by simp) (by simp), hw.2.2⟩
    | final => exact hw.cons (by simp) (by simp)

theorem booked_start : reg.Booked reg.start := by
  refine ⟨⟨?_, ?_, ?_, ?_, nofun⟩, ⟨Nat.zero_le _, ?_, rfl, ⟨_, List.mem_singleton_self _, rfl⟩, ?_, ?_, rfl⟩,
    rfl⟩
  · exact List.pairwise_singleton _ _
  · simp [start, AcceptedId]
  · simp [start, AcceptedAddr]
  · exact ⟨Nat.zero_le _, trivial⟩
  · simp [start, Upto, Effect.rank]
  · simp
  · simp [start]

theorem booked_reachable (h : reg.lts.Reachable s) : reg.Booked s := by
  refine h.invariant ?_ ?_
  · rintro _ rfl
    exact booked_start
  · intro s i t _ hs hstep
    exact booked_resumes (booked_advance hs i.1) (resumes_of_step hstep).2

/-! ### The schedule -/

/-- The request is in the course of a delivery. -/
def Delivering (s : State) (d : Delivery) : Prop :=
  match s.pc with
  | .sendSocket d' | .sending d' _ _ _ _ | .recordFailures d' _ _ => d' = d
  | _ => False

theorem Booked.delivery (h : reg.Booked s) {d : Delivery} (hd : Delivering s d) :
    ∃ rest, reg.DeliveryBooks s rest d := by
  have hpc := h.pc
  unfold PcBooks at hpc
  unfold Delivering at hd
  cases hs : s.pc with
  | sendSocket d' =>
    rw [hs] at hpc hd
    exact ⟨_, hd ▸ hpc.1⟩
  | sending d' | recordFailures d' =>
    rw [hs] at hpc hd
    exact ⟨_, hd ▸ hpc⟩
  | receiving | accepting | settled | returned =>
    rw [hs] at hd
    exact hd.elim

theorem Booked.complete (h : reg.Booked s) (hnot : ∀ k, ¬ Delivering s (.round k)) :
    ∃ K, reg.Complete K s.log := by
  have hpc := h.pc
  unfold PcBooks at hpc
  cases hs : s.pc with
  | sendSocket delivery | sending delivery | recordFailures delivery =>
    rw [hs] at hpc
    cases delivery with
    | round k => exact absurd (by simp [Delivering, hs]) (hnot k)
    | completion =>
      first
      | exact hpc.1.1
      | exact hpc.1
  | receiving window =>
    rw [hs] at hpc
    cases window with
    | round k => exact ⟨_, hpc.2.1⟩
    | final => exact ⟨_, hpc.1⟩
  | accepting window =>
    rw [hs] at hpc
    cases window with
    | round k => exact ⟨_, hpc.2.2.2.1⟩
    | final => exact ⟨_, hpc.2.2⟩
  | settled | returned =>
    rw [hs] at hpc
    exact hpc.1

/-- Either a round is being sent, or every round started so far has attempted every target. -/
theorem Booked.delivering_or_complete (h : reg.Booked s) :
    (∃ k rest, Delivering s (.round k) ∧ reg.DeliveryBooks s rest (.round k)) ∨
      ∃ K, reg.Complete K s.log := by
  by_cases hd : ∃ k, Delivering s (.round k)
  · obtain ⟨k, hk⟩ := hd
    obtain ⟨rest, hrest⟩ := h.delivery hk
    exact .inl ⟨k, rest, hk, hrest⟩
  · exact .inr (h.complete (not_exists.mp hd))

theorem logged_of_attempts_ne_nil {d : Delivery} {effect : Effect} {log : List Entry}
    (hpermitted : Each reg.Permitted log)
    (hd : ∀ e older socket target, e.effect = .attempt d socket target → reg.Permitted e older →
      Logged older effect) (hne : attempts d log ≠ []) : Logged log effect := by
  induction log with
  | nil => exact absurd rfl hne
  | cons e older ih =>
    by_cases hattempt : ∃ socket target, e.effect = .attempt d socket target
    · obtain ⟨socket, target, heff⟩ := hattempt
      exact (hd e older socket target heff hpermitted.1).cons
    · rw [attempts_cons_of_ne fun socket target heff => hattempt ⟨socket, target, heff⟩] at hne
      exact (ih hpermitted.2 hne).cons

theorem Books.broadcast_of_attempts (h : reg.Books s) (hne : attempts (.round k) s.log ≠ []) :
    Logged s.log (.broadcast k) := by
  refine logged_of_attempts_ne_nil h.permitted (fun e older socket target heff hp => ?_) hne
  rw [Permitted, heff] at hp
  exact hp.2.1

theorem Books.completion_of_attempts (h : reg.Books s) {selected : RateLimitResult}
    (hne : attempts (.completion selected) s.log ≠ []) : Logged s.log .completion := by
  refine logged_of_attempts_ne_nil h.permitted (fun e older socket target heff hp => ?_) hne
  rw [Permitted, heff] at hp
  exact hp.1

theorem Booked.attempts_round (h : reg.Booked s) (k : ℕ) :
    attempts (.round k) s.log <+: reg.resolved.targets := by
  by_cases hnil : attempts (.round k) s.log = []
  · rw [hnil]
    exact List.nil_prefix
  obtain ⟨e, he, heff⟩ := h.books.broadcast_of_attempts hnil
  rcases h.delivering_or_complete with ⟨j, rest, -, -, -, -, -, hbefore, hstarted, hattempts⟩ | ⟨K, hK⟩
  · rcases (hstarted e he k heff).lt_or_eq with hlt | rfl
    · rw [hbefore k hlt]
    · exact ⟨rest, hattempts⟩
  · rw [hK.attempts_eq k (hK.started e he k heff)]

theorem Booked.attempts_round_eq (h : reg.Booked s) (hlogged : Logged s.log (.broadcast k))
    (hnot : ¬ Delivering s (.round k)) : attempts (.round k) s.log = reg.resolved.targets := by
  obtain ⟨e, he, heff⟩ := hlogged
  rcases h.delivering_or_complete with ⟨j, rest, hj, -, -, -, -, hbefore, hstarted, -⟩ | ⟨K, hK⟩
  · rcases (hstarted e he k heff).lt_or_eq with hlt | rfl
    · exact hbefore k hlt
    · exact absurd hj hnot
  · exact hK.attempts_eq k (hK.started e he k heff)

theorem Booked.seen_empty (h : reg.Booked s) (hd : Delivering s (.round k)) :
    s.seenServerIds = [] ∧ s.seenAddrs = [] := by
  obtain ⟨rest, hk, hupto, -⟩ := h.delivery hd
  have hnone : ∀ e ∈ s.log, ∀ packet result, e.effect ≠ .accepted packet result :=
    not_accepted_of_upto hk hupto
  constructor
  · refine List.eq_nil_iff_forall_not_mem.mpr fun id hid => ?_
    obtain ⟨e, he, packet, result, heff, -⟩ := (h.books.seenServerIds id).mp hid
    exact hnone e he packet result heff
  · refine List.eq_nil_iff_forall_not_mem.mpr fun addr haddr => ?_
    obtain ⟨e, he, packet, result, heff, -⟩ := (h.books.seenAddrs addr).mp haddr
    exact hnone e he packet result heff

/-- A completion delivery goes to the missing targets in order. -/
theorem Booked.attempts_completion (h : reg.Booked s) {selected : RateLimitResult}
    (hd : Delivering s (.completion selected)) :
    attempts (.completion selected) s.log <+: reg.missing s reg.resolved.targets := by
  obtain ⟨rest, -, -, -, -, -, hattempts⟩ := h.delivery hd
  exact ⟨_, hattempts⟩

theorem Booked.attempts_completion_eq (h : reg.Booked s) {selected : RateLimitResult}
    (hs : s.pc = .settled selected) (hlogged : Logged s.log .completion) :
    attempts (.completion selected) s.log = reg.missing s reg.resolved.targets := by
  have hpc := h.pc
  rw [PcBooks, hs] at hpc
  obtain ⟨-, -, -, -, -, hattempts⟩ := hpc.2.2 hlogged
  rwa [missing, List.filter_nil, List.append_nil] at hattempts

/-- The log is in the order of ranks. -/
theorem Books.rank_le (h : reg.Books s) {newer older : List Entry} {e e' : Entry}
    (hs : s.log = newer ++ e :: older) (he : e' ∈ older) :
    e'.effect.rank reg.lastRound ≤ e.effect.rank reg.lastRound ∧
      (e.effect.Once → e'.effect.rank reg.lastRound < e.effect.rank reg.lastRound) := by
  have hordered := h.ordered
  rw [hs] at hordered
  exact List.rel_of_pairwise_cons (List.pairwise_append.mp hordered).2.1 he

/-! ### Counting attempts -/

/-- Every target attempted so far, once for each attempt. -/
def allAttempts (log : List Entry) : List SocketAddr :=
  log.filterMap fun e =>
    match e.effect with
    | .attempt _ _ target => some target
    | _ => none

theorem count_attempts_cons {e : Entry} {older : List Entry} {d : Delivery} {socket : ℕ}
    {target : SocketAddr} (heff : e.effect = .attempt d socket target) (d' : Delivery)
    (addr : SocketAddr) : (attempts d' (e :: older)).count addr =
      (attempts d' older).count addr + if d = d' then [target].count addr else 0 := by
  by_cases hd : d = d'
  · simp [attempts, heff, hd]
  · rw [attempts_cons_of_ne, if_neg hd, Nat.add_zero]
    intro _ _ heff'
    rw [heff] at heff'
    cases heff'
    exact hd rfl

theorem count_allAttempts (n : ℕ) (selected : RateLimitResult) (addr : SocketAddr)
    {log : List Entry}
    (hlabel : ∀ e ∈ log, ∀ d socket target, e.effect = .attempt d socket target →
      d = .completion selected ∨ ∃ k < n, d = .round k) :
    (allAttempts log).count addr =
      ((Finset.range n).sum fun k => (attempts (.round k) log).count addr) +
        (attempts (.completion selected) log).count addr := by
  induction log with
  | nil => simp [allAttempts, attempts]
  | cons e older ih =>
    have ih := ih fun e' he' => hlabel e' (List.mem_cons_of_mem _ he')
    by_cases hattempt : ∃ d socket target, e.effect = .attempt d socket target
    · obtain ⟨d, socket, target, heff⟩ := hattempt
      have hall : (allAttempts (e :: older)).count addr =
          (allAttempts older).count addr + [target].count addr := by
        rw [allAttempts, List.filterMap_cons_some (b := target) (by rw [heff]), ← allAttempts,
          List.count_cons, List.count_singleton]
      simp only [count_attempts_cons heff]
      rw [hall, ih, Finset.sum_add_distrib]
      rcases hlabel e List.mem_cons_self d socket target heff with rfl | ⟨k, hk, rfl⟩
      · simp
        omega
      · simp [hk]
        omega
    · have hne (d : Delivery) : attempts d (e :: older) = attempts d older :=
        attempts_cons_of_ne fun socket target heff => hattempt ⟨d, socket, target, heff⟩
      have hall : allAttempts (e :: older) = allAttempts older := by
        rw [allAttempts, List.filterMap_cons_none]
        · rfl
        · split
          next d socket target heff => exact absurd ⟨d, socket, target, heff⟩ hattempt
          next => rfl
      simp only [hne, hall]
      exact ih

theorem not_logged_completion_of_upto {log : List Entry} (hb : b < 2 * reg.lastRound + 5)
    (h : Upto reg.lastRound b log) : ¬ Logged log .completion := by
  rintro ⟨e, he, heff⟩
  have hle := h e he
  rw [heff] at hle
  simp only [Effect.rank] at hle
  omega

/-- Once a completion delivery has started, the request is at it or has settled. -/
theorem Booked.completing (h : reg.Booked s) (hlogged : Logged s.log .completion) :
    ∃ selected rest, reg.DeliveryBooks s rest (.completion selected) := by
  have hpc := h.pc
  unfold PcBooks at hpc
  cases hs : s.pc with
  | sendSocket delivery =>
    rw [hs] at hpc
    cases delivery with
    | round k =>
      have hk : k ≤ reg.lastRound := hpc.1.1
      exact absurd hlogged (not_logged_completion_of_upto (by omega) hpc.1.2.1)
    | completion selected => exact ⟨selected, _, hpc.1⟩
  | sending delivery | recordFailures delivery =>
    rw [hs] at hpc
    cases delivery with
    | round k =>
      have hk : k ≤ reg.lastRound := hpc.1
      exact absurd hlogged (not_logged_completion_of_upto (by omega) hpc.2.1)
    | completion selected => exact ⟨selected, _, hpc⟩
  | receiving window =>
    rw [hs] at hpc
    exact absurd hlogged (not_logged_completion_of_upto (by omega) (WindowBooks.upto hpc))
  | accepting window =>
    rw [hs] at hpc
    exact absurd hlogged (not_logged_completion_of_upto (by omega) hpc.1)
  | settled selected =>
    rw [hs] at hpc
    exact ⟨selected, [], hpc.2.2 hlogged⟩
  | returned =>
    rw [hs] at hpc
    exact absurd hlogged (not_logged_completion_of_upto (by omega) hpc.2.1)

theorem Books.round_of_attempt (h : reg.Books s) {e : Entry} (he : e ∈ s.log) {socket : ℕ}
    {target : SocketAddr} (heff : e.effect = .attempt (.round k) socket target) :
    k ≤ reg.lastRound := by
  obtain ⟨older, -, hp⟩ := h.permitted.of_mem he
  rw [Permitted, heff] at hp
  exact hp.1

theorem Books.completion_of_attempt (h : reg.Books s) {e : Entry} (he : e ∈ s.log) {socket : ℕ}
    {target : SocketAddr} {selected : RateLimitResult}
    (heff : e.effect = .attempt (.completion selected) socket target) :
    Logged s.log .completion := by
  obtain ⟨older, ⟨newer, hs⟩, hp⟩ := h.permitted.of_mem he
  rw [Permitted, heff] at hp
  obtain ⟨e', he', heff'⟩ := hp.1
  exact ⟨e', by rw [hs]; simp [he'], heff'⟩

/-- There is one completion delivery at most, and it attempts each target at most once. -/
theorem Booked.exists_completion (h : reg.Booked s) : ∃ selected,
    (∀ e ∈ s.log, ∀ r socket target, e.effect = .attempt (.completion r) socket target →
      r = selected) ∧
    (attempts (.completion selected) s.log).Sublist reg.resolved.targets := by
  by_cases hlogged : Logged s.log .completion
  · obtain ⟨selected, rest, -, -, -, -, hlabel, hattempts⟩ := h.completing hlogged
    exact ⟨selected, hlabel, (List.IsPrefix.sublist ⟨_, hattempts⟩).trans List.filter_sublist⟩
  · refine ⟨⟨false, [], [], 0, false⟩, ?_, ?_⟩
    · intro e he r socket target heff
      exact absurd (h.books.completion_of_attempt he heff) hlogged
    · by_contra hne
      apply hlogged
      apply h.books.completion_of_attempts
      intro hnil
      rw [hnil] at hne
      exact hne (List.nil_sublist _)

/-- Every target is attempted at most once a round and once more. -/
theorem Booked.count_allAttempts_le (h : reg.Booked s) (addr : SocketAddr) :
    (allAttempts s.log).count addr ≤ (reg.lastRound + 2) * reg.resolved.targets.count addr := by
  obtain ⟨selected, hlabel, hcompletion⟩ := h.exists_completion
  have hround (k : ℕ) : (attempts (.round k) s.log).count addr ≤ reg.resolved.targets.count addr :=
    (h.attempts_round k).sublist.count_le addr
  have hsum : ((Finset.range (reg.lastRound + 1)).sum fun k =>
      (attempts (.round k) s.log).count addr) ≤
        (reg.lastRound + 1) * reg.resolved.targets.count addr := by
    simpa using Finset.sum_le_card_nsmul (Finset.range (reg.lastRound + 1)) _ _ fun k _ => hround k
  rw [count_allAttempts (reg.lastRound + 1) selected addr]
  · calc _ ≤ (reg.lastRound + 1) * reg.resolved.targets.count addr +
          reg.resolved.targets.count addr := Nat.add_le_add hsum (hcompletion.count_le addr)
      _ = (reg.lastRound + 2) * reg.resolved.targets.count addr := by ring
  · intro e he d socket target heff
    cases d with
    | round k => exact .inr ⟨k, Nat.lt_succ_of_le (h.books.round_of_attempt he heff), rfl⟩
    | completion r => exact .inl (congrArg _ (hlabel e he r socket target heff))

end Registration

end Ratelimitly
