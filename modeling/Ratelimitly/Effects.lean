import Mathlib.Tactic
import Ratelimitly.Rounds

/-! Properties of every effect of a registered request. -/
namespace Ratelimitly

open Lib Rounds

namespace Registration

variable {reg : Registration} {s t : State} {P : Effect → Prop} {k now : ℕ} {reply : Reply}

/-- The effects that come from neither a socket nor a datagram. -/
def Plain : Effect → Prop
  | .attempt _ _ _ | .accepted _ _ => False
  | _ => True

/-- Every effect so far has the property, and so will the sends of a send loop under way. -/
structure Obeys (P : Effect → Prop) (s : State) : Prop where
  log : ∀ e ∈ s.log, P e.effect
  sending : ∀ d socket target rest sends, s.pc = .sending d socket target rest sends →
    ∀ d' target', P (.attempt d' socket target')

theorem Obeys.emit (h : ∀ e ∈ s.log, P e.effect) {effect : Effect} (he : P effect) :
    ∀ e ∈ (s.emit effect).log, P e.effect := by
  intro e hmem
  rcases List.mem_cons.mp hmem with rfl | hmem
  · exact he
  · exact h e hmem

section

variable (hplain : ∀ effect, Plain effect → P effect)
include hplain

theorem obeys_conclude (h : ∀ e ∈ s.log, P e.effect)
    (outcome : Outcome CoreError (Option RateLimitResult)) : Obeys P (reg.conclude outcome s) := by
  have hdecided := Obeys.emit h (hplain (.decided outcome) trivial)
  unfold conclude
  dsimp only
  split
  · split
    · exact ⟨Obeys.emit hdecided (hplain .completion trivial), nofun⟩
    · exact ⟨hdecided, nofun⟩
  all_goals exact ⟨hdecided, nofun⟩

theorem obeys_receiveFinal (h : ∀ e ∈ s.log, P e.effect) (deadline : ℕ) :
    Obeys P (reg.receiveFinal deadline s) := by
  unfold receiveFinal
  split
  · exact ⟨h, nofun⟩
  · exact obeys_conclude hplain h _

theorem obeys_leaveRound (h : ∀ e ∈ s.log, P e.effect) : Obeys P (reg.leaveRound k s) := by
  unfold leaveRound
  split_ifs
  · exact obeys_conclude hplain h _
  · exact ⟨Obeys.emit h (hplain (.broadcast (k + 1)) trivial), nofun⟩
  · exact obeys_receiveFinal hplain (Obeys.emit h (hplain .finalReceive trivial)) _
  · exact obeys_conclude hplain h _

theorem obeys_receiveRound (h : ∀ e ∈ s.log, P e.effect) (deadline : ℕ) :
    Obeys P (reg.receiveRound k deadline s) := by
  unfold receiveRound
  split
  · exact ⟨h, nofun⟩
  · exact obeys_leaveRound hplain h

theorem obeys_receive (h : ∀ e ∈ s.log, P e.effect) (window : Window) (deadline : ℕ) :
    Obeys P (reg.receive window deadline s) := by
  cases window with
  | round k => exact obeys_receiveRound hplain h deadline
  | final => exact obeys_receiveFinal hplain h deadline

theorem obeys_leave (h : ∀ e ∈ s.log, P e.effect) (window : Window) :
    Obeys P (reg.leave window s) := by
  cases window with
  | round k => exact obeys_leaveRound hplain h
  | final =>
    rw [leave]
    exact obeys_conclude hplain h _

theorem obeys_onPacket (h : ∀ e ∈ s.log, P e.effect) {packet : ResponsePacket}
    (hpacket : ∀ result, reg.acceptedResult packet = some result → P (.accepted packet result))
    (window : Window) (deadline : ℕ) : Obeys P (reg.onPacket window deadline packet s) := by
  unfold onPacket
  split
  next => exact obeys_receive hplain h window deadline
  next result haccepted => exact ⟨Obeys.emit h (hpacket result haccepted), nofun⟩

theorem obeys_onAccepted (h : ∀ e ∈ s.log, P e.effect) (window : Window) (deadline : ℕ)
    (result : RateLimitResult) : Obeys P (reg.onAccepted window deadline result s) := by
  unfold onAccepted
  split
  · exact obeys_conclude hplain h _
  · have hbest : ∀ e ∈ { s with best := keepOlder s.best result }.log, P e.effect := h
    dsimp only
    split
    · exact obeys_conclude hplain hbest _
    · exact obeys_receiveRound hplain hbest deadline

theorem obeys_afterDelivery (h : ∀ e ∈ s.log, P e.effect) (delivery : Delivery)
    (result : Except CoreError Unit) : Obeys P (reg.afterDelivery delivery result s) := by
  unfold afterDelivery
  split
  · exact ⟨h, nofun⟩
  · split
    · exact obeys_conclude hplain h _
    · split
      · exact obeys_receiveRound hplain h _
      · exact obeys_conclude hplain h _
      · exact obeys_conclude hplain h _

theorem obeys_sendNext {delivery : Delivery} {socket : ℕ} {targets : List SocketAddr}
    {sends : SendLoop} (h : ∀ e ∈ s.log, P e.effect)
    (hsocket : ∀ d target, P (.attempt d socket target)) :
    Obeys P (reg.sendNext delivery socket targets sends s) := by
  induction targets with
  | nil =>
    rw [sendNext]
    unfold finishSends
    split
    · split <;> exact obeys_afterDelivery hplain h _ _
    · split
      · exact ⟨h, nofun⟩
      · exact obeys_afterDelivery hplain h _ _
  | cons target rest ih =>
    rw [sendNext]
    split
    · exact ih
    · refine ⟨Obeys.emit h (hsocket delivery target), ?_⟩
      rintro _ _ _ _ _ ⟨⟩
      exact hsocket

/-- What one wake-up adds: sends from the socket at hand, and the datagram it was given. -/
theorem obeys_step (h : Obeys P s) (hstep : reg.step s now reply = some t)
    (hsocket : ∀ handle, reply = .socket handle → ∀ d target, P (.attempt d handle target))
    (hpacket : ∀ packet result, reply = .received packet → reg.acceptedResult packet = some result →
      P (.accepted packet result)) : Obeys P t := by
  obtain ⟨-, hresumes⟩ := resumes_of_step hstep
  have hlog : ∀ e ∈ (s.advance now).log, P e.effect := h.log
  cases hresumes with
  | socket => exact obeys_sendNext hplain hlog (hsocket _ rfl)
  | sent hpc => exact obeys_sendNext hplain hlog (h.sending _ _ _ _ _ hpc)
  | failures =>
    exact obeys_afterDelivery hplain (Obeys.emit hlog (hplain (.sendFailures _ _ _) trivial)) _ _
  | received => exact obeys_onPacket hplain hlog (fun result => hpacket _ result rfl) _ _
  | elapsed => exact obeys_leave hplain hlog _
  | accepted => exact obeys_onAccepted hplain (Obeys.emit hlog (hplain (.counted _) trivial)) _ _ _

theorem obeys_start : Obeys P reg.start := by
  refine ⟨?_, nofun⟩
  intro e he
  rw [List.mem_singleton.mp he]
  exact hplain (.broadcast 0) trivial

end

end Registration

end Ratelimitly
