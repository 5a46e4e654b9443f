import Mathlib.Tactic
import Ratelimitly.Authenticity
import Ratelimitly.Marks
import Ratelimitly.Selection

/-! Datagrams that a call refuses leave no trace in it. -/
namespace Ratelimitly

open Lib Rounds

namespace Registration

variable {reg : Registration} {s s' t : State} {reply : Reply} {packet : ResponsePacket} {now : ℕ}

/-- The second state differs from the first by wake-ups in vain before a deadline. -/
inductive Like (t : State) : State → Prop
  | refl : Like t t
  | woken {window deadline clock} : t.pc = .receiving window deadline → t.clock ≤ clock →
      clock < deadline → Like t { t with clock := clock }

theorem Like.pc_eq (h : Like t s) : s.pc = t.pc := by cases h <;> rfl

theorem Like.log_eq (h : Like t s) : s.log = t.log := by cases h <;> rfl

theorem Like.clock_le (h : Like t s) : t.clock ≤ s.clock := by
  cases h with
  | refl => exact le_rfl
  | woken _ hle _ => exact hle

/-- A wake-up in vain takes nothing from the time that the policy provides for. -/
theorem Like.advance_eq (h : Like t s) (now : ℕ) : s.advance now = t.advance now := by
  cases h with
  | refl => rfl
  | woken hpc hle hlt =>
    simp only [State.advance, State.overrun, hpc]
    congr 2
    omega

theorem Like.step_eq (h : Like t s) (hstep : reg.step s now reply = some s') :
    reg.step t now reply = some s' := by
  unfold step at hstep ⊢
  split at hstep
  next hle => rw [if_pos (h.clock_le.trans hle), ← h.advance_eq, hstep]
  next => cases hstep

/-- A refused datagram is a wake-up in vain before the deadline, and the timer after it. -/
theorem Like.of_refused (h : Like t s) (hrefused : reg.acceptedResult packet = none)
    (hstep : reg.step s now (.received packet) = some s') :
    (∃ window deadline, s'.pc = .receiving window deadline) ∧ Like t s' ∨
      reg.step t now .elapsed = some s' := by
  obtain ⟨hle, hresumes⟩ := resumes_of_step hstep
  cases hresumes with
  | @received window deadline _ hpc =>
    have hs : s.pc = .receiving window deadline := hpc
    have ht : t.pc = .receiving window deadline := h.pc_eq.symm.trans hs
    rw [onPacket, hrefused]
    dsimp only
    rw [receive_eq]
    split
    next hlt =>
      refine .inl ⟨⟨window, deadline, rfl⟩, ?_⟩
      have heq : { s.advance now with pc := .receiving window deadline } =
          { t with clock := now } := by
        have hclock := h.clock_le
        have hnow : now < deadline := hlt
        rw [h.advance_eq]
        simp only [State.advance, State.overrun, ht, State.mk.injEq, and_true, true_and]
        omega
      rw [heq]
      exact .woken ht (h.clock_le.trans hle) hlt
    next hge =>
      refine .inr (h.step_eq ?_)
      rw [step, if_pos hle, resume.eq_def, hpc]
      exact if_pos (not_lt.mp hge)

end Registration

namespace Request

variable {client : CoreClient} {query : Query} {pc pc' pc'' : Pc} {reply : Reply}
  {forged : ResponsePacket → Prop} {replies : List Reply}

/-- What a call has returned. -/
def Pc.outcome : Pc → Option (Outcome CoreError RateLimitResult)
  | .returned _ outcome => some outcome
  | _ => none

theorem returned_of_outcome {outcome : Outcome CoreError RateLimitResult}
    (h : pc.outcome = some outcome) : pc.Returned := by
  unfold Pc.outcome at h
  split at h
  · exact ⟨_, _, rfl⟩
  · cases h

/-- The same up to wake-ups in vain. -/
inductive Like : Pc → Pc → Prop
  | refl (p : Pc) : Like p p
  | flying {reg s t} : Registration.Like t s → Like (.flying ⟨reg, t⟩) (.flying ⟨reg, s⟩)

theorem Like.log_eq (h : Like pc' pc) : pc'.log = pc.log := by
  cases h with
  | refl => rfl
  | flying h => exact h.log_eq.symm

theorem Like.eq_of_returned (h : Like pc' pc) (hreturned : pc.Returned) : pc' = pc := by
  cases h with
  | refl => rfl
  | flying =>
    obtain ⟨flight, outcome, heq⟩ := hreturned
    cases heq

theorem Like.exists_flying {reg : Registration} {s : State} (h : Like pc' (.flying ⟨reg, s⟩)) :
    ∃ t, pc' = .flying ⟨reg, t⟩ ∧ Registration.Like t s := by
  cases h with
  | refl => exact ⟨s, rfl, .refl⟩
  | flying h => exact ⟨_, rfl, h⟩

theorem Like.step_eq (h : Like pc' pc) (hstep : step client query pc reply = some pc'') :
    step client query pc' reply = some pc'' := by
  cases h with
  | refl => exact hstep
  | flying h =>
    cases steps_of_step hstep with
    | flight hstate => rw [step, h.step_eq hstate, Option.map_some]

/-- The reply is a forged datagram. -/
def Reply.Forged (forged : ResponsePacket → Prop) : Reply → Prop
  | .flight _ (.received packet) => forged packet
  | _ => False

/-- What is left of a reply without forged datagrams: one that came too late is a timer. -/
inductive Purged (forged : ResponsePacket → Prop) : Reply → List Reply → Prop
  | kept {answer : Reply} : ¬ answer.Forged forged → Purged forged answer [answer]
  | dropped {now packet} : forged packet → Purged forged (.flight now (.received packet)) []
  | timer {now packet} : forged packet →
      Purged forged (.flight now (.received packet)) [.flight now .elapsed]

theorem not_mem_of_purged {packet : ResponsePacket} {kept : List (List Reply)}
    (h : List.Forall₂ (Purged forged) replies kept) (hforged : forged packet) (now : ℕ) :
    .flight now (.received packet) ∉ kept.flatten := by
  induction h with
  | nil => simp
  | @cons answer answers _ _ hpurged _ ih =>
    rw [List.flatten_cons, List.mem_append, not_or]
    refine ⟨?_, ih⟩
    cases hpurged with
    | kept hkept =>
      rintro hmem
      rw [← List.mem_singleton.mp hmem] at hkept
      exact hkept hforged
    | dropped | timer => simp

/-- Datagrams that no request of the call accepts. -/
def Refused (client : CoreClient) (query : Query) (forged : ResponsePacket → Prop) : Prop :=
  ∀ reg, Registered client query reg → ∀ packet, forged packet → reg.acceptedResult packet = none

theorem exists_of_forged (h : reply.Forged forged) :
    ∃ now packet, reply = .flight now (.received packet) ∧ forged packet := by
  unfold Reply.Forged at h
  split at h
  · exact ⟨_, _, rfl, h⟩
  · exact h.elim

theorem Like.purged (hrefused : Refused client query forged) (hsound : pc.Sound client query)
    (h : Like pc' pc) (hstep : step client query pc reply = some pc'') :
    ∃ kept end', Purged forged reply kept ∧ (lts client query).Run pc' kept end' ∧
      Like end' pc'' := by
  by_cases hforged : reply.Forged forged
  · obtain ⟨now, packet, rfl, hpacket⟩ := exists_of_forged hforged
    cases steps_of_step hstep with
    | @flight flight _ _ state hstate =>
      obtain ⟨t, rfl, ht⟩ := h.exists_flying
      have hnone := hrefused flight.reg hsound.1.registered packet hpacket
      rcases ht.of_refused hnone hstate with ⟨⟨window, deadline, hpc⟩, hlike⟩ | helapsed
      · refine ⟨[], _, .dropped hpacket, .refl _, ?_⟩
        rw [leaveFlight, hpc]
        exact .flying hlike
      · refine ⟨_, _, .timer hpacket, .single ?_, .refl _⟩
        show step client query _ _ = _
        rw [step, helapsed, Option.map_some]
  · exact ⟨_, _, .kept hforged, .single (h.step_eq hstep), .refl _⟩

/-- A call does the same, at the same times, without the datagrams that it refuses. -/
theorem run_purged (hrefused : Refused client query forged)
    (hrun : (lts client query).Run (begin client query) replies pc) :
    ∃ kept end', List.Forall₂ (Purged forged) replies kept ∧
      (lts client query).Run (begin client query) kept.flatten end' ∧ Like end' pc := by
  obtain ⟨kept, end', hkept, hend, -, hlike⟩ := hrun.simulated
    (R := fun pc pc' => pc.Sound client query ∧ Like pc' pc)
    (M := Purged forged) (n := lts client query)
    (fun pc reply pc'' pc' ⟨hsound, hlike⟩ hstep => by
      obtain ⟨kept, end', hkept, hend, hlike'⟩ := hlike.purged hrefused hsound hstep
      exact ⟨kept, end', hkept, hend, sound_steps hsound (steps_of_step hstep), hlike'⟩)
    ⟨sound_begin, .refl _⟩
  exact ⟨kept, end', hkept, hend, hlike⟩

/-- The datagram is none that a holder of the key sealed. -/
def Unsealed (sealed : Bytes 32 → Seal → Prop) (key : Bytes 32) (packet : ResponsePacket) : Prop :=
  ∀ entry, sealed key entry → packet.data ≠ entry.datagram

theorem refused_unsealed {key : Bytes 32} {sealed : Bytes 32 → Seal → Prop}
    (hauth : client.config.apiKey.authMethod = .aesGcm key)
    (hideal : client.crypto.OpensOnly sealed) :
    Refused client query (Unsealed sealed key) := by
  intro reg hreg packet hunsealed
  obtain ⟨seed, -, heq⟩ := hreg.packet
  by_contra hne
  obtain ⟨result, hresult⟩ := Option.ne_none_iff_exists'.mp hne
  have hparse := (Registration.acceptedResult_spec hresult).1
  rw [heq, Registration.parseRateResponse, registration] at hparse
  dsimp only at hparse
  rw [hauth] at hparse
  simp only [parseRateResponseWithAuth, Outcome.bind_eq_ok_iff, Prod.exists] at hparse
  obtain ⟨header, pos, -, pdu, hpdu, -⟩ := hparse
  obtain ⟨A, P, hdrop, hopened⟩ := parseAuthTlv_eq_ok_iff.mp hpdu
  obtain ⟨entry, hsealed, hdata, -⟩ := exists_seal_of_authenticated hideal hopened
  refine hunsealed entry hsealed ?_
  rw [← hdata, List.append_assoc, ← hdrop, List.take_append_drop]

/-- Under AES, datagrams that no holder of the key has sealed change neither what a call does nor
when it does it: some run without them has the same log and the same end. A sealed datagram that
somebody sends again is none of them. -/
theorem unsealed_invisible {key : Bytes 32} {sealed : Bytes 32 → Seal → Prop}
    (hauth : client.config.apiKey.authMethod = .aesGcm key)
    (hideal : client.crypto.OpensOnly sealed)
    (hrun : (lts client query).Run (begin client query) replies pc) :
    ∃ kept end', List.Forall₂ (Purged (Unsealed sealed key)) replies kept ∧
      (lts client query).Run (begin client query) kept.flatten end' ∧ end'.log = pc.log ∧
        (pc.Returned → end' = pc) := by
  obtain ⟨kept, end', hkept, hend, hlike⟩ := run_purged (refused_unsealed hauth hideal) hrun
  exact ⟨kept, end', hkept, hend, hlike.log_eq, hlike.eq_of_returned⟩

/-- A cipher that opens the sample response only. -/
def sampleSealedCrypto : Crypto where
  encrypt := sampleCrypto.encrypt
  decrypt key nonce ciphertext aad :=
    if key = sampleKey ∧ nonce = sampleSeal.nonce ∧ aad = sampleSeal.aad ∧
        ciphertext = sampleSeal.ciphertext ++ sampleSeal.tag.toList then some sampleSeal.plaintext
    else none
  blake2s := sampleCrypto.blake2s

theorem sampleSealedCrypto_opensOnly : sampleSealedCrypto.OpensOnly fun key entry =>
    key = sampleKey ∧ entry = sampleSeal := by
  intro key nonce tag ciphertext aad plaintext h
  simp only [sampleSealedCrypto] at h
  split at h
  next hopened =>
    obtain ⟨rfl, rfl, rfl, hciphertext⟩ := hopened
    obtain ⟨rfl, htag⟩ := List.append_inj' hciphertext (by rw [tag.length_eq, Bytes.length_eq])
    cases h
    exact ⟨rfl, by rw [Bytes.ext htag]⟩
  next => cases h

/-- The sample client with an AES key. -/
def sampleSealedClient : CoreClient :=
  { sampleClient with crypto := sampleSealedCrypto, config.apiKey.authMethod := .aesGcm sampleKey }

/-- A forged grant by server 7 comes before the one that it sealed. -/
def sampleForgery : List Reply :=
  [.lastRefresh 0 0, .servers [⟨"127.0.0.1", 7, some 7⟩] ⟨fun _ => .ok [], fun _ => .ok []⟩,
    .activity sampleSeed 0, .flight 0 (.socket 0), .flight 0 (.sent (.ok 100)),
    .flight 5 (.received (sampleResponse 7)),
    .flight 10 (.received ⟨sampleSeal.datagram, sampleAddr 7⟩), .flight 10 .stats,
    .flight 10 (.socket 0)]

theorem unsealed_invisible_sample : ∃ kept pc result, pc.outcome = some (.ok result) ∧
    (lts sampleSealedClient sampleQuery).Run (begin sampleSealedClient sampleQuery) kept pc ∧
      ∀ now, .flight now (.received (sampleResponse 7)) ∉ kept := by
  obtain ⟨pc, hrun, htest⟩ := (Option.any_eq_true _ _).mp
    (show (Lts.runSteps (step sampleSealedClient sampleQuery) sampleForgery
      (begin sampleSealedClient sampleQuery)).any (·.outcome.any (·.isOk)) = true by decide +kernel)
  obtain ⟨outcome, houtcome, hok⟩ := (Option.any_eq_true _ _).mp htest
  obtain ⟨result, rfl⟩ := Outcome.isOk_iff.mp hok
  obtain ⟨kept, end', hkept, hend, -, heq⟩ := unsealed_invisible rfl sampleSealedCrypto_opensOnly
    (.of_runSteps (m := lts sampleSealedClient sampleQuery) (fun _ _ _ _ h => h) hrun)
  obtain rfl := heq (returned_of_outcome houtcome)
  refine ⟨_, _, result, houtcome, hend, not_mem_of_purged hkept ?_⟩
  rintro _ ⟨-, rfl⟩
  decide

end Request

end Ratelimitly
