import Mathlib.Tactic
import Ratelimitly.Flights
import Ratelimitly.Broadcast

/-! Which endpoints a completion delivery reaches when endpoints share an address. -/
namespace Ratelimitly

open Lib Rounds

/-- Filtering images and mapping what another predicate keeps agree if the predicates do. -/
theorem filter_map_eq_map_filter_iff {α β : Type} [DecidableEq β] (f : α → β) (p : β → Bool)
    (q : α → Bool) (xs : List α) :
    (xs.map f).filter p = (xs.filter q).map f ↔ ∀ x ∈ xs, p (f x) = q x := by
  constructor
  · intro h x hx
    cases hp : p (f x) with
    | false =>
      by_contra hq
      have hmem : f x ∈ (xs.filter q).map f :=
        List.mem_map_of_mem (List.mem_filter.mpr ⟨hx, by simpa using Ne.symm hq⟩)
      rw [← h, List.mem_filter, hp] at hmem
      cases hmem.2
    | true =>
      -- All elements with this image are kept on the left, so `q` drops none of them.
      have hcount := congrArg (List.count (f x)) h
      rw [List.count_filter hp, List.count_eq_countP, List.countP_map, List.count_eq_countP,
        List.countP_map, List.countP_eq_countP_filter_add xs _ q] at hcount
      have hdropped := List.countP_eq_zero.mp (Nat.left_eq_add.mp hcount.symm)
      by_contra hq
      exact hdropped x (List.mem_filter.mpr ⟨hx, by simpa using Ne.symm hq⟩) (by simp)
  · intro h
    rw [List.filter_map]
    exact congrArg (List.map f) (List.filter_congr h)

/-- A stored server whose host is an address, with its id. -/
structure AddressEndpoint (ipText : IpText) where
  server : ServerEndpoint
  ip : IpAddr
  id : UInt64
  parse_host : ipText.parse server.host = some ip
  serverId_eq : server.serverId = some id

namespace AddressEndpoint

variable {ipText : IpText}

def addr (endpoint : AddressEndpoint ipText) : SocketAddr :=
  SocketAddr.new endpoint.ip endpoint.server.port

def pushAll (endpoints : List (AddressEndpoint ipText)) (resolved : ResolvedTargets) :
    ResolvedTargets :=
  endpoints.foldl (fun resolved endpoint => resolved.push endpoint.addr (some endpoint.id)) resolved

theorem resolveTargets_eq (resolver : Resolver) (endpoints : List (AddressEndpoint ipText))
    (resolved : ResolvedTargets) :
    resolveTargets ipText resolver (endpoints.map server) resolved =
      .ok (pushAll endpoints resolved) := by
  induction endpoints generalizing resolved with
  | nil => rfl
  | cons endpoint rest ih =>
    rw [List.map_cons, resolveTargets, endpoint.parse_host, endpoint.serverId_eq]
    exact ih _

theorem targets_pushAll (endpoints : List (AddressEndpoint ipText)) (resolved : ResolvedTargets) :
    (pushAll endpoints resolved).targets = resolved.targets ++ endpoints.map addr := by
  induction endpoints generalizing resolved with
  | nil => simp [pushAll]
  | cons endpoint rest ih =>
    rw [pushAll, List.foldl_cons, ← pushAll, ih]
    simp [ResolvedTargets.push]

/-- An address is recorded with the id of the last endpoint that has it. -/
theorem targetServerIds_pushAll (endpoints : List (AddressEndpoint ipText))
    (resolved : ResolvedTargets) (target : SocketAddr) :
    (∃ last ∈ endpoints, last.addr = target ∧
      (pushAll endpoints resolved).targetServerIds target = some last.id) ∨
    ((∀ endpoint ∈ endpoints, endpoint.addr ≠ target) ∧
      (pushAll endpoints resolved).targetServerIds target = resolved.targetServerIds target) := by
  induction endpoints generalizing resolved with
  | nil => exact .inr ⟨by simp, rfl⟩
  | cons endpoint rest ih =>
    rcases ih (resolved.push endpoint.addr (some endpoint.id)) with
      ⟨last, hlast, haddr, hid⟩ | ⟨hnone, hid⟩
    · exact .inl ⟨last, List.mem_cons_of_mem _ hlast, haddr, hid⟩
    · by_cases htarget : endpoint.addr = target
      · refine .inl ⟨endpoint, List.mem_cons_self, htarget, hid.trans ?_⟩
        simp [ResolvedTargets.push, htarget]
      · refine .inr ⟨?_, hid.trans ?_⟩
        · simpa [htarget] using hnone
        · simp [ResolvedTargets.push, Function.update_of_ne (Ne.symm htarget)]

/-- The snapshot of stored servers whose hosts are addresses. -/
def snapshot (endpoints : List (AddressEndpoint ipText)) : ResolvedTargets :=
  pushAll endpoints .empty

variable {endpoints : List (AddressEndpoint ipText)} {answered : List UInt64}
  {seenAddrs : List SocketAddr}

theorem currentTargets_eq (resolver : Resolver) (endpoints : List (AddressEndpoint ipText)) :
    currentTargets ipText resolver (endpoints.map server) = .ok (snapshot endpoints) :=
  resolveTargets_eq resolver endpoints .empty

theorem exists_recorded {endpoint : AddressEndpoint ipText} (h : endpoint ∈ endpoints) :
    ∃ last ∈ endpoints, last.addr = endpoint.addr ∧
      (snapshot endpoints).targetServerIds endpoint.addr = some last.id := by
  rcases targetServerIds_pushAll endpoints .empty endpoint.addr with hlast | ⟨hnone, -⟩
  · exact hlast
  · exact absurd rfl (hnone endpoint h)

/-- Endpoints that share an address belong to servers that all answered or all did not. -/
def Agrees (endpoints : List (AddressEndpoint ipText)) (answered : List UInt64) : Prop :=
  ∀ e ∈ endpoints, ∀ e' ∈ endpoints, e.addr = e'.addr → (e.id ∈ answered ↔ e'.id ∈ answered)

theorem missing_snapshot_iff (endpoints : List (AddressEndpoint ipText)) (answered : List UInt64)
    (seenAddrs : List SocketAddr) :
    Broadcast.missing (snapshot endpoints) answered seenAddrs (snapshot endpoints).targets =
      (endpoints.filter fun endpoint => endpoint.id ∉ answered).map addr ↔
    Agrees endpoints answered := by
  have htargets : (snapshot endpoints).targets = endpoints.map addr :=
    targets_pushAll endpoints .empty
  rw [Broadcast.missing, htargets, filter_map_eq_map_filter_iff]
  constructor
  · intro h e he e' he' haddr
    have hagree := h e he
    rw [haddr, h e' he'] at hagree
    simpa using hagree.symm
  · intro h endpoint hendpoint
    obtain ⟨last, hlast, haddr, hid⟩ := exists_recorded hendpoint
    have hiff := h last hlast endpoint hendpoint haddr
    simp [Broadcast.responded, hid, hiff]

end AddressEndpoint

open AddressEndpoint Broadcast

namespace Registration

/-- Which endpoints the completion delivery of a request has attempted. -/
theorem attempts_completion_iff {reg : Registration} {ipText : IpText}
    {endpoints : List (AddressEndpoint ipText)} {s : State} {selected : RateLimitResult}
    (hresolved : reg.resolved = snapshot endpoints) (h : reg.lts.Reachable s)
    (hs : s.pc = .settled selected) (hlogged : Logged s.log .completion) :
    attempts (.completion selected) s.log =
      (endpoints.filter fun endpoint => endpoint.id ∉ s.seenServerIds).map addr ↔
    Agrees endpoints s.seenServerIds := by
  rw [(booked_reachable h).attempts_completion_eq hs hlogged, ← missing_snapshot_iff _ _ s.seenAddrs,
    ← hresolved]
  rfl

end Registration

/-- A completion delivery attempts the endpoints of the silent servers, each once, exactly when
endpoints that share an address belong to servers that all answered or all stayed silent; so does
that of a request, in every run. -/
theorem completion_exact_iff (ipText : IpText) (resolver : Resolver)
    (endpoints : List (AddressEndpoint ipText)) (answered : List UInt64)
    (seenAddrs : List SocketAddr) (results : ℕ → Except IoError ℕ) (now : ℕ) (stats : StatsMap) :
    ∃ resolved, currentTargets ipText resolver (endpoints.map server) = .ok resolved ∧
      ((sendToMissing resolved answered seenAddrs results now stats).sent.map Sent.target =
        (endpoints.filter fun endpoint => endpoint.id ∉ answered).map addr ↔
      ∀ e ∈ endpoints, ∀ e' ∈ endpoints, e.addr = e'.addr →
        (e.id ∈ answered ↔ e'.id ∈ answered)) ∧
      ∀ (reg : Registration) s selected, reg.resolved = resolved → reg.lts.Reachable s →
        s.pc = .settled selected → Registration.Logged s.log .completion →
          (attempts (.completion selected) s.log =
            (endpoints.filter fun endpoint => endpoint.id ∉ s.seenServerIds).map addr ↔
          ∀ e ∈ endpoints, ∀ e' ∈ endpoints, e.addr = e'.addr →
            (e.id ∈ s.seenServerIds ↔ e'.id ∈ s.seenServerIds)) := by
  refine ⟨snapshot endpoints, currentTargets_eq resolver endpoints, ?_, ?_⟩
  · rw [sent_sendToMissing, target_attempted]
    exact missing_snapshot_iff endpoints answered seenAddrs
  · intro reg s selected hresolved hreachable hs hlogged
    exact Registration.attempts_completion_iff hresolved hreachable hs hlogged

/-- The endpoint of server 1 is skipped once server 2, listed later with the same address, has
answered. -/
theorem not_completion_exact : ¬ ∀ (ipText : IpText) (resolver : Resolver)
    (endpoints : List (AddressEndpoint ipText)) (answered : List UInt64)
    (seenAddrs : List SocketAddr) (results : ℕ → Except IoError ℕ) (now : ℕ) (stats : StatsMap)
    (resolved : ResolvedTargets),
    currentTargets ipText resolver (endpoints.map server) = .ok resolved →
      (sendToMissing resolved answered seenAddrs results now stats).sent.map Sent.target =
        (endpoints.filter fun endpoint => endpoint.id ∉ answered).map addr := by
  intro h
  let endpoint (id : UInt64) : AddressEndpoint sampleIpText :=
    ⟨⟨"127.0.0.1", 1, some id⟩, loopback, id, rfl, rfl⟩
  have hskips := h sampleIpText ⟨fun _ => .ok [], fun _ => .ok []⟩ [endpoint 1, endpoint 2] [2] []
    (fun _ => .ok 100) 0 (fun _ => none) _ (currentTargets_eq _ _)
  revert hskips
  decide

end Ratelimitly
