import Mathlib.Tactic
import Ratelimitly.Families

/-! Source ports go round the whole dynamic range. -/
namespace Ratelimitly

open Lib

variable {bindUdp : BindUdp} {port port' : UInt16} {tries : ℕ} {portOf : ℕ → UInt16}
  {sockets : FamilySockets}

/-! ### The cyclic order of ports -/

theorem nextSteeringPort_of_lt (h : port < steeringPortMin) :
    nextSteeringPort port = steeringPortMin := by
  rw [nextSteeringPort, if_pos fun hin => absurd hin.1 (UInt16.not_le.mpr h)]

theorem le_nextSteeringPort (port : UInt16) : steeringPortMin ≤ nextSteeringPort port := by
  unfold nextSteeringPort
  split
  next => exact UInt16.le_refl _
  next hin =>
    obtain ⟨hge, hlt⟩ := not_not.mp hin
    rw [UInt16.le_iff_toNat_le] at hge ⊢
    rw [UInt16.lt_iff_toNat_lt] at hlt
    rw [UInt16.toNat_add]
    simp only [steeringPortMin, UInt16.reduceToNat] at *
    omega

theorem toNat_nextSteeringPort (h : steeringPortMin ≤ port) :
    (nextSteeringPort port).toNat = 49152 + (port.toNat - 49152 + 1) % 16384 := by
  have hle := port.toNat_lt
  rw [UInt16.le_iff_toNat_le] at h
  unfold nextSteeringPort
  split
  next hout =>
    have heq : port.toNat = 65535 := by
      by_contra hne
      refine hout ⟨UInt16.le_iff_toNat_le.mpr h, UInt16.lt_iff_toNat_lt.mpr ?_⟩
      simp only [UInt16.reduceToNat]
      omega
    simp [heq, steeringPortMin]
  next hin =>
    have hlt := UInt16.lt_iff_toNat_lt.mp (not_not.mp hin).2
    rw [UInt16.toNat_add]
    simp only [steeringPortMin, UInt16.reduceToNat] at *
    omega

/-- From a port of the range on, the ports go round it in order. -/
theorem toNat_iterate_nextSteeringPort (h : steeringPortMin ≤ port) (d : ℕ) :
    (nextSteeringPort^[d] port).toNat = 49152 + (port.toNat - 49152 + d) % 16384 := by
  induction d with
  | zero =>
    have hle := port.toNat_lt
    rw [UInt16.le_iff_toNat_le] at h
    simp only [steeringPortMin, UInt16.reduceToNat] at h
    simp only [Function.iterate_zero, id]
    omega
  | succ d ih =>
    have hmem : steeringPortMin ≤ nextSteeringPort^[d] port := by
      rw [UInt16.le_iff_toNat_le, ih]
      simp [steeringPortMin]
    rw [Function.iterate_succ_apply', toNat_nextSteeringPort hmem, ih]
    omega

theorem le_iterate_nextSteeringPort (h : steeringPortMin ≤ port) (d : ℕ) :
    steeringPortMin ≤ nextSteeringPort^[d] port := by
  rw [UInt16.le_iff_toNat_le, toNat_iterate_nextSteeringPort h]
  simp [steeringPortMin]

theorem iterate_eq_iff (h : steeringPortMin ≤ port) (d e : ℕ) :
    nextSteeringPort^[d] port = nextSteeringPort^[e] port ↔ d % 16384 = e % 16384 := by
  rw [← UInt16.toNat_inj, toNat_iterate_nextSteeringPort h, toNat_iterate_nextSteeringPort h]
  omega

/-- Any port of the range comes within one round. -/
theorem exists_iterate_eq (h : steeringPortMin ≤ port) (h' : steeringPortMin ≤ port') (k : ℕ) :
    ∃ d, k ≤ d ∧ d < k + 16384 ∧ nextSteeringPort^[d] port = port' := by
  have hlt := port.toNat_lt
  have hlt' := port'.toNat_lt
  rw [UInt16.le_iff_toNat_le] at h'
  have hport := UInt16.le_iff_toNat_le.mp h
  simp only [steeringPortMin, UInt16.reduceToNat] at h' hport
  refine ⟨k + (port'.toNat + 16384 - port.toNat + (16384 - k % 16384)) % 16384, by omega, by omega, ?_⟩
  rw [← UInt16.toNat_inj, toNat_iterate_nextSteeringPort h]
  omega

/-- The `n`-th port after `port` in cyclic order over the dynamic range. -/
def portAfter (port : UInt16) (n : ℕ) : UInt16 :=
  .ofNat (49152 + (if 49152 ≤ port.toNat then port.toNat - 49152 + 1 + n else n) % 16384)

theorem iterate_eq_portAfter (port : UInt16) (n : ℕ) :
    nextSteeringPort^[n] (nextSteeringPort port) = portAfter port n := by
  rw [← UInt16.toNat_inj, toNat_iterate_nextSteeringPort (le_nextSteeringPort port), portAfter,
    UInt16.toNat_ofNat_of_lt' (by simp only [UInt16.size]; omega)]
  split
  next h =>
    rw [toNat_nextSteeringPort (UInt16.le_iff_toNat_le.mpr h)]
    omega
  next h =>
    rw [nextSteeringPort_of_lt (UInt16.lt_iff_toNat_lt.mpr (Nat.lt_of_not_le h))]
    simp [steeringPortMin]

/-! ### One rebind -/

/-- The port of `local_addr`. -/
def FamilySockets.localPort (portOf : ℕ → UInt16) (sockets : FamilySockets) : Option UInt16 :=
  (sockets.v4.or sockets.v6).map portOf

/-- The ports that the loop of `bind_next_steering_socket` binds or tries to bind. -/
def triedPorts (bindUdp : BindUdp) : ℕ → UInt16 → List UInt16
  | 0, _ => []
  | tries + 1, candidate =>
    candidate ::
      match FamilySockets.bind bindUdp candidate with
      | .error (.io error) =>
        if error.kind = .addrInUse then triedPorts bindUdp tries (nextSteeringPort candidate) else []
      | _ => []

/-- In the range a bind fails only because the port is in use, and yields sockets on the port. -/
structure Exclusive (portOf : ℕ → UInt16) (bindUdp : BindUdp) : Prop where
  binds : ∀ port, steeringPortMin ≤ port → ¬ PortInUse bindUdp port → PortBinds bindUdp port
  portOf : ∀ port ipv6 socket, steeringPortMin ≤ port → bindUdp port ipv6 = .ok socket →
    portOf socket = port

/-- A rebind: where its search starts, and the binds at that time. -/
structure Rebind where
  first : UInt16
  bindUdp : BindUdp

namespace Rebind

def search (r : Rebind) : Except CoreError (FamilySockets × UInt16) :=
  bindLoop r.bindUdp steeringPortCount r.first none

/-- The port that was selected. -/
def selected (portOf : ℕ → UInt16) (r : Rebind) : Option UInt16 :=
  match r.search with
  | .ok (sockets, _) => sockets.localPort portOf
  | .error _ => none

def tried (r : Rebind) : List UInt16 := triedPorts r.bindUdp steeringPortCount r.first

/-- The search went over the port: it was selected, or tried and found in use. -/
def Covers (portOf : ℕ → UInt16) (r : Rebind) (port : UInt16) : Prop :=
  r.selected portOf = some port ∨ port ∈ r.tried ∧ PortInUse r.bindUdp port

end Rebind

theorem triedPorts_of_inUse {n : ℕ} (hn : n ≤ tries)
    (hinUse : ∀ i < n, PortInUse bindUdp (nextSteeringPort^[i] port)) :
    triedPorts bindUdp tries port = (List.range n).map (nextSteeringPort^[·] port) ++
      triedPorts bindUdp (tries - n) (nextSteeringPort^[n] port) := by
  induction n generalizing tries port with
  | zero => simp
  | succ n ih =>
    cases tries with
    | zero => omega
    | succ tries =>
      have hport : PortInUse bindUdp port := hinUse 0 (Nat.succ_pos n)
      have hrest : triedPorts bindUdp tries (nextSteeringPort port) =
          (List.range n).map (nextSteeringPort^[·] (nextSteeringPort port)) ++
            triedPorts bindUdp (tries - n) (nextSteeringPort^[n] (nextSteeringPort port)) :=
        ih (by omega) fun i hi => hinUse (i + 1) (by omega)
      rw [triedPorts, FamilySockets.bind_of_inUse hport]
      simp only [if_true, hrest, List.range_succ_eq_map, List.map_cons, List.map_map]
      rw [Nat.add_sub_add_right]
      rfl

theorem FamilySockets.localPort_of_bind (hexclusive : Exclusive portOf bindUdp)
    (hport : steeringPortMin ≤ port) (h : bind bindUdp port = .ok sockets) :
    sockets.localPort portOf = some port := by
  obtain ⟨hfree, hsockets⟩ := bind_eq_ok h
  obtain ⟨-, ipv6, socket, hsocket⟩ := hexclusive.binds port hport hfree
  have h4 : sockets.v4 = (bindUdp port false).toOption := hsockets false
  have h6 : sockets.v6 = (bindUdp port true).toOption := hsockets true
  rw [localPort, h4, h6]
  cases hres : bindUdp port false with
  | ok socket => simp [Except.toOption, hexclusive.portOf port false socket hport hres]
  | error error =>
    cases ipv6 with
    | false =>
      rw [hres] at hsocket
      cases hsocket
    | true => simp [Except.toOption, hsocket, hexclusive.portOf port true socket hport hsocket]

namespace Rebind

variable {r : Rebind}

/-- Under exclusive binds the search ends with the first port that is not in use. -/
theorem search_cases (h : Exclusive portOf r.bindUdp) (hfirst : steeringPortMin ≤ r.first) :
    (∃ n < steeringPortCount, (∀ i < n, PortInUse r.bindUdp (nextSteeringPort^[i] r.first)) ∧
      ¬ PortInUse r.bindUdp (nextSteeringPort^[n] r.first) ∧
      (∃ sockets, r.search = .ok (sockets, nextSteeringPort^[n + 1] r.first)) ∧
      r.selected portOf = some (nextSteeringPort^[n] r.first)) ∨
    (∀ i < steeringPortCount, PortInUse r.bindUdp (nextSteeringPort^[i] r.first)) ∧
      (∃ error, r.search = .error error) ∧ r.selected portOf = none := by
  cases hsearch : r.search with
  | ok found =>
    obtain ⟨sockets, next⟩ := found
    obtain ⟨n, hn, hinUse, hbind, rfl⟩ := bindLoop_eq_ok hsearch
    refine .inl ⟨n, hn, hinUse, (FamilySockets.bind_eq_ok hbind).1, ⟨sockets, rfl⟩, ?_⟩
    rw [selected, hsearch]
    exact FamilySockets.localPort_of_bind h (le_iterate_nextSteeringPort hfirst n) hbind
  | error error =>
    refine .inr ⟨fun i hi => ?_, ⟨error, rfl⟩, by rw [selected, hsearch]⟩
    have hnot : ¬ PortFound r.bindUdp steeringPortCount r.first := by
      rw [← exists_bindLoop_eq_ok_iff steeringPortCount r.first none]
      rintro ⟨found, hfound⟩
      cases hsearch.symm.trans hfound
    induction i using Nat.strong_induction_on with
    | _ i ih =>
      by_contra hfree
      exact hnot ⟨i, hi, fun j hj => ih j hj (hj.trans hi), h.binds _ (le_iterate_nextSteeringPort hfirst i) hfree⟩

theorem selected_eq_some_iff (h : Exclusive portOf r.bindUdp) (hfirst : steeringPortMin ≤ r.first)
    {p : UInt16} :
    r.selected portOf = some p ↔ ∃ n < steeringPortCount, p = nextSteeringPort^[n] r.first ∧
      ¬ PortInUse r.bindUdp p ∧ ∀ i < n, PortInUse r.bindUdp (nextSteeringPort^[i] r.first) := by
  rcases search_cases h hfirst with ⟨n, hn, hinUse, hfree, -, hselected⟩ | ⟨hinUse, -, hselected⟩
  · rw [hselected, Option.some.injEq]
    constructor
    · rintro rfl
      exact ⟨n, hn, rfl, hfree, hinUse⟩
    · rintro ⟨m, hm, rfl, hfree', hinUse'⟩
      rcases lt_trichotomy m n with hlt | rfl | hgt
      · exact absurd (hinUse m hlt) hfree'
      · rfl
      · exact absurd (hinUse' n hgt) hfree
  · rw [hselected]
    constructor
    · nofun
    · rintro ⟨n, hn, rfl, hfree, -⟩
      exact absurd (hinUse n hn) hfree

/-- A search fails only after it has tried every port of the range once. -/
theorem selected_eq_none_iff (h : Exclusive portOf r.bindUdp) (hfirst : steeringPortMin ≤ r.first) :
    r.selected portOf = none ↔ ∀ p, steeringPortMin ≤ p → PortInUse r.bindUdp p := by
  rcases search_cases h hfirst with ⟨n, hn, hinUse, hfree, -, hselected⟩ | ⟨hinUse, -, hselected⟩
  · rw [hselected]
    constructor
    · nofun
    · intro hall
      exact absurd (hall _ (le_iterate_nextSteeringPort hfirst n)) hfree
  · refine ⟨fun _ p hp => ?_, fun _ => hselected⟩
    obtain ⟨d, -, hd, rfl⟩ := exists_iterate_eq hfirst hp 0
    exact hinUse d (hd.trans_eq (Nat.zero_add _))

theorem tried_of_selected_none (h : Exclusive portOf r.bindUdp)
    (hfirst : steeringPortMin ≤ r.first) (hselected : r.selected portOf = none) :
    r.tried.Nodup ∧ ∀ p, p ∈ r.tried ↔ steeringPortMin ≤ p := by
  rcases search_cases h hfirst with ⟨n, -, -, -, -, hsome⟩ | ⟨hinUse, -, -⟩
  · rw [hselected] at hsome
    cases hsome
  · have htried : r.tried = (List.range steeringPortCount).map (nextSteeringPort^[·] r.first) := by
      rw [tried, triedPorts_of_inUse le_rfl hinUse, Nat.sub_self, triedPorts, List.append_nil]
    rw [htried]
    constructor
    · refine (List.nodup_map_iff_inj_on List.nodup_range).mpr fun d hd e he heq => ?_
      rw [iterate_eq_iff hfirst] at heq
      rw [List.mem_range] at hd he
      change d < 16384 at hd
      change e < 16384 at he
      omega
    · intro p
      rw [List.mem_map]
      constructor
      · rintro ⟨d, -, rfl⟩
        exact le_iterate_nextSteeringPort hfirst d
      · intro hp
        obtain ⟨d, -, hd, rfl⟩ := exists_iterate_eq hfirst hp 0
        exact ⟨d, List.mem_range.mpr (hd.trans_eq (Nat.zero_add _)), rfl⟩

/-- A search that selects a port has gone over every port up to it. -/
theorem covers_of_selected (h : Exclusive portOf r.bindUdp) (hfirst : steeringPortMin ≤ r.first)
    {p : UInt16} (hselected : r.selected portOf = some p) :
    ∃ n, p = nextSteeringPort^[n] r.first ∧
      ∀ d ≤ n, r.Covers portOf (nextSteeringPort^[d] r.first) := by
  rcases search_cases h hfirst with ⟨n, hn, hinUse, -, -, hsome⟩ | ⟨-, -, hnone⟩
  · obtain rfl := Option.some.inj (hselected.symm.trans hsome)
    refine ⟨n, rfl, fun d hd => ?_⟩
    rcases hd.eq_or_lt with rfl | hlt
    · exact .inl hsome
    · refine .inr ⟨?_, hinUse d hlt⟩
      rw [tried, triedPorts_of_inUse hn.le hinUse]
      exact List.mem_append_left _ (List.mem_map.mpr ⟨d, List.mem_range.mpr hlt, rfl⟩)
  · rw [hselected] at hnone
    cases hnone

end Rebind

/-! ### A run of rebinds -/

/-- The port that was selected last; the latest rebind stands first. -/
def lastSelected (portOf : ℕ → UInt16) (log : List Rebind) : Option UInt16 :=
  log.findSome? (·.selected portOf)

/-- Every search starts after the port that was selected before it. -/
def Chained (portOf : ℕ → UInt16) (initial : UInt16) : List Rebind → Prop
  | [] => True
  | r :: log => Exclusive portOf r.bindUdp ∧
      r.first = nextSteeringPort ((lastSelected portOf log).getD initial) ∧
        Chained portOf initial log

variable {initial p q : UInt16} {r ri rj : Rebind} {log newer mid older : List Rebind}

theorem lastSelected_cons : lastSelected portOf (r :: log) =
    (r.selected portOf).or (lastSelected portOf log) := by
  rw [lastSelected, List.findSome?_cons]
  cases r.selected portOf <;> rfl

theorem Chained.of_append (h : Chained portOf initial (newer ++ log)) :
    Chained portOf initial log := by
  induction newer with
  | nil => exact h
  | cons r newer ih => exact ih h.2.2

theorem Chained.first (h : Chained portOf initial (r :: log)) : steeringPortMin ≤ r.first :=
  h.2.1 ▸ le_nextSteeringPort _

/-- The ports from one selected port to the last selected one have all been gone over since. -/
theorem Chained.covered (h : Chained portOf initial (mid ++ ri :: older))
    (hi : ri.selected portOf = some p) :
    ∃ last, lastSelected portOf (mid ++ ri :: older) = some (nextSteeringPort^[last] p) ∧
      (∀ r ∈ mid, r.selected portOf ≠ none → 1 ≤ last) ∧
      ∀ d, 1 ≤ d → d ≤ last → ∃ r ∈ mid, r.Covers portOf (nextSteeringPort^[d] p) := by
  induction mid with
  | nil =>
    refine ⟨0, ?_, by simp, fun d hd hd' => by omega⟩
    rw [List.nil_append, lastSelected_cons, hi]
    rfl
  | cons r mid ih =>
    rw [List.cons_append] at h ⊢
    have hmin := h.first
    obtain ⟨hexclusive, hfirst, hmid⟩ := h
    obtain ⟨last, hlast, hpos, hcovers⟩ := ih hmid
    rw [hlast, Option.getD_some, ← Function.iterate_succ_apply' nextSteeringPort] at hfirst
    rw [lastSelected_cons, hlast]
    cases hselected : r.selected portOf with
    | none =>
      refine ⟨last, rfl, fun r' hr' hne => ?_, fun d hd hd' => ?_⟩
      · rcases List.mem_cons.mp hr' with rfl | hr'
        · exact absurd hselected hne
        · exact hpos r' hr' hne
      · obtain ⟨r', hr', hcover⟩ := hcovers d hd hd'
        exact ⟨r', List.mem_cons_of_mem _ hr', hcover⟩
    | some port =>
      obtain ⟨n, rfl, hsearch⟩ := Rebind.covers_of_selected hexclusive hmin hselected
      refine ⟨n + (last + 1), ?_, fun _ _ _ => by omega, fun d hd hd' => ?_⟩
      · rw [hfirst, ← Function.iterate_add_apply]
        rfl
      · by_cases hle : d ≤ last
        · obtain ⟨r', hr', hcover⟩ := hcovers d hd hle
          exact ⟨r', List.mem_cons_of_mem _ hr', hcover⟩
        · have hcover := hsearch (d - (last + 1)) (by omega)
          rw [hfirst, ← Function.iterate_add_apply, show d - (last + 1) + (last + 1) = d by omega]
            at hcover
          exact ⟨r, List.mem_cons_self, hcover⟩

theorem Chained.range_of_selected (h : Chained portOf initial (r :: log))
    (hselected : r.selected portOf = some p) : steeringPortMin ≤ p := by
  obtain ⟨n, rfl, -⟩ := Rebind.covers_of_selected h.1 h.first hselected
  exact le_iterate_nextSteeringPort h.first n

/-- Between two selections of one port every port of the range has been gone over. -/
theorem Chained.all_covered (h : Chained portOf initial (newer ++ rj :: (mid ++ ri :: older)))
    (hi : ri.selected portOf = some p) (hj : rj.selected portOf = some p)
    (hq : steeringPortMin ≤ q) : ∃ r ∈ rj :: mid, r.Covers portOf q := by
  have hchained : Chained portOf initial ((rj :: mid) ++ ri :: older) := h.of_append
  have hp : steeringPortMin ≤ p := hchained.range_of_selected hj
  obtain ⟨last, hlast, hpos, hcovers⟩ := hchained.covered hi
  -- the last selected port is `p` again, so a whole round lies between
  rw [List.cons_append, lastSelected_cons, hj, Option.some_or, Option.some.injEq] at hlast
  have hround : last % 16384 = 0 := (iterate_eq_iff hp last 0).mp hlast.symm
  have hone : 1 ≤ last := hpos rj List.mem_cons_self (by rw [hj]; exact Option.some_ne_none p)
  obtain ⟨d, hd, hd', rfl⟩ := exists_iterate_eq hp hq 1
  exact hcovers d hd (by omega)

/-- A rebind that goes on from `prev`: it selects the first port after it that is not in use, and
fails only if there is none, after it has tried each. -/
structure Rebind.Rotates (portOf : ℕ → UInt16) (prev : UInt16) (r : Rebind) : Prop where
  selects : ∀ p, r.selected portOf = some p ↔ ∃ n < 16384, p = portAfter prev n ∧
    ¬ PortInUse r.bindUdp p ∧ ∀ i < n, PortInUse r.bindUdp (portAfter prev i)
  fails : r.selected portOf = none ↔ ∀ p, steeringPortMin ≤ p → PortInUse r.bindUdp p
  tries : r.selected portOf = none → r.tried.Nodup ∧ ∀ p, p ∈ r.tried ↔ steeringPortMin ≤ p

theorem Chained.rotates (h : Chained portOf initial (r :: log)) :
    r.Rotates portOf ((lastSelected portOf log).getD initial) := by
  refine ⟨fun p => ?_, Rebind.selected_eq_none_iff h.1 h.first,
    Rebind.tried_of_selected_none h.1 h.first⟩
  rw [Rebind.selected_eq_some_iff h.1 h.first, h.2.1]
  simp only [iterate_eq_portAfter]
  rfl

namespace Steering

variable {pc pc' : Pc} {reply : Reply} {stats' : SteeringStats}

/-- The next port stays as it was read, unless a port is selected in this step. -/
theorem nextPort_of_step (h : step pc reply = some pc') (hstats : pc'.stats = some stats') :
    (∃ stats, (pc.stats = some stats ∨ reply = .stats stats) ∧
      stats'.nextPort = stats.nextPort) ∨
    ∃ stats current bindUdp newSocket, pc = .socketRead stats ∧
      reply = .socketRead (.ok current) bindUdp ∧
      bindNextSteeringSocket bindUdp stats.nextPort current.port =
        .ok (newSocket, stats'.nextPort) := by
  have hawait {stats : SteeringStats} {nextEpoch ready : UInt64} {actualPort : UInt16}
      (h : (awaitEpoch stats nextEpoch actualPort ready).stats = some stats') :
      stats'.nextPort = stats.nextPort := by
    unfold awaitEpoch at h
    split at h <;> cases h <;> rfl
  unfold step at h
  split at h
  case h_1 =>
    cases h
    cases hstats
  case h_2 | h_3 =>
    cases h
    split at hstats <;> cases hstats
  case h_4 stats =>
    cases h
    cases hstats
    exact .inl ⟨stats, .inr rfl, rfl⟩
  case h_5 stats localAddr bindUdp =>
    cases localAddr with
    | error error =>
      cases h
      cases hstats
      exact .inl ⟨_, .inl rfl, rfl⟩
    | ok current =>
      dsimp only at h
      split at h
      next =>
        cases h
        cases hstats
        exact .inl ⟨_, .inl rfl, rfl⟩
      next newSocket nextPort hbind =>
        cases h
        cases hstats
        exact .inr ⟨_, current, bindUdp, newSocket, rfl, rfl, hbind⟩
  case h_6 =>
    cases h
    cases hstats
    exact .inl ⟨_, .inl rfl, rfl⟩
  case h_7 stats newSocket epoch localAddr ready =>
    cases h
    cases localAddr with
    | error error =>
      cases hstats
      exact .inl ⟨_, .inl rfl, rfl⟩
    | ok actual => exact .inl ⟨stats, .inl rfl, hawait hstats⟩
  case h_8 stats nextEpoch actualPort ready =>
    cases h
    cases ready with
    | none =>
      cases hstats
      exact .inl ⟨_, .inl rfl, rfl⟩
    | some ready => exact .inl ⟨stats, .inl rfl, hawait hstats⟩
  case h_9 => cases h

theorem rebinding_of_stats {reply : Reply} {stats : SteeringStats} (h : step pc reply = some pc')
    (hstats : pc.stats = some stats) : pc.rebinding = true := by
  cases pc with
  | socketRead | epochReadyLock | socketWrite | epochChanged => rfl
  | done => cases h
  | _ => cases hstats

end Steering

namespace Client

variable {client : CoreClient} {s t : State} {event : Event} {i j : ℕ} {slot : Slot} {query : Query}
  {pc pc' : Request.Pc} {wake : Wake} {reply : Request.Reply}

/-- A step of the steering of call `i`. -/
structure Steers (s : State) (i : ℕ) (flight : Flight)
    (result : RateLimitResult) (steering : Steering.Pc) (wake : Wake) (reply : Steering.Reply)
    (steering' : Steering.Pc) (t : State) : Prop where
  here : s.pcAt i = some (.steering flight result steering)
  answers : ∃ channel, Answers s channel wake (.steering reply)
  step : Steering.step steering reply = some steering'
  stats : t.stats = steering'.stats.getD s.stats
  pcs : ∀ j, t.pcAt j = if j = i then some (Request.steer flight result steering') else s.pcAt j

theorem stats_move : (s.move client i slot query pc pc' wake reply).stats =
    match pc, reply with
    | .steering _ _ pc, .steering reply => ((Steering.step pc reply).bind (·.stats)).getD s.stats
    | _, _ => s.stats := by
  unfold State.move
  cases pc with
  | steering _ _ pc =>
    cases reply with
    | steering reply =>
      dsimp only
      unfold State.steer
      split <;> rfl
    | _ => rfl
  | _ => rfl

/-- A step that is none of a call's steering. -/
structure Unsteered (s : State) (event : Event) (t : State) : Prop where
  stats : t.stats = s.stats
  rebinding : ∀ j pc, t.pcAt j = some pc → pc.rebinding = true → s.pcAt j = some pc
  event : ∀ i wake flight result steering, event = .wake i wake →
    s.pcAt i ≠ some (.steering flight result steering)

theorem unsteered_of_idle (client : CoreClient) (hidle : Idle client s t) (hstats : t.stats = s.stats)
    (hevent : ∀ i wake, event = .wake i wake → s.pcAt i = none) : Unsteered s event t := by
  refine ⟨hstats, fun j pc hpc hrebinding => ?_, fun i wake flight result steering h => ?_⟩
  · rcases hidle.pcAt j with heq | ⟨-, hnew⟩
    · exact heq ▸ hpc
    · obtain ⟨query, rfl⟩ := hnew pc hpc
      rw [Request.not_rebinding_of_not_applying Request.not_applying_begin.1] at hrebinding
      cases hrebinding
  · rw [hevent i wake h]
    nofun

theorem steers_of_step (hstep : step client s event = some t) : Unsteered s event t ∨
    ∃ i flight result steering wake reply steering', event = .wake i wake ∧
      Steers s i flight result steering wake reply steering' t := by
  cases moves_of_step hstep with
  | tick | routerRead | routerAck | epochChanged | datagram | receiveError =>
    refine .inl (unsteered_of_idle client ?_ rfl nofun)
    exact idle_of_slots rfl rfl rfl rfl rfl rfl rfl
  | check => exact .inl (unsteered_of_idle client (idle_check _) rfl nofun)
  | report => exact .inl (unsteered_of_idle client (idle_report _) rfl nofun)
  | deliver => exact .inl (unsteered_of_idle client (idle_deliver _) rfl nofun)
  | reporting hslot _ hcall =>
    refine .inl (unsteered_of_idle client (idle_reporting hslot hcall) rfl ?_)
    intro i wake hevent
    cases hevent
    rw [State.pcAt, hslot, Option.bind_some, Slot.live, hcall]
    split
    next hcall' => cases hcall'
    next => rfl
  | drop hslot =>
    refine .inl ⟨rfl, fun j pc hpc _ => ?_, fun i wake _ _ _ h => by cases h⟩
    rw [pcAt_dropCall hslot] at hpc
    split at hpc
    · cases hpc
    · exact hpc
  | @request i slot query pc wake reply pc' hslot hdropped hcall hreply hrequest =>
    have hpcs (j : ℕ) : (s.move client i slot query pc pc' wake reply).pcAt j =
        if j = i then some pc' else s.pcAt j := pcAt_move hslot hdropped j
    have hpc := pcAt_of_slot hslot hdropped hcall
    have hstats := @stats_move client s i slot query pc pc' wake reply
    cases Request.steps_of_step hrequest with
    | @steering flight result steering reply steering' hsteering =>
      refine .inr ⟨i, flight, result, steering, wake, reply, steering', rfl, hpc,
        ⟨slot.channel, answers_of_requestReply hreply⟩, hsteering, ?_, hpcs⟩
      rw [hstats]
      simp only [hsteering, Option.bind_some]
    | _ =>
      refine .inl ⟨hstats, fun j pc hpc hrebinding => ?_, ?_⟩
      · rw [hpcs] at hpc
        split at hpc
        · cases hpc
          rcases Request.rebinding_of_steps (Request.steps_of_step hrequest) hrebinding with
            h | ⟨_, h⟩ <;> cases h
        · exact hpc
      · intro i wake flight result steering h h'
        cases h
        cases hpc.symm.trans h'

/-! ### The rebinds of a run -/

/-- The search of `bind_next_steering_socket`. -/
def rebindFrom (stats : SteeringStats) (current : SocketAddr) (bindUdp : BindUdp) : Rebind :=
  ⟨firstSteeringPort stats.nextPort current.port, bindUdp⟩

/-- The rebind that a step makes. -/
def rebinds (s : State) : Event → List Rebind
  | .wake i (.socketRead (.ok current) bindUdp) =>
    match s.pcAt i with
    | some (.steering _ _ (.socketRead stats)) => [rebindFrom stats current bindUdp]
    | _ => []
  | _ => []

/-- At a rebind binds are exclusive, and the client's own port is in use. -/
def PortsHeld (portOf : ℕ → UInt16) (s : State) : Event → Prop
  | .wake _ (.socketRead (.ok current) bindUdp) => Exclusive portOf bindUdp ∧
      s.socket.localPort portOf = some current.port ∧ PortInUse bindUdp current.port
  | _ => True

/-- A client that starts on the port `initial`, with its rebinds, the latest first. -/
def rotation (client : CoreClient) (portOf : ℕ → UInt16) (initial : UInt16) :
    Lts (State × List Rebind) Event where
  init s := (lts client).init s.1 ∧ s.1.socket.localPort portOf = some initial ∧ s.2 = []
  step s event t := PortsHeld portOf s.1 event ∧ step client s.1 event = some t.1 ∧
    t.2 = rebinds s.1 event ++ s.2

theorem reachable_of_rotation {portOf : ℕ → UInt16} {initial : UInt16} {s : State × List Rebind}
    (h : (rotation client portOf initial).Reachable s) : (lts client).Reachable s.1 := by
  induction h with
  | init hs => exact .init hs.1
  | step _ hs ih => exact ih.step hs.2.1

/-- The stored next port follows the last selected one, which a pending socket is on. -/
structure Cursor (portOf : ℕ → UInt16) (initial : UInt16) (s : State) (log : List Rebind) :
    Prop where
  chained : Chained portOf initial log
  nextPort : s.stats.nextPort = ((lastSelected portOf log).map nextSteeringPort).getD 0
  initial : lastSelected portOf log = none → s.socket.localPort portOf = some initial
  held : ∀ i flight result steering stats, s.pcAt i = some (.steering flight result steering) →
    steering.rebinding = true → steering.stats = some stats → stats.nextPort = s.stats.nextPort
  pending : ∀ i pc newSocket, s.pcAt i = some pc → pending pc = some newSocket →
    ∃ p, lastSelected portOf log = some p ∧ newSocket.localPort portOf = some p ∧
      s.socket.localPort portOf ≠ some p

variable {portOf : ℕ → UInt16} {initial : UInt16} {log : List Rebind} {flight : Flight}
  {result : RateLimitResult} {stats : SteeringStats} {current : SocketAddr} {bindUdp : BindUdp}

theorem rebinds_of_socketRead
    (hpc : s.pcAt i = some (.steering flight result (.socketRead stats))) :
    rebinds s (.wake i (.socketRead (.ok current) bindUdp)) = [rebindFrom stats current bindUdp] := by
  simp only [rebinds, hpc]

theorem rebinds_eq_nil (h : ∀ i current bindUdp flight result stats,
    event = .wake i (.socketRead (.ok current) bindUdp) →
      s.pcAt i ≠ some (.steering flight result (.socketRead stats))) : rebinds s event = [] := by
  unfold rebinds
  split
  next i current bindUdp =>
    split
    next flight result stats hpc => exact absurd hpc (h i current bindUdp flight result stats rfl)
    next => rfl
  next => rfl

/-- A search starts after the last selected port. -/
theorem Cursor.first (h : Cursor portOf initial s log)
    (hpc : s.pcAt i = some (.steering flight result (.socketRead stats)))
    (hport : s.socket.localPort portOf = some current.port) :
    firstSteeringPort stats.nextPort current.port =
      nextSteeringPort ((lastSelected portOf log).getD initial) := by
  rw [h.held i flight result _ stats hpc rfl rfl, h.nextPort]
  cases hlast : lastSelected portOf log with
  | none =>
    obtain rfl := Option.some.inj (hport.symm.trans (h.initial hlast))
    rfl
  | some p =>
    have hne : nextSteeringPort p ≠ 0 := by
      intro hzero
      have hle := le_nextSteeringPort p
      rw [hzero] at hle
      exact absurd hle (by decide)
    exact if_neg hne

/-- What the step of a rebind does. -/
structure Rebinds (portOf : ℕ → UInt16) (s : State) (i : ℕ) (flight : Flight)
    (result : RateLimitResult) (current : SocketAddr) (r : Rebind) (t : State) : Prop where
  same : SameSocket s t
  others : ∀ j ≠ i, t.pcAt j = s.pcAt j
  moved : ∀ p, r.selected portOf = some p → p ≠ current.port ∧
    t.stats.nextPort = nextSteeringPort p ∧ ∃ newSocket, newSocket.localPort portOf = some p ∧
      t.pcAt i = some (.steering flight result (.epochReadyLock t.stats newSocket))
  failed : r.selected portOf = none → t.stats.nextPort = s.stats.nextPort ∧
    ∃ error, t.pcAt i = some (.returned (some flight) (.err error))

theorem Cursor.rebinds_of_step (h : Cursor portOf initial s log)
    (hpc : s.pcAt i = some (.steering flight result (.socketRead stats)))
    (hheld : PortsHeld portOf s (.wake i (.socketRead (.ok current) bindUdp)))
    (hstep : step client s (.wake i (.socketRead (.ok current) bindUdp)) = some t) :
    Rebinds portOf s i flight result current (rebindFrom stats current bindUdp) t := by
  obtain ⟨hexclusive, hport, hinUse⟩ := hheld
  have hmin : steeringPortMin ≤ (rebindFrom stats current bindUdp).first := by
    rw [rebindFrom, h.first hpc hport]
    exact le_nextSteeringPort _
  have hsame : SameSocket s t := by
    rcases sameSocket_of_changes (changes_of_step hstep) with
      hsame | ⟨j, _, _, _, _, _, _, hevent, hpc', hreplaces, -⟩
    · exact hsame
    · cases hevent
      cases hpc.symm.trans hpc'
      exact hreplaces.elim
  rcases steers_of_step hstep with hnone | ⟨j, f, r, steering, wake, reply, steering', hevent, hsteers⟩
  · exact absurd hpc (hnone.event i _ flight result _ rfl)
  cases hevent
  cases hpc.symm.trans hsteers.here
  obtain ⟨channel, hanswers⟩ := hsteers.answers
  have hsteering := hsteers.step
  have hhere := hsteers.pcs i
  have hstats := hsteers.stats
  cases reply with
  | socketRead localAddr bindUdp' =>
    cases hanswers
    refine ⟨hsame, fun j hj => (hsteers.pcs j).trans (if_neg hj), fun p hselected => ?_,
      fun hselected => ?_⟩
    · rcases Rebind.search_cases (r := rebindFrom stats current bindUdp) hexclusive hmin with
        ⟨n, -, -, hfree, ⟨sockets, hsearch⟩, hsome⟩ | ⟨-, -, hnone⟩
      · obtain rfl := Option.some.inj (hselected.symm.trans hsome)
        rw [Rebind.selected, hsearch] at hselected
        rw [Steering.step, show bindNextSteeringSocket bindUdp stats.nextPort current.port = _
          from hsearch] at hsteering
        cases hsteering
        rw [if_pos rfl] at hhere
        rw [Steering.Pc.stats, Option.getD_some] at hstats
        refine ⟨fun heq => ?_, ?_, sockets, hselected, ?_⟩
        · rw [heq] at hfree
          exact hfree hinUse
        · rw [hstats]
          exact Function.iterate_succ_apply' _ _ _
        · rw [hhere, hstats]
          rfl
      · rw [hselected] at hnone
        cases hnone
    · rcases Rebind.search_cases (r := rebindFrom stats current bindUdp) hexclusive hmin with
        ⟨n, -, -, -, -, hsome⟩ | ⟨-, ⟨error, hsearch⟩, -⟩
      · rw [hselected] at hsome
        cases hsome
      · rw [Steering.step, show bindNextSteeringSocket bindUdp stats.nextPort current.port = _
          from hsearch] at hsteering
        cases hsteering
        rw [if_pos rfl] at hhere
        refine ⟨?_, error, hhere⟩
        rw [hstats]
        exact h.held i flight result _ stats hpc rfl rfl
  | _ => cases hsteering

theorem Cursor.step_rebind (hguarded : Guarded s) (h : Cursor portOf initial s log)
    (hpc : s.pcAt i = some (.steering flight result (.socketRead stats)))
    (hheld : PortsHeld portOf s (.wake i (.socketRead (.ok current) bindUdp)))
    (hstep : step client s (.wake i (.socketRead (.ok current) bindUdp)) = some t) :
    Cursor portOf initial t (rebindFrom stats current bindUdp :: log) := by
  have hrebinds := h.rebinds_of_step hpc hheld hstep
  have hchained : Chained portOf initial (rebindFrom stats current bindUdp :: log) :=
    ⟨hheld.1, h.first hpc hheld.2.1, h.chained⟩
  -- the call that rebinds is the only one
  have honly (j : ℕ) (pc : Request.Pc) (hpc' : t.pcAt j = some pc) (hrebinding : pc.rebinding = true) :
      j = i := by
    by_contra hne
    rw [hrebinds.others j hne] at hpc'
    exact hne (eq_of_rebinding hguarded hpc rfl hpc' hrebinding)
  cases hselected : (rebindFrom stats current bindUdp).selected portOf with
  | none =>
    obtain ⟨hnext, error, hreturned⟩ := hrebinds.failed hselected
    have hlast : lastSelected portOf (rebindFrom stats current bindUdp :: log) =
        lastSelected portOf log := by rw [lastSelected_cons, hselected, Option.none_or]
    have hnot (j : ℕ) (pc : Request.Pc) (hpc' : t.pcAt j = some pc) : pc.rebinding = false := by
      by_contra hrebinding
      obtain rfl := honly j pc hpc' (by simpa using hrebinding)
      cases hreturned.symm.trans hpc'
      exact hrebinding rfl
    refine ⟨hchained, by rw [hlast, hnext, h.nextPort], fun hnone => ?_, ?_, ?_⟩
    · rw [hrebinds.same.socket]
      exact h.initial (hlast ▸ hnone)
    · intro j flight result steering stats hpc' hrebinding
      have hfalse := hnot j _ hpc'
      cases hrebinding.symm.trans hfalse
    · intro j pc newSocket hpc' hpending
      have hfalse := hnot j pc hpc'
      cases (rebinding_of_pending hpending).symm.trans hfalse
  | some p =>
    obtain ⟨hne, hnext, newSocket, hport, hhere⟩ := hrebinds.moved p hselected
    have hlast : lastSelected portOf (rebindFrom stats current bindUdp :: log) = some p := by
      rw [lastSelected_cons, hselected, Option.some_or]
    refine ⟨hchained, by rw [hlast, hnext]; rfl, fun hnone => ?_, ?_, ?_⟩
    · rw [hlast] at hnone
      cases hnone
    · intro j flight' result' steering stats' hpc' hrebinding hstats
      obtain rfl := honly j _ hpc' hrebinding
      cases hhere.symm.trans hpc'
      cases hstats
      rfl
    · intro j pc newSocket' hpc' hpending
      obtain rfl := honly j pc hpc' (rebinding_of_pending hpending)
      cases hhere.symm.trans hpc'
      cases hpending
      refine ⟨p, hlast, hport, ?_⟩
      rw [hrebinds.same.socket, hheld.2.1]
      exact fun heq => hne (Option.some.inj heq).symm

theorem Cursor.step_other (hguarded : Guarded s) (h : Cursor portOf initial s log)
    (hother : ∀ i current bindUdp flight result stats,
      event = .wake i (.socketRead (.ok current) bindUdp) →
        s.pcAt i ≠ some (.steering flight result (.socketRead stats)))
    (hstep : step client s event = some t) : Cursor portOf initial t log := by
  obtain ⟨hnext, hheld⟩ : t.stats.nextPort = s.stats.nextPort ∧
      ∀ i flight result steering stats, t.pcAt i = some (.steering flight result steering) →
        steering.rebinding = true → steering.stats = some stats →
          stats.nextPort = t.stats.nextPort := by
    rcases steers_of_step hstep with
      hsteers | ⟨i, f, r, steering, wake, reply, steering', rfl, hsteers⟩
    · rw [hsteers.stats]
      exact ⟨rfl, fun i flight result steering stats hpc hrebinding =>
        h.held i flight result steering stats (hsteers.rebinding i _ hpc hrebinding) hrebinding⟩
    · have hstats' (stats' : SteeringStats) (hstats' : steering'.stats = some stats') :
          stats'.nextPort = s.stats.nextPort := by
        rcases Steering.nextPort_of_step hsteers.step hstats' with
          ⟨stats, hstats | rfl, heq⟩ | ⟨stats, current, bindUdp, newSocket, rfl, rfl, -⟩
        · rw [heq]
          exact h.held i f r steering stats hsteers.here
            (Steering.rebinding_of_stats hsteers.step hstats) hstats
        · obtain ⟨channel, hanswers⟩ := hsteers.answers
          rw [heq, show stats = s.stats from hanswers]
        · obtain ⟨channel, hanswers⟩ := hsteers.answers
          cases hanswers
          exact absurd hsteers.here (hother i current bindUdp f r stats rfl)
      have hnext : t.stats.nextPort = s.stats.nextPort := by
        rw [hsteers.stats]
        cases hcase : steering'.stats with
        | none => rfl
        | some stats' => exact hstats' stats' hcase
      refine ⟨hnext, fun j flight result steering₀ stats hpc hrebinding hstats => ?_⟩
      rw [hnext]
      rw [hsteers.pcs] at hpc
      split at hpc
      · unfold Request.steer at hpc
        split at hpc <;> cases hpc
        exact hstats' stats hstats
      · exact h.held j flight result steering₀ stats hpc hrebinding hstats
  rcases pending_of_step hguarded hstep with ⟨hsame, hfrom⟩ | ⟨⟨i, pc, hpc, hpending⟩, hnone⟩
  · refine ⟨h.chained, hnext.trans h.nextPort, fun hlast => hsame.socket ▸ h.initial hlast, hheld,
      fun j pc newSocket hpc hpending => ?_⟩
    rw [hsame.socket]
    rcases hfrom j pc newSocket hpc hpending with
      ⟨old, hold, hkept⟩ | ⟨flight, result, stats, current, bindUdp, next, rfl, hold, -⟩
    · exact h.pending j old newSocket hold hkept
    · exact absurd hold (hother j current bindUdp flight result stats rfl)
  · obtain ⟨p, hlast, -⟩ := h.pending i pc t.socket hpc hpending
    refine ⟨h.chained, hnext.trans h.nextPort, fun hnone => ?_, hheld, fun j pc newSocket hpc hpending => ?_⟩
    · rw [hlast] at hnone
      cases hnone
    · rw [hnone j pc hpc] at hpending
      cases hpending

theorem rebinds_cases (s : State) (event : Event) : rebinds s event = [] ∧
    (∀ i current bindUdp flight result stats, event = .wake i (.socketRead (.ok current) bindUdp) →
      s.pcAt i ≠ some (.steering flight result (.socketRead stats))) ∨
    ∃ i current bindUdp flight result stats, event = .wake i (.socketRead (.ok current) bindUdp) ∧
      s.pcAt i = some (.steering flight result (.socketRead stats)) ∧
        rebinds s event = [rebindFrom stats current bindUdp] := by
  by_cases h : ∃ i current bindUdp flight result stats,
      event = .wake i (.socketRead (.ok current) bindUdp) ∧
        s.pcAt i = some (.steering flight result (.socketRead stats))
  · obtain ⟨i, current, bindUdp, flight, result, stats, rfl, hpc⟩ := h
    exact .inr ⟨i, current, bindUdp, flight, result, stats, rfl, hpc, rebinds_of_socketRead hpc⟩
  · have hnone : ∀ i current bindUdp flight result stats,
        event = .wake i (.socketRead (.ok current) bindUdp) →
          s.pcAt i ≠ some (.steering flight result (.socketRead stats)) :=
      fun i current bindUdp flight result stats hevent hpc =>
        h ⟨i, current, bindUdp, flight, result, stats, hevent, hpc⟩
    exact .inl ⟨rebinds_eq_nil hnone, hnone⟩

theorem cursor_reachable {s : State × List Rebind}
    (h : (rotation client portOf initial).Reachable s) : Cursor portOf initial s.1 s.2 := by
  refine h.invariant (P := fun s => Cursor portOf initial s.1 s.2) ?_ ?_
  · rintro ⟨s, log⟩ ⟨⟨bindUdp, now, hnew⟩, hport, hlog⟩
    obtain rfl : log = [] := hlog
    obtain ⟨socket, -, -, -, rfl⟩ := new_eq_ok_iff.mp hnew
    exact ⟨trivial, rfl, fun _ => hport, by simp [start, State.pcAt], by simp [start, State.pcAt]⟩
  · rintro ⟨s, log⟩ event ⟨t, log'⟩ hreachable hs ⟨hheld, hstep, hlog⟩
    obtain rfl : log' = rebinds s event ++ log := hlog
    have hguarded := guarded_reachable (reachable_of_rotation hreachable)
    rcases rebinds_cases s event with
      ⟨hnil, hother⟩ | ⟨i, current, bindUdp, flight, result, stats, rfl, hpc, hrebinds⟩
    · rw [hnil]
      exact hs.step_other hguarded hother hstep
    · rw [hrebinds]
      exact hs.step_rebind hguarded hpc hheld hstep

/-- A steering call fails for want of a port, or because a socket has no address. -/
theorem Cursor.failed (h : Cursor portOf initial s log) (hheld : PortsHeld portOf s (.wake i wake))
    (hstep : step client s (.wake i wake) = some t) {steering : Steering.Pc} {error : CoreError}
    (hpc : s.pcAt i = some (.steering flight result steering))
    (hreturned : t.pcAt i = some (.returned (some flight) (.err error))) :
    (∃ stats current bindUdp, wake = .socketRead (.ok current) bindUdp ∧
      rebinds s (.wake i wake) = [rebindFrom stats current bindUdp] ∧
        (rebindFrom stats current bindUdp).selected portOf = none) ∨
      (∃ source bindUdp, wake = .socketRead (.error source) bindUdp) ∨
      ∃ source, wake = .socketWrite (.error source) := by
  rcases steers_of_step hstep with hnone | ⟨j, f, r, st, w, reply, steering', hevent, hsteers⟩
  · exact absurd hpc (hnone.event i _ flight result _ rfl)
  cases hevent
  cases hpc.symm.trans hsteers.here
  obtain ⟨channel, hanswers⟩ := hsteers.answers
  have hfailed : Steering.Failed steering' := by
    rw [hsteers.pcs, if_pos rfl] at hreturned
    unfold Request.steer at hreturned
    split at hreturned <;> cases hreturned
    exact ⟨error, _, rfl⟩
  have hfails := (Steering.failed_iff_not_succeeds hsteers.step).mp hfailed
  unfold Steering.Succeeds at hfails
  split at hfails
  next stats localAddr bindUdp =>
    cases hanswers
    cases localAddr with
    | error source => exact .inr (.inl ⟨source, bindUdp, rfl⟩)
    | ok current =>
      refine .inl ⟨stats, current, bindUdp, rfl, rebinds_of_socketRead hpc, ?_⟩
      cases hselected : (rebindFrom stats current bindUdp).selected portOf with
      | none => rfl
      | some p =>
        obtain ⟨-, -, newSocket, -, hhere⟩ := (h.rebinds_of_step hpc hheld hstep).moved p hselected
        cases hhere.symm.trans hreturned
  next localAddr _ =>
    obtain ⟨-, -, rfl⟩ := hanswers
    cases localAddr with
    | error source => exact .inr (.inr ⟨source, rfl⟩)
    | ok actual => exact absurd ⟨actual, rfl⟩ hfails
  next =>
    obtain ⟨rfl, -⟩ := hanswers
    exact absurd (Option.some_ne_none _) hfails
  next => exact absurd trivial hfails

/-- In every run with exclusive ports each rebind goes on from the last selected port to the first that
is not in use, fails only when none is left and then changes nothing, and a port comes again only after
all others were gone over; sockets are replaced by those on the selected port, which is another one,
and the swap of a call does replace them. -/
theorem ports_rotate (h : (rotation client portOf initial).Reachable (s, log)) :
    (∀ newer r older, log = newer ++ r :: older →
      r.Rotates portOf ((lastSelected portOf older).getD initial)) ∧
    (∀ newer rj mid ri older p q, log = newer ++ rj :: (mid ++ ri :: older) →
      ri.selected portOf = some p → rj.selected portOf = some p → steeringPortMin ≤ q →
        ∃ r ∈ rj :: mid, r.Covers portOf q) ∧
    ∀ event t log', (rotation client portOf initial).step (s, log) event (t, log') →
      (∀ r, log' = r :: log → ∃ i flight result current bindUdp,
        event = .wake i (.socketRead (.ok current) bindUdp) ∧ r.bindUdp = bindUdp ∧
          Rebinds portOf s i flight result current r t) ∧
      (SameSocket s t ∨ ∃ p, lastSelected portOf log = some p ∧ t.socket.localPort portOf = some p ∧
        s.socket.localPort portOf ≠ some p) ∧
      (∀ i localAddr flight result stats newSocket, event = .wake i (.socketWrite localAddr) →
        s.pcAt i = some (.steering flight result (.socketWrite stats newSocket)) →
          t.socket = newSocket ∧ ∃ p, lastSelected portOf log = some p ∧
            newSocket.localPort portOf = some p ∧ s.socket.localPort portOf ≠ some p) ∧
      ∀ i wake flight result steering error, event = .wake i wake →
        s.pcAt i = some (.steering flight result steering) →
          t.pcAt i = some (.returned (some flight) (.err error)) →
            (∃ r, log' = r :: log ∧ r.selected portOf = none) ∨
              (∃ source bindUdp, wake = .socketRead (.error source) bindUdp) ∨
              ∃ source, wake = .socketWrite (.error source) := by
  have hcursor := cursor_reachable h
  refine ⟨?_, ?_, ?_⟩
  · rintro newer r older rfl
    exact hcursor.chained.of_append.rotates
  · rintro newer rj mid ri older p q rfl hi hj hq
    exact hcursor.chained.all_covered hi hj hq
  rintro event t log' ⟨hheld, hstep, hlog⟩
  obtain rfl : log' = rebinds s event ++ log := hlog
  refine ⟨fun r hr => ?_, ?_, ?_, ?_⟩
  · rcases rebinds_cases s event with
      ⟨hnil, -⟩ | ⟨i, current, bindUdp, flight, result, stats, rfl, hpc, hrebinds⟩
    · rw [hnil] at hr
      exact absurd hr.symm (List.cons_ne_self r log)
    · rw [hrebinds] at hr
      cases hr
      exact ⟨i, flight, result, current, bindUdp, rfl, rfl, hcursor.rebinds_of_step hpc hheld hstep⟩
  · rcases pending_of_step (guarded_reachable (reachable_of_rotation h)) hstep with
      ⟨hsame, -⟩ | ⟨⟨i, pc, hpc, hpending⟩, -⟩
    · exact .inl hsame
    · exact .inr (hcursor.pending i pc t.socket hpc hpending)
  · rintro i localAddr flight result stats newSocket rfl hpc
    exact ⟨socket_of_socketWrite hpc hstep, hcursor.pending i _ newSocket hpc rfl⟩
  · rintro i wake flight result steering error rfl hpc hreturned
    rcases hcursor.failed hheld hstep hpc hreturned with
      ⟨stats, current, bindUdp, -, hrebinds, hnone⟩ | hlost
    · rw [hrebinds]
      exact .inl ⟨_, rfl, hnone⟩
    · exact .inr hlost

/-- The ports below `first` are in use; a socket is named by its port, except for the first ones. -/
def sampleHeld (first : UInt16) : BindUdp := fun port _ =>
  if port < first then .error (.io ⟨.addrInUse, "address in use"⟩) else .ok port.toNat

def samplePortOf (socket : ℕ) : UInt16 := if socket < 2 then 5 else .ofNat socket

theorem exclusive_sampleHeld (first : UInt16) : Exclusive samplePortOf (sampleHeld first) := by
  refine ⟨fun port _ hfree => ⟨hfree, false, port.toNat, ?_⟩, fun port ipv6 socket hport hbind => ?_⟩
  · by_contra hne
    refine hfree (.inl ?_)
    unfold sampleHeld at hne ⊢
    split at hne
    next hlt =>
      rw [if_pos hlt]
      rfl
    next => exact absurd rfl hne
  · unfold sampleHeld at hbind
    split at hbind <;> cases hbind
    have hle := UInt16.le_iff_toNat_le.mp hport
    rw [samplePortOf, if_neg (by simp only [steeringPortMin, UInt16.reduceToNat] at hle; omega),
      UInt16.ofNat_toNat]

/-- The rebind of call `i` from the port `current`, up to the socket on the port `next`. -/
def sampleRotation (i : ℕ) (current next : UInt16) : List Event :=
  [.wake i .storePending, .wake i .applyLock, .wake i .activityWrite, .wake i .steeringStats,
    .wake i (.socketRead (.ok (sampleAddr current)) (sampleHeld next)), .wake i .epochReadyLock,
    .wake i (.socketWrite (.ok (sampleAddr next)))]

/-- Two rebinds: the first one finds 49152 in use, and the second one also 49154. -/
def sampleRotated : List Event :=
  sampleBegin 0 0 ++ sampleSelect 0 0 ++ sampleRotation 0 5 49153 ++
    [.routerRead, .routerAck, .wake 0 .epochChanged] ++
  sampleBegin 1 1 ++ (sampleSelect 1 1).drop 2 ++ sampleRotation 1 49153 49155

/-- A rebind on the port that the socket has. -/
def sampleHolds (s : State) : Event → Bool
  | .wake _ (.socketRead (.ok current) _) => s.socket.localPort samplePortOf = some current.port
  | _ => true

def sampleRotate (s : State × List Rebind) (event : Event) : Option (State × List Rebind) :=
  if sampleHolds s.1 event then
    (step sampleClient s.1 event).map fun t => (t, rebinds s.1 event ++ s.2)
  else none

theorem portsHeld_sampleRotated (hevent : event ∈ sampleRotated)
    (hholds : sampleHolds s event = true) : PortsHeld samplePortOf s event := by
  unfold PortsHeld
  split
  next i current bindUdp =>
    have hport : s.socket.localPort samplePortOf = some current.port := of_decide_eq_true hholds
    obtain ⟨-, rfl, rfl⟩ | ⟨-, rfl, rfl⟩ :
        i = 0 ∧ current = sampleAddr 5 ∧ bindUdp = sampleHeld 49153 ∨
          i = 1 ∧ current = sampleAddr 49153 ∧ bindUdp = sampleHeld 49155 := by
      simpa [sampleRotated, sampleBegin, sampleSelect, sampleRotation] using hevent
    · exact ⟨exclusive_sampleHeld _, hport, .inl (by decide)⟩
    · exact ⟨exclusive_sampleHeld _, hport, .inl (by decide)⟩
  next => trivial

theorem ports_rotate_sample : ∃ s r₁ r₂,
    (rotation sampleClient samplePortOf 5).Reachable (s, [r₂, r₁]) ∧
      r₁.selected samplePortOf = some 49153 ∧ r₁.Rotates samplePortOf 5 ∧
      r₂.selected samplePortOf = some 49155 ∧ r₂.Rotates samplePortOf 49153 := by
  obtain ⟨⟨s, log⟩, hs, htest⟩ := (Option.any_eq_true _ _).mp
    (show (Lts.runSteps sampleRotate sampleRotated (sampleState, [])).any (fun s =>
      s.2.map (·.selected samplePortOf) = [some 49155, some 49153]) = true by decide +kernel)
  obtain ⟨r₂, rest, rfl, hsecond, hrest⟩ := List.map_eq_cons_iff.mp (of_decide_eq_true htest)
  obtain ⟨r₁, rest, rfl, hfirst, hnil⟩ := List.map_eq_cons_iff.mp hrest
  obtain rfl := List.map_eq_nil_iff.mp hnil
  have hreachable : (rotation sampleClient samplePortOf 5).Reachable (s, [r₂, r₁]) := by
    refine Lts.Run.reachable (Lts.Run.of_runSteps (fun event hevent u v hstep => ?_) hs)
      (.init ⟨init_sampleState, rfl, rfl⟩)
    obtain ⟨hholds, hstep⟩ := Option.ite_none_right_eq_some.mp hstep
    obtain ⟨t, ht, rfl⟩ := Option.map_eq_some_iff.mp hstep
    exact ⟨portsHeld_sampleRotated hevent hholds, ht, rfl⟩
  have hrotates := (ports_rotate hreachable).1
  have hlast : (lastSelected samplePortOf [r₁]).getD 5 = 49153 := by
    simp [lastSelected, hfirst]
  exact ⟨s, r₁, r₂, hreachable, hfirst, hrotates [r₂] r₁ [] rfl, hsecond,
    hlast ▸ hrotates [] r₂ [r₁] rfl⟩

end Client

end Ratelimitly
