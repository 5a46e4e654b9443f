import Mathlib.Tactic
import Ratelimitly.Lib.Bytes
import Ratelimitly.Error

/-! Server discovery, the snapshot a request works on, and the age order of servers. -/
namespace Ratelimitly

open Lib

/-! ### Addresses -/

inductive IpAddr where
  | v4 (octets : Bytes 4)
  | v6 (octets : Bytes 16)
  deriving DecidableEq, Repr

inductive SocketAddr where
  | v4 (octets : Bytes 4) (port : UInt16)
  | v6 (octets : Bytes 16) (port : UInt16) (flowinfo scopeId : UInt32)
  deriving DecidableEq, Repr

/-- `SocketAddr::new`. -/
def SocketAddr.new : IpAddr → UInt16 → SocketAddr
  | .v4 octets, port => .v4 octets port
  | .v6 octets, port => .v6 octets port 0 0

/-- `SocketAddr::port`. -/
def SocketAddr.port : SocketAddr → UInt16
  | .v4 _ port => port
  | .v6 _ port _ _ => port

/-- The text form of addresses and its parser. -/
structure IpText where
  toText : IpAddr → String
  parse : String → Option IpAddr

/-! ### Server ids -/

/-- `str::parse::<u64>` on decimal digits. -/
def parseU64 (digits : List Char) : Option UInt64 :=
  let value := digits.foldl (fun value c => 10 * value + (c.toNat - '0'.toNat)) 0
  if value < 2 ^ 64 then some (UInt64.ofNat value) else none

def parseServerIdFromTarget (target : String) : Option UInt64 := do
  let trimmed := (target.toList.reverse.dropWhile (· == '.')).reverse
  let first := trimmed.takeWhile (· != '.')
  let lower := first.map Char.toLower
  let decimal ← stripPrefix lower "s-".toList
  if decimal = [] then none
  else if decimal.length > 1 ∧ decimal.head? = some '0' then none
  else if ¬ decimal.all Char.isDigit then none
  else parseU64 decimal

def serverIdEpochS2025 : ℕ := 1735689600

def serverStartSFromId (serverId : UInt64) : ℕ := serverIdEpochS2025 + serverId.toNat / 2 ^ 23

/-- Older servers are less. -/
def compareServerAge (left right : UInt64) : Ordering :=
  (compare (serverStartSFromId left) (serverStartSFromId right)).then (compare left right)

theorem serverStartSFromId_mono {a b : UInt64} (h : a < b) :
    serverStartSFromId a ≤ serverStartSFromId b := by
  have hle := Nat.div_le_div_right (c := 2 ^ 23) (UInt64.lt_iff_toNat_lt.mp h).le
  exact Nat.add_le_add_left hle _

/-- Start times are read off the high bits of the id, so age is the order of ids. -/
theorem compareServerAge_eq_lt_iff {a b : UInt64} : compareServerAge a b = .lt ↔ a < b := by
  have hids : compare a b = .lt ↔ a < b := compareOfLessAndEq_eq_lt
  rw [compareServerAge, Ordering.then_eq_lt, compare_lt_iff_lt, compare_eq_iff_eq, hids]
  constructor
  · rintro (h | ⟨-, h⟩)
    · by_contra hba
      rcases UInt64.lt_or_eq_of_le (UInt64.not_lt.mp hba) with hlt | rfl
      · exact absurd (serverStartSFromId_mono hlt) (not_le.mpr h)
      · exact lt_irrefl _ h
    · exact h
  · intro h
    rcases (serverStartSFromId_mono h).lt_or_eq with hlt | heq
    · exact .inl hlt
    · exact .inr ⟨heq, h⟩

/-! ### Discovery -/

structure ServerEndpoint where
  host : String
  port : UInt16
  serverId : Option UInt64
  deriving DecidableEq, Repr

/-- One record of an SRV answer; records of other types are skipped. -/
inductive SrvAnswer where
  | srv (target : String) (port : UInt16)
  | other
  deriving DecidableEq, Repr

/-- The answers of the DNS resolver during one operation. -/
structure Resolver where
  srvLookup : String → Except String (List SrvAnswer)
  lookupIp : String → Except String (List IpAddr)

/-- The endpoints of one SRV record. -/
def endpointsOfAnswer (ipText : IpText) (resolver : Resolver) : SrvAnswer → List ServerEndpoint
  | .other => []
  | .srv target port =>
    match parseServerIdFromTarget target with
    | none => []
    | some serverId =>
      match resolver.lookupIp target with
      | .ok ips => ips.map fun ip => ⟨ipText.toText ip, port, some serverId⟩
      | .error _ => []

/-- The stored servers and when they were last refreshed, in nanoseconds. -/
structure ServerList where
  servers : List ServerEndpoint
  lastDnsRefresh : ℕ

def refreshServers (ipText : IpText) (resolver : Resolver) (serviceDomain : String) (now : ℕ)
    (state : ServerList) : Outcome CoreError Unit × ServerList :=
  match resolver.srvLookup ("_ratelimitly._udp." ++ serviceDomain) with
  | .ok answers =>
    let resolvedServers := answers.flatMap (endpointsOfAnswer ipText resolver)
    if resolvedServers ≠ [] then (.ok (), ⟨resolvedServers, now⟩)
    else (.err (.dns "No SRV servers found"), state)
  | .error _ => (.err (.dns "No SRV servers found"), state)

theorem not_panic_refreshServers {ipText : IpText} {resolver : Resolver} {domain : String}
    {now : ℕ} (state : ServerList) :
    (refreshServers ipText resolver domain now state).1 ≠ .panic := by
  unfold refreshServers
  split
  · dsimp only
    split <;> nofun
  · nofun

/-! ### Snapshots -/

/-- `target_server_ids` is a map; `allowed_server_ids` is a set. -/
structure ResolvedTargets where
  targets : List SocketAddr
  targetServerIds : SocketAddr → Option UInt64
  allowedServerIds : List UInt64

namespace ResolvedTargets

def empty : ResolvedTargets := ⟨[], fun _ => none, []⟩

/-- The body of the loops of `current_targets`. -/
def push (resolved : ResolvedTargets) (addr : SocketAddr) (serverId : Option UInt64) :
    ResolvedTargets where
  targets := resolved.targets ++ [addr]
  targetServerIds :=
    match serverId with
    | some id => Function.update resolved.targetServerIds addr (some id)
    | none => resolved.targetServerIds
  allowedServerIds :=
    match serverId with
    | some id => resolved.allowedServerIds.insert id
    | none => resolved.allowedServerIds

/-- One step of `Iterator::min_by`. -/
def older (oldest : Option UInt64) (id : UInt64) : Option UInt64 :=
  match oldest with
  | none => some id
  | some current => if compareServerAge id current = .lt then some id else some current

/-- `Iterator::min_by` over the allowed ids. -/
def oldestServerId (resolved : ResolvedTargets) : Option UInt64 :=
  resolved.allowedServerIds.foldl older none

theorem foldl_older_some (ids : List UInt64) (start : UInt64) :
    ∃ oldest, ids.foldl older (some start) = some oldest ∧ (oldest = start ∨ oldest ∈ ids) ∧
      oldest ≤ start ∧ ∀ id ∈ ids, oldest ≤ id := by
  induction ids generalizing start with
  | nil => exact ⟨start, rfl, .inl rfl, UInt64.le_refl start, by simp⟩
  | cons id ids ih =>
    by_cases hlt : id < start
    · obtain ⟨oldest, hfold, hmem, hle, hall⟩ := ih id
      refine ⟨oldest, ?_, .inr ?_, UInt64.le_trans hle (UInt64.le_of_lt hlt), ?_⟩
      · rw [List.foldl_cons, older, if_pos (compareServerAge_eq_lt_iff.mpr hlt), hfold]
      · rcases hmem with rfl | hmem
        · exact List.mem_cons_self
        · exact List.mem_cons_of_mem _ hmem
      · simpa using ⟨hle, hall⟩
    · obtain ⟨oldest, hfold, hmem, hle, hall⟩ := ih start
      refine ⟨oldest, ?_, hmem.imp_right (List.mem_cons_of_mem _), hle, ?_⟩
      · rw [List.foldl_cons, older, if_neg (fun h => hlt (compareServerAge_eq_lt_iff.mp h)), hfold]
      · simpa using ⟨UInt64.le_trans hle (UInt64.not_lt.mp hlt), hall⟩

/-- The oldest server of a snapshot is the least of its allowed ids. -/
theorem oldestServerId_eq_some_iff {resolved : ResolvedTargets} {oldest : UInt64} :
    resolved.oldestServerId = some oldest ↔
      oldest ∈ resolved.allowedServerIds ∧ ∀ id ∈ resolved.allowedServerIds, oldest ≤ id := by
  unfold oldestServerId
  cases resolved.allowedServerIds with
  | nil => simp
  | cons id ids =>
    obtain ⟨least, hfold, hmem, hle, hall⟩ := foldl_older_some ids id
    have hleast : ∀ x ∈ id :: ids, least ≤ x := by simpa using ⟨hle, hall⟩
    have hin : least ∈ id :: ids := by
      rcases hmem with rfl | hmem
      · exact List.mem_cons_self
      · exact List.mem_cons_of_mem _ hmem
    rw [List.foldl_cons, older, hfold, Option.some.injEq]
    constructor
    · rintro rfl
      exact ⟨hin, hleast⟩
    · rintro ⟨h, hall'⟩
      exact UInt64.le_antisymm (hleast _ h) (hall' _ hin)

end ResolvedTargets

/-- The loop of `current_targets` over the stored servers. -/
def resolveTargets (ipText : IpText) (resolver : Resolver) :
    List ServerEndpoint → ResolvedTargets → Outcome CoreError ResolvedTargets
  | [], resolved => pure resolved
  | server :: servers, resolved =>
    match ipText.parse server.host with
    | some ip =>
      resolveTargets ipText resolver servers
        (resolved.push (SocketAddr.new ip server.port) server.serverId)
    | none =>
      match resolver.lookupIp server.host with
      | .ok ips =>
        resolveTargets ipText resolver servers
          (ips.foldl (fun resolved ip =>
            resolved.push (SocketAddr.new ip server.port) server.serverId) resolved)
      | .error message => .err (.dns message)

def currentTargets (ipText : IpText) (resolver : Resolver) (servers : List ServerEndpoint) :
    Outcome CoreError ResolvedTargets :=
  resolveTargets ipText resolver servers .empty

/-! ### The stored servers have ids -/

def HasIds (servers : List ServerEndpoint) : Prop := ∀ server ∈ servers, server.serverId ≠ none

theorem hasIds_endpointsOfAnswer (ipText : IpText) (resolver : Resolver) (answer : SrvAnswer) :
    HasIds (endpointsOfAnswer ipText resolver answer) := by
  intro server h
  cases answer with
  | other => cases h
  | srv target port =>
    rw [endpointsOfAnswer] at h
    split at h
    · cases h
    · split at h
      · obtain ⟨ip, -, rfl⟩ := List.mem_map.mp h
        exact Option.some_ne_none _
      · cases h

theorem hasIds_refreshServers {ipText : IpText} {resolver : Resolver} {domain : String} {now : ℕ}
    {state : ServerList} (h : HasIds state.servers) :
    HasIds (refreshServers ipText resolver domain now state).2.servers := by
  unfold refreshServers
  split
  next answers _ =>
    dsimp only
    split
    · intro server hs
      obtain ⟨answer, -, hs⟩ := List.mem_flatMap.mp hs
      exact hasIds_endpointsOfAnswer ipText resolver answer server hs
    · exact h
  next => exact h

namespace ResolvedTargets

/-- Every target has a recorded id, and the recorded ids are allowed. -/
structure Closed (resolved : ResolvedTargets) : Prop where
  recorded : ∀ target ∈ resolved.targets, ∃ id, resolved.targetServerIds target = some id
  allowed : ∀ target id, resolved.targetServerIds target = some id →
    id ∈ resolved.allowedServerIds

theorem closed_empty : empty.Closed := ⟨by simp [empty], by simp [empty]⟩

theorem Closed.push {resolved : ResolvedTargets} (h : resolved.Closed) (addr : SocketAddr)
    (id : UInt64) : (resolved.push addr (some id)).Closed := by
  constructor
  · intro target ht
    by_cases heq : target = addr
    · subst heq
      exact ⟨id, by simp [ResolvedTargets.push]⟩
    · have hmem : target ∈ resolved.targets := by
        simpa [ResolvedTargets.push, heq] using ht
      obtain ⟨id', hid'⟩ := h.recorded target hmem
      exact ⟨id', by simpa [ResolvedTargets.push, Function.update_of_ne heq] using hid'⟩
  · intro target id' ht
    by_cases heq : target = addr
    · subst heq
      have hid : id = id' := by simpa [ResolvedTargets.push] using ht
      simp [ResolvedTargets.push, hid]
    · have hid' : resolved.targetServerIds target = some id' := by
        simpa [ResolvedTargets.push, Function.update_of_ne heq] using ht
      simpa [ResolvedTargets.push] using .inr (h.allowed target id' hid')

theorem Closed.allowed_ne_nil {resolved : ResolvedTargets} (h : resolved.Closed)
    (hne : resolved.targets ≠ []) : resolved.allowedServerIds ≠ [] := by
  obtain ⟨target, ht⟩ := List.exists_mem_of_ne_nil _ hne
  obtain ⟨id, hid⟩ := h.recorded target ht
  exact List.ne_nil_of_mem (h.allowed target id hid)

end ResolvedTargets

theorem closed_foldl_push {server : ServerEndpoint} (hid : server.serverId ≠ none)
    (ips : List IpAddr) {resolved : ResolvedTargets} (h : resolved.Closed) :
    (ips.foldl (fun resolved ip =>
      resolved.push (SocketAddr.new ip server.port) server.serverId) resolved).Closed := by
  obtain ⟨id, hid⟩ := Option.ne_none_iff_exists'.mp hid
  rw [hid]
  induction ips generalizing resolved with
  | nil => exact h
  | cons ip ips ih => exact ih (h.push _ id)

theorem closed_resolveTargets {ipText : IpText} {resolver : Resolver}
    {servers : List ServerEndpoint} {start resolved : ResolvedTargets} (hids : HasIds servers)
    (hstart : start.Closed) (h : resolveTargets ipText resolver servers start = .ok resolved) :
    resolved.Closed := by
  induction servers generalizing start with
  | nil =>
    cases h
    exact hstart
  | cons server servers ih =>
    have hid := hids server List.mem_cons_self
    have ih' {start} := @ih start fun s hs => hids s (List.mem_cons_of_mem _ hs)
    rw [resolveTargets] at h
    split at h
    next ip _ => exact ih' (closed_foldl_push hid [ip] hstart) h
    next =>
      split at h
      next ips _ => exact ih' (closed_foldl_push hid ips hstart) h
      next => cases h

/-- A snapshot of servers with ids is closed. -/
theorem closed_currentTargets {ipText : IpText} {resolver : Resolver}
    {servers : List ServerEndpoint} {resolved : ResolvedTargets} (hids : HasIds servers)
    (h : currentTargets ipText resolver servers = .ok resolved) : resolved.Closed :=
  closed_resolveTargets hids ResolvedTargets.closed_empty h

end Ratelimitly
