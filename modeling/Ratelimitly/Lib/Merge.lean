import Mathlib.Tactic
import Ratelimitly.Lib.Lts

/-! Two queues that take turns in being polled first: nothing is lost, and neither starves. A queue
may be late: it has an item and does not yield it. -/
namespace Lib

/-- The queues, and which is polled first. `arrived` and `taken` are history, latest last. -/
structure Merge (α : Type) where
  queue : Bool → List α
  first : Bool
  arrived : Bool → List α
  taken : Bool → List α

namespace Merge

variable {α : Type} {m m' : Merge α} {side : Bool} {a : α} {n : ℕ}

/-- `ready` says which queues yield the items that they have. -/
inductive Event (α : Type) where
  | arrive (side : Bool) (a : α)
  | poll (ready : Bool → Bool) (result : Option (Bool × α))

def empty : Merge α := ⟨fun _ => [], false, fun _ => [], fun _ => []⟩

def arrive (m : Merge α) (side : Bool) (a : α) : Merge α :=
  { m with
    queue := Function.update m.queue side (m.queue side ++ [a])
    arrived := Function.update m.arrived side (m.arrived side ++ [a]) }

/-- The first item of one queue is taken, and the queues swap their turns. -/
def take (m : Merge α) (side : Bool) (a : α) : Merge α :=
  { m with
    queue := Function.update m.queue side (m.queue side).tail
    first := !m.first
    taken := Function.update m.taken side (m.taken side ++ [a]) }

/-- A poll takes from the queue whose turn it is, if that yields an item, else from the other one.
The queues swap their turns also when neither does. -/
inductive Step : Merge α → Event α → Merge α → Prop
  | arrive (m : Merge α) (side : Bool) (a : α) : Step m (.arrive side a) (m.arrive side a)
  | take {m : Merge α} {ready : Bool → Bool} {side : Bool} {a : α} :
      (m.queue side).head? = some a → ready side = true →
      (side ≠ m.first → m.queue m.first = [] ∨ ready m.first = false) →
      Step m (.poll ready (some (side, a))) (m.take side a)
  | pending {m : Merge α} {ready : Bool → Bool} :
      (∀ side, m.queue side = [] ∨ ready side = false) →
      Step m (.poll ready none) { m with first := !m.first }

def lts (α : Type) : Lts (Merge α) (Event α) where
  init m := m = empty
  step := Step

def Event.isPoll : Event α → Bool
  | .arrive .. => false
  | .poll .. => true

/-- A poll at which a queue would not yield an item. -/
def Event.isLate : Event α → Bool
  | .arrive .. => false
  | .poll ready _ => !(ready false && ready true)

/-! ### Order -/

/-- What has arrived has been taken, or still waits, in order. -/
def Ordered (m : Merge α) : Prop := ∀ side, m.arrived side = m.taken side ++ m.queue side

theorem ordered_take (h : m.Ordered) (ha : (m.queue side).head? = some a) :
    (m.take side a).Ordered := by
  intro other
  by_cases ho : other = side
  · subst ho
    obtain ⟨rest, hrest⟩ := List.head?_eq_some_iff.mp ha
    have hother := h other
    rw [hrest] at hother
    simp [take, hrest, hother]
  · simpa [take, Function.update_of_ne ho] using h other

theorem ordered_step {e : Event α} (h : m.Ordered) (hstep : (lts α).step m e m') : m'.Ordered := by
  cases hstep with
  | arrive side a =>
    intro other
    by_cases ho : other = side
    · subst ho
      simp [arrive, h other]
    · simpa [arrive, Function.update_of_ne ho] using h other
  | take ha => exact ordered_take h ha
  | pending => exact h

theorem ordered_reachable (h : (lts α).Reachable m) : m.Ordered := by
  refine h.invariant (P := Ordered) ?_ fun _ _ _ _ hm hstep => ordered_step hm hstep
  rintro _ rfl side
  rfl

/-! ### Turns -/

/-- The arrival `n` of a side has not been taken. -/
structure Waits (m : Merge α) (side : Bool) (n : ℕ) : Prop where
  ordered : m.Ordered
  arrived : n < (m.arrived side).length
  untaken : (m.taken side).length ≤ n

/-- How many polls it takes at most to take the arrival `n` of a side. -/
def due (m : Merge α) (side : Bool) (n : ℕ) : ℕ :=
  2 * (n - (m.taken side).length) + if m.first = side then 1 else 2

/-- How many items of the other side are taken at most before the arrival `n` of a side. -/
def ahead (m : Merge α) (side : Bool) (n : ℕ) : ℕ :=
  (m.taken !side).length + (n - (m.taken side).length) + if m.first = side then 0 else 1

theorem Waits.queue_ne_nil (h : m.Waits side n) : m.queue side ≠ [] := by
  intro hnil
  have harrived := h.arrived
  have huntaken := h.untaken
  rw [h.ordered side, hnil, List.append_nil] at harrived
  omega

theorem length_taken_take_self (m : Merge α) (side : Bool) (a : α) :
    ((m.take side a).taken side).length = (m.taken side).length + 1 := by
  simp [take]

theorem taken_take_of_ne {other : Bool} (h : other ≠ side) :
    (m.take side a).taken other = m.taken other := Function.update_of_ne h ..

theorem ready_of_not_isLate {ready : Bool → Bool} {result : Option (Bool × α)}
    (h : (Event.poll ready result).isLate = false) (side : Bool) : ready side = true := by
  obtain ⟨hfalse, htrue⟩ := Bool.and_eq_true_iff.mp (Bool.not_eq_eq_eq_not.mp h)
  cases side with
  | false => exact hfalse
  | true => exact htrue

/-- While an item waits, a poll takes from its side, or from the other side if it has the turn; a
late poll may also take from the other side out of turn, or take nothing. -/
theorem Waits.poll_cases {ready : Bool → Bool} {result : Option (Bool × α)} (h : m.Waits side n)
    (hstep : Step m (.poll ready result) m') :
    (∃ a, m' = m.take side a) ∨
      (m.first ≠ side ∨ (Event.poll ready result).isLate = true) ∧
        ((∃ a, m' = m.take (!side) a) ∨ m' = { m with first := !m.first } ∧
          (Event.poll ready result).isLate = true) := by
  have hlate (result : Option (Bool × α)) {side : Bool} (hready : ready side = false) :
      (Event.poll ready result).isLate = true := by
    by_contra hlate
    rw [ready_of_not_isLate (Bool.eq_false_iff.mpr hlate) side] at hready
    cases hready
  cases hstep with
  | @take _ other a ha hready hturn =>
    by_cases ho : other = side
    · subst ho
      exact .inl ⟨a, rfl⟩
    · refine .inr ⟨?_, .inl ⟨a, by rw [Bool.eq_not.mpr ho]⟩⟩
      by_cases hfirst : m.first = side
      · rw [← hfirst] at ho
        exact .inr (hlate _ ((hturn ho).resolve_left (hfirst ▸ h.queue_ne_nil)))
      · exact .inl hfirst
  | pending hnone =>
    have hside := hlate none ((hnone side).resolve_left h.queue_ne_nil)
    exact .inr ⟨.inr hside, .inr ⟨rfl, hside⟩⟩

/-- A poll brings a waiting item closer, unless it is late. -/
theorem Waits.poll {ready : Bool → Bool} {result : Option (Bool × α)} (h : m.Waits side n)
    (hstep : Step m (.poll ready result) m') :
    n < (m'.taken side).length ∨
      1 + m'.due side n ≤ m.due side n + 2 * (Event.poll ready result).isLate.toNat ∧
        m'.ahead side n ≤ m.ahead side n + 2 * (Event.poll ready result).isLate.toNat := by
  have huntaken := h.untaken
  obtain ⟨a, rfl⟩ | ⟨hturn, ⟨a, rfl⟩ | ⟨rfl, hlate⟩⟩ := h.poll_cases hstep
  · rw [due, due, ahead, ahead, length_taken_take_self, taken_take_of_ne (Bool.not_ne_self side)]
    split_ifs <;> omega
  · refine .inr ?_
    have hfirst : (m.take (!side) a).first = !m.first := rfl
    rw [due, due, ahead, ahead, length_taken_take_self, taken_take_of_ne (Bool.self_ne_not side),
      hfirst]
    rcases hturn with hturn | hlate
    · rw [if_pos (Bool.not_eq.mpr hturn), if_pos (Bool.not_eq.mpr hturn), if_neg hturn,
        if_neg hturn]
      omega
    · rw [hlate, Bool.toNat_true]
      constructor <;> split_ifs <;> omega
  · refine .inr ?_
    rw [hlate, Bool.toNat_true]
    unfold due ahead
    dsimp only
    constructor <;> split_ifs <;> omega

theorem prefix_step {e : Event α} (hstep : (lts α).step m e m') (side : Bool) :
    m.arrived side <+: m'.arrived side ∧ (m.taken side).length ≤ (m'.taken side).length := by
  cases hstep with
  | arrive other a =>
    refine ⟨?_, le_refl _⟩
    by_cases ho : side = other
    · subst ho
      simp [arrive]
    · simp [arrive, Function.update_of_ne ho]
  | @take _ other a =>
    refine ⟨List.prefix_refl _, ?_⟩
    by_cases ho : side = other
    · subst ho
      rw [length_taken_take_self]
      exact Nat.le_succ _
    · rw [taken_take_of_ne ho]
  | pending => exact ⟨List.prefix_refl _, le_refl _⟩

theorem prefix_run {events : List (Event α)} (hrun : (lts α).Run m events m') (side : Bool) :
    m.arrived side <+: m'.arrived side ∧ (m.taken side).length ≤ (m'.taken side).length := by
  induction hrun with
  | refl => exact ⟨List.prefix_refl _, le_refl _⟩
  | head hstep _ ih =>
    obtain ⟨harrived, htaken⟩ := prefix_step hstep side
    exact ⟨harrived.trans ih.1, htaken.trans ih.2⟩

theorem Waits.step {e : Event α} (h : m.Waits side n) (hstep : (lts α).step m e m') :
    n < (m'.taken side).length ∨
      e.isPoll.toNat + m'.due side n ≤ m.due side n + 2 * e.isLate.toNat ∧
        m'.ahead side n ≤ m.ahead side n + 2 * e.isLate.toNat := by
  cases e with
  | arrive other a =>
    cases hstep
    exact .inr ⟨(Nat.zero_add _).le, le_refl _⟩
  | poll ready result => exact h.poll hstep

def polls (events : List (Event α)) : ℕ := events.countP Event.isPoll

def latePolls (events : List (Event α)) : ℕ := events.countP Event.isLate

theorem polls_cons (e : Event α) (events : List (Event α)) :
    polls (e :: events) = polls events + e.isPoll.toNat := by
  rw [polls, polls, List.countP_cons]
  cases e.isPoll <;> rfl

theorem latePolls_cons (e : Event α) (events : List (Event α)) :
    latePolls (e :: events) = latePolls events + e.isLate.toNat := by
  rw [latePolls, latePolls, List.countP_cons]
  cases e.isLate <;> rfl

/-- Along a run an item is taken, or the polls that are not late have brought it closer. -/
theorem Waits.run {events : List (Event α)} (h : m.Waits side n) (hrun : (lts α).Run m events m') :
    n < (m'.taken side).length ∨
      polls events + m'.due side n ≤ m.due side n + 2 * latePolls events ∧
        m'.ahead side n ≤ m.ahead side n + 2 * latePolls events := by
  induction hrun with
  | refl => exact .inr ⟨(Nat.zero_add _).le, le_refl _⟩
  | @head m e m' events u hstep hrun ih =>
    rcases h.step hstep with htaken | ⟨hdue, hahead⟩
    · exact .inl (htaken.trans_le (prefix_run hrun side).2)
    · by_cases htaken : n < (m'.taken side).length
      · exact .inl (htaken.trans_le (prefix_run hrun side).2)
      · have hwaits : m'.Waits side n :=
          ⟨ordered_step h.ordered hstep, h.arrived.trans_le (prefix_step hstep side).1.length_le,
            not_lt.mp htaken⟩
        rw [polls_cons, latePolls_cons]
        refine (ih hwaits).imp_right fun ⟨hdue', hahead'⟩ => ⟨?_, ?_⟩ <;> omega

theorem Ordered.getElem?_taken (h : m'.Ordered) (harrived : m.arrived side <+: m'.arrived side)
    (ha : (m.arrived side)[n]? = some a) (htaken : n < (m'.taken side).length) :
    (m'.taken side)[n]? = some a := by
  obtain ⟨rest, hrest⟩ := harrived
  have hlt : n < (m.arrived side).length := (List.getElem?_eq_some_iff.mp ha).1
  rw [← List.getElem?_append_left htaken, ← h side, ← hrest, List.getElem?_append_left hlt, ha]

/-- An item behind `k` others of its side is taken by `2 * (k + 1)` polls, and at most `k + 1` items
of the other side are taken before it; each late poll adds two to either. -/
theorem taken_in_turn {events : List (Event α)} (hreachable : (lts α).Reachable m)
    (hrun : (lts α).Run m events m') (ha : (m.arrived side)[n]? = some a) :
    (2 * (n - (m.taken side).length + 1 + latePolls events) ≤ polls events →
        (m'.taken side)[n]? = some a) ∧
      ((m'.taken side).length ≤ n → (m'.taken !side).length ≤
        (m.taken !side).length + (n - (m.taken side).length) + 1 + 2 * latePolls events) := by
  obtain ⟨harrived, htaken⟩ := prefix_run hrun side
  have hordered' := ordered_reachable (hrun.reachable hreachable)
  by_cases huntaken : (m.taken side).length ≤ n
  · have hlt : n < (m.arrived side).length := (List.getElem?_eq_some_iff.mp ha).1
    have hwaits := Waits.run ⟨ordered_reachable hreachable, hlt, huntaken⟩ hrun
    refine ⟨fun hpolls => hordered'.getElem?_taken harrived ha ?_, fun hle => ?_⟩
    · refine hwaits.resolve_right fun h => ?_
      have hdue := h.1
      unfold due at hdue
      split_ifs at hdue <;> omega
    · have hahead := (hwaits.resolve_left (not_lt.mpr hle)).2
      unfold ahead at hahead
      split_ifs at hahead <;> omega
  · have hlt : n < (m'.taken side).length := (not_le.mp huntaken).trans_le htaken
    exact ⟨fun _ => hordered'.getElem?_taken harrived ha hlt,
      fun hle => absurd hle (not_le.mpr hlt)⟩

/-! ### The history in the labels -/

def Event.arrival? (side : Bool) : Event α → Option α
  | .arrive side' a => if side' = side then some a else none
  | .poll .. => none

def Event.result? (side : Bool) : Event α → Option α
  | .poll _ (some (side', a)) => if side' = side then some a else none
  | _ => none

/-- What arrives on a side. -/
def arrivals (side : Bool) (events : List (Event α)) : List α :=
  events.filterMap (Event.arrival? side)

/-- What is taken from a side. -/
def results (side : Bool) (events : List (Event α)) : List α :=
  events.filterMap (Event.result? side)

theorem history_step {e : Event α} (hstep : (lts α).step m e m') (side : Bool) :
    m'.arrived side = m.arrived side ++ arrivals side [e] ∧
      m'.taken side = m.taken side ++ results side [e] := by
  cases hstep with
  | arrive other a =>
    by_cases ho : side = other
    · subst ho
      simp [arrive, arrivals, results, Event.arrival?, Event.result?]
    · simp [arrive, arrivals, results, Event.arrival?, Event.result?, Function.update_of_ne ho,
        Ne.symm ho]
  | @take _ other a =>
    by_cases ho : side = other
    · subst ho
      simp [take, arrivals, results, Event.arrival?, Event.result?]
    · simp [take, arrivals, results, Event.arrival?, Event.result?, Function.update_of_ne ho,
        Ne.symm ho]
  | pending => simp [arrivals, results, Event.arrival?, Event.result?]

theorem history_run {events : List (Event α)} (hrun : (lts α).Run m events m') (side : Bool) :
    m'.arrived side = m.arrived side ++ arrivals side events ∧
      m'.taken side = m.taken side ++ results side events := by
  induction hrun with
  | refl => simp [arrivals, results]
  | @head m e m' events u hstep _ ih =>
    obtain ⟨harrived, htaken⟩ := history_step hstep side
    rw [ih.1, ih.2, harrived, htaken, List.append_assoc, List.append_assoc]
    exact ⟨congrArg _ List.filterMap_append.symm, congrArg _ List.filterMap_append.symm⟩

end Merge

end Lib
