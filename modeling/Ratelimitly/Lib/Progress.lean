import Mathlib.Tactic
import Ratelimitly.Lib.Lts

/-! Measures: what they bound, and where they lead. -/
namespace Lib

/-- One summand of a sum over a list changes. -/
theorem sum_map_set {α : Type} (f : α → ℕ) {l : List α} {i : ℕ} {a : α} (h : l[i]? = some a)
    (b : α) : ((l.set i b).map f).sum + f a = (l.map f).sum + f b := by
  induction l generalizing i with
  | nil => simp at h
  | cons x xs ih =>
    cases i with
    | zero =>
      rw [List.getElem?_cons_zero, Option.some_inj] at h
      subst h
      simp only [List.set_cons_zero, List.map_cons, List.sum_cons]
      omega
    | succ i =>
      rw [List.getElem?_cons_succ] at h
      have hsum := ih h
      simp only [List.set_cons_succ, List.map_cons, List.sum_cons]
      omega

/-- A sequence that decreases wherever `p` fails, and else stays, meets `p` from some point on. -/
theorem exists_forall_of_wellFounded {α : Type} {r : α → α → Prop} (hr : WellFounded r) {f : ℕ → α}
    {p : ℕ → Prop} (hkeep : ∀ n, p n → f (n + 1) = f n) (hdrop : ∀ n, ¬ p n → r (f (n + 1)) (f n)) :
    ∃ N, ∀ n, N ≤ n → p n := by
  obtain ⟨a, ⟨N, rfl⟩, hmin⟩ := hr.has_min (Set.range f) ⟨f 0, 0, rfl⟩
  have hstays (n : ℕ) (heq : f n = f N) : p n := by
    by_contra hn
    exact hmin (f (n + 1)) ⟨n + 1, rfl⟩ (heq ▸ hdrop n hn)
  have heq (n : ℕ) (hn : N ≤ n) : f n = f N := by
    induction n, hn using Nat.le_induction with
    | base => rfl
    | succ n _ ih => exact (hkeep n (hstays n ih)).trans ih
  exact ⟨N, fun n hn => hstays n (heq n hn)⟩

namespace Lts

variable {σ ι α : Type} {m : Lts σ ι} {s t : σ} {xs : List ι}

/-- If every state short of the goal can be brought closer to it, some run reaches the goal. -/
theorem leads_of_measure {r : α → α → Prop} (hr : WellFounded r) (μ : σ → α) {P Q : σ → Prop}
    (h : ∀ s, P s → ¬ Q s → ∃ t, m.Leads s t ∧ P t ∧ r (μ t) (μ s)) (hs : P s) :
    ∃ t, m.Leads s t ∧ Q t := by
  induction hμ : μ s using hr.induction generalizing s with
  | h a ih =>
    by_cases hq : Q s
    · exact ⟨s, .refl s, hq⟩
    · obtain ⟨t, hst, ht, hlt⟩ := h s hs hq
      obtain ⟨u, htu, hu⟩ := ih (μ t) (hμ ▸ hlt) ht rfl
      exact ⟨u, hst.trans htu, hu⟩

/-- A measure that every step decreases bounds the length of a run. -/
theorem Run.length_add_le (μ : σ → ℕ) (h : ∀ s i t, m.step s i t → μ t < μ s)
    (hrun : m.Run s xs t) : xs.length + μ t ≤ μ s := by
  induction hrun with
  | refl => simp
  | head hstep _ ih =>
    have hlt := h _ _ _ hstep
    rw [List.length_cons]
    omega

end Lts

end Lib
