import Mathlib.Tactic

/-! Labelled transition systems: runs, reachable states and invariants. -/
namespace Lib

/-- A system that starts in an initial state and moves by labelled steps. -/
structure Lts (σ ι : Type) where
  init : σ → Prop
  step : σ → ι → σ → Prop

namespace Lts

variable {σ ι : Type}

/-- A finite run with the labels of its steps in order. -/
inductive Run (m : Lts σ ι) : σ → List ι → σ → Prop
  | refl (s) : Run m s [] s
  | head {s i t xs u} : m.step s i t → Run m t xs u → Run m s (i :: xs) u

inductive Reachable (m : Lts σ ι) : σ → Prop
  | init {s} : m.init s → Reachable m s
  | step {s i t} : Reachable m s → m.step s i t → Reachable m t

variable {m : Lts σ ι} {s t u : σ} {i : ι} {xs ys : List ι} {P : σ → Prop}

theorem Run.single (h : m.step s i t) : m.Run s [i] t := .head h (.refl t)

theorem Run.append (h : m.Run s xs t) (h' : m.Run t ys u) : m.Run s (xs ++ ys) u := by
  induction h with
  | refl => exact h'
  | head hs _ ih => exact .head hs (ih h')

theorem Run.reachable (h : m.Run s xs t) (hs : m.Reachable s) : m.Reachable t := by
  induction h with
  | refl => exact hs
  | head hstep _ ih => exact ih (hs.step hstep)

theorem Reachable.exists_run (h : m.Reachable t) : ∃ s xs, m.init s ∧ m.Run s xs t := by
  induction h with
  | init hs => exact ⟨_, [], hs, .refl _⟩
  | step _ hstep ih =>
    obtain ⟨s, xs, hs, hrun⟩ := ih
    exact ⟨s, xs ++ [_], hs, hrun.append (.single hstep)⟩

/-- The invariant rule. A step may use that it leaves a reachable state. -/
theorem Reachable.invariant (h : m.Reachable s) (hinit : ∀ s, m.init s → P s)
    (hstep : ∀ s i t, m.Reachable s → P s → m.step s i t → P t) : P s := by
  induction h with
  | init hs => exact hinit _ hs
  | step hs hstep' ih => exact hstep _ _ _ hs ih hstep'

/-- A property that every step keeps is kept by every run. -/
theorem Run.preserves (h : m.Run s xs t) (hstep : ∀ s i t, P s → m.step s i t → P t)
    (hs : P s) : P t := by
  induction h with
  | refl => exact hs
  | head hs' _ ih => exact ih (hstep _ _ _ hs hs')

/-- Repeated application of a transition function. -/
def runSteps (next : σ → ι → Option σ) : List ι → σ → Option σ
  | [], s => some s
  | i :: is, s => (next s i).bind (runSteps next is)

theorem Run.of_runSteps {next : σ → ι → Option σ}
    (hnext : ∀ i ∈ xs, ∀ s t, next s i = some t → m.step s i t)
    (h : runSteps next xs s = some t) : m.Run s xs t := by
  induction xs generalizing s with
  | nil =>
    cases h
    exact .refl _
  | cons i is ih =>
    obtain ⟨u, hu, h⟩ := Option.bind_eq_some_iff.mp h
    exact .head (hnext i List.mem_cons_self _ _ hu)
      (ih (fun j hj => hnext j (List.mem_cons_of_mem _ hj)) h)

/-- The simulation rule: runs that match the steps one by one match a whole run. -/
theorem Run.simulated {τ κ : Type} {n : Lts τ κ} {R : σ → τ → Prop} {M : ι → List κ → Prop}
    (hstep : ∀ s i s' t, R s t → m.step s i s' → ∃ ks t', M i ks ∧ n.Run t ks t' ∧ R s' t')
    (h : m.Run s xs u) {t : τ} (hR : R s t) :
    ∃ ys t', List.Forall₂ M xs ys ∧ n.Run t ys.flatten t' ∧ R u t' := by
  induction h generalizing t with
  | refl => exact ⟨[], t, .nil, .refl t, hR⟩
  | head hs _ ih =>
    obtain ⟨ks, t', hM, hrun, hR'⟩ := hstep _ _ _ _ hR hs
    obtain ⟨ys, t'', hys, hrun', hu⟩ := ih hR'
    exact ⟨ks :: ys, t'', .cons hM hys, hrun.append hrun', hu⟩

/-- Some run leads from one state to the other. -/
def Leads (m : Lts σ ι) (s t : σ) : Prop := ∃ xs, m.Run s xs t

theorem Leads.refl (s : σ) : m.Leads s s := ⟨[], .refl s⟩

theorem Leads.of_step (h : m.step s i t) : m.Leads s t := ⟨[i], .single h⟩

theorem Leads.trans (h : m.Leads s t) (h' : m.Leads t u) : m.Leads s u := by
  obtain ⟨xs, hx⟩ := h
  obtain ⟨ys, hy⟩ := h'
  exact ⟨xs ++ ys, hx.append hy⟩

/-- A state determines its step. -/
def Deterministic (m : Lts σ ι) : Prop :=
  ∀ s i t j u, m.step s i t → m.step s j u → i = j ∧ t = u

/-- Of two runs from one state one continues the other. -/
theorem Deterministic.leads_or_leads (hm : m.Deterministic) (ht : m.Run s xs t)
    (hu : m.Run s ys u) : m.Leads t u ∨ m.Leads u t := by
  induction ht generalizing ys with
  | refl => exact .inl ⟨ys, hu⟩
  | head hstep htail ih =>
    cases hu with
    | refl => exact .inr ⟨_, .head hstep htail⟩
    | head hstep' hu' =>
      obtain ⟨-, rfl⟩ := hm _ _ _ _ _ hstep hstep'
      exact ih hu'

/-- No step leaves the state. -/
def Ended (m : Lts σ ι) (s : σ) : Prop := ∀ i t, ¬ m.step s i t

theorem Ended.eq_of_leads (h : m.Ended s) (hl : m.Leads s t) : s = t := by
  obtain ⟨xs, hx⟩ := hl
  cases hx with
  | refl => rfl
  | head hstep => exact absurd hstep (h _ _)

/-- A deterministic system has at most one end. -/
theorem Deterministic.end_unique (hm : m.Deterministic) (ht : m.Leads s t) (hu : m.Leads s u)
    (hte : m.Ended t) (hue : m.Ended u) : t = u := by
  obtain ⟨xs, hx⟩ := ht
  obtain ⟨ys, hy⟩ := hu
  rcases hm.leads_or_leads hx hy with h | h
  · exact hte.eq_of_leads h
  · exact (hue.eq_of_leads h).symm

/-- The steps of `m` that meet a condition on the state before them and on their label. -/
def restrict (m : Lts σ ι) (C : σ → ι → Prop) : Lts σ ι where
  init := m.init
  step s i t := C s i ∧ m.step s i t

theorem Reachable.of_restrict {C : σ → ι → Prop} (h : (m.restrict C).Reachable s) :
    m.Reachable s := by
  induction h with
  | init hs => exact .init hs
  | step _ hs ih => exact ih.step hs.2

end Lts

end Lib
