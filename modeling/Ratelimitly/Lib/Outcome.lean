import Mathlib.Tactic

/-! Results of Rust functions: a value, a returned error, or a panic. -/
namespace Lib

/-- What a call of a function returning `Result<α, ε>` can come to. -/
inductive Outcome (ε α : Type) where
  | ok (a : α)
  | err (e : ε)
  | panic
  deriving DecidableEq, Repr

namespace Outcome

variable {ε δ α β : Type}

/-- The `?` operator: errors and panics of the first computation end the second. -/
def bind (x : Outcome ε α) (f : α → Outcome ε β) : Outcome ε β :=
  match x with
  | .ok a => f a
  | .err e => .err e
  | .panic => .panic

instance : Monad (Outcome ε) where
  pure := .ok
  bind := bind

@[simp] theorem pure_eq (a : α) : (pure a : Outcome ε α) = .ok a := rfl

@[simp] theorem ok_bind (a : α) (f : α → Outcome ε β) : (Outcome.ok a >>= f) = f a := rfl

@[simp] theorem err_bind (e : ε) (f : α → Outcome ε β) : (Outcome.err e >>= f) = .err e := rfl

@[simp] theorem panic_bind (f : α → Outcome ε β) : (Outcome.panic >>= f) = .panic := rfl

theorem bind_eq_ok_iff {x : Outcome ε α} {f : α → Outcome ε β} {b : β} :
    (x >>= f) = .ok b ↔ ∃ a, x = .ok a ∧ f a = .ok b := by
  cases x <;> simp

theorem bind_congr {x : Outcome ε α} {f g : α → Outcome ε β} (h : ∀ a, x = .ok a → f a = g a) :
    (x >>= f) = x >>= g := by
  cases x with
  | ok a => exact h a rfl
  | err => rfl
  | panic => rfl

/-- `Result::is_ok`. -/
def isOk : Outcome ε α → Bool
  | .ok _ => true
  | _ => false

theorem isOk_iff {x : Outcome ε α} : x.isOk = true ↔ ∃ a, x = .ok a := by
  cases x <;> simp [isOk]

/-- `if c { return Err(e) }`. -/
def failIf (c : Prop) [Decidable c] (e : ε) : Outcome ε Unit :=
  if c then .err e else .ok ()

@[simp] theorem failIf_eq_ok_iff {c : Prop} [Decidable c] {e : ε} {u : Unit} :
    failIf c e = .ok u ↔ ¬ c := by
  by_cases h : c <;> simp [failIf, h]

theorem failIf_pos {c : Prop} [Decidable c] {e : ε} (h : c) : failIf c e = .err e := if_pos h

theorem failIf_neg {c : Prop} [Decidable c] {e : ε} (h : ¬ c) : failIf c e = .ok () := if_neg h

theorem failIf_bind_eq_ok_iff {c : Prop} [Decidable c] {e : ε} {f : Unit → Outcome ε β} {b : β} :
    (failIf c e >>= f) = .ok b ↔ ¬ c ∧ f () = .ok b := by
  by_cases h : c <;> simp [failIf, h]

/-- `Option::ok_or`. -/
def okOr (e : ε) : Option α → Outcome ε α
  | some a => .ok a
  | none => .err e

@[simp] theorem okOr_eq_ok_iff {e : ε} {o : Option α} {a : α} : okOr e o = .ok a ↔ o = some a := by
  cases o <;> simp [okOr]

/-- `Option::expect` and `Option::unwrap`. -/
def expect : Option α → Outcome ε α
  | some a => .ok a
  | none => .panic

@[simp] theorem expect_eq_ok_iff {o : Option α} {a : α} :
    (expect o : Outcome ε α) = .ok a ↔ o = some a := by
  cases o <;> simp [expect]

/-- `Result::map_err`. -/
def mapErr (f : ε → δ) : Outcome ε α → Outcome δ α
  | .ok a => .ok a
  | .err e => .err (f e)
  | .panic => .panic

@[simp] theorem mapErr_eq_ok_iff {f : ε → δ} {x : Outcome ε α} {a : α} :
    x.mapErr f = .ok a ↔ x = .ok a := by
  cases x <;> simp [mapErr]

/-- The value, with the fact that it is the result. -/
def attach : (x : Outcome ε α) → Outcome ε { a // x = .ok a }
  | .ok a => .ok ⟨a, rfl⟩
  | .err e => .err e
  | .panic => .panic

/-- A loop that pushes one fallible result per element. -/
def mapList (f : α → Outcome ε β) : List α → Outcome ε (List β)
  | [] => .ok []
  | a :: as => do
    let b ← f a
    let bs ← mapList f as
    pure (b :: bs)

theorem mapList_eq_ok_iff {f : α → Outcome ε β} {as : List α} {bs : List β} :
    mapList f as = .ok bs ↔ List.Forall₂ (fun a b => f a = .ok b) as bs := by
  induction as generalizing bs with
  | nil => cases bs <;> simp [mapList]
  | cons a as ih =>
    simp only [mapList, bind_eq_ok_iff, ih, pure_eq, ok.injEq, List.forall₂_cons_left_iff]
    aesop

theorem mapList_ok {f : α → Outcome ε β} {g : α → β} {as : List α}
    (h : ∀ a ∈ as, f a = .ok (g a)) : mapList f as = .ok (as.map g) := by
  rw [mapList_eq_ok_iff, List.forall₂_map_right_iff, List.forall₂_same]
  exact h

/-- A loop whose steps all succeed. -/
theorem foldlM_ok {f : β → α → Outcome ε β} {g : β → α → β} (h : ∀ b a, f b a = .ok (g b a))
    (as : List α) (b : β) : as.foldlM f b = .ok (as.foldl g b) := by
  induction as generalizing b with
  | nil => rfl
  | cons a as ih => rw [List.foldlM_cons, h, ok_bind, ih, List.foldl_cons]

theorem exists_forall₂ {γ : Type} {R : α → β → Prop} {Q : α → γ → Prop} {f : β → Outcome ε γ}
    {as : List α} {bs : List β} (h : List.Forall₂ R as bs)
    (hf : ∀ a b, R a b → ∃ c, f b = .ok c ∧ Q a c) :
    ∃ cs, List.Forall₂ (fun b c => f b = .ok c) bs cs ∧ List.Forall₂ Q as cs := by
  induction h with
  | nil => exact ⟨[], .nil, .nil⟩
  | cons hab _ ih =>
    obtain ⟨c, hc, hq⟩ := hf _ _ hab
    obtain ⟨cs, hcs, hqs⟩ := ih
    exact ⟨c :: cs, .cons hc hcs, .cons hq hqs⟩

/-! ### Computations that do not panic -/

/-- The call returns, with a value or an error. -/
def Returns (x : Outcome ε α) : Prop := x ≠ .panic

theorem returns_ok (a : α) : (ok a : Outcome ε α).Returns := nofun

theorem returns_err (e : ε) : (err e : Outcome ε α).Returns := nofun

theorem Returns.bind {x : Outcome ε α} {f : α → Outcome ε β} (hx : x.Returns)
    (hf : ∀ a, x = .ok a → (f a).Returns) : (x >>= f).Returns := by
  cases x with
  | ok a => exact hf a rfl
  | err e => exact returns_err e
  | panic => exact absurd rfl hx

theorem Returns.exists_err {x : Outcome ε α} (hx : x.Returns) (h : ∀ a, x ≠ .ok a) :
    ∃ e, x = .err e := by
  cases x with
  | ok a => exact absurd rfl (h a)
  | err e => exact ⟨e, rfl⟩
  | panic => exact absurd rfl hx

theorem Returns.mapErr {x : Outcome ε α} {f : ε → δ} (hx : x.Returns) : (x.mapErr f).Returns := by
  cases x with
  | ok a => exact returns_ok a
  | err e => exact returns_err (f e)
  | panic => exact absurd rfl hx

theorem returns_failIf (c : Prop) [Decidable c] (e : ε) : (failIf c e).Returns := by
  by_cases h : c
  · rw [failIf_pos h]
    exact returns_err e
  · rw [failIf_neg h]
    exact returns_ok ()

theorem returns_okOr (e : ε) (o : Option α) : (okOr e o).Returns := by
  cases o with
  | none => exact returns_err e
  | some a => exact returns_ok a

theorem returns_mapList {f : α → Outcome ε β} (hf : ∀ a, (f a).Returns) (as : List α) :
    (mapList f as).Returns := by
  induction as with
  | nil => exact returns_ok []
  | cons a as ih => exact (hf a).bind fun b _ => ih.bind fun bs _ => returns_ok (b :: bs)

end Outcome

end Lib
