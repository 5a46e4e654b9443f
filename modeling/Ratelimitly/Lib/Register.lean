import Mathlib.Tactic

/-! Registers that absorb symbols and are linear over exclusive or, and the bursts they detect. -/
namespace Lib

/-- A register of `w` bits that absorbs symbols of `k` bits. -/
structure LinearRegister (w k : ℕ) where
  step : BitVec w → BitVec k → BitVec w
  step_xor : ∀ s t x y, step (s ^^^ t) (x ^^^ y) = step s x ^^^ step t y

namespace LinearRegister

variable {w k : ℕ} (r : LinearRegister w k)

def absorb (s : BitVec w) (xs : List (BitVec k)) : BitVec w := xs.foldl r.step s

def zeros (k n : ℕ) : List (BitVec k) := List.replicate n 0#k

@[simp] theorem absorb_nil (s : BitVec w) : r.absorb s [] = s := rfl

@[simp] theorem absorb_cons (s : BitVec w) (x : BitVec k) (xs : List (BitVec k)) :
    r.absorb s (x :: xs) = r.absorb (r.step s x) xs := rfl

@[simp] theorem absorb_append (s : BitVec w) (xs ys : List (BitVec k)) :
    r.absorb s (xs ++ ys) = r.absorb (r.absorb s xs) ys := List.foldl_append

theorem absorb_xor {xs ys : List (BitVec k)} (h : xs.length = ys.length) (s t : BitVec w) :
    r.absorb (s ^^^ t) (List.zipWith (· ^^^ ·) xs ys) = r.absorb s xs ^^^ r.absorb t ys := by
  induction xs generalizing ys s t with
  | nil =>
    rw [List.length_nil, eq_comm, List.length_eq_zero_iff] at h
    subst h
    rfl
  | cons x xs ih =>
    cases ys with
    | nil => simp at h
    | cons y ys =>
      rw [List.zipWith_cons_cons, absorb_cons, r.step_xor, ih (by simpa using h)]
      rfl

theorem zipWith_xor_self (xs : List (BitVec k)) :
    List.zipWith (· ^^^ ·) xs xs = zeros k xs.length := by
  induction xs with
  | nil => rfl
  | cons x xs ih => simp [zeros, List.replicate_succ]

theorem zipWith_xor_zeros (xs : List (BitVec k)) :
    List.zipWith (· ^^^ ·) (zeros k xs.length) xs = xs := by
  induction xs with
  | nil => rfl
  | cons x xs ih => simpa [zeros, List.replicate_succ] using ih

theorem absorb_zeros (n : ℕ) : r.absorb 0#w (zeros k n) = 0#w := by
  have hlen : (zeros k n).length = n := List.length_replicate
  have h := r.absorb_xor (rfl : (zeros k n).length = (zeros k n).length) 0#w 0#w
  rwa [zipWith_xor_self, hlen, BitVec.xor_self, BitVec.xor_self] at h

/-- What a register ends with splits into what its state and what its symbols contribute. -/
theorem absorb_eq_xor (s : BitVec w) (xs : List (BitVec k)) :
    r.absorb s xs = r.absorb s (zeros k xs.length) ^^^ r.absorb 0#w xs := by
  rw [← r.absorb_xor (by simp [zeros]), zipWith_xor_zeros, BitVec.xor_zero]

/-- Without input no state is forgotten. -/
def Faithful : Prop := ∀ s, r.step s 0#k = 0#w → s = 0#w

/-- A nonzero burst of at most `n` symbols leaves a nonzero state. -/
def KeepsBursts (n : ℕ) : Prop :=
  ∀ xs : List (BitVec k), xs.length ≤ n → r.absorb 0#w xs = 0#w → ∀ x ∈ xs, x = 0#k

variable {r}

theorem Faithful.eq_zero (hr : r.Faithful) {s : BitVec w} {n : ℕ}
    (h : r.absorb s (zeros k n) = 0#w) : s = 0#w := by
  induction n generalizing s with
  | zero => exact h
  | succ n ih => exact hr s (ih h)

theorem eq_of_zipWith_xor {xs ys : List (BitVec k)} (hlen : xs.length = ys.length)
    (h : ∀ z ∈ List.zipWith (· ^^^ ·) xs ys, z = 0#k) : xs = ys := by
  induction xs generalizing ys with
  | nil => exact (List.length_eq_zero_iff.mp hlen.symm).symm
  | cons x xs ih =>
    cases ys with
    | nil => simp at hlen
    | cons y ys =>
      simp only [List.zipWith_cons_cons, List.mem_cons, forall_eq_or_imp] at h
      rw [BitVec.xor_eq_zero_iff.mp h.1, ih (by simpa using hlen) h.2]

/-- Two inputs that differ only inside a window of `n` symbols end in different states. -/
theorem burst_detected (hr : r.Faithful) {n : ℕ} (hn : r.KeepsBursts n) {s : BitVec w}
    {before xs ys after : List (BitVec k)} (hlen : xs.length = ys.length) (hle : xs.length ≤ n)
    (h : r.absorb s (before ++ xs ++ after) = r.absorb s (before ++ ys ++ after)) : xs = ys := by
  simp only [absorb_append] at h
  have hafter : r.absorb (r.absorb (r.absorb s before) xs ^^^ r.absorb (r.absorb s before) ys)
      (zeros k after.length) = 0#w := by
    rw [← zipWith_xor_self, r.absorb_xor rfl, h, BitVec.xor_self]
  have hburst := hr.eq_zero hafter
  rw [← r.absorb_xor hlen, BitVec.xor_self] at hburst
  exact eq_of_zipWith_xor hlen (hn _ (by simp; omega) hburst)

end LinearRegister

end Lib
