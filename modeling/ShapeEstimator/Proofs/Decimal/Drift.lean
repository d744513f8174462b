/-
  ShapeEstimator.Proofs.Decimal.Drift
  ────────────────────────────────
  **REPEATED SQUARING WITH PRODUCTS THAT ARE OFF.**

  Every product of repeated squaring may be off by a share `u` of its size, and what is off before
  a product is multiplied by it.  After `n` roundings the power is off by at most

      drift n  =  (1 + u) ^ n - 1

  of its size, and repeated squaring makes the power with exponent `n` with `n` roundings in each
  factor that ends up in it.  The argument is the same for every kind of number that is multiplied.
-/
import Mathlib.Algebra.Order.Field.Basic
import Mathlib.Algebra.Order.Ring.Abs
import Mathlib.Data.Rat.Cast.Order
import Mathlib.Tactic.GCongr
import Mathlib.Tactic.Linarith
import Mathlib.Tactic.NormNum
import Mathlib.Tactic.Positivity
import Mathlib.Tactic.Ring
import ShapeEstimator.Decimal.Power

namespace ShapeEstimator

open Decimal (bySquaring)

/-! ## §1. How errors grow. -/

/-- The share by which a number can be off after some roundings, each of which is off by `u`. -/
def drift (u : ℚ) (k : ℕ) : ℚ := (1 + u) ^ k - 1

section Drift

variable {u b : ℚ} {k l e f : ℕ}

theorem drift_zero (u : ℚ) : drift u 0 = 0 := by
  simp [drift]

theorem drift_nonneg (hu : 0 ≤ u) (k : ℕ) : 0 ≤ drift u k := by
  unfold drift
  have hone : 1 ≤ (1 + u) ^ k := one_le_pow₀ (by linarith)
  linarith

theorem drift_mono (hu : 0 ≤ u) (h : k ≤ l) : drift u k ≤ drift u l := by
  unfold drift
  have hpow : (1 + u) ^ k ≤ (1 + u) ^ l := pow_le_pow_right₀ (by linarith) h
  linarith

/-- A product of two numbers that are off is off by both shares, and by both at once. -/
theorem drift_add (u : ℚ) (k l : ℕ) :
    drift u (k + l) = drift u k * (1 + drift u l) + drift u l := by
  unfold drift
  rw [pow_add]
  ring

/-- Few roundings are off by little more than the sum of their shares. -/
theorem drift_le (hu : 0 ≤ u) (h : 2 * k * u ≤ 1) : drift u k ≤ 2 * k * u := by
  unfold drift
  suffices hpow : (1 + u) ^ k ≤ 1 + 2 * k * u by linarith
  induction k with
  | zero => simp
  | succ k ih =>
    push_cast at h ⊢
    have hk : 2 * k * u ≤ 1 := by nlinarith
    -- the share of a share is at most one more share
    have hproduct : 2 * k * u * u ≤ 1 * u := mul_le_mul_of_nonneg_right hk hu
    calc (1 + u) ^ (k + 1) = (1 + u) ^ k * (1 + u) := pow_succ _ _
      _ ≤ (1 + 2 * k * u) * (1 + u) := mul_le_mul_of_nonneg_right (ih hk) (by linarith)
      _ = 1 + 2 * k * u + u + 2 * k * u * u := by ring
      _ ≤ 1 + 2 * (k + 1) * u := by linarith

/-! ## §2. Numbers that stand for powers. -/

/-- The size that a power can have: at least one. -/
def powerSize (b : ℚ) (e : ℕ) : ℚ := max 1 |b| ^ e

theorem one_le_powerSize (b : ℚ) (e : ℕ) : 1 ≤ powerSize b e := one_le_pow₀ (le_max_left 1 |b|)

theorem powerSize_add (b : ℚ) (e f : ℕ) : powerSize b (e + f) = powerSize b e * powerSize b f :=
  pow_add _ _ _

theorem abs_pow_le_powerSize (b : ℚ) (e : ℕ) : |b ^ e| ≤ powerSize b e := by
  rw [abs_pow]
  exact pow_le_pow_left₀ (abs_nonneg b) (le_max_right 1 |b|) e

theorem powerSize_le (b : ℚ) (h : e ≤ f) : powerSize b e ≤ powerSize b f :=
  pow_le_pow_right₀ (le_max_left 1 |b|) h

theorem powerSize_eq (b : ℚ) (e : ℕ) : powerSize b e = max 1 |b ^ e| := by
  unfold powerSize
  rw [abs_pow]
  rcases le_total 1 |b| with h | h
  · rw [max_eq_right h, max_eq_right (one_le_pow₀ h)]
  · rw [max_eq_left h, one_pow, max_eq_left (pow_le_one₀ (abs_nonneg b) h)]

/-- A number that stands for the power `b ^ e` after `k` roundings. -/
def Near (u b : ℚ) (k e : ℕ) (x : ℚ) : Prop := |x - b ^ e| ≤ drift u k * powerSize b e

theorem near_one (u b : ℚ) : Near u b 0 0 1 := by
  simp [Near, drift_zero]

theorem near_base (u b : ℚ) : Near u b 0 1 b := by
  simp [Near, drift_zero]

theorem Near.abs_le {x : ℚ} (h : Near u b k e x) : |x| ≤ (1 + drift u k) * powerSize b e := by
  have hx : |x| ≤ |x - b ^ e| + |b ^ e| := by
    simpa using abs_add_le (x - b ^ e) (b ^ e)
  calc |x| ≤ |x - b ^ e| + |b ^ e| := hx
    _ ≤ drift u k * powerSize b e + powerSize b e := add_le_add h (abs_pow_le_powerSize b e)
    _ = (1 + drift u k) * powerSize b e := by ring

/-- The exact product of numbers that stand for powers. -/
theorem Near.exact_mul (hu : 0 ≤ u) {x y : ℚ} (hx : Near u b k e x) (hy : Near u b l f y) :
    Near u b (k + l) (e + f) (x * y) := by
  have hk := drift_nonneg hu k
  have hsplit : x * y - b ^ (e + f) = (x - b ^ e) * y + b ^ e * (y - b ^ f) := by
    rw [pow_add]
    ring
  unfold Near
  rw [hsplit, drift_add, powerSize_add]
  calc |(x - b ^ e) * y + b ^ e * (y - b ^ f)|
      ≤ |x - b ^ e| * |y| + |b ^ e| * |y - b ^ f| := by
        rw [← abs_mul, ← abs_mul]
        exact abs_add_le _ _
    _ ≤ drift u k * powerSize b e * ((1 + drift u l) * powerSize b f)
        + powerSize b e * (drift u l * powerSize b f) := by
        have hpos : 0 ≤ powerSize b e := zero_le_one.trans (one_le_powerSize b e)
        exact add_le_add
          (mul_le_mul hx hy.abs_le (abs_nonneg y) (mul_nonneg hk hpos))
          (mul_le_mul (abs_pow_le_powerSize b e) hy (abs_nonneg _) hpos)
    _ = (drift u k * (1 + drift u l) + drift u l) * (powerSize b e * powerSize b f) := by ring

/-- A number that is off from one that stands for a power. -/
theorem Near.of_off (hu : 0 ≤ u) {x z : ℚ} (hx : Near u b k e x)
    (hz : |z - x| ≤ u * max 1 |x|) : Near u b (k + 1) e z := by
  have hsize : max 1 |x| ≤ (1 + drift u k) * powerSize b e := by
    apply max_le _ hx.abs_le
    have hk := drift_nonneg hu k
    exact one_le_mul_of_one_le_of_one_le (by linarith) (one_le_powerSize b e)
  have hone : drift u 1 = u := by
    simp [drift]
  unfold Near at hx ⊢
  rw [add_comm k 1, drift_add, hone]
  calc |z - b ^ e| ≤ |z - x| + |x - b ^ e| := abs_sub_le z x (b ^ e)
    _ ≤ u * ((1 + drift u k) * powerSize b e) + drift u k * powerSize b e :=
        add_le_add (hz.trans (mul_le_mul_of_nonneg_left hsize hu)) hx
    _ = (u * (1 + drift u k) + drift u k) * powerSize b e := by ring

/-- A rounded product of numbers that stand for powers stands for the product of the powers. -/
theorem Near.mul (hu : 0 ≤ u) {x y z : ℚ} (hx : Near u b k e x) (hy : Near u b l f y)
    (hz : |z - x * y| ≤ u * max 1 |x * y|) : Near u b (k + l + 1) (e + f) z :=
  (hx.exact_mul hu hy).of_off hu hz

end Drift

/-! ## §3. Repeated squaring. -/

section Squaring

variable {α β : Type} {mul : α → α → Option α} {T : ℕ → ℕ → α → Prop} {S : ℕ → ℕ → β → Prop}
  {N k l e f : ℕ}

/-- An operation whose result stands for a power.  It has a result as long as neither the roundings
nor the exponent are too many. -/
structure Tracks (T : ℕ → ℕ → α → Prop) (N k e : ℕ) (o : Option α) : Prop where
  /-- A result stands for the power with exponent `e` after `k` roundings. -/
  holds : ∀ z, o = some z → T k e z
  /-- There is a result within the bound. -/
  exists_eq : k ≤ N → e ≤ N → ∃ z, o = some z

theorem Tracks.of_some {x : α} (h : T k e x) : Tracks T N k e (some x) :=
  ⟨fun z hz => by cases hz; exact h, fun _ _ => ⟨x, rfl⟩⟩

/-- An operation after another one that needs no more than it. -/
theorem Tracks.bind {o : Option α} {g : α → Option β} (h : Tracks T N k e o) (hk : k ≤ l)
    (he : e ≤ f) (hg : ∀ x, T k e x → Tracks S N l f (g x)) : Tracks S N l f (o.bind g) := by
  constructor
  · intro z hz
    obtain ⟨x, hx, hz⟩ := Option.bind_eq_some_iff.1 hz
    exact (hg x (h.holds x hx)).holds z hz
  · intro hl hf
    obtain ⟨x, hx⟩ := h.exists_eq (hk.trans hl) (he.trans hf)
    obtain ⟨z, hz⟩ := (hg x (h.holds x hx)).exists_eq hl hf
    exact ⟨z, by rw [hx]; exact hz⟩

/-- The steps of repeated squaring. -/
theorem bySquaring_eq (mul : α → α → Option α) (product power : α) (n : ℕ) :
    bySquaring mul product power n
      = (if n % 2 = 1 then mul product power else some product).bind fun product =>
        if n / 2 = 0 then some product
        else (mul power power).bind fun square => bySquaring mul product square (n / 2) := by
  rw [bySquaring]
  rfl

/-- The bits of an exponent, the low one apart, count twice. -/
theorem add_mul_bits (a c n : ℕ) : a + c * (n % 2) + (c + c) * (n / 2) = a + c * n := by
  have hn := Nat.mod_add_div n 2
  calc a + c * (n % 2) + (c + c) * (n / 2) = a + c * (n % 2 + 2 * (n / 2)) := by ring
    _ = a + c * n := by rw [hn]

/-- **Repeated squaring.**  If products of numbers that stand for powers do so, then repeated
squaring makes a number that stands for the power. -/
theorem bySquaring_tracks
    (hmul : ∀ {k l e f x y}, T k e x → T l f y → Tracks T N (k + l + 1) (e + f) (mul x y))
    (n : ℕ) {product power : α} (hproduct : T k e product) (hpower : T l f power) :
    Tracks T N (k + (l + 1) * n) (e + f * n) (bySquaring mul product power n) := by
  induction n using Nat.strong_induction_on generalizing k l e f product power with
  | _ n ih =>
    -- the low bit of the exponent first
    have hlow : Tracks T N (k + (l + 1) * (n % 2)) (e + f * (n % 2))
        (if n % 2 = 1 then mul product power else some product) := by
      rcases Nat.mod_two_eq_zero_or_one n with hbit | hbit
      · rw [hbit, if_neg (by decide)]
        simpa using Tracks.of_some hproduct
      · rw [hbit, if_pos rfl]
        simpa [add_assoc] using hmul hproduct hpower
    have hroundings := add_mul_bits k (l + 1) n
    have hexponent := add_mul_bits e f n
    rw [bySquaring_eq]
    refine hlow.bind (by omega) (by omega) fun next hnext => ?_
    by_cases hhigh : n / 2 = 0
    · rw [if_pos hhigh]
      rw [hhigh, Nat.mul_zero, Nat.add_zero] at hroundings hexponent
      rw [← hroundings, ← hexponent]
      exact Tracks.of_some hnext
    · rw [if_neg hhigh]
      -- the square of the power comes before the bits that are left
      have hsquare : l + l + 1 + 1 = l + 1 + (l + 1) := by ring
      have hleft : 1 ≤ n / 2 := Nat.one_le_iff_ne_zero.2 hhigh
      have hk := Nat.mul_le_mul_left (l + 1 + (l + 1)) hleft
      have he := Nat.mul_le_mul_left (f + f) hleft
      refine (hmul hpower hpower).bind (by omega) (by omega) fun square hsquared => ?_
      have hrest := ih (n / 2) (by omega) hnext hsquared
      rwa [hsquare, hroundings, hexponent] at hrest

end Squaring

end ShapeEstimator
