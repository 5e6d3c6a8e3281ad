import Mathlib.Data.Int.ModEq
import TradeSynth.PolyHashProofs

/-!
# Positional values — Horner's rule over the integers, read back

A polynomial hash over the integers is the value of a numeral: `acc` in front, and the
elements behind it as digits in base `b`. A hash in another ring is the image of that value
(`map_polyHash`), so that two lists with one hash there have values that differ by an
element of the kernel.

Digits need not lie between 0 and `b`: any window of `b` consecutive integers will do. Two
numerals of one length with digits from one window have different values
(`eq_of_window`). When the digits are not negative and the leading part is large enough, a
longer numeral has a larger value (`lt_of_shorter`), so that numerals of all lengths are
told apart (`injective_of_window`).
-/

namespace Positional

open PolyHash

variable {α : Type}

/-- A ring homomorphism takes a hash to the hash over the other ring. -/
theorem map_polyHash {R S : Type} [CommRing R] [CommRing S] (φ : R →+* S) (u : R) (f : α → R)
    (acc : R) (l : List α) :
    φ (polyHash u f acc l) = polyHash (φ u) (fun a => φ (f a)) (φ acc) l := by
  induction l generalizing acc with
  | nil => rfl
  | cons a rest ih => rw [polyHash_cons, polyHash_cons, ih, map_add, map_mul]

/-- The last digit stands at the end of the value. -/
theorem polyHash_concat {R : Type} [CommRing R] (u : R) (f : α → R) (acc : R) (l : List α)
    (a : α) : polyHash u f acc (l ++ [a]) = u * polyHash u f acc l + f a := by
  rw [polyHash_append]
  rfl

-- ── One length ───────────────────────────────────────────────────────────────

/-- Two integers of one window that agree modulo its width are equal. -/
theorem eq_of_dvd_sub {b lo x y : ℤ} (hx : lo ≤ x ∧ x < lo + b) (hy : lo ≤ y ∧ y < lo + b)
    (h : b ∣ x - y) : x = y := by
  have habs : |x - y| < b := abs_lt.mpr ⟨by omega, by omega⟩
  have hzero := Int.eq_zero_of_abs_lt_dvd h habs
  omega

/-- Numerals of one length with digits from one window are determined by their values. -/
theorem eq_of_window {b lo : ℤ} (hb : 0 < b) {f : α → ℤ} (hf : Function.Injective f)
    {acc acc' : ℤ} {l l' : List α} (hlen : l.length = l'.length)
    (hl : ∀ a ∈ l, lo ≤ f a ∧ f a < lo + b) (hl' : ∀ a ∈ l', lo ≤ f a ∧ f a < lo + b)
    (h : polyHash b f acc l = polyHash b f acc' l') : acc = acc' ∧ l = l' := by
  induction l using List.reverseRecOn generalizing l' with
  | nil =>
      rw [List.length_nil] at hlen
      obtain rfl := List.length_eq_zero_iff.mp hlen.symm
      exact ⟨h, rfl⟩
  | append_singleton x a ih =>
      obtain ⟨x', a', rfl⟩ : ∃ x' a', l' = x' ++ [a'] := by
        have hne : l' ≠ [] := by
          rintro rfl
          simp at hlen
        exact ⟨l'.dropLast, l'.getLast hne, (List.dropLast_append_getLast hne).symm⟩
      rw [polyHash_concat, polyHash_concat] at h
      have hdigit : f a = f a' := by
        refine eq_of_dvd_sub (hl a (by simp)) (hl' a' (by simp)) ⟨polyHash b f acc' x' -
          polyHash b f acc x, ?_⟩
        rw [mul_sub]
        omega
      have hrest : polyHash b f acc x = polyHash b f acc' x' := by
        have hscaled : b * polyHash b f acc x = b * polyHash b f acc' x' := by omega
        exact mul_left_cancel₀ hb.ne' hscaled
      have hlen' : x.length = x'.length := by
        rw [List.length_append, List.length_append] at hlen
        exact Nat.add_right_cancel hlen
      obtain ⟨hacc, hx⟩ := ih hlen' (fun c hc => hl c (List.mem_append_left _ hc))
        (fun c hc => hl' c (List.mem_append_left _ hc)) hrest
      exact ⟨hacc, by rw [hx, hf hdigit]⟩

-- ── All lengths ──────────────────────────────────────────────────────────────

/-- With digits that are not negative the leading part bounds the value from below. -/
theorem le_polyHash {b : ℤ} (hb : 0 < b) {f : α → ℤ} (acc : ℤ) {l : List α}
    (hl : ∀ a ∈ l, 0 ≤ f a) : acc * b ^ l.length ≤ polyHash b f acc l := by
  induction l using List.reverseRecOn with
  | nil => simp
  | append_singleton x a ih =>
      have hx := ih (fun c hc => hl c (List.mem_append_left _ hc))
      have ha := hl a (by simp)
      rw [polyHash_concat, List.length_append, List.length_singleton]
      calc acc * b ^ (x.length + 1)
          = b * (acc * b ^ x.length) := by ring
        _ ≤ b * polyHash b f acc x := mul_le_mul_of_nonneg_left hx hb.le
        _ ≤ b * polyHash b f acc x + f a := by omega

/-- With digits of at most `k * (b - 1)` it stays below that of a leading part larger by
    `k`. -/
theorem polyHash_add_le {b k : ℤ} (hb : 0 < b) {f : α → ℤ} (acc : ℤ) {l : List α}
    (hl : ∀ a ∈ l, f a ≤ k * (b - 1)) :
    polyHash b f acc l + k ≤ (acc + k) * b ^ l.length := by
  induction l using List.reverseRecOn with
  | nil => simp
  | append_singleton x a ih =>
      have hx := ih (fun c hc => hl c (List.mem_append_left _ hc))
      have ha := hl a (by simp)
      rw [polyHash_concat, List.length_append, List.length_singleton]
      calc b * polyHash b f acc x + f a + k
          ≤ b * polyHash b f acc x + k * (b - 1) + k := by omega
        _ = b * (polyHash b f acc x + k) := by ring
        _ ≤ b * ((acc + k) * b ^ x.length) := mul_le_mul_of_nonneg_left hx hb.le
        _ = (acc + k) * b ^ (x.length + 1) := by ring

/-- A shorter numeral has a smaller value, when the leading part outweighs the digits. -/
theorem lt_of_shorter {b k : ℤ} (hb : 0 < b) (hk : 0 < k) {f : α → ℤ} {acc : ℤ}
    (hacc : acc + k ≤ acc * b) (hpos : 0 ≤ acc) {l l' : List α} (hlen : l.length < l'.length)
    (hl : ∀ a ∈ l, f a ≤ k * (b - 1)) (hl' : ∀ a ∈ l', 0 ≤ f a) :
    polyHash b f acc l < polyHash b f acc l' := by
  have hone : 1 ≤ b := hb
  calc polyHash b f acc l
      < polyHash b f acc l + k := by omega
    _ ≤ (acc + k) * b ^ l.length := polyHash_add_le hb acc hl
    _ ≤ acc * b * b ^ l.length := mul_le_mul_of_nonneg_right hacc (by positivity)
    _ = acc * b ^ (l.length + 1) := by ring
    _ ≤ acc * b ^ l'.length := mul_le_mul_of_nonneg_left (pow_le_pow_right₀ hone hlen) hpos
    _ ≤ polyHash b f acc l' := le_polyHash hb acc hl'

/-- Numerals of all lengths are told apart. -/
theorem injective_of_window {b k lo : ℤ} (hb : 0 < b) (hk : 0 < k) {f : α → ℤ}
    (hf : Function.Injective f) {acc : ℤ} (hacc : acc + k ≤ acc * b) (hpos : 0 ≤ acc)
    (hlo : 0 ≤ lo) (hhi : lo + b ≤ k * (b - 1) + 1) {l l' : List α}
    (hl : ∀ a ∈ l, lo ≤ f a ∧ f a < lo + b) (hl' : ∀ a ∈ l', lo ≤ f a ∧ f a < lo + b)
    (h : polyHash b f acc l = polyHash b f acc l') : l = l' := by
  have hlow : ∀ l : List α, (∀ a ∈ l, lo ≤ f a ∧ f a < lo + b) → ∀ a ∈ l, 0 ≤ f a :=
    fun _ hl a ha => hlo.trans (hl a ha).1
  have hhigh : ∀ l : List α, (∀ a ∈ l, lo ≤ f a ∧ f a < lo + b) →
      ∀ a ∈ l, f a ≤ k * (b - 1) := by
    intro l hl a ha
    have hlt := (hl a ha).2
    omega
  rcases lt_trichotomy l.length l'.length with hlt | heq | hgt
  · exact absurd h (lt_of_shorter hb hk hacc hpos hlt (hhigh l hl) (hlow l' hl')).ne
  · exact (eq_of_window hb hf heq hl hl' h).2
  · exact absurd h (lt_of_shorter hb hk hacc hpos hgt (hhigh l' hl') (hlow l hl)).ne'

end Positional
