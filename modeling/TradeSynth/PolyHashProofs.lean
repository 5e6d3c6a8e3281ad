import Mathlib.Algebra.Ring.Regular
import Mathlib.NumberTheory.Multiplicity
import Mathlib.Tactic.Ring

/-!
# Polynomial hashes — one changed element always changes the hash

The hash of a list is Horner's rule `h ↦ u·h + f a` over a commutative ring. Running
it from two accumulators on the same list keeps their difference, scaled by a power
of the multiplier (`polyHash_sub`). When the multiplier is a unit no power of it can
erase a difference, so replacing one element by another changes the hash
(`polyHash_set_ne`), at every position of every list.

Exchanging two elements at distance `d` moves the hash by their difference, scaled by
`u ^ d - 1` and by a power of the multiplier (`polyHash_swap_sub`). The factor
`u ^ d - 1` is no unit; how many powers of two it takes up is the subject of
`two_pow_not_dvd`.
-/

namespace PolyHash

variable {R α : Type} [CommRing R]

/-- Horner's rule with multiplier `u` over the elements of a list. -/
def polyHash (u : R) (f : α → R) (acc : R) (l : List α) : R :=
  l.foldl (fun h a => u * h + f a) acc

@[simp] theorem polyHash_nil (u : R) (f : α → R) (acc : R) : polyHash u f acc [] = acc := rfl

@[simp] theorem polyHash_cons (u : R) (f : α → R) (acc : R) (a : α) (l : List α) :
    polyHash u f acc (a :: l) = polyHash u f (u * acc + f a) l := rfl

theorem polyHash_append (u : R) (f : α → R) (acc : R) (l₁ l₂ : List α) :
    polyHash u f acc (l₁ ++ l₂) = polyHash u f (polyHash u f acc l₁) l₂ :=
  List.foldl_append

/-- Two runs over one list differ by their initial difference times `u ^ length`. -/
theorem polyHash_sub (u : R) (f : α → R) (acc acc' : R) (l : List α) :
    polyHash u f acc l - polyHash u f acc' l = u ^ l.length * (acc - acc') := by
  induction l generalizing acc acc' with
  | nil => simp
  | cons a rest ih =>
      rw [polyHash_cons, polyHash_cons, ih, List.length_cons, pow_succ]
      ring

/-- Two lists that differ in one element have hashes that differ by that element's
    difference times a power of the multiplier. -/
theorem polyHash_middle_sub (u : R) (f : α → R) (acc : R) (l₁ l₂ : List α) (a v : α) :
    polyHash u f acc (l₁ ++ v :: l₂) - polyHash u f acc (l₁ ++ a :: l₂) =
      u ^ l₂.length * (f v - f a) := by
  rw [polyHash_append, polyHash_append, polyHash_cons, polyHash_cons, polyHash_sub]
  ring

/-- With a unit multiplier and an injective reading of the elements, replacing one
    element by another changes the hash. -/
theorem polyHash_set_ne {u : R} (hu : IsUnit u) {f : α → R} (hf : Function.Injective f)
    (acc : R) {l : List α} {i : Nat} {a v : α} (h : l[i]? = some a) (hne : v ≠ a) :
    polyHash u f acc (l.set i v) ≠ polyHash u f acc l := by
  obtain ⟨hi, ha⟩ := List.getElem?_eq_some_iff.mp h
  have hset : l.set i v = l.take i ++ v :: l.drop (i + 1) := by
    rw [List.set_eq_take_append_cons_drop, if_pos hi]
  have hold : l = l.take i ++ a :: l.drop (i + 1) := by
    rw [← ha, ← List.drop_eq_getElem_cons hi, List.take_append_drop]
  intro heq
  have hsub := polyHash_middle_sub u f acc (l.take i) (l.drop (i + 1)) a v
  rw [← hset, ← hold, heq, sub_self] at hsub
  have hzero : f v - f a = 0 := (hu.pow _).mul_right_eq_zero.mp hsub.symm
  exact hne (hf (sub_eq_zero.mp hzero))

-- ── Exchanging two elements ──────────────────────────────────────────────────

/-- Two elements that have changed places move the hash by their difference, scaled by
    `u ^ d - 1` for the distance `d` and by a power of the multiplier. -/
theorem polyHash_swap_sub (u : R) (f : α → R) (acc : R) (l₁ l₂ l₃ : List α) (a b : α) :
    polyHash u f acc (l₁ ++ b :: (l₂ ++ a :: l₃)) - polyHash u f acc (l₁ ++ a :: (l₂ ++ b :: l₃)) =
      u ^ l₃.length * ((u ^ (l₂.length + 1) - 1) * (f b - f a)) := by
  have hinner := polyHash_sub u f (u * polyHash u f acc l₁ + f b)
    (u * polyHash u f acc l₁ + f a) l₂
  rw [add_sub_add_left_eq_sub] at hinner
  rw [polyHash_append, polyHash_append, polyHash_cons, polyHash_cons, polyHash_append,
    polyHash_append, polyHash_cons, polyHash_cons, polyHash_sub, add_sub_add_comm, ← mul_sub,
    hinner, pow_succ]
  ring

/-- A list around two of its positions. -/
theorem split_at_two {l : List α} {i j : Nat} {a b : α} (hij : i < j) (ha : l[i]? = some a)
    (hb : l[j]? = some b) :
    ∃ l₁ l₂ l₃, l = l₁ ++ a :: (l₂ ++ b :: l₃) ∧ l₁.length = i ∧ l₂.length + 1 = j - i := by
  obtain ⟨hi, rfl⟩ := List.getElem?_eq_some_iff.mp ha
  obtain ⟨hj, rfl⟩ := List.getElem?_eq_some_iff.mp hb
  refine ⟨l.take i, (l.drop (i + 1)).take (j - (i + 1)), l.drop (j + 1), ?_, ?_, ?_⟩
  · have hrest : l.drop (i + 1) = (l.drop (i + 1)).take (j - (i + 1)) ++ l.drop j := by
      have hsplit := List.take_append_drop (j - (i + 1)) (l.drop (i + 1))
      rw [List.drop_drop, show i + 1 + (j - (i + 1)) = j by omega] at hsplit
      exact hsplit.symm
    rw [← List.drop_eq_getElem_cons hj, ← hrest, ← List.drop_eq_getElem_cons hi,
      List.take_append_drop]
  · rw [List.length_take]
    omega
  · rw [List.length_take, List.length_drop]
    omega

/-- With a unit multiplier, exchanging two elements changes the hash unless `u ^ d - 1`
    takes their difference to zero. -/
theorem polyHash_swap_ne {u : R} (hu : IsUnit u) {f : α → R} (acc : R) {l : List α} {i j : Nat}
    {a b : α} (hij : i < j) (ha : l[i]? = some a) (hb : l[j]? = some b)
    (hne : (u ^ (j - i) - 1) * (f b - f a) ≠ 0) :
    polyHash u f acc ((l.set i b).set j a) ≠ polyHash u f acc l := by
  obtain ⟨l₁, l₂, l₃, rfl, rfl, hdist⟩ := split_at_two hij ha hb
  have hswap : ((l₁ ++ a :: (l₂ ++ b :: l₃)).set l₁.length b).set j a =
      l₁ ++ b :: (l₂ ++ a :: l₃) := by
    have hback : j - l₁.length = l₂.length + 1 := hdist.symm
    rw [List.set_append_right _ _ (Nat.le_refl _), Nat.sub_self, List.set_cons_zero,
      List.set_append_right _ _ hij.le, hback, List.set_cons_succ,
      List.set_append_right _ _ (Nat.le_refl _), Nat.sub_self, List.set_cons_zero]
  intro heq
  have hsub := polyHash_swap_sub u f acc l₁ l₂ l₃ a b
  rw [← hswap, heq, sub_self, hdist] at hsub
  exact hne ((hu.pow _).mul_right_eq_zero.mp hsub.symm)

-- ── Powers of two ────────────────────────────────────────────────────────────

/-- A number of fewer than `k` binary digits has fewer than `k` factors two. -/
theorem emultiplicity_two_lt {z : ℤ} {k : Nat} (hz : z ≠ 0) (h : z.natAbs < 2 ^ k) :
    emultiplicity 2 z < k := by
  rw [emultiplicity_lt_iff_not_dvd]
  intro hdvd
  have hle : 2 ^ k ≤ z.natAbs :=
    Nat.le_of_dvd (Int.natAbs_pos.mpr hz) (Int.natCast_dvd.mp (by exact_mod_cast hdvd))
  omega

/-- The factors two of `u ^ d - 1` are those of `u - 1` and those of `d`; together with
    those of a small `z` they are too few to make `2 ^ w`. -/
theorem two_pow_not_dvd {u z : ℤ} {d k m c w : Nat} (hu : 4 ∣ u - 1)
    (hk : ¬ (2 : ℤ) ^ (k + 1) ∣ u - 1) (hd : d ≠ 0) (hm : d < 2 ^ m) (hz : z ≠ 0)
    (hc : z.natAbs < 2 ^ c) (hw : k + m + c < w + 2) : ¬ (2 : ℤ) ^ w ∣ (u ^ d - 1) * z := by
  have hodd : ¬ 2 ∣ u := by omega
  have hbase : emultiplicity 2 (u - 1) < (k + 1 : Nat) := emultiplicity_lt_iff_not_dvd.mpr hk
  have hdist : emultiplicity 2 (d : ℤ) < m := emultiplicity_two_lt (by omega) hm
  have hdiff : emultiplicity 2 z < c := emultiplicity_two_lt hz hc
  have hlift := Int.two_pow_sub_pow' (x := u) (y := 1) d hu hodd
  rw [one_pow] at hlift
  rw [← emultiplicity_lt_iff_not_dvd, emultiplicity_mul Int.prime_two, hlift]
  obtain ⟨p, hp⟩ := ENat.ne_top_iff_exists.mp (ne_top_of_lt hbase)
  obtain ⟨q, hq⟩ := ENat.ne_top_iff_exists.mp (ne_top_of_lt hdist)
  obtain ⟨r, hr⟩ := ENat.ne_top_iff_exists.mp (ne_top_of_lt hdiff)
  rw [← hp] at hbase ⊢
  rw [← hq] at hdist ⊢
  rw [← hr] at hdiff ⊢
  norm_cast at *
  omega

end PolyHash
