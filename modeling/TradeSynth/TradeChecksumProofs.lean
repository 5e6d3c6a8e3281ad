import TradeSynth.TradeCodecProofs

/-!
# The checksum — which changes of the data it notices

`calculate_checksum` is a polynomial hash with multiplier 33, modulo `2 ^ 32`. The
multiplier is odd, so a single changed byte is always noticed. Two bytes that have
changed places at distance `d` move the checksum by a unit times `33 ^ d - 1` times
their difference. The factors two of `33 ^ d - 1 = (32 + 1) ^ d - 1` are the five of 32
and those of `d`, and the difference has at most seven: below a distance of `2 ^ 20`
they are too few for `2 ^ 32` (`checksum_sensitive`).
-/

namespace TradeChecksum

open CheckedMemory TradeCodec PolyHash

-- ── Integers modulo 2 ^ 32 ───────────────────────────────────────────────────

section
open scoped UInt32.CommRing

theorem intCast_eq_zero_iff {z : ℤ} : (z : UInt32) = 0 ↔ (2 : ℤ) ^ 32 ∣ z := by
  rw [← UInt32.toBitVec_inj, UInt32.toBitVec_intCast, ← BitVec.toNat_inj]
  show (BitVec.ofInt 32 z).toNat = 0 ↔ _
  rw [BitVec.toNat_ofInt]
  omega

theorem toUInt32_eq_intCast (b : UInt8) : b.toUInt32 = ((b.toNat : ℤ) : UInt32) := by
  have hlt := b.toNat_lt
  rw [← UInt32.toBitVec_inj, UInt32.toBitVec_intCast, ← BitVec.toNat_inj]
  show b.toUInt32.toNat = (BitVec.ofInt 32 b.toNat).toNat
  rw [BitVec.toNat_ofInt, UInt8.toNat_toUInt32]
  omega

/-- The bytes of a pair at a distance below `2 ^ 20` are told apart. -/
theorem distance_ne_zero {a b : UInt8} (hne : a ≠ b) {d : Nat} (hpos : d ≠ 0) (hd : d < 2 ^ 20) :
    ((33 : UInt32) ^ d - 1) * (b.toUInt32 - a.toUInt32) ≠ 0 := by
  have hcast : ((33 : UInt32) ^ d - 1) * (b.toUInt32 - a.toUInt32) =
      (((33 ^ d - 1) * ((b.toNat : ℤ) - a.toNat) : ℤ) : UInt32) := by
    rw [toUInt32_eq_intCast, toUInt32_eq_intCast]
    push_cast
    rfl
  have ha := a.toNat_lt
  have hb := b.toNat_lt
  have hdiff : (b.toNat : ℤ) - a.toNat ≠ 0 := by
    intro hzero
    exact hne (UInt8.toNat_inj.mp (by omega))
  rw [hcast, ne_eq, intCast_eq_zero_iff]
  exact two_pow_not_dvd (k := 5) (m := 20) (c := 8) (by decide) (by decide) hpos hd hdiff
    (by omega) (by decide)

/-- Two different bytes that change places within that distance change the checksum. -/
theorem checksum_swap_ne {l : List UInt8} {i j : Nat} {a b : UInt8} (hij : i < j)
    (hdist : j - i < 2 ^ 20) (ha : l[i]? = some a) (hb : l[j]? = some b) (hne : a ≠ b) :
    checksum ((l.set i b).set j a) ≠ checksum l := by
  rw [checksum_eq_polyHash, checksum_eq_polyHash]
  exact polyHash_swap_ne isUnit_multiplier 0 hij ha hb (distance_ne_zero hne (by omega) hdist)

end

-- ── The function ─────────────────────────────────────────────────────────────

/-- What `calculate_checksum` returns for a byte sequence. -/
theorem calculateChecksum_ofList (l : List UInt8) :
    calculateChecksum (Block.ofList l) 0 l.length = .ok (checksum l) := by
  rw [calculateChecksum_eq (Block.ofList l) (by omega), Block.cells_ofList, List.drop_zero,
    List.take_length]

/-- **Sensitivity.** Whatever the byte sequence: a byte that is replaced by a different
    one changes the checksum, and so do two different bytes that change places at a
    distance below `2 ^ 20`. -/
theorem checksum_sensitive (l : List UInt8) :
    (∀ i old v, l[i]? = some old → v ≠ old →
      calculateChecksum (Block.ofList (l.set i v)) 0 (l.set i v).length ≠
        calculateChecksum (Block.ofList l) 0 l.length) ∧
    ∀ i j a b, i < j → j - i < 2 ^ 20 → l[i]? = some a → l[j]? = some b → a ≠ b →
      calculateChecksum (Block.ofList ((l.set i b).set j a)) 0 ((l.set i b).set j a).length ≠
        calculateChecksum (Block.ofList l) 0 l.length := by
  simp only [calculateChecksum_ofList, ne_eq, Except.ok.injEq]
  constructor
  · intro i old v hold hne
    exact checksum_set_ne hold hne
  · intro i j a b hij hdist ha hb hne
    exact checksum_swap_ne hij hdist ha hb hne

theorem checksum_sensitive_pair :
    calculateChecksum (Block.ofList [2, 1]) 0 2 ≠ calculateChecksum (Block.ofList [1, 2]) 0 2 :=
  (checksum_sensitive [1, 2]).2 0 1 1 2 (by decide) (by decide) rfl rfl (by decide)

end TradeChecksum
