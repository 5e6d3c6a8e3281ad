import TradeSynth.PositionalProofs
import TradeSynth.TradeHandlersProofs
import TradeSynth.TradeTrimProofs

/-!
# Hashing — strings, orders, and which of them collide

`hash_string` runs over a C string with multiplier 33, modulo `2 ^ 64`, from 5381;
`hash_order` goes on with four members of the order. The characters are signed.

* `hash_string_sensitive` — the loop stays inside memory that holds a terminator, and a
  byte that changes, or two that change places, always change the hash.
* `hash_string_injective` — symbols of up to ten characters from a window of 33, such as
  the capital letters, never collide.
* `hash_order_collides_iff` — orders for one symbol collide exactly when the other four
  members compensate, which side and quantity easily do.
-/

namespace TradeHash

open CheckedMemory FixedCodec TradeTypes TradeHandlers TradeStrings PolyHash Positional

variable {n : Nat}

-- ── The source functions ─────────────────────────────────────────────────────

/-- A `char` as it is added: signed, and extended to the width of the hash. -/
def signedChar (c : UInt8) : UInt64 := c.toInt8.toInt64.toUInt64

def hashStep (hash : UInt64) (c : UInt8) : UInt64 := ((hash <<< 5) + hash) + signedChar c

/-- The loop `while ((c = *str++))`; the length of the walk is one more than the memory has
    cells behind the pointer. -/
def hashLoop (memory : Block UInt8 n) (hash : UInt64) (str : Nat) : Nat → Checked UInt64
  | 0 => .error ⟨str⟩
  | len + 1 => do
      let c ← memory.read str
      if c = 0 then pure hash else hashLoop memory (hashStep hash c) (str + 1) len

def hashString (memory : Block UInt8 n) (str : Nat) : Checked UInt64 :=
  hashLoop memory 5381 str (n + 1 - str)

/-- The string is the memory that `order->symbol` points to. -/
def hashOrder (order : Order) : Checked UInt64 := do
  let hash ← hashString (Block.ofList (symbolOf order)) 0
  let hash := (hash <<< 5) + hash + order.orderId
  let hash := (hash <<< 5) + hash + order.type.toCode.toUInt64
  let hash := (hash <<< 5) + hash + order.side.toCode.toUInt64
  let hash := (hash <<< 5) + hash + order.quantity.toUInt64
  pure hash

-- ── The loop ─────────────────────────────────────────────────────────────────

/-- The hash of the characters of a string. -/
def hashOf (s : List UInt8) : UInt64 := s.foldl hashStep 5381

theorem hashLoop_eq {memory : Block UInt8 n} {back : List UInt8} (s : List UInt8) :
    ∀ (front : List UInt8) (hash : UInt64) (len : Nat),
      memory.cells = front ++ (s ++ 0 :: back) → 0 ∉ s → s.length < len →
      hashLoop memory hash front.length len = .ok (s.foldl hashStep hash) := by
  induction s with
  | nil =>
      intro front hash len hcells _ hlen
      obtain ⟨len, rfl⟩ : ∃ k, len = k + 1 := ⟨len - 1, by simp at hlen; omega⟩
      have hread : memory.read front.length = .ok 0 := Block.read_cons hcells
      rw [hashLoop, hread, ok_bind, if_pos rfl]
      rfl
  | cons c s ih =>
      intro front hash len hcells hzero hlen
      obtain ⟨len, rfl⟩ : ∃ k, len = k + 1 := ⟨len - 1, by simp at hlen; omega⟩
      have hread : memory.read front.length = .ok c := Block.read_cons hcells
      have hc : c ≠ 0 := fun h => hzero (h ▸ List.mem_cons_self)
      rw [List.length_cons] at hlen
      have hrest := ih (front ++ [c]) (hashStep hash c) len (by rw [hcells]; simp)
        (fun h => hzero (List.mem_cons_of_mem c h)) (by omega)
      rw [List.length_append, List.length_singleton] at hrest
      rw [hashLoop, hread, ok_bind, if_neg hc, hrest, List.foldl_cons]

/-- The hash of a string depends on its characters, and not on what surrounds it. -/
theorem hashString_eq {memory : Block UInt8 n} {front s back : List UInt8}
    (hcells : memory.cells = front ++ (s ++ 0 :: back)) (hzero : 0 ∉ s) :
    hashString memory front.length = .ok (hashOf s) := by
  have hlen := congrArg List.length hcells
  rw [memory.size, List.length_append, List.length_append, List.length_cons] at hlen
  exact hashLoop_eq s front 5381 _ hcells hzero (by omega)

/-- Without a terminator the walk leaves the memory. -/
theorem hashLoop_fault {memory : Block UInt8 n} (len : Nat) :
    ∀ (str : Nat) (hash : UInt64), str ≤ n → n < str + len →
      (∀ c ∈ memory.cells.drop str, c ≠ 0) → hashLoop memory hash str len = .error ⟨n⟩ := by
  induction len with
  | zero =>
      intro str hash hle hlt
      omega
  | succ len ih =>
      intro str hash hle hlt hnonzero
      by_cases hend : str = n
      · rw [hashLoop, hend, memory.read_of_le (Nat.le_refl n)]
        rfl
      · obtain ⟨c, hread, -, hdrop⟩ := memory.read_of_lt (i := str) (by omega)
        have hc : c ≠ 0 := hnonzero c (by rw [hdrop]; exact List.mem_cons_self)
        rw [hashLoop, hread, ok_bind, if_neg hc]
        refine ih (str + 1) _ (by omega) (by omega) (fun d hd => hnonzero d ?_)
        rw [hdrop]
        exact List.mem_cons_of_mem c hd

/-- What stands at a pointer is a string, or has no terminator. -/
theorem split_at_terminator (l : List UInt8) (h : 0 ∈ l) :
    ∃ back, l = cString l ++ 0 :: back ∧ 0 ∉ cString l := by
  have hno : 0 ∉ cString l := by
    intro hmem
    have hne := List.mem_takeWhile_imp hmem
    simp at hne
  refine ⟨(l.dropWhile (· ≠ 0)).tail, ?_, hno⟩
  have hne : l.dropWhile (· ≠ 0) ≠ [] := by
    intro hnil
    rw [List.dropWhile_eq_nil_iff] at hnil
    have := hnil 0 h
    simp at this
  obtain ⟨d, rest, hd⟩ := List.exists_cons_of_ne_nil hne
  have hhead := List.head?_dropWhile_not (fun c : UInt8 => decide (c ≠ 0)) l
  rw [hd] at hhead
  have hzero : d = 0 := by simpa using hhead
  calc l = cString l ++ l.dropWhile (· ≠ 0) := (List.takeWhile_append_dropWhile ..).symm
    _ = cString l ++ 0 :: (l.dropWhile (· ≠ 0)).tail := by rw [hd, hzero]; rfl

/-- The loop stays inside the memory exactly when there is a terminator. -/
theorem hashString_inside_iff (memory : Block UInt8 n) {str : Nat} (h : str ≤ n) :
    (∃ hash, hashString memory str = .ok hash) ↔ 0 ∈ memory.cells.drop str := by
  constructor
  · rintro ⟨hash, hhash⟩
    by_contra hno
    have hfault : hashString memory str = .error ⟨n⟩ :=
      hashLoop_fault _ str 5381 h (by omega) (fun c hc hzero => hno (hzero ▸ hc))
    rw [hfault] at hhash
    cases hhash
  · intro hzero
    obtain ⟨back, hsplit, hno⟩ := split_at_terminator _ hzero
    have hcells : memory.cells = memory.cells.take str ++
        (cString (memory.cells.drop str) ++ 0 :: back) := by
      rw [← hsplit, List.take_append_drop]
    have hlen : (memory.cells.take str).length = str := by
      rw [List.length_take, memory.size, Nat.min_eq_left h]
    have heq := hashString_eq hcells hno
    rw [hlen] at heq
    exact ⟨_, heq⟩

-- ── Hashes as integers modulo 2 ^ 64 ─────────────────────────────────────────

/-- The value of a string as a numeral in base 33 behind 5381. -/
def value (s : List UInt8) : ℤ := polyHash 33 (fun c => c.toInt8.toInt) 5381 s

section
open scoped UInt64.CommRing

/-- A round of the hash multiplies by 33. -/
theorem round_eq (hash x : UInt64) : (hash <<< 5) + hash + x = 33 * hash + x := by
  have hshift : hash <<< 5 = 32 * hash := by
    apply UInt64.toBitVec_inj.mp
    rw [UInt64.toBitVec_shiftLeft, UInt64.toBitVec_mul]
    show hash.toBitVec <<< 5 = 32#64 * hash.toBitVec
    rw [BitVec.shiftLeft_eq_mul_twoPow, BitVec.mul_comm]
    rfl
  rw [hshift]
  ring

theorem intCast_eq_zero_iff {z : ℤ} : (z : UInt64) = 0 ↔ (2 : ℤ) ^ 64 ∣ z := by
  rw [← UInt64.toBitVec_inj, UInt64.toBitVec_intCast, ← BitVec.toNat_inj]
  show (BitVec.ofInt 64 z).toNat = 0 ↔ _
  rw [BitVec.toNat_ofInt]
  omega

theorem intCast_eq_iff {x y : ℤ} : (x : UInt64) = (y : UInt64) ↔ (2 : ℤ) ^ 64 ∣ x - y := by
  rw [← intCast_eq_zero_iff, Int.cast_sub, sub_eq_zero]

theorem natCast_toNat (x : UInt64) : (((x.toNat : ℕ) : ℤ) : UInt64) = x := by
  rw [← UInt64.toBitVec_inj, UInt64.toBitVec_intCast, ← BitVec.toNat_inj]
  show (BitVec.ofInt 64 x.toNat).toNat = x.toNat
  have hlt := x.toNat_lt
  rw [BitVec.toNat_ofInt]
  omega

theorem signedChar_eq_intCast (c : UInt8) : signedChar c = ((c.toInt8.toInt : ℤ) : UInt64) := by
  rw [← UInt64.toBitVec_inj, UInt64.toBitVec_intCast]
  show c.toInt8.toInt64.toBitVec = _
  rw [Int8.toBitVec_toInt64]
  rfl

/-- The hash of a string is its value, taken modulo `2 ^ 64`. -/
theorem hashOf_eq (s : List UInt8) : hashOf s = ((value s : ℤ) : UInt64) := by
  have hmap := map_polyHash (Int.castRingHom UInt64) 33 (fun c : UInt8 => c.toInt8.toInt) 5381 s
  refine Eq.trans ?_ hmap.symm
  rw [hashOf, polyHash]
  congr 1
  funext hash c
  rw [hashStep, round_eq, signedChar_eq_intCast]
  rfl

theorem hashOf_eq_iff (s t : List UInt8) : hashOf s = hashOf t ↔ (2 : ℤ) ^ 64 ∣ value s - value t
    := by
  rw [hashOf_eq, hashOf_eq, intCast_eq_iff]

end

-- ── Changes that are always noticed ──────────────────────────────────────────

/-- One byte has been replaced by a different one, or two different bytes at a distance
    below `2 ^ 52` have changed places. -/
inductive Edited (s : List UInt8) : List UInt8 → Prop where
  | replaced {i : Nat} {old v : UInt8} (hold : s[i]? = some old) (hne : v ≠ old) :
      Edited s (s.set i v)
  | swapped {i j : Nat} {a b : UInt8} (hij : i < j) (hdist : j - i < 2 ^ 52)
      (ha : s[i]? = some a) (hb : s[j]? = some b) (hne : a ≠ b) :
      Edited s ((s.set i b).set j a)

theorem toInt8_inj {a b : UInt8} (h : a.toInt8.toInt = b.toInt8.toInt) : a = b := by
  have hbits := congrArg Int8.toBitVec (Int8.toInt_inj.mp h)
  exact UInt8.toBitVec_inj.mp hbits

/-- Two characters differ by less than `2 ^ 8`. -/
theorem natAbs_char_sub_lt (a b : UInt8) : (b.toInt8.toInt - a.toInt8.toInt).natAbs < 2 ^ 8 := by
  have ha := a.toInt8.toInt_lt
  have ha' := a.toInt8.le_toInt
  have hb := b.toInt8.toInt_lt
  have hb' := b.toInt8.le_toInt
  omega

section
open scoped UInt64.CommRing

theorem hashOf_eq_polyHash (s : List UInt8) : hashOf s = polyHash 33 signedChar 5381 s := by
  rw [hashOf, polyHash]
  congr 1
  funext hash c
  exact round_eq hash (signedChar c)

/-- The multiplier is odd, hence a unit modulo `2 ^ 64`. -/
theorem isUnit_multiplier : IsUnit (33 : UInt64) :=
  ⟨⟨33, 1117984489315730401, by decide, by decide⟩, rfl⟩

theorem signedChar_injective : Function.Injective signedChar := by
  intro a b h
  rw [signedChar_eq_intCast, signedChar_eq_intCast, intCast_eq_iff] at h
  have hlt := natAbs_char_sub_lt b a
  have hzero := Int.eq_zero_of_dvd_of_natAbs_lt_natAbs h (by omega)
  exact toInt8_inj (by omega)

theorem hashOf_ne_of_edited {s t : List UInt8} (h : Edited s t) : hashOf t ≠ hashOf s := by
  rw [hashOf_eq_polyHash, hashOf_eq_polyHash]
  cases h with
  | replaced hold hne => exact polyHash_set_ne isUnit_multiplier signedChar_injective 5381 hold hne
  | @swapped i j a b hij hdist ha hb hne =>
      refine polyHash_swap_ne isUnit_multiplier 5381 hij ha hb ?_
      have hcast : ((33 : UInt64) ^ (j - i) - 1) * (signedChar b - signedChar a) =
          (((33 ^ (j - i) - 1) * (b.toInt8.toInt - a.toInt8.toInt) : ℤ) : UInt64) := by
        rw [signedChar_eq_intCast, signedChar_eq_intCast]
        push_cast
        rfl
      have hdiff : b.toInt8.toInt - a.toInt8.toInt ≠ 0 := by
        intro hzero
        exact hne (toInt8_inj (by omega))
      rw [hcast, ne_eq, intCast_eq_zero_iff]
      exact two_pow_not_dvd (k := 5) (m := 52) (c := 8) (by decide) (by decide) (by omega) hdist
        hdiff (natAbs_char_sub_lt a b) (by decide)

end

/-- **Sensitivity.** Two strings of which one is an edit of the other have different
    hashes, wherever they stand and whatever stands around them. -/
theorem hash_string_sensitive {n n' : Nat} {memory : Block UInt8 n} {memory' : Block UInt8 n'}
    {front s back front' t back' : List UInt8} (hs : memory.cells = front ++ (s ++ 0 :: back))
    (ht : memory'.cells = front' ++ (t ++ 0 :: back')) (hzero : 0 ∉ s) (hzero' : 0 ∉ t)
    (h : Edited s t) :
    ∃ hash hash', hashString memory front.length = .ok hash ∧
      hashString memory' front'.length = .ok hash' ∧ hash' ≠ hash :=
  ⟨_, _, hashString_eq hs hzero, hashString_eq ht hzero', hashOf_ne_of_edited h⟩

/-- `AB` and `BA`, the second one behind another byte. -/
theorem hash_string_sensitive_swap :
    ∃ hash hash', hashString (Block.ofList [65, 66, 0]) 0 = .ok hash ∧
      hashString (Block.ofList [7, 66, 65, 0]) 1 = .ok hash' ∧ hash' ≠ hash :=
  @hash_string_sensitive _ _ _ _ [] [65, 66] [] [7] [66, 65] [] rfl rfl (by decide) (by decide)
    (.swapped (i := 0) (j := 1) (a := 65) (b := 66) (by decide) (by decide) rfl rfl (by decide))

-- ── Strings that never collide ───────────────────────────────────────────────

/-- All characters are among the 33 from `lo` on. -/
def Within (lo : Nat) (s : List UInt8) : Prop := ∀ c ∈ s, lo ≤ c.toNat ∧ c.toNat < lo + 33

/-- A character below 128 is not negative. -/
theorem toInt_char {c : UInt8} (h : c.toNat < 128) : c.toInt8.toInt = c.toNat := by
  have hbits : c.toInt8.toBitVec.toNat = c.toNat := rfl
  rw [Int8.toInt, BitVec.toInt_eq_toNat_of_lt (by omega), hbits]

/-- The characters of a window as digits. -/
theorem digits_within {lo : Nat} (hlo : lo + 33 ≤ 128) {s : List UInt8} (h : Within lo s) :
    ∀ c ∈ s, (lo : ℤ) ≤ c.toInt8.toInt ∧ c.toInt8.toInt < lo + 33 := by
  intro c hc
  obtain ⟨hge, hlt⟩ := h c hc
  rw [toInt_char (by omega)]
  omega

/-- Up to ten such characters stay below `2 ^ 64`. -/
theorem value_lt {lo : Nat} (hlo : lo + 33 ≤ 128) {s : List UInt8} (h : Within lo s)
    (hlen : s.length ≤ 10) : 0 ≤ value s ∧ value s < 2 ^ 64 := by
  have hdigits := digits_within hlo h
  have hlow := le_polyHash (b := 33) (by decide) 5381 (fun c hc => by
    have hge := (hdigits c hc).1
    omega : ∀ c ∈ s, 0 ≤ c.toInt8.toInt)
  have hhigh := polyHash_add_le (b := 33) (k := 4) (by decide) 5381 (fun c hc => by
    have hlt := (hdigits c hc).2
    omega : ∀ c ∈ s, c.toInt8.toInt ≤ 4 * (33 - 1))
  have hpow : (33 : ℤ) ^ s.length ≤ 33 ^ 10 := pow_le_pow_right₀ (by decide) hlen
  constructor
  · calc (0 : ℤ) ≤ 5381 * 33 ^ s.length := by positivity
      _ ≤ value s := hlow
  · calc value s < value s + 4 := by omega
      _ ≤ (5381 + 4) * 33 ^ s.length := hhigh
      _ ≤ (5381 + 4) * 33 ^ 10 := by omega
      _ < 2 ^ 64 := by decide

/-- **No collisions among short symbols.** Two strings of at most ten characters each, all
    of one window of 33 characters below 128, have the same hash only if they are equal. -/
theorem hash_string_injective {n n' lo : Nat} (hlo : lo + 33 ≤ 128) {memory : Block UInt8 n}
    {memory' : Block UInt8 n'} {front s back front' t back' : List UInt8}
    (hs : memory.cells = front ++ (s ++ 0 :: back))
    (ht : memory'.cells = front' ++ (t ++ 0 :: back')) (hzero : 0 ∉ s) (hzero' : 0 ∉ t)
    (hwithin : Within lo s) (hwithin' : Within lo t) (hlen : s.length ≤ 10)
    (hlen' : t.length ≤ 10) :
    hashString memory front.length = hashString memory' front'.length ↔ s = t := by
  rw [hashString_eq hs hzero, hashString_eq ht hzero', Except.ok.injEq, hashOf_eq_iff]
  constructor
  · intro hdvd
    obtain ⟨hlow, hhigh⟩ := value_lt hlo hwithin hlen
    obtain ⟨hlow', hhigh'⟩ := value_lt hlo hwithin' hlen'
    have hvalue : value s = value t :=
      eq_of_dvd_sub ⟨hlow, by omega⟩ ⟨hlow', by omega⟩ hdvd
    have hhigh : (lo : ℤ) + 33 ≤ 4 * (33 - 1) + 1 := by omega
    exact injective_of_window (by decide) (by decide)
      (fun _ _ => toInt8_inj) (by decide) (by decide) (by omega) hhigh
      (digits_within hlo hwithin) (digits_within hlo hwithin') hvalue
  · rintro rfl
    rw [sub_self]
    exact dvd_zero _

/-- `AAPL` and `MSFT`, over the capital letters. -/
theorem hash_string_injective_tickers :
    hashString (Block.ofList [65, 65, 80, 76, 0]) 0 =
      hashString (Block.ofList [77, 83, 70, 84, 0]) 0 ↔
      ([65, 65, 80, 76] : List UInt8) = [77, 83, 70, 84] :=
  @hash_string_injective _ _ 65 (by decide) _ _ [] [65, 65, 80, 76] [] [] [77, 83, 70, 84] []
    rfl rfl (by decide) (by decide) (by simp [Within]) (by simp [Within]) (by decide) (by decide)

-- ── Orders ───────────────────────────────────────────────────────────────────

/-- What the members behind the symbol add, at their places. -/
def membersValue (o : Order) : ℤ :=
  33 ^ 3 * o.orderId.toNat + 33 ^ 2 * o.type.toCode.toNat + 33 * o.side.toCode.toNat +
    o.quantity.toNat

section
open scoped UInt64.CommRing

theorem toUInt64_eq_intCast (x : UInt32) : x.toUInt64 = (((x.toNat : ℕ) : ℤ) : UInt64) := by
  rw [← UInt32.toNat_toUInt64 x, natCast_toNat]

/-- The hash of an order whose symbol is a string. -/
theorem hashOrder_eq {o : Order} (h : 0 ∈ symbolOf o) :
    hashOrder o =
      .ok ((33 ^ 4 * value (cString (symbolOf o)) + membersValue o : ℤ) : UInt64) := by
  obtain ⟨back, hsplit, hno⟩ := split_at_terminator _ h
  have hstring : hashString (Block.ofList (symbolOf o)) 0 = .ok (hashOf (cString (symbolOf o))) :=
    @hashString_eq _ _ [] _ _ hsplit hno
  rw [hashOrder, hstring, ok_bind, pure_eq_ok]
  simp only [round_eq, hashOf_eq, toUInt64_eq_intCast]
  rw [← natCast_toNat o.orderId, membersValue]
  congr 1
  push_cast
  ring

end

theorem hashOrder_eq_iff {o o' : Order} (h : 0 ∈ symbolOf o) (h' : 0 ∈ symbolOf o') :
    hashOrder o = hashOrder o' ↔
      (2 : ℤ) ^ 64 ∣ 33 ^ 4 * value (cString (symbolOf o)) + membersValue o -
        (33 ^ 4 * value (cString (symbolOf o')) + membersValue o') := by
  rw [hashOrder_eq h, hashOrder_eq h', Except.ok.injEq, intCast_eq_iff]

/-- What orders with one id differ by. -/
def gap (o o' : Order) : ℤ :=
  33 ^ 2 * ((o.type.toCode.toNat : ℤ) - o'.type.toCode.toNat) +
    33 * ((o.side.toCode.toNat : ℤ) - o'.side.toCode.toNat) +
    ((o.quantity.toNat : ℤ) - o'.quantity.toNat)

theorem membersValue_sub {o o' : Order} (hid : o.orderId = o'.orderId) :
    membersValue o - membersValue o' = gap o o' := by
  rw [membersValue, membersValue, gap, hid]
  ring

/-- Three codes of 32 bits do not wrap around. -/
theorem gap_lt (o o' : Order) : (gap o o').natAbs < ((2 : ℤ) ^ 64).natAbs := by
  have ht := o.type.toCode.toNat_lt
  have ht' := o'.type.toCode.toNat_lt
  have hs := o.side.toCode.toNat_lt
  have hs' := o'.side.toCode.toNat_lt
  have hq := o.quantity.toNat_lt
  have hq' := o'.quantity.toNat_lt
  have hpow : ((2 : ℤ) ^ 64).natAbs = 18446744073709551616 := rfl
  rw [gap, hpow]
  omega

section
open scoped UInt64.CommRing

/-- With the other members equal, the id decides. -/
theorem membersValue_cast_eq_iff {o o' : Order} (htype : o.type = o'.type)
    (hside : o.side = o'.side) (hquantity : o.quantity = o'.quantity) :
    ((membersValue o : ℤ) : UInt64) = ((membersValue o' : ℤ) : UInt64) ↔
      o.orderId = o'.orderId := by
  rw [membersValue, membersValue, htype, hside, hquantity]
  simp only [Int.cast_add, Int.cast_mul, Int.cast_pow, Int.cast_ofNat, Int.cast_natCast]
  rw [add_left_inj, add_left_inj, add_left_inj, (isUnit_multiplier.pow 3).mul_right_inj]
  have hcast := natCast_toNat o.orderId
  have hcast' := natCast_toNat o'.orderId
  rw [Int.cast_natCast] at hcast hcast'
  rw [hcast, hcast']

end

/-- **Collisions of orders.** Orders with one symbol have the same hash exactly when their
    other members outweigh each other modulo `2 ^ 64`; with the same id as well, exactly
    when type, side and quantity do as integers; and a change of the id alone is always
    noticed. -/
theorem hash_order_collides_iff {o o' : Order} (h : 0 ∈ symbolOf o) (h' : 0 ∈ symbolOf o')
    (hsymbol : cString (symbolOf o) = cString (symbolOf o')) :
    (hashOrder o = hashOrder o' ↔ (2 : ℤ) ^ 64 ∣ membersValue o - membersValue o') ∧
    (o.orderId = o'.orderId → (hashOrder o = hashOrder o' ↔ gap o o' = 0)) ∧
    (o.type = o'.type → o.side = o'.side → o.quantity = o'.quantity →
      (hashOrder o = hashOrder o' ↔ o.orderId = o'.orderId)) := by
  have hall : hashOrder o = hashOrder o' ↔ (2 : ℤ) ^ 64 ∣ membersValue o - membersValue o' := by
    rw [hashOrder_eq_iff h h', hsymbol, add_sub_add_left_eq_sub]
  refine ⟨hall, ?_, ?_⟩
  · intro hid
    rw [hall, membersValue_sub hid]
    constructor
    · intro hdvd
      exact Int.eq_zero_of_dvd_of_natAbs_lt_natAbs hdvd (gap_lt o o')
    · intro hzero
      rw [hzero]
      exact dvd_zero _
  · intro htype hside hquantity
    rw [hall, ← intCast_eq_iff, membersValue_cast_eq_iff htype hside hquantity]

/-- To buy 100 and to sell 67 is the same to the hash. -/
theorem hash_order_collides_iff_sample :
    let o := sampleOrder
    let o' := { sampleOrder with side := .known .sell, quantity := 67 }
    (hashOrder o = hashOrder o' ↔ (2 : ℤ) ^ 64 ∣ membersValue o - membersValue o') ∧
    (o.orderId = o'.orderId → (hashOrder o = hashOrder o' ↔ gap o o' = 0)) ∧
    (o.type = o'.type → o.side = o'.side → o.quantity = o'.quantity →
      (hashOrder o = hashOrder o' ↔ o.orderId = o'.orderId)) :=
  hash_order_collides_iff (by decide +kernel) (by decide +kernel) (by decide +kernel)

end TradeHash
