import TradeSynth.NumeralProofs
import TradeSynth.TradeTrimProofs

/-!
# Numbers in text — what `safe_atoi64` makes of a string

`safe_atoi64` hands the string to `strtoll` and takes the result if nothing overflowed
and `strtoll` came to the end of the string. Otherwise it returns 0.

It returns the number that a numeral denotes — blanks, one sign or none, and digits up to
the end — when that fits 64 bits, and 0 for everything else. Every 64-bit number has a
numeral that is read back as that number (`safe_atoi64_correct`).
-/

namespace TradeNumerals

open TradeTypes TradeTrim

-- ── The source function ──────────────────────────────────────────────────────

def isDigit (c : UInt8) : Bool := decide (48 ≤ c) && decide (c ≤ 57)

/-- The number that decimal digits stand for. -/
def magnitude (digits : List UInt8) : Nat :=
  Numeral.value 10 (digits.map (fun c => c.toNat - 48))

/-- A sign in front of a string, if there is one: whether it is a minus, and what
    follows. -/
def signOf : List UInt8 → Bool × List UInt8
  | [] => (false, [])
  | c :: rest =>
      if c = 43 then (false, rest)
      else if c = 45 then (true, rest)
      else (false, c :: rest)

def signed (negative : Bool) (digits : List UInt8) : Int :=
  if negative then -(magnitude digits : Int) else magnitude digits

/-- The numbers of 64 bits. -/
def Fits (z : Int) : Prop := -2 ^ 63 ≤ z ∧ z < 2 ^ 63

instance (z : Int) : Decidable (Fits z) := inferInstanceAs (Decidable (_ ∧ _))

/-- What `strtoll` leaves: the result, what `endptr` points to, and whether `errno` is
    `ERANGE`. -/
structure Parsed where
  value    : Int64
  rest     : List UInt8
  overflow : Bool

/-- `strtoll` with base 10, in the C locale: blanks, a sign, digits. A number that does
    not fit is replaced by the nearest one that does; without digits nothing is taken. -/
def strtoll (s : List UInt8) : Parsed :=
  let sign := signOf (s.dropWhile isSpace)
  let digits := sign.2.takeWhile isDigit
  if digits = [] then ⟨0, s, false⟩
  else
    ⟨Int64.ofIntClamp (signed sign.1 digits), sign.2.dropWhile isDigit,
      !decide (Fits (signed sign.1 digits))⟩

/-- The argument is the memory that `str` points to, if it is not `NULL`. -/
def safeAtoi64 : Option (List UInt8) → Int64
  | none => 0
  | some memory =>
      let parsed := strtoll (cString memory)
      if !parsed.overflow && parsed.rest.isEmpty then parsed.value else 0

-- ── Numerals ─────────────────────────────────────────────────────────────────

/-- A sign, or none, and whether it is a minus. -/
def Sign (sign : List UInt8) (negative : Bool) : Prop :=
  (sign = [] ∧ negative = false) ∨ (sign = [43] ∧ negative = false) ∨
    (sign = [45] ∧ negative = true)

/-- Blanks, one sign or none, and at least one digit, up to the end. -/
def Denotes (s : List UInt8) (z : Int) : Prop :=
  ∃ blanks sign digits negative, s = blanks ++ (sign ++ digits) ∧
    (∀ c ∈ blanks, isSpace c = true) ∧ Sign sign negative ∧ digits ≠ [] ∧
    (∀ c ∈ digits, isDigit c = true) ∧ z = signed negative digits

/-- A numeral has no NUL in it. -/
theorem Denotes.no_nul {s : List UInt8} {z : Int} (h : Denotes s z) : 0 ∉ s := by
  obtain ⟨blanks, sign, digits, negative, rfl, hblank, hsign, -, hdigit, -⟩ := h
  intro hmem
  rcases List.mem_append.mp hmem with hmem | hmem
  · exact absurd (hblank 0 hmem) (by decide)
  rcases List.mem_append.mp hmem with hmem | hmem
  · rcases hsign with ⟨rfl, -⟩ | ⟨rfl, -⟩ | ⟨rfl, -⟩
    · cases hmem
    · exact absurd hmem (by decide)
    · exact absurd hmem (by decide)
  · exact absurd (hdigit 0 hmem) (by decide)

theorem not_space_of_digit {c : UInt8} (h : isDigit c = true) : isSpace c = false := by
  simp only [isDigit, Bool.and_eq_true, decide_eq_true_eq, UInt8.le_iff_toNat_le] at h
  simp only [isSpace, Bool.or_eq_false_iff, Bool.and_eq_false_iff, decide_eq_false_iff_not,
    beq_eq_false_iff_ne, ne_eq, UInt8.le_iff_toNat_le, ← UInt8.toNat_inj]
  have h48 : (48 : UInt8).toNat = 48 := rfl
  have h32 : (32 : UInt8).toNat = 32 := rfl
  have h13 : (13 : UInt8).toNat = 13 := rfl
  omega

theorem signOf_digits {digits : List UInt8} (hdigit : ∀ c ∈ digits, isDigit c = true) :
    signOf digits = (false, digits) := by
  cases digits with
  | nil => rfl
  | cons c rest =>
      have hc := hdigit c List.mem_cons_self
      have hplus : c ≠ 43 := by
        rintro rfl
        exact absurd hc (by decide)
      have hminus : c ≠ 45 := by
        rintro rfl
        exact absurd hc (by decide)
      rw [signOf, if_neg hplus, if_neg hminus]

/-- A sign is taken off in front of digits. -/
theorem signOf_shape {sign digits : List UInt8} {negative : Bool} (hsign : Sign sign negative)
    (hdigit : ∀ c ∈ digits, isDigit c = true) :
    signOf (sign ++ digits) = (negative, digits) := by
  rcases hsign with ⟨rfl, rfl⟩ | ⟨rfl, rfl⟩ | ⟨rfl, rfl⟩
  · exact signOf_digits hdigit
  · rfl
  · rfl

/-- What stands in front of the digits is no blank. -/
theorem dropWhile_blanks {blanks sign digits : List UInt8} {negative : Bool}
    (hblank : ∀ c ∈ blanks, isSpace c = true) (hsign : Sign sign negative)
    (hsome : digits ≠ []) (hdigit : ∀ c ∈ digits, isDigit c = true) :
    (blanks ++ (sign ++ digits)).dropWhile isSpace = sign ++ digits := by
  rw [List.dropWhile_append_of_pos hblank]
  rcases hsign with ⟨rfl, -⟩ | ⟨rfl, -⟩ | ⟨rfl, -⟩
  · obtain ⟨c, rest, rfl⟩ := List.exists_cons_of_ne_nil hsome
    have hc := not_space_of_digit (hdigit c List.mem_cons_self)
    exact List.dropWhile_cons_of_neg (by rw [hc]; exact Bool.false_ne_true)
  · rfl
  · rfl

/-- `strtoll` takes the whole of a numeral. -/
theorem strtoll_denotes {s : List UInt8} {z : Int} (h : Denotes s z) :
    strtoll s = ⟨Int64.ofIntClamp z, [], !decide (Fits z)⟩ := by
  obtain ⟨blanks, sign, digits, negative, rfl, hblank, hsign, hsome, hdigit, rfl⟩ := h
  rw [strtoll, dropWhile_blanks hblank hsign hsome hdigit, signOf_shape hsign hdigit]
  dsimp only
  rw [List.takeWhile_eq_self_iff.mpr hdigit, if_neg hsome,
    List.dropWhile_eq_nil_iff.mpr hdigit]

theorem signOf_cases (s : List UInt8) :
    ∃ sign, s = sign ++ (signOf s).2 ∧ Sign sign (signOf s).1 := by
  cases s with
  | nil => exact ⟨[], rfl, Or.inl ⟨rfl, rfl⟩⟩
  | cons c rest =>
      rw [signOf]
      split
      · next hplus => exact ⟨[43], by rw [hplus]; rfl, Or.inr (Or.inl ⟨rfl, rfl⟩)⟩
      split
      · next hminus => exact ⟨[45], by rw [hminus]; rfl, Or.inr (Or.inr ⟨rfl, rfl⟩)⟩
      · exact ⟨[], rfl, Or.inl ⟨rfl, rfl⟩⟩

/-- A string that `strtoll` takes whole is empty or a numeral. -/
theorem denotes_of_whole {s : List UInt8} (h : (strtoll s).rest = []) :
    s = [] ∨ ∃ z, Denotes s z := by
  obtain ⟨sign, hsplit, hsign⟩ := signOf_cases (s.dropWhile isSpace)
  rw [strtoll] at h
  by_cases hnone : (signOf (s.dropWhile isSpace)).2.takeWhile isDigit = []
  · rw [if_pos hnone] at h
    exact Or.inl h
  · rw [if_neg hnone] at h
    have hdigit := List.dropWhile_eq_nil_iff.mp h
    rw [List.takeWhile_eq_self_iff.mpr hdigit] at hnone
    refine Or.inr ⟨_, s.takeWhile isSpace, sign, _, _, ?_, ?_, hsign, hnone, hdigit, rfl⟩
    · rw [← hsplit, List.takeWhile_append_dropWhile]
    · exact fun c hc => List.mem_takeWhile_imp hc

-- ── Spelling ─────────────────────────────────────────────────────────────────

/-- The decimal spelling of a 64-bit number. -/
def spelling (v : Int64) : List UInt8 :=
  (if v.toInt < 0 then [45] else []) ++
    (Numeral.spell 10 v.toInt.natAbs).map (fun d => UInt8.ofNat (48 + d))

theorem toNat_digit {d : Nat} (h : d < 10) : (UInt8.ofNat (48 + d)).toNat = 48 + d := by
  rw [UInt8.toNat_ofNat']
  omega

theorem isDigit_digit {d : Nat} (h : d < 10) : isDigit (UInt8.ofNat (48 + d)) = true := by
  have hd := toNat_digit h
  have h48 : (48 : UInt8).toNat = 48 := rfl
  have h57 : (57 : UInt8).toNat = 57 := rfl
  simp only [isDigit, Bool.and_eq_true, decide_eq_true_eq, UInt8.le_iff_toNat_le]
  omega

theorem magnitude_spell (n : Nat) :
    magnitude ((Numeral.spell 10 n).map (fun d => UInt8.ofNat (48 + d))) = n := by
  have hback : ((Numeral.spell 10 n).map (fun d => UInt8.ofNat (48 + d))).map
      (fun c => c.toNat - 48) = Numeral.spell 10 n := by
    rw [List.map_map]
    conv_rhs => rw [← List.map_id (Numeral.spell 10 n)]
    refine List.map_congr_left (fun d hd => ?_)
    have hlt := toNat_digit (Numeral.lt_of_mem_spell (by decide) hd)
    show (UInt8.ofNat (48 + d)).toNat - 48 = d
    omega
  rw [magnitude, hback, Numeral.value_spell]

/-- The spelling of a number, behind any blanks, is a numeral of it. -/
theorem denotes_spelling (v : Int64) {blanks : List UInt8}
    (hblank : ∀ c ∈ blanks, isSpace c = true) : Denotes (blanks ++ spelling v) v.toInt := by
  have hdigit : ∀ c ∈ (Numeral.spell 10 v.toInt.natAbs).map (fun d => UInt8.ofNat (48 + d)),
      isDigit c = true := by
    intro c hc
    obtain ⟨d, hd, rfl⟩ := List.mem_map.mp hc
    exact isDigit_digit (Numeral.lt_of_mem_spell (by decide) hd)
  have hsome : (Numeral.spell 10 v.toInt.natAbs).map (fun d => UInt8.ofNat (48 + d)) ≠ [] :=
    fun h => Numeral.spell_ne_nil 10 _ (List.map_eq_nil_iff.mp h)
  refine ⟨blanks, if v.toInt < 0 then [45] else [], _, decide (v.toInt < 0), rfl, hblank, ?_,
    hsome, hdigit, ?_⟩
  · by_cases hneg : v.toInt < 0
    · rw [if_pos hneg, decide_eq_true hneg]
      exact Or.inr (Or.inr ⟨rfl, rfl⟩)
    · rw [if_neg hneg, decide_eq_false hneg]
      exact Or.inl ⟨rfl, rfl⟩
  · rw [signed, magnitude_spell]
    by_cases hneg : v.toInt < 0
    · rw [decide_eq_true hneg, if_pos rfl]
      omega
    · rw [decide_eq_false hneg, if_neg Bool.false_ne_true]
      omega

-- ── The function ─────────────────────────────────────────────────────────────

theorem safeAtoi64_denotes {memory : List UInt8} {z : Int} (h : Denotes (cString memory) z)
    (hfits : Fits z) : (safeAtoi64 (some memory)).toInt = z := by
  rw [safeAtoi64, strtoll_denotes h]
  simp only [decide_eq_true hfits, Bool.not_true, Bool.not_false, List.isEmpty_nil,
    Bool.and_self, if_true]
  exact Int64.toInt_ofIntClamp hfits.1 (Int.le_of_lt_add_one hfits.2)

/-- **Numbers in text.** `safe_atoi64` returns the number that a numeral denotes if that
    fits 64 bits, and 0 for every other string; and the spelling of a 64-bit number, behind
    any blanks and whatever follows the string in memory, is read back as that number. -/
theorem safe_atoi64_correct (memory : List UInt8) :
    (∀ z, Denotes (cString memory) z → Fits z → (safeAtoi64 (some memory)).toInt = z) ∧
    ((∀ z, Denotes (cString memory) z → ¬ Fits z) → safeAtoi64 (some memory) = 0) ∧
    ∀ (v : Int64) (blanks back : List UInt8), (∀ c ∈ blanks, isSpace c = true) →
      safeAtoi64 (some (blanks ++ (spelling v ++ 0 :: back))) = v := by
  refine ⟨fun z hz hfits => safeAtoi64_denotes hz hfits, ?_, ?_⟩
  · intro hnone
    rw [safeAtoi64]
    split
    · next hwhole =>
        rw [Bool.and_eq_true, List.isEmpty_iff] at hwhole
        rcases denotes_of_whole hwhole.2 with hempty | ⟨z, hz⟩
        · rw [hempty]
          rfl
        · rw [strtoll_denotes hz, decide_eq_false (hnone z hz)] at hwhole
          exact absurd hwhole.1 Bool.false_ne_true
    · rfl
  · intro v blanks back hblank
    have hz := denotes_spelling v hblank
    have hstring : cString (blanks ++ (spelling v ++ 0 :: back)) = blanks ++ spelling v := by
      rw [← List.append_assoc]
      exact cString_append hz.no_nul
    rw [← hstring] at hz
    have hvalue := safeAtoi64_denotes hz ⟨v.le_toInt, v.toInt_lt⟩
    exact Int64.toInt_inj.mp hvalue

end TradeNumerals
