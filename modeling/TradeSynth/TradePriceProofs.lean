import TradeSynth.ScaledDecimalProofs
import TradeSynth.TradeAdmissionProofs

/-!
# Prices — one spelling for each price, and the improvement that is none

A price is a scaled decimal. `normalize_price` strips zeros off the mantissa as long as
the exponent is negative, with the truncating `%` and `/` of C; from an exponent that is
not positive it ends in the one normal spelling of the price (`normalize_canonical`).

`process_order` adds a cent to the price of a limit order to buy when the quote is above
it, and cuts the sum to six decimals. Less than a millionth is lost there, so the price in
the response is above the client's limit (`never_worse_iff`).
-/

namespace TradePrice

open CheckedMemory FixedCodec TradeTypes TradeRegistry TradeRun TradeHandlers
  TradeAdmission TradeWire ScaledDecimal

variable {config : ServerConfig}

-- ── Normalisation ────────────────────────────────────────────────────────────

/-- The loop of `normalize_price`, for so many tests of its condition. -/
def normalizePrice : Nat → Price → Option Price
  | 0, _ => none
  | fuel + 1, price =>
      if price.mantissa % 10 = 0 ∧ price.exponent < 0 then
        normalizePrice fuel
          { price with mantissa := price.mantissa / 10, exponent := price.exponent + 1 }
      else some price

theorem priceToDouble_eq (p : Price) :
    priceToDouble p = value 10 p.mantissa.toInt p.exponent.toInt := by
  rw [priceToDouble, value]
  norm_num

/-- The spelling of the price is the normal one. -/
def IsNormal (p : Price) : Prop := Normal 10 p.mantissa.toInt p.exponent.toInt

theorem mantissa_mod {m : Int64} : m % 10 = 0 ↔ (10 : ℤ) ∣ m.toInt := by
  rw [← Int64.toInt_inj, Int64.toInt_mod, Int.dvd_iff_tmod_eq_zero]
  rfl

/-- The body of the loop moves a factor of ten into the exponent. -/
theorem body_eq {p : Price} (hmod : p.mantissa % 10 = 0) (hneg : p.exponent < 0) :
    p.mantissa.toInt = 10 * (p.mantissa / 10).toInt ∧
      (p.exponent + 1).toInt = p.exponent.toInt + 1 := by
  have hlow := p.exponent.le_toInt
  rw [Int32.lt_iff_toInt_lt] at hneg
  constructor
  · have hten : (10 : Int64).toInt = 10 := rfl
    have hdiv : (p.mantissa / 10).toInt = p.mantissa.toInt.tdiv 10 :=
      Int64.toInt_div_of_ne_right p.mantissa 10 (by decide)
    rw [hdiv, Int.mul_tdiv_cancel' (mantissa_mod.mp hmod)]
  · rw [Int32.toInt_add, Int.bmod_def]
    have hone : (1 : Int32).toInt = 1 := rfl
    have hzero : (0 : Int32).toInt = 0 := rfl
    omega

/-- The loop stops exactly at a normal spelling. -/
theorem isNormal_iff {p : Price} (h : p.exponent ≤ 0) :
    IsNormal p ↔ ¬ (p.mantissa % 10 = 0 ∧ p.exponent < 0) := by
  have hzero : (0 : Int32).toInt = 0 := rfl
  rw [Int32.le_iff_toInt_le, hzero] at h
  rw [mantissa_mod, Int32.lt_iff_toInt_lt, hzero]
  constructor
  · rintro hnormal ⟨hdvd, hneg⟩
    have hstop := hnormal.reduced hdvd
    omega
  · intro hstop
    refine ⟨h, ?_⟩
    intro hdvd
    by_contra hne
    exact hstop ⟨hdvd, by omega⟩

/-- A normal spelling is left as it is. -/
theorem normalizePrice_normal {p : Price} (h : p.exponent ≤ 0) (hnormal : IsNormal p)
    {fuel : Nat} (hfuel : 0 < fuel) : normalizePrice fuel p = some p := by
  obtain ⟨k, rfl⟩ := Nat.exists_eq_succ_of_ne_zero hfuel.ne'
  rw [normalizePrice, if_neg ((isNormal_iff h).mp hnormal)]

/-- What the loop does to a price whose exponent is not positive. -/
structure NormalForm (p p' : Price) : Prop where
  terminates : ∀ fuel, (-p.exponent.toInt).toNat < fuel → normalizePrice fuel p = some p'
  value      : priceToDouble p' = priceToDouble p
  exponent   : p'.exponent ≤ 0
  stable     : ∀ fuel, 0 < fuel → normalizePrice fuel p' = some p'

theorem normalForm_self {p : Price} (h : p.exponent ≤ 0) (hnormal : IsNormal p) :
    NormalForm p p where
  terminates _ hfuel := normalizePrice_normal h hnormal (Nat.zero_lt_of_lt hfuel)
  value := rfl
  exponent := h
  stable _ hfuel := normalizePrice_normal h hnormal hfuel

/-- The loop ends, after as many rounds as the exponent is below zero at most, in the
    normal spelling of the price. -/
theorem exists_normalForm (n : Nat) :
    ∀ p : Price, p.exponent ≤ 0 → (-p.exponent.toInt).toNat = n →
      ∃ p', NormalForm p p' ∧ IsNormal p' := by
  induction n with
  | zero =>
      intro p hexp hn
      have hle := Int32.le_iff_toInt_le.mp hexp
      have hzero : (0 : Int32).toInt = 0 := rfl
      have hnormal : IsNormal p := ⟨by omega, fun _ => by omega⟩
      exact ⟨p, normalForm_self hexp hnormal, hnormal⟩
  | succ n ih =>
      intro p hexp hn
      by_cases hbody : p.mantissa % 10 = 0 ∧ p.exponent < 0
      swap
      · have hnormal := (isNormal_iff hexp).mpr hbody
        exact ⟨p, normalForm_self hexp hnormal, hnormal⟩
      obtain ⟨hmantissa, hexponent⟩ := body_eq hbody.1 hbody.2
      have hzero : (0 : Int32).toInt = 0 := rfl
      have hneg := Int32.lt_iff_toInt_lt.mp hbody.2
      obtain ⟨p', hform, hnormal⟩ := ih
        { p with mantissa := p.mantissa / 10, exponent := p.exponent + 1 }
        (by rw [Int32.le_iff_toInt_le, hexponent]; omega) (by rw [hexponent]; omega)
      refine ⟨p', ⟨?_, ?_, hform.exponent, hform.stable⟩, hnormal⟩
      · intro fuel hfuel
        obtain ⟨k, rfl⟩ := Nat.exists_eq_succ_of_ne_zero (show fuel ≠ 0 by omega)
        rw [normalizePrice, if_pos hbody]
        exact hform.terminates k (by rw [hexponent]; omega)
      · rw [hform.value, priceToDouble_eq, priceToDouble_eq, hmantissa, hexponent,
          value_mul (by decide)]

/-- **Canonical form.** Of two prices whose exponents are not positive, each has a normal
    form, and they denote the same rational exactly when the normal forms are the same. -/
theorem normalize_canonical {p q : Price} (hp : p.exponent ≤ 0) (hq : q.exponent ≤ 0) :
    ∃ p' q', NormalForm p p' ∧ NormalForm q q' ∧
      (priceToDouble p = priceToDouble q ↔
        p'.mantissa = q'.mantissa ∧ p'.exponent = q'.exponent) := by
  obtain ⟨p', hp', hpnormal⟩ := exists_normalForm _ p hp rfl
  obtain ⟨q', hq', hqnormal⟩ := exists_normalForm _ q hq rfl
  refine ⟨p', q', hp', hq', ?_⟩
  rw [← hp'.value, ← hq'.value, priceToDouble_eq, priceToDouble_eq,
    value_eq_iff (by decide) hpnormal hqnormal, Int64.toInt_inj, Int32.toInt_inj]

/-- Two spellings of one and a half. -/
theorem normalize_canonical_pair :
    ∃ p' q', NormalForm ⟨15, -1, Block.fill 4 0⟩ p' ∧
      NormalForm ⟨1500, -3, Block.fill 4 0⟩ q' ∧
      (priceToDouble ⟨15, -1, Block.fill 4 0⟩ = priceToDouble ⟨1500, -3, Block.fill 4 0⟩ ↔
        p'.mantissa = q'.mantissa ∧ p'.exponent = q'.exponent) :=
  normalize_canonical (by decide) (by decide)

example : normalizePrice 4 ⟨-1500, -3, Block.fill 4 0⟩ = some ⟨-15, -1, Block.fill 4 0⟩ := rfl

-- ── The improvement ──────────────────────────────────────────────────────────

/-- A cent more than the price of the order. -/
def raisedValue (order : Order) : ℚ := priceToDouble order.price + 1 / 100

/-- The branches of the improvement, under whatever quote the lookup returns: one yields
    the raised price, the others the one that is kept. -/
def improved {α : Type} (quote : Option MarketData) (order : Order) (raised kept : α) : α :=
  if order.type = .known .limit then
    match quote with
    | some marketData =>
        if order.side = .known .buy ∧
            priceToDouble order.price < priceToDouble marketData.ask then raised
        else kept
    | none => kept
  else kept

/-- The price of a processed order. -/
def improvedPriceAt (quote : Option MarketData) (order : Order) : Price :=
  improved quote order (doubleToPrice (raisedValue order)) order.price

/-- Its value, read without the bounds of `int64_t`. -/
def exactValue (quote : Option MarketData) (order : Order) : ℚ :=
  improved quote order (cut 10 6 (raisedValue order)) (priceToDouble order.price)

/-- The message that `process_order` builds under that quote. -/
def statusResponse (context : ServerContext config) (quote : Option MarketData)
    (order : Order) (now₁ now₂ : Int64) : Message where
  type := .known .orderStatus
  sequenceNum := context.sequenceNum
  timestamp := now₂
  data := unionOf Order.codec
    { order with
      price := improvedPriceAt quote order
      status := .known .new
      modificationTime := now₁ } order_fits

/-- An order within the limits is answered by that message, under the quote of its
    symbol. -/
theorem processOrder_response {context : ServerContext config} {order : Order}
    (h : WithinLimits context order) (now₁ now₂ : Int64) (send : List UInt8 → Int) :
    processOrder context order now₁ now₂ send = (do
      let fd ← findClientSocket (numbered context)
        (clientIdOf (processedOrder context order now₁))
      let sent ← sendResponseMessage fd (statusResponse context
        (getMarketData context (symbolOf order)) order now₁ now₂) send
      pure (sent.1, numbered context, sent.2)) := by
  have hquantity : ¬ (order.quantity = 0 ∨ positionLimit < order.quantity) := by
    rw [not_or, UInt32.not_lt]
    exact ⟨h.positive, h.bounded⟩
  rw [processOrder, if_neg hquantity, if_neg h.position]
  rfl

theorem price_statusResponse (context : ServerContext config) (quote : Option MarketData)
    (order : Order) (now₁ now₂ : Int64) :
    (statusResponse context quote order now₁ now₂).order.price = improvedPriceAt quote order := by
  rw [Message.order, statusResponse, take_unionOf, Order.codec.decode_encode]

/-- The branch that moves the price: a limit order to buy, below the ask of a quote. -/
def Raised (quote : Option MarketData) (order : Order) : Prop :=
  order.type = .known .limit ∧ order.side = .known .buy ∧
    ∃ marketData ∈ quote, priceToDouble order.price < priceToDouble marketData.ask

instance (quote : Option MarketData) (order : Order) : Decidable (Raised quote order) :=
  inferInstanceAs (Decidable (_ ∧ _ ∧ _))

theorem improved_eq {α : Type} (quote : Option MarketData) (order : Order) (raised kept : α) :
    improved quote order raised kept = if Raised quote order then raised else kept := by
  unfold improved Raised
  by_cases htype : order.type = .known .limit
  · cases quote with
    | none => simp [htype]
    | some marketData => simp [htype]
  · simp [htype]

/-- A value that is no worse for the client than the price of the order, and the same if
    the order is no limit order. -/
structure NeverWorse (order : Order) (v : ℚ) : Prop where
  buy       : order.side = .known .buy → v ≤ priceToDouble order.price
  sell      : order.side = .known .sell → priceToDouble order.price ≤ v
  unchanged : order.type ≠ .known .limit → v = priceToDouble order.price

theorem neverWorse_kept (order : Order) : NeverWorse order (priceToDouble order.price) :=
  ⟨fun _ => le_refl _, fun _ => le_refl _, fun _ => rfl⟩

/-- For the orders that are raised, only the first clause says anything. -/
theorem neverWorse_raised {quote : Option MarketData} {order : Order}
    (h : Raised quote order) (v : ℚ) :
    NeverWorse order v ↔ v ≤ priceToDouble order.price := by
  obtain ⟨htype, hside, -⟩ := h
  constructor
  · intro hworse
    exact hworse.buy hside
  · intro hle
    refine ⟨fun _ => hle, ?_, fun hne => absurd htype hne⟩
    intro hsell
    rw [hside] at hsell
    exact absurd hsell (by decide)

/-- The cut takes less than a millionth off the cent. -/
theorem lt_cut_raisedValue (order : Order) :
    priceToDouble order.price < cut 10 6 (raisedValue order) := by
  have hlow := (cut_bounds (b := 10) (by decide) 6 (raisedValue order)).1
  have hstep : raisedValue order = priceToDouble order.price + 1 / 100 := rfl
  norm_num at hlow
  linarith

-- ── Sixty-four bits ──────────────────────────────────────────────────────────

/-- A conversion that passes the upper end comes back far below. -/
theorem wrap_le {r : ℤ} (h : 2 ^ 63 ≤ r) : (Int64.ofInt r).toInt ≤ r - 2 ^ 64 := by
  have hlt := (Int64.ofInt r).toInt_lt
  have hsize : (Int64.size : ℤ) = 2 ^ 64 := rfl
  rw [Int64.toInt_ofInt, Int.bmod_def, hsize] at hlt ⊢
  omega

/-- Any other conversion gives no smaller number. -/
theorem le_wrap {r : ℤ} (h : r < 2 ^ 63) : r ≤ (Int64.ofInt r).toInt := by
  have hge := (Int64.ofInt r).le_toInt
  have hsize : (Int64.size : ℤ) = 2 ^ 64 := rfl
  rw [Int64.toInt_ofInt, Int.bmod_def, hsize] at hge ⊢
  omega

theorem cut_six (v : ℚ) : cut 10 6 v = (trunc (v * 10 ^ 6) : ℚ) / 10 ^ 6 := by
  rw [cut, Int.cast_ofNat]

theorem priceToDouble_doubleToPrice (v : ℚ) :
    priceToDouble (doubleToPrice v) =
      ((Int64.ofInt (trunc (v * 10 ^ 6))).toInt : ℚ) / 10 ^ 6 := by
  have hexp : (doubleToPrice v).exponent.toInt = -6 := rfl
  rw [priceToDouble, hexp, zpow_neg, div_eq_mul_inv]
  rfl

/-- A raised price that the mantissa can hold has the value that it has without bounds. -/
theorem priceToDouble_improvedPriceAt (quote : Option MarketData) {order : Order}
    (hlow : -2 ^ 63 ≤ trunc (raisedValue order * 10 ^ 6))
    (hhigh : trunc (raisedValue order * 10 ^ 6) < 2 ^ 63) :
    priceToDouble (improvedPriceAt quote order) = exactValue quote order := by
  rw [improvedPriceAt, exactValue, improved_eq, improved_eq]
  by_cases hraised : Raised quote order
  · rw [if_pos hraised, if_pos hraised, priceToDouble_doubleToPrice,
      Int64.toInt_ofInt_of_le hlow hhigh, cut_six]
  · rw [if_neg hraised, if_neg hraised]

/-- A raised price is above the limit unless it leaves the range of the mantissa. -/
theorem raised_le_iff (order : Order) :
    priceToDouble (doubleToPrice (raisedValue order)) ≤ priceToDouble order.price ↔
      2 ^ 63 ≤ raisedValue order * 10 ^ 6 := by
  have hreach : (2 : ℤ) ^ 63 ≤ trunc (raisedValue order * 10 ^ 6) ↔
      (2 : ℚ) ^ 63 ≤ raisedValue order * 10 ^ 6 := by
    rw [le_trunc_iff (by decide)]
    norm_num
  have hstep : raisedValue order = priceToDouble order.price + 1 / 100 := rfl
  rw [priceToDouble_doubleToPrice, ← hreach]
  by_cases hr : (2 : ℤ) ^ 63 ≤ trunc (raisedValue order * 10 ^ 6)
  · refine iff_of_true ?_ hr
    have hwrap : ((Int64.ofInt (trunc (raisedValue order * 10 ^ 6))).toInt : ℚ) ≤
        trunc (raisedValue order * 10 ^ 6) - 2 ^ 64 := by exact_mod_cast wrap_le hr
    have hhigh := (trunc_bounds (raisedValue order * 10 ^ 6)).2
    rw [div_le_iff₀ (by norm_num)]
    linarith
  · refine iff_of_false ?_ hr
    have hwrap : (trunc (raisedValue order * 10 ^ 6) : ℚ) ≤
        (Int64.ofInt (trunc (raisedValue order * 10 ^ 6))).toInt := by
      exact_mod_cast le_wrap (Int.not_le.mp hr)
    have hlt := lt_cut_raisedValue order
    rw [cut_six] at hlt
    exact not_le.mpr (lt_of_lt_of_le hlt (div_le_div_of_nonneg_right hwrap (by norm_num)))

/-- **No improvement.** For every order and every quote: the price in the response of an
    order that is no limit order is the price of the order. Read as exact numbers, the
    price in the response is never worse for the client exactly when the order is not
    raised; read with the mantissa of 64 bits, also when the raised price leaves its
    range at the upper end. -/
theorem never_worse_iff (context : ServerContext config) (quote : Option MarketData)
    (order : Order) (now₁ now₂ : Int64) :
    (order.type ≠ .known .limit →
      (statusResponse context quote order now₁ now₂).order.price = order.price) ∧
    (NeverWorse order (exactValue quote order) ↔ ¬ Raised quote order) ∧
    (NeverWorse order
        (priceToDouble (statusResponse context quote order now₁ now₂).order.price) ↔
      ¬ Raised quote order ∨ 2 ^ 63 ≤ raisedValue order * 10 ^ 6) := by
  rw [price_statusResponse, improvedPriceAt, exactValue, improved_eq, improved_eq]
  by_cases hraised : Raised quote order
  · rw [if_pos hraised, if_pos hraised, neverWorse_raised hraised, neverWorse_raised hraised,
      raised_le_iff]
    refine ⟨fun hne => absurd hraised.1 hne, ?_, ?_⟩
    · exact iff_of_false (not_le.mpr (lt_cut_raisedValue order)) (not_not_intro hraised)
    · exact (or_iff_right (not_not_intro hraised)).symm
  · rw [if_neg hraised, if_neg hraised]
    have hkept := neverWorse_kept order
    exact ⟨fun _ => rfl, iff_of_true hkept hraised, iff_of_true hkept (Or.inl hraised)⟩

/-- A limit order to buy at minus one; the server's quote is zero. -/
def lowOrder : Order := { sampleOrder with price := ⟨-1, 0, Block.fill 4 0⟩ }

theorem priceToDouble_lowOrder : priceToDouble lowOrder.price = -1 := by
  have hmantissa : lowOrder.price.mantissa.toInt = -1 := rfl
  have hexponent : lowOrder.price.exponent.toInt = 0 := rfl
  rw [priceToDouble, hmantissa, hexponent]
  norm_num

theorem lowOrder_raised : Raised (some dummyData) lowOrder := by
  have hask : priceToDouble dummyData.ask = 0 := by
    have hzero : dummyData.ask.mantissa.toInt = 0 := by decide +kernel
    rw [priceToDouble, hzero, Int.cast_zero, zero_mul]
  refine ⟨rfl, rfl, dummyData, rfl, ?_⟩
  rw [priceToDouble_lowOrder, hask]
  norm_num

/-- The order is answered with minus ninety-nine cents, in either reading. -/
theorem lowOrder_worse :
    ¬ ∀ (config : ServerConfig) (context : ServerContext config) (order : Order)
        (now₁ now₂ : Int64), WithinLimits context order →
        NeverWorse order (exactValue (getMarketData context (symbolOf order)) order) ∨
        NeverWorse order (priceToDouble (statusResponse context
          (getMarketData context (symbolOf order)) order now₁ now₂).order.price) := by
  intro hall
  have hlimits : WithinLimits (ServerContext.fresh twoSlots) lowOrder :=
    ⟨by decide, by decide, positionHolds_of_le (by decide)⟩
  rcases hall twoSlots _ lowOrder 0 0 hlimits with hexact | hworse
  · rw [getMarketData, exactValue, improved_eq, if_pos lowOrder_raised,
      neverWorse_raised lowOrder_raised] at hexact
    exact absurd hexact (not_le.mpr (lt_cut_raisedValue lowOrder))
  · rw [price_statusResponse, improvedPriceAt, improved_eq, getMarketData,
      if_pos lowOrder_raised, neverWorse_raised lowOrder_raised, raised_le_iff, raisedValue,
      priceToDouble_lowOrder] at hworse
    norm_num at hworse

end TradePrice
