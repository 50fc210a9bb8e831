import TradeDesk.Proofs.Outcomes
import TradeDesk.Proofs.PaperLedger

/-!
Prices from offsets: rounding down works on the shortest decimal (`Amount.roundDown_rounded`), and
an offset price is the quote moved by the offset, rounded down to cents (`Act.absolutePrice_ends`).
-/

namespace TradeDesk

namespace Decimal

def signed (d : Decimal) : Int := if d.neg then -(d.coeff : Int) else d.coeff

def toRat (d : Decimal) : ℚ := d.signed * 10 ^ d.exp

/-- `r` is `d` rounded down to the exponent `t`: the greatest decimal with that exponent that is not
above `d`. -/
structure FloorOf (t : Int) (d r : Decimal) : Prop where
  exp_eq : r.exp = t
  le : r.toRat ≤ d.toRat
  lt_add : d.toRat < r.toRat + 10 ^ t

def coeffAt (mode : Rounding) (d : Decimal) (t : Int) : Nat :=
  if t ≤ d.exp then d.coeff * Nat.pow 10 (d.exp - t).toNat
  else
    let unit := Nat.pow 10 (t - d.exp).toNat
    d.coeff / unit + if roundsAway mode d.neg (d.coeff % unit) unit then 1 else 0

theorem coeffAt_zero {mode : Rounding} {d : Decimal} (hd : d.coeff = 0) (t : Int) :
    d.coeffAt mode t = 0 := by
  unfold coeffAt
  split
  · simp [hd]
  · cases mode <;> simp [roundsAway, hd]

theorem quantize_eq_some {ctx : DecimalContext} {mode : Rounding} {d r : Decimal} {t : Int}
    (h : d.quantize ctx mode t = some r) : r = ⟨d.neg, d.coeffAt mode t, t⟩ := by
  unfold quantize at h
  -- past the refusals, each a `none`, the result is built from the coefficient `coeffAt` makes
  change (if _ then none else if d.coeff = 0 then _ else if _ then none else
    if ctx.precision < Binary64.decimalLength (d.coeffAt mode t) then none
    else if d.coeffAt mode t ≠ 0 ∧ ctx.emax < t + Binary64.decimalLength (d.coeffAt mode t) - 1
    then none else some ⟨d.neg, d.coeffAt mode t, t⟩) = some r at h
  split_ifs at h with _ hzero
  · rw [coeffAt_zero hzero]
    exact (Option.some.inj h).symm
  · exact (Option.some.inj h).symm

theorem toRat_scale (neg : Bool) (c k : Nat) (e : Int) :
    (⟨neg, c * 10 ^ k, e⟩ : Decimal).toRat = (⟨neg, c, e + k⟩ : Decimal).toRat := by
  have h10 : (10 : ℚ) ≠ 0 := by norm_num
  cases neg <;> simp [toRat, signed, zpow_add₀ h10, zpow_natCast] <;> ring

theorem floorOf_of_signed {d : Decimal} {neg : Bool} {c k : Nat}
    (hle : (⟨neg, c * 10 ^ k, d.exp⟩ : Decimal).signed ≤ d.signed)
    (hlt : d.signed < (⟨neg, c * 10 ^ k, d.exp⟩ : Decimal).signed + 10 ^ k) :
    FloorOf (d.exp + k) d ⟨neg, c, d.exp + k⟩ := by
  have hpos : (0 : ℚ) < 10 ^ d.exp := zpow_pos (by norm_num) _
  have hscale := toRat_scale neg c k d.exp
  have hd : d.toRat = d.signed * 10 ^ d.exp := rfl
  have hr : (⟨neg, c * 10 ^ k, d.exp⟩ : Decimal).toRat =
      (⟨neg, c * 10 ^ k, d.exp⟩ : Decimal).signed * 10 ^ d.exp := rfl
  refine ⟨rfl, ?_, ?_⟩
  · rw [← hscale, hr, hd]
    exact mul_le_mul_of_nonneg_right (by exact_mod_cast hle) hpos.le
  · have hunit : (10 : ℚ) ^ (d.exp + k) = 10 ^ k * 10 ^ d.exp := by
      rw [zpow_add₀ (by norm_num), zpow_natCast, mul_comm]
    rw [← hscale, hr, hd, hunit, ← add_mul]
    exact mul_lt_mul_of_pos_right (by exact_mod_cast hlt) hpos

theorem floor_signed_bounds (neg : Bool) (coeff unit : Nat) (e : Int) (hu : 0 < unit) :
    let c := coeff / unit + if roundsAway .floor neg (coeff % unit) unit then 1 else 0
    (⟨neg, c * unit, e⟩ : Decimal).signed ≤ (⟨neg, coeff, e⟩ : Decimal).signed ∧
      (⟨neg, coeff, e⟩ : Decimal).signed < (⟨neg, c * unit, e⟩ : Decimal).signed + unit := by
  have hsplit := Nat.div_add_mod' coeff unit
  have hrest := Nat.mod_lt coeff hu
  cases neg with
  | false =>
    simp only [signed, roundsAway, Bool.false_and, Bool.false_eq_true, if_false, add_zero]
    omega
  | true =>
    by_cases hr : coeff % unit = 0
    · simp only [signed, roundsAway, hr, bne_self_eq_false, Bool.and_false, Bool.false_eq_true,
        if_false, add_zero, if_true]
      omega
    · have hne : (coeff % unit != 0) = true := bne_iff_ne.2 hr
      simp only [signed, roundsAway, hne, Bool.and_self, if_true, Nat.add_mul, one_mul]
      omega

theorem quantize_floor {ctx : DecimalContext} {d r : Decimal} {t : Int}
    (h : d.quantize ctx .floor t = some r) : FloorOf t d r := by
  rw [quantize_eq_some h]
  unfold coeffAt
  split
  · -- at a finer exponent nothing is dropped: the two stand for the same number
    rename_i hle
    have hsame : (⟨d.neg, d.coeff * Nat.pow 10 (d.exp - t).toNat, t⟩ : Decimal).toRat = d.toRat := by
      have := toRat_scale d.neg d.coeff (d.exp - t).toNat t
      rw [Int.toNat_of_nonneg (by omega), add_sub_cancel] at this
      exact this
    exact ⟨rfl, hsame.le, by rw [hsame]; exact lt_add_of_pos_right _ (zpow_pos (by norm_num) _)⟩
  · rename_i hlt
    -- a coarser exponent lies `k` places above that of `d`
    obtain ⟨k, rfl⟩ : ∃ k : Nat, t = d.exp + k := ⟨(t - d.exp).toNat, by omega⟩
    have hk : (d.exp + k - d.exp).toNat = k := by omega
    rw [hk]
    have hb := floor_signed_bounds d.neg d.coeff (Nat.pow 10 k) d.exp (Nat.pow_pos (by decide))
    exact floorOf_of_signed hb.1 hb.2

end Decimal

def Binary64.shortestDecimal? (x : Float) : Option Decimal :=
  (shortest? x).map fun (neg, s) => ⟨neg, s.digits, s.exp⟩

namespace Amount

/-- `y` is `x` rounded down at `places` decimal places: NaN stays NaN, and otherwise `y` is the
float of the greatest decimal with that many places that is not above the shortest decimal of `x`. -/
def RoundedDown (places : Int) (x y : Float) : Prop :=
  (Binary64.ofFloat x = .nan ∧ y = x) ∨
    ∃ d r, Binary64.shortestDecimal? x = some d ∧ d.FloorOf (-places) r ∧ y = r.toFloat

theorem roundDown_rounded {x y : Float} {places : Int} (h₁ : -999999 ≤ places)
    (h₂ : places ≤ 1000026) (h : roundDown x places = .ok y) : RoundedDown places x y := by
  have hq : quantizeFloat .floor x places = .ok y := by
    unfold roundDown at h
    cases hq : quantizeFloat .floor x places <;> simp_all [Except.mapError]
  rw [quantizeFloat_eq h₁ h₂] at hq
  split at hq
  · rename_i hnan
    exact .inl ⟨hnan, (Except.ok.inj hq).symm⟩
  · cases hq
  · split at hq
    · cases hq
    · rename_i neg s hs
      split at hq
      · cases hq
      · rename_i r hr
        exact .inr ⟨⟨neg, s.digits, s.exp⟩, r, by simp [Binary64.shortestDecimal?, hs],
          Decimal.quantize_floor hr, (Except.ok.inj hq).symm⟩

end Amount

/-! ### Offset prices -/

/-- How far a side's price moves off the quote: the distance, or that share of the side's price
for a `%` distance. -/
def Ticker.shift (t : Ticker) (side : Side) (distance : Quantity) : Float :=
  let base := match side with
    | .buy => t.bid
    | .sell => t.ask
  if distance.units == "%" then base * distance.value / 100.0 else distance.value

/-- The price of a side moved off a quote by a distance, before rounding: down from the bid for a
buy, up from the ask for a sell. -/
def Ticker.moved (t : Ticker) (side : Side) (distance : Quantity) : Float :=
  match side with
  | .buy => t.bid - t.shift .buy distance
  | .sell => t.ask + t.shift .sell distance

namespace Act

theorem absolutePrice_of_offset {i : Nat} {symbol : String} {side : Side} {offset session : String}
    (hoff : (Text.trim offset).toList.head? ≠ some '@') :
    absolutePrice i symbol side offset session =
      ticker i symbol session >>= fun t =>
        lift (Amount.roundDown (t.moved side (Quantity.read (Text.trim offset))) 2) := by
  unfold absolutePrice
  dsimp only
  split
  · rename_i rest hat
    simp [hat] at hoff
  · congr 1
    funext t
    cases side <;> rfl

/-- Every run of the price of an offset reads a quote and ends with the quote moved by the offset,
rounded down at cents. -/
theorem absolutePrice_ends {i : Nat} {symbol : String} {side : Side} {offset session : String}
    (hoff : (Text.trim offset).toList.head? ≠ some '@') {w s : World} {p : Float}
    (h : Step.Ends (absolutePrice i symbol side offset session w) s (.ok p)) :
    ∃ t, Step.Ends (ticker i symbol session w) s (.ok t) ∧
      Amount.roundDown (t.moved side (Quantity.read (Text.trim offset))) 2 = .ok p := by
  rw [absolutePrice_of_offset hoff] at h
  rcases Step.Ends.bind_inv h with ⟨s₁, t, ht, hk⟩ | ⟨e, -, he⟩
  · generalize hr : Amount.roundDown _ 2 = r at hk
    cases hk
    exact ⟨t, ht, hr⟩
  · cases he

end Act

end TradeDesk
