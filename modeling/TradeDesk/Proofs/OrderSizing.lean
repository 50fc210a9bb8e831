import TradeDesk.Proofs.OffsetPrices
import TradeDesk.Proofs.FloatOrder

/-!
Sizing an order against a spot wallet: the request is capped at what is available, checked
against the minimum, then floored at four places (`Sizing.orderSize_law`).
-/

namespace TradeDesk.Binary64

variable {a b : Float}

theorem atMost_of_lt (h : b < a) : atMost a b = b := if_pos h

theorem atMost_of_not_lt (h : ¬ b < a) : atMost a b = a := if_neg h

theorem atMost_le_right (ha : a.isNaN = false) (hb : b.isNaN = false) : atMost a b ≤ b := by
  unfold atMost
  split
  · exact Float.le_refl_of_number hb
  · exact Float.le_of_not_lt hb ha ‹_›

open Float.Model in
theorem unpacked_eq_of_place {x y : UnpackedFloat} (hx : place (.zero .positive) < place x)
    (h : place x = place y) : x = y := by
  rcases x with ⟨_ | _⟩ | _ | ⟨_ | _⟩ | ⟨_ | _, m, e, hm⟩ <;>
  rcases y with ⟨_ | _⟩ | _ | ⟨_ | _⟩ | ⟨_ | _, m', e', hm'⟩ <;>
  simp_all [place, Prod.Lex.toLex_lt_toLex]

end TradeDesk.Binary64

namespace Float

open TradeDesk.Binary64

variable {a b : Float}

theorem eq_of_unpack_eq (h : a.toModel.unpack = b.toModel.unpack) : a = b := by
  have hbits := (Float.Model.UnpackedFloat.unpack_inj_of_valid a.toModel.valid b.toModel.valid).1 h
  exact Float.toBits_inj.1 (UInt64.toBitVec_inj.1 hbits)

theorem eq_of_le_of_le (hpos : 0.0 < a) (h₁ : a ≤ b) (h₂ : b ≤ a) : a = b := by
  obtain ⟨ha, hb⟩ := isNaN_of_le h₁
  have hzero : (0.0 : Float).isNaN = false := (isNaN_of_lt hpos).1
  have hplace : place a.toModel.unpack = place b.toModel.unpack :=
    le_antisymm ((le_iff_place ha hb).1 h₁) ((le_iff_place hb ha).1 h₂)
  have habove := (lt_iff_place hzero ha).1 hpos
  rw [unpack_zero] at habove
  exact eq_of_unpack_eq (unpacked_eq_of_place habove hplace)

end Float

namespace TradeDesk

theorem Binary64.atMost_of_le {a b : Float} (hpos : 0.0 < b) (h : b ≤ a) : atMost a b = b := by
  obtain ⟨hb, ha⟩ := Float.isNaN_of_le h
  by_cases hlt : b < a
  · exact atMost_of_lt hlt
  · rw [atMost_of_not_lt hlt]
    exact (Float.eq_of_le_of_le hpos h (Float.le_of_not_lt hb ha hlt)).symm

namespace Amount

theorem roundDown_error {x : Float} {places : Int} {e : Fault} (hp : -999999 ≤ places)
    (h : roundDown x places = .error e) : e = .invalidDecimal := by
  unfold roundDown at h
  cases hq : quantizeFloat .floor x places with
  | ok y => simp [hq, Except.mapError] at h
  | error q =>
    simp only [hq, Except.mapError, Except.error.injEq] at h
    subst h
    cases q with
    | invalid => rfl
    | overflow => exact absurd (quantizeFloat_overflow hq) (by omega)

end Amount

namespace Sizing

theorem except_bind_eq_error {ε α β : Type} {x : Except ε α} {f : α → Except ε β} {e : ε}
    (h : x >>= f = .error e) : x = .error e ∨ ∃ a, x = .ok a ∧ f a = .error e := by
  cases x with
  | error e' => exact .inl (by cases h; rfl)
  | ok a => exact .inr ⟨a, rfl, h⟩

variable {symbol : String} {side : Side} {q : Quantity} {balances : List Balance}
  {price minOrderSize : Float}

theorem orderSize_eq :
    orderSize symbol side q balances price minOrderSize =
      totalAsset symbol balances price >>= fun total =>
        availableAsset symbol balances price side >>= fun available =>
          let capped := Binary64.atMost (requested q total available price) available
          Amount.roundDown (if capped < minOrderSize then 0.0 else capped) 4 >>= fun size =>
            pure ⟨total, available, size == available, size⟩ := rfl

theorem orderSize_error {e : Fault} (h : orderSize symbol side q balances price minOrderSize = .error e) :
    e = .invalidDecimal := by
  rw [orderSize_eq] at h
  rcases except_bind_eq_error h with ht | ⟨total, -, h⟩
  · exact Amount.roundDown_error (by norm_num) ht
  rcases except_bind_eq_error h with ha | ⟨available, -, h⟩
  · exact Amount.roundDown_error (by norm_num) ha
  rcases except_bind_eq_error h with hs | ⟨size, -, h⟩
  · exact Amount.roundDown_error (by norm_num) hs
  cases h

theorem orderSize_ok {o : OrderSize} (h : orderSize symbol side q balances price minOrderSize = .ok o) :
    totalAsset symbol balances price = .ok o.total ∧
      availableAsset symbol balances price side = .ok o.available ∧
      o.isAllAvailable = (o.orderSize == o.available) ∧
      let capped := Binary64.atMost (requested q o.total o.available price) o.available
      Amount.roundDown (if capped < minOrderSize then 0.0 else capped) 4 = .ok o.orderSize := by
  rw [orderSize_eq] at h
  obtain ⟨total, ht, h⟩ := Paper.Market.except_bind_eq_ok h
  obtain ⟨available, ha, h⟩ := Paper.Market.except_bind_eq_ok h
  obtain ⟨size, hs, h⟩ := Paper.Market.except_bind_eq_ok h
  cases h
  exact ⟨ht, ha, rfl, hs⟩

theorem roundDown_zero : Amount.roundDown 0.0 4 = .ok 0.0 := by decide +kernel

/-- The law of sizing an order against a spot wallet. Sizing fails only where a 4-place floor
leaves the decimal context. Otherwise the total and the available amount are the wallet's, the
requested size is capped at the available amount, and the minimum is checked before the 4-place
floor: a capped size below the minimum gives 0, any other gives its floor, which may lie below the
minimum again. When the request reaches the available amount and that is at least a positive
minimum, the size is the floor of the available amount. -/
theorem orderSize_law (symbol : String) (side : Side) (q : Quantity) (balances : List Balance)
    (price minOrderSize : Float) :
    (∀ e, orderSize symbol side q balances price minOrderSize = .error e → e = .invalidDecimal) ∧
    ∀ o, orderSize symbol side q balances price minOrderSize = .ok o →
      let wanted := requested q o.total o.available price
      let capped := Binary64.atMost wanted o.available
      totalAsset symbol balances price = .ok o.total ∧
      availableAsset symbol balances price side = .ok o.available ∧
      o.isAllAvailable = (o.orderSize == o.available) ∧
      (wanted.isNaN = false → o.available.isNaN = false → capped ≤ o.available) ∧
      ((capped < minOrderSize ∧ o.orderSize = 0.0) ∨
        (¬ capped < minOrderSize ∧ Amount.RoundedDown 4 capped o.orderSize)) ∧
      (0.0 < minOrderSize → minOrderSize ≤ o.available → o.available ≤ wanted →
        Amount.RoundedDown 4 o.available o.orderSize) := by
  refine ⟨fun e h => orderSize_error h, fun o h => ?_⟩
  obtain ⟨ht, ha, hall, hs⟩ := orderSize_ok h
  intro wanted capped
  have hs : Amount.roundDown (if capped < minOrderSize then 0.0 else capped) 4 = .ok o.orderSize :=
    hs
  refine ⟨ht, ha, hall, Binary64.atMost_le_right, ?_, ?_⟩
  · -- the minimum is checked on the capped size, before the floor
    by_cases hlt : capped < minOrderSize
    · rw [if_pos hlt, roundDown_zero] at hs
      exact .inl ⟨hlt, (Except.ok.inj hs).symm⟩
    · rw [if_neg hlt] at hs
      exact .inr ⟨hlt, Amount.roundDown_rounded (by norm_num) (by norm_num) hs⟩
  · intro hpos hmin hreach
    -- a request that reaches the available amount is capped to it
    have hcap : capped = o.available :=
      Binary64.atMost_of_le (Float.lt_of_lt_of_le hpos hmin) hreach
    have hnot : ¬ capped < minOrderSize := by
      rw [hcap]
      exact Float.not_lt_of_le hmin
    rw [if_neg hnot, hcap] at hs
    exact Amount.roundDown_rounded (by norm_num) (by norm_num) hs

/-- The floor comes after the minimum, and can leave the decimal context. Selling `0.00012` of a
wallet of one coin at a minimum of `0.00012` passes the minimum and is floored to `0.0001`: neither
zero nor at the minimum. Selling `1e30` of a wallet of `1e30` coins fails, its total having no
4-place floor within 28 digits. -/
theorem floor_passes_under_minimum :
    ((orderSize "BTCUSD" .sell ⟨0.00012, ""⟩
        [{ currency := "btc", amount := 1.0, available := 1.0 },
          { currency := "usd", amount := 0.0, available := 0.0 }] 1000.0 0.00012).toOption.map
        fun o => (o.available.toBits, o.orderSize.toBits)) =
        some ((1.0 : Float).toBits, (0.0001 : Float).toBits) ∧
      (0.0 : Float) < 0.0001 ∧ (0.0001 : Float) < 0.00012 ∧
      (orderSize "BTCUSD" .sell ⟨1e30, ""⟩
        [{ currency := "btc", amount := 1e30, available := 1e30 },
          { currency := "usd", amount := 0.0, available := 0.0 }] 1000.0 0.001).toBool = false := by
  decide +kernel

end Sizing

end TradeDesk
