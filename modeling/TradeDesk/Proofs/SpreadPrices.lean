import TradeDesk.Proofs.DecimalRounding
import TradeDesk.Proofs.NameLookup

/-!
Orders against the spread: bounds on offset prices (`offset_price_bounds`), and when a market
order keeps a spot wallet at least zero (`Paper.Market.market_order_keeps_wallet`).
-/

namespace TradeDesk

def Binary64.WithinPlaces (places : Int) (x : Float) : Prop :=
  ∀ d, Binary64.shortestDecimal? x = some d → -places ≤ d.exp

theorem Binary64.isFinite_of_ofFloat {x : Float} {neg : Bool} {m : ℕ} {q : ℤ}
    (h : ofFloat x = .finite neg m q) : x.isFinite = true := by
  show x.toModel.unpack.isFinite = true
  rcases unpack_cases h with ⟨s, hA⟩ | ⟨s, m, e, hm, hA⟩ <;> rw [hA] <;> rfl

theorem Binary64.isNaN_of_isFinite {x : Float} (h : x.isFinite = true) : x.isNaN = false := by
  obtain ⟨neg, m, q, hx⟩ := ofFloat_of_isFinite h
  exact isNaN_of_ofFloat (by simp [hx])

namespace Amount

variable {x y : Float}

theorem finite_of_roundDown (h : roundDown x 2 = .ok y) (hy : y.isFinite = true) :
    x.isFinite = true := by
  obtain ⟨neg, m, q, hx⟩ :=
    finite_of_quantizeFloat (by norm_num) (by norm_num) (Except.mapError_eq_ok.1 h) hy
  exact Binary64.isFinite_of_ofFloat hx

theorem roundDown_le (h : roundDown x 2 = .ok y) (hx : x.isFinite = true) : y ≤ x :=
  quantizeFloat_floor_le hx (Except.mapError_eq_ok.1 h)

theorem roundDown_of_withinPlaces (h : roundDown x 2 = .ok y) (hx : x.isFinite = true)
    (hw : Binary64.WithinPlaces 2 x) : y = x := by
  obtain ⟨neg, m, q, hxf⟩ := Binary64.ofFloat_of_isFinite hx
  obtain ⟨s, hs, -⟩ := Binary64.shortest_readsBack hxf
  have hexp := hw ⟨neg, s.digits, s.exp⟩ (by simp [Binary64.shortestDecimal?, hs])
  exact quantizeFloat_short (by norm_num) (by norm_num) hs hexp (Except.mapError_eq_ok.1 h)

end Amount

/-- What a price `p` at the distance `d` off the quote `t` keeps to: it is at most the quote moved
by the distance; moved away from the spread, a buy is at most the bid and so below an ask above
it, and a sell is at least the ask when the moved ask has no digit below the cents. -/
structure Ticker.PricedWithin (t : Ticker) (side : Side) (d : Quantity) (p : Float) : Prop where
  le_moved : p ≤ t.moved side d
  buy : side = .buy → t.bid ≤ t.ask → 0.0 ≤ t.shift .buy d →
    p ≤ t.bid ∧ (t.bid < t.ask → p < t.ask)
  sell : side = .sell → t.bid ≤ t.ask → 0.0 ≤ t.shift .sell d →
    Binary64.WithinPlaces 2 (t.moved .sell d) → t.ask ≤ p

/-- Every run of the price of an offset that ends with a finite price reads a quote, and the price
keeps to it as `Ticker.PricedWithin` says. -/
theorem offset_price_bounds {i : Nat} {symbol : String} {side : Side} {offset session : String}
    (hoff : (Text.trim offset).toList.head? ≠ some '@') {w s : World} {p : Float}
    (h : Step.Ends (Act.absolutePrice i symbol side offset session w) s (.ok p))
    (hp : p.isFinite = true) :
    ∃ t, Step.Ends (Act.ticker i symbol session w) s (.ok t) ∧
      t.PricedWithin side (Quantity.read (Text.trim offset)) p := by
  obtain ⟨t, ht, hr⟩ := Act.absolutePrice_ends hoff h
  have hx := Amount.finite_of_roundDown hr hp
  have hle := Amount.roundDown_le hr hx
  refine ⟨t, ht, hle, ?_, ?_⟩
  · rintro rfl hq hs
    -- the bid less a distance at least zero is at most the bid
    have hbid : t.moved .buy (Quantity.read (Text.trim offset)) ≤ t.bid :=
      Binary64.sub_le_of_nonneg (Float.isNaN_of_le hq).1 hs (Binary64.isNaN_of_isFinite hx)
    have hpb := Float.le_trans hle hbid
    exact ⟨hpb, fun hlt => Float.lt_of_le_of_lt hpb hlt⟩
  · rintro rfl hq hs hw
    rw [Amount.roundDown_of_withinPlaces hr hx hw]
    exact Binary64.le_add_of_nonneg (Float.isNaN_of_le hq).2 hs (Binary64.isNaN_of_isFinite hx)

def fineQuoteWorld : World :=
  { desks := #[Desk.assemble "paper" []
      (Paper.Market.spotDefault.setPrice "BTCUSD" 1000.001 (some 1000.009)) default 0.001 {}] }

theorem fine_quote_buy_within_bid :
    ∃ s p, (Text.trim "0").toList.head? ≠ some '@' ∧
      Step.Ends (Act.absolutePrice 0 "BTCUSD" .buy "0" "s1" fineQuoteWorld) s (.ok p) ∧
      p.isFinite = true ∧ ∃ t, Step.Ends (Act.ticker 0 "BTCUSD" "s1" fineQuoteWorld) s (.ok t) ∧
        t.PricedWithin .buy (Quantity.read (Text.trim "0")) p := by
  have hoff : (Text.trim "0").toList.head? ≠ some '@' := by decide +kernel
  obtain ⟨s, r, heq, key⟩ := Step.eq_done_of_doneWith
    (show (Act.absolutePrice 0 "BTCUSD" .buy "0" "s1" fineQuoteWorld).doneWith
      (fun _ r => r.toOption.any Float.isFinite) = true by decide +kernel)
  cases r with
  | error e => cases key
  | ok p =>
    have h : Step.Ends (Act.absolutePrice 0 "BTCUSD" .buy "0" "s1" fineQuoteWorld) s (.ok p) :=
      heq ▸ .done s (.ok p)
    exact ⟨s, p, hoff, h, key, offset_price_bounds hoff h key⟩

/-- At that quote a sell at offset `0` is priced below the bid, let alone the ask, and a limit sell
placed there fills at once. -/
theorem sell_offset_price_below_bid :
    (∃ s p, Act.absolutePrice 0 "BTCUSD" .sell "0" "s1" fineQuoteWorld = .done s (.ok p) ∧
      p < 1000.001) ∧
    ∃ s o, Handler.limitOrder ⟨0, "BTCUSD", "s1"⟩
        (Params.assign (Handler.limitDefaults "t") [⟨"", "sell", 0⟩, ⟨"amount", "0.1", 1⟩])
        fineQuoteWorld = .done s (.ok o) ∧
      (s.desks.getD 0 default).market.orders.map (·.isFilled) = [true] := by
  constructor
  · obtain ⟨s, r, heq, key⟩ := Step.eq_done_of_doneWith
      (show (Act.absolutePrice 0 "BTCUSD" .sell "0" "s1" fineQuoteWorld).doneWith
        (fun _ r => r.toOption.any fun p => decide (p < 1000.001)) = true by decide +kernel)
    cases r with
    | error e => cases key
    | ok p => exact ⟨s, p, heq, of_decide_eq_true key⟩
  · obtain ⟨s, r, heq, key⟩ := Step.eq_done_of_doneWith
      (show (Handler.limitOrder ⟨0, "BTCUSD", "s1"⟩
        (Params.assign (Handler.limitDefaults "t") [⟨"", "sell", 0⟩, ⟨"amount", "0.1", 1⟩])
        fineQuoteWorld).doneWith (fun s r => r.toBool &&
          (s.desks.getD 0 default).market.orders.map (·.isFilled) == [true]) = true by
        decide +kernel)
    cases r with
    | error e => cases key
    | ok o =>
      simp only [Except.toBool, Bool.true_and] at key
      exact ⟨s, o, heq, beq_iff_eq.1 key⟩

namespace Paper

abbrev pairOf (symbol : String) : SymbolPair := SymbolPair.ofSymbol (Text.upper symbol)

theorem Books.post_spot_mem {b : Books} {o : Order} {price : Float} {p : String × Float}
    (hp : p ∈ (b.post .spot o price).wallet)
    (hpair : (SymbolPair.ofSymbol o.symbol).asset ≠ (SymbolPair.ofSymbol o.symbol).currency) :
    p ∈ b.wallet ∨
      p = ((SymbolPair.ofSymbol o.symbol).asset,
        (Assoc.find? b.wallet (SymbolPair.ofSymbol o.symbol).asset).getD 0.0 + o.signed) ∨
      p = ((SymbolPair.ofSymbol o.symbol).currency,
        (Assoc.find? b.wallet (SymbolPair.ofSymbol o.symbol).currency).getD 0.0 - o.signed * price) := by
  simp only [Books.post] at hp
  rcases Assoc.mem_set hp with hp | rfl
  · rcases Assoc.mem_set hp with hp | rfl
    · exact .inl hp
    · exact .inr (.inl rfl)
  · rw [Assoc.find?_set, if_neg (by simpa using hpair.symm)]
    exact .inr (.inr rfl)

namespace Market

def holding (m : Market) (currency : String) : Float := (Assoc.find? m.wallet currency).getD 0.0

/-- A market order that the wallet covers at the touch: a buy whose cost at the ask is at most the
currency held, or a sell of at most the asset held, at a finite bid at least zero. -/
def Covers (m : Market) (symbol : String) (amount : Float) : Side → Prop
  | .buy => amount * (m.quote symbol).1.ask ≤ m.holding (pairOf symbol).currency
  | .sell => amount ≤ m.holding (pairOf symbol).asset ∧ 0.0 ≤ (m.quote symbol).1.bid ∧
      (m.quote symbol).1.bid.isFinite = true

instance (m : Market) (symbol : String) (amount : Float) (side : Side) :
    Decidable (m.Covers symbol amount side) := by
  cases side <;> unfold Covers <;> infer_instance

theorem holding_nonneg {m : Market} (hw : ∀ p ∈ m.wallet, 0.0 ≤ p.2) (currency : String) :
    0.0 ≤ m.holding currency := by
  unfold holding
  cases h : Assoc.find? m.wallet currency with
  | none => show (0.0 : Float) ≤ 0.0; decide +kernel
  | some x => show (0.0 : Float) ≤ x; exact hw (currency, x) (Assoc.mem_of_find? h)

open Binary64 in
/-- A market order on a spot market keeps every wallet amount at least zero when the wallet covers
it at the touch, the amount is a finite number at least zero, and the pair's two holdings are
finite. -/
theorem market_order_keeps_wallet {m : Market} (hspot : m.venue = .spot) {symbol : String}
    {amount : Float} {side : Side} (hpair : (pairOf symbol).asset ≠ (pairOf symbol).currency)
    (hw : ∀ p ∈ m.wallet, 0.0 ≤ p.2)
    (hfin : (m.holding (pairOf symbol).asset).isFinite = true ∧
      (m.holding (pairOf symbol).currency).isFinite = true)
    (ha : amount.isFinite = true) (h0 : 0.0 ≤ amount) (hcov : m.Covers symbol amount side) :
    ∀ p ∈ (m.placeMarket symbol amount side).2.wallet, 0.0 ≤ p.2 := by
  intro p hp
  rw [show (m.placeMarket symbol amount side).2.wallet =
    (m.placeMarket symbol amount side).2.books.wallet from rfl, placeMarket_books, hspot] at hp
  obtain ⟨na, ma, qa, haf⟩ := ofFloat_of_isFinite hfin.1
  obtain ⟨nc, mc, qc, hcf⟩ := ofFloat_of_isFinite hfin.2
  obtain ⟨nx, mx, qx, hxf⟩ := ofFloat_of_isFinite ha
  rcases Books.post_spot_mem hp hpair with hp | rfl | rfl
  · exact hw p hp
  · -- the asset gains a buy's amount, or gives up a sell's
    cases side with
    | buy => exact zero_le_add_of_finite haf hxf (holding_nonneg hw _) h0
    | sell => exact zero_le_add_neg_of_le haf hxf hcov.1
  · -- the currency pays a buy's cost at the ask, or takes a sell's proceeds at the bid
    cases side with
    | buy => exact zero_le_sub_of_le hcf hcov
    | sell =>
      obtain ⟨-, hb0, hbfin⟩ := hcov
      obtain ⟨nb, mb, qb, hbf⟩ := ofFloat_of_isFinite hbfin
      exact Float.le_trans (holding_nonneg hw _)
        (le_sub_of_nonpos hcf (neg_mul_nonpos hxf hbf h0 hb0))

theorem one_btc_buy_keeps_wallet :
    spotDefault.Covers "BTCUSD" 1.0 .buy ∧
      ((spotDefault.placeMarket "BTCUSD" 1.0 .buy).2.wallet.all fun p => decide (0.0 ≤ p.2)) =
        true :=
  ⟨by decide +kernel, List.all_eq_true.2 fun p hp => decide_eq_true
    (market_order_keeps_wallet rfl (by decide +kernel) (by decide +kernel)
      ⟨by decide +kernel, by decide +kernel⟩ (by decide +kernel) (by decide +kernel)
      (by decide +kernel) p hp)⟩

end Market

end Paper

end TradeDesk
