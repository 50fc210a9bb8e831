import TradeDesk.Proofs.PaperLedger

/-!
What matching leaves on the simulated exchange: no open order crossed by its quote, and fills only
of crossed orders, at the right price (`Market.Reachable.matching_guarantees`).
-/

namespace TradeDesk

namespace Paper

namespace Order

/-- Whether a quote crosses a resting order: a limit buy once the ask is at or below its price, a
limit sell once the bid is at or above it, a stop buy once the ask is at or above its price, a stop
sell once the bid is at or below it. A market order never rests. -/
def Crossed (o : Order) (t : Ticker) : Prop :=
  match o.kind, o.side with
  | .limit, .buy => t.ask ≤ o.price
  | .limit, .sell => o.price ≤ t.bid
  | .stop, .buy => o.price ≤ t.ask
  | .stop, .sell => t.bid ≤ o.price
  | .market, _ => False

variable {o : Order} {t : Ticker}

theorem crossing_isSome_iff : (o.crossing t).isSome = true ↔ o.Crossed t := by
  obtain ⟨id, symbol, kind, side, amount, price, executed, cancelled⟩ := o
  cases kind <;> cases side <;> simp [crossing, Crossed, apply_ite]

theorem crossing_eq_none_iff : o.crossing t = none ↔ ¬ o.Crossed t := by
  rw [← crossing_isSome_iff, Option.not_isSome_iff_eq_none]

@[simp] theorem filledUp_symbol : o.filledUp.symbol = o.symbol := rfl

@[simp] theorem filledUp_crossed : o.filledUp.Crossed t ↔ o.Crossed t := Iff.rfl

theorem Kept.filledUp_isOpen (h : o.Kept) (ho : o.isOpen = true) : o.filledUp.isOpen = false := by
  simp [isOpen, (h.filledUp ho).2]

end Order

namespace Market

variable {m m0 : Market}

/-- What a call that matches the orders of `key` leaves: no open order of `key` crossed by its
quote; every order it filled of `key` and crossed by that quote; the books moved by those fills,
limits at their own price and stops at the touch; and the orders of other symbols untouched. -/
structure MatchesOn (m m' : Market) (key : String) : Prop where
  uncrossed : ∀ o ∈ m'.orders, o.symbol = key → o.isOpen = true → ¬ o.Crossed (m'.quote key).1
  filled_crossed : ∀ o ∈ m.filledBy m', o.symbol = key ∧ o.Crossed (m'.quote key).1
  books : m'.books = (m.filledBy m').foldl
    (fun b o => b.post m.venue o (o.fillPrice (m'.quote key).1)) m.books
  others : ∀ o ∈ m.orders, o.symbol ≠ key → m'.find? o.id = some o

/-- What a call that fills nothing leaves: no order newly filled, and the books as they were. -/
structure FillsNothing (m m' : Market) : Prop where
  none_filled : m.filledBy m' = []
  books : m'.books = m.books

theorem firing_isSome {o : Order} {key : String} (h : (firing t key o).isSome = true) :
    o.isOpen = true ∧ o.symbol = key ∧ o.Crossed t := by
  unfold firing at h
  split at h
  · rename_i ho
    simp only [Bool.and_eq_true, beq_iff_eq] at ho
    exact ⟨ho.1, ho.2, Order.crossing_isSome_iff.1 h⟩
  · simp at h

theorem firing_eq_none {o : Order} {key : String} (h : o.symbol ≠ key) : firing t key o = none := by
  simp [firing, h]

theorem matchesOn_matchSymbol (hm : m.Sound) (key : String) (hp : Prepares m m0)
    (hsub : ∀ o ∈ m.orders, o ∈ m0.orders) : MatchesOn m (m0.matchSymbol key) key := by
  rw [matchSymbol_eq]
  have hp1 : Prepares m (m0.quote key).2 := hp.quote key
  have hs := Selects.matching m0 key
  have hm1 := hp1.sound hm
  have heq := settleBy_eq hm1.nodup (hs.executed hm1)
  -- settling leaves the quotes, so the quote of `key` is the one matched against
  have hq : (((m0.quote key).2.settleBy (firing (m0.quote key).1 key)).quote key).1 =
      (m0.quote key).1 :=
    (quote_fst_congr (by rw [heq]; rfl) (by rw [heq]; rfl) (by rw [heq]; rfl) key).trans
      (quote_quote m0 key)
  have hfilled := filledBy_settleBy hm hp1 hs
  refine ⟨fun o ho hsym hopen => ?_, fun o ho => ?_, ?_, fun o ho hne => ?_⟩
  · rw [hq]
    rw [heq] at ho
    obtain ⟨x, hx, rfl⟩ := List.mem_map.1 ho
    by_cases hf : (firing (m0.quote key).1 key x).isSome = true
    · -- a settled order is filled up, so no longer open
      rw [if_pos hf] at hopen
      rw [(hm1.kept x hx).filledUp_isOpen (hs.resting x hx hf)] at hopen
      cases hopen
    · rw [if_neg hf] at hopen hsym ⊢
      rw [← Order.crossing_eq_none_iff]
      simpa [firing, hopen, hsym] using hf
  · rw [hfilled] at ho
    obtain ⟨x, hx, rfl⟩ := List.mem_map.1 ho
    obtain ⟨-, hsym, hc⟩ := firing_isSome (List.mem_filter.1 hx).2
    rw [hq]
    exact ⟨hsym, hc⟩
  · rw [books_settleBy hm hp1 hs]
    refine List.foldl_ext _ _ _ fun b o ho => ?_
    rw [hfilled] at ho
    obtain ⟨x, hx, rfl⟩ := List.mem_map.1 ho
    rw [Order.filledUp_symbol, (firing_isSome (List.mem_filter.1 hx).2).2.1]
  · -- an order of another symbol is not fired, so it stays as it was
    obtain ⟨qs, hqs⟩ := quote_snd m0 key
    have hx : o ∈ (m0.quote key).2.orders := by rw [hqs]; exact hsub o ho
    have hmem : o ∈ ((m0.quote key).2.settleBy (firing (m0.quote key).1 key)).orders := by
      rw [heq]
      exact List.mem_map.2 ⟨o, hx, by simp [firing_eq_none hne]⟩
    exact (hs.sound hm1).find? hmem

theorem fillsNothing_of_prepares (hm : m.Sound) (hp : Prepares m m0) : FillsNothing m m0 := by
  refine ⟨?_, hp.books⟩
  rw [← settleBy_none m0, filledBy_settleBy hm hp Selects.none]
  simp

/-- What matching guarantees on a market: the calls that match a symbol match on it, and the calls
that do not fill nothing. -/
structure Matching (m : Market) : Prop where
  setPrice : ∀ symbol bid ask?, MatchesOn m (m.setPrice symbol bid ask?) (Text.upper symbol)
  placeLimit : ∀ symbol amount price side, 0.0 < amount →
    MatchesOn m (m.placeLimit symbol amount price side).2 (Text.upper symbol)
  lookAt : ∀ o ∈ m.orders, MatchesOn m (m.lookAt o.id).2 o.symbol
  placeStop : ∀ symbol amount price side, 0.0 < amount →
    FillsNothing m (m.placeStop symbol amount price side).2
  cancel : ∀ ids, FillsNothing m (m.cancel ids)
  quote : ∀ symbol, FillsNothing m (m.quote symbol).2
  gate : ∀ now, m.closed = false → FillsNothing m { m with limiter := (m.limiter.reserve now).2 }

/-- On every reachable market, moving a quote, placing a limit order and looking at an order fill
exactly the open orders of the symbol that its quote crosses, each at its fill price, and touch no
other symbol; placing a stop order, cancelling, quoting and the gate of a reading call fill
nothing. -/
theorem Reachable.matching_guarantees (hm : m.Reachable) : m.Matching := by
  have hs := hm.sound
  refine ⟨fun symbol bid ask? => ?_, fun symbol amount price side h => ?_, fun o ho => ?_,
    fun symbol amount price side h => ?_, fun ids => ?_, fun symbol => ?_, fun now h => ?_⟩
  · simp only [setPrice]
    exact matchesOn_matchSymbol hs _ ((Prepares.rfl (m := m)).quotes _) fun _ ho => ho
  · exact matchesOn_matchSymbol hs _ ((Prepares.rfl (m := m)).add _ _ _ price h)
      fun _ ho => by simp [ho]
  · have hf := hs.find? ho
    have hlook : (m.lookAt o.id).2 = m.matchSymbol o.symbol := by simp [lookAt, hf]
    rw [hlook]
    exact matchesOn_matchSymbol hs _ Prepares.rfl fun _ ho => ho
  · exact fillsNothing_of_prepares hs ((Prepares.rfl (m := m)).add _ _ _ price h)
  · exact fillsNothing_of_prepares hs (Prepares.cancel ids)
  · exact fillsNothing_of_prepares hs ((Prepares.rfl (m := m)).quote symbol)
  · exact fillsNothing_of_prepares hs (Prepares.reserve h _)

theorem resting_buy_matching :
    (contractsDefault.placeLimit "BTCUSD" 1.0 900.0 .buy).2.Reachable ∧
      (contractsDefault.placeLimit "BTCUSD" 1.0 900.0 .buy).2.Matching :=
  have h : (contractsDefault.placeLimit "BTCUSD" 1.0 900.0 .buy).2.Reachable :=
    .call (@Reachable.contracts [] _ rfl) (.limitOrder "BTCUSD" 900.0 .buy (by decide))
  ⟨h, Reachable.matching_guarantees h⟩

/-- A limit buy for a NaN amount at 500, then the bid moved to 400: the ask 400.5 crosses the
order, and it is still open. -/
theorem nan_limit_stays_crossed :
    let m := (contractsDefault.placeLimit "BTCUSD" (0.0 / 0.0) 500.0 .buy).2.setPrice "BTCUSD" 400.0 none
    ∃ o ∈ m.orders, o.symbol = "BTCUSD" ∧ o.isOpen = true ∧ o.Crossed (m.quote "BTCUSD").1 := by
  intro m
  have h : (m.orders.any fun o =>
      o.symbol == "BTCUSD" && o.isOpen && (o.crossing (m.quote "BTCUSD").1).isSome) = true := by
    decide +kernel
  obtain ⟨o, hmem, hsel⟩ := List.any_eq_true.1 h
  simp only [Bool.and_eq_true, beq_iff_eq] at hsel
  exact ⟨o, hmem, hsel.1.1, hsel.1.2, Order.crossing_isSome_iff.1 hsel.2⟩

end Market

end Paper

end TradeDesk
