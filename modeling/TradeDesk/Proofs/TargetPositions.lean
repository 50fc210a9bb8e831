import TradeDesk.Proofs.Delivering
import TradeDesk.Proofs.WholeDecimals

/-!
Market orders for a target position on contracts land on the target while every number is a
whole float (`Handler.marketOrder_reaches_target`).
-/

namespace TradeDesk

theorem Paper.Market.foldl_positions (m : Paper.Market)
    (hu : ∀ k ∈ Assoc.keys m.held, Text.upper k = k) (hn : (Assoc.keys m.held).Nodup)
    (key : String) (acc : Float) :
    m.positions.foldl (fun h p => if Text.upper p.instrument == key then p.size else h) acc =
      match Assoc.find? m.held key with
      | some x => if x != 0.0 then x else acc
      | none => acc := by
  unfold Paper.Market.positions
  generalize m.held = l at hu hn ⊢
  induction l generalizing acc with
  | nil => rfl
  | cons e l ih =>
    obtain ⟨k, x⟩ := e
    simp only [Assoc.keys, List.map_cons, List.nodup_cons, List.mem_cons, forall_eq_or_imp] at hu hn
    have hrest := fun acc => ih acc hu.2 hn.2
    simp only [Assoc.find?, List.lookup_cons, List.filter_cons]
    by_cases hk : k = key
    · -- the key is not held again further on, so what comes after leaves the value read here
      subst hk
      have hnone : Assoc.find? l k = none := by
        refine List.lookup_eq_none_iff.2 fun p hp => bne_iff_ne.2 fun h => hn.1 ?_
        exact h ▸ List.mem_map_of_mem hp
      by_cases hx : (x != 0.0) = true
      · rw [if_pos hx, List.map_cons, List.foldl_cons, hrest, hnone]
        simp [hu.1, hx]
      · rw [if_neg hx, hrest, hnone]
        simp [hx]
    · have hne : (key == k) = false := by simpa using Ne.symm hk
      by_cases hx : (x != 0.0) = true
      · rw [if_pos hx, List.map_cons, List.foldl_cons, hrest]
        simp [hu.1, hk, hne, Assoc.find?]
      · rw [if_neg hx, hrest]
        simp [hne, Assoc.find?]

/-- A contracts desk, open for calls, holding the whole number `h` of contracts of `symbol`, within
`2^53`: its held positions are kept under distinct upper-case names, and the one of `symbol` is `h`
(a missing one counting as zero). -/
structure Desk.HoldsWhole (d : Desk) (symbol : String) (h : Int) : Prop where
  contracts : d.tradesContracts = true
  opened : d.market.closed = false
  upper : ∀ k ∈ Assoc.keys d.market.held, Text.upper k = k
  distinct : (Assoc.keys d.market.held).Nodup
  held : (Assoc.find? d.market.held (Text.upper symbol)).getD 0.0 = Act.ofWhole h
  bound : h.natAbs < 2 ^ 53

theorem Desk.HoldsWhole.heldSize {d : Desk} {symbol : String} {h : Int}
    (hd : d.HoldsWhole symbol h) :
    d.market.positions.foldl
      (fun x p => if Text.upper p.instrument == Text.upper symbol then p.size else x) 0.0 =
      Act.ofWhole h := by
  rw [Paper.Market.foldl_positions _ hd.upper hd.distinct]
  have hh := hd.held
  cases hf : Assoc.find? d.market.held (Text.upper symbol) with
  | none =>
    rw [hf, Option.getD_none] at hh
    exact hh
  | some x =>
    rw [hf, Option.getD_some] at hh
    subst hh
    dsimp only
    by_cases hz : (Act.ofWhole h != 0.0) = true
    · rw [if_pos hz]
    · -- a zero position is not listed, and reads as the zero it is
      have h0 : h = 0 := by
        simpa [bne, Act.ofWhole_beq_zero hd.bound.le] using hz
      subst h0
      rw [if_neg hz]
      decide +kernel

def Desk.PricesToCents (d : Desk) (symbol session : String) : Prop :=
  ∀ t, d.Quotable symbol session t → ∀ side,
    ∃ p, Amount.roundDown (t.moved side (Quantity.read "0")) 2 = .ok p

theorem Act.ofWhole_add_signed {h whole : Int} (hh : h.natAbs ≤ 2 ^ 53)
    (hw : whole.natAbs ≤ 2 ^ 53) (hgap : (whole - h).natAbs ≤ 2 ^ 53) (hne : whole ≠ h) :
    Act.ofWhole h + (match (if whole < h then Side.sell else Side.buy) with
      | .buy => Act.ofWhole (whole - h).natAbs
      | .sell => -Act.ofWhole (whole - h).natAbs) = Act.ofWhole whole := by
  have hsigned : (match (if whole < h then Side.sell else Side.buy) with
      | .buy => Act.ofWhole (whole - h).natAbs
      | .sell => -Act.ofWhole (whole - h).natAbs) = Act.ofWhole (whole - h) := by
    by_cases hlt : whole < h
    · rw [if_pos hlt, Act.neg_ofWhole (by omega) (by rw [Int.natAbs_natCast]; exact hgap),
        show -((whole - h).natAbs : Int) = whole - h by omega]
    · rw [if_neg hlt, show ((whole - h).natAbs : Int) = whole - h by omega]
  have hsum : h + (whole - h) = whole := by omega
  rw [hsigned, Act.ofWhole_add hh hgap (by rw [hsum]; exact hw), hsum]

namespace Act

variable {i : Nat} {d₀ : Desk}

theorem positionToAmount_delivers {symbol target : String} {h whole : Int} {goal : Float}
    (hd : d₀.HoldsWhole symbol h) (hgoal : Amount.target? target = some goal)
    (hwhole : Amount.wholePart goal = .ok (some whole)) (hw : whole.natAbs < 2 ^ 53)
    (hgap : (whole - h).natAbs ≤ 2 ^ 53) (side : Side) (amount : String) :
    Delivers i (Desk.Gated d₀) (positionToAmount i symbol target side amount) fun r d =>
      r = (if whole < h then .sell else .buy, ⟨ofWhole (whole - h).natAbs, ""⟩) ∧
        Desk.Gated d₀ d := by
  have htrim : ¬ (Text.trim target == "") = true := by
    intro ht
    rw [beq_iff_eq] at ht
    rw [Amount.target?, ht, show Literal.read? "" = none by decide +kernel] at hgoal
    cases hgoal
  have hchange : Amount.roundDown (ofWhole whole - ofWhole h) 0 = .ok (ofWhole (whole - h)) := by
    rw [ofWhole_sub hw.le hd.bound.le hgap, roundDown_ofWhole hgap]
  unfold positionToAmount
  refine Delivers.desk_bind fun d hg => ?_
  have hcd : d.tradesContracts = true := by
    obtain ⟨_, rfl⟩ := hg
    exact hd.contracts
  rw [if_neg htrim, hgoal]
  dsimp only
  rw [if_pos hcd]
  refine Delivers.bind ((positions_delivers hd.opened).weaken fun _ hx => hx ▸ hg) fun ps =>
    Delivers.given (fun _ hx => hx.1) fun hps => ?_
  subst hps
  refine Delivers.lift_bind hwhole ?_
  rw [Option.getD_some, hd.heldSize]
  refine Delivers.lift_bind hchange (Delivers.pure fun _ hx => ⟨?_, hx.2⟩)
  simp only [ofWhole_lt_zero hgap, abs_ofWhole hgap, sub_neg]

end Act

namespace Handler

open Act

variable {d₀ : Desk} {c : Scope} {p : Params} {h whole : Int} {goal : Float} {side : Side}

theorem prepare_delivers (hd : d₀.HoldsWhole c.symbol h)
    (hq : d₀.PricesToCents c.symbol c.session)
    (hside : Side.read (p.get "side") = .ok side)
    (hgoal : Amount.target? (p.get "position") = some goal)
    (hwhole : Amount.wholePart goal = .ok (some whole)) (hw : whole.natAbs < 2 ^ 53)
    (hgap : (whole - h).natAbs ≤ 2 ^ 53) :
    Delivers c.desk (Desk.Gated d₀) (prepare c p "0" false) fun o d =>
      o.map (fun x => (x.side, x.size)) =
        (if whole ≠ h ∧ ¬ ofWhole (whole - h).natAbs < d₀.minOrderSize then
          some (if whole < h then .sell else .buy, ofWhole (whole - h).natAbs) else none) ∧
        d.record = d₀.record := by
  have hb : ((whole - h).natAbs : Int).natAbs ≤ 2 ^ 53 := by rw [Int.natAbs_natCast]; exact hgap
  unfold prepare
  refine Delivers.lift_bind hside ?_
  refine Delivers.bind (positionToAmount_delivers hd hgoal hwhole hw hgap side _) fun r =>
    Delivers.given (fun _ hx => hx.1) fun hr => ?_
  subst hr
  dsimp only
  by_cases hz : whole = h
  · -- the target is held already
    have hzero : (ofWhole (whole - h).natAbs == 0.0) = true := by
      rw [ofWhole_beq_zero hb]
      simp [hz]
    simp only [hzero, if_true]
    exact Delivers.pure fun _ hx => ⟨by simp [hz], hx.2.record⟩
  · have hzero : (ofWhole (whole - h).natAbs == 0.0) = false := by
      rw [ofWhole_beq_zero hb]
      simp only [decide_eq_false_iff_not]
      omega
    simp only [hzero, Bool.false_eq_true, if_false]
    refine Delivers.bind ((absolutePrice_delivers hd.opened fun t ht => hq t ht _).weaken
      fun _ hx => hx.2) fun price => ?_
    refine Delivers.bind (orderSizeFor_delivers hd.contracts rfl (roundDown_ofWhole hb)) fun o =>
      Delivers.given (fun _ hx => hx.1) fun ho => ?_
    by_cases hmin : ofWhole (whole - h).natAbs < d₀.minOrderSize
    · have hzero' : ((0.0 : Float) == 0.0) = true := by decide +kernel
      simp only [ho, hmin, if_true, hzero']
      exact Delivers.pure fun _ hx => ⟨by simp, hx.2⟩
    · simp only [ho, hmin, if_false, hzero, Bool.false_eq_true]
      exact Delivers.pure fun _ hx => ⟨by simp [hz], hx.2⟩

/-- A market order for a target position on a contracts desk that holds a whole number `h`, with
every quote the desk can read pricing to cents: where the change is not zero and not below the
least order, it places an order for the change on the side toward the target, and the position of
the symbol becomes exactly the whole part of the target, every other position staying as it was;
otherwise it places nothing and the desk's records stand as they were. -/
theorem marketOrder_reaches_target (hd : d₀.HoldsWhole c.symbol h)
    (hq : d₀.PricesToCents c.symbol c.session) (hside : Side.read (p.get "side") = .ok side)
    (hgoal : Amount.target? (p.get "position") = some goal)
    (hwhole : Amount.wholePart goal = .ok (some whole)) (hw : whole.natAbs < 2 ^ 53)
    (hgap : (whole - h).natAbs ≤ 2 ^ 53) :
    Delivers c.desk (· = d₀) (marketOrder c p) fun o d =>
      if whole ≠ h ∧ ¬ ofWhole (whole - h).natAbs < d₀.minOrderSize then
        o.order.isSome ∧ o.side = (if whole < h then .sell else .buy) ∧
          o.amount = ofWhole (whole - h).natAbs ∧
          d.market.held = Assoc.set d₀.market.held (Text.upper c.symbol) (ofWhole whole)
      else o.order = none ∧ d.record = d₀.record := by
  unfold marketOrder
  refine Delivers.bind ((prepare_delivers hd hq hside hgoal hwhole hw hgap).weaken
    fun _ hx => hx ▸ Desk.Gated.refl _) fun o => Delivers.given (fun _ hx => hx.1) fun ho => ?_
  cases o with
  | none =>
    have hnot : ¬ (whole ≠ h ∧ ¬ ofWhole (whole - h).natAbs < d₀.minOrderSize) := fun hc => by
      rw [if_pos hc] at ho
      cases ho
    refine Delivers.lift_bind hside (Delivers.pure fun _ hx => ?_)
    rw [if_neg hnot]
    exact ⟨rfl, hx.2⟩
  | some x =>
    have hc : whole ≠ h ∧ ¬ ofWhole (whole - h).natAbs < d₀.minOrderSize := by
      by_contra hc
      rw [if_neg hc] at ho
      cases ho
    rw [if_pos hc] at ho
    obtain ⟨hs, hz⟩ := Prod.mk.inj (Option.some.inj ho)
    refine Delivers.bind ((placeMarket_delivers hd.opened hd.contracts _ _ _).weaken
      fun _ hx => hx.2) fun _ => Delivers.pure fun _ hheld => ?_
    rw [if_pos hc]
    refine ⟨rfl, hs, hz, ?_⟩
    rw [hheld, hd.held, hs, hz]
    exact congrArg _ (ofWhole_add_signed hd.bound.le hw.le hgap hc.1)

def shortTwoDesk : Desk :=
  Desk.assemble "paperperp" [] { Paper.Market.contractsDefault with held := [("BTCUSD", -2.0)] }
    default 1.0 {}

theorem exists_ok_of_toBool {α : Type} {r : Except Fault α} (h : r.toBool = true) :
    ∃ x, r = .ok x := by
  cases r with
  | ok x => exact ⟨x, rfl⟩
  | error e => cases h

theorem short_two_reaches_five :
    shortTwoDesk.HoldsWhole "BTCUSD" (-2) ∧ shortTwoDesk.PricesToCents "BTCUSD" "s1" ∧
      Delivers 0 (· = shortTwoDesk)
        (marketOrder ⟨0, "BTCUSD", "s1"⟩ (Params.assign marketDefaults
          [⟨"", "buy", 0⟩, ⟨"position", "5", 1⟩])) fun o d =>
        o.order.isSome ∧ o.side = .buy ∧ o.amount = ofWhole 7 ∧
          d.market.held = [("BTCUSD", ofWhole 5)] := by
  have hd : shortTwoDesk.HoldsWhole "BTCUSD" (-2) :=
    ⟨rfl, rfl, by decide +kernel, by decide +kernel, by decide +kernel, by decide⟩
  have hq : shortTwoDesk.PricesToCents "BTCUSD" "s1" := by
    intro t ht side
    rcases ht with ⟨e, he⟩ | rfl
    · cases he
    · cases side <;> exact exists_ok_of_toBool (by decide +kernel)
  have hside : Side.read ((Params.assign marketDefaults
      [⟨"", "buy", 0⟩, ⟨"position", "5", 1⟩]).get "side") = .ok .buy := by decide +kernel
  have hgoal : Amount.target? ((Params.assign marketDefaults
      [⟨"", "buy", 0⟩, ⟨"position", "5", 1⟩]).get "position") = some 5.0 := by decide +kernel
  have hwhole : Amount.wholePart 5.0 = .ok (some 5) := by decide +kernel
  have hreach := marketOrder_reaches_target (c := ⟨0, "BTCUSD", "s1"⟩) hd hq hside hgoal hwhole
    (by decide) (by decide)
  refine ⟨hd, hq, Delivers.conseq hreach (fun _ hx => hx) fun o d hx => ?_⟩
  have hc : (5 : Int) ≠ -2 ∧ ¬ ofWhole ((5 : Int) - -2).natAbs < shortTwoDesk.minOrderSize := by
    decide +kernel
  rw [if_pos hc] at hx
  obtain ⟨hs, hside, hamount, hheld⟩ := hx
  refine ⟨hs, by rw [hside]; decide, by rw [hamount]; rfl, by rw [hheld]; decide +kernel⟩

/-- Two ways a target position is missed. Short two contracts, a target of `2^53 - 1` is a change
of `2^53 + 1`, which a float rounds to `2^53`: the position lands on `2^53 - 2`. And on an exchange
whose default price is `1e30` the price cannot be rounded to cents within the decimal context, so
the order fails. -/
theorem target_position_misses :
    (∃ s o, marketOrder ⟨0, "BTCUSD", "s1"⟩ (Params.assign marketDefaults
        [⟨"", "buy", 0⟩, ⟨"position", "9007199254740991", 1⟩]) { desks := #[shortTwoDesk] } =
      .done s (.ok o) ∧
        (s.desks.getD 0 default).market.held = [("BTCUSD", ofWhole 9007199254740990)]) ∧
    ∃ s, marketOrder ⟨0, "BTCUSD", "s1"⟩ (Params.assign marketDefaults
        [⟨"", "buy", 0⟩, ⟨"position", "5", 1⟩])
        { desks := #[Desk.assemble "paperperp" []
          { Paper.Market.contractsDefault with defaultPrice := 1e30 } default 1.0 {}] } =
      .done s (.error .invalidDecimal) := by
  constructor
  · have key : (match marketOrder ⟨0, "BTCUSD", "s1"⟩ (Params.assign marketDefaults
        [⟨"", "buy", 0⟩, ⟨"position", "9007199254740991", 1⟩]) { desks := #[shortTwoDesk] } with
        | .done s (.ok _) => decide ((s.desks.getD 0 default).market.held =
            [("BTCUSD", ofWhole 9007199254740990)])
        | _ => false) = true := by decide +kernel
    split at key
    · next s o heq => exact ⟨s, o, heq, of_decide_eq_true key⟩
    · cases key
  · have key : (match marketOrder ⟨0, "BTCUSD", "s1"⟩ (Params.assign marketDefaults
        [⟨"", "buy", 0⟩, ⟨"position", "5", 1⟩])
        { desks := #[Desk.assemble "paperperp" []
          { Paper.Market.contractsDefault with defaultPrice := 1e30 } default 1.0 {}] } with
        | .done _ (.error .invalidDecimal) => true
        | _ => false) = true := by decide +kernel
    split at key
    · next s heq => exact ⟨s, heq⟩
    · cases key

end Handler

end TradeDesk
