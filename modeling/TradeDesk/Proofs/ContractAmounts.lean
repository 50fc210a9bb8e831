import TradeDesk.Proofs.Refusals
import TradeDesk.Proofs.NameLookup

/-!
Amounts on a contracts exchange drop their units unchecked, so every order command runs alike for
any two amount texts that read as the same number (`order_commands_read_amount_number`).
-/

namespace TradeDesk

open Handler Act

/-! ### Jobs that finish where they start -/

/-- A job that finishes at once, in the world it started in. -/
structure Act.Instant {α : Type} (a : Act α) : Prop where
  at_once : ∀ w, ∃ r, a w = .done w r

namespace Act.Instant

variable {α β : Type}

theorem lift (r : Except Fault α) : (Act.lift r).Instant := ⟨fun _ => ⟨r, rfl⟩⟩

theorem bind_congr {a : Act α} (ha : a.Instant) {k k' : α → Act β} {w : World}
    (hk : ∀ x, k x w = k' x w) : (a >>= k) w = (a >>= k') w := by
  obtain ⟨r, hr⟩ := ha.at_once w
  show (a w).bind k = (a w).bind k'
  rw [hr]
  cases r with
  | ok x => exact hk x
  | error e => rfl

end Act.Instant

theorem Act.bind_congr_left {α β : Type} {a a' : Act α} {w : World} (h : a w = a' w)
    (k : α → Act β) : (a >>= k) w = (a' >>= k) w := by
  show (a w).bind k = (a' w).bind k
  rw [h]

theorem Act.throw_bind_congr {α β : Type} (e : Fault) (k k' : α → Act β) (w : World) :
    (MonadExcept.throw e >>= k) w = (MonadExcept.throw e >>= k') w := rfl

theorem Act.map_congr {α β : Type} (f : α → β) {a a' : Act α} {w : World} (h : a w = a' w) :
    (f <$> a) w = (f <$> a') w :=
  Act.bind_congr_left h _

/-! ### Reading the amount -/

namespace Params

@[simp] theorem get_set_self (p : Params) (key value : String) :
    Params.get (Assoc.set p key value) key = value := by
  simp [get, Assoc.find?_set]

theorem get_set_of_ne (p : Params) {key k : String} (value : String) (h : k ≠ key) :
    Params.get (Assoc.set p key value) k = p.get k := by
  simp [get, Assoc.find?_set, h]

end Params

/-- Without a target position, a desk that trades contracts takes the side given and the number
the amount reads as, without its units, and changes nothing. -/
theorem positionToAmount_blank_contracts {i : Nat} {w : World}
    (hw : (w.desks.getD i default).tradesContracts = true) {target : String}
    (ht : Text.trim target = "") (symbol : String) (side : Side) (amount : String) :
    positionToAmount i symbol target side amount w =
      .done w (.ok (side, ⟨(Quantity.read amount).value, ""⟩)) := by
  rw [positionToAmount, Act.desk_bind]
  simp only [ht, hw, beq_self_eq_true, if_true]
  rfl

theorem positionToAmount_bind_number {β : Type} {i : Nat} {w : World}
    (hw : (w.desks.getD i default).tradesContracts = true) {target : String}
    (ht : Text.trim target = "") (symbol : String) (side : Side) {a a' : String}
    (hv : (Quantity.read a).value = (Quantity.read a').value) (k : Side × Quantity → Act β) :
    (positionToAmount i symbol target side a >>= k) w =
      (positionToAmount i symbol target side a' >>= k) w := by
  show (positionToAmount i symbol target side a w).bind k =
    (positionToAmount i symbol target side a' w).bind k
  rw [positionToAmount_blank_contracts hw ht, positionToAmount_blank_contracts hw ht, hv]

/-! ### The order commands -/

section Commands

variable {c : Scope} {p : Params} {a : String} {w : World}
  (hw : (w.desks.getD c.desk default).tradesContracts = true)
  (hpos : Text.trim (p.get "position") = "")
  (hv : (Quantity.read a).value = (Quantity.read (p.get "amount")).value)
include hw hpos hv

theorem prepare_amount_number (offset : String) (fromOpposite : Bool) :
    prepare c (Assoc.set p "amount" a) offset fromOpposite w = prepare c p offset fromOpposite w := by
  unfold prepare
  simp (disch := decide) only [Params.get_set_self, Params.get_set_of_ne]
  exact Instant.bind_congr (Instant.lift _) fun side =>
    positionToAmount_bind_number hw hpos c.symbol side hv _

theorem limitOrder_amount_number :
    limitOrder c (Assoc.set p "amount" a) w = limitOrder c p w := by
  unfold limitOrder
  simp (disch := decide) only [Params.get_set_of_ne]
  exact Act.bind_congr_left (prepare_amount_number hw hpos hv _ _) _

theorem marketOrder_amount_number :
    marketOrder c (Assoc.set p "amount" a) w = marketOrder c p w := by
  unfold marketOrder
  simp (disch := decide) only [Params.get_set_of_ne]
  exact Act.bind_congr_left (prepare_amount_number hw hpos hv _ _) _

theorem stopMarketOrder_amount_number :
    stopMarketOrder c (Assoc.set p "amount" a) w = stopMarketOrder c p w := by
  unfold stopMarketOrder
  simp (disch := decide) only [Params.get_set_of_ne]
  -- an unknown trigger is refused before the amount is read
  split
  · exact Act.bind_congr_left (prepare_amount_number hw hpos hv _ _) _
  · exact Act.throw_bind_congr _ _ _ w

theorem placeScaled_amount_number :
    placeScaled c (Assoc.set p "amount" a) w = placeScaled c p w := by
  unfold placeScaled
  simp (disch := decide) only [Params.get_set_self, Params.get_set_of_ne]
  apply Instant.bind_congr (Instant.lift _)
  intro count
  apply Instant.bind_congr (Instant.lift _)
  intro side
  exact positionToAmount_bind_number hw hpos c.symbol side hv _

theorem twapOrder_amount_number :
    twapOrder c (Assoc.set p "amount" a) w = twapOrder c p w := by
  unfold twapOrder
  simp (disch := decide) only [Params.get_set_self, Params.get_set_of_ne]
  apply Instant.bind_congr (Instant.lift _)
  intro count
  apply Instant.bind_congr (Instant.lift _)
  intro duration
  -- a duration too long for its slices is refused before the amount is read
  split
  · exact Act.throw_bind_congr _ _ _ w
  · apply Instant.bind_congr (Instant.lift _)
    intro gap
    apply Instant.bind_congr (Instant.lift _)
    intro side
    exact positionToAmount_bind_number hw hpos c.symbol side hv _

end Commands

def orderCommands : List Command :=
  [.limitOrder, .marketOrder, .stopMarketOrder, .scaledOrder, .twapOrder]

/-- On a desk that trades contracts, an order command without a target position runs alike,
through every sleep and to its end, whatever amount text it is given that reads as the same
number: the units of the amount, `%` or a currency, are dropped and never refused. -/
theorem order_commands_read_amount_number (run : String → List Argument → Act Reply) (c : Scope)
    {cmd : Command} (hcmd : cmd ∈ orderCommands) {p : Params} {a : String} {w : World}
    (hw : (w.desks.getD c.desk default).tradesContracts = true)
    (hpos : Text.trim (p.get "position") = "")
    (hv : (Quantity.read a).value = (Quantity.read (p.get "amount")).value) :
    perform run c cmd (Assoc.set p "amount" a) w = perform run c cmd p w := by
  simp only [orderCommands, List.mem_cons, List.not_mem_nil, or_false] at hcmd
  rcases hcmd with rfl | rfl | rfl | rfl | rfl
  · exact Act.map_congr _ (limitOrder_amount_number hw hpos hv)
  · exact Act.map_congr _ (marketOrder_amount_number hw hpos hv)
  · exact Act.map_congr _ (stopMarketOrder_amount_number hw hpos hv)
  · exact Act.map_congr _ (placeScaled_amount_number hw hpos hv)
  · exact Act.map_congr _ (twapOrder_amount_number hw hpos hv)

def contractsWorld : World :=
  { desks := #[Desk.assemble "paperperp" [] Paper.Market.contractsDefault default 1.0 {}] }

theorem limit_percent_reads_as_number :
    Command.limitOrder ∈ orderCommands ∧
      (contractsWorld.desks.getD 0 default).tradesContracts = true ∧
      Text.trim (Params.get (Params.assign (limitDefaults "t")
        [⟨"", "buy", 0⟩, ⟨"amount", "5", 1⟩]) "position") = "" ∧
      (Quantity.read "5%").value = (Quantity.read (Params.get (Params.assign (limitDefaults "t")
        [⟨"", "buy", 0⟩, ⟨"amount", "5", 1⟩]) "amount")).value ∧
      perform (fun _ _ => pure .nothing) ⟨0, "BTCUSD", "s1"⟩ .limitOrder
          (Assoc.set (Params.assign (limitDefaults "t") [⟨"", "buy", 0⟩, ⟨"amount", "5", 1⟩])
            "amount" "5%") contractsWorld =
        perform (fun _ _ => pure .nothing) ⟨0, "BTCUSD", "s1"⟩ .limitOrder
          (Params.assign (limitDefaults "t") [⟨"", "buy", 0⟩, ⟨"amount", "5", 1⟩]) contractsWorld :=
  have hw : (contractsWorld.desks.getD 0 default).tradesContracts = true := rfl
  have hpos : Text.trim (Params.get (Params.assign (limitDefaults "t")
      [⟨"", "buy", 0⟩, ⟨"amount", "5", 1⟩]) "position") = "" := by decide +kernel
  have hv : (Quantity.read "5%").value = (Quantity.read (Params.get (Params.assign
      (limitDefaults "t") [⟨"", "buy", 0⟩, ⟨"amount", "5", 1⟩]) "amount")).value := rfl
  ⟨by decide, hw, hpos, hv, order_commands_read_amount_number _ _ (by decide) hw hpos hv⟩

/-- So `limitOrder(buy, amount=5%)` on the default contracts desk is not refused for its units:
it places an order for five contracts. -/
theorem percent_amount_places_contracts :
    ∃ s o, limitOrder ⟨0, "BTCUSD", "s1"⟩
        (Params.assign (limitDefaults "t") [⟨"", "buy", 0⟩, ⟨"amount", "5%", 1⟩]) contractsWorld =
      .done s (.ok o) ∧ o.order = some "paper-1" ∧ (o.amount == 5.0) = true := by
  obtain ⟨s, r, heq, key⟩ := Step.eq_done_of_doneWith
    (show (limitOrder ⟨0, "BTCUSD", "s1"⟩
        (Params.assign (limitDefaults "t") [⟨"", "buy", 0⟩, ⟨"amount", "5%", 1⟩]) contractsWorld).doneWith
        (fun _ r => r.toOption.any fun o => o.order == some "paper-1" && o.amount == 5.0) = true by
      decide +kernel)
  cases r with
  | error e => simp [Except.toOption] at key
  | ok o =>
    simp only [Except.toOption, Option.any_some, Bool.and_eq_true, beq_iff_eq] at key
    exact ⟨s, o, heq, key.1, key.2⟩

end TradeDesk
