import TradeDesk.Proofs.LimitOrders
import TradeDesk.Proofs.PaperLedger
import TradeDesk.Proofs.Standing

/-!
What an iceberg order answers. Run with a ghost log of the child reports it counts, each run
answers the total less those reports' executions (`icebergOrder_accounts`); a child can still
outgrow what is left (`iceberg_child_outgrows_remaining`).
-/

namespace TradeDesk

open Handler Act

namespace Handler

def leftAfter (left : Float) (reports : List Paper.Order) : Float :=
  reports.foldl (fun left o => left - o.executed) left

@[simp] theorem leftAfter_nil (left : Float) : leftAfter left [] = left := rfl

@[simp] theorem leftAfter_append (left : Float) (xs ys : List Paper.Order) :
    leftAfter left (xs ++ ys) = leftAfter (leftAfter left xs) ys :=
  List.foldl_append

/-- A report an iceberg order counts: its child found filled, or still resting when the price
passed its stop. -/
def Counted (o : Paper.Order) : Prop := o.isFilled ∨ o.isOpen

/-- An iceberg loop with a ghost beside it: the reports of the children whose executions it took
off what is left, in order. -/
def icebergLoopLog (c : Scope) (id : String) (plan : IcebergPlan) :
    Nat → Iceberg → Act (Float × List Paper.Order)
  | 0, _ => throw .pollsExhausted
  | fuel + 1, s => do
    if !(s.remaining > (← desk c.desk).minOrderSize) then return (s.remaining, [])
    match ← icebergTurn c id plan s with
    | none => return (s.remaining, [])
    | some (s', report) =>
      let (delay, backoff) := s'.backoff.idle
      sleep delay
      (fun r => (r.1, report.toList ++ r.2)) <$> icebergLoopLog c id plan fuel { s' with backoff }

def icebergOrderLog (fuel : Nat) (c : Scope) (p : Params) : Act (Reply × List Paper.Order) := do
  let side ← lift (Side.read (p.get "side"))
  let total := literal? (p.get "totalAmount")
  let average := literal? (p.get "averageAmount")
  let limitPrice := literal? (p.get "limitPrice")
  let timeLimit ← lift (Amount.durationSeconds (p.get "timeLimit") 0)
  let v := Quantity.read (p.get "variance")
  let variance := if v.units == "%" then v.value / 100.0 else v.value
  match total with
  | none => return (.count 0, [])
  | some totalValue =>
    if !(given limitPrice && given total && given average) then return (.amount totalValue, [])
    let expiry := (← now) + (← wholeFloat timeLimit)
    let plan : IcebergPlan := ⟨side, average.getD 0.0, limitPrice.getD 0.0, variance, timeLimit,
      expiry, p.get "tag"⟩
    let start : Iceberg := ⟨totalValue, none, (← desk c.desk).backoff, Draws.start (← get).randoms⟩
    let id ← register c side (p.get "tag")
    (fun r => (Reply.amount r.1, r.2)) <$> Job.andFinally (icebergLoopLog c id plan fuel start) (release c id)

theorem icebergLoop_eq_log (c : Scope) (id : String) (plan : IcebergPlan) :
    ∀ (fuel : Nat) (s : Iceberg), icebergLoop c id plan fuel s = Prod.fst <$> icebergLoopLog c id plan fuel s
  | 0, _ => funext fun _ => rfl
  | fuel + 1, s => by
    rw [icebergLoop, icebergLoopLog, map_bind]
    refine congrArg _ (funext fun d => ?_)
    split
    · rfl
    rw [map_bind]
    refine congrArg _ (funext fun r => ?_)
    rcases r with _ | ⟨s', report⟩
    · rfl
    simp only [map_bind, Functor.map_map]
    exact congrArg _ (funext fun _ => icebergLoop_eq_log c id plan fuel _)

theorem icebergOrder_eq_log (fuel : Nat) (c : Scope) (p : Params) :
    icebergOrder fuel c p = Prod.fst <$> icebergOrderLog fuel c p := by
  unfold icebergOrder icebergOrderLog
  rcases literal? (p.get "totalAmount") with _ | total
  · simp only [map_bind, map_pure]
  simp only [map_bind, apply_ite (Prod.fst <$> ·), map_pure, icebergLoop_eq_log, Job.map_andFinally,
    Functor.map_map]

theorem icebergTurn_accounts (c : Scope) (id : String) (plan : IcebergPlan) (s : Iceberg) :
    Act.Ensures (fun r => ∀ s' report, r = some (s', report) →
      s'.remaining = leftAfter s.remaining report.toList ∧ ∀ o ∈ report, Counted o)
      (icebergTurn c id plan s) := by
  -- a poll that goes on keeps what is left with no report, or lowers it by the report it read
  have counted (info : Paper.Order) (hinfo : Counted info) (backoff : Backoff)
      (s' : Iceberg) (report : Option Paper.Order)
      (hs' : some ({ s with remaining := s.remaining - info.executed, child := none, backoff },
        some info) = some (s', report)) :
      s'.remaining = leftAfter s.remaining report.toList ∧ ∀ o ∈ report, Counted o := by
    obtain ⟨rfl, rfl⟩ := Prod.mk.inj (Option.some.inj hs')
    exact ⟨rfl, fun o ho => (Option.mem_some_iff.1 ho) ▸ hinfo⟩
  have kept (s₀ : Iceberg) (h₀ : s₀.remaining = s.remaining) (s' : Iceberg)
      (report : Option Paper.Order) (hs' : some (s₀, none) = some (s', report)) :
      s'.remaining = leftAfter s.remaining report.toList ∧ ∀ o ∈ report, Counted o := by
    obtain ⟨rfl, rfl⟩ := Prod.mk.inj (Option.some.inj hs')
    exact ⟨h₀, fun _ h => nomatch h⟩
  unfold icebergTurn
  refine (Ensures.self _).bind fun _ _ => (Ensures.self _).bind fun _ _ => ?_
  split
  · dsimp only
    split
    · exact (Ensures.self _).bind fun _ _ => Ensures.pure (by simp)
    · exact Ensures.pure (by simp)
  refine (Ensures.self _).bind fun t _ => ?_
  dsimp only
  rcases s.child with _ | ⟨o, stop⟩
  · simp only
    refine Ensures.ite (fun _ => ?_) (fun _ => Ensures.pure (kept s rfl))
    rcases s.draws.uniform 0.9 1.1 with ⟨u, draws⟩
    refine (Ensures.self _).bind fun placed _ => ?_
    rcases placed.order with _ | o
    · exact Ensures.pure (by simp)
    · exact Ensures.pure (kept _ rfl)
  · simp only
    refine (Ensures.self _).bind fun info _ => ?_
    refine Ensures.ite (fun hf => Ensures.pure (counted info (.inl hf) _)) fun _ => ?_
    refine Ensures.ite (fun _ => Ensures.pure (by simp)) fun ho => ?_
    have hopen : Counted info := .inr (by simpa using ho)
    refine Ensures.ite (fun _ => ?_) (fun _ => Ensures.pure (kept s rfl))
    exact (Ensures.self _).bind fun _ _ => Ensures.pure (counted info hopen _)

theorem icebergLoopLog_accounts (c : Scope) (id : String) (plan : IcebergPlan) (fuel : Nat)
    (s : Iceberg) :
    Act.Ensures (fun r => r.1 = leftAfter s.remaining r.2 ∧ ∀ o ∈ r.2, Counted o)
      (icebergLoopLog c id plan fuel s) := by
  induction fuel generalizing s with
  | zero => exact Ensures.throw _
  | succ fuel ih =>
    rw [icebergLoopLog]
    refine (Ensures.self _).bind fun _ _ => ?_
    refine Ensures.ite (fun _ => Ensures.pure ⟨rfl, by simp⟩) (fun _ => ?_)
    refine (icebergTurn_accounts c id plan s).bind fun r hr => ?_
    rcases r with _ | ⟨s', report⟩
    · exact Ensures.pure ⟨rfl, by simp⟩
    obtain ⟨hrem, hcount⟩ := hr s' report rfl
    simp only
    refine (Ensures.self _).bind fun _ _ => ?_
    -- the rest of the run starts from what the poll left, and its log follows the poll's report
    refine Ensures.map _ (ih { s' with backoff := s'.backoff.idle.2 }) fun r ⟨hr, hrs⟩ => ?_
    refine ⟨by simp [hr, hrem], fun o ho => ?_⟩
    rcases List.mem_append.1 ho with h | h
    · exact hcount o (Option.mem_toList.1 h)
    · exact hrs o h

/-- Every run of an iceberg order is a run of it with its ghost, and what that run answers, for a
total that is a number, is the total less the executions of the reports it counted. -/
theorem icebergOrder_accounts (fuel : Nat) (c : Scope) (p : Params) :
    icebergOrder fuel c p = Prod.fst <$> icebergOrderLog fuel c p ∧
      Act.Ensures (fun r => ∀ total, literal? (p.get "totalAmount") = some total →
        r.1 = .amount (leftAfter total r.2) ∧ ∀ o ∈ r.2, Counted o) (icebergOrderLog fuel c p) := by
  refine ⟨icebergOrder_eq_log fuel c p, ?_⟩
  unfold icebergOrderLog
  refine (Ensures.self _).bind fun side _ => ?_
  dsimp only
  refine (Ensures.self _).bind fun timeLimit _ => ?_
  rcases ht : literal? (p.get "totalAmount") with _ | total
  · exact Ensures.pure (by simp)
  simp only [Option.some.injEq, forall_eq']
  refine Ensures.ite (fun _ => Ensures.pure ⟨rfl, by simp⟩) (fun _ => ?_)
  refine (Ensures.self _).bind fun _ _ => (Ensures.self _).bind fun _ _ => ?_
  refine (Ensures.self _).bind fun _ _ => (Ensures.self _).bind fun _ _ => ?_
  refine (Ensures.self _).bind fun id _ => ?_
  refine Ensures.map _ (Ensures.andFinally (icebergLoopLog_accounts c id _ fuel _)) ?_
  intro r ⟨hr, hrs⟩
  exact ⟨by simp [hr], hrs⟩

/-- With `0.00199999999999` left and an average of one, a child is asked for `0.002`; a spot desk
sizes it at `0.002` at a price of 999, above what is left; filled, it leaves less than nothing. -/
theorem iceberg_child_outgrows_remaining :
    Amount.text (Binary64.atMost (1.0 * 1.0) 0.00199999999999) = "0.002" ∧
      ((Sizing.orderSize "BTCUSD" .buy (Quantity.read "0.002") Paper.Market.spotDefault.balances
        999.0 0.001).toOption.map (·.orderSize.toBits)) = some (0.002 : Float).toBits ∧
      (0.00199999999999 : Float) - 0.002 < 0.0 := by
  decide +kernel

end Handler

end TradeDesk
