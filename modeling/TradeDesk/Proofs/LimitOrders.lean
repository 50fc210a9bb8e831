import Mathlib
import TradeDesk.Proofs.Outcomes

/-!
Limit orders placed from arguments lie on the side they name, so every rung of a ladder lies on
one side (`placeScaled_side`).
-/

namespace TradeDesk

open Handler Act

theorem Act.Ensures.lift_ok {α : Type} {r : Except Fault α} {x : α} (h : r = .ok x) :
    Act.Ensures (· = x) (Act.lift r) :=
  Ensures.lift fun y hy => by rw [h] at hy; cases hy; rfl

theorem positionToAmount_side {i : Nat} {symbol target : String} {side : Side} {amount : String}
    (ht : Text.trim target = "") :
    Act.Ensures (fun r => r.1 = side) (positionToAmount i symbol target side amount) := by
  unfold positionToAmount
  refine (Ensures.self _).bind fun _ _ => ?_
  split
  · exact Ensures.pure rfl
  · simp [ht] at *

namespace Handler

theorem prepare_side {c : Scope} {p : Params} {offset : String} {fromOpposite : Bool} {s : Side}
    (hs : Side.read (p.get "side") = .ok s) (ht : Text.trim (p.get "position") = "") :
    Act.Ensures (fun r => ∀ o ∈ r, o.side = s) (prepare c p offset fromOpposite) := by
  unfold prepare
  refine (Ensures.lift_ok hs).bind fun side hside => ?_
  subst hside
  refine (positionToAmount_side ht).bind fun ⟨side', amount⟩ hr => ?_
  dsimp only at hr ⊢
  subst hr
  split
  · exact Ensures.pure (by simp)
  · refine (Ensures.self _).bind fun _ _ => (Ensures.self _).bind fun _ _ => ?_
    split
    · exact Ensures.pure (by simp)
    · exact Ensures.pure (by simp)

/-- A limit order without a target position is on the side its parameters name, placed or not. -/
theorem limitOrder_side {c : Scope} {p : Params} {s : Side}
    (hs : Side.read (p.get "side") = .ok s) (ht : Text.trim (p.get "position") = "") :
    Act.Ensures (fun o => o.side = s) (limitOrder c p) := by
  unfold limitOrder
  refine (prepare_side hs ht).bind fun r hr => ?_
  split
  · exact (Ensures.lift_ok hs).bind fun _ h => Ensures.pure (by simp [PlacedOrder.none, h])
  · rename_i o
    exact (Ensures.self _).bind fun _ _ => (Ensures.self _).bind fun _ _ =>
      Ensures.pure (hr o rfl)

/-- Four named arguments give a limit order its side, offset, amount and tag; the tag by default,
the time, is replaced, and no target position is set. -/
theorem limitDefaults_assign (now side offset amount tag : String) :
    Params.assign (limitDefaults now)
        [⟨"side", side, 0⟩, ⟨"offset", offset, 1⟩, ⟨"amount", amount, 2⟩, ⟨"tag", tag, 3⟩] =
      [("side", side), ("offset", offset), ("amount", amount), ("tag", tag), ("position", "")] := by
  have h1 : Text.lower "side" = "side" := by decide
  have h2 : Text.lower "offset" = "offset" := by decide
  have h3 : Text.lower "amount" = "amount" := by decide
  have h4 : Text.lower "tag" = "tag" := by decide
  have h5 : Text.lower "position" = "position" := by decide
  simp +decide [Params.assign, limitDefaults, List.lookup, Params.lowerIndex, Assoc.ofPairs,
    Assoc.set, Assoc.keys, Assoc.find?, h1, h2, h3, h4, h5]

theorem limitWith_side (c : Scope) (s : Side) (offset amount tag : String) :
    Act.Ensures (fun o => o.side = s) (limitWith c
      [⟨"side", s.name, 0⟩, ⟨"offset", offset, 1⟩, ⟨"amount", amount, 2⟩, ⟨"tag", tag, 3⟩]) := by
  refine (Ensures.self _).bind fun now _ => ?_
  rw [limitDefaults_assign]
  exact limitOrder_side (by simp [Params.get, Assoc.find?, List.lookup, Side.read_name])
    (by simp +decide [Params.get, Assoc.find?, List.lookup])

theorem placeRung_side (c : Scope) (side : Side) (units tag : String) (price size : Float) :
    Act.Ensures (fun o => o.side = side) (placeRung c side units tag price size) :=
  Ensures.tryCatch (limitWith_side c side _ _ _) fun _ => Ensures.pure rfl

/-- Every rung of a ladder is on one side. -/
theorem placeScaled_side (c : Scope) (p : Params) :
    Act.Ensures (fun l => ∃ s, ∀ o ∈ l, o.side = s) (placeScaled c p) := by
  unfold placeScaled
  refine (Ensures.self _).bind fun _ _ => (Ensures.self _).bind fun _ _ => ?_
  refine (Ensures.self _).bind fun ⟨side, amount⟩ _ => ?_
  dsimp only
  split
  · exact Ensures.pure ⟨side, by simp⟩
  refine (Ensures.self _).bind fun _ _ => (Ensures.self _).bind fun _ _ => ?_
  refine (Ensures.self _).bind fun _ _ => ?_
  split
  · exact Ensures.pure ⟨side, by simp⟩
  refine (Ensures.self _).bind fun _ _ => (Ensures.self _).bind fun _ _ => ?_
  refine (Ensures.self _).bind fun _ _ => ?_
  exact (Ensures.mapM fun _ _ => placeRung_side c side _ _ _ _).mono fun l hl => ⟨side, hl⟩

end Handler

end TradeDesk
