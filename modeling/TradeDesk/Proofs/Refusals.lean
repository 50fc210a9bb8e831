import TradeDesk.Proofs.Runs

/-!
What a refused command leaves alone: a refusal comes before the first change, so every run that
ends refused keeps the desk's holdings (`refused_commands_keep_holdings`).
-/

namespace TradeDesk

/-- What a desk holds: its market's orders, each with what it executed and whether it was
cancelled, its wallet and held positions, its sessions' records of orders and its running
algorithmic orders with their flags. -/
structure Holdings where
  orders : List Paper.Order
  wallet : List (String × Float)
  held : List (String × Float)
  sessions : SessionBook String
  algos : AlgoBook

def Desk.holdings (d : Desk) : Holdings :=
  ⟨d.market.orders, d.market.wallet, d.market.held, d.sessions, d.algos⟩

def World.holdings (w : World) (i : Nat) : Holdings := (w.desks.getD i default).holdings

theorem World.holdings_record (w : World) : w.record.holdings = w.holdings :=
  funext (World.desk_record Desk.holdings (fun _ => rfl) w)

def Fault.isCommandError (e : Fault) : Bool :=
  e.family == .command || e.family == .unknownCommand

/-- Every fault the job can end with, from any world and woken in any worlds, satisfies `P`. -/
structure Act.Fails {α : Type} (P : Fault → Prop) (a : Act α) : Prop where
  run : ∀ w naps s e, Step.Run (a w) naps s (.error e) → P e

namespace Act.Fails

variable {α β : Type} {P : Fault → Prop}

theorem pure (x : α) : Act.Fails P (Pure.pure x : Act α) :=
  ⟨fun _ _ _ _ h => by cases h⟩

theorem throw {e : Fault} (he : P e) : Act.Fails P (MonadExcept.throw e : Act α) :=
  ⟨fun _ _ _ _ h => by cases h; exact he⟩

theorem throw_bind {e : Fault} (he : P e) (k : α → Act β) :
    Act.Fails P (MonadExcept.throw e >>= k) :=
  ⟨fun _ _ _ _ h => by cases h; exact he⟩

theorem get : Act.Fails P (MonadStateOf.get : Act World) := ⟨fun _ _ _ _ h => by cases h⟩

theorem bind {a : Act α} {k : α → Act β} (ha : Act.Fails P a) (hk : ∀ x, Act.Fails P (k x)) :
    Act.Fails P (a >>= k) := by
  refine ⟨fun w naps s e h => ?_⟩
  rcases Step.Run.of_bind h with ⟨_, s₁, x, _, -, h₁, h₂⟩ | ⟨e', h₁, he⟩
  · exact (hk x).run s₁ _ s e h₂
  · cases he
    exact ha.run w naps s e h₁

theorem tryCatch {a : Act α} {h : Fault → Act α} (hh : ∀ e, Act.Fails P (h e)) :
    Act.Fails P (MonadExcept.tryCatch a h) := by
  refine ⟨fun w naps s e hr => ?_⟩
  rcases Step.Run.of_handle hr with ⟨_, -, he⟩ | ⟨_, s₁, e', _, -, -, h₂⟩
  · cases he
  · exact (hh e').run s₁ _ s e h₂

theorem ite {c : Prop} {_ : Decidable c} {t e : Act α} (ht : Act.Fails P t)
    (he : Act.Fails P e) : Act.Fails P (if c then t else e) := by
  split
  · exact ht
  · exact he

theorem modifyDesk (i : Nat) (f : Desk → Desk) : Act.Fails P (Act.modifyDesk i f) :=
  ⟨fun _ _ _ _ h => by cases h⟩

theorem sleep (seconds : Float) : Act.Fails P (Act.sleep seconds) := by
  refine ⟨fun w naps s e h => ?_⟩
  rw [Act.sleep_run] at h
  cases h.2

theorem withMarket {γ : Type} (i : Nat) (g : Paper.Market → γ × Paper.Market) :
    Act.Fails P (Act.withMarket i g) :=
  bind (bind get fun _ => pure _) fun _ => bind (modifyDesk _ _) fun _ => pure _

theorem call (i : Nat) : Act.Fails (· = .closedExchange) (Act.call i) := by
  unfold Act.call
  refine bind (bind get fun _ => pure _) fun d => ?_
  split
  · refine throw_bind ?_ _
    rfl
  · refine bind (bind get fun _ => pure _) fun now => ?_
    split
    refine bind (modifyDesk _ _) fun _ => ?_
    split
    · exact sleep _
    · exact pure _

theorem mono {Q : Fault → Prop} {a : Act α} (ha : Act.Fails P a) (h : ∀ e, P e → Q e) :
    Act.Fails Q a :=
  ⟨fun w naps s e hr => h e (ha.run w naps s e hr)⟩

theorem mapM {γ : Type} {f : γ → Act α} (hf : ∀ x, Act.Fails P (f x)) (xs : List γ) :
    Act.Fails P (xs.mapM f) := by
  induction xs with
  | nil => exact pure _
  | cons x xs ih =>
    rw [List.mapM_cons]
    exact bind (hf x) fun _ => bind ih fun _ => pure _

theorem call_market {γ : Type} (i : Nat) (g : Paper.Market → γ × Paper.Market) :
    Act.Fails (· = .closedExchange) (Act.call i >>= fun _ => Act.withMarket i g) :=
  bind (call i) fun _ => withMarket i g

theorem call_read {γ : Type} (i : Nat) (f : Desk → γ) :
    Act.Fails (· = .closedExchange)
      (Act.call i >>= fun _ => Act.desk i >>= fun d => Pure.pure (f d)) :=
  bind (call i) fun _ => bind (bind get fun _ => pure _) fun _ => pure _

end Act.Fails

/-- Every run of the job that fails with a command error keeps the view `v` stretch by stretch:
as the job found it until it first falls asleep, and from each wake as it woke to it. -/
structure Act.Refuses {α β : Type} (v : World → β) (a : Act α) : Prop where
  quiet : ∀ w naps s e, Step.Run (a w) naps s (.error e) → e.isCommandError = true →
    Quiet v (v w) naps s

namespace Act.Refuses

variable {α β γ : Type} {v : World → β}

theorem of_fixes {a : Act α} (h : Act.Fixes v a) : Act.Refuses v a :=
  ⟨fun _ _ _ _ hr _ => h.quiet hr⟩

theorem of_fails {a : Act α} (h : Act.Fails (fun e => e.isCommandError = false) a) :
    Act.Refuses v a :=
  ⟨fun w naps s e hr he => by rw [h.run w naps s e hr] at he; cases he⟩

theorem of_closed {a : Act α} (h : Act.Fails (· = .closedExchange) a) : Act.Refuses v a :=
  of_fails (h.mono fun _ he => by rw [he]; rfl)

theorem bind {a : Act α} {k : α → Act γ} (ha : Act.Fixes v a) (hk : ∀ x, Act.Refuses v (k x)) :
    Act.Refuses v (a >>= k) := by
  refine ⟨fun w naps s e hr he => ?_⟩
  rcases Step.Run.of_bind hr with ⟨naps₁, s₁, x, naps₂, rfl, h₁, h₂⟩ | ⟨e', h₁, -⟩
  · exact (ha.quiet h₁).append ((hk x).quiet s₁ naps₂ s e h₂ he)
  · exact ha.quiet h₁

theorem undisturbed {a : Act α} (h : Act.Refuses v a) {w s : World} {naps : List (Nap World)}
    {e : Fault} (hr : Step.Run (a w) naps s (.error e)) (he : e.isCommandError = true)
    (hn : ∀ n ∈ naps, v n.woke = v n.fell) : v s = v w :=
  (h.quiet w naps s e hr he).undisturbed hn

end Act.Refuses

theorem Act.desk_bind {β : Type} (i : Nat) (k : Desk → Act β) (w : World) :
    (Act.desk i >>= k) w = k (w.desks.getD i default) w := rfl

theorem Act.now_bind {β : Type} (k : Float → Act β) (w : World) : (Act.now >>= k) w = k w.now w :=
  rfl

theorem Act.Reads.holdings {α : Type} {a : Act α} (h : Act.Reads a) :
    Act.Fixes World.holdings a :=
  h.fixes World.holdings_record

namespace Handler

open Act

theorem limitOrder_refuses (c : Scope) (p : Params) :
    Refuses World.holdings (limitOrder c p) := by
  unfold limitOrder
  refine Refuses.bind (prepare_reads _ _ _ _).holdings fun _ => ?_
  split
  · exact Refuses.of_fixes (Fixes.bind (Fixes.lift _) fun _ => Fixes.pure _)
  · exact Refuses.of_closed (Fails.bind (Fails.call_market _ _) fun _ =>
      Fails.bind (Fails.modifyDesk _ _) fun _ => Fails.pure _)

theorem marketOrder_refuses (c : Scope) (p : Params) :
    Refuses World.holdings (marketOrder c p) := by
  unfold marketOrder
  refine Refuses.bind (prepare_reads _ _ _ _).holdings fun _ => ?_
  split
  · exact Refuses.of_fixes (Fixes.bind (Fixes.lift _) fun _ => Fixes.pure _)
  · exact Refuses.of_closed (Fails.bind (Fails.call_market _ _) fun _ => Fails.pure _)

theorem stopMarketOrder_refuses (c : Scope) (p : Params) :
    Refuses World.holdings (stopMarketOrder c p) := by
  unfold stopMarketOrder
  dsimp only
  split
  · refine Refuses.bind (prepare_reads _ _ _ _).holdings fun _ => ?_
    split
    · exact Refuses.of_fixes (Fixes.bind (Fixes.lift _) fun _ => Fixes.pure _)
    · exact Refuses.of_closed (Fails.bind (Fails.call_market _ _) fun _ =>
        Fails.bind (Fails.modifyDesk _ _) fun _ => Fails.pure _)
  · exact Refuses.of_fixes (Fixes.throw_bind _ _)

theorem cancelOrders_refuses (c : Scope) (p : Params) :
    Refuses World.holdings (cancelOrders c p) := by
  unfold cancelOrders
  dsimp only
  generalize Text.lower (Text.trim (p.get "which")) = which
  split
  · refine Refuses.of_closed (Fails.bind (Fails.modifyDesk _ _) fun _ => ?_)
    have cancel : ∀ (ids : Act (List String)), Fails (· = .closedExchange) ids →
        Fails (· = .closedExchange) (ids >>= fun ids => Act.cancelOrders c.desk ids >>= fun _ =>
          (Pure.pure (ids.length : Int) : Act Int)) :=
      fun _ h => Fails.bind h fun _ => Fails.bind (Fails.call_market _ _) fun _ => Fails.pure _
    split
    · exact cancel _ (Fails.call_read _ _)
    · exact cancel _ (Fails.call_read _ _)
    · exact cancel _ (Fails.call_read _ _)
    · exact Fails.bind (Fails.bind Fails.get fun _ => Fails.pure _) fun _ => cancel _ (Fails.pure _)
    · exact Fails.bind (Fails.bind Fails.get fun _ => Fails.pure _) fun _ => cancel _ (Fails.pure _)
  · exact Refuses.of_fixes (Fixes.throw_bind _ _)

theorem placeScaled_refuses (c : Scope) (p : Params) :
    Refuses World.holdings (placeScaled c p) := by
  unfold placeScaled
  refine Refuses.bind (Fixes.lift _) fun _ => Refuses.bind (Fixes.lift _) fun _ => ?_
  refine Refuses.bind (positionToAmount_reads _ _ _ _ _).holdings fun _ => ?_
  dsimp only
  split
  · exact Refuses.of_fixes (Fixes.pure _)
  refine Refuses.bind (absolutePrice_reads _ _ _ _ _).holdings fun _ => ?_
  refine Refuses.bind (absolutePrice_reads _ _ _ _ _).holdings fun _ => ?_
  refine Refuses.bind (ladderTotal_reads _ _ _ _ _ _ _ _).holdings fun _ => ?_
  split
  · exact Refuses.of_fixes (Fixes.pure _)
  refine Refuses.bind Fixes.get fun _ => Refuses.bind (Fixes.desk _) fun _ => ?_
  refine Refuses.bind (Fixes.lift _) fun _ => Refuses.of_fails (Fails.mapM (fun _ => ?_) _)
  exact Fails.tryCatch fun _ => Fails.pure _

end Handler

open Handler in
/-- The order commands, cancelling and ladders keep every desk's holdings when they refuse with a
command error, and a macro with no text or a name that is no command is refused at once. -/
theorem refused_commands_keep_holdings (c : Scope) (p : Params) :
    Act.Refuses World.holdings (limitOrder c p) ∧
    Act.Refuses World.holdings (marketOrder c p) ∧
    Act.Refuses World.holdings (stopMarketOrder c p) ∧
    Act.Refuses World.holdings (cancelOrders c p) ∧
    Act.Refuses World.holdings (scaledOrder c p) ∧
    (∀ (run : String → List Argument → Act Reply) (w : World),
      (w.desks.getD c.desk default).table.macroText (p.get "func") = none →
      perform run c .callMacro p w = .done w (.error (.noMacro (p.get "func")))) ∧
    (∀ (depth : Nat) (name : String) (args : List Argument) (w : World),
      (w.desks.getD c.desk default).table.lookup name = none →
      execute (depth + 1) c name args w = .done w (.error (.unknownCommand name))) := by
  refine ⟨limitOrder_refuses c p, marketOrder_refuses c p, stopMarketOrder_refuses c p,
    cancelOrders_refuses c p, placeScaled_refuses c p, ?_, ?_⟩
  · intro run w h
    simp only [perform]
    rw [Act.desk_bind, h]
    rfl
  · intro depth name args w h
    simp only [execute]
    rw [Act.desk_bind, h]
    rfl

theorem unknown_name_and_missing_macro_refused :
    Handler.execute 1 ⟨0, "BTCUSD", "s1"⟩ "nosuch" [] {} =
        .done {} (.error (.unknownCommand "nosuch")) ∧
      Handler.perform (fun _ _ => pure .nothing) ⟨0, "BTCUSD", "s1"⟩ .callMacro
          [("func", "nosuch")] {} =
        .done {} (.error (.noMacro "nosuch")) :=
  ⟨(refused_commands_keep_holdings ⟨0, "BTCUSD", "s1"⟩ []).2.2.2.2.2.2 0 "nosuch" [] {}
      (by decide),
    (refused_commands_keep_holdings ⟨0, "BTCUSD", "s1"⟩ [("func", "nosuch")]).2.2.2.2.2.1 _ {}
      (by decide)⟩

end TradeDesk
