import TradeDesk.Proofs.OffsetPrices
import TradeDesk.Proofs.Refusals

/-!
Runs that deliver: `Act.Delivers i P a Q` is total correctness of a job on desk `i` against
whatever else runs while it sleeps and spares the desk, with the rules of a Hoare logic.
-/

namespace TradeDesk

/-- A nap spares desk `i` when the job wakes to that desk as it fell asleep on it. -/
def Nap.Spares (i : Nat) (n : Nap World) : Prop := n.woke.desks[i]? = n.fell.desks[i]?

/-- Total correctness on one desk: run from a world whose desk `i` satisfies `P`, and woken only
to that desk as the job left it, the job succeeds with a value `x` and leaves desk `i` satisfying
`Q x`. -/
structure Act.Delivers {α : Type} (i : Nat) (P : Desk → Prop) (a : Act α)
    (Q : α → Desk → Prop) : Prop where
  run : ∀ w d naps s r, w.desks[i]? = some d → P d → (∀ n ∈ naps, n.Spares i) →
    Step.Run (a w) naps s r → ∃ x d', r = .ok x ∧ s.desks[i]? = some d' ∧ Q x d'

namespace Act.Delivers

variable {α β : Type} {i : Nat} {P P' : Desk → Prop} {Q Q' : α → Desk → Prop}

theorem conseq {a : Act α} (h : Delivers i P a Q) (hp : ∀ d, P' d → P d)
    (hq : ∀ x d, Q x d → Q' x d) : Delivers i P' a Q' := by
  refine ⟨fun w d naps s r hw hd hn hr => ?_⟩
  obtain ⟨x, d', rfl, hs, hx⟩ := h.run w d naps s r hw (hp d hd) hn hr
  exact ⟨x, d', rfl, hs, hq x d' hx⟩

theorem weaken {a : Act α} (h : Delivers i P a Q) (hp : ∀ d, P' d → P d) : Delivers i P' a Q :=
  h.conseq hp fun _ _ hx => hx

theorem given {φ : Prop} {a : Act α} (hφ : ∀ d, P d → φ) (h : φ → Delivers i P a Q) :
    Delivers i P a Q :=
  ⟨fun w d naps s r hw hd hn hr => (h (hφ d hd)).run w d naps s r hw hd hn hr⟩

theorem bind {R : β → Desk → Prop} {a : Act α} {k : α → Act β} (ha : Delivers i P a Q)
    (hk : ∀ x, Delivers i (Q x) (k x) R) : Delivers i P (a >>= k) R := by
  refine ⟨fun w d naps s r hw hd hn hr => ?_⟩
  rcases Step.Run.of_bind hr with ⟨naps₁, s₁, x, naps₂, rfl, h₁, h₂⟩ | ⟨e, h₁, rfl⟩
  · obtain ⟨x', d₁, hx, hs₁, hq⟩ :=
      ha.run w d naps₁ s₁ _ hw hd (fun n hm => hn n (List.mem_append_left _ hm)) h₁
    cases hx
    exact (hk x).run s₁ d₁ naps₂ s r hs₁ hq (fun n hm => hn n (List.mem_append_right _ hm)) h₂
  · obtain ⟨x, d', hx, -⟩ := ha.run w d naps s _ hw hd hn h₁
    cases hx

theorem done {a : Act α} {x : α} (ha : ∀ w, a w = .done w (.ok x)) (h : ∀ d, P d → Q x d) :
    Delivers i P a Q := by
  refine ⟨fun w d naps s r hw hd _ hr => ?_⟩
  obtain ⟨rfl, rfl, rfl⟩ := (Step.Run.of_done_eq (ha w)).1 hr
  exact ⟨x, d, rfl, hw, h d hd⟩

theorem pure {x : α} (h : ∀ d, P d → Q x d) : Delivers i P (Pure.pure x : Act α) Q :=
  done (fun _ => rfl) h

theorem lift {r : Except Fault α} {x : α} (hr : r = .ok x) (h : ∀ d, P d → Q x d) :
    Delivers i P (Act.lift r) Q :=
  done (fun _ => by rw [hr]; rfl) h

theorem lift_bind {R : β → Desk → Prop} {r : Except Fault α} {x : α} {k : α → Act β}
    (hr : r = .ok x) (h : Delivers i P (k x) R) : Delivers i P (Act.lift r >>= k) R := by
  subst hr
  exact h

theorem now : Delivers i P Act.now fun _ => P := by
  refine ⟨fun w d naps s r hw hd _ hr => ?_⟩
  obtain ⟨rfl, rfl, rfl⟩ := (Step.Run.of_done_eq rfl).1 hr
  exact ⟨_, d, rfl, hw, hd⟩

theorem desk_bind {R : β → Desk → Prop} {k : Desk → Act β}
    (h : ∀ d, P d → Delivers i (· = d) (k d) R) : Delivers i P (Act.desk i >>= k) R := by
  refine ⟨fun w d naps s r hw hd hn hr => ?_⟩
  have hget : w.desks.getD i default = d := by simp [Array.getD_eq_getD_getElem?, hw]
  rw [Act.desk_bind, hget] at hr
  exact (h d hd).run w d naps s r hw rfl hn hr

theorem modifyDesk {f : Desk → Desk} (R : Desk → Prop) (h : ∀ d, P d → R (f d)) :
    Delivers i P (Act.modifyDesk i f) fun _ => R := by
  refine ⟨fun w d naps s r hw hd _ hr => ?_⟩
  obtain ⟨rfl, rfl, rfl⟩ := (Step.Run.of_done_eq rfl).1 hr
  refine ⟨(), f d, rfl, ?_, h d hd⟩
  simp [Array.getElem?_modify, hw]

theorem absurd {a : Act α} (h : ∀ d, P d → False) : Delivers i P a Q := given h False.elim

theorem of_each {a : Act α} (h : ∀ d₀, P d₀ → Delivers i (· = d₀) a Q) : Delivers i P a Q :=
  ⟨fun w d naps s r hw hd hn hr => (h d hd).run w d naps s r hw rfl hn hr⟩

theorem sleep {t : Float} : Delivers i P (Act.sleep t) fun _ => P := by
  refine ⟨fun w d naps s r hw hd hn hr => ?_⟩
  obtain ⟨rfl, rfl⟩ := Act.sleep_run.1 hr
  exact ⟨(), d, rfl, (hn _ List.mem_cons_self).trans hw, hd⟩

end Act.Delivers

def Desk.withLimiter (d : Desk) (l : RateLimiter) : Desk :=
  { d with market := { d.market with limiter := l } }

/-- `d` is `d₀` as the gates of calls leave it: the two differ at most in the rate limiter. -/
def Desk.Gated (d₀ d : Desk) : Prop := ∃ l, d = d₀.withLimiter l

namespace Desk.Gated

variable {d₀ d : Desk}

theorem refl (d : Desk) : Gated d d := ⟨d.market.limiter, rfl⟩

theorem withLimiter (h : Gated d₀ d) (l : RateLimiter) : Gated d₀ (d.withLimiter l) := by
  obtain ⟨_, rfl⟩ := h
  exact ⟨l, rfl⟩

theorem record (h : Gated d₀ d) : d.record = d₀.record := by
  obtain ⟨_, rfl⟩ := h
  rfl

end Desk.Gated

namespace Desk

/-! What a desk's record keeps of it. -/

variable {d D : Desk}

theorem tradesContracts_of_record (h : d.record = D.record) :
    d.tradesContracts = D.tradesContracts := by
  have hv : d.market.venue = D.market.venue := (congrArg (fun d : Desk => d.market.venue) h :)
  simp only [tradesContracts, hv]

theorem held_of_record (h : d.record = D.record) : d.market.held = D.market.held :=
  (congrArg (fun d : Desk => d.market.held) h :)

theorem closed_of_record (h : d.record = D.record) : d.market.closed = D.market.closed :=
  (congrArg (fun d : Desk => d.market.closed) h :)

theorem minOrderSize_of_record (h : d.record = D.record) : d.minOrderSize = D.minOrderSize :=
  (congrArg (fun d : Desk => d.minOrderSize) h :)

end Desk

/-- The quotes of a symbol that a desk can hand a session: one its cache serves under the session
and the symbol at some time, or the exchange's own. -/
def Desk.Quotable (d : Desk) (symbol session : String) (t : Ticker) : Prop :=
  (∃ now, d.tickerLibrary.get? d.tickers now (session, Text.upper symbol) = some t) ∨
    t = (d.market.quote symbol).1

theorem Paper.Market.placeMarket_held {m : Paper.Market} (hm : m.venue = .contracts)
    (symbol : String) (amount : Float) (side : Side) :
    (m.placeMarket symbol amount side).2.held = Assoc.set m.held (Text.upper symbol)
      ((Assoc.find? m.held (Text.upper symbol)).getD 0.0 + match side with
        | .buy => amount
        | .sell => -amount) := by
  obtain ⟨qs, hq⟩ := Paper.Market.quote_snd m symbol
  show (((m.quote symbol).2.add symbol .market side amount _).2.settle _ _).held = _
  rw [Paper.Market.settle_eq _ rfl, hq]
  simp only [Paper.Market.withBooks, Paper.Market.books, Paper.Market.add, hm, Paper.Books.post]
  cases side <;> rfl

namespace Act

variable {i : Nat} {d₀ : Desk}

theorem call_delivers (hopen : d₀.market.closed = false) :
    Delivers i (Desk.Gated d₀) (call i) fun _ => Desk.Gated d₀ := by
  unfold call
  refine Delivers.desk_bind fun d hg => ?_
  dsimp only
  split
  · next hc =>
    obtain ⟨_, rfl⟩ := hg
    exact Delivers.absurd fun _ _ => by simp [Desk.withLimiter, hopen] at hc
  · refine Delivers.bind Delivers.now fun t => Delivers.bind
      (Delivers.modifyDesk (Desk.Gated d₀) fun _ h => h ▸ hg.withLimiter _) fun _ => ?_
    -- the gate sleeps until its slot, or goes on at once
    split
    · exact Delivers.sleep
    · exact Delivers.pure fun _ h => h

theorem positions_delivers (hopen : d₀.market.closed = false) :
    Delivers i (Desk.Gated d₀) (positions i) fun ps d =>
      ps = d₀.market.positions ∧ Desk.Gated d₀ d := by
  unfold positions
  refine Delivers.bind (call_delivers hopen) fun _ => Delivers.desk_bind fun d hg =>
    Delivers.pure fun _ hd => ⟨?_, hd ▸ hg⟩
  obtain ⟨_, rfl⟩ := hg
  rfl

theorem withMarket_delivers {α : Type} {P : Desk → Prop} {g : Paper.Market → α × Paper.Market}
    (R : α → Desk → Prop) (h : ∀ d, P d → R (g d.market).1 { d with market := (g d.market).2 }) :
    Delivers i P (withMarket i g) R := by
  unfold withMarket
  refine Delivers.desk_bind fun d hd => Delivers.bind
    (Delivers.modifyDesk (R (g d.market).1) fun _ hd' => ?_) fun _ => Delivers.pure fun _ h => h
  subst hd'
  exact h _ hd

theorem quote_delivers (hopen : d₀.market.closed = false) (symbol : String) :
    Delivers i (Desk.Gated d₀) (quote i symbol) fun t d =>
      t = (d₀.market.quote symbol).1 ∧ d.record = d₀.record := by
  unfold quote
  refine Delivers.bind (call_delivers hopen) fun _ => withMarket_delivers _ fun d hg => ?_
  obtain ⟨l, rfl⟩ := hg
  refine ⟨Paper.Market.quote_fst_congr
    (show (d₀.withLimiter l).market.quotes = d₀.market.quotes from rfl) rfl rfl symbol, ?_⟩
  simp only [Desk.record, quote_record]
  rfl

theorem ticker_delivers (hopen : d₀.market.closed = false) (symbol session : String) :
    Delivers i (Desk.Gated d₀) (ticker i symbol session) fun t d =>
      d₀.Quotable symbol session t ∧ d.record = d₀.record := by
  unfold ticker
  refine Delivers.desk_bind fun d hg => Delivers.bind Delivers.now fun now => ?_
  split
  · next t hget =>
    obtain ⟨l, rfl⟩ := hg
    exact Delivers.bind (Delivers.modifyDesk (fun d => d.record = (d₀.withLimiter l).record)
      fun _ h => by rw [h]; rfl) fun _ =>
      Delivers.pure fun _ h => ⟨.inl ⟨now, hget⟩, h.trans rfl⟩
  · refine Delivers.bind ((quote_delivers hopen symbol).weaken fun _ h => h ▸ hg) fun t =>
      Delivers.given (fun _ h => h.1) fun ht => ?_
    refine Delivers.bind Delivers.now fun _ => ?_
    refine Delivers.bind (Delivers.modifyDesk (fun d => d.record = d₀.record) fun _ h => h.2)
      fun _ => Delivers.pure fun _ h => ⟨.inr ht, h⟩

theorem absolutePrice_delivers (hopen : d₀.market.closed = false) {symbol session : String}
    {side : Side} (hq : ∀ t, d₀.Quotable symbol session t →
      ∃ p, Amount.roundDown (t.moved side (Quantity.read "0")) 2 = .ok p) :
    Delivers i (Desk.Gated d₀) (absolutePrice i symbol side "0" session) fun _ d =>
      d.record = d₀.record := by
  rw [absolutePrice_of_offset (by decide +kernel), show Text.trim "0" = "0" by decide +kernel]
  refine Delivers.bind (ticker_delivers hopen symbol session) fun t =>
    Delivers.given (fun _ h => h.1) fun ht => ?_
  obtain ⟨p, hp⟩ := hq t ht
  exact Delivers.lift hp fun _ h => h.2

theorem orderSizeFor_delivers {D : Desk} (hc : D.tradesContracts = true) {symbol : String}
    {side : Side} {price : Float} {q : Quantity} (hu : q.units = "") {size : Float}
    (hs : Amount.roundDown q.value 0 = .ok size) :
    Delivers i (fun d => d.record = D.record) (orderSizeFor i symbol side price q) fun o d =>
      o.orderSize = (if size < D.minOrderSize then 0.0 else size) ∧ d.record = D.record := by
  unfold orderSizeFor
  refine Delivers.desk_bind fun d hr => ?_
  rw [if_pos ((Desk.tradesContracts_of_record hr).trans hc), if_neg (by simp [hu]),
    Desk.minOrderSize_of_record hr]
  exact Delivers.lift_bind hs (Delivers.pure fun _ h => ⟨rfl, h ▸ hr⟩)

/-- A market order on contracts moves the held position of its symbol by its signed amount. -/
theorem placeMarket_delivers {D : Desk} (hopen : D.market.closed = false)
    (hc : D.tradesContracts = true) (symbol : String) (amount : Float) (side : Side) :
    Delivers i (fun d => d.record = D.record) (placeMarket i symbol amount side) fun _ d =>
      d.market.held = Assoc.set D.market.held (Text.upper symbol)
        ((Assoc.find? D.market.held (Text.upper symbol)).getD 0.0 + match side with
          | .buy => amount
          | .sell => -amount) := by
  refine Delivers.of_each fun d₁ hr => ?_
  unfold placeMarket
  refine Delivers.bind ((call_delivers ((Desk.closed_of_record hr).trans hopen)).weaken
    fun _ h => h ▸ Desk.Gated.refl _) fun _ => withMarket_delivers _ fun d hg => ?_
  have hm : d.market.venue = .contracts := by
    have hcd := (Desk.tradesContracts_of_record (hg.record.trans hr)).trans hc
    simpa [Desk.tradesContracts] using hcd
  rw [← Desk.held_of_record hr, ← Desk.held_of_record hg.record]
  exact Paper.Market.placeMarket_held hm symbol amount side

end Act

end TradeDesk
