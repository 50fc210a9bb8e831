import Mathlib
import TradeDesk.Handler.Dispatch

/-!
What commands leave standing: `Act.Fixes` keeps a view through every sleep, and every command keeps
the lifecycle and the command tables, the algorithmic orders changing only their registrations.
-/

namespace TradeDesk

/-- A running algorithmic order as the registry records it when it starts: its id, side, session
and tag. -/
structure Registration where
  id : String
  side : Side
  session : String
  tag : String
deriving DecidableEq

def Algo.registration (a : Algo) : Registration := ⟨a.id, a.side, a.session, a.tag⟩

def AlgoBook.registrations (b : AlgoBook) : List Registration := b.running.map Algo.registration

theorem AlgoBook.registrations_cancelMatching (b : AlgoBook) (which tag session : String) :
    (b.cancelMatching which tag session).1.registrations = b.registrations := by
  simp only [cancelMatching, registrations, List.map_map]
  apply List.map_congr_left
  intro a _
  simp only [Function.comp]
  split <;> rfl

/-- The number of desks, and of every desk its command table and the registrations of its running
algorithmic orders, and the number of registrations made. -/
structure Standing where
  size : Nat
  tables : Nat → CommandTable
  registry : Nat → List Registration
  count : Nat

def World.standing (w : World) : Standing :=
  ⟨w.desks.size, fun i => (w.desks.getD i default).table,
    fun i => (w.desks.getD i default).algos.registrations, w.algoCount⟩

def World.tables (w : World) : Nat → CommandTable := w.standing.tables

theorem World.desk_modify {β : Type} (g : Desk → β) {w : World} {i : Nat} {f : Desk → Desk}
    (hf : ∀ d ∈ w.desks[i]?, g (f d) = g d) (j : Nat) :
    g ((w.desks.modify i f).getD j default) = g (w.desks.getD j default) := by
  simp only [Array.getD_eq_getD_getElem?, Array.getElem?_modify]
  split
  · subst i
    cases hj : w.desks[j]? with
    | none => rfl
    | some d => exact hf d hj
  · rfl

theorem World.desk_modify_of_lt {β : Type} (g : Desk → β) {w : World} {i : Nat} (f : Desk → Desk)
    (hi : i < w.desks.size) :
    (fun j => g ((w.desks.modify i f).getD j default)) =
      Function.update (fun j => g (w.desks.getD j default)) i (g (f (w.desks.getD i default))) := by
  funext j
  by_cases hj : j = i
  · subst hj
    simp [Array.getD_eq_getD_getElem?, hi, Array.getElem_modify_self]
  · simp [Array.getD_eq_getD_getElem?, Array.getElem?_modify, Function.update_of_ne hj, Ne.symm hj]

theorem World.standing_modify {w : World} {i : Nat} {f : Desk → Desk}
    (hf : ∀ d, (f d).table = d.table ∧ (f d).algos.registrations = d.algos.registrations) :
    { w with desks := w.desks.modify i f }.standing = w.standing := by
  simp only [World.standing, Array.size_modify, Standing.mk.injEq, true_and, and_true]
  exact ⟨funext (World.desk_modify Desk.table fun d _ => (hf d).1),
    funext (World.desk_modify (·.algos.registrations) fun d _ => (hf d).2)⟩

theorem World.tables_modify {w : World} {i : Nat} {f : Desk → Desk}
    (hf : ∀ d, (f d).table = d.table) : { w with desks := w.desks.modify i f }.tables = w.tables :=
  funext (World.desk_modify Desk.table fun d _ => hf d)

/-! ### The lifecycle of the desks -/

/-- What opening and giving back read of a desk: its exchange, its credentials, its users and
whether its market is closed. -/
structure DeskHead where
  name : String
  credentials : List (String × String)
  refCount : Nat
  closed : Bool

def Desk.head (d : Desk) : DeskHead := ⟨d.name, d.credentials, d.refCount, d.market.closed⟩

/-- What opening and giving back read of the world: the open desks in opening order, how many
desks were ever opened, and the head of each. -/
structure Lifecycle where
  opened : List Nat
  size : Nat
  heads : Nat → DeskHead

def World.lifecycle (w : World) : Lifecycle :=
  ⟨w.opened, w.desks.size, fun i => (w.desks.getD i default).head⟩

theorem World.lifecycle_modify {w : World} {i : Nat} {f : Desk → Desk}
    (hf : ∀ d ∈ w.desks[i]?, (f d).head = d.head) :
    { w with desks := w.desks.modify i f }.lifecycle = w.lifecycle := by
  simp only [World.lifecycle, Array.size_modify, Lifecycle.mk.injEq, true_and]
  exact funext (World.desk_modify Desk.head hf)

namespace Paper.Market

variable (m : Market)

theorem quote_closed (symbol : String) : (m.quote symbol).2.closed = m.closed := by
  unfold quote
  dsimp only
  split <;> rfl

theorem settle_closed (o : Order) (price : Float) : (m.settle o price).closed = m.closed := by
  cases hv : m.venue <;> simp only [settle, modifyOrder, hv]

theorem foldl_closed {β : Type} {g : Market → β → Market}
    (hg : ∀ acc x, (g acc x).closed = acc.closed) :
    ∀ (xs : List β) (acc : Market), (xs.foldl g acc).closed = acc.closed
  | [], _ => rfl
  | x :: xs, acc => (foldl_closed hg xs (g acc x)).trans (hg acc x)

theorem matchSymbol_closed (symbol : String) : (m.matchSymbol symbol).closed = m.closed := by
  unfold matchSymbol
  split
  rename_i t m' hq
  rw [foldl_closed (fun acc o => ?_), ← quote_closed m symbol, hq]
  split
  · split
    · exact settle_closed acc _ _
    · rfl
  · rfl

theorem cancel_closed (ids : List String) : (m.cancel ids).closed = m.closed := by
  unfold cancel
  exact foldl_closed (fun _ _ => by rfl) ids m

theorem placeLimit_closed (symbol : String) (amount price : Float) (side : Side) :
    (m.placeLimit symbol amount price side).2.closed = m.closed :=
  matchSymbol_closed _ _

theorem placeMarket_closed (symbol : String) (amount : Float) (side : Side) :
    (m.placeMarket symbol amount side).2.closed = m.closed :=
  (settle_closed _ _ _).trans (quote_closed m symbol)

theorem lookAt_closed (id : String) : (m.lookAt id).2.closed = m.closed := by
  unfold lookAt
  split
  · exact matchSymbol_closed _ _
  · rfl

end Paper.Market

/-! ### Jobs form a lawful monad -/

namespace Step

variable {σ ε α β γ : Type}

theorem bind_pure (st : Step σ ε α) : st.bind (fun a s => .done s (.ok a)) = st := by
  induction st with
  | done s r => cases r <;> rfl
  | asleep s w r ih => simp only [bind, ih]

theorem bind_bind (st : Step σ ε α) (f : α → Job σ ε β) (g : β → Job σ ε γ) :
    (st.bind f).bind g = st.bind fun a s => (f a s).bind g := by
  induction st with
  | done s r => cases r <;> rfl
  | asleep s w r ih => simp only [bind, ih]

theorem andFinally_bind_finish (c : Job σ ε Unit) (f : α → β) (st : Step σ ε α) :
    (st.andFinally c).bind (fun a => Job.finish (f a)) =
      (st.bind fun a => Job.finish (f a)).andFinally c := by
  induction st with
  | done s r => exact (Step.bind_bind (c s) _ _).trans (by cases r <;> rfl)
  | asleep s w r ih => simp only [andFinally, bind, ih]

end Step

instance {σ ε : Type} : LawfulMonad (Job σ ε) :=
  LawfulMonad.mk' _ (fun x => funext fun s => Step.bind_pure (x s)) (fun _ _ => rfl)
    (fun x f g => funext fun s => Step.bind_bind (x s) f g)

theorem Job.map_andFinally {σ ε α β : Type} (f : α → β) (x : Job σ ε α) (c : Job σ ε Unit) :
    f <$> Job.andFinally x c = Job.andFinally (f <$> x) c :=
  funext fun s => Step.andFinally_bind_finish c f (x s)

/-! ### Jobs that keep a view -/

/-- A step keeps a view: where it ends and wherever it falls asleep the view is `b`; woken in any
world, it goes on keeping that world's view. -/
def Step.Fixes {α β : Type} (v : World → β) : β → Step World Fault α → Prop
  | b, .done s _ => v s = b
  | b, .asleep s _ k => v s = b ∧ ∀ s', Step.Fixes v (v s') (k s')

/-- A job that keeps a view of every world it runs in. -/
structure Act.Fixes {α β : Type} (v : World → β) (a : Act α) : Prop where
  step : ∀ w, (a w).Fixes v (v w)

namespace Step.Fixes

variable {α β γ : Type} {v : World → β}

theorem bind {k : α → Act γ} (hk : ∀ x, Act.Fixes v (k x)) :
    ∀ {b : β} {st : Step World Fault α}, st.Fixes v b → (st.bind k).Fixes v b
  | _, .done s (.ok x), h => by
    change v s = _ at h
    subst h
    exact (hk x).step s
  | _, .done _ (.error _), h => h
  | _, .asleep _ _ _, ⟨h, hr⟩ => ⟨h, fun s' => bind hk (hr s')⟩

theorem handle {k : Fault → Act α} (hk : ∀ e, Act.Fixes v (k e)) :
    ∀ {b : β} {st : Step World Fault α}, st.Fixes v b → (st.handle k).Fixes v b
  | _, .done s (.error e), h => by
    change v s = _ at h
    subst h
    exact (hk e).step s
  | _, .done _ (.ok _), h => h
  | _, .asleep _ _ _, ⟨h, hr⟩ => ⟨h, fun s' => handle hk (hr s')⟩

theorem andFinally {c : Act Unit} (hc : Act.Fixes v c) :
    ∀ {b : β} {st : Step World Fault α}, st.Fixes v b → (st.andFinally c).Fixes v b
  | _, .done s r, h => by
    change v s = _ at h
    subst h
    have hk : ∀ _ : Unit, Act.Fixes v (fun s' => (Step.done s' r : Step World Fault α)) :=
      fun _ => ⟨fun _ => rfl⟩
    exact bind hk (hc.step s)
  | _, .asleep _ _ _, ⟨h, hr⟩ => ⟨h, fun s' => andFinally hc (hr s')⟩

theorem attempt :
    ∀ {b : β} {st : Step World Fault α}, st.Fixes v b →
      (st.attempt : Step World Fault (Except Fault α)).Fixes v b
  | _, .done _ _, h => h
  | _, .asleep _ _ _, ⟨h, hr⟩ => ⟨h, fun s' => attempt (hr s')⟩

theorem comp {δ : Type} (g : β → δ) :
    ∀ {b : β} {st : Step World Fault α}, st.Fixes v b → st.Fixes (g ∘ v) (g b)
  | _, .done _ _, h => congrArg g h
  | _, .asleep _ _ _, ⟨h, hr⟩ => ⟨congrArg g h, fun s' => comp g (hr s')⟩

end Step.Fixes

namespace Act.Fixes

variable {α β γ : Type} {v : World → β}

theorem pure (x : α) : Act.Fixes v (Pure.pure x : Act α) := ⟨fun _ => rfl⟩

theorem bind {a : Act α} {k : α → Act γ} (ha : Act.Fixes v a) (hk : ∀ x, Act.Fixes v (k x)) :
    Act.Fixes v (a >>= k) :=
  ⟨fun w => (ha.step w).bind hk⟩

theorem map (f : α → γ) {a : Act α} (ha : Act.Fixes v a) : Act.Fixes v (f <$> a) :=
  ha.bind fun x => pure (f x)

theorem fail (e : Fault) : Act.Fixes v (Job.fail e : Act α) := ⟨fun _ => rfl⟩

theorem throw (e : Fault) : Act.Fixes v (throw e : Act α) := fail e

theorem throw_bind (e : Fault) (k : α → Act γ) : Act.Fixes v (MonadExcept.throw e >>= k) :=
  ⟨fun _ => rfl⟩

theorem lift (r : Except Fault α) : Act.Fixes v (Act.lift r) := ⟨fun _ => rfl⟩

theorem get : Act.Fixes v (MonadStateOf.get : Act World) := ⟨fun _ => rfl⟩

theorem now : Act.Fixes v Act.now := get.bind fun _ => pure _

theorem desk (i : Nat) : Act.Fixes v (Act.desk i) := get.bind fun _ => pure _

theorem tryCatch {a : Act α} {h : Fault → Act α} (ha : Act.Fixes v a)
    (hh : ∀ e, Act.Fixes v (h e)) : Act.Fixes v (tryCatch a h) :=
  ⟨fun w => (ha.step w).handle hh⟩

theorem andFinally {a : Act α} {c : Act Unit} (ha : Act.Fixes v a) (hc : Act.Fixes v c) :
    Act.Fixes v (Job.andFinally a c) :=
  ⟨fun w => (ha.step w).andFinally hc⟩

theorem attempt {a : Act α} (ha : Act.Fixes v a) :
    Act.Fixes v (Job.attempt a : Act (Except Fault α)) :=
  ⟨fun w => (ha.step w).attempt⟩

theorem ite {c : Prop} {_ : Decidable c} {t e : Act α} (ht : Act.Fixes v t)
    (he : Act.Fixes v e) : Act.Fixes v (if c then t else e) := by
  split
  · exact ht
  · exact he

theorem sleep (seconds : Float) : Act.Fixes v (Act.sleep seconds) :=
  ⟨fun _ => ⟨rfl, fun _ => rfl⟩⟩

theorem sleepWhole (seconds : Int) : Act.Fixes v (Act.sleepWhole seconds) := by
  unfold Act.sleepWhole
  split
  · exact sleep _
  · dsimp only
    split
    · exact fail _
    · exact sleep _

theorem mapM {f : α → Act γ} (hf : ∀ x, Act.Fixes v (f x)) (xs : List α) :
    Act.Fixes v (xs.mapM f) := by
  suffices ∀ acc, Act.Fixes v (List.mapM.loop f xs acc) from this []
  induction xs with
  | nil => intro acc; exact pure _
  | cons x xs ih => intro acc; exact (hf x).bind fun y => ih (y :: acc)

theorem comp {δ : Type} (g : β → δ) {a : Act α} (ha : Act.Fixes v a) : Act.Fixes (g ∘ v) a :=
  ⟨fun w => (ha.step w).comp g⟩

theorem tables {a : Act α} (h : Act.Fixes World.standing a) : Act.Fixes World.tables a :=
  comp Standing.tables h

end Act.Fixes

/-! ### Jobs that read -/

def Paper.Market.record (m : Paper.Market) : Paper.Market :=
  { m with limiter := ⟨0.0, 0.0⟩, quotes := [] }

def Desk.record (d : Desk) : Desk := { d with market := d.market.record, tickers := ⟨0.0, []⟩ }

def World.record (w : World) : World := { w with desks := w.desks.map Desk.record }

theorem World.desk_record {β : Type} (g : Desk → β) (hg : ∀ d, g d.record = g d) (w : World)
    (j : Nat) : g (w.record.desks.getD j default) = g (w.desks.getD j default) := by
  simp only [World.record, Array.getD_eq_getD_getElem?, Array.getElem?_map]
  cases w.desks[j]? with
  | none => rfl
  | some d => exact hg d

theorem World.record_modify {w : World} {i : Nat} {f : Desk → Desk}
    (hf : ∀ h : i < w.desks.size, (f w.desks[i]).record = w.desks[i].record) :
    { w with desks := w.desks.modify i f }.record = w.record := by
  simp only [World.record, World.mk.injEq, and_true, true_and]
  apply Array.ext (by simp)
  intro j hj _
  simp only [Array.getElem_map, Array.getElem_modify]
  split
  · subst_vars
    exact hf (by simpa using hj)
  · rfl

/-- A job that reads the exchange and changes nothing but its upkeep. -/
abbrev Act.Reads {α : Type} (a : Act α) : Prop := Act.Fixes World.record a

/-- A view that the upkeep does not touch is kept by every job that reads. -/
theorem Act.Reads.fixes {α β : Type} {v : World → β} (hv : ∀ w, v w.record = v w) {a : Act α}
    (h : Act.Reads a) : Act.Fixes v a := by
  have hcomp : v ∘ World.record = v := funext hv
  refine ⟨fun w => ?_⟩
  have := (h.comp v).step w
  rwa [hcomp] at this

namespace Act

open Fixes

theorem modifyDesk_reads (i : Nat) {f : Desk → Desk} (hf : ∀ d, (f d).record = d.record) :
    Reads (modifyDesk i f) :=
  ⟨fun _ => World.record_modify fun _ => hf _⟩

theorem withMarket_reads {α : Type} (i : Nat) {g : Paper.Market → α × Paper.Market}
    (hg : ∀ m, (g m).2.record = m.record) : Reads (withMarket i g) := by
  refine ⟨fun w => World.record_modify fun h => ?_⟩
  simp only [Array.getD_eq_getD_getElem?, Array.getElem?_eq_getElem h, Option.getD_some]
  simp only [Desk.record, hg]

theorem call_reads (i : Nat) : Reads (call i) := by
  unfold call
  refine Fixes.bind (Fixes.desk i) fun d => ?_
  split
  · exact Fixes.throw_bind _ _
  · refine Fixes.bind Fixes.now fun now => ?_
    split
    refine Fixes.bind (modifyDesk_reads i fun _ => rfl) fun _ => ?_
    split
    · exact Fixes.sleep _
    · exact Fixes.pure _

theorem quote_record (m : Paper.Market) (symbol : String) :
    (m.quote symbol).2.record = m.record := by
  unfold Paper.Market.quote
  dsimp only
  split <;> rfl

theorem quote_reads (i : Nat) (symbol : String) : Reads (quote i symbol) :=
  Fixes.bind (call_reads i) fun _ => withMarket_reads i fun m => quote_record m symbol

theorem ticker_reads (i : Nat) (symbol session : String) : Reads (ticker i symbol session) := by
  unfold ticker
  dsimp only
  refine Fixes.bind (Fixes.desk i) fun _ => Fixes.bind Fixes.now fun _ => ?_
  split
  · exact Fixes.bind (modifyDesk_reads i fun _ => rfl) fun _ => Fixes.pure _
  · exact Fixes.bind (quote_reads i symbol) fun _ => Fixes.bind Fixes.now fun _ =>
      Fixes.bind (modifyDesk_reads i fun _ => rfl) fun _ => Fixes.pure _

theorem call_read_reads {α : Type} (i : Nat) (f : Desk → α) :
    Reads (call i >>= fun _ => desk i >>= fun d => Pure.pure (f d)) :=
  Fixes.bind (call_reads i) fun _ => Fixes.bind (Fixes.desk i) fun _ => Fixes.pure _

theorem walletBalances_reads (i : Nat) : Reads (walletBalances i) := call_read_reads i _

theorem positions_reads (i : Nat) : Reads (positions i) := call_read_reads i _

theorem equity_reads (i : Nat) : Reads (equity i) := call_read_reads i _

theorem activeOrders_reads (i : Nat) (symbol which : String) :
    Reads (activeOrders i symbol which) :=
  call_read_reads i _

theorem accountBalances_reads (i : Nat) (symbol : String) : Reads (accountBalances i symbol) :=
  Fixes.bind (walletBalances_reads i) fun _ => Fixes.pure _

theorem absolutePrice_reads (i : Nat) (symbol : String) (side : Side) (offset session : String) :
    Reads (absolutePrice i symbol side offset session) := by
  unfold absolutePrice
  dsimp only
  split
  · split
    · exact Fixes.throw_bind _ _
    · exact Fixes.lift _
  · refine Fixes.bind (ticker_reads i symbol session) fun _ => ?_
    split <;> exact Fixes.lift _

theorem orderSizeFor_reads (i : Nat) (symbol : String) (side : Side) (price : Float)
    (q : Quantity) : Reads (orderSizeFor i symbol side price q) := by
  unfold orderSizeFor
  dsimp only
  refine Fixes.bind (Fixes.desk i) fun _ => ?_
  split
  · split
    · exact Fixes.throw_bind _ _
    · exact Fixes.bind (Fixes.lift _) fun _ => Fixes.pure _
  · exact Fixes.bind (accountBalances_reads i symbol) fun _ => Fixes.lift _

theorem positionToAmount_reads (i : Nat) (symbol target : String) (side : Side)
    (amount : String) : Reads (positionToAmount i symbol target side amount) := by
  unfold positionToAmount
  dsimp only
  refine Fixes.bind (Fixes.desk i) fun _ => ?_
  split
  · exact Fixes.pure _
  · split
    · exact Fixes.pure _
    · split
      · exact Fixes.bind (positions_reads i) fun _ => Fixes.bind (Fixes.lift _) fun _ =>
          Fixes.bind (Fixes.lift _) fun _ => Fixes.pure _
      · exact Fixes.bind (accountBalances_reads i symbol) fun _ =>
          Fixes.bind (Fixes.lift _) fun _ => Fixes.pure _

theorem ladderTotal_reads (i : Nat) (symbol : String) (side : Side) (q : Quantity) (count : Int)
    (start stop : Float) (easing : String) :
    Reads (ladderTotal i symbol side q count start stop easing) := by
  unfold ladderTotal
  dsimp only
  refine Fixes.bind (Fixes.desk i) fun _ => ?_
  split
  · split
    · refine Fixes.bind (Fixes.lift _) fun _ => ?_
      split
      · exact Fixes.pure _
      · exact Fixes.pure _
    · exact Fixes.pure _
  · split
    · exact Fixes.pure _
    · exact Fixes.bind (accountBalances_reads i symbol) fun _ => Fixes.lift _

theorem wallclock_reads : Reads wallclock :=
  Fixes.bind Fixes.now fun _ => Fixes.bind (Fixes.lift _) fun _ => Fixes.pure _

end Act

theorem World.standing_record (w : World) : w.record.standing = w.standing := by
  unfold World.standing
  congr 1
  · simp [World.record]
  · exact funext (World.desk_record Desk.table (fun _ => rfl) w)
  · exact funext (World.desk_record (·.algos.registrations) (fun _ => rfl) w)

theorem World.lifecycle_record (w : World) : w.record.lifecycle = w.lifecycle := by
  unfold World.lifecycle
  congr 1
  · simp [World.record]
  · exact funext (World.desk_record Desk.head (fun _ => rfl) w)

/-! ### Jobs that trade -/

/-- The lifecycle and the standing of the world: what no command changes but the algorithmic
orders, which register while they work. -/
def World.frame (w : World) : Lifecycle × Standing := (w.lifecycle, w.standing)

def World.shape (w : World) : Lifecycle × (Nat → CommandTable) := (w.lifecycle, w.tables)

namespace Act

abbrev Stands {α : Type} (a : Act α) : Prop := Act.Fixes World.standing a

/-- A job that trades: it places, looks up and cancels orders and notes what it placed, and keeps
the lifecycle and the standing. -/
abbrev Trades {α : Type} (a : Act α) : Prop := Act.Fixes World.frame a

/-- A job that keeps the lifecycle and the command tables. -/
abbrev Steady {α : Type} (a : Act α) : Prop := Act.Fixes World.shape a

theorem Trades.stands {α : Type} {a : Act α} (h : Trades a) : Stands a :=
  h.comp Prod.snd

theorem Trades.steady {α : Type} {a : Act α} (h : Trades a) : Steady a :=
  h.comp fun f : Lifecycle × Standing => (f.1, f.2.tables)

theorem Steady.tables {α : Type} {a : Act α} (h : Steady a) : Act.Fixes World.tables a :=
  h.comp Prod.snd

theorem Reads.stands {α : Type} {a : Act α} (h : Reads a) : Stands a :=
  h.fixes World.standing_record

theorem Reads.trades {α : Type} {a : Act α} (h : Reads a) : Trades a :=
  h.fixes fun w => by simp only [World.frame, World.lifecycle_record, World.standing_record]

theorem modifyDesk_trades (i : Nat) {f : Desk → Desk}
    (hf : ∀ d, (f d).head = d.head ∧ (f d).table = d.table ∧
      (f d).algos.registrations = d.algos.registrations) : Trades (modifyDesk i f) :=
  ⟨fun _ => Prod.ext (World.lifecycle_modify fun d _ => (hf d).1)
    (World.standing_modify fun d => (hf d).2)⟩

theorem withMarket_trades {α : Type} (i : Nat) {g : Paper.Market → α × Paper.Market}
    (hg : ∀ m, (g m).2.closed = m.closed) : Trades (withMarket i g) := by
  refine ⟨fun w => ?_⟩
  show World.frame { w with desks := w.desks.modify i fun d =>
    { d with market := (g (w.desks.getD i default).market).2 } } = World.frame w
  refine Prod.ext (World.lifecycle_modify fun d hd => ?_) (World.standing_modify fun _ => ⟨rfl, rfl⟩)
  rw [Option.mem_def] at hd
  simp [Desk.head, Array.getD_eq_getD_getElem?, hd, hg]

theorem call_market_trades {α : Type} (i : Nat) {g : Paper.Market → α × Paper.Market}
    (hg : ∀ m, (g m).2.closed = m.closed) : Trades (call i >>= fun _ => withMarket i g) :=
  Fixes.bind (call_reads i).trades fun _ => withMarket_trades i hg

theorem placeLimit_trades (i : Nat) (symbol : String) (amount price : Float) (side : Side) :
    Trades (placeLimit i symbol amount price side) :=
  call_market_trades i fun m => m.placeLimit_closed symbol amount price side

theorem placeMarket_trades (i : Nat) (symbol : String) (amount : Float) (side : Side) :
    Trades (placeMarket i symbol amount side) :=
  call_market_trades i fun m => m.placeMarket_closed symbol amount side

theorem placeStop_trades (i : Nat) (symbol : String) (amount price : Float) (side : Side) :
    Trades (placeStop i symbol amount price side) :=
  call_market_trades i fun _ => rfl

theorem cancelOrders_trades (i : Nat) (ids : List String) : Trades (cancelOrders i ids) :=
  call_market_trades i fun m => m.cancel_closed ids

theorem order_trades (i : Nat) (id : String) : Trades (order i id) := by
  refine Fixes.bind (call_reads i).trades fun _ =>
    Fixes.bind (withMarket_trades i fun m => m.lookAt_closed id) fun r => ?_
  split
  · exact Fixes.pure _
  · exact Fixes.throw _

theorem notify_trades (message : String) (options : List (String × String))
    (where? : Option String) : Trades (notify message options where?) :=
  ⟨fun _ => rfl⟩

theorem wholeFloat_trades (n : Int) : Trades (wholeFloat n) := by
  unfold wholeFloat
  dsimp only
  split
  · exact Fixes.fail _
  · exact Fixes.pure _

theorem stopRequested_trades (c : Scope) (id : String) : Trades (stopRequested c id) :=
  Fixes.bind (Fixes.desk _) fun _ => Fixes.pure _

theorem remember_trades (c : Scope) (tag id : String) : Trades (remember c tag id) :=
  modifyDesk_trades _ fun _ => ⟨rfl, rfl, rfl⟩

end Act

namespace Handler

open Act

theorem prepare_reads (c : Scope) (p : Params) (offset : String) (fromOpposite : Bool) :
    Reads (prepare c p offset fromOpposite) := by
  unfold prepare
  dsimp only
  refine Fixes.bind (Fixes.lift _) fun _ =>
    Fixes.bind (positionToAmount_reads _ _ _ _ _) fun _ => ?_
  split
  · exact Fixes.pure _
  · refine Fixes.bind (absolutePrice_reads _ _ _ _ _) fun _ =>
      Fixes.bind (orderSizeFor_reads _ _ _ _ _) fun _ => ?_
    split
    · exact Fixes.pure _
    · exact Fixes.pure _

theorem limitOrder_trades (c : Scope) (p : Params) : Trades (limitOrder c p) := by
  unfold limitOrder
  refine Fixes.bind (prepare_reads _ _ _ _).trades fun _ => ?_
  split
  · exact Fixes.bind (Fixes.lift _) fun _ => Fixes.pure _
  · exact Fixes.bind (placeLimit_trades _ _ _ _ _) fun _ =>
      Fixes.bind (remember_trades _ _ _) fun _ => Fixes.pure _

theorem limitWith_trades (c : Scope) (args : List Argument) : Trades (limitWith c args) :=
  Fixes.bind wallclock_reads.trades fun _ => limitOrder_trades _ _

theorem marketOrder_trades (c : Scope) (p : Params) : Trades (marketOrder c p) := by
  unfold marketOrder
  refine Fixes.bind (prepare_reads _ _ _ _).trades fun _ => ?_
  split
  · exact Fixes.bind (Fixes.lift _) fun _ => Fixes.pure _
  · exact Fixes.bind (placeMarket_trades _ _ _ _) fun _ => Fixes.pure _

theorem stopMarketOrder_trades (c : Scope) (p : Params) : Trades (stopMarketOrder c p) := by
  unfold stopMarketOrder
  dsimp only
  split
  · refine Fixes.bind (prepare_reads _ _ _ _).trades fun _ => ?_
    split
    · exact Fixes.bind (Fixes.lift _) fun _ => Fixes.pure _
    · exact Fixes.bind (placeStop_trades _ _ _ _ _) fun _ =>
        Fixes.bind (remember_trades _ _ _) fun _ => Fixes.pure _
  · exact Fixes.throw_bind _ _

theorem cancelOrders_trades (c : Scope) (p : Params) : Trades (cancelOrders c p) := by
  unfold cancelOrders
  dsimp only
  generalize Text.lower (Text.trim (p.get "which")) = which
  split
  · refine Fixes.bind (modifyDesk_trades _ fun d =>
      ⟨rfl, rfl, d.algos.registrations_cancelMatching _ _ _⟩) fun _ => ?_
    have cancel : ∀ (ids : Act (List String)), Trades ids →
        Trades (ids >>= fun ids => Act.cancelOrders c.desk ids >>= fun _ =>
          (Pure.pure (ids.length : Int) : Act Int)) :=
      fun _ h => Fixes.bind h fun _ => Fixes.bind (Act.cancelOrders_trades _ _) fun _ =>
        Fixes.pure _
    split
    · exact cancel _ (activeOrders_reads _ _ _).trades
    · exact cancel _ (activeOrders_reads _ _ _).trades
    · exact cancel _ (activeOrders_reads _ _ _).trades
    · exact Fixes.bind (Fixes.desk _) fun _ => cancel _ (Fixes.pure _)
    · exact Fixes.bind (Fixes.desk _) fun _ => cancel _ (Fixes.pure _)
  · exact Fixes.throw_bind _ _

theorem placeRung_trades (c : Scope) (side : Side) (units tag : String) (price size : Float) :
    Trades (placeRung c side units tag price size) :=
  Fixes.tryCatch (limitWith_trades _ _) fun _ => Fixes.pure _

theorem placeScaled_trades (c : Scope) (p : Params) : Trades (placeScaled c p) := by
  unfold placeScaled
  dsimp only
  refine Fixes.bind (Fixes.lift _) fun _ => Fixes.bind (Fixes.lift _) fun _ =>
    Fixes.bind (positionToAmount_reads _ _ _ _ _).trades fun _ => Fixes.ite (Fixes.pure _) ?_
  refine Fixes.bind (absolutePrice_reads _ _ _ _ _).trades fun _ =>
    Fixes.bind (absolutePrice_reads _ _ _ _ _).trades fun _ =>
    Fixes.bind (ladderTotal_reads _ _ _ _ _ _ _ _).trades fun _ => Fixes.ite (Fixes.pure _) ?_
  exact Fixes.bind Fixes.get fun _ => Fixes.bind (Fixes.desk _) fun _ =>
    Fixes.bind (Fixes.lift _) fun _ => Fixes.mapM (fun _ => placeRung_trades _ _ _ _ _ _) _

theorem placeSlices_trades (c : Scope) (id : String) (side : Side) (units : String) (count : Int)
    (gap : Float) : ∀ (i : Nat) (sizes : List Float) (done : List (PlacedOrder String)),
      Trades (placeSlices c id side units count gap i sizes done)
  | _, [], _ => Fixes.pure _
  | i, size :: rest, done => by
    unfold placeSlices
    dsimp only
    refine Fixes.bind (stopRequested_trades _ _) fun _ => ?_
    refine Fixes.ite (Fixes.throw_bind _ _) ?_
    refine Fixes.bind (marketOrder_trades _ _) fun _ => ?_
    have next := placeSlices_trades c id side units count gap (i + 1) rest
    exact Fixes.ite (Fixes.bind (Fixes.sleep _) fun _ => next _) (next _)

theorem icebergTurn_trades (c : Scope) (id : String) (plan : IcebergPlan) (st : Iceberg) :
    Trades (icebergTurn c id plan st) := by
  unfold icebergTurn
  dsimp only
  refine Fixes.bind (stopRequested_trades _ _) fun _ => Fixes.bind Fixes.now fun _ => ?_
  refine Fixes.ite ?_ ?_
  · split
    · exact Fixes.bind (Act.cancelOrders_trades _ _) fun _ => Fixes.pure _
    · exact Fixes.pure _
  · refine Fixes.bind (quote_reads _ _).trades fun _ => ?_
    split
    · refine Fixes.ite ?_ (Fixes.pure _)
      refine Fixes.bind (limitWith_trades _ _) fun _ => ?_
      split
      · exact Fixes.pure _
      · exact Fixes.pure _
    · refine Fixes.bind (order_trades _ _) fun _ => Fixes.ite (Fixes.pure _) ?_
      refine Fixes.ite (Fixes.pure _) (Fixes.ite ?_ (Fixes.pure _))
      exact Fixes.bind (Act.cancelOrders_trades _ _) fun _ => Fixes.pure _

theorem icebergLoop_trades (c : Scope) (id : String) (plan : IcebergPlan) :
    ∀ (fuel : Nat) (st : Iceberg), Trades (icebergLoop c id plan fuel st)
  | 0, _ => Fixes.throw _
  | fuel + 1, st => by
    unfold icebergLoop
    refine Fixes.bind (Fixes.desk _) fun _ => Fixes.ite (Fixes.pure _) ?_
    refine Fixes.bind (icebergTurn_trades _ _ _ _) fun _ => ?_
    split
    · exact Fixes.pure _
    · exact Fixes.bind (Fixes.sleep _) fun _ => icebergLoop_trades c id plan fuel _

theorem pollNearest_trades (c : Scope) (tag : String) (distance : Float)
    (queue into : List (PlacedOrder String)) :
    Trades (pollNearest c tag distance queue into) := by
  unfold pollNearest
  split
  · exact Fixes.pure _
  · refine Fixes.bind (order_trades _ _) fun _ => ?_
    -- an order that filled is answered by a limit order on the other side
    refine Fixes.ite (Fixes.bind (limitWith_trades _ _) fun _ => Fixes.pure _) ?_
    exact Fixes.ite (Fixes.pure _) (Fixes.pure _)

theorem rally_trades (c : Scope) (id tag : String) (distance : Float) (endless : Bool) :
    ∀ (fuel : Nat) (pings pongs : List (PlacedOrder String)) (backoff : Backoff),
      Trades (rally c id tag distance endless fuel pings pongs backoff)
  | 0, _, _, _ => Fixes.throw _
  | fuel + 1, pings, pongs, backoff => by
    unfold rally
    dsimp only
    refine Fixes.ite (Fixes.pure _) ?_
    refine Fixes.bind (stopRequested_trades _ _) fun _ => ?_
    refine Fixes.ite ?_ ?_
    · exact Fixes.bind (Act.cancelOrders_trades _ _) fun _ =>
        Fixes.bind (Act.cancelOrders_trades _ _) fun _ => Fixes.pure _
    -- a round polls the pings, then the pongs, each when there are any, and sleeps
    · refine Fixes.ite (Fixes.bind (Fixes.pure _) fun _ => ?_)
        (Fixes.bind (pollNearest_trades _ _ _ _ _) fun _ => ?_)
      all_goals
        refine Fixes.ite (Fixes.bind (pollNearest_trades _ _ _ _ _) fun _ => ?_)
          (Fixes.bind (Fixes.pure _) fun _ => ?_)
      all_goals
        exact Fixes.bind (Fixes.sleep _) fun _ => rally_trades c id tag distance endless fuel _ _ _

theorem wait_trades (p : Params) : Trades (wait p) :=
  Fixes.bind (Fixes.lift _) fun _ => Fixes.bind (Fixes.sleepWhole _) fun _ => Fixes.pure _

theorem notify_trades (p : Params) : Trades (notify p) :=
  Fixes.bind (Act.notify_trades _ _ _) fun _ => Fixes.pure _

theorem balance_trades (c : Scope) : Trades (balance c) :=
  Fixes.bind (accountBalances_reads _ _).trades fun _ => Fixes.bind (quote_reads _ _).trades fun _ =>
    Fixes.bind (Fixes.lift _) fun _ => Fixes.bind (Fixes.lift _) fun _ =>
    Fixes.bind (Fixes.lift _) fun _ => Fixes.bind (Fixes.lift _) fun _ =>
    Fixes.bind (Fixes.lift _) fun _ => Fixes.bind (Fixes.lift _) fun _ =>
    Fixes.bind (Fixes.desk _) fun _ => Fixes.bind (Act.notify_trades _ _ _) fun _ =>
    Fixes.pure _

theorem contractsBalance_trades (c : Scope) : Trades (contractsBalance c) :=
  Fixes.bind (equity_reads _).trades fun _ => Fixes.bind (Fixes.lift _) fun _ =>
    Fixes.bind (Fixes.lift _) fun _ => Fixes.bind (Fixes.desk _) fun _ =>
    Fixes.bind (Act.notify_trades _ _ _) fun _ => Fixes.pure _

theorem defaults_trades (cmd : Command) (deskName : String) : Trades (defaults cmd deskName) := by
  unfold defaults
  cases cmd <;> first
    | exact Fixes.pure _
    | exact Fixes.bind wallclock_reads.trades fun _ => Fixes.pure _

/-! ### What every command keeps: the lifecycle and the command tables -/

theorem register_steady (c : Scope) (side : Side) (tag : String) : Steady (register c side tag) := by
  refine ⟨fun w => ?_⟩
  show World.shape { w with algoCount := w.algoCount + 1, desks := w.desks.modify c.desk _ } =
    World.shape w
  exact Prod.ext (World.lifecycle_modify fun _ _ => rfl) (World.tables_modify fun _ => rfl)

theorem release_steady (c : Scope) (id : String) : Steady (release c id) :=
  ⟨fun w => Prod.ext (World.lifecycle_modify (w := w) fun _ _ => rfl)
    (World.tables_modify (w := w) fun _ => rfl)⟩

theorem twapOrder_steady (c : Scope) (p : Params) : Steady (twapOrder c p) := by
  unfold twapOrder
  dsimp only
  refine Fixes.bind (Fixes.lift _) fun _ => Fixes.bind (Fixes.lift _) fun _ =>
    Fixes.ite (Fixes.throw_bind _ _) ?_
  refine Fixes.bind (Fixes.lift _) fun _ => Fixes.bind (Fixes.lift _) fun _ =>
    Fixes.bind (positionToAmount_reads _ _ _ _ _).trades.steady fun _ => Fixes.ite (Fixes.pure _) ?_
  -- both ways of sizing the slices end in the same registered run
  refine Fixes.ite ?_ ?_
  · exact Fixes.bind Fixes.get fun _ => Fixes.bind (Fixes.lift _) fun _ =>
      Fixes.bind (register_steady _ _ _) fun _ =>
      Fixes.andFinally (placeSlices_trades _ _ _ _ _ _ _ _ _).steady (release_steady _ _)
  · exact Fixes.bind (Fixes.lift _) fun _ => Fixes.bind (Fixes.pure _) fun _ =>
      Fixes.bind (register_steady _ _ _) fun _ =>
      Fixes.andFinally (placeSlices_trades _ _ _ _ _ _ _ _ _).steady (release_steady _ _)

theorem icebergOrder_steady (fuel : Nat) (c : Scope) (p : Params) :
    Steady (icebergOrder fuel c p) := by
  unfold icebergOrder
  dsimp only
  refine Fixes.bind (Fixes.lift _) fun _ => Fixes.bind (Fixes.lift _) fun _ => ?_
  split
  · exact Fixes.pure _
  · refine Fixes.ite (Fixes.pure _) ?_
    exact Fixes.bind Fixes.now fun _ => Fixes.bind (wholeFloat_trades _).steady fun _ =>
      Fixes.bind (Fixes.desk _) fun _ => Fixes.bind Fixes.get fun _ =>
      Fixes.bind (register_steady _ _ _) fun _ =>
      Fixes.map _ (Fixes.andFinally (icebergLoop_trades _ _ _ _ _).steady (release_steady _ _))

theorem pingPongOrder_steady (fuel : Nat) (c : Scope) (p : Params) :
    Steady (pingPongOrder fuel c p) := by
  unfold pingPongOrder
  dsimp only
  refine Fixes.ite (Fixes.throw_bind _ _) ?_
  refine Fixes.bind (placeScaled_trades _ _).steady fun _ => ?_
  split
  · exact Fixes.pure _
  · exact Fixes.bind (Fixes.desk _) fun _ => Fixes.bind (register_steady _ _ _) fun _ =>
      Fixes.andFinally (rally_trades _ _ _ _ _ _ _ _ _).steady (release_steady _ _)

theorem perform_steady {run : String → List Argument → Act Reply}
    (hrun : ∀ name args, Steady (run name args)) (c : Scope) (cmd : Command) (p : Params) :
    Steady (perform run c cmd p) := by
  unfold perform
  cases cmd with
  | wait => exact Fixes.map _ (wait_trades _).steady
  | scaledOrder => exact Fixes.map _ (placeScaled_trades _ _).steady
  | twapOrder => exact Fixes.map _ (twapOrder_steady _ _)
  | icebergOrder => exact icebergOrder_steady _ _ _
  | pingPongOrder => exact Fixes.map _ (pingPongOrder_steady _ _ _)
  | stopMarketOrder => exact Fixes.map _ (stopMarketOrder_trades _ _).steady
  | callMacro =>
    refine Fixes.bind (Fixes.desk _) fun _ => ?_
    split
    · exact Fixes.throw _
    · exact Fixes.map _ (Fixes.mapM (fun _ => hrun _ _) _)
  | notify => exact Fixes.map _ (notify_trades _).steady
  | balance => exact Fixes.map _ (balance_trades _).steady
  | contractsBalance => exact Fixes.map _ (contractsBalance_trades _).steady
  | limitOrder => exact Fixes.map _ (limitOrder_trades _ _).steady
  | marketOrder => exact Fixes.map _ (marketOrder_trades _ _).steady
  | cancelOrders => exact Fixes.map _ (cancelOrders_trades _ _).steady

theorem execute_steady : ∀ (depth : Nat) (c : Scope) (name : String) (args : List Argument),
    Steady (execute depth c name args)
  | 0, _, _, _ => Fixes.throw _
  | depth + 1, c, name, args => by
    unfold execute
    refine Fixes.bind (Fixes.desk _) fun _ => ?_
    split
    · exact Fixes.throw _
    · exact execute_steady depth c _ _
    · exact Fixes.bind (defaults_trades _ _).steady fun _ =>
        perform_steady (execute_steady depth c) _ _ _

theorem executeCommand_steady (c : Scope) (name : String) (args : List Argument) :
    Steady (executeCommand c name args) :=
  Fixes.get.bind fun w => execute_steady w.frames c name args

end Handler

end TradeDesk
