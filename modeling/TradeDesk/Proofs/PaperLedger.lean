import Mathlib
import TradeDesk.Exchange.World
import TradeDesk.Wallet.Sizing

/-!
The books of the simulated exchange: each order is resting, filled or cancelled, and each fill
posts its order's whole amount once (`Market.Reachable.ledger_invariant`).
-/

namespace TradeDesk

namespace Binary64

theorem lt_iff_unpack {a b : Float} : a < b ↔ a.toModel.unpack.lt b.toModel.unpack = true :=
  decide_eq_true_iff

theorem le_iff_unpack {a b : Float} : a ≤ b ↔ a.toModel.unpack.le b.toModel.unpack = true :=
  decide_eq_true_iff

theorem unpack_zero : (0.0 : Float).toModel.unpack = .zero .positive := rfl

theorem pack_unpack (m : Float.Model) : Float.Model.pack m.unpack = m := by
  cases m with
  | mk b hb =>
    simp only [Float.Model.pack, Float.Model.unpack]
    congr 1
    rw [Float.Model.UnpackedFloat.pack_unpack_of_valid hb]

theorem sub_zero (a : Float) : a - 0.0 = a := by
  have hsub : ∀ x : Float.Model.UnpackedFloat, x.sub .binary64 (.zero .positive) = x := by
    intro x
    cases x with
    | zero s => cases s <;> rfl
    | _ => rfl
  show Float.ofModel (Float.Model.pack (a.toModel.unpack.sub .binary64 (0.0 : Float).toModel.unpack)) = a
  rw [unpack_zero, hsub, pack_unpack]

theorem unpacked_of_pos {x : Float.Model.UnpackedFloat} (h : (Float.Model.UnpackedFloat.zero .positive).lt x = true) :
    x.le (.zero .positive) = false ∧ x.le x = true := by
  cases x with
  | finite s m e hm =>
    cases s <;> simp_all [Float.Model.UnpackedFloat.lt, Float.Model.UnpackedFloat.le,
      Float.Model.UnpackedFloat.compare]
  | infinity s =>
    cases s with
    | positive => exact ⟨rfl, rfl⟩
    | negative => simp [Float.Model.UnpackedFloat.lt, Float.Model.UnpackedFloat.compare] at h
  | zero s => cases s <;> simp_all [Float.Model.UnpackedFloat.lt, Float.Model.UnpackedFloat.compare]
  | notANumber => simp_all [Float.Model.UnpackedFloat.lt, Float.Model.UnpackedFloat.compare]

theorem not_le_zero_of_pos {a : Float} (h : 0.0 < a) : ¬ a ≤ 0.0 := by
  rw [lt_iff_unpack, unpack_zero] at h
  rw [le_iff_unpack, unpack_zero, (unpacked_of_pos h).1]
  simp

theorem le_refl_of_pos {a : Float} (h : 0.0 < a) : a ≤ a := by
  rw [lt_iff_unpack, unpack_zero] at h
  rw [le_iff_unpack, (unpacked_of_pos h).2]

theorem ne_zero_of_pos {a : Float} (h : 0.0 < a) : a ≠ 0.0 := by
  rintro rfl
  exact absurd h (by decide)

end Binary64

namespace Act

def Refused {α : Type} (w : World) (a : Act α) : Prop := a w = .done w (.error .closedExchange)

def AdapterRefused (w : World) (i : Nat) : Prop :=
  (∀ symbol, Refused w (quote i symbol)) ∧ Refused w (walletBalances i) ∧
  (∀ symbol amount price side, Refused w (placeLimit i symbol amount price side)) ∧
  (∀ symbol amount side, Refused w (placeMarket i symbol amount side)) ∧
  (∀ symbol amount price side, Refused w (placeStop i symbol amount price side)) ∧
  (∀ symbol which, Refused w (activeOrders i symbol which)) ∧
  (∀ ids, Refused w (cancelOrders i ids)) ∧ (∀ id, Refused w (order i id)) ∧
  Refused w (positions i) ∧ Refused w (equity i)

theorem call_refused {w : World} {i : Nat} (h : (w.desks.getD i default).market.closed = true) :
    Refused w (call i) := by
  unfold call
  dsimp only [bind, desk]
  change Step.bind _ (Step.done w (.ok (w.desks.getD i default))) = _
  dsimp only [Step.bind]
  simp only [h, ↓reduceIte]
  rfl

theorem Refused.bind {w : World} {α β : Type} {a : Act α} (h : Refused w a) (k : α → Act β) :
    Refused w (a >>= k) := by
  show (a w).bind k = _
  rw [h]
  rfl

theorem adapterRefused {w : World} {i : Nat} (h : (w.desks.getD i default).market.closed = true) :
    AdapterRefused w i :=
  have hc := call_refused h
  ⟨fun _ => hc.bind _, hc.bind _, fun _ _ _ _ => hc.bind _, fun _ _ _ => hc.bind _,
    fun _ _ _ _ => hc.bind _, fun _ _ => hc.bind _, fun _ => hc.bind _, fun _ => hc.bind _,
    hc.bind _, hc.bind _⟩

end Act

namespace Paper

namespace Order

inductive State where
  | resting
  | filled
  | cancelled
deriving DecidableEq

/-- What the fields of an order are in each state: nothing executed and not cancelled while
resting, all of it executed once filled, nothing executed once cancelled. -/
def In (o : Order) : State → Prop
  | .resting => o.executed = 0.0 ∧ o.cancelled = false
  | .filled => o.executed = o.amount ∧ o.cancelled = false
  | .cancelled => o.executed = 0.0 ∧ o.cancelled = true

/-- An order for a positive amount that is in one of the three states. -/
structure Kept (o : Order) : Prop where
  pos : 0.0 < o.amount
  state : ∃ s, o.In s

def filledUp (o : Order) : Order := { o with executed := o.amount }

def withdrawn (o : Order) : Order := { o with cancelled := true }

def signed (o : Order) : Float :=
  match o.side with
  | .buy => o.amount
  | .sell => -o.amount

/-- The price an order fills at under a quote: a stop at the touch on its side, any other order
at its own price. -/
def fillPrice (o : Order) (t : Ticker) : Float :=
  match o.kind, o.side with
  | .stop, .buy => t.ask
  | .stop, .sell => t.bid
  | _, _ => o.price

variable {o : Order}

theorem Kept.unique (h : o.Kept) : ∀ {s s' : State}, o.In s → o.In s' → s = s'
  | .resting, .resting, _, _ | .filled, .filled, _, _ | .cancelled, .cancelled, _, _ => rfl
  | .resting, .filled, ⟨h0, _⟩, ⟨ha, _⟩ | .filled, .resting, ⟨ha, _⟩, ⟨h0, _⟩ =>
    absurd (ha.symm.trans h0) (Binary64.ne_zero_of_pos h.pos)
  | .resting, .cancelled, ⟨_, hc⟩, ⟨_, hc'⟩ | .cancelled, .resting, ⟨_, hc'⟩, ⟨_, hc⟩
  | .filled, .cancelled, ⟨_, hc⟩, ⟨_, hc'⟩ | .cancelled, .filled, ⟨_, hc'⟩, ⟨_, hc⟩ =>
    absurd (hc.symm.trans hc') Bool.false_ne_true

theorem Kept.existsUnique (h : o.Kept) : ∃! s, o.In s := by
  obtain ⟨s, hs⟩ := h.state
  exact ⟨s, hs, fun _ hs' => h.unique hs' hs⟩

theorem isFilled_of_resting (hp : 0.0 < o.amount) (h : o.In .resting) : o.isFilled = false := by
  simp [isFilled, h.1, Binary64.not_le_zero_of_pos hp]

theorem Kept.isOpen_iff (h : o.Kept) : o.isOpen = true ↔ o.In .resting := by
  obtain ⟨s, hs⟩ := h.state
  cases s with
  | resting => simp [isOpen, hs.2, isFilled_of_resting h.pos hs, hs]
  | filled =>
    have hf : o.isFilled = true := by simp [isFilled, hs.1, Binary64.le_refl_of_pos h.pos]
    simp only [isOpen, hf, Bool.or_true, Bool.not_true, Bool.false_eq_true, false_iff]
    exact fun hr => absurd (h.unique hr hs) (by decide)
  | cancelled =>
    simp only [isOpen, hs.2, Bool.true_or, Bool.not_true, Bool.false_eq_true, false_iff]
    exact fun hr => absurd (h.unique hr hs) (by decide)

theorem Kept.not_filled_of_open (h : o.Kept) (ho : o.isOpen = true) : o.isFilled = false :=
  isFilled_of_resting h.pos (h.isOpen_iff.mp ho)

theorem Kept.filledUp (h : o.Kept) (ho : o.isOpen = true) :
    o.filledUp.Kept ∧ o.filledUp.isFilled = true := by
  have hr := h.isOpen_iff.mp ho
  have hf : o.filledUp.isFilled = true := by
    simp [Order.filledUp, isFilled, Binary64.le_refl_of_pos h.pos]
  exact ⟨⟨h.pos, .filled, rfl, hr.2⟩, hf⟩

theorem Kept.withdrawn (h : o.Kept) (ho : o.isOpen = true) :
    o.withdrawn.Kept ∧ o.withdrawn.isOpen = false ∧ o.withdrawn.isFilled = false := by
  have hr := h.isOpen_iff.mp ho
  refine ⟨⟨h.pos, .cancelled, hr.1, rfl⟩, by simp [Order.withdrawn, isOpen], ?_⟩
  exact isFilled_of_resting (o := o) h.pos hr

theorem crossing_fillPrice {t : Ticker} {p : Float} (h : o.crossing t = some p) :
    p = o.fillPrice t := by
  unfold crossing at h
  unfold fillPrice
  split at h
  case h_5 => simp at h
  all_goals split at h <;> simp_all

end Order

/-- What fills move: the wallet of a spot market and the positions of a contracts market. -/
structure Books where
  wallet : List (String × Float)
  held : List (String × Float)

/-- The books after an order fills in full at a price: on a spot market the asset gains the
order's signed amount and the currency pays it at the price; on a contracts market the position
of the symbol moves by it. -/
def Books.post (v : Venue) (b : Books) (o : Order) (price : Float) : Books :=
  match v with
  | .spot =>
    let pair := SymbolPair.ofSymbol o.symbol
    let w := Assoc.set b.wallet pair.asset ((Assoc.find? b.wallet pair.asset).getD 0.0 + o.signed)
    let paid := (Assoc.find? w pair.currency).getD 0.0 - o.signed * price
    { b with wallet := Assoc.set w pair.currency paid }
  | .contracts =>
    { b with held := Assoc.set b.held o.symbol ((Assoc.find? b.held o.symbol).getD 0.0 + o.signed) }

namespace Market

def books (m : Market) : Books := ⟨m.wallet, m.held⟩

def withBooks (m : Market) (b : Books) : Market := { m with wallet := b.wallet, held := b.held }

def orderIds (n : Nat) : List String := (List.range n).map fun k => "paper-" ++ toString (k + 1)

def filledBy (m m' : Market) : List Order :=
  m'.orders.filter fun o => o.isFilled && (m.find? o.id).all Order.isOpen

def settleBy (m : Market) (sel : Order → Option Float) : Market :=
  m.orders.foldl (fun acc o => match sel o with | some p => acc.settle o p | none => acc) m

def firing (t : Ticker) (symbol : String) (o : Order) : Option Float :=
  if o.isOpen && o.symbol == symbol then o.crossing t else none

/-- A market whose orders carry the ids `paper-1`, `paper-2`, ... in placing order and are each
kept. -/
structure Sound (m : Market) : Prop where
  ids : m.orders.map (·.id) = orderIds m.issued
  kept : ∀ o ∈ m.orders, o.Kept

theorem orderIds_succ (n : Nat) :
    orderIds (n + 1) = orderIds n ++ ["paper-" ++ toString (n + 1)] := by
  simp [orderIds, List.range_succ]

theorem orderIds_nodup (n : Nat) : (orderIds n).Nodup := by
  refine List.Nodup.map_on ?_ List.nodup_range
  intro a _ b _ h
  have hd : Nat.toDigits 10 (a + 1) = Nat.toDigits 10 (b + 1) :=
    String.ofList_injective ((String.append_right_inj _).mp h)
  have hn := congrArg (fun l => Nat.ofDigitChars 10 l 0) hd
  simp only [Nat.ofDigitChars_ten_toDigits] at hn
  omega

theorem find?_of_mem {L : List Order} (hn : (L.map (·.id)).Nodup) {o : Order} (ho : o ∈ L) :
    L.find? (·.id == o.id) = some o := by
  induction L with
  | nil => simp at ho
  | cons x L ih =>
    rw [List.map_cons, List.nodup_cons] at hn
    rcases List.mem_cons.mp ho with rfl | ho
    · simp
    · have hx : x.id ≠ o.id := fun h => hn.1 (h ▸ List.mem_map_of_mem ho)
      simp [hx, ih hn.2 ho]

variable {m m1 m' : Market} {o x : Order} {sel : Order → Option Float}

theorem Sound.nodup (h : m.Sound) : (m.orders.map (·.id)).Nodup := h.ids ▸ orderIds_nodup _

theorem Sound.find? (h : m.Sound) (ho : o ∈ m.orders) : m.find? o.id = some o :=
  find?_of_mem h.nodup ho

theorem settle_eq (m : Market) (h : o.executed = 0.0) (p : Float) :
    m.settle o p = { m.withBooks (m.books.post m.venue o p) with
      orders := m.orders.map fun x => if x.id == o.id then x.filledUp else x } := by
  have hl : o.left = o.amount := by rw [Order.left, h, Binary64.sub_zero]
  simp only [settle, hl]
  cases m with
  | mk venue => cases venue <;> rfl

theorem ids_ne_of_split {pre post : List Order} (hn : ((pre ++ o :: post).map (·.id)).Nodup) :
    (∀ x ∈ pre, x.id ≠ o.id) ∧ ∀ x ∈ post, x.id ≠ o.id := by
  rw [List.map_append, List.map_cons, List.nodup_append, List.nodup_cons] at hn
  refine ⟨fun x hx h => hn.2.2 x.id (List.mem_map_of_mem hx) o.id List.mem_cons_self h,
    fun x hx h => hn.2.1.1 (h ▸ List.mem_map_of_mem hx)⟩

theorem map_fill_of_nodup {pre L : List Order} (hn : ((pre ++ o :: L).map (·.id)).Nodup) :
    (pre ++ o :: L).map (fun x => if x.id == o.id then x.filledUp else x) =
      pre ++ o.filledUp :: L := by
  obtain ⟨hpre, hL⟩ := ids_ne_of_split hn
  have hpre' : pre.map (fun x => if x.id == o.id then x.filledUp else x) = pre :=
    (List.map_congr_left fun x hx => by simp [hpre x hx]).trans (List.map_id pre)
  have hL' : L.map (fun x => if x.id == o.id then x.filledUp else x) = L :=
    (List.map_congr_left fun x hx => by simp [hL x hx]).trans (List.map_id L)
  rw [List.map_append, List.map_cons, hpre', hL']
  simp

theorem foldl_settle (sel : Order → Option Float) :
    ∀ (L pre : List Order) (acc : Market), acc.orders = pre ++ L →
      ((pre ++ L).map (·.id)).Nodup → (∀ o ∈ L, (sel o).isSome → o.executed = 0.0) →
      L.foldl (fun acc o => match sel o with | some p => acc.settle o p | none => acc) acc =
        { acc.withBooks (L.foldl (fun b o => match sel o with
            | some p => b.post acc.venue o p
            | none => b) acc.books) with
          orders := pre ++ L.map fun x => if (sel x).isSome then x.filledUp else x }
  | [], pre, acc, h, _, _ => by
    cases acc
    simp_all [withBooks, books]
  | o :: L, pre, acc, h, hn, h0 => by
    have hL : ∀ x ∈ L, (sel x).isSome → x.executed = 0.0 :=
      fun x hx => h0 x (List.mem_cons_of_mem _ hx)
    cases hs : sel o with
    | none =>
      have ih := foldl_settle sel L (pre ++ [o]) acc (by simp [h]) (by simpa using hn) hL
      simp only [List.foldl_cons, hs, ih]
      simp [hs]
    | some p =>
      have hex : o.executed = 0.0 := h0 o List.mem_cons_self (by simp [hs])
      have hord : (acc.settle o p).orders = (pre ++ [o.filledUp]) ++ L := by
        rw [settle_eq _ hex]
        simpa [h] using map_fill_of_nodup hn
      have ih := foldl_settle sel L (pre ++ [o.filledUp]) (acc.settle o p) hord
        (by simpa [Order.filledUp] using hn) hL
      simp only [List.foldl_cons, hs, ih]
      rw [settle_eq _ hex]
      simp [hs, withBooks, books]

theorem settleBy_eq (hn : (m.orders.map (·.id)).Nodup)
    (h0 : ∀ o ∈ m.orders, (sel o).isSome → o.executed = 0.0) :
    m.settleBy sel = { m.withBooks (m.orders.foldl (fun b o => match sel o with
        | some p => b.post m.venue o p
        | none => b) m.books) with
      orders := m.orders.map fun x => if (sel x).isSome then x.filledUp else x } := by
  exact foldl_settle sel m.orders [] m rfl hn h0

theorem settleBy_none (m : Market) : m.settleBy (fun _ => none) = m := by
  unfold settleBy
  generalize m.orders = L
  induction L generalizing m with
  | nil => rfl
  | cons o L ih => exact ih m

theorem matchSymbol_eq (m : Market) (symbol : String) :
    m.matchSymbol symbol = (m.quote symbol).2.settleBy (firing (m.quote symbol).1 symbol) := by
  rcases hq : m.quote symbol with ⟨t, m1⟩
  simp only [matchSymbol, hq, settleBy, firing]
  congr
  funext acc o
  split <;> rfl

theorem quote_snd (m : Market) (symbol : String) : ∃ qs, (m.quote symbol).2 = { m with quotes := qs } := by
  unfold quote
  dsimp only
  split
  · exact ⟨m.quotes, rfl⟩
  · exact ⟨_, rfl⟩

theorem quote_fst_congr (hq : m'.quotes = m.quotes) (hd : m'.defaultPrice = m.defaultPrice)
    (hs : m'.spread = m.spread) (symbol : String) : (m'.quote symbol).1 = (m.quote symbol).1 := by
  unfold quote
  dsimp only
  rw [hq, hd, hs]
  split <;> rfl

theorem quote_quote (m : Market) (symbol : String) :
    ((m.quote symbol).2.quote symbol).1 = (m.quote symbol).1 := by
  cases h : Assoc.find? m.quotes (Text.upper symbol) with
  | some t => simp [quote, h]
  | none =>
    simp only [Assoc.find?] at h
    simp [quote, Assoc.find?, h, List.lookup_append]

theorem add_fst_kept (m : Market) (symbol : String) (kind : OrderKind) (side : Side)
    {amount : Float} (price : Float) (h : 0.0 < amount) :
    (m.add symbol kind side amount price).1.Kept ∧
      (m.add symbol kind side amount price).1.isOpen = true := by
  have hr : (m.add symbol kind side amount price).1.In .resting := ⟨rfl, rfl⟩
  have hk : (m.add symbol kind side amount price).1.Kept := ⟨h, .resting, hr⟩
  exact ⟨hk, hk.isOpen_iff.mpr hr⟩

theorem add_ids (m : Market) (symbol : String) (kind : OrderKind) (side : Side)
    (amount price : Float) (h : m.orders.map (·.id) = orderIds m.issued) :
    (m.add symbol kind side amount price).2.orders.map (·.id) =
      orderIds (m.add symbol kind side amount price).2.issued := by
  simp [add, h, orderIds_succ]

theorem cancel_eq (m : Market) (ids : List String) :
    m.cancel ids = { m with
      orders := m.orders.map (fun x => if ids.contains x.id && x.isOpen then x.withdrawn else x) } := by
  induction ids generalizing m with
  | nil => simp [cancel]
  | cons id ids ih =>
    have hcons : m.cancel (id :: ids) = (m.modifyOrder id fun o =>
        if o.isOpen then { o with cancelled := true } else o).cancel ids := rfl
    rw [hcons, ih]
    simp only [modifyOrder, List.map_map]
    congr 1
    refine List.map_congr_left fun x _ => ?_
    by_cases hx : x.id = id
    · by_cases ho : x.isOpen = true
      · simp [hx, ho, Order.withdrawn]
      · simp [hx, ho]
    · simp [hx]

/-- What a call does before it fills anything: it leaves the books and the venue, leaves a
closed market closed with its limiter, and changes the orders only by cancelling resting ones
and by appending new resting ones, numbered on. -/
structure Prepares (m m1 : Market) : Prop where
  books : m1.books = m.books
  venue : m1.venue = m.venue
  gate : m.closed = true → m1.closed = true ∧ m1.limiter = m.limiter
  orders : ∃ (q : Order → Bool) (fresh : List Order),
    m1.orders = m.orders.map (fun x => if q x && x.isOpen then x.withdrawn else x) ++ fresh ∧
    ∀ o ∈ fresh, o.Kept ∧ o.isOpen = true
  ids : m.orders.map (·.id) = orderIds m.issued → m1.orders.map (·.id) = orderIds m1.issued

/-- A selection that fills orders as a call does: only resting ones, each at its fill price
under the quote of its symbol. -/
structure Selects (m1 : Market) (sel : Order → Option Float) : Prop where
  resting : ∀ x ∈ m1.orders, (sel x).isSome → x.isOpen = true
  price : ∀ x ∈ m1.orders, ∀ p, sel x = some p → p = x.fillPrice (m1.quote x.symbol).1

theorem ids_withdrawn (q : Order → Bool) (L : List Order) :
    (L.map fun x => if q x && x.isOpen then x.withdrawn else x).map (·.id) = L.map (·.id) := by
  simp only [List.map_map]
  exact List.map_congr_left fun x _ => by simp only [Function.comp_apply]; split <;> rfl

theorem Prepares.sound (hp : Prepares m m1) (hm : m.Sound) : m1.Sound := by
  obtain ⟨q, fresh, hord, hf⟩ := hp.orders
  refine ⟨hp.ids hm.ids, fun x hx => ?_⟩
  rw [hord, List.mem_append, List.mem_map] at hx
  rcases hx with ⟨y, hy, rfl⟩ | hx
  · by_cases hc : q y && y.isOpen
    · rw [if_pos hc]
      exact ((hm.kept y hy).withdrawn (by simp_all)).1
    · rw [if_neg hc]
      exact hm.kept y hy
  · exact (hf x hx).1

theorem Prepares.mem_of_not_open (hp : Prepares m m1) (ho : o ∈ m.orders) (hc : o.isOpen = false) :
    o ∈ m1.orders := by
  obtain ⟨q, fresh, hord, -⟩ := hp.orders
  rw [hord]
  refine List.mem_append_left _ (List.mem_map.mpr ⟨o, ho, ?_⟩)
  simp [hc]

theorem Prepares.origin (hp : Prepares m m1) (hm : m.Sound) (hx : x ∈ m1.orders) :
    (x ∈ m.orders ∧ m.find? x.id = some x) ∨
    (∃ y ∈ m.orders, y.isOpen = true ∧ x = y.withdrawn) ∨
    (x.Kept ∧ x.isOpen = true ∧ m.find? x.id = none) := by
  obtain ⟨q, fresh, hord, hf⟩ := hp.orders
  have hn := (hp.sound hm).nodup
  rw [hord] at hx hn
  rw [List.mem_append, List.mem_map] at hx
  rcases hx with ⟨y, hy, rfl⟩ | hx
  · by_cases hc : q y && y.isOpen
    · rw [if_pos hc]
      exact .inr (.inl ⟨y, hy, by simp_all, rfl⟩)
    · rw [if_neg hc]
      exact .inl ⟨hy, hm.find? hy⟩
  · refine .inr (.inr ⟨(hf x hx).1, (hf x hx).2, List.find?_eq_none.mpr fun y hy h => ?_⟩)
    rw [List.map_append, ids_withdrawn, List.nodup_append] at hn
    exact hn.2.2 y.id (List.mem_map_of_mem hy) x.id (List.mem_map_of_mem hx) (by simpa using h)

theorem Prepares.was_open (hp : Prepares m m1) (hm : m.Sound) (hx : x ∈ m1.orders)
    (ho : x.isOpen = true) : (m.find? x.id).all Order.isOpen = true := by
  rcases hp.origin hm hx with ⟨-, h⟩ | ⟨y, -, -, rfl⟩ | ⟨-, -, h⟩
  · simp [h, ho]
  · simp [Order.withdrawn, Order.isOpen] at ho
  · simp [h]

theorem Prepares.was_closed (hp : Prepares m m1) (hm : m.Sound) (hx : x ∈ m1.orders)
    (hf : x.isFilled = true) : (m.find? x.id).all Order.isOpen = false := by
  rcases hp.origin hm hx with ⟨hx, h⟩ | ⟨y, hy, ho, rfl⟩ | ⟨hk, ho, -⟩
  · have hc : x.isOpen = false := by
      cases ho : x.isOpen
      · rfl
      · simp [(hm.kept x hx).not_filled_of_open ho] at hf
    simp [h, hc]
  · simp [((hm.kept y hy).withdrawn ho).2.2] at hf
  · simp [hk.not_filled_of_open ho] at hf

theorem Prepares.rfl : Prepares m m :=
  ⟨Eq.refl _, Eq.refl _, fun h => ⟨h, Eq.refl _⟩, ⟨fun _ => false, [], by simp, by simp⟩, id⟩

theorem Prepares.quotes (hp : Prepares m m1) (qs : List (String × Ticker)) :
    Prepares m { m1 with quotes := qs } :=
  ⟨hp.books, hp.venue, hp.gate, hp.orders, hp.ids⟩

theorem Prepares.quote (hp : Prepares m m1) (symbol : String) : Prepares m (m1.quote symbol).2 := by
  obtain ⟨qs, h⟩ := quote_snd m1 symbol
  exact h ▸ hp.quotes qs

theorem Prepares.add (hp : Prepares m m1) (symbol : String) (kind : OrderKind) (side : Side)
    {amount : Float} (price : Float) (h : 0.0 < amount) :
    Prepares m (m1.add symbol kind side amount price).2 := by
  obtain ⟨q, fresh, hord, hf⟩ := hp.orders
  refine ⟨hp.books, hp.venue, hp.gate, ⟨q, fresh ++ [(m1.add symbol kind side amount price).1], ?_, ?_⟩,
    fun hi => add_ids m1 symbol kind side amount price (hp.ids hi)⟩
  · rw [add_orders, hord, List.append_assoc]
  · intro o ho
    rcases List.mem_append.mp ho with ho | ho
    · exact hf o ho
    · rw [List.mem_singleton.mp ho]
      exact add_fst_kept m1 symbol kind side price h

theorem Prepares.cancel (ids : List String) : Prepares m (m.cancel ids) := by
  rw [cancel_eq]
  exact ⟨Eq.refl _, Eq.refl _, fun h => ⟨h, Eq.refl _⟩,
    ⟨fun x => ids.contains x.id, [], by simp, by simp⟩,
    fun h => (ids_withdrawn (fun x => ids.contains x.id) m.orders).trans h⟩

theorem Prepares.reserve (h : m.closed = false) (l : RateLimiter) : Prepares m { m with limiter := l } :=
  ⟨Eq.refl _, Eq.refl _, fun h' => absurd (h.symm.trans h') Bool.false_ne_true, Prepares.rfl.orders, id⟩

theorem Prepares.close : Prepares m { m with closed := true } :=
  ⟨Eq.refl _, Eq.refl _, fun _ => ⟨Eq.refl _, Eq.refl _⟩, Prepares.rfl.orders, id⟩

theorem Selects.none : Selects m1 fun _ => none :=
  ⟨fun _ _ h => by simp at h, fun _ _ _ h => by simp at h⟩

theorem Selects.matching (m : Market) (symbol : String) :
    Selects (m.quote symbol).2 (firing (m.quote symbol).1 symbol) := by
  constructor
  · intro x _ h
    unfold Market.firing at h
    split at h
    · simp_all
    · simp at h
  · intro x _ p h
    unfold Market.firing at h
    split at h
    · rename_i hx
      have hs : x.symbol = symbol := by simpa using (Bool.and_eq_true _ _).mp hx |>.2
      rw [hs, quote_quote]
      exact Order.crossing_fillPrice h
    · simp at h

theorem Selects.executed (hm1 : m1.Sound) (hs : Selects m1 sel) :
    ∀ o ∈ m1.orders, (sel o).isSome → o.executed = 0.0 :=
  fun o ho h => ((hm1.kept o ho).isOpen_iff.mp (hs.resting o ho h)).1

theorem Selects.sound (hm1 : m1.Sound) (hs : Selects m1 sel) : (m1.settleBy sel).Sound := by
  rw [settleBy_eq hm1.nodup (hs.executed hm1)]
  have hids : (m1.orders.map fun x => if (sel x).isSome then x.filledUp else x).map (·.id) =
      m1.orders.map (·.id) := by
    simp only [List.map_map]
    exact List.map_congr_left fun x _ => by simp only [Function.comp_apply]; split <;> rfl
  refine ⟨hids.trans hm1.ids, fun x hx => ?_⟩
  obtain ⟨y, hy, rfl⟩ := List.mem_map.mp hx
  split
  · exact ((hm1.kept y hy).filledUp (hs.resting y hy ‹_›)).1
  · exact hm1.kept y hy

theorem Selects.mem_of_not_open (hm1 : m1.Sound) (hs : Selects m1 sel) (ho : o ∈ m1.orders)
    (hc : o.isOpen = false) : o ∈ (m1.settleBy sel).orders := by
  rw [settleBy_eq hm1.nodup (hs.executed hm1)]
  have hn : (sel o).isSome = false := by
    cases h : (sel o).isSome
    · rfl
    · simp [hs.resting o ho h] at hc
  exact List.mem_map.mpr ⟨o, ho, by simp [hn]⟩

theorem filledBy_settleBy (hm : m.Sound) (hp : Prepares m m1) (hs : Selects m1 sel) :
    m.filledBy (m1.settleBy sel) = (m1.orders.filter fun x => (sel x).isSome).map Order.filledUp := by
  have hm1 := hp.sound hm
  rw [filledBy, settleBy_eq hm1.nodup (hs.executed hm1), List.filter_map]
  have hf : ∀ x ∈ m1.orders, ((fun o => o.isFilled && (m.find? o.id).all Order.isOpen) ∘
      fun x => if (sel x).isSome then x.filledUp else x) x = (sel x).isSome := by
    intro x hx
    simp only [Function.comp_apply]
    cases h : (sel x).isSome
    · simp only [Bool.false_eq_true, ↓reduceIte]
      cases hfx : x.isFilled
      · rfl
      · simp [hp.was_closed hm hx hfx]
    · have ho := hs.resting x hx h
      have hfill := ((hm1.kept x hx).filledUp ho).2
      simp only [↓reduceIte, hfill, Bool.true_and]
      exact hp.was_open (x := x) hm hx ho
  rw [List.filter_congr hf]
  exact List.map_congr_left fun x hx => by simp [(List.mem_filter.mp hx).2]

theorem books_settleBy (hm : m.Sound) (hp : Prepares m m1) (hs : Selects m1 sel) :
    (m1.settleBy sel).books = (m.filledBy (m1.settleBy sel)).foldl
      (fun b o => b.post m.venue o (o.fillPrice ((m1.settleBy sel).quote o.symbol).1)) m.books := by
  have hm1 := hp.sound hm
  have heq := settleBy_eq hm1.nodup (hs.executed hm1)
  have hq : ∀ symbol, ((m1.settleBy sel).quote symbol).1 = (m1.quote symbol).1 := fun symbol =>
    quote_fst_congr (by rw [heq]; rfl) (by rw [heq]; rfl) (by rw [heq]; rfl) symbol
  have hb : (m1.settleBy sel).books = m1.orders.foldl (fun b o => match sel o with
      | some p => b.post m1.venue o p
      | none => b) m1.books := by
    rw [heq]
    rfl
  rw [filledBy_settleBy hm hp hs, hb, List.foldl_map, List.foldl_filter, hp.books, hp.venue]
  refine List.foldl_ext _ _ _ fun b x hx => ?_
  cases h : sel x with
  | none => simp
  | some p =>
    rw [hs.price x hx p h, hq]
    rfl

theorem settle_eq_settleBy (hn : (m.orders.map (·.id)).Nodup) (ho : o ∈ m.orders)
    (h0 : o.executed = 0.0) (p : Float) :
    m.settle o p = m.settleBy fun x => if x.id == o.id then some p else none := by
  have hsel : ∀ x ∈ m.orders, ((fun x => if x.id == o.id then some p else none) x).isSome →
      x.executed = 0.0 := by
    intro x hx h
    have hxo : x.id = o.id := by
      by_contra hne
      simp [hne] at h
    exact (List.inj_on_of_nodup_map hn hx ho hxo) ▸ h0
  obtain ⟨pre, post, hsplit⟩ := List.append_of_mem ho
  obtain ⟨hpre, hpost⟩ := ids_ne_of_split (hsplit ▸ hn)
  have hb : m.orders.foldl (fun b x => match (if x.id == o.id then some p else none) with
      | some p => b.post m.venue x p
      | none => b) m.books = m.books.post m.venue o p := by
    rw [hsplit, List.foldl_append, List.foldl_cons,
      List.foldl_ext (l := pre) _ (fun b _ => b) _ fun b x hx => by simp [hpre x hx],
      List.foldl_ext (l := post) _ (fun b _ => b) _ fun b x hx => by simp [hpost x hx]]
    simp
  have hord : m.orders.map (fun x => if (if x.id == o.id then some p else none).isSome then
      x.filledUp else x) = m.orders.map fun x => if x.id == o.id then x.filledUp else x :=
    List.map_congr_left fun x _ => by cases x.id == o.id <;> rfl
  rw [settle_eq _ h0, settleBy_eq hn hsel, hb, hord]

/-- One call to a simulated exchange, by what it does to the market: the gate of an adapter call
reserving a slot of the rate limit, which a closed market refuses; the work of an adapter call
(a quote, placing, cancelling, looking at an order; the calls that only read change nothing);
moving a quote; or closing. Orders are placed for positive amounts. -/
inductive Call : Market → Market → Prop
  | reserve {m : Market} (now : Float) :
      m.closed = false → Call m { m with limiter := (m.limiter.reserve now).2 }
  | setPrice {m : Market} (symbol : String) (bid : Float) (ask? : Option Float) :
      Call m (m.setPrice symbol bid ask?)
  | ticker {m : Market} (symbol : String) : Call m (m.quote symbol).2
  | limitOrder {m : Market} (symbol : String) {amount : Float} (price : Float) (side : Side) :
      0.0 < amount → Call m (m.placeLimit symbol amount price side).2
  | marketOrder {m : Market} (symbol : String) {amount : Float} (side : Side) :
      0.0 < amount → Call m (m.placeMarket symbol amount side).2
  | stopOrder {m : Market} (symbol : String) {amount : Float} (price : Float) (side : Side) :
      0.0 < amount → Call m (m.placeStop symbol amount price side).2
  | cancelOrders {m : Market} (ids : List String) : Call m (m.cancel ids)
  | order {m : Market} (id : String) : Call m (m.lookAt id).2
  | close {m : Market} : Call m { m with closed := true }

/-- The markets that calls reach from a freshly made spot or contracts market. -/
inductive Reachable : Market → Prop
  | spot {settings : List (String × String)} {m : Market} : spot settings = .ok m → Reachable m
  | contracts {settings : List (String × String)} {m : Market} :
      contracts settings = .ok m → Reachable m
  | call {m m' : Market} : Reachable m → Call m m' → Reachable m'

/-- Every call prepares the market without touching the books, then settles a selection of its
resting orders at their fill prices. -/
theorem Call.settles (hc : Call m m') (hm : m.Sound) :
    ∃ m1 sel, Prepares m m1 ∧ Selects m1 sel ∧ m' = m1.settleBy sel := by
  cases hc with
  | reserve now h => exact ⟨_, _, .reserve h _, .none, (settleBy_none _).symm⟩
  | setPrice symbol bid ask? =>
    exact ⟨_, _, ((Prepares.rfl (m := m)).quotes _).quote _, .matching _ _, matchSymbol_eq _ _⟩
  | ticker symbol => exact ⟨_, _, (Prepares.rfl (m := m)).quote symbol, .none, (settleBy_none _).symm⟩
  | limitOrder symbol price side h =>
    exact ⟨_, _, ((Prepares.rfl (m := m)).add _ _ _ price h).quote _, .matching _ _, matchSymbol_eq _ _⟩
  | @marketOrder symbol amount side h =>
    let price := match side with
      | .buy => (m.quote symbol).1.ask
      | .sell => (m.quote symbol).1.bid
    let a := (m.quote symbol).2.add symbol .market side amount price
    have hp : Prepares m a.2 := ((Prepares.rfl (m := m)).quote symbol).add symbol .market side price h
    have hm1 := hp.sound hm
    have ho : a.1 ∈ a.2.orders := by simp [a, add]
    have hk := add_fst_kept (m.quote symbol).2 symbol .market side price h
    refine ⟨a.2, fun x => if x.id == a.1.id then some price else none, hp, ⟨?_, ?_⟩,
      settle_eq_settleBy hm1.nodup ho rfl price⟩
    · intro x hx hs
      have hxo : x.id = a.1.id := by
        by_contra hne
        simp [hne] at hs
      exact (List.inj_on_of_nodup_map hm1.nodup hx ho hxo) ▸ hk.2
    · intro x hx p hs
      have hxo : x.id = a.1.id := by
        by_contra hne
        simp [hne] at hs
      obtain rfl := List.inj_on_of_nodup_map hm1.nodup hx ho hxo
      simp only [beq_self_eq_true, if_true, Option.some.injEq] at hs
      rw [← hs]
      rfl
  | stopOrder symbol price side h =>
    exact ⟨_, _, (Prepares.rfl (m := m)).add _ _ _ price h, .none, (settleBy_none _).symm⟩
  | cancelOrders ids => exact ⟨_, _, .cancel ids, .none, (settleBy_none _).symm⟩
  | order id =>
    cases hf : m.find? id with
    | none => exact ⟨m, _, .rfl, .none, by simp [lookAt, hf, settleBy_none]⟩
    | some o =>
      exact ⟨_, _, (Prepares.rfl (m := m)).quote o.symbol, .matching _ _, by simp [lookAt, hf, matchSymbol_eq]⟩
  | close => exact ⟨_, _, .close, .none, (settleBy_none _).symm⟩

theorem Call.sound (hc : Call m m') (hm : m.Sound) : m'.Sound := by
  obtain ⟨m1, sel, hp, hs, rfl⟩ := hc.settles hm
  exact hs.sound (hp.sound hm)

theorem Call.find?_of_not_open (hc : Call m m') (hm : m.Sound) (ho : o ∈ m.orders)
    (hn : o.isOpen = false) : m'.find? o.id = some o := by
  obtain ⟨m1, sel, hp, hs, rfl⟩ := hc.settles hm
  have hm1 := hp.sound hm
  exact (hs.sound hm1).find? (hs.mem_of_not_open hm1 (hp.mem_of_not_open ho hn) hn)

theorem Call.books (hc : Call m m') (hm : m.Sound) :
    m'.books = (m.filledBy m').foldl
      (fun b o => b.post m.venue o (o.fillPrice (m'.quote o.symbol).1)) m.books := by
  obtain ⟨m1, sel, hp, hs, rfl⟩ := hc.settles hm
  exact books_settleBy hm hp hs

theorem Call.gate (hc : Call m m') (hm : m.Sound) (h : m.closed = true) :
    m'.closed = true ∧ m'.limiter = m.limiter := by
  obtain ⟨m1, sel, hp, hs, rfl⟩ := hc.settles hm
  have hm1 := hp.sound hm
  rw [settleBy_eq hm1.nodup (hs.executed hm1)]
  exact hp.gate h

theorem except_bind_eq_ok {ε α β : Type} {x : Except ε α} {f : α → Except ε β} {b : β}
    (h : x >>= f = .ok b) : ∃ a, x = .ok a ∧ f a = .ok b := by
  cases x with
  | error e => cases h
  | ok a => exact ⟨a, rfl, h⟩

/-- A new market: no orders, none issued, and open. -/
structure Fresh (m : Market) : Prop where
  orders : m.orders = []
  issued : m.issued = 0
  closed : m.closed = false

theorem fresh_of_spot {settings : List (String × String)} (h : spot settings = .ok m) :
    m.Fresh := by
  unfold spot at h
  obtain ⟨_, -, h⟩ := except_bind_eq_ok h
  obtain ⟨_, -, h⟩ := except_bind_eq_ok h
  obtain ⟨_, -, h⟩ := except_bind_eq_ok h
  obtain ⟨_, -, h⟩ := except_bind_eq_ok h
  cases h
  exact ⟨rfl, rfl, rfl⟩

theorem fresh_of_contracts {settings : List (String × String)} (h : contracts settings = .ok m) :
    m.Fresh := by
  unfold contracts at h
  obtain ⟨_, -, h⟩ := except_bind_eq_ok h
  obtain ⟨_, -, h⟩ := except_bind_eq_ok h
  obtain ⟨_, -, h⟩ := except_bind_eq_ok h
  obtain ⟨_, -, h⟩ := except_bind_eq_ok h
  cases h
  exact ⟨rfl, rfl, rfl⟩

theorem Fresh.sound (h : m.Fresh) : m.Sound :=
  ⟨by rw [h.orders, h.issued]; rfl, by simp [h.orders]⟩

theorem Reachable.sound (h : m.Reachable) : m.Sound := by
  induction h with
  | spot h => exact (fresh_of_spot h).sound
  | contracts h => exact (fresh_of_contracts h).sound
  | call _ hc ih => exact hc.sound ih

/-- What the books of a market keep, and what its next call may do to them. -/
structure Ledger (m : Market) : Prop where
  /-- Each order is resting, filled or cancelled, and in only one of them. -/
  states : ∀ o ∈ m.orders, ∃! s, o.In s
  ids : m.orders.map (·.id) = orderIds m.issued
  /-- An order that is no longer resting is never changed again. -/
  absorbing : ∀ m', Call m m' → ∀ o ∈ m.orders, o.isOpen = false → m'.find? o.id = some o
  /-- The books move by the fills of the call and by nothing else. -/
  books : ∀ m', Call m m' → m'.books = (m.filledBy m').foldl
    (fun b o => b.post m.venue o (o.fillPrice (m'.quote o.symbol).1)) m.books
  closed : ∀ m', Call m m' → m.closed = true → m'.closed = true ∧ m'.limiter = m.limiter
  refused : m.closed = true → ∀ (w : World) (i : Nat), (w.desks.getD i default).market = m →
    Act.AdapterRefused w i
  transport : Fault.closedExchange.family = .transport

theorem Reachable.ledger_invariant (hm : m.Reachable) : m.Ledger := by
  have hs := hm.sound
  refine ⟨fun o ho => (hs.kept o ho).existsUnique, hs.ids,
    fun m' hc o ho hn => hc.find?_of_not_open hs ho hn, fun m' hc => hc.books hs,
    fun m' hc => hc.gate hs, fun hc w i hw => Act.adapterRefused (hw ▸ hc), rfl⟩

def contractsDefault : Market :=
  { venue := .contracts, equity := 1.0, spread := 0.5, defaultPrice := 1000.0, limiter := ⟨0.0, 0.0⟩ }

theorem ledger_after_market_buy :
    (contractsDefault.placeMarket "BTCUSD" 2.0 .buy).2.Reachable ∧
      (contractsDefault.placeMarket "BTCUSD" 2.0 .buy).2.Ledger :=
  have h : (contractsDefault.placeMarket "BTCUSD" 2.0 .buy).2.Reachable :=
    .call (@Reachable.contracts [] _ rfl) (.marketOrder "BTCUSD" .buy (by decide))
  ⟨h, Reachable.ledger_invariant h⟩


/-- A market order fills its whole amount at once, a buy at the ask and a sell at the bid, and the
books move by that one fill whatever they hold. -/
theorem placeMarket_books (m : Market) (symbol : String) (amount : Float) (side : Side) :
    (m.placeMarket symbol amount side).2.books =
      let t := (m.quote symbol).1
      let price := match side with
        | .buy => t.ask
        | .sell => t.bid
      m.books.post m.venue ((m.quote symbol).2.add symbol .market side amount price).1 price := by
  obtain ⟨qs, hq⟩ := quote_snd m symbol
  show (((m.quote symbol).2.add symbol .market side amount _).2.settle _ _).books = _
  rw [settle_eq _ rfl, hq]
  rfl

def spotDefault : Market :=
  { venue := .spot, wallet := [("btc", 1.0), ("usd", 10000.0)], spread := 1.0,
    defaultPrice := 1000.0, limiter := ⟨0.0, 0.0⟩ }

theorem market_buy_sized_at_bid_overdraws :
    ((Sizing.orderSize "BTCUSD" .buy ⟨10.0, ""⟩ spotDefault.balances
        (spotDefault.quote "BTCUSD").1.bid 0.001).toOption.map (·.orderSize.toBits)) =
      some (10.0 : Float).toBits ∧
    (Assoc.find? (spotDefault.placeMarket "BTCUSD" 10.0 .buy).2.wallet "usd").map Float.toBits =
      some (-10.0 : Float).toBits := by
  decide +kernel

end Market

end Paper

end TradeDesk
