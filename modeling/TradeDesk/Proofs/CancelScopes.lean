import TradeDesk.Proofs.Refusals
import TradeDesk.Proofs.PaperLedger

/-!
Cancelling orders by scope: every run of a cancel is a case of `Cancelled`, refused with nothing
changed, or flagging the algorithms it reaches and then withdrawing the listed open orders.
-/

namespace TradeDesk

namespace Act

def Closed (i : Nat) (w : World) : Prop := (w.desks.getD i default).market.closed = true

theorem call_run {i : Nat} {w s : World} {naps : List (Nap World)} {r : Except Fault Unit}
    (h : Step.Run (call i w) naps s r) :
    (Closed i w ∧ naps = [] ∧ s = w ∧ r = .error .closedExchange) ∨
      (¬ Closed i w ∧ r = .ok () ∧ Quiet World.record (World.record w) naps s) := by
  by_cases hc : Closed i w
  · obtain ⟨rfl, rfl, rfl⟩ := (Step.Run.of_done_eq (call_refused hc)).1 h
    exact .inl ⟨hc, rfl, rfl, rfl⟩
  refine .inr ⟨hc, ?_, (call_reads i).quiet h⟩
  unfold call at h
  rw [desk_bind, if_neg (show ¬ (w.desks.getD i default).market.closed = true from hc)] at h
  cases r with
  | ok u => rfl
  | error e =>
    -- past the check, the gate only waits for its slot
    refine absurd ((?_ : Fails (fun _ => False) _).run w naps s e h) id
    dsimp only
    refine Fails.bind (Fails.bind Fails.get fun _ => Fails.pure _) fun now => ?_
    obtain ⟨callAt, limiter⟩ := (w.desks.getD i default).market.limiter.reserve now
    exact Fails.bind (Fails.modifyDesk _ _) fun _ => Fails.ite (Fails.sleep _) (Fails.pure _)

def cancelIn (i : Nat) (ids : List String) (w : World) : World :=
  { w with desks := w.desks.modify i fun d =>
      { d with market := (w.desks.getD i default).market.cancel ids } }

theorem call_then_run {β : Type} {i : Nat} {k : Unit → Act β} (f : World → World) (g : World → β)
    (hk : ∀ u w', k u w' = .done (f w') (.ok (g w'))) {w s : World} {naps : List (Nap World)}
    {r : Except Fault β} (h : Step.Run ((call i >>= k) w) naps s r) :
    (Closed i w ∧ naps = [] ∧ s = w ∧ r = .error .closedExchange) ∨
      (¬ Closed i w ∧ ∃ w₁, Quiet World.record (World.record w) naps w₁ ∧ s = f w₁ ∧
        r = .ok (g w₁)) := by
  rcases Step.Run.of_bind h with ⟨naps₁, w₁, u, naps₂, rfl, h₁, h₂⟩ | ⟨e, h₁, rfl⟩
  · rcases call_run h₁ with ⟨-, -, -, he⟩ | ⟨hc, -, hq⟩
    · cases he
    obtain ⟨rfl, rfl, rfl⟩ := (Step.Run.of_done_eq (hk u w₁)).1 h₂
    exact .inr ⟨hc, w₁, by simpa using hq, rfl, rfl⟩
  · rcases call_run h₁ with ⟨hc, rfl, rfl, he⟩ | ⟨-, he, -⟩
    · exact .inl ⟨hc, rfl, rfl, by cases he; rfl⟩
    · cases he

theorem activeOrders_run {i : Nat} {symbol which : String} {w s : World}
    {naps : List (Nap World)} {r : Except Fault (List String)}
    (h : Step.Run (activeOrders i symbol which w) naps s r) :
    (Closed i w ∧ naps = [] ∧ s = w ∧ r = .error .closedExchange) ∨
      (¬ Closed i w ∧ Quiet World.record (World.record w) naps s ∧
        r = .ok (((s.desks.getD i default).market.active symbol which).map (·.id))) := by
  unfold activeOrders at h
  rcases call_then_run id (fun w₁ => ((w₁.desks.getD i default).market.active symbol which).map
      Paper.Order.id) (fun _ _ => rfl) h with hclosed | ⟨hc, w₁, hq, rfl, rfl⟩
  · exact .inl hclosed
  · exact .inr ⟨hc, hq, rfl⟩

theorem cancelOrders_run {i : Nat} {ids : List String} {w s : World} {naps : List (Nap World)}
    {r : Except Fault Unit} (h : Step.Run (cancelOrders i ids w) naps s r) :
    (Closed i w ∧ naps = [] ∧ s = w ∧ r = .error .closedExchange) ∨
      (¬ Closed i w ∧ r = .ok () ∧
        ∃ w₃, Quiet World.record (World.record w) naps w₃ ∧ s = cancelIn i ids w₃) := by
  rcases call_then_run (cancelIn i ids) (fun _ => ()) (fun _ _ => rfl) h with
    hclosed | ⟨hc, w₁, hq, rfl, rfl⟩
  · exact .inl hclosed
  · exact .inr ⟨hc, rfl, w₁, hq, rfl⟩

end Act

namespace SessionBook

variable {Handle : Type}

/-! The session book as an association list: `add` updates the session's entry in place or appends
a new one, and `find` reads the first entry of the session. -/

theorem lookup_map_update (l : List (String × List (String × Handle))) (session : String)
    (f : List (String × Handle) → List (String × Handle)) :
    (l.map fun e => if e.1 == session then (e.1, f e.2) else e).lookup session =
      (l.lookup session).map f := by
  induction l with
  | nil => rfl
  | cons e l ih =>
    obtain ⟨k, v⟩ := e
    by_cases hk : k = session
    · subst hk
      simp [List.lookup]
    · have hs : (session == k) = false := beq_false_of_ne (Ne.symm hk)
      have hF : (if (k == session) = true then (k, f v) else (k, v)) = (k, v) := by simp [hk]
      simp only [List.map_cons, hF, List.lookup, hs, ih]

theorem lookup_map_other (l : List (String × List (String × Handle))) {session other : String}
    (h : other ≠ session) (f : List (String × Handle) → List (String × Handle)) :
    (l.map fun e => if e.1 == other then (e.1, f e.2) else e).lookup session =
      l.lookup session := by
  induction l with
  | nil => rfl
  | cons e l ih =>
    obtain ⟨k, v⟩ := e
    by_cases hk : k = other
    · subst hk
      have hs : (session == k) = false := beq_false_of_ne (Ne.symm h)
      simp only [List.map_cons, beq_self_eq_true, if_true, List.lookup, hs, ih]
    · have hF : (if (k == other) = true then (k, f v) else (k, v)) = (k, v) := by simp [hk]
      simp only [List.map_cons, hF, List.lookup, ih]

theorem lookup_eq_none_of_absent (l : List (String × List (String × Handle))) {session : String}
    (h : l.any (·.1 == session) = false) : l.lookup session = none :=
  List.lookup_eq_none_iff.2 fun e he => by
    have hk : e.1 ≠ session := by simpa using List.any_eq_false.1 h e he
    exact bne_iff_ne.2 (Ne.symm hk)

theorem lookup_isSome_of_present (l : List (String × List (String × Handle))) {session : String}
    (h : l.any (·.1 == session) = true) : (l.lookup session).isSome = true := by
  obtain ⟨e, he, hk⟩ := List.any_eq_true.1 h
  exact List.lookup_isSome_iff.2 ⟨e, he, beq_iff_eq.2 (beq_iff_eq.1 hk).symm⟩

theorem find_add (b : SessionBook Handle) (session other tag : String) (o : Handle)
    (t : Option String) :
    (b.add other tag o).find session t =
      b.find session t ++ (if other = session ∧ t.all (· == tag) = true then [o] else []) := by
  unfold add find
  by_cases hs : other = session
  · subst hs
    split <;> dsimp only
    · next hp =>
      obtain ⟨xs, hx⟩ := Option.isSome_iff_exists.mp (lookup_isSome_of_present _ hp)
      rw [lookup_map_update _ _ (· ++ [(tag, o)]), hx]
      by_cases ht : t.all (· == tag) = true <;> simp [List.filter_append, ht]
    · next hp =>
      rw [List.lookup_append, lookup_eq_none_of_absent _ (Bool.eq_false_iff.mpr hp)]
      by_cases ht : t.all (· == tag) = true <;> simp [List.lookup, ht]
  · split <;> dsimp only
    · rw [lookup_map_other _ hs (· ++ [(tag, o)])]
      simp [hs]
    · rw [List.lookup_append]
      have hs' : (session == other) = false := beq_false_of_ne (Ne.symm hs)
      simp [List.lookup, hs', hs]

end SessionBook

theorem Quiet.holdings {w s : World} {naps : List (Nap World)}
    (h : Quiet World.record (World.record w) naps s) :
    Quiet World.holdings (World.holdings w) naps s := by
  have hq := h.map World.holdings
  rwa [show World.holdings ∘ World.record = World.holdings from funext World.holdings_record,
    World.holdings_record] at hq

namespace Handler

open Act

def scopeOf (p : Params) : String := Text.lower (Text.trim (p.get "which"))

def booked : List String := ["buy", "sell", "all"]

def flagAlgos (c : Scope) (p : Params) (w : World) : World :=
  { w with desks := w.desks.modify c.desk fun d =>
      { d with algos := (d.algos.cancelMatching (scopeOf p) (p.get "tag") c.session).1 } }

/-- The ids a scope lists in a world: the open orders of the symbol on its side, or on both, in the
order they were placed; or the orders the session recorded, those of the tag or all of them. -/
def scopeIds (c : Scope) (p : Params) (w : World) : List String :=
  match scopeOf p with
  | "buy" | "sell" | "all" =>
    ((w.desks.getD c.desk default).market.active c.symbol (scopeOf p)).map (·.id)
  | "tagged" => (w.desks.getD c.desk default).sessions.find c.session (some (p.get "tag"))
  | _ => (w.desks.getD c.desk default).sessions.find c.session

/-- The listing of a scope from `w₁` to `w₂`: through the exchange's gate for its open orders,
at once for the orders of the session. -/
inductive Listed (c : Scope) (p : Params) (w₁ : World) : List (Nap World) → World → Prop
  | booked {naps : List (Nap World)} {w₂ : World} : scopeOf p ∈ booked → ¬ Closed c.desk w₁ →
      Quiet World.record (World.record w₁) naps w₂ → Listed c p w₁ naps w₂
  | recorded : scopeOf p ∉ booked → Listed c p w₁ [] w₁

/-- How a run of a cancel from `w` goes: the scope is refused; or, once the algorithmic orders it
reaches are flagged, the gate of the listing or of the cancel finds the exchange closed; or the
scope is listed and the listed orders still open are cancelled, the answer the number listed. -/
inductive Cancelled (c : Scope) (p : Params) (w : World) :
    List (Nap World) → World → Except Fault Int → Prop
  | badScope : scopes.contains (scopeOf p) = false → Cancelled c p w [] w (.error .badScope)
  | closedListing : scopes.contains (scopeOf p) = true → scopeOf p ∈ booked →
      Closed c.desk (flagAlgos c p w) →
      Cancelled c p w [] (flagAlgos c p w) (.error .closedExchange)
  | closedCancel {naps : List (Nap World)} {w₂ : World} : scopes.contains (scopeOf p) = true →
      Listed c p (flagAlgos c p w) naps w₂ → Closed c.desk w₂ →
      Cancelled c p w naps w₂ (.error .closedExchange)
  | cancelled {naps₁ naps₂ : List (Nap World)} {w₂ w₃ : World} :
      scopes.contains (scopeOf p) = true → Listed c p (flagAlgos c p w) naps₁ w₂ →
      ¬ Closed c.desk w₂ → Quiet World.record (World.record w₂) naps₂ w₃ →
      Cancelled c p w (naps₁ ++ naps₂) (cancelIn c.desk (scopeIds c p w₂) w₃)
        (.ok (scopeIds c p w₂).length)

def listIds (c : Scope) (p : Params) : Act (List String) :=
  if scopeOf p ∈ booked then activeOrders c.desk c.symbol (scopeOf p)
  else desk c.desk >>= fun d => Pure.pure (if scopeOf p = "tagged"
    then d.sessions.find c.session (some (p.get "tag")) else d.sessions.find c.session)

theorem cancelOrders_eq (c : Scope) (p : Params) :
    cancelOrders c p = if scopes.contains (scopeOf p) then
      (modifyDesk c.desk (fun d =>
          { d with algos := (d.algos.cancelMatching (scopeOf p) (p.get "tag") c.session).1 }) >>=
        fun _ => listIds c p >>= fun ids => Act.cancelOrders c.desk ids >>= fun _ =>
          (Pure.pure (ids.length : Int) : Act Int))
    else throw .badScope := by
  unfold cancelOrders
  dsimp only
  rw [show Text.lower (Text.trim (p.get "which")) = scopeOf p from rfl]
  split
  · refine bind_congr fun _ => ?_
    unfold listIds booked
    split <;> simp_all
  · rfl

theorem flag_bind {β : Type} (c : Scope) (p : Params) (k : Unit → Act β) (w : World) :
    (modifyDesk c.desk (fun d =>
        { d with algos := (d.algos.cancelMatching (scopeOf p) (p.get "tag") c.session).1 }) >>=
      k) w =
      k () (flagAlgos c p w) := rfl

theorem scopeIds_eq (c : Scope) (p : Params) (w : World) :
    scopeIds c p w =
      if scopeOf p ∈ booked then
        ((w.desks.getD c.desk default).market.active c.symbol (scopeOf p)).map (·.id)
      else if scopeOf p = "tagged" then
        (w.desks.getD c.desk default).sessions.find c.session (some (p.get "tag"))
      else (w.desks.getD c.desk default).sessions.find c.session := by
  unfold scopeIds booked
  split <;> simp_all

theorem listIds_run {c : Scope} {p : Params} {w₁ w₂ : World} {naps : List (Nap World)}
    {r : Except Fault (List String)} (h : Step.Run (listIds c p w₁) naps w₂ r) :
    (scopeOf p ∈ booked ∧ Closed c.desk w₁ ∧ naps = [] ∧ w₂ = w₁ ∧ r = .error .closedExchange) ∨
      (Listed c p w₁ naps w₂ ∧ r = .ok (scopeIds c p w₂)) := by
  unfold listIds at h
  by_cases hb : scopeOf p ∈ booked
  · rw [if_pos hb] at h
    rcases activeOrders_run h with ⟨hc, rfl, rfl, rfl⟩ | ⟨hc, hq, rfl⟩
    · exact .inl ⟨hb, hc, rfl, rfl, rfl⟩
    · exact .inr ⟨.booked hb hc hq, by rw [scopeIds_eq, if_pos hb]⟩
  · rw [if_neg hb, desk_bind] at h
    obtain ⟨rfl, rfl, rfl⟩ := (Step.Run.of_done_eq rfl).1 h
    exact .inr ⟨.recorded hb, by rw [scopeIds_eq, if_neg hb]⟩

theorem cancelListed {c : Scope} {p : Params} {w₁ w₂ s : World} {naps₁ naps : List (Nap World)}
    {r : Except Fault Int} (hl : Listed c p w₁ naps₁ w₂) (hs : scopes.contains (scopeOf p) = true)
    (hw₁ : w₁ = flagAlgos c p w)
    (h : Step.Run ((Act.cancelOrders c.desk (scopeIds c p w₂) >>= fun _ =>
      (Pure.pure ((scopeIds c p w₂).length : Int) : Act Int)) w₂) naps s r) :
    Cancelled c p w (naps₁ ++ naps) s r := by
  subst hw₁
  rcases Step.Run.of_bind h with ⟨naps₂, w₃, u, naps₃, rfl, h₂, h₃⟩ | ⟨e, h₂, rfl⟩
  · rcases Act.cancelOrders_run h₂ with ⟨-, -, -, he⟩ | ⟨hc, -, w₄, hq, rfl⟩
    · cases he
    obtain ⟨rfl, rfl, rfl⟩ := (Step.Run.of_done_eq rfl).1 h₃
    rw [List.append_nil]
    exact .cancelled hs hl hc hq
  · rcases Act.cancelOrders_run h₂ with ⟨hc, rfl, rfl, he⟩ | ⟨-, he, -⟩
    · cases he
      rw [List.append_nil]
      exact .closedCancel hs hl hc
    · cases he

/-! What the two changes of a cancel do to the holdings of each desk. -/

theorem flagAlgos_holdings (c : Scope) (p : Params) (w : World) (j : Nat) :
    (flagAlgos c p w).holdings j =
      if j = c.desk then
        { w.holdings j with
          algos := ((w.holdings j).algos.cancelMatching (scopeOf p) (p.get "tag") c.session).1 }
      else w.holdings j := by
  unfold World.holdings flagAlgos
  rw [Array.getD_eq_getD_getElem?, Array.getD_eq_getD_getElem?, Array.getElem?_modify]
  by_cases hj : j = c.desk
  · subst hj
    rw [if_pos rfl, if_pos rfl]
    cases w.desks[c.desk]? <;> rfl
  · simp [hj, Ne.symm hj]

theorem cancelIn_holdings (i : Nat) (ids : List String) (w : World) (j : Nat) :
    (cancelIn i ids w).holdings j =
      if j = i then
        { w.holdings j with
          orders := (w.holdings j).orders.map fun o =>
            if ids.contains o.id && o.isOpen then o.withdrawn else o }
      else w.holdings j := by
  unfold World.holdings cancelIn
  rw [Array.getD_eq_getD_getElem?, Array.getD_eq_getD_getElem?, Array.getD_eq_getD_getElem?,
    Array.getElem?_modify]
  by_cases hj : j = i
  · subst hj
    rw [if_pos rfl, if_pos rfl]
    cases w.desks[j]? with
    | none => rfl
    | some d => simp [Desk.holdings, Paper.Market.cancel_eq]
  · simp [hj, Ne.symm hj]

theorem Listed.holdings {c : Scope} {p : Params} {w₁ w₂ : World} {naps : List (Nap World)}
    (h : Listed c p w₁ naps w₂) (hn : ∀ m ∈ naps, m.woke.holdings = m.fell.holdings) :
    w₂.holdings = w₁.holdings := by
  cases h with
  | booked _ _ hq => exact hq.holdings.undisturbed hn
  | recorded _ => rfl

theorem scopeIds_congr {c : Scope} {p : Params} {w w' : World}
    (ho : (w.holdings c.desk).orders = (w'.holdings c.desk).orders)
    (hs : (w.holdings c.desk).sessions = (w'.holdings c.desk).sessions) :
    scopeIds c p w = scopeIds c p w' := by
  have ho' : (w.desks.getD c.desk default).market.orders =
      (w'.desks.getD c.desk default).market.orders := ho
  have hs' : (w.desks.getD c.desk default).sessions = (w'.desks.getD c.desk default).sessions := hs
  rw [scopeIds_eq, scopeIds_eq]
  simp only [Paper.Market.active, ho', hs']

theorem Cancelled.holdings {c : Scope} {p : Params} {w s : World} {naps : List (Nap World)}
    {n : Int} (h : Cancelled c p w naps s (.ok n))
    (hn : ∀ m ∈ naps, m.woke.holdings = m.fell.holdings) :
    n = (scopeIds c p w).length ∧
      s.holdings = fun j => if j = c.desk then
        { w.holdings j with
          orders := (w.holdings j).orders.map fun o =>
            if (scopeIds c p w).contains o.id && o.isOpen then o.withdrawn else o
          algos := ((w.holdings j).algos.cancelMatching (scopeOf p) (p.get "tag") c.session).1 }
        else w.holdings j := by
  cases h with
  | @cancelled naps₁ naps₂ w₂ w₃ _ hl _ hq =>
    have h₂ : w₂.holdings = (flagAlgos c p w).holdings :=
      hl.holdings fun m hm => hn m (List.mem_append_left _ hm)
    have h₃ : w₃.holdings = w₂.holdings :=
      hq.holdings.undisturbed fun m hm => hn m (List.mem_append_right _ hm)
    -- flagging touches neither the orders nor the sessions the scope lists from
    have hflag := flagAlgos_holdings c p w c.desk
    rw [if_pos rfl] at hflag
    have hids : scopeIds c p w₂ = scopeIds c p w :=
      scopeIds_congr (by rw [h₂, hflag]) (by rw [h₂, hflag])
    refine ⟨by rw [hids], funext fun j => ?_⟩
    rw [cancelIn_holdings, hids, h₃, h₂, flagAlgos_holdings]
    by_cases hj : j = c.desk
    · subst hj
      simp
    · simp [hj]

theorem cancelOrders_cancelled {c : Scope} {p : Params} {w s : World} {naps : List (Nap World)}
    {r : Except Fault Int} (h : Step.Run (cancelOrders c p w) naps s r) :
    Cancelled c p w naps s r := by
  rw [cancelOrders_eq] at h
  by_cases hs : scopes.contains (scopeOf p) = true
  · rw [if_pos hs, flag_bind] at h
    rcases Step.Run.of_bind h with ⟨naps₁, w₂, ids, naps₂, rfl, h₁, h₂⟩ | ⟨e, h₁, rfl⟩
    · rcases listIds_run h₁ with ⟨-, -, -, -, he⟩ | ⟨hl, hids⟩
      · cases he
      · have hids' : ids = scopeIds c p w₂ := Except.ok.inj hids
        rw [hids'] at h₂
        exact cancelListed hl hs rfl h₂
    · rcases listIds_run h₁ with ⟨hb, hc, rfl, rfl, he⟩ | ⟨-, he⟩
      · cases he
        exact .closedListing hs hb hc
      · cases he
  · rw [if_neg hs] at h
    obtain ⟨rfl, rfl, rfl⟩ := (Step.Run.of_done_eq rfl).1 h
    exact .badScope (by simpa using hs)

theorem default_cancel_cancelled :
    ∃ s, Step.Run (cancelOrders ⟨0, "BTCUSD", "s1"⟩ (Params.assign cancelDefaults []) {}) [] s
        (.ok 0) ∧
      Cancelled ⟨0, "BTCUSD", "s1"⟩ (Params.assign cancelDefaults []) {} [] s (.ok 0) := by
  obtain ⟨s, hs⟩ : ∃ s, cancelOrders ⟨0, "BTCUSD", "s1"⟩ (Params.assign cancelDefaults []) {} =
      .done s (.ok 0) := by
    have key : (match cancelOrders ⟨0, "BTCUSD", "s1"⟩ (Params.assign cancelDefaults []) {} with
        | .done _ (.ok 0) => true
        | _ => false) = true := by decide +kernel
    split at key
    · next s heq => exact ⟨s, heq⟩
    · cases key
  exact ⟨s, Step.Run.of_eq_done hs, cancelOrders_cancelled (Step.Run.of_eq_done hs)⟩

/-- A cancel of the session's orders on a closed exchange fails, though the session recorded no
order: the cancel of the empty list still passes the exchange's gate. -/
theorem cancel_on_closed_exchange_fails :
    ∃ s, cancelOrders ⟨0, "BTCUSD", "s1"⟩ (Params.assign cancelDefaults [])
        { desks := #[Desk.assemble "paper" [] { Paper.Market.spotDefault with closed := true }
          default 0.001 {}] } =
      .done s (.error .closedExchange) := by
  have key : (match cancelOrders ⟨0, "BTCUSD", "s1"⟩ (Params.assign cancelDefaults [])
      { desks := #[Desk.assemble "paper" [] { Paper.Market.spotDefault with closed := true }
        default 0.001 {}] } with
      | .done _ (.error .closedExchange) => true
      | _ => false) = true := by decide +kernel
  split at key
  · next s heq => exact ⟨s, heq⟩
  · cases key

end Handler

end TradeDesk
