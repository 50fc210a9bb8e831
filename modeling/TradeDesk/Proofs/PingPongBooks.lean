import TradeDesk.Proofs.LimitOrders

/-!
The books of a ping-pong order: every order it placed is at every round in one of its queues or
among those it saw go, pings on one side and pongs on the other (`Rally.Books.Sound`).
-/

namespace TradeDesk

open Handler Act

namespace Handler

/-- The parameters of the limit order that answers a fill of `o`: the other side, `d` above a
filled buy or below a filled sell, the same amount and units. -/
def answerParams (tag : String) (d : Float) (o : PlacedOrder String) : Params :=
  [("side", o.side.opposite.name),
   ("offset", "@" ++ Amount.text (if o.side == .buy then o.price + d else o.price - d)),
   ("amount", Amount.text o.amount ++ o.units), ("tag", tag), ("position", "")]

theorem answer_yields {c : Scope} {tag : String} {d : Float} {o o' : PlacedOrder String}
    (h : Act.Yields (answer c tag d o) o') :
    Act.Yields (limitOrder c (answerParams tag d o)) o' := by
  obtain ⟨w, s, h⟩ := h
  rcases Step.Ends.bind_inv h with ⟨s₁, now, -, h₂⟩ | ⟨e, -, he⟩
  · rw [limitDefaults_assign] at h₂
    exact ⟨s₁, s, h₂⟩
  · cases he

theorem answer_side (c : Scope) (tag : String) (d : Float) (o : PlacedOrder String) :
    Act.Ensures (fun o' => o'.side = o.side.opposite) (answer c tag d o) :=
  limitWith_side c o.side.opposite _ _ _

def enqueue (into : List (PlacedOrder String)) (o : PlacedOrder String) :
    List (PlacedOrder String) :=
  if o.order.isSome then into ++ [o] else into

/-- What polling `queue`, answering into `into`, can come back with. The queue is put nearest the
market first and the exchange is asked about its first order: a filled one is answered by one
limit order and leaves, one no longer open leaves, an open one stays. -/
inductive Polled (c : Scope) (tag : String) (d : Float) (queue into : List (PlacedOrder String)) :
    List (PlacedOrder String) × List (PlacedOrder String) × Bool → Prop
  | empty : PlacedOrder.closestFirst queue = [] → Polled c tag d queue into ([], into, false)
  | rests {head rest info} : PlacedOrder.closestFirst queue = head :: rest →
      Act.Yields (Act.order c.desk (head.order.getD "")) info → info.isFilled = false →
      info.isOpen = true → Polled c tag d queue into (head :: rest, into, false)
  | gone {head rest info} : PlacedOrder.closestFirst queue = head :: rest →
      Act.Yields (Act.order c.desk (head.order.getD "")) info → info.isFilled = false →
      info.isOpen = false → Polled c tag d queue into (rest, into, true)
  | filled {head rest info o} : PlacedOrder.closestFirst queue = head :: rest →
      Act.Yields (Act.order c.desk (head.order.getD "")) info → info.isFilled = true →
      Act.Yields (limitOrder c (answerParams tag d head)) o → o.side = head.side.opposite →
      Polled c tag d queue into (rest, enqueue into o, true)

theorem pollNearest_polled (c : Scope) (tag : String) (d : Float)
    (queue into : List (PlacedOrder String)) :
    Act.Ensures (Polled c tag d queue into) (pollNearest c tag d queue into) := by
  unfold pollNearest
  split
  · rename_i h
    exact Ensures.pure (.empty h)
  rename_i head rest h
  refine (Ensures.self _).bind fun info hinfo => ?_
  split
  · rename_i hfilled
    refine ((Ensures.self _).and (answer_side c tag d head)).bind fun o ho => ?_
    exact Ensures.pure (.filled h hinfo hfilled (answer_yields ho.1) ho.2)
  rename_i hfilled
  split
  · rename_i hopen
    exact Ensures.pure (.gone h hinfo (by simpa using hfilled) (by simpa using hopen))
  · rename_i hopen
    exact Ensures.pure (.rests h hinfo (by simpa using hfilled) (by simpa using hopen))

end Handler

namespace Rally

/-- What a ping-pong order keeps track of: its two queues, every order it has placed, and the
orders it has found filled or no longer open. -/
structure Books where
  pings : List (PlacedOrder String)
  pongs : List (PlacedOrder String)
  placed : List (PlacedOrder String)
  seen : List (PlacedOrder String)

def Books.swap (b : Books) : Books := ⟨b.pongs, b.pings, b.placed, b.seen⟩

/-- The books once the pings, polled into the pongs, came back with `r`: the order the poll
reports it dropped is seen, the order it added to the pongs is placed. -/
def Books.afterPoll (b : Books)
    (r : List (PlacedOrder String) × List (PlacedOrder String) × Bool) : Books where
  pings := r.1
  pongs := r.2.1
  placed := b.placed ++ r.2.1.drop b.pongs.length
  seen := b.seen ++ if r.2.2 then (PlacedOrder.closestFirst b.pings).take 1 else []

def Books.start (ladder : List (PlacedOrder String)) : Books := ⟨ladder, [], ladder, []⟩

@[simp] theorem Books.swap_pings (b : Books) : b.swap.pings = b.pongs := rfl
@[simp] theorem Books.swap_pongs (b : Books) : b.swap.pongs = b.pings := rfl
@[simp] theorem Books.swap_swap (b : Books) : b.swap.swap = b := rfl
@[simp] theorem Books.afterPoll_pings (b : Books) r : (b.afterPoll r).pings = r.1 := rfl
@[simp] theorem Books.afterPoll_pongs (b : Books) r : (b.afterPoll r).pongs = r.2.1 := rfl

theorem closestFirst_perm (queue : List (PlacedOrder String)) :
    (PlacedOrder.closestFirst queue).Perm queue :=
  List.mergeSort_perm _ _

theorem enqueue_eq (into : List (PlacedOrder String)) (o : PlacedOrder String) :
    enqueue into o = into ++ if o.order.isSome then [o] else [] := by
  unfold enqueue
  split <;> simp

theorem Books.afterPoll_stays (b : Books) (queue : List (PlacedOrder String)) :
    b.afterPoll (queue, b.pongs, false) = ⟨queue, b.pongs, b.placed, b.seen⟩ := by
  simp [Books.afterPoll]

theorem Books.afterPoll_drops (b : Books) {head : PlacedOrder String}
    {rest : List (PlacedOrder String)} (h : PlacedOrder.closestFirst b.pings = head :: rest)
    (added : List (PlacedOrder String)) :
    b.afterPoll (rest, b.pongs ++ added, true) =
      ⟨rest, b.pongs ++ added, b.placed ++ added, b.seen ++ [head]⟩ := by
  simp [Books.afterPoll, h]

/-- The books the first poll of a round can leave: the same books when there are no pings, else
the books after polling the pings into the pongs. -/
def PollsPings (c : Scope) (tag : String) (d : Float) (b b' : Books) : Prop :=
  if b.pings.isEmpty then b' = b else ∃ r, Polled c tag d b.pings b.pongs r ∧ b' = b.afterPoll r

/-- A round of a ping-pong loop from books `b` to books `b'`: the pings polled into the pongs when
there are pings, then, when endless, the pongs into the pings when there are pongs. -/
def Round (c : Scope) (tag : String) (d : Float) (endless : Bool) (b b' : Books) : Prop :=
  ∃ b₁, PollsPings c tag d b b₁ ∧
    (if endless && !b₁.pongs.isEmpty then PollsPings c tag d b₁.swap b'.swap else b' = b₁)

def Resting (s : Side) (o : PlacedOrder String) : Prop := o.side = s ∧ o.order.isSome

/-- The books of a ping-pong order whose ladder is on side `s`: every placed order is in exactly
one of the two queues or seen, the pings rest on side `s` and the pongs on the other. -/
structure Books.Sound (s : Side) (b : Books) : Prop where
  partition : b.placed.Perm (b.pings ++ b.pongs ++ b.seen)
  pings : ∀ o ∈ b.pings, Resting s o
  pongs : ∀ o ∈ b.pongs, Resting s.opposite o

theorem Books.start_sound {s : Side} {ladder : List (PlacedOrder String)}
    (h : ∀ o ∈ ladder, Resting s o) : (Books.start ladder).Sound s :=
  ⟨by simp [Books.start], h, by simp [Books.start]⟩

namespace Books.Sound

variable {s : Side} {b : Books}

theorem swap (hb : b.Sound s) : b.swap.Sound s.opposite :=
  ⟨hb.partition.trans (List.perm_append_comm.append_right _), hb.pongs,
    by simpa using hb.pings⟩

theorem sorted {head : PlacedOrder String} {rest : List (PlacedOrder String)}
    (h : PlacedOrder.closestFirst b.pings = head :: rest) : (head :: rest).Perm b.pings :=
  h ▸ closestFirst_perm b.pings

theorem drop (hb : b.Sound s) {head : PlacedOrder String} {rest : List (PlacedOrder String)}
    (h : PlacedOrder.closestFirst b.pings = head :: rest) (added : List (PlacedOrder String))
    (hadded : ∀ o ∈ added, Resting s.opposite o) :
    Books.Sound s ⟨rest, b.pongs ++ added, b.placed ++ added, b.seen ++ [head]⟩ := by
  have hq := sorted h
  refine ⟨?_, fun o ho => hb.pings o (hq.subset (List.mem_cons_of_mem _ ho)), ?_⟩
  · have hp := (hb.partition.trans ((hq.symm.append_right _).append_right _)).append_right added
    refine hp.trans ?_
    -- the dropped order moves to the end, the added orders next to the pongs
    classical
    rw [List.perm_iff_count]
    intro a
    simp only [List.count_append, List.count_cons, List.count_nil]
    omega
  · intro o ho
    rcases List.mem_append.mp ho with ho | ho
    · exact hb.pongs o ho
    · exact hadded o ho

theorem afterPoll (hb : b.Sound s) {c : Scope} {tag : String} {d : Float}
    {r : List (PlacedOrder String) × List (PlacedOrder String) × Bool}
    (hr : Polled c tag d b.pings b.pongs r) : (b.afterPoll r).Sound s := by
  cases hr with
  | empty h =>
    have hq : b.pings = [] := by
      have hp := closestFirst_perm b.pings
      rw [h] at hp
      exact hp.symm.eq_nil
    rw [Books.afterPoll_stays]
    exact ⟨by simpa [hq] using hb.partition, by simp, hb.pongs⟩
  | rests h _ _ _ =>
    have hq := sorted h
    rw [Books.afterPoll_stays]
    exact ⟨hb.partition.trans ((hq.symm.append_right _).append_right _),
      fun o ho => hb.pings o (hq.subset ho), hb.pongs⟩
  | gone h _ _ _ =>
    have he := b.afterPoll_drops h []
    rw [List.append_nil] at he
    rw [he]
    simpa using hb.drop h [] (by simp)
  | @filled head rest info o h _ _ _ hside =>
    rw [enqueue_eq, b.afterPoll_drops h]
    refine hb.drop h _ fun x hx => ?_
    split at hx
    · rename_i hsome
      obtain rfl := List.mem_singleton.mp hx
      have hhead := (hb.pings head ((sorted h).subset List.mem_cons_self)).1
      exact ⟨by rw [hside, hhead], hsome⟩
    · simp at hx

theorem pollsPings (hb : b.Sound s) {c : Scope} {tag : String} {d : Float} {b' : Books}
    (h : PollsPings c tag d b b') : b'.Sound s := by
  unfold PollsPings at h
  split at h
  · exact h ▸ hb
  · obtain ⟨r, hr, rfl⟩ := h
    exact hb.afterPoll hr

end Books.Sound

theorem Books.Sound.round {s : Side} {b b' : Books} (hb : b.Sound s) {c : Scope} {tag : String}
    {d : Float} {endless : Bool} (hr : Round c tag d endless b b') : b'.Sound s := by
  obtain ⟨b₁, h₁, h₂⟩ := hr
  have hb₁ := hb.pollsPings h₁
  split at h₂
  · -- the pongs are polled as the pings of the swapped books, on the other side
    simpa using (hb₁.swap.pollsPings h₂).swap
  · exact h₂ ▸ hb₁

def pollPings (c : Scope) (tag : String) (d : Float) (b : Books) : Act (Books × Bool) :=
  if b.pings.isEmpty then pure (b, false)
  else (fun r => (b.afterPoll r, r.2.2)) <$> pollNearest c tag d b.pings b.pongs

/-- One round of a ping-pong loop on its books, up to its sleep: the pings polled into the pongs,
then, when endless and there are pongs, the pongs into the pings; and whether a poll saw an order
filled or gone. -/
def round (c : Scope) (tag : String) (d : Float) (endless : Bool) (b : Books) :
    Act (Books × Bool) :=
  pollPings c tag d b >>= fun r₁ =>
    (if endless && !r₁.1.pongs.isEmpty then
      (fun r => (r.1.swap, r.2)) <$> pollPings c tag d r₁.1.swap
    else pure (r₁.1, false)) >>= fun r₂ =>
    pure (r₂.1, r₁.2 || r₂.2)

/-- The ping-pong loop: while it has pings, or pongs when endless, it stops on request by
cancelling both queues, or runs a round, sleeps and goes on with the queues the round left. -/
theorem rally_succ (c : Scope) (id tag : String) (d : Float) (endless : Bool) (fuel : Nat)
    (b : Books) (backoff : Backoff) :
    rally c id tag d endless (fuel + 1) b.pings b.pongs backoff =
      (if !(!b.pings.isEmpty || (endless && !b.pongs.isEmpty)) then pure () else do
        if ← stopRequested c id then
          Act.cancelOrders c.desk (b.pings.filterMap (·.order))
          Act.cancelOrders c.desk (b.pongs.filterMap (·.order))
          return ()
        let (b, hit) ← round c tag d endless b
        let (delay, backoff) := (if hit then backoff.reset else backoff).idle
        sleep delay
        rally c id tag d endless fuel b.pings b.pongs backoff) := by
  rw [rally]
  split
  · rfl
  congr 1
  funext stop
  split
  · rfl
  simp only [round, pollPings]
  -- the two polls happen or not as the queues are empty or not, on both sides alike
  by_cases hp : b.pings.isEmpty = true
  · simp only [hp, if_true, pure_bind]
    by_cases hq : (endless && !b.pongs.isEmpty) = true
    · have hne : b.pongs.isEmpty = false := by simp_all
      simp only [hq, if_true]
      simp only [Books.swap_pings, hne, Bool.false_eq_true, if_false,
        map_eq_pure_bind, bind_assoc, pure_bind, Books.swap_pongs, Books.afterPoll_pings,
        Books.afterPoll_pongs, Bool.false_or]
    · simp only [hq, if_false, Bool.false_eq_true, pure_bind, Bool.or_false]
  · simp only [hp, if_false, Bool.false_eq_true, map_eq_pure_bind, bind_assoc, pure_bind]
    congr 1
    funext r
    by_cases hq : (endless && !r.2.1.isEmpty) = true
    · have hne : r.2.1.isEmpty = false := by simp_all
      simp only [Books.afterPoll_pongs, hq, if_true]
      simp only [Books.swap_pings, Books.afterPoll_pongs, hne, Bool.false_eq_true,
        if_false, bind_assoc, pure_bind, Books.swap_pongs,
        Books.afterPoll_pings]
    · simp only [Books.afterPoll_pongs, hq, if_false, Bool.false_eq_true, pure_bind,
        Bool.or_false, Books.afterPoll_pings]

theorem pollPings_polls (c : Scope) (tag : String) (d : Float) (b : Books) :
    Act.Ensures (fun r => PollsPings c tag d b r.1) (pollPings c tag d b) := by
  unfold pollPings PollsPings
  split
  · exact Ensures.pure rfl
  · exact (pollNearest_polled c tag d _ _).map _ fun r hr => ⟨r, hr, rfl⟩

theorem round_round (c : Scope) (tag : String) (d : Float) (endless : Bool) (b : Books) :
    Act.Ensures (fun r => Round c tag d endless b r.1) (round c tag d endless b) := by
  unfold round
  refine (pollPings_polls c tag d b).bind fun r₁ h₁ => ?_
  have second : Act.Ensures (fun r : Books × Bool =>
      if endless && !r₁.1.pongs.isEmpty then PollsPings c tag d r₁.1.swap r.1.swap
      else r.1 = r₁.1)
      (if endless && !r₁.1.pongs.isEmpty then
        (fun r => (r.1.swap, r.2)) <$> pollPings c tag d r₁.1.swap
      else pure (r₁.1, false)) := by
    split
    · exact (pollPings_polls c tag d _).map _ fun r hr => by simp [*]
    · exact Ensures.pure rfl
  exact second.bind fun r₂ h₂ => Ensures.pure ⟨r₁.1, h₁, h₂⟩

/-- The books a ping-pong loop that began with `b₀` can begin a round with: the loop runs `round`
on its books and goes on with the books that comes back with (`rally_succ`). -/
inductive Carries (c : Scope) (tag : String) (d : Float) (endless : Bool) (b₀ : Books) :
    Books → Prop
  | start : Carries c tag d endless b₀ b₀
  | round {b b' : Books} {hit : Bool} : Carries c tag d endless b₀ b →
      Act.Yields (round c tag d endless b) (b', hit) → Carries c tag d endless b₀ b'

/-- Every round a ping-pong loop begins from a ladder resting on side `s` finds its books sound;
each of its rounds polls its queues as `Round` says; and, asked to stop, it cancels the orders of
its two queues. -/
theorem rally_keeps_books {c : Scope} {tag : String} {d : Float} {endless : Bool} {s : Side}
    {ladder : List (PlacedOrder String)} (hladder : ∀ o ∈ ladder, Resting s o) {b : Books}
    (hb : Carries c tag d endless (Books.start ladder) b) :
    b.Sound s ∧
      Act.Ensures (fun r => Round c tag d endless b r.1) (round c tag d endless b) ∧
      ∀ (id : String) (fuel : Nat) (backoff : Backoff) (w : World),
        (w.desks.getD c.desk default).algos.isCancelled id = true →
        (!b.pings.isEmpty || (endless && !b.pongs.isEmpty)) = true →
        rally c id tag d endless (fuel + 1) b.pings b.pongs backoff w =
          (Act.cancelOrders c.desk (b.pings.filterMap (·.order)) >>= fun _ =>
            Act.cancelOrders c.desk (b.pongs.filterMap (·.order))) w := by
  have hsound : b.Sound s := by
    induction hb with
    | start => exact Books.start_sound hladder
    | round _ hy ih => exact ih.round ((round_round c tag d endless _).yields hy)
  refine ⟨hsound, round_round c tag d endless b, fun id fuel backoff w hstop hgo => ?_⟩
  rw [rally_succ, if_neg (by simp [hgo])]
  have hreq : stopRequested c id w = .done w (.ok true) := by
    rw [← hstop]
    rfl
  show Step.bind _ (stopRequested c id w) = _
  rw [hreq]
  show ((Act.cancelOrders _ _ >>= fun _ => Act.cancelOrders _ _ >>= fun _ => pure ()) : Act Unit) w = _
  simp only [bind_pure_unit]

theorem one_buy_keeps_books :
    (Books.start [⟨some "1", .buy, 100.0, 1.0, ""⟩]).Sound .buy :=
  (@rally_keeps_books ⟨0, "BTCUSD", "s1"⟩ "pingpong" 20.0 false .buy
    [⟨some "1", .buy, 100.0, 1.0, ""⟩] (by simp [Resting]) _ .start).1

theorem pingPong_ladder_resting {c : Scope} {p : Params} {ladder : List (PlacedOrder String)}
    (h : Act.Yields (placeScaled c p) ladder) {first : PlacedOrder String}
    {rest : List (PlacedOrder String)}
    (hpings : PlacedOrder.closestFirst (ladder.filter (·.order.isSome)) = first :: rest) :
    ∀ o ∈ first :: rest, Resting first.side o := by
  obtain ⟨s, hs⟩ := (placeScaled_side c p).yields h
  have hmem : ∀ o ∈ first :: rest, o ∈ ladder ∧ o.order.isSome := by
    intro o ho
    have ho' := (hpings ▸ closestFirst_perm (ladder.filter (·.order.isSome))).subset ho
    simpa using ho'
  intro o ho
  have hfirst := hs first (hmem first List.mem_cons_self).1
  exact ⟨by rw [hs o (hmem o ho).1, hfirst], (hmem o ho).2⟩

end Rally

end TradeDesk
