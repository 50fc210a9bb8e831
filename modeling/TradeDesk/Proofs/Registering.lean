import Mathlib
import TradeDesk.Proofs.Standing

/-!
How commands register algorithmic orders: every job registers in turn, one registration held at a
time and none at the end (`execute_registers`).
-/

namespace TradeDesk

open Handler Act

namespace Standing

/-- The registration an algorithmic order of scope `c` makes on `side` under `tag`: the next id,
and the scope's session. -/
def next (v : Standing) (c : Scope) (side : Side) (tag : String) : Registration :=
  ⟨"algo-" ++ toString (v.count + 1), side, c.session, tag⟩

/-- The standing once registration `r` is added on desk `i`: at the end of its registry when the
desk exists, and one more registration made in any case. -/
def register (v : Standing) (i : Nat) (r : Registration) : Standing :=
  { v with
    registry := if i < v.size then Function.update v.registry i (v.registry i ++ [r])
      else v.registry
    count := v.count + 1 }

def release (v : Standing) (i : Nat) (id : String) : Standing :=
  { v with
    registry := if i < v.size then
      Function.update v.registry i ((v.registry i).filter (·.id != id)) else v.registry }

end Standing

theorem AlgoBook.registrations_start (b : AlgoBook) (id : String) (side : Side)
    (session tag : String) :
    (b.start id side session tag).1.registrations = b.registrations ++ [⟨id, side, session, tag⟩] := by
  simp [AlgoBook.start, AlgoBook.registrations, Algo.registration]

theorem AlgoBook.registrations_finish (b : AlgoBook) (id : String) :
    (b.finish id).registrations = b.registrations.filter (·.id != id) := by
  simp [AlgoBook.finish, AlgoBook.registrations, List.filter_map, Function.comp_def,
    Algo.registration]

theorem World.standing_modify_algos (w : World) (i : Nat) (f : Desk → Desk)
    (g : List Registration → List Registration)
    (hf : ∀ d, (f d).table = d.table ∧ (f d).algos.registrations = g d.algos.registrations) :
    ({ w with desks := w.desks.modify i f } : World).standing =
      { w.standing with
        registry := if i < w.desks.size then
          Function.update w.standing.registry i (g (w.standing.registry i)) else w.standing.registry } := by
  have htables := World.tables_modify (w := w) (i := i) fun d => (hf d).1
  simp only [World.tables] at htables
  simp only [World.standing, Array.size_modify] at htables ⊢
  congr 1
  by_cases hi : i < w.desks.size
  · rw [if_pos hi, World.desk_modify_of_lt (·.algos.registrations) f hi, (hf _).2]
  · -- a desk that does not exist is left as it is
    rw [if_neg hi]
    refine funext (World.desk_modify (·.algos.registrations) fun d hd => ?_)
    rw [Option.mem_def, Array.getElem?_eq_none (by omega)] at hd
    cases hd

theorem register_standing (c : Scope) (side : Side) (tag : String) (w : World) :
    ∃ w', register c side tag w = .done w' (.ok (w.standing.next c side tag).id) ∧
      w'.standing = w.standing.register c.desk (w.standing.next c side tag) := by
  refine ⟨_, rfl, ?_⟩
  have h := World.standing_modify_algos { w with algoCount := w.algoCount + 1 } c.desk
    (fun d => { d with algos := (d.algos.start (w.standing.next c side tag).id side c.session tag).1 })
    (· ++ [w.standing.next c side tag])
    fun _ => ⟨rfl, AlgoBook.registrations_start _ _ _ _ _⟩
  exact h

theorem release_standing (c : Scope) (id : String) (w : World) :
    ∃ w', release c id w = .done w' (.ok ()) ∧ w'.standing = w.standing.release c.desk id :=
  ⟨_, rfl, World.standing_modify_algos w c.desk _ (·.filter (·.id != id))
    fun _ => ⟨rfl, AlgoBook.registrations_finish _ _⟩⟩

/-! ### Registering in turn -/

/-- How a job of scope `c` moves the standing, with the registration it holds: holding none, it
registers the next id; holding one, it releases it. -/
inductive Move (c : Scope) : Option Registration × Standing → Option Registration × Standing → Prop
  | register (v : Standing) (side : Side) (tag : String) :
      Move c (none, v) (some (v.next c side tag), v.register c.desk (v.next c side tag))
  | release (r : Registration) (v : Standing) : Move c (some r, v) (none, v.release c.desk r.id)

/-- A step of a job of scope `c` that holds `p` in a world of standing `v`: wherever it falls
asleep, and where it ends, the standing is `v` moved by the scope's registrations and releases,
and it ends holding none; woken in any world, it goes on from that world's standing. -/
def Step.Registers {α : Type} (c : Scope) :
    Option Registration × Standing → Step World Fault α → Prop
  | p, .done s _ => Relation.ReflTransGen (Move c) p (none, s.standing)
  | p, .asleep s _ k => ∃ q, Relation.ReflTransGen (Move c) p (q, s.standing) ∧
      ∀ s', Step.Registers c (q, s'.standing) (k s')

/-- A job of scope `c` that registers in turn, holding `p` when it starts. -/
structure Act.Registers {α : Type} (c : Scope) (p : Option Registration) (a : Act α) : Prop where
  step : ∀ w, (a w).Registers c (p, w.standing)

namespace Step.Registers

variable {α β : Type} {c : Scope}

theorem head {p p' : Option Registration × Standing} (hm : Relation.ReflTransGen (Move c) p p') :
    ∀ {st : Step World Fault α}, st.Registers c p' → st.Registers c p
  | .done _ _, h => hm.trans h
  | .asleep _ _ _, ⟨q, hq, hk⟩ => ⟨q, hm.trans hq, hk⟩

theorem of_fixes {v : Standing} :
    ∀ {st : Step World Fault α}, st.Fixes World.standing v → st.Registers c (none, v)
  | .done s _, h => by
    change s.standing = v at h
    show Relation.ReflTransGen (Move c) _ (none, s.standing)
    rw [h]
  | .asleep _ _ _, ⟨h, hk⟩ => ⟨none, by rw [h], fun s' => of_fixes (hk s')⟩

theorem bind {k : α → Act β} (hk : ∀ x, Act.Registers c none (k x)) :
    ∀ {p : Option Registration × Standing} {st : Step World Fault α},
      st.Registers c p → (st.bind k).Registers c p
  | _, .done s (.ok x), h => head h ((hk x).step s)
  | _, .done _ (.error _), h => h
  | _, .asleep _ _ _, ⟨q, hq, hr⟩ => ⟨q, hq, fun s' => bind hk (hr s')⟩

theorem handle {k : Fault → Act α} (hk : ∀ e, Act.Registers c none (k e)) :
    ∀ {p : Option Registration × Standing} {st : Step World Fault α},
      st.Registers c p → (st.handle k).Registers c p
  | _, .done s (.error e), h => head h ((hk e).step s)
  | _, .done _ (.ok _), h => h
  | _, .asleep _ _ _, ⟨q, hq, hr⟩ => ⟨q, hq, fun s' => handle hk (hr s')⟩

theorem attempt :
    ∀ {p : Option Registration × Standing} {st : Step World Fault α},
      st.Registers c p → (st.attempt : Step World Fault (Except Fault α)).Registers c p
  | _, .done _ _, h => h
  | _, .asleep _ _ _, ⟨q, hq, hr⟩ => ⟨q, hq, fun s' => attempt (hr s')⟩

theorem andFinally_release (r : Registration) {v : Standing} :
    ∀ {st : Step World Fault α}, st.Fixes World.standing v →
      (st.andFinally (release c r.id)).Registers c (some r, v)
  | .done s res, h => by
    change s.standing = v at h
    obtain ⟨s', hs', hv⟩ := release_standing c r.id s
    show ((release c r.id s).bind fun _ s'' => .done s'' res).Registers c _
    rw [hs']
    show Relation.ReflTransGen (Move c) _ (none, s'.standing)
    rw [hv, h]
    exact .single (.release r v)
  | .asleep _ _ _, ⟨h, hk⟩ => ⟨some r, by rw [h], fun s' => andFinally_release r (hk s')⟩

end Step.Registers

namespace Act.Registers

variable {α β : Type} {c : Scope}

theorem of_stands {a : Act α} (h : Act.Stands a) : Act.Registers c none a :=
  ⟨fun w => Step.Registers.of_fixes (h.step w)⟩

theorem bind {p : Option Registration} {a : Act α} {k : α → Act β} (ha : Act.Registers c p a)
    (hk : ∀ x, Act.Registers c none (k x)) : Act.Registers c p (a >>= k) :=
  ⟨fun w => Step.Registers.bind hk (ha.step w)⟩

theorem pure (x : α) : Act.Registers c none (Pure.pure x : Act α) := of_stands (Fixes.pure x)

theorem map {p : Option Registration} (f : α → β) {a : Act α} (ha : Act.Registers c p a) :
    Act.Registers c p (f <$> a) :=
  ha.bind fun _ => pure _

theorem tryCatch {p : Option Registration} {a : Act α} {h : Fault → Act α}
    (ha : Act.Registers c p a) (hh : ∀ e, Act.Registers c none (h e)) :
    Act.Registers c p (tryCatch a h) :=
  ⟨fun w => Step.Registers.handle hh (ha.step w)⟩

theorem attempt {p : Option Registration} {a : Act α} (ha : Act.Registers c p a) :
    Act.Registers c p (Job.attempt a : Act (Except Fault α)) :=
  ⟨fun w => Step.Registers.attempt (ha.step w)⟩

theorem mapM {f : β → Act α} (hf : ∀ x, Act.Registers c none (f x)) (xs : List β) :
    Act.Registers c none (xs.mapM f) := by
  induction xs with
  | nil => exact pure _
  | cons x xs ih =>
    rw [List.mapM_cons]
    exact (hf x).bind fun y => ih.bind fun ys => pure _

theorem register_release (side : Side) (tag : String) {body : String → Act β}
    (hbody : ∀ id, Act.Stands (body id)) {k : β → Act α} (hk : ∀ x, Act.Registers c none (k x)) :
    Act.Registers c none
      (register c side tag >>= fun id => Job.andFinally (body id) (release c id) >>= k) := by
  refine ⟨fun w => ?_⟩
  obtain ⟨w', hw', hv⟩ := register_standing c side tag w
  show ((register c side tag w).bind _).Registers c _
  rw [hw']
  refine Step.Registers.head (.single (.register w.standing side tag)) ?_
  rw [← hv]
  exact Step.Registers.bind hk (Step.Registers.andFinally_release _ ((hbody _).step w'))

end Act.Registers

/-- The shape of an algorithmic order of scope `c`: it keeps the standing while it checks what to
do and may end there; or it registers once, on a side and under a tag, runs a body that keeps the
standing, releases the registration however the body ends, and answers without touching the
standing again. -/
inductive Act.RegistersOnce {α : Type} (c : Scope) : Act α → Prop
  | stands {a : Act α} : Act.Stands a → Act.RegistersOnce c a
  | bind {β : Type} {a : Act β} {k : β → Act α} :
      Act.Stands a → (∀ x, Act.RegistersOnce c (k x)) → Act.RegistersOnce c (a >>= k)
  | register {β : Type} (side : Side) (tag : String) {body : String → Act β} {k : β → Act α} :
      (∀ id, Act.Stands (body id)) → (∀ x, Act.Stands (k x)) →
      Act.RegistersOnce c (register c side tag >>= fun id => Job.andFinally (body id) (release c id) >>= k)

theorem Act.RegistersOnce.registers {α : Type} {c : Scope} {a : Act α}
    (h : Act.RegistersOnce c a) : Act.Registers c none a := by
  induction h with
  | stands ha => exact .of_stands ha
  | bind ha _ ih => exact (Act.Registers.of_stands ha).bind ih
  | register side tag hbody hk =>
    exact Act.Registers.register_release side tag hbody fun x => .of_stands (hk x)

theorem Act.RegistersOnce.ite {α : Type} {c : Scope} {p : Prop} {_ : Decidable p} {t e : Act α}
    (ht : Act.RegistersOnce c t) (he : Act.RegistersOnce c e) :
    Act.RegistersOnce c (if p then t else e) := by
  split
  · exact ht
  · exact he

theorem Act.RegistersOnce.register_release {α : Type} {c : Scope} (side : Side) (tag : String)
    {body : String → Act α} (hbody : ∀ id, Act.Stands (body id)) :
    Act.RegistersOnce c
      (Act.register c side tag >>= fun id => Job.andFinally (body id) (Act.release c id)) := by
  have h : Act.RegistersOnce c (Act.register c side tag >>= fun id =>
      Job.andFinally (body id) (Act.release c id) >>= Pure.pure) :=
    .register side tag hbody fun x => Fixes.pure x
  simpa only [bind_pure] using h

namespace Handler

theorem twapOrder_registersOnce (c : Scope) (p : Params) :
    Act.RegistersOnce c (twapOrder c p) := by
  unfold twapOrder
  dsimp only
  refine .bind (Fixes.lift _) fun _ => .bind (Fixes.lift _) fun _ =>
    .ite (.stands (Fixes.throw_bind _ _)) ?_
  refine .bind (Fixes.lift _) fun _ => .bind (Fixes.lift _) fun _ =>
    .bind (positionToAmount_reads _ _ _ _ _).stands fun _ => .ite (.stands (Fixes.pure _)) ?_
  -- both ways of sizing the slices end in the same registration
  refine .ite ?_ ?_
  · exact .bind Fixes.get fun _ => .bind (Fixes.lift _) fun _ =>
      .register_release _ _ fun _ => (placeSlices_trades _ _ _ _ _ _ _ _ _).stands
  · exact .bind (Fixes.lift _) fun _ => .bind (Fixes.pure _) fun _ =>
      .register_release _ _ fun _ => (placeSlices_trades _ _ _ _ _ _ _ _ _).stands

theorem icebergOrder_registersOnce (fuel : Nat) (c : Scope) (p : Params) :
    Act.RegistersOnce c (icebergOrder fuel c p) := by
  unfold icebergOrder
  dsimp only
  refine .bind (Fixes.lift _) fun _ => .bind (Fixes.lift _) fun _ => ?_
  split
  · exact .stands (Fixes.pure _)
  · refine .ite (.stands (Fixes.pure _)) ?_
    refine .bind Fixes.now fun _ => .bind (wholeFloat_trades _).stands fun _ =>
      .bind (Fixes.desk _) fun _ => .bind Fixes.get fun _ => ?_
    simp only [map_eq_pure_bind]
    exact .register _ _ (fun _ => (icebergLoop_trades _ _ _ _ _).stands) fun _ => Fixes.pure _

theorem pingPongOrder_registersOnce (fuel : Nat) (c : Scope) (p : Params) :
    Act.RegistersOnce c (pingPongOrder fuel c p) := by
  unfold pingPongOrder
  dsimp only
  refine .ite (.stands (Fixes.throw_bind _ _)) ?_
  refine .bind (placeScaled_trades _ _).stands fun _ => ?_
  split
  · exact .stands (Fixes.pure _)
  · exact .bind (Fixes.desk _) fun _ =>
      .register_release _ _ fun _ => (rally_trades _ _ _ _ _ _ _ _ _).stands

theorem perform_registers {run : String → List Argument → Act Reply} {c : Scope}
    (hrun : ∀ name args, Act.Registers c none (run name args)) (cmd : Command) (p : Params) :
    Act.Registers c none (perform run c cmd p) := by
  unfold perform
  cases cmd with
  | wait => exact .of_stands (Fixes.map _ (wait_trades _).stands)
  | scaledOrder => exact .of_stands (Fixes.map _ (placeScaled_trades _ _).stands)
  | twapOrder => exact (twapOrder_registersOnce _ _).registers.map _
  | icebergOrder => exact (icebergOrder_registersOnce _ _ _).registers
  | pingPongOrder => exact (pingPongOrder_registersOnce _ _ _).registers.map _
  | stopMarketOrder => exact .of_stands (Fixes.map _ (stopMarketOrder_trades _ _).stands)
  | callMacro =>
    refine (Act.Registers.of_stands (Fixes.desk _)).bind fun _ => ?_
    split
    · exact .of_stands (Fixes.throw _)
    · exact (Act.Registers.mapM (fun _ => hrun _ _) _).map _
  | notify => exact .of_stands (Fixes.map _ (notify_trades _).stands)
  | balance => exact .of_stands (Fixes.map _ (balance_trades _).stands)
  | contractsBalance => exact .of_stands (Fixes.map _ (contractsBalance_trades _).stands)
  | limitOrder => exact .of_stands (Fixes.map _ (limitOrder_trades _ _).stands)
  | marketOrder => exact .of_stands (Fixes.map _ (marketOrder_trades _ _).stands)
  | cancelOrders => exact .of_stands (Fixes.map _ (cancelOrders_trades _ _).stands)

/-- Every action, macros included, registers in turn: by induction on the depth macros may still
nest. -/
theorem execute_registers : ∀ (depth : Nat) (c : Scope) (name : String) (args : List Argument),
    Act.Registers c none (execute depth c name args)
  | 0, _, _, _ => .of_stands (Fixes.throw _)
  | depth + 1, c, name, args => by
    unfold execute
    refine (Act.Registers.of_stands (Fixes.desk _)).bind fun _ => ?_
    split
    · exact .of_stands (Fixes.throw _)
    · exact execute_registers depth c _ _
    · exact (Act.Registers.of_stands (defaults_trades _ _).stands).bind fun _ =>
        perform_registers (execute_registers depth c) _ _

theorem executeCommand_registers (c : Scope) (name : String) (args : List Argument) :
    Act.Registers c none (executeCommand c name args) :=
  (Act.Registers.of_stands Fixes.get).bind fun w => execute_registers w.frames c name args

end Handler

end TradeDesk
