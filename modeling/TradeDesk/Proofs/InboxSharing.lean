import TradeDesk.Proofs.DeskSharing
import TradeDesk.Main

/-!
Every run of the inbox is a run of the sharing steps, so its desks are shared soundly at every
point and under every way the scheduler goes on (`Inbox.Reachable.shares_desks`).
-/

namespace TradeDesk

open scoped List

namespace Pool

theorem enqueue_perm {σ ε α : Type} (x : Sleeper σ ε α) (l : List (Sleeper σ ε α)) :
    (enqueue x l).Perm (x :: l) := by
  induction l with
  | nil => rfl
  | cons y ys ih =>
    unfold enqueue
    split
    · rfl
    · exact (ih.cons y).trans (List.Perm.swap x y ys)

theorem record_asleep_perm {σ ε α : Type} (p : Pool σ ε α) (n : Nat) (s : σ) (wake : Float)
    (k : σ → Step σ ε α) :
    (p.record n (.asleep s wake k)).2.sleepers.map (·.resume) ~ k :: p.sleepers.map (·.resume) :=
  (enqueue_perm ⟨wake, n, k⟩ p.sleepers).map _

def resumes (p : Pool World Fault Errand) : List (Act Errand) := p.sleepers.map (·.resume)

end Pool

theorem map_middle_perm {β γ : Type} (f : β → γ) (pre post : List β) (t : β) :
    (pre ++ t :: post).map f ~ f t :: (pre ++ post).map f := by
  rw [List.map_append, List.map_cons, List.map_append]
  exact List.perm_middle

theorem map_remove_middle_perm {β γ : Type} {f : β → γ} {pre post : List β} {t : β}
    {ys zs : List γ} (hp : (pre ++ t :: post).map f ~ ys ++ f t :: zs) :
    (pre ++ post).map f ~ ys ++ zs :=
  ((map_middle_perm f pre post t).symm.trans (hp.trans List.perm_middle)).cons_inv

namespace Inbox

theorem openDesk_inbox {ib ib' : Inbox} {name : String} {creds : List (String × String)}
    {o : Option Nat} (h : ib.openDesk name creds = .ok (ib', o)) :
    ib' = { ib with world := ib'.world } := by
  unfold openDesk at h
  dsimp only at h
  split at h
  · cases h
    rfl
  · obtain ⟨r, -, h⟩ := Paper.Market.except_bind_eq_ok h
    split at h <;> cases h <;> rfl

theorem openDesk_none {ib ib' : Inbox} {name : String} {creds : List (String × String)}
    (h : ib.openDesk name creds = .ok (ib', none)) : ib' = ib := by
  unfold openDesk at h
  dsimp only at h
  split at h
  · cases h
  · obtain ⟨r, -, h⟩ := Paper.Market.except_bind_eq_ok h
    split at h <;> cases h
    rfl

end Inbox

namespace Sharing

/-- A sharing state follows a world and a pool, with jobs still to start, when it has that world
and its tasks run the pool's sleepers and those jobs, in some order. -/
structure Follows (s : Sharing) (w : World) (p : Pool World Fault Errand)
    (jobs : List (Act Errand)) : Prop where
  world : s.world = w
  jobs : s.tasks.map (·.job) ~ p.resumes ++ jobs

/-- Steps that keep the callers lead from a sharing state to one that follows a world, a pool and
jobs. -/
inductive Reaches (s : Sharing) (w : World) (p : Pool World Fault Errand)
    (jobs : List (Act Errand)) : Prop
  | intro (s' : Sharing) : Relation.ReflTransGen Step s s' → s'.callers = s.callers →
      s'.Follows w p jobs → Reaches s w p jobs

variable {s : Sharing} {w w' : World} {p p' : Pool World Fault Errand} {jobs : List (Act Errand)}

theorem Follows.reaches (h : s.Follows w p jobs) : s.Reaches w p jobs := ⟨s, .refl, rfl, h⟩

theorem Reaches.trans {w₂ : World} {p₂ : Pool World Fault Errand} {jobs₂ : List (Act Errand)}
    (h : s.Reaches w p jobs) (hk : ∀ s' : Sharing, s'.Follows w p jobs → s'.Reaches w₂ p₂ jobs₂) :
    s.Reaches w₂ p₂ jobs₂ := by
  obtain ⟨s₁, h₁, hc₁, hf₁⟩ := h
  obtain ⟨s₂, h₂, hc₂, hf₂⟩ := hk s₁ hf₁
  exact ⟨s₂, h₁.trans h₂, hc₂.trans hc₁, hf₂⟩

theorem Reaches.step {s₁ : Sharing} (h : Step s s₁) (hc : s₁.callers = s.callers)
    (hr : s₁.Reaches w p jobs) : s.Reaches w p jobs := by
  obtain ⟨s₂, h₂, hc₂, hf₂⟩ := hr
  exact ⟨s₂, .head h h₂, hc₂.trans hc, hf₂⟩

theorem Follows.record {job : Act Errand} (h : s.Follows w p (job :: jobs)) (now : Float)
    (n : Nat) :
    s.Reaches (p.record n (job (Clocked.setNow w now))).1
      (p.record n (job (Clocked.setNow w now))).2 jobs := by
  obtain ⟨hw, hp⟩ := h
  obtain ⟨t, ht, hjob⟩ := List.mem_map.1 (hp.symm.subset (show job ∈ p.resumes ++ job :: jobs by simp))
  obtain ⟨pre, post, hsplit⟩ := List.append_of_mem ht
  have hrun : t.job (Clocked.setNow s.world now) = job (Clocked.setNow w now) := by rw [hw, hjob]
  -- the other tasks run the sleepers and the jobs after this one
  have hrest : (pre ++ post).map (·.job) ~ p.resumes ++ jobs := by
    rw [hsplit, ← hjob] at hp
    exact map_remove_middle_perm hp
  cases hj : job (Clocked.setNow w now) with
  | done w₁ r =>
    refine Reaches.step (Step.finish hsplit (hrun.trans hj)) rfl ?_
    exact Follows.reaches ⟨rfl, hrest⟩
  | asleep w₁ wake k =>
    have hk : Act.Holds t.desk k := (t.holds.asleep (hrun.trans hj)).2
    have hstep : Step s ⟨w₁, s.callers, pre ++ ⟨t.desk, k, hk⟩ :: post⟩ :=
      Step.sleep hsplit (hrun.trans hj) rfl
    refine Reaches.step hstep rfl (Follows.reaches ⟨rfl, ?_⟩)
    calc (pre ++ ⟨t.desk, k, hk⟩ :: post).map (·.job)
        _ ~ k :: (pre ++ post).map (·.job) := map_middle_perm _ pre post _
        _ ~ k :: (p.resumes ++ jobs) := hrest.cons k
        _ ~ (p.record n (.asleep w₁ wake k)).2.resumes ++ jobs :=
          ((Pool.record_asleep_perm p n w₁ wake k).append_right jobs).symm

theorem Follows.spawn {job : Act Errand} (h : s.Follows w p (job :: jobs)) :
    s.Reaches (p.spawn w job).1 (p.spawn w job).2.1 jobs :=
  (⟨h.world, h.jobs⟩ : s.Follows w { p with outcomes := p.outcomes.push none } (job :: jobs)).record
    (Clocked.now w) p.outcomes.size

theorem Follows.wakeNext {next : World × Pool World Fault Errand} (h : s.Follows w p [])
    (hn : p.wakeNext w = some next) : s.Reaches next.1 next.2 [] := by
  obtain ⟨x, rest, now, hs, rfl⟩ := Pool.wakeNext_eq_some hn
  have hjobs := h.jobs
  simp only [Pool.resumes, hs, List.append_nil] at hjobs
  have hf : s.Follows w { p with sleepers := rest, wakes := p.wakes + 1 } [x.resume] :=
    ⟨h.world, hjobs.trans (List.perm_append_singleton _ _).symm⟩
  exact hf.record now x.job

theorem Follows.driveWhile (pending : Pool World Fault Errand → Bool) (budget : Nat)
    (h : s.Follows w p []) :
    s.Reaches (Pool.driveWhile pending budget w p).1 (Pool.driveWhile pending budget w p).2 [] :=
  Pool.driveWhile_induct (P := fun w p => s.Reaches w p [])
    (fun _ _ _ hr hn => hr.trans fun _ hs => hs.wakeNext hn) pending budget h.reaches

theorem Follows.openAll
    {f : Inbox × List (Act Errand) → CommandBlock → Except Fault (Inbox × List (Act Errand))}
    (hf : ∀ acc b acc', f acc b = .ok acc' → acc' = acc ∨
      ∃ name creds i delay, acc.1.openDesk name creds = .ok (acc'.1, some i) ∧
        acc'.2 = acc.2 ++ [Act.runBlock delay i b.symbol b.actions]) :
    ∀ (bs : List CommandBlock) (acc acc' : Inbox × List (Act Errand)) (s : Sharing),
      bs.foldlM f acc = .ok acc' → s.Follows acc.1.world acc.1.pool acc.2 →
      s.Reaches acc'.1.world acc'.1.pool acc'.2
  | [], acc, acc', s, hfold, h => by
    cases hfold
    exact h.reaches
  | b :: bs, acc, acc', s, hfold, h => by
    rw [List.foldlM_cons] at hfold
    obtain ⟨mid, hmid, hrest⟩ := Paper.Market.except_bind_eq_ok hfold
    rcases hf acc b mid hmid with rfl | ⟨name, creds, i, delay, hopen, hjobs⟩
    · exact Follows.openAll hf bs mid acc' s hrest h
    · -- the block's desk is opened and its job added after the others
      have hstep := Step.openBlock (s := s) delay b.symbol b.actions h.world.symm hopen
      have hpool : mid.1.pool = acc.1.pool := by rw [Inbox.openDesk_inbox hopen]
      refine Reaches.step hstep rfl (Follows.openAll hf bs mid acc' _ hrest ⟨rfl, ?_⟩)
      simp only [hpool, hjobs, List.map_append, List.map_cons, List.map_nil]
      rw [← List.append_assoc]
      exact h.jobs.append_right _

theorem Follows.alert (h : s.Follows w p jobs) (message : String) :
    s.Reaches w p (jobs ++ [Act.sendAlert message]) := by
  refine Reaches.step (Step.alert message) rfl (Follows.reaches ⟨h.world, ?_⟩)
  simp only [List.map_append, List.map_cons, List.map_nil]
  rw [← List.append_assoc]
  exact h.jobs.append_right _

theorem Follows.spawnAll {f : Inbox × List Nat → Act Errand → Inbox × List Nat}
    (hf : ∀ acc job, (f acc job).1.world = (acc.1.pool.spawn acc.1.world job).1 ∧
      (f acc job).1.pool = (acc.1.pool.spawn acc.1.world job).2.1) :
    ∀ (jobs : List (Act Errand)) (acc res : Inbox × List Nat) (s : Sharing),
      jobs.foldl f acc = res → s.Follows acc.1.world acc.1.pool jobs →
      s.Reaches res.1.world res.1.pool []
  | [], _, _, _, hfold, h => by
    cases hfold
    exact h.reaches
  | job :: jobs, acc, res, _, hfold, h => by
    refine h.spawn.trans fun s' hs' => Follows.spawnAll hf jobs (f acc job) res s' hfold ?_
    rw [(hf acc job).1, (hf acc job).2]
    exact hs'

theorem Follows.receive {ib ib' : Inbox} {message : String} {hd : Handled}
    (h : s.Follows ib.world ib.pool []) (hr : ib.receive message = .ok (ib', hd)) :
    s.Reaches ib'.world ib'.pool [] := by
  unfold Inbox.receive at hr
  obtain ⟨⟨ib₁, jobs₁⟩, hopen, hr⟩ := Paper.Market.except_bind_eq_ok hr
  -- all blocks open their desks before any job starts; an unsupported exchange opens nothing
  have h₁ : s.Reaches ib₁.world ib₁.pool jobs₁ := by
    refine Follows.openAll (fun acc b acc' hb => ?_) _ (ib, []) _ s hopen h
    split at hb
    · cases hb
      exact .inl rfl
    · obtain ⟨⟨ib₂, o⟩, ho, hb⟩ := Paper.Market.except_bind_eq_ok hb
      cases o with
      | none =>
        cases hb
        exact .inl (by rw [Inbox.openDesk_none ho])
      | some i =>
        cases hb
        exact .inr ⟨_, _, i, _, ho, rfl⟩
  dsimp only at hr
  -- the alert, if any, comes after the blocks' jobs
  generalize hjobs : (if hasMarker message.toList = true then jobs₁ ++ [Act.sendAlert message]
    else jobs₁) = jobs at hr
  have h₂ : s.Reaches ib₁.world ib₁.pool jobs := by
    subst hjobs
    split
    · exact h₁.trans fun _ hs => hs.alert message
    · exact h₁
  -- each job is spawned in turn and runs until it first sleeps or finishes
  generalize hspawn : jobs.foldl _ (ib₁, []) = spawned at hr
  obtain ⟨ib₃, numbers⟩ := spawned
  have h₃ : s.Reaches ib₃.world ib₃.pool [] :=
    h₂.trans fun s' hs => Follows.spawnAll (fun _ _ => ⟨rfl, rfl⟩) jobs (ib₁, []) _ s' hspawn hs
  dsimp only at hr
  cases hr
  -- then the pool is driven, one wake a step
  exact h₃.trans fun _ hs => hs.driveWhile _ _

end Sharing

/-- The inboxes that runs reach from a world with no open desk and nothing sleeping, with the
desks their callers hold: messages handled, and desks opened and given back by callers, in any
order. -/
inductive Inbox.Reachable : Inbox → List Nat → Prop
  | start {ib : Inbox} : ib.world.opened = [] →
      (∀ i < ib.world.desks.size, (ib.world.desks.getD i default).market.closed = true) →
      ib.pool.sleepers = [] → Inbox.Reachable ib []
  | receive {ib ib' : Inbox} {callers : List Nat} {message : String} {hd : Handled} :
      Inbox.Reachable ib callers → ib.receive message = .ok (ib', hd) →
      Inbox.Reachable ib' callers
  | openDesk {ib ib' : Inbox} {callers : List Nat} {name : String}
      {creds : List (String × String)} {i : Nat} :
      Inbox.Reachable ib callers → ib.openDesk name creds = .ok (ib', some i) →
      Inbox.Reachable ib' (callers ++ [i])
  | giveBack {ib : Inbox} {pre post : List Nat} {i : Nat} {w : World} :
      Inbox.Reachable ib (pre ++ i :: post) → Act.giveBack i ib.world = .done w (.ok ()) →
      Inbox.Reachable { ib with world := w } (pre ++ post)

theorem Sharing.Reachable.star {s s' : Sharing} (h : s.Reachable)
    (hs : Relation.ReflTransGen Sharing.Step s s') : s'.Reachable := by
  induction hs with
  | refl => exact h
  | tail _ hst ih => exact .step ih hst

theorem Inbox.Reachable.follows {ib : Inbox} {callers : List Nat} (h : ib.Reachable callers) :
    ∃ s : Sharing, s.Reachable ∧ s.callers = callers ∧ s.Follows ib.world ib.pool [] := by
  induction h with
  | start hopened hclosed hsleep =>
    refine ⟨⟨_, [], []⟩, .start hopened hclosed, rfl, ⟨rfl, ?_⟩⟩
    rw [Pool.resumes, hsleep]
    rfl
  | receive _ hr ih =>
    obtain ⟨s, hs, hc, hf⟩ := ih
    obtain ⟨s', hst, hc', hf'⟩ := hf.receive hr
    exact ⟨s', hs.star hst, hc'.trans hc, hf'⟩
  | openDesk _ ho ih =>
    obtain ⟨s, hs, hc, hf⟩ := ih
    have hpool := congrArg Inbox.pool (Inbox.openDesk_inbox ho)
    exact ⟨_, .step hs (.openDesk hf.world.symm ho), by rw [hc], ⟨rfl, hpool ▸ hf.jobs⟩⟩
  | giveBack _ hg ih =>
    obtain ⟨s, hs, hc, hf⟩ := ih
    exact ⟨_, .step hs (.giveBack hc (hf.world ▸ hg)), rfl, ⟨rfl, hf.jobs⟩⟩

/-- At every point of every run of the inbox the desks are shared soundly. The run is a run of the
sharing steps whose tasks are the pool's sleepers, and everything `Sharing.Shared` says holds of
it: there, and at every state the scheduler and the callers can go on to. -/
theorem Inbox.Reachable.shares_desks {ib : Inbox} {callers : List Nat}
    (h : ib.Reachable callers) :
    ∃ s : Sharing, s.world = ib.world ∧ s.callers = callers ∧
      s.tasks.map (·.job) ~ ib.pool.resumes ∧
      ∀ s', Relation.ReflTransGen Sharing.Step s s' → s'.Shared := by
  obtain ⟨s, hs, hc, hf⟩ := h.follows
  exact ⟨s, hf.world, hc, by simpa using hf.jobs, fun _ hst => (hs.star hst).shared⟩

theorem console_inbox_shares_desks :
    Inbox.Reachable Console.inbox [] ∧
      ∃ s : Sharing, s.world = Console.inbox.world ∧ s.callers = [] ∧
        s.tasks.map (·.job) ~ Console.inbox.pool.resumes ∧
        ∀ s', Relation.ReflTransGen Sharing.Step s s' → s'.Shared :=
  have h : Inbox.Reachable Console.inbox [] :=
    .start rfl (fun i hi => absurd hi (Nat.not_lt_zero i)) rfl
  ⟨h, Inbox.Reachable.shares_desks h⟩

end TradeDesk
