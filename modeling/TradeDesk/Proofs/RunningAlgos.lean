import TradeDesk.Proofs.Registering
import TradeDesk.Proofs.InboxSharing

/-!
The registry of algorithmic orders under every interleaving of jobs lists exactly the
registrations they hold, in order (`bench_registry_lists_running_algos`).
-/

namespace TradeDesk

open Act Handler
open scoped List

/-! ### Issued ids -/

def Registration.Issued (r : Registration) (n : Nat) : Prop := r.id = "algo-" ++ toString n

def Registration.Before (r r' : Registration) : Prop :=
  ∃ m n, m < n ∧ r.Issued m ∧ r'.Issued n

theorem Registration.Issued.inj {r : Registration} {m n : Nat} (hm : r.Issued m)
    (hn : r.Issued n) : m = n := by
  have h : "algo-" ++ toString m = "algo-" ++ toString n := hm.symm.trans hn
  have hd : Nat.toDigits 10 m = Nat.toDigits 10 n :=
    String.ofList_injective ((String.append_right_inj _).mp h)
  have hmn := congrArg (fun l => Nat.ofDigitChars 10 l 0) hd
  simpa only [Nat.ofDigitChars_ten_toDigits] using hmn

theorem Registration.Before.id_ne {r r' : Registration} (h : r.Before r') : r.id ≠ r'.id := by
  obtain ⟨m, n, hlt, hm, hn⟩ := h
  intro he
  have hn' : r.Issued n := he.trans hn
  have := hm.inj hn'
  omega

theorem Standing.next_issued (v : Standing) (c : Scope) (side : Side) (tag : String) :
    (v.next c side tag).Issued (v.count + 1) := rfl

theorem filter_id_eq_erase {l : List Registration} (hl : l.Pairwise Registration.Before)
    {r : Registration} (hr : r ∈ l) : l.filter (·.id != r.id) = l.erase r := by
  induction l with
  | nil => cases hr
  | cons x l ih =>
    obtain ⟨hx, hl⟩ := List.pairwise_cons.mp hl
    by_cases hxr : x = r
    · subst hxr
      have hkeep : ∀ y ∈ l, (y.id != x.id) = true :=
        fun y hy => bne_iff_ne.mpr (hx y hy).id_ne.symm
      simp [List.filter_eq_self.mpr hkeep]
    · have hr' : r ∈ l := (List.mem_cons.mp hr).resolve_left (Ne.symm hxr)
      have hne : (x.id != r.id) = true := bne_iff_ne.mpr (hx r hr').id_ne
      simp only [List.filter_cons, hne, if_true]
      rw [List.erase_cons_tail (by simpa using hxr), ih hl hr']

/-! ### What the jobs hold -/

theorem mem_middle {α : Type} {x y z : α} {pre post : List α} (hx : x ∈ pre ++ y :: post) :
    x = y ∨ x ∈ pre ++ z :: post := by
  rcases List.mem_cons.mp (List.perm_middle.subset hx) with rfl | hx
  · exact .inl rfl
  · exact .inr (List.perm_middle.symm.subset (List.mem_cons_of_mem _ hx))

def holding (hs : List (Scope × Option Registration)) (i : Nat) : List Registration :=
  hs.filterMap fun x => if x.1.desk = i then x.2 else none

theorem holding_middle (pre post : List (Scope × Option Registration)) (c : Scope)
    (p : Option Registration) (i : Nat) :
    holding (pre ++ (c, p) :: post) i =
      holding pre i ++ ((if c.desk = i then p.toList else []) ++ holding post i) := by
  by_cases hi : c.desk = i <;> cases p <;> simp [holding, hi]

/-- The standing accounts for what its jobs hold: every job's desk exists, and the registry of
every desk lists exactly the registrations its jobs hold, each under its job's session, in the
order their ids were issued, none issued after the count. -/
structure Standing.Tracks (v : Standing) (hs : List (Scope × Option Registration)) : Prop where
  desks : ∀ x ∈ hs, x.1.desk < v.size
  registry : ∀ i, v.registry i ~ holding hs i
  sessions : ∀ x ∈ hs, ∀ r ∈ x.2, r.session = x.1.session
  issued : ∀ i, ∀ r ∈ v.registry i, ∃ n ≤ v.count, r.Issued n
  ordered : ∀ i, (v.registry i).Pairwise Registration.Before

namespace Standing

theorem register_registry {v : Standing} {i : Nat} (r : Registration) (hi : i < v.size) (j : Nat) :
    (v.register i r).registry j = if j = i then v.registry i ++ [r] else v.registry j := by
  simp [register, hi, Function.update_apply]

theorem release_registry {v : Standing} {i : Nat} (id : String) (hi : i < v.size) (j : Nat) :
    (v.release i id).registry j =
      if j = i then (v.registry i).filter (·.id != id) else v.registry j := by
  simp [release, hi, Function.update_apply]

namespace Tracks

variable {v : Standing} {c : Scope} {pre post : List (Scope × Option Registration)}

theorem desk_lt {p : Option Registration} (h : v.Tracks (pre ++ (c, p) :: post)) :
    c.desk < v.size :=
  h.desks (c, p) (by simp)

theorem register (h : v.Tracks (pre ++ (c, none) :: post)) (side : Side) (tag : String) :
    (v.register c.desk (v.next c side tag)).Tracks (pre ++ (c, some (v.next c side tag)) :: post) := by
  have hc := h.desk_lt
  constructor
  · intro x hx
    rcases mem_middle hx with rfl | hx
    · exact hc
    · exact h.desks x hx
  · intro j
    have old := h.registry j
    rw [holding_middle] at old
    rw [register_registry _ hc, holding_middle]
    by_cases hj : j = c.desk
    · subst hj
      simp only [if_true, Option.toList_some, Option.toList_none, List.nil_append] at old ⊢
      calc v.registry c.desk ++ [v.next c side tag]
          _ ~ holding pre c.desk ++ holding post c.desk ++ [v.next c side tag] :=
            old.append_right _
          _ ~ holding pre c.desk ++ (v.next c side tag :: holding post c.desk) := by
            rw [List.append_assoc]
            exact (List.perm_append_singleton _ _).append_left _
    · simpa [hj, Ne.symm hj] using old
  · intro x hx r hr
    rcases mem_middle hx with rfl | hx
    · cases hr
      rfl
    · exact h.sessions x hx r hr
  · intro j r hr
    rw [register_registry _ hc] at hr
    split at hr
    · rcases List.mem_append.mp hr with hr | hr
      · obtain ⟨n, hn, hi⟩ := h.issued _ r hr
        exact ⟨n, by simp only [Standing.register]; omega, hi⟩
      · obtain rfl := List.mem_singleton.mp hr
        exact ⟨v.count + 1, le_refl _, next_issued v c side tag⟩
    · obtain ⟨n, hn, hi⟩ := h.issued j r hr
      exact ⟨n, by simp only [Standing.register]; omega, hi⟩
  · intro j
    rw [register_registry _ hc]
    split
    · refine List.pairwise_append.mpr ⟨h.ordered _, List.pairwise_singleton _ _, ?_⟩
      intro a ha b hb
      obtain rfl := List.mem_singleton.mp hb
      obtain ⟨n, hn, hi⟩ := h.issued _ a ha
      exact ⟨n, v.count + 1, by omega, hi, next_issued v c side tag⟩
    · exact h.ordered j

theorem release {r : Registration} (h : v.Tracks (pre ++ (c, some r) :: post)) :
    (v.release c.desk r.id).Tracks (pre ++ (c, none) :: post) := by
  have hc := h.desk_lt
  have hmem : r ∈ v.registry c.desk :=
    (h.registry c.desk).mem_iff.mpr (by simp [holding_middle])
  constructor
  · intro x hx
    rcases mem_middle hx with rfl | hx
    · exact hc
    · exact h.desks x hx
  · intro j
    have old := h.registry j
    rw [holding_middle] at old
    rw [release_registry _ hc, holding_middle]
    by_cases hj : j = c.desk
    · subst hj
      simp only [if_true, Option.toList_some, Option.toList_none, List.nil_append] at old ⊢
      rw [filter_id_eq_erase (h.ordered _) hmem]
      -- the registry is the held registrations with `r` among them; erasing it leaves the rest
      have hout : v.registry c.desk ~ r :: (holding pre c.desk ++ holding post c.desk) :=
        old.trans List.perm_middle
      simpa using hout.erase r
    · simpa [hj, Ne.symm hj] using old
  · intro x hx r' hr
    rcases mem_middle hx with rfl | hx
    · cases hr
    · exact h.sessions x hx r' hr
  · intro j r' hr
    rw [release_registry _ hc] at hr
    split at hr
    · exact h.issued _ r' (List.mem_of_mem_filter hr)
    · exact h.issued j r' hr
  · intro j
    rw [release_registry _ hc]
    split
    · exact (h.ordered _).filter _
    · exact h.ordered j

theorem move {p p' : Option Registration} {v' : Standing}
    (h : v.Tracks (pre ++ (c, p) :: post)) (hm : Move c (p, v) (p', v')) :
    v'.Tracks (pre ++ (c, p') :: post) := by
  cases hm with
  | register _ side tag => exact h.register side tag
  | release r _ => exact h.release

theorem moves {p : Option Registration} (h : v.Tracks (pre ++ (c, p) :: post))
    {q : Option Registration × Standing} (hm : Relation.ReflTransGen (Move c) (p, v) q) :
    q.2.Tracks (pre ++ (c, q.1) :: post) := by
  -- the other jobs hold the same all along; only this job's holding moves
  induction hm with
  | refl => exact h
  | tail _ hstep ih => exact ih.move hstep

theorem spawn (h : v.Tracks (pre ++ post)) (hc : c.desk < v.size) :
    v.Tracks (pre ++ (c, none) :: post) := by
  constructor
  · intro x hx
    rcases List.mem_cons.mp (List.perm_middle.subset hx) with rfl | hx
    · exact hc
    · exact h.desks x hx
  · intro j
    simpa [holding_middle, holding] using h.registry j
  · intro x hx r hr
    rcases List.mem_cons.mp (List.perm_middle.subset hx) with rfl | hx
    · cases hr
    · exact h.sessions x hx r hr
  · exact h.issued
  · exact h.ordered

theorem finish (h : v.Tracks (pre ++ (c, none) :: post)) : v.Tracks (pre ++ post) := by
  have hsub : pre ++ post ⊆ pre ++ (c, none) :: post :=
    fun _ hx => List.perm_middle.symm.subset (List.mem_cons_of_mem _ hx)
  constructor
  · exact fun x hx => h.desks x (hsub hx)
  · intro j
    simpa [holding_middle, holding] using h.registry j
  · exact fun x hx => h.sessions x (hsub hx)
  · exact h.issued
  · exact h.ordered

theorem outside {v' : Standing} {hs : List (Scope × Option Registration)} (h : v.Tracks hs)
    (hr : v'.registry = v.registry) (hn : v'.count = v.count) (hsize : v.size ≤ v'.size) :
    v'.Tracks hs :=
  ⟨fun x hx => Nat.lt_of_lt_of_le (h.desks x hx) hsize, hr ▸ h.registry, h.sessions,
    hr ▸ hn ▸ h.issued, hr ▸ h.ordered⟩

end Tracks

end Standing

/-! ### Rosters -/

theorem World.standing_setNow (w : World) (t : Float) : (Clocked.setNow w t).standing = w.standing :=
  rfl

/-- A job that has not finished: its scope, the registration it holds, and what it does next,
which registers in turn from there. -/
structure Runner (α : Type) where
  scope : Scope
  held : Option Registration
  job : Act α
  registers : Act.Registers scope held job

theorem Runner.moves_of_done {α : Type} {t : Runner α} {w w' : World} {r : Except Fault α}
    (hj : t.job w = .done w' r) :
    Relation.ReflTransGen (Move t.scope) (t.held, w.standing) (none, w'.standing) := by
  have h := t.registers.step w
  rw [hj] at h
  exact h

/-- A world with the jobs that have not finished. -/
structure Roster (α : Type) where
  world : World
  runners : List (Runner α)

namespace Roster

variable {α : Type}

def holds (s : Roster α) : List (Scope × Option Registration) :=
  s.runners.map fun t => (t.scope, t.held)

/-- What can happen while jobs run: a job of a scope whose desk exists starts, holding nothing;
the world changes outside the jobs, keeping every registry and the count and removing no desk
(prices move, orders fill, stops are requested); or the scheduler wakes any job at any time and
runs it until it finishes or sleeps again, having made a run of moves. -/
inductive Step : Roster α → Roster α → Prop
  | spawn {s : Roster α} (t : Runner α) :
      t.held = none → t.scope.desk < s.world.desks.size → Step s ⟨s.world, s.runners ++ [t]⟩
  | outside {s : Roster α} {w : World} :
      w.standing.registry = s.world.standing.registry → w.algoCount = s.world.algoCount →
      s.world.desks.size ≤ w.desks.size → Step s ⟨w, s.runners⟩
  | finish {s : Roster α} {pre post : List (Runner α)} {t : Runner α} {now : Float} {w : World}
      {r : Except Fault α} :
      s.runners = pre ++ t :: post → t.job (Clocked.setNow s.world now) = .done w r →
      Step s ⟨w, pre ++ post⟩
  | sleep {s : Roster α} {pre post : List (Runner α)} {t t' : Runner α} {now wake : Float}
      {w : World} :
      s.runners = pre ++ t :: post → t.job (Clocked.setNow s.world now) = .asleep w wake t'.job →
      t'.scope = t.scope →
      Relation.ReflTransGen (Move t.scope) (t.held, s.world.standing) (t'.held, w.standing) →
      Step s ⟨w, pre ++ t' :: post⟩

/-- The runs from a world whose registries are empty, with no job. -/
inductive Reachable : Roster α → Prop
  | start {w : World} : (∀ i, w.standing.registry i = []) → Reachable ⟨w, []⟩
  | step {s s' : Roster α} : Reachable s → Step s s' → Reachable s'

theorem holds_eq {s : Roster α} {pre post : List (Runner α)} {t : Runner α}
    (ht : s.runners = pre ++ t :: post) :
    s.holds =
      pre.map (fun t => (t.scope, t.held)) ++ (t.scope, t.held) :: post.map fun t => (t.scope, t.held) := by
  simp [holds, ht]

theorem Step.tracks {s s' : Roster α} (h : Step s s') (hs : s.world.standing.Tracks s.holds) :
    s'.world.standing.Tracks s'.holds := by
  cases h with
  | spawn t hheld hdesk =>
    have hs' : s.world.standing.Tracks (s.holds ++ []) := by rw [List.append_nil]; exact hs
    have h : s.world.standing.Tracks (s.holds ++ [(t.scope, none)]) := hs'.spawn hdesk
    simpa [holds, hheld] using h
  | outside hr hn hsize => exact hs.outside hr hn hsize
  | finish ht hj =>
    rw [holds_eq ht] at hs
    -- the job was woken in the same standing, at another time
    have hmoves := Runner.moves_of_done hj
    have h := hs.moves hmoves
    simpa [holds] using h.finish
  | sleep ht hj hscope hmoves =>
    rw [holds_eq ht] at hs
    have h := hs.moves hmoves
    rw [holds_eq rfl, hscope]
    exact h

theorem moves_size {c : Scope} {a b : Option Registration × Standing}
    (h : Relation.ReflTransGen (Move c) a b) : b.2.size = a.2.size := by
  induction h with
  | refl => rfl
  | tail _ hm ih =>
    cases hm with
    | register => exact ih
    | release => exact ih

theorem Step.size_le {s s' : Roster α} (h : Step s s') :
    s.world.desks.size ≤ s'.world.desks.size := by
  cases h with
  | spawn => exact le_refl _
  | outside _ _ hsize => exact hsize
  | finish _ hj => exact (moves_size (Runner.moves_of_done hj)).ge
  | sleep _ _ _ hmoves => exact (moves_size hmoves).ge

theorem size_le_of_star {s s' : Roster α} (h : Relation.ReflTransGen Step s s') :
    s.world.desks.size ≤ s'.world.desks.size := by
  induction h with
  | refl => exact le_refl _
  | tail _ hst ih => exact ih.trans hst.size_le

theorem Reachable.star {s s' : Roster α} (h : s.Reachable) (hs : Relation.ReflTransGen Step s s') :
    s'.Reachable := by
  induction hs with
  | refl => exact h
  | tail _ hst ih => exact .step ih hst

theorem Reachable.tracks {s : Roster α} (h : s.Reachable) : s.world.standing.Tracks s.holds := by
  induction h with
  | @start w hempty =>
    refine ⟨by simp [holds], fun i => ?_, by simp [holds], fun i r hr => ?_, fun i => ?_⟩
    · simp [hempty i, holds, holding]
    · simp [hempty i] at hr
    · simp [hempty i]
  | step _ hst ih => exact hst.tracks ih

end Roster

/-! ### The bench -/

def Pool.sleeping {α : Type} (p : Pool World Fault α) : List (Act α) := p.sleepers.map (·.resume)

namespace Roster

variable {α : Type} {s : Roster α} {w : World} {p : Pool World Fault α} {jobs : List (Act α)}

/-- A roster follows a world and a pool, with jobs still to start, when it has that world and
its jobs are the pool's sleepers and those jobs, in some order. -/
structure Follows (s : Roster α) (w : World) (p : Pool World Fault α) (jobs : List (Act α)) :
    Prop where
  world : s.world = w
  jobs : s.runners.map (·.job) ~ p.sleeping ++ jobs

/-- Steps lead from a roster to one that follows a world, a pool and jobs. -/
inductive Reaches (s : Roster α) (w : World) (p : Pool World Fault α) (jobs : List (Act α)) :
    Prop
  | intro (s' : Roster α) : Relation.ReflTransGen Step s s' → s'.Follows w p jobs →
      Reaches s w p jobs

theorem Follows.reaches (h : s.Follows w p jobs) : s.Reaches w p jobs := ⟨s, .refl, h⟩

theorem Reaches.trans {w₂ : World} {p₂ : Pool World Fault α} {jobs₂ : List (Act α)}
    (h : s.Reaches w p jobs) (hk : ∀ s' : Roster α, s'.Follows w p jobs → s'.Reaches w₂ p₂ jobs₂) :
    s.Reaches w₂ p₂ jobs₂ := by
  obtain ⟨s₁, h₁, hf₁⟩ := h
  obtain ⟨s₂, h₂, hf₂⟩ := hk s₁ hf₁
  exact ⟨s₂, h₁.trans h₂, hf₂⟩

theorem Reaches.step {s₁ : Roster α} (h : Step s s₁) (hr : s₁.Reaches w p jobs) :
    s.Reaches w p jobs := by
  obtain ⟨s₂, h₂, hf₂⟩ := hr
  exact ⟨s₂, .head h h₂, hf₂⟩

theorem Follows.record {job : Act α} (h : s.Follows w p (job :: jobs)) (now : Float) (n : Nat) :
    s.Reaches (p.record n (job (Clocked.setNow w now))).1
      (p.record n (job (Clocked.setNow w now))).2 jobs := by
  obtain ⟨hw, hp⟩ := h
  obtain ⟨t, ht, hjob⟩ :=
    List.mem_map.1 (hp.symm.subset (show job ∈ p.sleeping ++ job :: jobs by simp))
  obtain ⟨pre, post, hsplit⟩ := List.append_of_mem ht
  have hrun : t.job (Clocked.setNow s.world now) = job (Clocked.setNow w now) := by rw [hw, hjob]
  -- the other jobs run the sleepers and the jobs after this one
  have hrest : (pre ++ post).map (·.job) ~ p.sleeping ++ jobs := by
    rw [hsplit, ← hjob] at hp
    exact map_remove_middle_perm hp
  cases hj : job (Clocked.setNow w now) with
  | done w₁ r =>
    exact Reaches.step (Step.finish hsplit (hrun.trans hj)) (Follows.reaches ⟨rfl, hrest⟩)
  | asleep w₁ wake k =>
    -- the job sleeps holding what its moves so far leave it holding
    have hreg := t.registers.step (Clocked.setNow s.world now)
    rw [hrun.trans hj] at hreg
    obtain ⟨q, hq, hk⟩ := hreg
    have hstep : Step s ⟨w₁, pre ++ ⟨t.scope, q, k, ⟨hk⟩⟩ :: post⟩ :=
      Step.sleep hsplit (hrun.trans hj) rfl hq
    refine Reaches.step hstep (Follows.reaches ⟨rfl, ?_⟩)
    calc (pre ++ ⟨t.scope, q, k, ⟨hk⟩⟩ :: post).map (·.job)
        _ ~ k :: (pre ++ post).map (·.job) := map_middle_perm _ pre post _
        _ ~ k :: (p.sleeping ++ jobs) := hrest.cons k
        _ ~ (p.record n (.asleep w₁ wake k)).2.sleeping ++ jobs :=
          ((Pool.record_asleep_perm p n w₁ wake k).append_right jobs).symm

theorem Follows.spawn {c : Scope} {job : Act α} (h : s.Follows w p [])
    (hj : Act.Registers c none job) (hc : c.desk < w.desks.size) :
    s.Reaches (p.spawn w job).1 (p.spawn w job).2.1 [] := by
  have hstep : Step s ⟨s.world, s.runners ++ [⟨c, none, job, hj⟩]⟩ :=
    Step.spawn _ rfl (h.world ▸ hc)
  refine Reaches.step hstep ?_
  have hf : (⟨s.world, s.runners ++ [⟨c, none, job, hj⟩]⟩ : Roster α).Follows w
      { p with outcomes := p.outcomes.push none } [job] := by
    refine ⟨h.world, ?_⟩
    have hjobs := h.jobs
    rw [List.append_nil] at hjobs
    rw [List.map_append]
    exact hjobs.append_right [job]
  exact hf.record (Clocked.now w) p.outcomes.size

theorem Follows.wakeNext {next : World × Pool World Fault α} (h : s.Follows w p [])
    (hn : p.wakeNext w = some next) : s.Reaches next.1 next.2 [] := by
  obtain ⟨x, rest, now, hs, rfl⟩ := Pool.wakeNext_eq_some hn
  have hjobs := h.jobs
  simp only [Pool.sleeping, hs, List.append_nil] at hjobs
  have hf : s.Follows w { p with sleepers := rest, wakes := p.wakes + 1 } [x.resume] :=
    ⟨h.world, hjobs.trans (List.perm_append_singleton _ _).symm⟩
  exact hf.record now x.job

theorem Follows.driveWhile (pending : Pool World Fault α → Bool) (budget : Nat)
    (h : s.Follows w p []) :
    s.Reaches (Pool.driveWhile pending budget w p).1 (Pool.driveWhile pending budget w p).2 [] :=
  Pool.driveWhile_induct (P := fun w p => s.Reaches w p [])
    (fun _ _ _ hr hn => hr.trans fun _ hs => hs.wakeNext hn) pending budget h.reaches

theorem Follows.outside (h : s.Follows w p []) {w' : World} (hv : w'.standing = w.standing) :
    s.Reaches w' p [] := by
  have hstep : Step s ⟨w', s.runners⟩ := by
    refine Step.outside ?_ ?_ ?_
    · rw [hv, h.world]
    · have := congrArg Standing.count hv
      rw [h.world]
      exact this
    · have := congrArg Standing.size hv
      rw [h.world]
      exact this.ge
  exact Reaches.step hstep (Follows.reaches ⟨rfl, h.jobs⟩)

theorem Follows.advanceTo (target : Float) (budget : Nat) (h : s.Follows w p []) :
    s.Reaches (Pool.advanceTo target budget w p).1 (Pool.advanceTo target budget w p).2 [] := by
  induction budget generalizing s w p with
  | zero => exact h.outside (World.standing_setNow w target)
  | succ budget ih =>
    unfold Pool.advanceTo
    split
    · split
      · split
        · rename_i w₁ p₁ hn
          exact (h.wakeNext hn).trans fun _ hs => ih hs
        · exact h.outside (World.standing_setNow w target)
      · exact h.outside (World.standing_setNow w target)
    · exact h.outside (World.standing_setNow w target)

end Roster

namespace Bench

theorem withMarket_standing (b : Bench) (f : Paper.Market → Paper.Market) :
    (b.withMarket f).world.standing = b.world.standing :=
  World.standing_modify fun _ => ⟨rfl, rfl⟩

theorem runSequence_registers (c : Scope) (actions : String) :
    Act.Registers c none (Answer.outcomes <$> runSequence c actions) := by
  unfold runSequence
  refine (Act.Registers.mapM (fun a => ?_) _).map _
  exact (executeCommand_registers c a.name a.params).attempt.bind fun _ => .pure _

variable {s : Roster Answer} {b : Bench}

theorem Follows.start {c : Scope} {job : Act Answer} (h : s.Follows b.world b.pool [])
    (hj : Act.Registers c none job) (hc : c.desk < b.world.desks.size) :
    s.Reaches (b.start job).1.world (b.start job).1.pool [] :=
  Roster.Follows.spawn h hj hc

theorem Follows.complete (c : Scope) {job : Act Answer} (h : s.Follows b.world b.pool [])
    (hj : Act.Registers c none job) (hc : c.desk < b.world.desks.size) :
    s.Reaches (b.complete job).1.world (b.complete job).1.pool [] :=
  (Follows.start h hj hc).trans fun _ hs => hs.driveWhile _ _

theorem Follows.perform (h : s.Follows b.world b.pool []) (h0 : 0 < b.world.desks.size)
    (i : Instruction) : s.Reaches (b.perform i).1.world (b.perform i).1.pool [] := by
  cases i with
  | run symbol session actions =>
    exact Follows.complete _ h (runSequence_registers ⟨0, symbol, session⟩ actions) h0
  | spawn symbol session actions =>
    exact Follows.start h (runSequence_registers ⟨0, symbol, session⟩ actions) h0
  | join task =>
    cases task with
    | none => exact h.driveWhile _ _
    | some k =>
      simp only [Bench.perform]
      split
      · exact h.driveWhile _ _
      · exact h.reaches
  | advance seconds => exact h.advanceTo _ _
  | setPrice symbol bid ask => exact h.outside (withMarket_standing _ _)
  | fill id executed =>
    simp only [Bench.perform]
    split
    · exact h.outside (withMarket_standing _ _)
    · exact h.reaches
  | close => exact h.outside (withMarket_standing _ _)
  | cancelAlgos which tag session =>
    exact h.outside (World.standing_modify fun d =>
      ⟨rfl, AlgoBook.registrations_cancelMatching d.algos which tag session⟩)
  | ticker symbol session =>
    exact Follows.complete ⟨0, symbol, session⟩ h
      (.of_stands (Fixes.map _ (ticker_reads _ _ _).stands)) h0
  | balances symbol =>
    exact Follows.complete ⟨0, symbol, ""⟩ h
      (.of_stands (Fixes.map _ (accountBalances_reads _ _).stands)) h0
  | price side offset session symbol =>
    exact Follows.complete ⟨0, symbol, session⟩ h
      (.of_stands (Fixes.map _ (absolutePrice_reads _ _ _ _ _).stands)) h0
  | size symbol side price amount =>
    exact Follows.complete ⟨0, symbol, ""⟩ h
      (.of_stands (Fixes.map _ (orderSizeFor_reads _ _ _ _ _).stands)) h0
  | position target side amount symbol =>
    exact Follows.complete ⟨0, symbol, ""⟩ h
      (.of_stands (Fixes.map _ (positionToAmount_reads _ _ _ _ _).stands)) h0
  | scaledSize symbol side amount count start stop easing =>
    exact Follows.complete ⟨0, symbol, ""⟩ h
      (.of_stands (Fixes.map _ (ladderTotal_reads _ _ _ _ _ _ _ _).stands)) h0
  | positions =>
    exact Follows.complete ⟨0, "", ""⟩ h (.of_stands (Fixes.map _ (positions_reads _).stands)) h0

end Bench

/-- The benches that runs reach from one whose registries are empty, with a desk and nothing
sleeping: any steps, in any order. -/
inductive Bench.Reachable : Bench → Prop
  | start {b : Bench} : (∀ i, b.world.standing.registry i = []) → 0 < b.world.desks.size →
      b.pool.sleepers = [] → Bench.Reachable b
  | perform {b : Bench} (i : Instruction) : Bench.Reachable b → Bench.Reachable (b.perform i).1

theorem Bench.Reachable.follows {b : Bench} (h : b.Reachable) :
    ∃ s : Roster Answer, s.Reachable ∧ s.Follows b.world b.pool [] ∧ 0 < b.world.desks.size := by
  induction h with
  | @start b hempty h0 hsleep =>
    refine ⟨⟨b.world, []⟩, .start hempty, ⟨rfl, ?_⟩, h0⟩
    rw [Pool.sleeping, hsleep]
    rfl
  | perform i _ ih =>
    obtain ⟨s, hs, hf, h0⟩ := ih
    obtain ⟨s', hst, hf'⟩ := Bench.Follows.perform hf h0 i
    have hsize := Roster.size_le_of_star hst
    rw [hf.world, hf'.world] at hsize
    exact ⟨s', hs.star hst, hf', Nat.lt_of_lt_of_le h0 hsize⟩

/-- The registry of algorithmic orders is right whenever the bench's jobs are parked. Each
time-weighted, iceberg and ping-pong order keeps the standing while it checks its parameters,
registers at most once, and releases its registration however it ends. And at every point of
every run of the bench, and wherever the scheduler goes on from there, the registry of every desk
lists exactly the registrations the unfinished jobs hold, each under its job's session, in the
order their ids were issued. -/
theorem bench_registry_lists_running_algos :
    (∀ c p, Act.RegistersOnce c (twapOrder c p)) ∧
      (∀ fuel c p, Act.RegistersOnce c (icebergOrder fuel c p)) ∧
      (∀ fuel c p, Act.RegistersOnce c (pingPongOrder fuel c p)) ∧
      ∀ b : Bench, b.Reachable → ∃ s : Roster Answer, s.world = b.world ∧
        s.runners.map (·.job) ~ b.pool.sleeping ∧
        ∀ s', Relation.ReflTransGen Roster.Step s s' → s'.world.standing.Tracks s'.holds := by
  refine ⟨twapOrder_registersOnce, icebergOrder_registersOnce, pingPongOrder_registersOnce,
    fun b hb => ?_⟩
  obtain ⟨s, hs, hf, -⟩ := hb.follows
  refine ⟨s, hf.world, by simpa using hf.jobs, fun s' hst => ?_⟩
  exact (hs.star hst).tracks

theorem one_desk_bench_lists_running_algos :
    Bench.Reachable { world := { desks := #[default] } } ∧
      ∃ s : Roster Answer, s.world = { desks := #[default] } ∧ s.runners.map (·.job) ~ [] ∧
        ∀ s', Relation.ReflTransGen Roster.Step s s' → s'.world.standing.Tracks s'.holds := by
  have hempty : ∀ i, (({ desks := #[default] } : World)).standing.registry i = [] := by
    intro i
    cases i <;> rfl
  have h : Bench.Reachable { world := { desks := #[default] } } := .start hempty (by decide) rfl
  exact ⟨h, bench_registry_lists_running_algos.2.2.2 _ h⟩

end TradeDesk
