import TradeDesk.Proofs.Registering

/-!
Runs of the registry of algorithmic orders over fresh ids: cancellation sticks, cancels count what
they newly flag, and the registry holds the running algorithms in order (`AlgoBook.run_registry`).
-/

namespace TradeDesk

namespace AlgoBook

/-! ### Operations and runs -/

/-- An operation on the registry. -/
inductive Op where
  | start (id : String) (side : Side) (session tag : String)
  | isCancelled (id : String)
  | finish (id : String)
  | cancelMatching (which tag session : String)
deriving DecidableEq

/-- What an operation answers: the registered algorithm, a flag, nothing, or a count. -/
inductive Answer where
  | started (a : Algo)
  | flag (cancelled : Bool)
  | finished
  | count (n : Nat)

namespace Op

def ids : Op → List String
  | .start id _ _ _ | .isCancelled id | .finish id => [id]
  | .cancelMatching _ _ _ => []

def registration? : Op → Option Registration
  | .start id side session tag => some ⟨id, side, session, tag⟩
  | _ => none

def ended? : Op → Option String
  | .finish id => some id
  | _ => none

theorem mem_ids_of_registration {o : Op} {r : Registration} (h : o.registration? = some r) :
    r.id ∈ o.ids := by
  cases o with
  | start id side session tag => cases h; simp [ids]
  | isCancelled _ => cases h
  | finish _ => cases h
  | cancelMatching _ _ _ => cases h

theorem mem_ids_of_ended {o : Op} {id : String} (h : o.ended? = some id) : id ∈ o.ids := by
  cases o with
  | finish _ => cases h; simp [ids]
  | start _ _ _ _ => cases h
  | isCancelled _ => cases h
  | cancelMatching _ _ _ => cases h

end Op

def Answer.counted : Answer → Nat
  | .count n => n
  | _ => 0

def step (b : AlgoBook) : Op → AlgoBook × Answer
  | .start id side session tag => let r := b.start id side session tag; (r.1, .started r.2)
  | .isCancelled id => (b, .flag (b.isCancelled id))
  | .finish id => (b.finish id, .finished)
  | .cancelMatching which tag session =>
    let r := b.cancelMatching which tag session
    (r.1, .count r.2)

def run (b : AlgoBook) (ops : List Op) : AlgoBook × List Answer :=
  ops.foldl (fun acc o => ((acc.1.step o).1, acc.2 ++ [(acc.1.step o).2])) (b, [])

def replay (ops : List Op) : AlgoBook := (run {} ops).1

def freshAfter (seen : List String) : List Op → Bool
  | [] => true
  | o :: os => (o.registration?.all fun r => r.id ∉ seen) && freshAfter (seen ++ o.ids) os

/-- Every start takes an id that no earlier operation of the run named, as a random id does. -/
def Fresh (ops : List Op) : Prop := freshAfter [] ops = true

instance (ops : List Op) : Decidable (Fresh ops) := inferInstanceAs (Decidable (_ = true))

def live (ops : List Op) : List Registration :=
  (ops.filterMap Op.registration?).filter fun r => r.id ∉ ops.filterMap Op.ended?

def unflagged (b : AlgoBook) : Nat := (b.running.filter fun a => !a.cancelled).length

theorem run_append_singleton (b : AlgoBook) (ops : List Op) (o : Op) :
    b.run (ops ++ [o]) =
      (((b.run ops).1.step o).1, (b.run ops).2 ++ [((b.run ops).1.step o).2]) := by
  simp [run, List.foldl_append]

theorem replay_append_singleton (ops : List Op) (o : Op) :
    replay (ops ++ [o]) = ((replay ops).step o).1 := by
  simp [replay, run_append_singleton]

theorem freshAfter_append (seen : List String) (pre post : List Op) :
    freshAfter seen (pre ++ post) =
      (freshAfter seen pre && freshAfter (seen ++ pre.flatMap Op.ids) post) := by
  induction pre generalizing seen with
  | nil => simp [freshAfter]
  | cons o pre ih => simp [freshAfter, ih, Bool.and_assoc, List.append_assoc]

theorem Fresh.append_singleton {ops : List Op} {o : Op} (h : Fresh (ops ++ [o])) :
    Fresh ops ∧ ∀ r ∈ o.registration?, r.id ∉ ops.flatMap Op.ids := by
  simp only [Fresh, freshAfter_append, freshAfter, Bool.and_true, Bool.and_eq_true,
    List.nil_append] at h
  refine ⟨h.1, fun r hr => ?_⟩
  have h2 := h.2
  rw [Option.all_eq_true] at h2
  simpa using h2 r hr

theorem Fresh.of_append {pre post : List Op} (h : Fresh (pre ++ post)) : Fresh pre := by
  simp only [Fresh, freshAfter_append, Bool.and_eq_true] at h
  exact h.1

/-! ### What one operation does -/

theorem isCancelled_eq (b : AlgoBook) (id : String) :
    b.isCancelled id = (b.running.find? (·.id == id)).all Algo.cancelled := by
  unfold isCancelled
  cases b.running.find? (·.id == id) <;> rfl

theorem isCancelled_of_not_running (b : AlgoBook) {id : String}
    (h : id ∉ b.running.map Algo.id) : b.isCancelled id = true := by
  rw [isCancelled_eq]
  have hnone : b.running.find? (·.id == id) = none := by
    rw [List.find?_eq_none]
    intro a ha he
    exact h (List.mem_map.2 ⟨a, ha, by simpa using he⟩)
  rw [hnone]
  rfl

theorem find?_map_flag (l : List Algo) (f : Algo → Algo) (hf : ∀ a, (f a).id = a.id)
    (id : String) : (l.map f).find? (·.id == id) = (l.find? (·.id == id)).map f := by
  have hp : ((fun x : Algo => x.id == id) ∘ f) = fun x => x.id == id := funext fun a => by simp [hf]
  rw [List.find?_map, hp]

theorem find?_filter_ne (l : List Algo) {id id' : String} (h : id' ≠ id) :
    (l.filter (·.id != id')).find? (·.id == id) = l.find? (·.id == id) := by
  induction l with
  | nil => rfl
  | cons a l ih =>
    by_cases ha : a.id = id
    · simp [ha, Ne.symm h]
    · by_cases ha' : a.id = id' <;> simp [ha, ha', h, ih]

theorem isCancelled_step {b : AlgoBook} {id : String} (h : b.isCancelled id = true) (o : Op)
    (ho : ∀ r ∈ o.registration?, r.id ≠ id) : (b.step o).1.isCancelled id = true := by
  rw [isCancelled_eq] at h ⊢
  cases o with
  | start id' side session tag =>
    have hne : id' ≠ id := ho ⟨id', side, session, tag⟩ rfl
    simp only [step, start, List.find?_append]
    cases hf : b.running.find? (·.id == id) with
    | some a => rw [hf] at h; simpa using h
    | none => simp [hne]
  | isCancelled id' => exact h
  | finish id' =>
    by_cases hid : id' = id
    · -- the ended id is no longer running
      subst hid
      rw [← isCancelled_eq]
      apply isCancelled_of_not_running
      simp [step, finish]
    · simp only [step, finish]
      rw [find?_filter_ne _ hid]
      exact h
  | cancelMatching which tag session =>
    simp only [step, cancelMatching]
    rw [find?_map_flag _ _ (fun a => by split <;> rfl)]
    cases hf : b.running.find? (·.id == id) with
    | none => rfl
    | some a =>
      rw [hf] at h
      simp only [Option.all_some] at h
      simp only [Option.map_some, Option.all_some]
      split <;> simp [h]

theorem registrations_step (b : AlgoBook) (o : Op) :
    (b.step o).1.registrations =
      (b.registrations ++ o.registration?.toList).filter fun r => r.id ∉ o.ended?.toList := by
  cases o with
  | start id side session tag => simp [step, registrations_start, Op.registration?, Op.ended?]
  | isCancelled id => simp [step, Op.registration?, Op.ended?]
  | finish id =>
    simp only [step, registrations_finish, Op.registration?, Op.ended?, Option.toList_some,
      Option.toList_none, List.append_nil, List.mem_singleton]
    congr 1
    funext r
    by_cases hr : r.id = id <;> simp [hr]
  | cancelMatching which tag session =>
    simp [step, registrations_cancelMatching, Op.registration?, Op.ended?]

/-! ### Cancel scopes -/

/-- Whether a cancel scope covers an algorithm: `all` every one, `buy` and `sell` those of that
side, `session` those of the session, `tagged` those of the session with the tag, and any other
scope none. -/
def Covers (which tag session : String) (a : Algo) : Prop :=
  which = "all" ∨ (which = "buy" ∧ a.side = .buy) ∨ (which = "sell" ∧ a.side = .sell) ∨
    (which = "session" ∧ a.session = session) ∨
    (which = "tagged" ∧ a.session = session ∧ a.tag = tag)

instance (which tag session : String) : DecidablePred (Covers which tag session) :=
  fun _ => inferInstanceAs (Decidable (_ ∨ _))

theorem reaches_iff_covers (which tag session : String) (a : Algo) :
    reaches which tag session a = true ↔ Covers which tag session a := by
  unfold reaches Covers
  by_cases hall : which = "all"
  · simp [hall]
  by_cases hbuy : which = "buy"
  · simp [hbuy]
  by_cases hsell : which = "sell"
  · simp [hsell]
  by_cases htag : which = "tagged"
  · simp [htag]
  by_cases hses : which = "session"
  · simp [hses]
  -- no scope word: the match falls through to nothing
  simp [hall, hbuy, hsell, htag, hses]

/-- A cancel flags exactly the running algorithms its scope covers; the others stay as they were. -/
theorem cancelMatching_running (b : AlgoBook) (which tag session : String) :
    (b.cancelMatching which tag session).1.running =
      b.running.map fun a => if Covers which tag session a then { a with cancelled := true } else a := by
  simp only [cancelMatching]
  apply List.map_congr_left
  intro a _
  by_cases hc : Covers which tag session a
  · have hr := (reaches_iff_covers which tag session a).2 hc
    -- an algorithm flagged before is its own flagged copy
    obtain ⟨id, side, session', tag', cancelled⟩ := a
    cases cancelled <;> simp_all
  · have hr : reaches which tag session a = false := by
      simpa using mt (reaches_iff_covers which tag session a).1 hc
    simp [hr, hc]

/-- A cancel counts the running algorithms its scope covers that were not flagged before. -/
theorem cancelMatching_count (b : AlgoBook) (which tag session : String) :
    (b.cancelMatching which tag session).2 =
      (b.running.filter fun a => decide (Covers which tag session a) && !a.cancelled).length := by
  simp only [cancelMatching]
  congr 1
  apply List.filter_congr
  intro a _
  congr 1
  exact Bool.eq_iff_iff.2 ((reaches_iff_covers which tag session a).trans decide_eq_true_iff.symm)

/-! ### Counting flags -/

theorem flag_unflagged (hit : Algo → Bool) (l : List Algo) :
    (l.filter fun a => hit a && !a.cancelled).length +
        ((l.map fun a => if hit a && !a.cancelled then { a with cancelled := true } else a).filter
          fun a => !a.cancelled).length =
      (l.filter fun a => !a.cancelled).length := by
  induction l with
  | nil => rfl
  | cons a l ih =>
    cases hh : hit a <;> cases hc : a.cancelled <;>
      simp only [List.filter_cons, List.map_cons, hh, hc, Bool.not_true, Bool.not_false,
        Bool.and_true, Bool.and_false, if_true, if_false, List.length_cons,
        Bool.false_eq_true] <;> omega

theorem unflagged_finish_le (b : AlgoBook) (id : String) : (b.finish id).unflagged ≤ b.unflagged := by
  simp only [unflagged, finish]
  exact (List.filter_sublist.filter _).length_le

theorem counted_step (b : AlgoBook) (o : Op) :
    (b.step o).2.counted + (b.step o).1.unflagged ≤ b.unflagged + o.registration?.toList.length := by
  cases o with
  | start id side session tag =>
    simp [step, start, unflagged, Answer.counted, Op.registration?, List.filter_append]
  | isCancelled id => simp [step, Answer.counted, Op.registration?]
  | finish id => simpa [step, Answer.counted, Op.registration?] using unflagged_finish_le b id
  | cancelMatching which tag session =>
    simp only [step, cancelMatching, Answer.counted, unflagged, Op.registration?,
      Option.toList_none, List.length_nil, Nat.add_zero]
    exact (flag_unflagged _ b.running).le

/-- Over a run, the counts and the unflagged algorithms left come to at most the unflagged ones
at the start and the starts. -/
theorem counted_run_le (b : AlgoBook) (ops : List Op) :
    ((b.run ops).2.map Answer.counted).sum + (b.run ops).1.unflagged ≤
      b.unflagged + (ops.filterMap Op.registration?).length := by
  induction ops using List.reverseRecOn with
  | nil => simp [run]
  | append_singleton ops o ih =>
    have hs := counted_step (b.run ops).1 o
    rw [run_append_singleton, List.filterMap_append]
    cases hr : o.registration? <;> simp [hr] at hs ⊢ <;> omega

/-! ### The registry over a run -/

/-- What a fresh run has started and not ended is in the registry, in starting order. -/
theorem registrations_replay {ops : List Op} (hf : Fresh ops) :
    (replay ops).registrations = live ops := by
  induction ops using List.reverseRecOn with
  | nil => rfl
  | append_singleton ops o ih =>
    obtain ⟨hf0, hnew⟩ := hf.append_singleton
    rw [replay_append_singleton, registrations_step, ih hf0]
    cases o with
    | start id side session tag =>
      -- the id is fresh, so no earlier end names it
      have hid : id ∉ ops.filterMap Op.ended? := by
        intro hm
        obtain ⟨o', ho', he⟩ := List.mem_filterMap.1 hm
        exact hnew ⟨id, side, session, tag⟩ rfl
          (List.mem_flatMap.2 ⟨o', ho', Op.mem_ids_of_ended he⟩)
      simp only [live, List.filterMap_append, List.filterMap_cons, List.filterMap_nil,
        Op.registration?, Op.ended?, Option.toList_some, Option.toList_none, List.append_nil,
        List.filter_append, List.filter_cons, List.filter_nil, List.not_mem_nil,
        not_false_eq_true, decide_true, if_true, hid, List.filter_true]
    | isCancelled id => simp [live, List.filterMap_append, Op.registration?, Op.ended?]
    | finish id =>
      simp only [live, List.filterMap_append, Op.registration?, Op.ended?, List.filterMap_cons,
        List.filterMap_nil, List.append_nil, Option.toList_none, Option.toList_some,
        List.filter_filter]
      congr 1
      funext r
      simp [and_comm]
    | cancelMatching which tag session =>
      simp [live, List.filterMap_append, Op.registration?, Op.ended?]

/-- Once an id a run has named is cancelled, it stays cancelled for the rest of a fresh run. -/
theorem isCancelled_replay_append {pre mid : List Op} (hf : Fresh (pre ++ mid)) {id : String}
    (hid : id ∈ pre.flatMap Op.ids) (h : (replay pre).isCancelled id = true) :
    (replay (pre ++ mid)).isCancelled id = true := by
  induction mid using List.reverseRecOn with
  | nil => simpa using h
  | append_singleton mid o ih =>
    rw [← List.append_assoc] at hf
    obtain ⟨hf0, hnew⟩ := hf.append_singleton
    rw [← List.append_assoc, replay_append_singleton]
    refine isCancelled_step (ih hf0) o fun r hr he => hnew r hr ?_
    rw [he, List.flatMap_append]
    exact List.mem_append_left _ hid

theorem ids_nodup_of_fresh {ops : List Op} (hf : Fresh ops) :
    ((ops.filterMap Op.registration?).map Registration.id).Nodup := by
  induction ops using List.reverseRecOn with
  | nil => simp
  | append_singleton ops o ih =>
    obtain ⟨hf0, hnew⟩ := hf.append_singleton
    rw [List.filterMap_append, List.map_append, List.nodup_append]
    refine ⟨ih hf0, ?_, ?_⟩
    · cases hr : o.registration? <;> simp [hr]
    · intro x hx y hy hxy
      cases hr : o.registration? with
      | none => simp [hr] at hy
      | some r =>
        simp only [List.filterMap_cons, hr, List.filterMap_nil, List.map_cons, List.map_nil,
          List.mem_singleton] at hy
        subst hy
        apply hnew r hr
        obtain ⟨r', hr', rfl⟩ := List.mem_map.1 hx
        obtain ⟨o', ho', he⟩ := List.mem_filterMap.1 hr'
        rw [← hxy]
        exact List.mem_flatMap.2 ⟨o', ho', Op.mem_ids_of_registration he⟩

theorem replay_running_ids {ops : List Op} (hf : Fresh ops) :
    ((replay ops).running.map Algo.id).Nodup ∧
      ∀ a ∈ (replay ops).running, a.id ∈ ops.flatMap Op.ids := by
  have hreg := registrations_replay hf
  have hids : (replay ops).running.map Algo.id = (live ops).map Registration.id := by
    rw [← hreg]
    simp [registrations, Algo.registration, Function.comp_def]
  refine ⟨?_, fun a ha => ?_⟩
  · rw [hids]
    exact (ids_nodup_of_fresh hf).sublist (List.Sublist.map _ List.filter_sublist)
  · have hm : a.id ∈ (live ops).map Registration.id := hids ▸ List.mem_map_of_mem ha
    obtain ⟨r, hr, he⟩ := List.mem_map.1 hm
    obtain ⟨o, ho, hro⟩ := List.mem_filterMap.1 (List.mem_of_mem_filter hr)
    exact List.mem_flatMap.2 ⟨o, ho, he ▸ Op.mem_ids_of_registration hro⟩

theorem find?_of_nodup {l : List Algo} (hn : (l.map Algo.id).Nodup) {a : Algo} (ha : a ∈ l) :
    l.find? (·.id == a.id) = some a := by
  induction l with
  | nil => simp at ha
  | cons x l ih =>
    simp only [List.map_cons, List.nodup_cons, List.mem_map] at hn
    rcases List.mem_cons.1 ha with rfl | ha
    · simp
    · have hne : x.id ≠ a.id := fun he => hn.1 ⟨a, ha, he.symm⟩
      simp [hne, ih hn.2 ha]

/-! ### Every run -/

/-- What every fresh run of the registry keeps. -/
structure RunFacts (ops : List Op) : Prop where
  /-- An id the run has named stays cancelled once it is. -/
  cancelled_stays : ∀ pre mid post, ops = pre ++ mid ++ post → ∀ id ∈ pre.flatMap Op.ids,
    (replay pre).isCancelled id = true → (replay (pre ++ mid)).isCancelled id = true
  /-- A flag is never cleared while its algorithm runs. -/
  flags_kept : ∀ pre mid post, ops = pre ++ mid ++ post → ∀ a ∈ (replay pre).running,
    a.cancelled = true → ∀ a' ∈ (replay (pre ++ mid)).running, a'.id = a.id → a'.cancelled = true
  /-- An ended or unknown id counts as cancelled. -/
  absent_cancelled : ∀ pre post, ops = pre ++ post → ∀ id, id ∉ (replay pre).running.map Algo.id →
    (replay pre).isCancelled id = true
  /-- A cancel flags exactly the running algorithms its scope covers and counts those it newly
  flags. -/
  cancel_flags : ∀ pre which tag session post,
    ops = pre ++ .cancelMatching which tag session :: post →
      ((replay pre).step (.cancelMatching which tag session)).1.running =
          (replay pre).running.map (fun a =>
            if Covers which tag session a then { a with cancelled := true } else a) ∧
        ((replay pre).step (.cancelMatching which tag session)).2 =
          .count ((replay pre).running.filter fun a =>
            decide (Covers which tag session a) && !a.cancelled).length
  /-- The counts of the run add up to at most its starts. -/
  counted_le : ((run {} ops).2.map Answer.counted).sum ≤ (ops.filterMap Op.registration?).length
  /-- At every point the registry holds the started algorithms not yet ended, in starting
  order, each with its side, session and tag. -/
  running : ∀ pre post, ops = pre ++ post → (replay pre).registrations = live pre

/-- Every run of the registry in which starts take fresh ids keeps its flags, counts each flag
once and holds exactly what has started and not ended. -/
theorem run_registry (ops : List Op) (hf : Fresh ops) : RunFacts ops where
  cancelled_stays := by
    rintro pre mid post rfl id hid h
    exact isCancelled_replay_append hf.of_append hid h
  flags_kept := by
    rintro pre mid post rfl a ha hc a' ha' he
    have hpre : Fresh pre := (hf.of_append).of_append
    obtain ⟨hn, hnamed⟩ := replay_running_ids hpre
    have hc0 : (replay pre).isCancelled a.id = true := by
      rw [isCancelled_eq, find?_of_nodup hn ha]
      exact hc
    have hc1 := isCancelled_replay_append hf.of_append (hnamed a ha) hc0
    rw [isCancelled_eq, ← he, find?_of_nodup (replay_running_ids hf.of_append).1 ha'] at hc1
    exact hc1
  absent_cancelled := fun pre _ _ id h => isCancelled_of_not_running (replay pre) h
  cancel_flags := fun pre which tag session _ _ =>
    ⟨cancelMatching_running _ which tag session,
      congrArg Answer.count (cancelMatching_count _ which tag session)⟩
  counted_le := by
    have h := counted_run_le {} ops
    have h0 : ({} : AlgoBook).unflagged = 0 := rfl
    omega
  running := by
    rintro pre post rfl
    exact registrations_replay hf.of_append

/-- Two algorithms started, one cancelled by side and asked about, then all cancelled, so only the
second is newly counted, and the first ended. -/
def sampleRun : List Op :=
  [.start "algo-1" .buy "s1" "iceberg", .cancelMatching "buy" "" "s1", .isCancelled "algo-1",
    .start "algo-2" .sell "s2" "twap", .cancelMatching "all" "" "", .finish "algo-1",
    .isCancelled "algo-1"]

theorem sampleRun_registry : Fresh sampleRun ∧ RunFacts sampleRun :=
  ⟨by decide, run_registry sampleRun (by decide)⟩

end AlgoBook

end TradeDesk
