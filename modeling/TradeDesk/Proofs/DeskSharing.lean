import Mathlib
import TradeDesk.Proofs.DeskFrame
import TradeDesk.Proofs.PaperLedger

/-!
Desks are shared and counted under every interleaving of the jobs that hold them: the open desks
serve distinct credentials, and a desk closes exactly when its last user gives it back.
-/

namespace TradeDesk

namespace Assoc

variable {α β : Type} [BEq α] [LawfulBEq α]

theorem mem_of_find? {xs : List (α × β)} {k : α} {v : β} (h : find? xs k = some v) :
    (k, v) ∈ xs := by
  obtain ⟨l₁, l₂, rfl, -⟩ := List.lookup_eq_some_iff.1 h
  simp

theorem find?_of_mem {xs : List (α × β)} (hn : (keys xs).Nodup) {k : α} {v : β}
    (h : (k, v) ∈ xs) : find? xs k = some v := by
  induction xs with
  | nil => cases h
  | cons p xs ih =>
    obtain ⟨k', v'⟩ := p
    simp only [keys, List.map_cons, List.nodup_cons] at hn
    rcases List.mem_cons.1 h with h | h
    · cases h
      simp [find?]
    · have hk : k ≠ k' := fun e => hn.1 (e ▸ List.mem_map.2 ⟨_, h, rfl⟩)
      have hrest : List.lookup k xs = some v := ih hn.2 h
      simp [find?, List.lookup_cons, beq_eq_false_iff_ne.2 hk, hrest]

theorem keys_set_nodup {xs : List (α × β)} (hn : (keys xs).Nodup) (k : α) (v : β) :
    (keys (set xs k v)).Nodup := by
  by_cases h : xs.any (·.1 == k) = true
  · rw [keys_set_of_mem xs k v h]
    exact hn
  · have hk : k ∉ keys xs := by
      intro hk
      obtain ⟨p, hp, rfl⟩ := List.mem_map.1 hk
      exact h (List.any_eq_true.2 ⟨p, hp, by simp⟩)
    simp only [set, h, Bool.false_eq_true, ↓reduceIte, keys, List.map_append, List.map_cons,
      List.map_nil]
    refine List.nodup_append.2 ⟨hn, List.nodup_singleton k, fun a ha b hb => ?_⟩
    rw [List.mem_singleton] at hb
    subst hb
    exact fun e => hk (e ▸ ha)

theorem keys_ofPairs_nodup (xs : List (α × β)) : (keys (ofPairs xs)).Nodup := by
  suffices ∀ acc : List (α × β), (keys acc).Nodup →
      (keys (xs.foldl (fun acc p => set acc p.1 p.2) acc)).Nodup from this [] List.nodup_nil
  induction xs with
  | nil => exact fun _ h => h
  | cons p xs ih => exact fun acc h => ih _ (keys_set_nodup h p.1 p.2)

/-- Two tables with the same entries, compared as a desk compares credentials: as long, and every
entry of the first found in the second. -/
def Agrees (a b : List (α × β)) : Prop :=
  a.length = b.length ∧ ∀ p ∈ a, find? b p.1 = some p.2

theorem Agrees.trans {a b c : List (α × β)} (hab : Agrees a b) (hbc : Agrees b c) :
    Agrees a c :=
  ⟨hab.1.trans hbc.1, fun p hp => hbc.2 p (mem_of_find? (hab.2 p hp))⟩

theorem Agrees.symm {a b : List (α × β)} (ha : (keys a).Nodup) (hb : (keys b).Nodup)
    (h : Agrees a b) : Agrees b a := by
  have hsub : keys a ⊆ keys b := by
    intro k hk
    obtain ⟨p, hp, rfl⟩ := List.mem_map.1 hk
    exact List.mem_map_of_mem (mem_of_find? (h.2 p hp))
  have hperm : (keys a).Perm (keys b) :=
    (ha.subperm hsub).perm_of_length_le (by simp [keys, h.1])
  refine ⟨h.1.symm, fun p hp => ?_⟩
  obtain ⟨q, hq, hk⟩ := List.mem_map.1 (hperm.mem_iff.2 (List.mem_map.2 ⟨p, hp, rfl⟩))
  have hv : q.2 = p.2 := by
    have h1 := h.2 q hq
    rw [hk, find?_of_mem hb hp] at h1
    exact (Option.some.inj h1).symm
  have hqp : q = p := Prod.ext hk hv
  exact find?_of_mem ha (hqp ▸ hq)

end Assoc

theorem Desk.serves_iff (d : Desk) (name : String) (creds : List (String × String)) :
    d.serves name creds = true ↔
      d.name = name ∧ Assoc.Agrees (Assoc.ofPairs creds) d.credentials := by
  simp [Desk.serves, Assoc.Agrees, and_assoc]

theorem Desk.head_of_create {name : String} {creds : List (String × String)}
    {macros : List (String × String)} {o : DeskOptions} {d : Desk}
    (h : Desk.create name creds macros o = .ok (some d)) :
    d.head = ⟨name, Assoc.ofPairs creds, 1, false⟩ := by
  unfold Desk.create at h
  split at h
  · obtain ⟨m, hm, h⟩ := Paper.Market.except_bind_eq_ok h
    obtain ⟨_, -, h⟩ := Paper.Market.except_bind_eq_ok h
    cases h
    simp [Desk.head, Desk.assemble, (Paper.Market.fresh_of_spot hm).closed]
  · obtain ⟨m, hm, h⟩ := Paper.Market.except_bind_eq_ok h
    obtain ⟨_, -, h⟩ := Paper.Market.except_bind_eq_ok h
    cases h
    simp [Desk.head, Desk.assemble, (Paper.Market.fresh_of_contracts hm).closed]
  · cases h

namespace Lifecycle

def reuse (l : Lifecycle) (i : Nat) : Lifecycle :=
  let h := l.heads i
  ⟨l.opened, l.size, Function.update l.heads i { h with refCount := h.refCount + 1 }⟩

def add (l : Lifecycle) (h : DeskHead) : Lifecycle :=
  ⟨l.opened ++ [l.size], l.size + 1, Function.update l.heads l.size h⟩

def release (l : Lifecycle) (i : Nat) : Lifecycle :=
  let h := l.heads i
  if i ∈ l.opened then
    if h.refCount - 1 = 0 then
      ⟨l.opened.filter (· != i), l.size,
        Function.update l.heads i { h with refCount := 0, closed := true }⟩
    else ⟨l.opened, l.size, Function.update l.heads i { h with refCount := h.refCount - 1 }⟩
  else l

/-- The lifecycle agrees with who holds the desks, `held i` users holding desk `i`: the open desks
are distinct desks that exist, serving distinct exchanges and credential tables; each counts
its users, and is open exactly while it has some; a desk's market is closed exactly when it is
not open. -/
structure Sound (l : Lifecycle) (held : Nat → Nat) : Prop where
  nodup : l.opened.Nodup
  lt_size : ∀ i ∈ l.opened, i < l.size
  tables : ∀ i ∈ l.opened, (Assoc.keys (l.heads i).credentials).Nodup
  distinct : ∀ i ∈ l.opened, ∀ j ∈ l.opened, (l.heads i).name = (l.heads j).name →
    Assoc.Agrees (l.heads i).credentials (l.heads j).credentials → i = j
  users : ∀ i ∈ l.opened, (l.heads i).refCount = held i
  mem_iff : ∀ i, i ∈ l.opened ↔ 0 < held i
  closed_iff : ∀ i < l.size, (l.heads i).closed = true ↔ i ∉ l.opened

variable {l : Lifecycle} {held : Nat → Nat}

theorem Sound.recount (h : l.Sound held) {i n : Nat} (hi : i ∈ l.opened) (hn : 0 < n) :
    (⟨l.opened, l.size, Function.update l.heads i { l.heads i with refCount := n }⟩ :
      Lifecycle).Sound (Function.update held i n) := by
  have hsame : ∀ j, j ≠ i →
      Function.update l.heads i { l.heads i with refCount := n } j = l.heads j :=
    fun _ hj => Function.update_of_ne hj _ _
  -- every desk keeps its name, its credentials and whether its market is closed
  have hkeep : ∀ j,
      (Function.update l.heads i { l.heads i with refCount := n } j).name = (l.heads j).name ∧
      (Function.update l.heads i { l.heads i with refCount := n } j).credentials =
        (l.heads j).credentials ∧
      (Function.update l.heads i { l.heads i with refCount := n } j).closed = (l.heads j).closed := by
    intro j
    by_cases hj : j = i
    · subst hj
      simp
    · simp [hsame j hj]
  constructor
  all_goals dsimp only
  · exact h.nodup
  · exact h.lt_size
  · intro j hj
    rw [(hkeep j).2.1]
    exact h.tables j hj
  · intro j hj k hk hnm ha
    rw [(hkeep j).1, (hkeep k).1] at hnm
    rw [(hkeep j).2.1, (hkeep k).2.1] at ha
    exact h.distinct j hj k hk hnm ha
  · intro j hj
    by_cases hji : j = i
    · subst hji
      simp
    · rw [hsame j hji, Function.update_of_ne hji, h.users j hj]
  · intro j
    by_cases hji : j = i
    · subst hji
      simp [hi, hn]
    · rw [Function.update_of_ne hji]
      exact h.mem_iff j
  · intro j hj
    rw [(hkeep j).2.2]
    exact h.closed_iff j hj

theorem Sound.reuse (h : l.Sound held) {i : Nat} (hi : i ∈ l.opened) :
    (l.reuse i).Sound (Function.update held i (held i + 1)) := by
  have hr : (l.heads i).refCount = held i := h.users i hi
  unfold Lifecycle.reuse
  dsimp only
  rw [hr]
  exact h.recount hi (Nat.succ_pos _)

@[simp] theorem add_opened (hd : DeskHead) : (l.add hd).opened = l.opened ++ [l.size] := rfl

@[simp] theorem add_size (hd : DeskHead) : (l.add hd).size = l.size + 1 := rfl

theorem Sound.closed_iff_held (h : l.Sound held) {i : Nat} (hi : i < l.size) :
    (l.heads i).closed = true ↔ held i = 0 := by
  rw [h.closed_iff i hi, h.mem_iff i]
  omega

theorem Sound.held_size (h : l.Sound held) : held l.size = 0 := by
  have : l.size ∉ l.opened := fun hs => Nat.lt_irrefl _ (h.lt_size _ hs)
  simpa [h.mem_iff] using this

theorem Sound.add (h : l.Sound held) {hd : DeskHead} (hk : (Assoc.keys hd.credentials).Nodup)
    (hr : hd.refCount = 1) (hc : hd.closed = false)
    (hnew : ∀ j ∈ l.opened, (l.heads j).name = hd.name →
      ¬ Assoc.Agrees hd.credentials (l.heads j).credentials) :
    (l.add hd).Sound (Function.update held l.size (held l.size + 1)) := by
  have hout : l.size ∉ l.opened := fun hs => Nat.lt_irrefl _ (h.lt_size _ hs)
  have hne : ∀ j ∈ l.opened, j ≠ l.size := fun j hj e => hout (e ▸ hj)
  have hold : ∀ j ≠ l.size, (l.add hd).heads j = l.heads j :=
    fun _ hj => Function.update_of_ne hj _ _
  have hnew_at : (l.add hd).heads l.size = hd := Function.update_self _ _ _
  constructor
  all_goals simp only [add_opened, add_size, List.mem_append, List.mem_singleton]
  · exact List.nodup_append.2 ⟨h.nodup, List.nodup_singleton _,
      fun a ha b hb => (List.mem_singleton.1 hb) ▸ hne a ha⟩
  · rintro j (hj | rfl)
    · exact Nat.lt_succ_of_lt (h.lt_size j hj)
    · exact Nat.lt_succ_self _
  · rintro j (hj | rfl)
    · exact (hold j (hne j hj)) ▸ h.tables j hj
    · rw [hnew_at]
      exact hk
  · rintro j (hj | rfl) k (hk' | rfl) hn ha
    · rw [hold j (hne j hj), hold k (hne k hk')] at hn ha
      exact h.distinct j hj k hk' hn ha
    · rw [hold j (hne j hj), hnew_at] at hn ha
      exact absurd (ha.symm (h.tables j hj) hk) (hnew j hj hn)
    · rw [hold k (hne k hk'), hnew_at] at hn ha
      exact absurd ha (hnew k hk' hn.symm)
    · rfl
  · rintro j (hj | rfl)
    · rw [hold j (hne j hj), Function.update_of_ne (hne j hj), h.users j hj]
    · rw [hnew_at, Function.update_self, h.held_size, hr]
  · intro j
    by_cases hj : j = l.size
    · subst hj
      simp [hout]
    · simp [hj, h.mem_iff j]
  · intro j hj
    by_cases hjs : j = l.size
    · subst hjs
      simp [hnew_at, hc, hout]
    · have hlt : j < l.size := by omega
      rw [hold j hjs]
      simp [hjs, h.closed_iff j hlt]

theorem release_of_not_mem {i : Nat} (hi : i ∉ l.opened) : l.release i = l := by
  simp [Lifecycle.release, hi]

theorem Sound.release (h : l.Sound held) {i : Nat} (hi : 0 < held i) :
    (l.release i).Sound (Function.update held i (held i - 1)) := by
  have hmem : i ∈ l.opened := (h.mem_iff i).2 hi
  have hr : (l.heads i).refCount = held i := h.users i hmem
  have hsame : ∀ (hd : DeskHead) j, j ≠ i → Function.update l.heads i hd j = l.heads j :=
    fun _ _ hj => Function.update_of_ne hj _ _
  by_cases hlast : held i = 1
  · -- the last user: the desk leaves the open ones and its market closes
    have heq : l.release i = ⟨l.opened.filter (· != i), l.size,
        Function.update l.heads i { l.heads i with refCount := 0, closed := true }⟩ := by
      simp [Lifecycle.release, hmem, hr, hlast]
    have hmem' : ∀ j, j ∈ l.opened.filter (· != i) ↔ j ∈ l.opened ∧ j ≠ i := by
      simp [List.mem_filter]
    rw [heq]
    constructor
    all_goals dsimp only
    · exact h.nodup.filter _
    · exact fun j hj => h.lt_size j ((hmem' j).1 hj).1
    · intro j hj
      obtain ⟨hj, hji⟩ := (hmem' j).1 hj
      exact (hsame _ j hji).symm ▸ h.tables j hj
    · intro j hj k hk hn ha
      obtain ⟨hj, hji⟩ := (hmem' j).1 hj
      obtain ⟨hk, hki⟩ := (hmem' k).1 hk
      rw [hsame _ j hji, hsame _ k hki] at hn ha
      exact h.distinct j hj k hk hn ha
    · intro j hj
      obtain ⟨hj, hji⟩ := (hmem' j).1 hj
      rw [hsame _ j hji, Function.update_of_ne hji, h.users j hj]
    · intro j
      by_cases hji : j = i
      · subst hji
        simp [hmem', hlast]
      · simp [hmem', hji, h.mem_iff j]
    · intro j hj
      by_cases hji : j = i
      · subst hji
        simp [hmem']
      · rw [hsame _ j hji, h.closed_iff j hj]
        simp [hmem', hji]
  · -- other users remain: only the count goes down
    have hleft : held i - 1 ≠ 0 := by omega
    have heq : l.release i = ⟨l.opened, l.size,
        Function.update l.heads i { l.heads i with refCount := held i - 1 }⟩ := by
      simp [Lifecycle.release, hmem, hr, hleft]
    rw [heq]
    exact h.recount hmem (Nat.pos_of_ne_zero hleft)

/-- What one step may do to the lifecycle and to who holds the desks: nothing, one more user of an
open desk, a new desk with one user when no open desk has its exchange and credentials, or one
user fewer of a held desk. -/
inductive Change (l : Lifecycle) (held : Nat → Nat) : Lifecycle → (Nat → Nat) → Prop
  | stay : Change l held l held
  | reuse {i : Nat} : i ∈ l.opened →
      Change l held (l.reuse i) (Function.update held i (held i + 1))
  | add {hd : DeskHead} : (Assoc.keys hd.credentials).Nodup → hd.refCount = 1 → hd.closed = false →
      (∀ j ∈ l.opened, (l.heads j).name = hd.name →
        ¬ Assoc.Agrees hd.credentials (l.heads j).credentials) →
      Change l held (l.add hd) (Function.update held l.size (held l.size + 1))
  | release {i : Nat} : 0 < held i →
      Change l held (l.release i) (Function.update held i (held i - 1))

variable {l' : Lifecycle} {held' : Nat → Nat}

theorem Change.sound (hc : Change l held l' held') (h : l.Sound held) : l'.Sound held' := by
  cases hc with
  | stay => exact h
  | reuse hi => exact h.reuse hi
  | add hk hr hcl hnew => exact h.add hk hr hcl hnew
  | release hi => exact h.release hi

theorem Change.size_le (hc : Change l held l' held') : l.size ≤ l'.size := by
  cases hc with
  | add => exact Nat.le_succ _
  | release =>
    unfold Lifecycle.release
    dsimp only
    split_ifs <;> exact Nat.le_refl _
  | _ => exact Nat.le_refl _

theorem Change.closed_of_closed (hc : Change l held l' held') {i : Nat} (hi : i < l.size)
    (h : (l.heads i).closed = true) : (l'.heads i).closed = true := by
  cases hc with
  | stay => exact h
  | @reuse j _ =>
    by_cases hij : i = j
    · subst hij
      simpa [Lifecycle.reuse] using h
    · simpa [Lifecycle.reuse, hij] using h
  | add => simpa [Lifecycle.add, Nat.ne_of_lt hi] using h
  | @release j _ =>
    unfold Lifecycle.release
    dsimp only
    by_cases hij : i = j
    · subst hij
      split_ifs <;> simp [h]
    · split_ifs <;> simp [hij, h]

end Lifecycle

namespace Job

variable {σ ε α β : Type}

theorem bind_apply (x : Job σ ε α) (k : α → Job σ ε β) (s : σ) : (x >>= k) s = (x s).bind k :=
  rfl

theorem get_apply (s : σ) : (get : Job σ ε σ) s = .done s (.ok s) := rfl

theorem modify_apply (f : σ → σ) (s : σ) : (modify f : Job σ ε Unit) s = .done (f s) (.ok ()) :=
  rfl

theorem done_bind (s : σ) (a : α) (k : α → Job σ ε β) :
    (Step.done s (.ok a) : Step σ ε α).bind k = k a s := rfl

end Job

theorem World.lifecycle_modify_of_lt {w : World} {i : Nat} {f : Desk → Desk}
    (hi : i < w.desks.size) :
    { w with desks := w.desks.modify i f }.lifecycle =
      ⟨w.opened, w.desks.size, Function.update w.lifecycle.heads i (f (w.desks.getD i default)).head⟩ := by
  simp only [World.lifecycle, Array.size_modify, Lifecycle.mk.injEq, true_and]
  exact World.desk_modify_of_lt Desk.head f hi

theorem Act.giveBack_done (w : World) (i : Nat) : ∃ w', Act.giveBack i w = .done w' (.ok ()) := by
  simp only [Act.giveBack, Act.modifyDesk, Act.close, Job.bind_apply, Job.get_apply, Job.done_bind]
  split_ifs <;> exact ⟨_, rfl⟩

theorem Act.giveBack_of_not_mem {w : World} {i : Nat} (hi : i ∉ w.opened) :
    Act.giveBack i w = .done w (.ok ()) := by
  have hc : (!w.opened.contains i) = true := by simp [hi]
  simp only [Act.giveBack, Job.bind_apply, Job.get_apply, Job.done_bind, hc, ↓reduceIte]
  rfl

theorem Act.giveBack_lifecycle (w : World) (i : Nat) (hb : i ∈ w.opened → i < w.desks.size) :
    ∃ w', Act.giveBack i w = .done w' (.ok ()) ∧ w'.lifecycle = w.lifecycle.release i := by
  simp only [Act.giveBack, Act.modifyDesk, Act.close, Job.bind_apply, Job.get_apply, Job.done_bind]
  by_cases hi : i ∈ w.opened
  · have hc : (!w.opened.contains i) = false := by simp [hi]
    have hlt := hb hi
    simp only [hc, Bool.false_eq_true, ↓reduceIte, Job.bind_apply, Job.modify_apply,
      Job.done_bind]
    have hsize : ∀ j, j ≠ i → ∀ f g : Desk → Desk,
        (((w.desks.modify i f).modify i g).getD j default).head = (w.desks.getD j default).head := by
      intro j hj f g
      simp [Array.getD_eq_getD_getElem?, Array.getElem?_modify, Ne.symm hj]
    by_cases hl : (w.desks.getD i default).refCount - 1 = 0
    · -- the last user: the desk leaves the open ones and is closed
      simp only [hl, beq_self_eq_true, ↓reduceIte, Job.bind_apply, Job.modify_apply, Job.done_bind]
      refine ⟨_, rfl, ?_⟩
      simp only [World.lifecycle, Lifecycle.release, hi, ↓reduceIte, Desk.head, hl,
        Array.size_modify, Lifecycle.mk.injEq, true_and]
      funext j
      by_cases hj : j = i
      · subst hj
        simp [Array.getD_eq_getD_getElem?, hlt, Array.getElem_modify_self]
      · rw [Function.update_of_ne hj]
        exact hsize j hj _ _
    · have hl' : ((w.desks.getD i default).refCount - 1 == 0) = false := by simpa using hl
      simp only [hl', Bool.false_eq_true, ↓reduceIte]
      refine ⟨_, rfl, ?_⟩
      simp only [World.lifecycle, Lifecycle.release, hi, ↓reduceIte, Desk.head, hl,
        Array.size_modify, Lifecycle.mk.injEq, true_and]
      funext j
      by_cases hj : j = i
      · subst hj
        simp [Array.getD_eq_getD_getElem?, hlt, Array.getElem_modify_self]
      · rw [Function.update_of_ne hj]
        simp [Array.getD_eq_getD_getElem?, Array.getElem?_modify, Ne.symm hj]
  · exact ⟨w, Act.giveBack_of_not_mem hi, (Lifecycle.release_of_not_mem hi).symm⟩

theorem Inbox.openDesk_lifecycle {ib ib' : Inbox} {name : String}
    {creds : List (String × String)} {i : Nat} (h : ib.openDesk name creds = .ok (ib', some i))
    (hb : ∀ j ∈ ib.world.opened, j < ib.world.desks.size) :
    (i ∈ ib.world.opened ∧ (ib.world.desks.getD i default).serves name creds = true ∧
        ib'.world.lifecycle = ib.world.lifecycle.reuse i) ∨
      ((∀ j ∈ ib.world.opened, (ib.world.desks.getD j default).serves name creds = false) ∧
        i = ib.world.desks.size ∧
        ib'.world.lifecycle = ib.world.lifecycle.add ⟨name, Assoc.ofPairs creds, 1, false⟩) := by
  unfold Inbox.openDesk at h
  dsimp only at h
  split at h
  · rename_i j hj
    cases h
    have hmem := List.mem_of_find?_eq_some hj
    have hserves := List.find?_some hj
    refine .inl ⟨hmem, hserves, ?_⟩
    rw [World.lifecycle_modify_of_lt (hb _ hmem)]
    rfl
  · rename_i hnone
    obtain ⟨r, hr, h⟩ := Paper.Market.except_bind_eq_ok h
    split at h
    · cases h
    · rename_i d
      cases h
      have hhead := Desk.head_of_create hr
      refine .inr ⟨fun j hj => ?_, rfl, ?_⟩
      · simpa using List.find?_eq_none.1 hnone j hj
      · simp only [World.lifecycle, Lifecycle.add, Array.size_push, Lifecycle.mk.injEq, true_and]
        funext j
        by_cases hj : j = ib.world.desks.size
        · subst hj
          simp [Array.getD_eq_getD_getElem?, ← hhead]
        · rw [Function.update_of_ne hj]
          simp [Array.getD_eq_getD_getElem?, Array.getElem?_push, hj]

theorem World.lifecycle_setNow (w : World) (t : Float) :
    (Clocked.setNow w t).lifecycle = w.lifecycle := rfl

theorem Inbox.openDesk_change {ib ib' : Inbox} {name : String}
    {creds : List (String × String)} {i : Nat} (held : Nat → Nat)
    (hb : ∀ j ∈ ib.world.opened, j < ib.world.desks.size)
    (ho : ib.openDesk name creds = .ok (ib', some i)) :
    ib.world.lifecycle.Change held ib'.world.lifecycle (Function.update held i (held i + 1)) := by
  rcases Inbox.openDesk_lifecycle ho hb with ⟨hi, -, hl⟩ | ⟨hnone, rfl, hl⟩
  · rw [hl]
    exact .reuse hi
  · rw [hl]
    refine .add (Assoc.keys_ofPairs_nodup _) rfl rfl fun j hj hn ha => ?_
    have hfalse := hnone j hj
    rw [← Bool.not_eq_true, Desk.serves_iff] at hfalse
    exact hfalse ⟨hn, ha⟩

theorem Act.giveBack_change {w w' : World} {i : Nat} {held : Nat → Nat}
    (hb : i ∈ w.opened → i < w.desks.size) (hi : 0 < held i)
    (hg : Act.giveBack i w = .done w' (.ok ())) :
    w.lifecycle.Change held w'.lifecycle (Function.update held i (held i - 1)) := by
  obtain ⟨w2, hg2, hl⟩ := Act.giveBack_lifecycle w i hb
  rw [hg] at hg2
  cases hg2
  rw [hl]
  exact .release hi

/-- What a job of the inbox is, given the desk it holds: holding none, it leaves the lifecycle
alone; holding desk `i`, it runs a body that does so and then, whatever its outcome, sleeps and
gives `i` back, or it has slept and is about to give `i` back. -/
inductive Act.Holds : Option Nat → Act Errand → Prop
  | keeps {job : Act Errand} : Act.Keeps job → Act.Holds none job
  | running {i : Nat} {body : Act Errand} (delay : Float) : Act.Keeps body →
      Act.Holds (some i) (Job.andFinally body do
        Act.sleep delay
        Act.giveBack i)
  | releasing {i : Nat} (r : Except Fault Errand) :
      Act.Holds (some i) fun w => (Act.giveBack i w).bind fun _ w' => .done w' r

theorem Act.runBlock_holds (delay : Float) (i : Nat) (symbol actions : String) :
    Act.Holds (some i) (Act.runBlock delay i symbol actions) :=
  .running delay (Keeps.map _ (Keeps.ite (Keeps.pure _)
    (Keeps.bind newSession_keeps fun _ => Act.keeps_runSequence _ _)))

namespace Act.Holds

variable {w w' : World} {job k : Act Errand}

theorem done_none {r : Except Fault Errand} (h : Act.Holds none job) (hj : job w = .done w' r) :
    w'.lifecycle = w.lifecycle := by
  cases h with
  | keeps hk =>
    have := hk.step w
    rw [hj] at this
    exact this

theorem done_some {i : Nat} {r : Except Fault Errand} (h : Act.Holds (some i) job)
    (hb : i ∈ w.opened → i < w.desks.size) (hj : job w = .done w' r) :
    w'.lifecycle = w.lifecycle.release i := by
  cases h with
  | @running _ body delay hbody =>
    -- the body's end leads into the close delay, so the job sleeps before it can end
    change (body w).andFinally _ = _ at hj
    cases hw : body w with
    | done w1 r1 =>
      rw [hw] at hj
      cases r1 <;> cases hj
    | asleep w1 t k1 =>
      rw [hw] at hj
      cases hj
  | releasing r0 =>
    obtain ⟨w2, hg, hl⟩ := Act.giveBack_lifecycle w i hb
    change (Act.giveBack i w).bind _ = _ at hj
    rw [hg] at hj
    cases hj
    exact hl

theorem asleep {d : Option Nat} {wake : Float} (h : Act.Holds d job)
    (hj : job w = .asleep w' wake k) : w'.lifecycle = w.lifecycle ∧ Act.Holds d k := by
  cases h with
  | keeps hbody =>
    have hk := hbody.step w
    rw [hj] at hk
    exact ⟨hk.1, .keeps ⟨hk.2⟩⟩
  | @running _ body delay hbody =>
    have hk := hbody.step w
    change (body w).andFinally _ = _ at hj
    cases hw : body w with
    | done w1 r1 =>
      -- the body has ended: the job sleeps the close delay and then gives the desk back
      rw [hw] at hk hj
      cases r1 <;>
      · simp only [Step.andFinally] at hj
        obtain ⟨rfl, rfl, rfl⟩ := hj
        exact ⟨hk, .releasing _⟩
    | asleep w1 t k1 =>
      rw [hw] at hk hj
      simp only [Step.andFinally] at hj
      obtain ⟨rfl, rfl, rfl⟩ := hj
      exact ⟨hk.1, .running delay ⟨hk.2⟩⟩
  | releasing r0 =>
    obtain ⟨w2, hg⟩ := Act.giveBack_done w _
    change (Act.giveBack _ w).bind _ = _ at hj
    rw [hg] at hj
    cases hj

end Act.Holds

/-- A job of the inbox that has not finished, with the desk it holds. -/
structure Task where
  desk : Option Nat
  job : Act Errand
  holds : Act.Holds desk job

/-- The world with who holds its desks: the callers that opened a desk and have not given it
back, and the jobs that have not finished. -/
structure Sharing where
  world : World
  callers : List Nat
  tasks : List Task

namespace Sharing

def held (s : Sharing) (i : Nat) : Nat :=
  s.callers.count i + s.tasks.countP (·.desk == some i)

/-- What can happen to the desks: callers open and give back desks, the blocks of a message open
theirs and are spawned as jobs with the message's alert, and the scheduler wakes any job at any
time and runs it until it sleeps again or finishes. -/
inductive Step : Sharing → Sharing → Prop
  | openDesk {s : Sharing} {ib ib' : Inbox} {name : String} {creds : List (String × String)}
      {i : Nat} :
      ib.world = s.world → ib.openDesk name creds = .ok (ib', some i) →
      Step s ⟨ib'.world, s.callers ++ [i], s.tasks⟩
  | giveBack {s : Sharing} {pre post : List Nat} {i : Nat} {w : World} :
      s.callers = pre ++ i :: post → Act.giveBack i s.world = .done w (.ok ()) →
      Step s ⟨w, pre ++ post, s.tasks⟩
  | openBlock {s : Sharing} {ib ib' : Inbox} {name : String} {creds : List (String × String)}
      {i : Nat} (delay : Float) (symbol actions : String) :
      ib.world = s.world → ib.openDesk name creds = .ok (ib', some i) →
      Step s ⟨ib'.world, s.callers,
        s.tasks ++ [⟨some i, Act.runBlock delay i symbol actions,
          Act.runBlock_holds delay i symbol actions⟩]⟩
  | alert {s : Sharing} (message : String) :
      Step s ⟨s.world, s.callers,
        s.tasks ++ [⟨none, Act.sendAlert message, .keeps (Act.sendAlert_keeps message)⟩]⟩
  | finish {s : Sharing} {pre post : List Task} {t : Task} {now : Float} {w : World}
      {r : Except Fault Errand} :
      s.tasks = pre ++ t :: post → t.job (Clocked.setNow s.world now) = .done w r →
      Step s ⟨w, s.callers, pre ++ post⟩
  | sleep {s : Sharing} {pre post : List Task} {t t' : Task} {now wake : Float} {w : World} :
      s.tasks = pre ++ t :: post → t.job (Clocked.setNow s.world now) = .asleep w wake t'.job →
      t'.desk = t.desk → Step s ⟨w, s.callers, pre ++ t' :: post⟩

theorem held_open_caller (s : Sharing) (w : World) (i : Nat) :
    (⟨w, s.callers ++ [i], s.tasks⟩ : Sharing).held = Function.update s.held i (s.held i + 1) := by
  funext j
  by_cases hj : j = i
  · subst hj
    simp [held, List.count_append]
    omega
  · simp [held, List.count_append, Function.update_of_ne hj, Ne.symm hj]

theorem held_open_task (s : Sharing) (w : World) {t : Task} {i : Nat} (ht : t.desk = some i) :
    (⟨w, s.callers, s.tasks ++ [t]⟩ : Sharing).held = Function.update s.held i (s.held i + 1) := by
  funext j
  by_cases hj : j = i
  · subst hj
    simp [held, List.countP_append, ht]
    omega
  · simp [held, List.countP_append, Function.update_of_ne hj, ht, Ne.symm hj]

theorem held_spawn (s : Sharing) (w : World) {t : Task} (ht : t.desk = none) :
    (⟨w, s.callers, s.tasks ++ [t]⟩ : Sharing).held = s.held := by
  funext j
  simp [held, List.countP_append, ht]

theorem held_give_back {s : Sharing} (w : World) {pre post : List Nat} {i : Nat}
    (hc : s.callers = pre ++ i :: post) :
    (⟨w, pre ++ post, s.tasks⟩ : Sharing).held = Function.update s.held i (s.held i - 1) := by
  funext j
  by_cases hj : j = i
  · subst hj
    simp [held, hc, List.count_append]
    omega
  · simp [held, hc, List.count_append, hj, Ne.symm hj]

theorem held_finish {s : Sharing} (w : World) {pre post : List Task} {t : Task}
    (ht : s.tasks = pre ++ t :: post) :
    (⟨w, s.callers, pre ++ post⟩ : Sharing).held j + (if t.desk = some j then 1 else 0) =
      s.held j := by
  simp only [held, ht, List.countP_append, List.countP_cons]
  by_cases hj : t.desk = some j <;> simp [hj]
  omega

theorem held_finish_none {s : Sharing} (w : World) {pre post : List Task} {t : Task}
    (ht : s.tasks = pre ++ t :: post) (hd : t.desk = none) :
    (⟨w, s.callers, pre ++ post⟩ : Sharing).held = s.held := by
  funext j
  simpa [hd] using held_finish w ht (j := j)

theorem held_finish_some {s : Sharing} (w : World) {pre post : List Task} {t : Task} {i : Nat}
    (ht : s.tasks = pre ++ t :: post) (hd : t.desk = some i) :
    (⟨w, s.callers, pre ++ post⟩ : Sharing).held = Function.update s.held i (s.held i - 1) ∧
      0 < s.held i := by
  have hi := held_finish w ht (j := i)
  simp only [hd, ↓reduceIte] at hi
  refine ⟨funext fun j => ?_, by omega⟩
  by_cases hj : j = i
  · subst hj
    simp only [Function.update_self]
    omega
  · have := held_finish w ht (j := j)
    simp only [hd, Option.some.injEq, Ne.symm hj, ↓reduceIte, Nat.add_zero] at this
    rw [Function.update_of_ne hj, this]

theorem held_sleep {s : Sharing} (w : World) {pre post : List Task} {t t' : Task}
    (ht : s.tasks = pre ++ t :: post) (hd : t'.desk = t.desk) :
    (⟨w, s.callers, pre ++ t' :: post⟩ : Sharing).held = s.held := by
  funext j
  simp [held, ht, List.countP_append, List.countP_cons, hd]

/-- The runs from a world with no open desk and no desk whose market is open. -/
inductive Reachable : Sharing → Prop
  | start {w : World} : w.opened = [] →
      (∀ i < w.desks.size, (w.desks.getD i default).market.closed = true) → Reachable ⟨w, [], []⟩
  | step {s s' : Sharing} : Reachable s → Step s s' → Reachable s'

theorem Step.change {s s' : Sharing} (h : Step s s')
    (hb : ∀ i ∈ s.world.opened, i < s.world.desks.size) :
    s.world.lifecycle.Change s.held s'.world.lifecycle s'.held := by
  cases h with
  | openDesk hw ho =>
    rw [held_open_caller, ← hw]
    exact Inbox.openDesk_change _ (hw ▸ hb) ho
  | giveBack hc hg =>
    rw [held_give_back _ hc]
    exact Act.giveBack_change (hb _) (by simp [held, hc]) hg
  | openBlock delay symbol actions hw ho =>
    rw [held_open_task _ _ rfl, ← hw]
    exact Inbox.openDesk_change _ (hw ▸ hb) ho
  | alert message =>
    rw [held_spawn _ _ rfl]
    exact .stay
  | @finish pre post t now w r ht hj =>
    have hh := t.holds
    cases hd : t.desk with
    | none =>
      rw [hd] at hh
      rw [held_finish_none _ ht hd, hh.done_none hj, World.lifecycle_setNow]
      exact .stay
    | some i =>
      rw [hd] at hh
      obtain ⟨hheld, hpos⟩ := held_finish_some w ht hd
      have hbi : i ∈ (Clocked.setNow s.world now).opened →
          i < (Clocked.setNow s.world now).desks.size := hb i
      rw [hheld, hh.done_some hbi hj, World.lifecycle_setNow]
      exact .release hpos
  | @sleep pre post t t' now wake w ht hj hd =>
    rw [held_sleep _ ht hd, (t.holds.asleep hj).1, World.lifecycle_setNow]
    exact .stay

theorem Step.sound {s s' : Sharing} (h : Step s s') (hs : s.world.lifecycle.Sound s.held) :
    s'.world.lifecycle.Sound s'.held :=
  (h.change hs.lt_size).sound hs

theorem Reachable.sound {s : Sharing} (h : s.Reachable) : s.world.lifecycle.Sound s.held := by
  induction h with
  | @start w ho hc =>
    refine ⟨by simp [World.lifecycle, ho], by simp [World.lifecycle, ho],
      by simp [World.lifecycle, ho], by simp [World.lifecycle, ho],
      by simp [World.lifecycle, ho], fun i => by simp [World.lifecycle, ho, held], fun i hi => ?_⟩
    simpa [World.lifecycle, ho, Desk.head] using hc i hi
  | step _ hst ih => exact hst.sound ih

/-- What the inbox promises of its desks at every point of every run. The open desks serve
distinct exchanges and credentials. Each open desk counts exactly the callers and jobs that hold
it, and at least one does. A desk's market is closed exactly when nothing holds it, so never under
a block that has not yet given it back. In every step a desk closes exactly when its last holder
lets go, and a closed desk stays closed, so it closes at most once. Giving back a desk that is no
longer open changes nothing. -/
structure Shared (s : Sharing) : Prop where
  serves_unique : ∀ i ∈ s.world.opened, ∀ j ∈ s.world.opened, ∀ name creds,
    (s.world.desks.getD i default).serves name creds = true →
    (s.world.desks.getD j default).serves name creds = true → i = j
  refCount_eq : ∀ i ∈ s.world.opened,
    (s.world.desks.getD i default).refCount = s.held i ∧ 0 < s.held i
  closed_iff : ∀ i < s.world.desks.size,
    (s.world.desks.getD i default).market.closed = true ↔ s.held i = 0
  closes_iff : ∀ s', Step s s' → ∀ i < s.world.desks.size,
    ((s'.world.desks.getD i default).market.closed = true ∧
      (s.world.desks.getD i default).market.closed = false) ↔ (0 < s.held i ∧ s'.held i = 0)
  stays_closed : ∀ s', Step s s' → ∀ i < s.world.desks.size,
    (s.world.desks.getD i default).market.closed = true →
    (s'.world.desks.getD i default).market.closed = true
  stale : ∀ i ∉ s.world.opened, Act.giveBack i s.world = .done s.world (.ok ())

theorem serves_unique_of_sound {w : World} {held : Nat → Nat} (hs : w.lifecycle.Sound held)
    {i j : Nat} (hi : i ∈ w.opened) (hj : j ∈ w.opened) {name : String}
    {creds : List (String × String)} (h1 : (w.desks.getD i default).serves name creds = true)
    (h2 : (w.desks.getD j default).serves name creds = true) : i = j := by
  rw [Desk.serves_iff] at h1 h2
  have hagree := (h1.2.symm (Assoc.keys_ofPairs_nodup creds) (hs.tables i hi)).trans h2.2
  exact hs.distinct i hi j hj (h1.1.trans h2.1.symm) hagree

theorem Reachable.shared {s : Sharing} (h : s.Reachable) : s.Shared := by
  have hs := h.sound
  refine ⟨fun i hi j hj _ _ h1 h2 => serves_unique_of_sound hs hi hj h1 h2,
    fun i hi => ⟨hs.users i hi, (hs.mem_iff i).1 hi⟩,
    fun i hi => hs.closed_iff_held hi, fun s' hst i hi => ?_,
    fun s' hst i hi hc => (hst.change hs.lt_size).closed_of_closed hi hc,
    fun i hi => Act.giveBack_of_not_mem hi⟩
  -- the closing step: closed before exactly when nothing held it, closed after likewise
  have hs' := hst.sound hs
  have hi' : i < s'.world.desks.size := Nat.lt_of_lt_of_le hi (hst.change hs.lt_size).size_le
  have before := hs.closed_iff_held hi
  have after := hs'.closed_iff_held hi'
  simp only [World.lifecycle, Desk.head] at before after
  rw [after, ← Bool.not_eq_true, before]
  omega

end Sharing

end TradeDesk
