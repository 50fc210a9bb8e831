import TradeDesk.Proofs.MacroExpansion
import TradeDesk.Proofs.ParamBinding

/-!
Built command tables, described without their index: what a name leads to after a build
(`CommandTable.build_finds`).
-/

namespace TradeDesk

section Lists

variable {α β ε : Type}

theorem forall₂_of_mapM_eq_ok {f : α → Except ε β} :
    ∀ {xs : List α} {ys : List β}, xs.mapM f = .ok ys → List.Forall₂ (fun x y => f x = .ok y) xs ys
  | [], ys, h => by
    cases h
    exact .nil
  | x :: xs, ys, h => by
    rw [List.mapM_cons] at h
    cases hx : f x with
    | error e => simp [hx, bind, Except.bind] at h
    | ok y =>
      cases hxs : xs.mapM f with
      | error e => simp [hx, hxs, bind, Except.bind] at h
      | ok ys' =>
        simp only [hx, hxs, bind, Except.bind, pure, Except.pure, Except.ok.injEq] at h
        subst h
        exact .cons hx (forall₂_of_mapM_eq_ok hxs)

theorem exists_of_mapM_eq_error {f : α → Except ε β} :
    ∀ {xs : List α} {e : ε}, xs.mapM f = .error e → ∃ x ∈ xs, f x = .error e
  | [], e, h => by cases h
  | x :: xs, e, h => by
    rw [List.mapM_cons] at h
    cases hx : f x with
    | error e' =>
      simp only [hx, bind, Except.bind, Except.error.injEq] at h
      exact ⟨x, List.mem_cons_self, h ▸ hx⟩
    | ok y =>
      cases hxs : xs.mapM f with
      | error e' =>
        simp only [hx, hxs, bind, Except.bind, Except.error.injEq] at h
        obtain ⟨x', hx', hf⟩ := exists_of_mapM_eq_error hxs
        exact ⟨x', List.mem_cons_of_mem x hx', h ▸ hf⟩
      | ok ys' => simp [hx, hxs, bind, Except.bind, pure, Except.pure] at h

theorem find?_image_eq_some [BEq γ] [LawfulBEq γ] {f : α → γ} :
    ∀ {l : List α}, l.Pairwise (fun a b => f a ≠ f b) → ∀ {x : α}, x ∈ l →
      l.find? (fun a => f a == f x) = some x
  | [], _, _, hx => by cases hx
  | a :: l, hp, x, hx => by
    rw [List.pairwise_cons] at hp
    rcases List.mem_cons.1 hx with rfl | hx
    · simp
    · have hne : f a ≠ f x := hp.1 x hx
      simp [hne, find?_image_eq_some hp.2 hx]

end Lists

namespace CommandTable

/-- The macros a table keeps, in order: each unless its lowercase name is already taken, by a
command or by a macro kept before it. -/
def retain (taken : List String) : List (String × String) → List (String × String)
  | [] => []
  | m :: ms =>
    if Text.lower m.1 ∈ taken then retain taken ms else m :: retain (Text.lower m.1 :: taken) ms

theorem lower_not_mem_of_mem_retain :
    ∀ {taken : List String} {ms : List (String × String)} {p : String × String},
      p ∈ retain taken ms → Text.lower p.1 ∉ taken
  | _, [], _, hp => by cases hp
  | taken, m :: ms, p, hp => by
    unfold retain at hp
    split at hp
    · exact lower_not_mem_of_mem_retain hp
    · rename_i hm
      rcases List.mem_cons.1 hp with rfl | hp
      · exact hm
      · exact fun h => lower_not_mem_of_mem_retain hp (List.mem_cons_of_mem _ h)

theorem retain_pairwise :
    ∀ (taken : List String) (ms : List (String × String)),
      (retain taken ms).Pairwise fun a b => Text.lower a.1 ≠ Text.lower b.1
  | _, [] => .nil
  | taken, m :: ms => by
    unfold retain
    split
    · exact retain_pairwise taken ms
    · refine List.Pairwise.cons (fun b hb => ?_) (retain_pairwise _ ms)
      exact fun h => lower_not_mem_of_mem_retain hb (h ▸ List.mem_cons_self)

theorem find?_foldl_set {γ : Type} (key : γ → String) {δ : Type} (value : γ → δ) (xs : List γ)
    (acc : List (String × δ)) (k : String) :
    Assoc.find? (xs.foldl (fun acc p => Assoc.set acc (key p) (value p)) acc) k =
      ((xs.reverse.find? fun p => key p == k).map value).or (Assoc.find? acc k) := by
  have hstep : (fun acc p => Assoc.set acc (key p) (value p)) =
      Assoc.writeStep (fun p => some (key p)) value := rfl
  rw [hstep, Assoc.find?_foldl_writeStep]
  simp

theorem find?_commandIndex (cmds : List (String × Command)) (k : String) :
    Assoc.find? (cmds.foldl (fun acc p => Assoc.set acc (Text.lower p.1) p.1) []) k =
      (cmds.reverse.find? fun p => Text.lower p.1 == k).map (·.1) := by
  rw [find?_foldl_set (fun p : String × Command => Text.lower p.1) (·.1)]
  simp [Assoc.find?]

theorem foldl_keepMacro_fst (ms : List (String × String)) :
    ∀ (acc : List (String × String) × List (String × String)) (taken : List String),
      (∀ k, (Assoc.find? acc.2 k).isSome = true ↔ k ∈ taken) →
      (ms.foldl keepMacro acc).1 = acc.1 ++ retain taken ms := by
  induction ms with
  | nil => intro acc taken _; simp [retain]
  | cons m ms ih =>
    intro acc taken hkeys
    rw [List.foldl_cons, retain]
    by_cases hm : Text.lower m.1 ∈ taken
    · have hstep : keepMacro acc m = acc := if_pos ((hkeys _).2 hm)
      rw [hstep, if_pos hm]
      exact ih acc taken hkeys
    · have hstep : keepMacro acc m = (acc.1 ++ [m], Assoc.set acc.2 (Text.lower m.1) m.1) :=
        if_neg fun h => hm ((hkeys _).1 h)
      rw [hstep, if_neg hm, ih _ (Text.lower m.1 :: taken)]
      · simp
      · intro k
        rw [Assoc.find?_set, List.mem_cons]
        by_cases hk : k = Text.lower m.1
        · simp [hk]
        · simp [hk, hkeys k]

/-- What the index leads to while macros are taken in: the command index first, else the first kept
macro with the lowercase name. -/
def Indexes (base : List (String × String)) (acc : List (String × String) × List (String × String)) :
    Prop :=
  ∀ k, Assoc.find? acc.2 k =
    (Assoc.find? base k).or ((acc.1.find? fun p => Text.lower p.1 == k).map (·.1))

theorem Indexes.keepMacro {base : List (String × String)}
    {acc : List (String × String) × List (String × String)} (h : Indexes base acc)
    (m : String × String) : Indexes base (CommandTable.keepMacro acc m) := by
  unfold CommandTable.keepMacro
  split
  · exact h
  · rename_i hfree
    intro k
    rw [Assoc.find?_set, List.find?_append]
    by_cases hk : k = Text.lower m.1
    · -- the new key was free: neither a command nor a kept macro has it
      subst hk
      have hnone := h (Text.lower m.1)
      rw [Option.not_isSome_iff_eq_none.1 hfree, eq_comm, Option.or_eq_none_iff] at hnone
      simp [hnone.1, Option.map_eq_none_iff.1 hnone.2]
    · have hne : (Text.lower m.1 == k) = false := by simpa using Ne.symm hk
      simp [hk, hne, h k]

theorem Indexes.foldl {base : List (String × String)} (ms : List (String × String)) :
    ∀ {acc : List (String × String) × List (String × String)}, Indexes base acc →
      Indexes base (ms.foldl CommandTable.keepMacro acc) := by
  induction ms with
  | nil => intro acc h; exact h
  | cons m ms ih => intro acc h; exact ih (h.keepMacro m)

def LowerKeys (idx : List (String × String)) : Prop := ∀ p ∈ idx, p.1 = Text.lower p.2

theorem LowerKeys.set {idx : List (String × String)} (h : LowerKeys idx) (v : String) :
    LowerKeys (Assoc.set idx (Text.lower v) v) := fun p hp => by
  rcases Assoc.mem_set hp with hp | rfl
  · exact h p hp
  · rfl

theorem lowerKeys_commandIndex (cmds : List (String × Command)) :
    ∀ idx, LowerKeys idx →
      LowerKeys (cmds.foldl (fun acc p => Assoc.set acc (Text.lower p.1) p.1) idx) := by
  induction cmds with
  | nil => intro idx h; exact h
  | cons c cs ih => intro idx h; exact ih _ (h.set c.1)

theorem lowerKeys_foldl_keepMacro (ms : List (String × String)) :
    ∀ acc : List (String × String) × List (String × String), LowerKeys acc.2 →
      LowerKeys (ms.foldl keepMacro acc).2 := by
  induction ms with
  | nil => intro acc h; exact h
  | cons m ms ih =>
    intro acc h
    refine ih _ ?_
    unfold keepMacro
    split
    · exact h
    · exact h.set m.1

theorem keys_foldl_set_nodup {α β : Type} [BEq α] [LawfulBEq α] (xs : List (α × β)) :
    ∀ acc : List (α × β), (Assoc.keys acc).Nodup →
      (Assoc.keys (xs.foldl (fun acc p => Assoc.set acc p.1 p.2) acc)).Nodup := by
  induction xs with
  | nil => intro acc h; exact h
  | cons x xs ih => intro acc h; exact ih _ (Assoc.keys_set_nodup h _ _)

theorem build_eq_ok {wl : List String} {ov : List (String × Command)}
    {macros : List (String × String)} {t : CommandTable} (h : build wl ov macros = .ok t) :
    ∃ listed : List (String × Command), (listed.map (·.1) = wl ∧
        ∀ p ∈ listed, Command.registered.lookup p.1 = some p.2) ∧
      t.commands = ov.foldl (fun acc p => Assoc.set acc p.1 p.2) (Assoc.ofPairs listed) ∧
      (t.macros, t.index) = (Assoc.ofPairs macros).foldl keepMacro
        ([], t.commands.foldl (fun acc p => Assoc.set acc (Text.lower p.1) p.1) []) := by
  unfold build at h
  simp only [bind, Except.bind, pure, Except.pure] at h
  split at h
  · cases h
  · rename_i listed hl
    cases h
    refine ⟨listed, ?_, rfl, rfl⟩
    -- each listed pair is a whitelisted name with its registered handler
    have h2 := forall₂_of_mapM_eq_ok hl
    clear hl
    induction h2 with
    | nil => simp
    | cons hxy _ ih =>
      split at hxy
      · rename_i c hc
        cases hxy
        refine ⟨by simp [ih.1], fun p hp => ?_⟩
        rcases List.mem_cons.1 hp with rfl | hp
        · exact hc
        · exact ih.2 p hp
      · cases hxy

theorem build_ok {wl : List String} (hwl : ∀ n ∈ wl, (Command.registered.lookup n).isSome = true)
    (ov : List (String × Command)) (macros : List (String × String)) :
    ∃ t, build wl ov macros = .ok t := by
  unfold build
  simp only [bind, Except.bind, pure, Except.pure]
  split
  · rename_i e he
    exfalso
    obtain ⟨n, hn, hf⟩ := exists_of_mapM_eq_error he
    obtain ⟨c, hc⟩ := Option.isSome_iff_exists.1 (hwl n hn)
    simp [hc] at hf
  · exact ⟨_, rfl⟩

theorem find?_listed {wl : List String} {listed : List (String × Command)}
    (hnames : listed.map (·.1) = wl) (hreg : ∀ p ∈ listed, Command.registered.lookup p.1 = some p.2)
    (c : String) :
    Assoc.find? (Assoc.ofPairs listed) c = if c ∈ wl then Command.registered.lookup c else none := by
  rw [Assoc.find?_ofPairs]
  split_ifs with hc
  · rw [← hnames] at hc
    obtain ⟨p, hp, rfl⟩ := List.mem_map.1 hc
    obtain ⟨q, hq⟩ : ∃ q, (listed.reverse.find? fun x => x.1 == p.1) = some q :=
      Option.isSome_iff_exists.1 (List.find?_isSome.2 ⟨p, List.mem_reverse.2 hp, by simp⟩)
    have hq1 : q.1 = p.1 := by simpa using List.find?_some hq
    have hqm : q ∈ listed := List.mem_reverse.1 (List.mem_of_find?_eq_some hq)
    rw [hq, ← hq1, hreg q hqm]
    rfl
  · rw [List.find?_eq_none.2 fun q hq => ?_]
    · rfl
    simp only [beq_iff_eq]
    rintro rfl
    exact hc (hnames ▸ List.mem_map.2 ⟨q, List.mem_reverse.1 hq, rfl⟩)

/-! ### What a built table finds -/

section Built

variable {wl : List String} {ov : List (String × Command)} {macros : List (String × String)}
  {t : CommandTable}

theorem build_commands_nodup (h : build wl ov macros = .ok t) : (Assoc.keys t.commands).Nodup := by
  obtain ⟨listed, -, hcmds, -⟩ := build_eq_ok h
  rw [hcmds]
  exact keys_foldl_set_nodup ov _ (Assoc.keys_ofPairs_nodup listed)

theorem build_find?_commands (h : build wl ov macros = .ok t) (c : String) :
    Assoc.find? t.commands c = ((ov.reverse.find? fun p => p.1 == c).map (·.2)).or
      (if c ∈ wl then Command.registered.lookup c else none) := by
  obtain ⟨listed, ⟨hnames, hreg⟩, hcmds, -⟩ := build_eq_ok h
  rw [hcmds, find?_foldl_set (fun p : String × Command => p.1) (·.2), find?_listed hnames hreg]

theorem build_macros (h : build wl ov macros = .ok t) :
    t.macros = retain (t.commands.map fun p => Text.lower p.1) (Assoc.ofPairs macros) := by
  obtain ⟨-, -, -, hrest⟩ := build_eq_ok h
  have hkeys : ∀ k, (Assoc.find? (t.commands.foldl
      (fun acc p => Assoc.set acc (Text.lower p.1) p.1) []) k).isSome = true ↔
        k ∈ t.commands.map fun p => Text.lower p.1 := by
    intro k
    simp [find?_commandIndex, List.find?_isSome]
  have := foldl_keepMacro_fst (Assoc.ofPairs macros) ([], _) _ hkeys
  rw [← hrest] at this
  simpa using this

theorem build_find?_index (h : build wl ov macros = .ok t) (k : String) :
    Assoc.find? t.index k = ((t.commands.reverse.find? fun p => Text.lower p.1 == k).map (·.1)).or
      ((t.macros.find? fun p => Text.lower p.1 == k).map (·.1)) := by
  obtain ⟨-, -, -, hrest⟩ := build_eq_ok h
  have hstart : Indexes (t.commands.foldl (fun acc p => Assoc.set acc (Text.lower p.1) p.1) [])
      ([], t.commands.foldl (fun acc p => Assoc.set acc (Text.lower p.1) p.1) []) := fun k => by
    simp
  have := Indexes.foldl (Assoc.ofPairs macros) hstart k
  rw [← hrest, find?_commandIndex] at this
  exact this

theorem build_lowerKeys (h : build wl ov macros = .ok t) : LowerKeys t.index := by
  obtain ⟨-, -, -, hrest⟩ := build_eq_ok h
  have := lowerKeys_foldl_keepMacro (Assoc.ofPairs macros) ([], _)
    (lowerKeys_commandIndex t.commands [] fun _ hp => by cases hp)
  rw [← hrest] at this
  exact this

theorem build_macros_pairwise (h : build wl ov macros = .ok t) :
    t.macros.Pairwise fun a b => Text.lower a.1 ≠ Text.lower b.1 := by
  rw [build_macros h]
  exact retain_pairwise _ _

theorem build_macros_nodup (h : build wl ov macros = .ok t) : (Assoc.keys t.macros).Nodup :=
  List.pairwise_map.2 ((build_macros_pairwise h).imp fun hne e => hne (congrArg Text.lower e))

theorem build_macro_not_command (h : build wl ov macros = .ok t) {p : String × String}
    (hp : p ∈ t.macros) : ∀ q ∈ t.commands, Text.lower q.1 ≠ Text.lower p.1 := by
  rw [build_macros h] at hp
  exact fun q hq e => lower_not_mem_of_mem_retain hp (List.mem_map.2 ⟨q, hq, e⟩)

end Built

theorem execute_unknown {c : Scope} {n : String} {w : World} {t : CommandTable}
    (hw : w.tables c.desk = t) (h : t.lookup n = none) (D : Nat) (args : List Argument) :
    Handler.execute (D + 1) c n args w = .done w (.error (.unknownCommand n)) := by
  rw [Handler.execute_succ_apply, hw, h]
  rfl

/-- What a table built from the whitelist `wl`, the overrides `ov` and the macros `macros` does
with names. -/
structure Finds (t : CommandTable) (wl : List String) (ov : List (String × Command))
    (macros : List (String × String)) : Prop where
  /-- A command's handler is its last override, else its registered one when whitelisted. -/
  handler : ∀ c, Assoc.find? t.commands c = ((ov.reverse.find? fun p => p.1 == c).map (·.2)).or
    (if c ∈ wl then Command.registered.lookup c else none)
  /-- A command that no other command shares its lowercase name with is found by every spelling. -/
  command : ∀ c h, (c, h) ∈ t.commands →
    (∀ p ∈ t.commands, Text.lower p.1 = Text.lower c → p.1 = c) →
    ∀ n, Text.lower (Text.trim n) = Text.lower c → t.lookup n = some (c, some h)
  kept : t.macros = retain (t.commands.map fun p => Text.lower p.1) (Assoc.ofPairs macros)
  kept_found : ∀ m text, (m, text) ∈ t.macros →
    ∀ n, Text.lower (Text.trim n) = Text.lower m → t.lookup n = some (m, none)
  unknown : ∀ n, (∀ p ∈ t.commands, Text.lower p.1 ≠ Text.lower (Text.trim n)) →
    (∀ p ∈ t.macros, Text.lower p.1 ≠ Text.lower (Text.trim n)) →
    t.lookup n = none ∧ ∀ (c : Scope) args (w : World), w.tables c.desk = t → 0 < w.frames →
      Handler.executeCommand c n args w = .done w (.error (.unknownCommand n))
  /-- Where `macro` is the macro command, a kept macro named by a plain value runs its actions. -/
  runs : t.lookup "macro" = some ("macro", some .callMacro) →
    ∀ m text, (m, text) ∈ t.macros → PlainValue m.toList →
    ∀ (c : Scope) args (w : World), w.tables c.desk = t → 2 ≤ w.frames →
      Handler.executeCommand c m args w = (Reply.results <$> (parseActions text).mapM fun a =>
        Handler.execute (w.frames - 2) c a.name a.params) w

section Built

variable {wl : List String} {ov : List (String × Command)} {macros : List (String × String)}
  {t : CommandTable}

theorem build_lookup_command (h : build wl ov macros = .ok t) {c : String} {cmd : Command}
    (hc : (c, cmd) ∈ t.commands) (hone : ∀ p ∈ t.commands, Text.lower p.1 = Text.lower c → p.1 = c)
    {n : String} (hn : Text.lower (Text.trim n) = Text.lower c) :
    t.lookup n = some (c, some cmd) := by
  -- the last command with the lowercase name is `c` itself
  obtain ⟨q, hq⟩ : ∃ q, (t.commands.reverse.find? fun p => Text.lower p.1 == Text.lower c) = some q :=
    Option.isSome_iff_exists.1 (List.find?_isSome.2 ⟨_, List.mem_reverse.2 hc, by simp⟩)
  have hqc : q.1 = c :=
    hone q (List.mem_reverse.1 (List.mem_of_find?_eq_some hq)) (by simpa using List.find?_some hq)
  simp [lookup, canonical?, hn, build_find?_index h, hq, hqc,
    Assoc.find?_of_mem (build_commands_nodup h) hc]

theorem build_lookup_kept (h : build wl ov macros = .ok t) {m text : String}
    (hm : (m, text) ∈ t.macros) {n : String} (hn : Text.lower (Text.trim n) = Text.lower m) :
    t.lookup n = some (m, none) := by
  have hother := build_macro_not_command h hm
  dsimp only at hother
  have hcmd : (t.commands.reverse.find? fun p => Text.lower p.1 == Text.lower m) = none :=
    List.find?_eq_none.2 fun q hq => by simpa using hother q (List.mem_reverse.1 hq)
  have hmac := find?_image_eq_some (build_macros_pairwise h) hm
  dsimp only at hmac
  -- a kept macro is no command, so the command table has nothing under its name
  have hnone : Assoc.find? t.commands m = none := by
    cases hf : Assoc.find? t.commands m with
    | none => rfl
    | some cmd =>
      have hne := hother _ (Assoc.mem_of_find? hf)
      simp at hne
  unfold lookup canonical?
  rw [hn, build_find?_index h, hcmd, hmac]
  simp only [Option.map_none, Option.map_some, Option.none_or, hnone]

theorem build_lookup_none (h : build wl ov macros = .ok t) {n : String}
    (hc : ∀ p ∈ t.commands, Text.lower p.1 ≠ Text.lower (Text.trim n))
    (hm : ∀ p ∈ t.macros, Text.lower p.1 ≠ Text.lower (Text.trim n)) : t.lookup n = none := by
  have h1 : (t.commands.reverse.find? fun p => Text.lower p.1 == Text.lower (Text.trim n)) = none :=
    List.find?_eq_none.2 fun q hq => by simpa using hc q (List.mem_reverse.1 hq)
  have h2 : (t.macros.find? fun p => Text.lower p.1 == Text.lower (Text.trim n)) = none :=
    List.find?_eq_none.2 fun q hq => by simpa using hm q hq
  simp [lookup, canonical?, build_find?_index h, h1, h2]

theorem build_execute_kept (h : build wl ov macros = .ok t)
    (hcall : t.lookup "macro" = some ("macro", some .callMacro)) {m text : String}
    (hm : (m, text) ∈ t.macros) (hplain : PlainValue m.toList) {c : Scope} (args : List Argument)
    {w : World} (hw : w.tables c.desk = t) (D : Nat) :
    Handler.execute (D + 2) c m args w =
      (Reply.results <$> (parseActions text).mapM fun a => Handler.execute D c a.name a.params) w := by
  have hname : Text.lower (Text.trim "macro") = "macro" := by decide
  have ht : t.WellBuilt := by
    simp only [lookup, canonical?, hname, Option.map_eq_some_iff, Prod.mk.injEq] at hcall
    obtain ⟨_, hidx, rfl, hcmd⟩ := hcall
    exact ⟨build_lowerKeys h, hidx, hcmd⟩
  have htrim : Text.trim m = m := by simp [Text.trim, hplain.trimmed.trimChars]
  have hlook := build_lookup_kept h hm (n := m) (by rw [htrim])
  have htext : t.macroText m = some text := by
    have hne : m ≠ "" := fun e => hplain.ne_nil (by simp [e])
    simp [macroText, canonical?_of_lookup hlook, hne,
      Assoc.find?_of_mem (build_macros_nodup h) hm]
  rw [Handler.execute_succ_apply, hw, hlook]
  exact Handler.execute_macro_func ht htext D (macroParams_func hplain) hw

theorem finds_of_build (h : build wl ov macros = .ok t) : t.Finds wl ov macros where
  handler := build_find?_commands h
  command _ _ hc hone _ hn := build_lookup_command h hc hone hn
  kept := build_macros h
  kept_found _ _ hm _ hn := build_lookup_kept h hm hn
  unknown _ hc hm := ⟨build_lookup_none h hc hm, fun _ args w hw hf => by
    rw [Handler.executeCommand_apply, ← Nat.sub_add_cancel hf]
    exact execute_unknown hw (build_lookup_none h hc hm) _ args⟩
  runs hcall _ _ hm hplain _ args w hw hf := by
    rw [Handler.executeCommand_apply]
    conv_lhs => rw [← Nat.sub_add_cancel hf]
    exact build_execute_kept h hcall hm hplain args hw _

end Built

/-- A whitelist of registered names builds a table, and the table finds commands and macros by any
spelling of their names: a command by every spelling that no other command shares, a kept macro by
every spelling of its own; macros are kept in order unless their lowercase name is taken by a command
or an earlier kept macro; any other name is refused as unknown; and where `macro` is the macro
command, a kept macro whose name stands plainly as an argument value runs its stored actions when
called by its name. -/
theorem build_finds {wl : List String} (hwl : ∀ n ∈ wl, (Command.registered.lookup n).isSome = true)
    (ov : List (String × Command)) (macros : List (String × String)) :
    ∃ t, build wl ov macros = .ok t ∧ t.Finds wl ov macros := by
  obtain ⟨t, ht⟩ := build_ok hwl ov macros
  exact ⟨t, ht, finds_of_build ht⟩

theorem contracts_table_finds :
    (∀ n ∈ Command.base ++ Command.ordering, (Command.registered.lookup n).isSome = true) ∧
      ∃ t, build (Command.base ++ Command.ordering) Command.contractOverrides
        [("hop", "wait(1s)"), ("Balance", "notify(x)"), ("HOP", "wait(2s)")] = .ok t ∧
        t.Finds (Command.base ++ Command.ordering) Command.contractOverrides
          [("hop", "wait(1s)"), ("Balance", "notify(x)"), ("HOP", "wait(2s)")] :=
  ⟨by decide, build_finds (by decide) _ _⟩

/-- Three tables on which names are not found as their spelling suggests. A macro named with a
trailing blank is kept, and a call by its name is refused as unknown, since names are trimmed before
they are looked up. On a table whose whitelist leaves out `macro`, a kept macro called by its name is
refused for want of `macro`, through which macros run. An override named `BALANCE` takes every
spelling of the command `balance`. -/
theorem unrunnable_macros_and_shadowed_command :
    (∃ t, build (Command.base ++ Command.ordering) [] [("hop ", "wait(1s)")] = .ok t ∧
      ("hop ", "wait(1s)") ∈ t.macros ∧ ∀ (c : Scope) args (w : World), w.tables c.desk = t →
        0 < w.frames → Handler.executeCommand c "hop " args w = .done w (.error (.unknownCommand "hop "))) ∧
    (∃ t, build ["wait"] [] [("hop", "wait(1s)")] = .ok t ∧
      ("hop", "wait(1s)") ∈ t.macros ∧ ∀ (c : Scope) args (w : World), w.tables c.desk = t →
        2 ≤ w.frames → Handler.executeCommand c "hop" args w = .done w (.error (.unknownCommand "macro"))) ∧
    (∃ t, build (Command.base ++ Command.ordering) [("BALANCE", .contractsBalance)] [] = .ok t ∧
      ("balance", .balance) ∈ t.commands ∧
      t.lookup "balance" = some ("BALANCE", some .contractsBalance)) := by
  refine ⟨?_, ?_, ?_⟩
  · obtain ⟨t, ht⟩ : ∃ t, build (Command.base ++ Command.ordering) [] [("hop ", "wait(1s)")] = .ok t :=
      build_ok (by decide) _ _
    have hfacts : ((build (Command.base ++ Command.ordering) [] [("hop ", "wait(1s)")]).map
        fun t => (t.macros, t.lookup "hop ")) = .ok ([("hop ", "wait(1s)")], none) := by
      decide +kernel
    rw [ht] at hfacts
    simp only [Except.map, Except.ok.injEq, Prod.mk.injEq] at hfacts
    refine ⟨t, ht, hfacts.1 ▸ List.mem_singleton_self _, fun c args w hw hf => ?_⟩
    rw [Handler.executeCommand_apply, ← Nat.sub_add_cancel hf]
    exact execute_unknown hw hfacts.2 _ args
  · obtain ⟨t, ht⟩ : ∃ t, build ["wait"] [] [("hop", "wait(1s)")] = .ok t := build_ok (by decide) _ _
    have hfacts : ((build ["wait"] [] [("hop", "wait(1s)")]).map
        fun t => (t.macros, t.lookup "hop", t.lookup "macro")) =
          .ok ([("hop", "wait(1s)")], some ("hop", none), none) := by
      decide +kernel
    rw [ht] at hfacts
    simp only [Except.map, Except.ok.injEq, Prod.mk.injEq] at hfacts
    obtain ⟨hkept, hhop, hmissing⟩ := hfacts
    refine ⟨t, ht, hkept ▸ List.mem_singleton_self _, fun c args w hw hf => ?_⟩
    -- the macro is found, and dispatch re-enters through the name `macro`, which is unknown
    obtain ⟨D, hD⟩ : ∃ D, w.frames = D + 1 + 1 := ⟨w.frames - 2, by omega⟩
    rw [Handler.executeCommand_apply, hD, Handler.execute_succ_apply, hw, hhop]
    exact execute_unknown hw hmissing D _
  · obtain ⟨t, ht⟩ : ∃ t, build (Command.base ++ Command.ordering) [("BALANCE", .contractsBalance)]
        [] = .ok t :=
      build_ok (by decide) _ _
    have hfacts : ((build (Command.base ++ Command.ordering) [("BALANCE", .contractsBalance)] []).map
        fun t => (("balance", Command.balance) ∈ t.commands : Bool) &&
          t.lookup "balance" == some ("BALANCE", some .contractsBalance)) = .ok true := by
      decide +kernel
    rw [ht] at hfacts
    simp only [Except.map, Except.ok.injEq, Bool.and_eq_true, decide_eq_true_eq, beq_iff_eq] at hfacts
    exact ⟨t, ht, hfacts⟩

end CommandTable

end TradeDesk
