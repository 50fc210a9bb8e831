import TradeDesk.Proofs.CommandReading
import TradeDesk.Proofs.DeskSharing

/-!
How names find commands and macros: built tables are well built (`CommandTable.WellBuilt`), and a
macro called by name reads its own name back from `func` (`macroParams_func`).
-/

namespace TradeDesk

/-! ### Names of actions -/

def ActionName (s : String) : Prop := s.toList ≠ [] ∧ ∀ c ∈ s.toList, isNameLetter c = true

theorem nameLetter_range {c : Char} (h : isNameLetter c = true) :
    c.toNat < 0x80 ∨ c.toNat = 0x130 ∨ c.toNat = 0x131 ∨ c.toNat = 0x17F ∨ c.toNat = 0x212A := by
  simp only [isNameLetter, Char.isUpper, Char.isLower, Bool.or_eq_true, Bool.and_eq_true,
    decide_eq_true_eq] at h
  have hZ : ('Z' : Char).val.toNat = 90 := rfl
  have hz : ('z' : Char).val.toNat = 122 := rfl
  rcases h with ((((⟨-, h2⟩ | ⟨-, h2⟩) | h) | h) | h) | h
  · left
    simp only [Char.toNat, UInt32.le_iff_toNat_le] at h2 ⊢
    omega
  · left
    simp only [Char.toNat, UInt32.le_iff_toNat_le] at h2 ⊢
    omega
  all_goals omega

theorem eq_ofNat_toNat (c : Char) : c = Char.ofNat c.toNat := (Char.ofNat_toNat c).symm

def nameLetterCodes : List Nat := List.range 0x80 ++ [0x130, 0x131, 0x17F, 0x212A]

theorem toNat_mem_nameLetterCodes {c : Char} (h : isNameLetter c = true) :
    c.toNat ∈ nameLetterCodes := by
  rcases nameLetter_range h with h' | h' | h' | h' | h'
  · simp only [nameLetterCodes, List.mem_append, List.mem_range]
    exact .inl h'
  all_goals simp [nameLetterCodes, h']

theorem nameLetter_not_blank {c : Char} (h : isNameLetter c = true) : Text.isBlank c = false := by
  have hall : nameLetterCodes.all (fun n =>
      !isNameLetter (Char.ofNat n) || !Text.isBlank (Char.ofNat n)) = true := by
    decide +kernel
  have := List.all_eq_true.1 hall _ (toNat_mem_nameLetterCodes h)
  rw [← eq_ofNat_toNat, h] at this
  simpa using this

theorem ActionName.trimmed {s : String} (h : ActionName s) : Text.Trimmed s.toList :=
  ⟨h.1, fun c hc => nameLetter_not_blank (h.2 c (List.mem_of_mem_head? hc)),
    fun c hc => nameLetter_not_blank (h.2 c (List.mem_of_mem_getLast? hc))⟩

theorem lowerFrom_eq_nil {cs : List Char} (before : List Char) (h : Text.lowerFrom before cs = []) :
    cs = [] := by
  cases cs with
  | nil => rfl
  | cons c cs =>
    simp only [Text.lowerFrom, List.append_eq_nil_iff] at h
    split at h <;> [simp at h; split at h <;> simp at h]

/-- The parameters the `macro` command gets when a macro is called by its name `m`: `func` is `m`
whenever `m` can stand plainly as an argument value. -/
theorem macroParams_func {m : String} (hm : PlainValue m.toList) :
    (Params.assign Handler.macroDefaults (parseArguments ("func=" ++ m))).get "func" = m := by
  have hw : Word "func".toList := by decide
  have hargs : parseArguments ("func=" ++ m) = [⟨"func", m, 0⟩] := by
    have h := @parseArguments_renderArgs [ArgForm.named "func".toList m.toList]
      (by simpa [ArgForm.WF] using ⟨hw, hm⟩)
    have htext : String.ofList (renderArgs [ArgForm.named "func".toList m.toList]) =
        "func=" ++ m := by
      apply String.toList_inj.1
      simp [renderArgs, ArgForm.render]
    rw [htext] at h
    simpa [ArgForm.meaning] using h
  rw [hargs]
  have hlow : Text.lower "func" = "func" := by decide
  have htag : Text.lower "tag" = "tag" := by decide
  simp [Params.assign, Params.get, Handler.macroDefaults, Params.lowerIndex, Assoc.ofPairs,
    Assoc.set, Assoc.keys, Assoc.find?, hlow, htag]

/-! ### Setting keys -/

namespace Assoc

variable {α β : Type} [BEq α] [LawfulBEq α]

private theorem lookup_map_set (xs : List (α × β)) (k k' : α) (v : β) :
    (xs.map fun p => if p.1 == k then (p.1, v) else p).lookup k' =
      if k' == k then (xs.lookup k').map fun _ => v else xs.lookup k' := by
  induction xs with
  | nil => simp
  | cons p xs ih =>
    obtain ⟨a, b⟩ := p
    by_cases hk : k' = a
    · subst hk
      by_cases ha : k' = k <;> simp [List.lookup, ha]
    · have hb : (k' == a) = false := beq_false_of_ne hk
      by_cases ha : a = k
      · subst ha
        simp only [List.map_cons, beq_self_eq_true, if_true, List.lookup, hb, ih]
      · simp only [List.map_cons, beq_iff_eq, ha, if_false, List.lookup, hb, ih]

theorem find?_set (xs : List (α × β)) (k k' : α) (v : β) :
    find? (set xs k v) k' = if k' == k then some v else find? xs k' := by
  unfold set find?
  split
  · rename_i hany
    rw [lookup_map_set]
    by_cases hk : k' = k
    · subst hk
      have hsome : (xs.lookup k').isSome := by
        obtain ⟨p, hp, hpk⟩ := List.any_eq_true.1 hany
        exact List.lookup_isSome_iff.2 ⟨p, hp, by rw [eq_of_beq hpk]; exact beq_self_eq_true _⟩
      obtain ⟨b, hb⟩ := Option.isSome_iff_exists.1 hsome
      simp [hb]
    · simp [hk]
  · rename_i hany
    simp only [List.lookup_append]
    by_cases hk : k' = k
    · subst hk
      have hnone : List.lookup k' xs = none := by
        refine List.lookup_eq_none_iff.2 fun p hp => ?_
        refine bne_iff_ne.2 fun heq => hany (List.any_eq_true.2 ⟨p, hp, ?_⟩)
        rw [← heq]
        exact beq_self_eq_true _
      simp [hnone]
    · have hb : (k' == k) = false := beq_false_of_ne hk
      cases List.lookup k' xs <;> simp [hb, hk]

theorem mem_set {xs : List (α × β)} {k : α} {v : β} {p : α × β} (h : p ∈ set xs k v) :
    p ∈ xs ∨ p = (k, v) := by
  unfold set at h
  split at h
  · obtain ⟨q, hq, rfl⟩ := List.mem_map.1 h
    by_cases hk : (q.1 == k) = true
    · simp only [hk, if_true]
      exact .inr (by rw [eq_of_beq hk])
    · simp only [hk]
      exact .inl hq
  · simpa using h

end Assoc

/-! ### Built tables -/

namespace CommandTable

/-- What lookups rely on in a built table: every key of the index is the lowercase form of the name
it leads to, and `macro` leads to the macro command. -/
structure WellBuilt (t : CommandTable) : Prop where
  index_lower : ∀ p ∈ t.index, p.1 = Text.lower p.2
  macro_index : Assoc.find? t.index "macro" = some "macro"
  macro_command : Assoc.find? t.commands "macro" = some .callMacro

/-- The step of a build that takes in a macro: kept, and indexed under its lowercase name, unless
that name already leads somewhere. -/
def keepMacro (acc : List (String × String) × List (String × String)) (m : String × String) :
    List (String × String) × List (String × String) :=
  if (Assoc.find? acc.2 (Text.lower m.1)).isSome then acc
  else (acc.1 ++ [m], Assoc.set acc.2 (Text.lower m.1) m.1)

theorem build_eq (wl : List String) (ov : List (String × Command)) (macros : List (String × String)) :
    build wl ov macros = (build wl ov []).map fun t =>
      let r := (Assoc.ofPairs macros).foldl keepMacro ([], t.index)
      ⟨t.commands, r.1, r.2⟩ := by
  unfold build
  simp only [bind, Except.bind, Except.map, pure, Except.pure]
  split <;> rfl

def LowerIndex (index : List (String × String)) : Prop :=
  (∀ p ∈ index, p.1 = Text.lower p.2) ∧ Assoc.find? index "macro" = some "macro"

theorem keepMacro_lowerIndex {acc : List (String × String) × List (String × String)}
    (h : LowerIndex acc.2) (m : String × String) : LowerIndex (keepMacro acc m).2 := by
  unfold keepMacro
  split
  · exact h
  · rename_i hfree
    refine ⟨fun p hp => ?_, ?_⟩
    · rcases Assoc.mem_set hp with hp | rfl
      · exact h.1 p hp
      · rfl
    · -- `macro` is indexed, so the name taken in lowercases to something else
      have hne : "macro" ≠ Text.lower m.1 := by
        intro he
        rw [← he, h.2] at hfree
        exact hfree rfl
      rw [Assoc.find?_set, if_neg (by simpa using hne)]
      exact h.2

theorem foldl_keepMacro_lowerIndex (macros : List (String × String)) :
    ∀ acc : List (String × String) × List (String × String), LowerIndex acc.2 →
      LowerIndex (macros.foldl keepMacro acc).2 := by
  induction macros with
  | nil => intro acc h; exact h
  | cons m ms ih => intro acc h; exact ih _ (keepMacro_lowerIndex h m)

theorem build_wellBuilt {ov : List (String × Command)} (hov : ov = [] ∨ ov = Command.contractOverrides)
    {macros : List (String × String)} {t : CommandTable}
    (h : build (Command.base ++ Command.ordering) ov macros = .ok t) : t.WellBuilt := by
  have hbase : ((build (Command.base ++ Command.ordering) ov []).map fun t =>
      (t.index.all fun p => p.1 == Text.lower p.2, Assoc.find? t.index "macro",
        Assoc.find? t.commands "macro")) = .ok (true, some "macro", some .callMacro) := by
    rcases hov with rfl | rfl
    · decide +kernel
    · decide +kernel
  rw [build_eq] at h
  cases hb : build (Command.base ++ Command.ordering) ov [] with
  | error e => rw [hb] at h; cases h
  | ok t0 =>
    rw [hb] at h hbase
    cases h
    simp only [Except.map, Except.ok.injEq, Prod.mk.injEq, List.all_eq_true, beq_iff_eq] at hbase
    obtain ⟨hlower, hindex, hcommand⟩ := hbase
    have hl := foldl_keepMacro_lowerIndex (Assoc.ofPairs macros) ([], t0.index) ⟨hlower, hindex⟩
    exact ⟨hl.1, hl.2, hcommand⟩

theorem WellBuilt.lookup_macro {t : CommandTable} (ht : t.WellBuilt) :
    t.lookup "macro" = some ("macro", some .callMacro) := by
  have hname : Text.lower (Text.trim "macro") = "macro" := by decide
  simp [lookup, canonical?, hname, ht.macro_index, ht.macro_command]

end CommandTable

/-- Every desk an exchange opens has a well-built command table. -/
theorem Desk.create_wellBuilt {name : String} {creds macros : List (String × String)}
    {o : DeskOptions} {d : Desk} (h : Desk.create name creds macros o = .ok (some d)) :
    d.table.WellBuilt := by
  unfold Desk.create at h
  split at h
  · obtain ⟨_, -, h⟩ := Paper.Market.except_bind_eq_ok h
    obtain ⟨t, ht, h⟩ := Paper.Market.except_bind_eq_ok h
    cases h
    exact CommandTable.build_wellBuilt (.inl rfl) ht
  · obtain ⟨_, -, h⟩ := Paper.Market.except_bind_eq_ok h
    obtain ⟨t, ht, h⟩ := Paper.Market.except_bind_eq_ok h
    cases h
    exact CommandTable.build_wellBuilt (.inr rfl) ht
  · cases h

end TradeDesk
