import Mathlib.Data.List.TakeWhile
import TradeDesk.Proofs.Numerals

/-!
The first number of a text: durations and percentages are read from the first run of ASCII digits
and what follows it (`first_number_readings`).
-/

namespace TradeDesk

/-- `s` is written as text without ASCII digits, a nonempty run of them, and text that does not
start with one: the run is the first maximal run of digits of `s`. -/
structure FirstRun (s pre digits after : List Char) : Prop where
  split : s = pre ++ digits ++ after
  pre_plain : ∀ c ∈ pre, c.isDigit = false
  digits_ne : digits ≠ []
  digits_run : ∀ c ∈ digits, c.isDigit = true
  after_plain : ∀ c ∈ after.head?, c.isDigit = false

/-- What follows the first run, read as a fraction: a point and a maximal nonempty run of digits,
or no fraction when no digit follows a point. -/
inductive Fraction : List Char → List Char → List Char → Prop
  | point {frac tail : List Char} : frac ≠ [] → (∀ c ∈ frac, c.isDigit = true) →
      (∀ c ∈ tail.head?, c.isDigit = false) → Fraction ('.' :: (frac ++ tail)) frac tail
  | none {after : List Char} :
      (∀ more, after = '.' :: more → ∀ c ∈ more.head?, c.isDigit = false) → Fraction after [] after

namespace FirstRun

variable {s pre digits after : List Char}

theorem fromFirstDigit (h : FirstRun s pre digits after) :
    Amount.fromFirstDigit s = digits ++ after := by
  obtain ⟨d, ds, hd⟩ := List.exists_cons_of_ne_nil h.digits_ne
  have hstart : ∀ c ∈ (digits ++ after).head?, (!c.isDigit) = false := by
    simp [hd, h.digits_run d (by simp [hd])]
  rw [h.split, Amount.fromFirstDigit, List.append_assoc, dropWhile_run _ hstart]
  simpa using h.pre_plain

theorem takeWhile (h : FirstRun s pre digits after) :
    (digits ++ after).takeWhile Char.isDigit = digits :=
  takeWhile_run h.digits_run h.after_plain

theorem dropWhile (h : FirstRun s pre digits after) :
    (digits ++ after).dropWhile Char.isDigit = after :=
  dropWhile_run h.digits_run h.after_plain

theorem exists_of_digit (h : ∃ c ∈ s, c.isDigit = true) :
    ∃ pre digits after, FirstRun s pre digits after := by
  obtain ⟨rest, hrest⟩ : ∃ rest, s.dropWhile (fun c => !c.isDigit) = rest := ⟨_, rfl⟩
  -- what is left from the first digit on starts with a digit
  have hne : rest ≠ [] := by
    intro hr
    obtain ⟨c, hc, hd⟩ := h
    have hs := List.takeWhile_append_dropWhile (p := fun c => !c.isDigit) (l := s)
    rw [hrest, hr, List.append_nil] at hs
    have := List.mem_takeWhile_imp (hs ▸ hc)
    simp_all
  obtain ⟨d, ds, hd⟩ := List.exists_cons_of_ne_nil hne
  have hdig : d.isDigit = true := by
    have := List.head?_dropWhile_not (fun c => !c.isDigit) s
    rw [hrest, hd] at this
    simpa using this
  refine ⟨s.takeWhile (fun c => !c.isDigit), rest.takeWhile Char.isDigit,
    rest.dropWhile Char.isDigit, ⟨?_, ?_, ?_, ?_, ?_⟩⟩
  · rw [List.append_assoc, List.takeWhile_append_dropWhile, ← hrest, List.takeWhile_append_dropWhile]
  · intro c hc
    simpa using List.mem_takeWhile_imp hc
  · simp [hd, hdig]
  · intro c hc
    exact List.mem_takeWhile_imp hc
  · intro c hc
    have := List.head?_dropWhile_not Char.isDigit rest
    rw [Option.mem_def] at hc
    rw [hc] at this
    exact this

end FirstRun

theorem Fraction.exists_of (after : List Char) : ∃ frac tail, Fraction after frac tail := by
  by_cases h : ∃ more, after = '.' :: more ∧ ∃ c ∈ more.head?, c.isDigit = true
  · obtain ⟨more, rfl, c, hc, hd⟩ := h
    have hne : more.takeWhile Char.isDigit ≠ [] := by
      obtain ⟨m, ms, rfl⟩ := List.exists_cons_of_ne_nil (show more ≠ [] by rintro rfl; simp at hc)
      simp only [List.head?_cons, Option.mem_def, Option.some.injEq] at hc
      subst hc
      simp [hd]
    refine ⟨more.takeWhile Char.isDigit, more.dropWhile Char.isDigit, ?_⟩
    have hf := Fraction.point hne (fun c hc => List.mem_takeWhile_imp hc) (by
      intro c hc
      have := List.head?_dropWhile_not Char.isDigit more
      rw [Option.mem_def] at hc
      rw [hc] at this
      exact this)
    rwa [List.takeWhile_append_dropWhile] at hf
  · refine ⟨[], after, .none fun more hm c hc => ?_⟩
    cases hd : c.isDigit
    · rfl
    · exact absurd ⟨more, hm, c, hc, hd⟩ h

theorem fromFirstDigit_of_plain {s : List Char} (h : ∀ c ∈ s, c.isDigit = false) :
    Amount.fromFirstDigit s = [] := by
  unfold Amount.fromFirstDigit
  simpa using @dropWhile_run _ (fun c => !c.isDigit) s [] (by simpa using h) (by simp)

namespace Amount

variable {s : String} {pre digits whole after frac tail : List Char}

theorem durationSeconds_of_plain (h : ∀ c ∈ s.toList, c.isDigit = false) (d : Int) :
    durationSeconds s d = .ok d := by
  simp [durationSeconds, fromFirstDigit_of_plain h]

theorem percentage_of_plain (h : ∀ c ∈ s.toList, c.isDigit = false) : percentage s = 0.0 := by
  simp [percentage, fromFirstDigit_of_plain h]

theorem durationSeconds_of_firstRun (h : FirstRun s.toList pre digits after) (d : Int) :
    durationSeconds s d =
      if wholeDigitLimit < digits.length then .error (.tooManyDigits digits.length)
      else if (after.dropWhile Text.isBlank).head? = some 'ſ' then .error (.missingKey "ſ")
      else .ok ((Literal.digitsValue digits *
        (((after.dropWhile Text.isBlank).head?.bind unitSeconds).getD 1) : Nat) : Int) := by
  obtain ⟨e, es, he⟩ := List.exists_cons_of_ne_nil h.digits_ne
  have hfirst := h.fromFirstDigit
  rw [he, List.cons_append] at hfirst
  have htake := h.takeWhile
  have hdrop := h.dropWhile
  rw [he, List.cons_append] at htake hdrop
  simp only [durationSeconds, hfirst, htake, hdrop, ← he]
  by_cases hlen : wholeDigitLimit < digits.length
  · simp only [hlen, if_true]
  simp only [hlen, if_false]
  -- split on the character after the blanks: none, the long s, a unit letter, or another
  cases (after.dropWhile Text.isBlank).head? with
  | none => simp
  | some u =>
    by_cases hs : u = 'ſ'
    · subst hs
      rfl
    · cases hu : unitSeconds u with
      | some k =>
        simp [isUnitLetter, hu, hs]
      | none =>
        have hl : isUnitLetter u = false := by
          simp only [isUnitLetter, hu, Option.isSome_none, Bool.false_or, decide_eq_false_iff_not]
          intro hn
          exact hs (Char.toNat_inj.mp (by simpa using hn))
        simp [hl, hs, hu]

theorem percentage_of_firstRun (h : FirstRun s.toList pre whole after)
    (hf : Fraction after frac tail) :
    ∃ v, Literal.read? (String.ofList (Literal.numeral whole frac)) = some v ∧
      percentage s = if (tail.dropWhile Text.isBlank).head? = some '%' then v / 100.0 else v := by
  have hfd : ∀ c ∈ frac, c.isDigit = true := by
    cases hf with
    | point _ hd _ => exact hd
    | none _ => simp
  refine ⟨_, Literal.read?_numeral h.digits_ne h.digits_run hfd, ?_⟩
  obtain ⟨e, es, he⟩ := List.exists_cons_of_ne_nil h.digits_ne
  have hfirst := h.fromFirstDigit
  have htake := h.takeWhile
  have hdrop := h.dropWhile
  rw [he, List.cons_append] at hfirst htake hdrop
  simp only [percentage, hfirst, htake, hdrop, ← he]
  -- the fraction: a point and digits, or nothing
  cases hf with
  | point hne hd htail =>
    simp [takeWhile_run hd htail, dropWhile_run hd htail, hne]
  | none hnone =>
    cases after with
    | nil => simp
    | cons c more =>
      by_cases hc : c = '.'
      · subst hc
        have hnil : more.takeWhile Char.isDigit = [] := by
          cases more with
          | nil => rfl
          | cons m ms => simp [hnone (m :: ms) rfl m rfl]
        simp [hnil]
      · simp [hc]

end Amount

/-- Reading the first number of a text. Without an ASCII digit a duration is the default and a
percentage zero; otherwise the text has a first maximal run of digits, and for it: the duration
fails when the run has more digits than the interpreter converts, and otherwise is the run's number
times the seconds of the unit letter after it and any blanks (`s`, `m`, `h`, `d` in either case),
once when another character or none follows, and fails on the long s `ſ`; the
percentage is the float of the run with its fraction, if a point and digits follow, divided by a
hundred exactly when a `%` comes next after any blanks. -/
theorem first_number_readings (s : String) (d : Int) :
    ((∀ c ∈ s.toList, c.isDigit = false) →
      Amount.durationSeconds s d = .ok d ∧ Amount.percentage s = 0.0) ∧
    ((∃ c ∈ s.toList, c.isDigit = true) →
      ∃ pre digits after frac tail, FirstRun s.toList pre digits after ∧ Fraction after frac tail) ∧
    (∀ pre digits after, FirstRun s.toList pre digits after →
      Amount.durationSeconds s d =
        if Amount.wholeDigitLimit < digits.length then .error (.tooManyDigits digits.length)
        else if (after.dropWhile Text.isBlank).head? = some 'ſ' then .error (.missingKey "ſ")
        else .ok ((Literal.digitsValue digits *
          (((after.dropWhile Text.isBlank).head?.bind Amount.unitSeconds).getD 1) : Nat) : Int)) ∧
    (∀ pre whole after frac tail, FirstRun s.toList pre whole after → Fraction after frac tail →
      ∃ v, Literal.read? (String.ofList (Literal.numeral whole frac)) = some v ∧
        Amount.percentage s = if (tail.dropWhile Text.isBlank).head? = some '%' then v / 100.0 else v) := by
  refine ⟨fun h => ⟨Amount.durationSeconds_of_plain h d, Amount.percentage_of_plain h⟩, ?_,
    fun _ _ _ h => Amount.durationSeconds_of_firstRun h d,
    fun _ _ _ _ _ h hf => Amount.percentage_of_firstRun h hf⟩
  intro hd
  obtain ⟨pre, digits, after, h⟩ := FirstRun.exists_of_digit hd
  obtain ⟨frac, tail, hf⟩ := Fraction.exists_of after
  exact ⟨pre, digits, after, frac, tail, h, hf⟩

/-- `1ſ` reads no duration: the long s matches `s` when case is ignored but names no unit, so the
duration fails where one second might be expected. -/
theorem long_s_duration_fails : Amount.durationSeconds "1ſ" 10 = .error (.missingKey "ſ") := by
  rfl

end TradeDesk
