import TradeDesk.Proofs.Numerals
import TradeDesk.Proofs.CommandReading

/-!
Reading quantities: a text reads as its numeral and units exactly when it is so written
(`Quantity.read_written`), and as zero otherwise.
-/

namespace TradeDesk

namespace Quantity

/-- `cs` is written as the numeral of `whole` and `frac`, then `blanks`, then `units`. -/
structure Written (cs whole frac blanks units : List Char) : Prop where
  split : cs = Literal.numeral whole frac ++ blanks ++ units
  whole_ne : whole ≠ []
  whole_digits : ∀ c ∈ whole, c.isDigit = true
  frac_digits : ∀ c ∈ frac, c.isDigit = true
  blanks_blank : ∀ c ∈ blanks, Text.isBlank c = true
  units_valid : validUnits units = true

theorem isBlank_of_printable {c : Char} (h : 33 ≤ c.toNat ∧ c.toNat < 127) :
    Text.isBlank c = false := by
  simp only [Text.isBlank, Text.blankCodes, List.contains_eq_mem, decide_eq_false_iff_not,
    List.mem_cons, List.not_mem_nil, or_false]
  omega

theorem isBlank_of_isDigit {c : Char} (h : c.isDigit = true) : Text.isBlank c = false := by
  have := Literal.isDigit_code h
  exact isBlank_of_printable (by omega)

theorem unitChar_plain {c : Char} (h : isAsciiLetter c = true ∨ c = '%') :
    c.isDigit = false ∧ Text.isBlank c = false ∧ c ≠ '.' := by
  have hcode : (65 ≤ c.toNat ∧ c.toNat ≤ 90) ∨ (97 ≤ c.toNat ∧ c.toNat ≤ 122) ∨ c.toNat = 37 := by
    rcases h with h | rfl
    · simp only [isAsciiLetter, Bool.or_eq_true, Char.isUpper, Char.isLower, Bool.and_eq_true,
        decide_eq_true_eq, UInt32.le_iff_toNat_le] at h
      simp only [Char.toNat]
      have : ('A'.val.toNat : Nat) = 65 := rfl
      have : ('Z'.val.toNat : Nat) = 90 := rfl
      have : ('a'.val.toNat : Nat) = 97 := rfl
      have : ('z'.val.toNat : Nat) = 122 := rfl
      omega
    · exact .inr (.inr rfl)
  refine ⟨?_, ?_, ?_⟩
  · cases hd : c.isDigit
    · rfl
    · have := Literal.isDigit_code hd
      omega
  · exact isBlank_of_printable (by omega)
  · rintro rfl
    simp at hcode

theorem validUnits_chars {u : List Char} (h : validUnits u = true) :
    ∀ c ∈ u, isAsciiLetter c = true ∨ c = '%' := by
  simp only [validUnits, Bool.or_eq_true, List.all_eq_true, decide_eq_true_eq] at h
  rcases h with (h | rfl) | rfl
  · exact fun c hc => .inl (h c hc)
  · simp
  · simp

theorem validUnits_head {u : List Char} (h : validUnits u = true) :
    ∀ c ∈ u.head?, c.isDigit = false ∧ Text.isBlank c = false ∧ c ≠ '.' :=
  fun c hc => unitChar_plain (validUnits_chars h c (List.mem_of_mem_head? hc))

theorem validUnits_point (more : List Char) : validUnits ('.' :: more) = false := by
  cases h : validUnits ('.' :: more)
  · rfl
  · exact absurd rfl (validUnits_head h '.' rfl).2.2

variable {cs whole frac blanks units : List Char}

theorem tail_not_digit (hb : ∀ c ∈ blanks, Text.isBlank c = true) (hu : validUnits units = true) :
    ∀ c ∈ (blanks ++ units).head?, c.isDigit = false ∧ c ≠ '.' := by
  intro c hc
  cases blanks with
  | nil => exact ⟨(validUnits_head hu c hc).1, (validUnits_head hu c hc).2.2⟩
  | cons b bs =>
    obtain rfl : b = c := by simpa using hc
    have hblank := hb b (by simp)
    refine ⟨?_, ?_⟩
    · cases hd : b.isDigit
      · rfl
      · simp [isBlank_of_isDigit hd] at hblank
    · rintro rfl
      simp [Text.isBlank, Text.blankCodes] at hblank

theorem dropWhile_blanks (hb : ∀ c ∈ blanks, Text.isBlank c = true) (hu : validUnits units = true) :
    (blanks ++ units).dropWhile Text.isBlank = units :=
  dropWhile_run hb fun c hc => (validUnits_head hu c hc).2.1

theorem readParts_written (h : Written cs whole frac blanks units) :
    readParts cs = some (whole, frac, units) := by
  have htail := tail_not_digit h.blanks_blank h.units_valid
  have hdrop := dropWhile_blanks h.blanks_blank h.units_valid
  rw [h.split]
  unfold Literal.numeral
  by_cases hf : frac = []
  · -- no fraction: the numeral is the whole part and the blanks follow it
    subst hf
    have hnot : ∀ c ∈ (blanks ++ units).head?, c.isDigit = false := fun c hc => (htail c hc).1
    simp only [readParts, if_true, List.append_assoc, takeWhile_run h.whole_digits hnot,
      dropWhile_run h.whole_digits hnot]
    cases hbu : blanks ++ units with
    | nil =>
      obtain ⟨rfl, rfl⟩ := List.append_eq_nil_iff.mp hbu
      simp [h.whole_ne, validUnits]
    | cons c more =>
      have hc : c ≠ '.' := (htail c (by simp [hbu])).2
      simp_all [h.whole_ne, h.units_valid]
  · -- a fraction: a point, the fraction's digits, and then the blanks
    have hpoint : ∀ c ∈ ('.' :: (frac ++ (blanks ++ units))).head?, c.isDigit = false := by simp
    have hnot : ∀ c ∈ (blanks ++ units).head?, c.isDigit = false := fun c hc => (htail c hc).1
    simp only [readParts, hf, if_false, List.append_assoc, List.cons_append,
      takeWhile_run h.whole_digits hpoint, dropWhile_run h.whole_digits hpoint,
      takeWhile_run h.frac_digits hnot, dropWhile_run h.frac_digits hnot, hdrop]
    simp [h.whole_ne, h.units_valid]

theorem written_of_readParts (h : readParts cs = some (whole, frac, units)) :
    ∃ blanks, Written cs whole frac blanks units := by
  obtain ⟨rest, hrest⟩ : ∃ rest, cs.dropWhile Char.isDigit = rest := ⟨_, rfl⟩
  have hcs : cs = cs.takeWhile Char.isDigit ++ rest := by
    rw [← hrest, List.takeWhile_append_dropWhile]
  have hwd : ∀ c ∈ cs.takeWhile Char.isDigit, c.isDigit = true :=
    fun c hc => List.mem_takeWhile_imp hc
  simp only [readParts, hrest, ne_eq, Option.ite_none_right_eq_some, Option.some.injEq,
    Prod.mk.injEq] at h
  split at h
  · -- a point after the whole part: digits follow it, or the point is left as units
    rename_i more
    by_cases hf : more.takeWhile Char.isDigit = []
    · simp only [hf, if_true] at h
      have hv := h.1.2
      rw [List.dropWhile_cons_of_neg (by rw [isBlank_of_printable (by decide)]; decide),
        validUnits_point] at hv
      exact absurd hv (by decide)
    · simp only [hf, if_false] at h
      obtain ⟨⟨hne, hv⟩, rfl, rfl, rfl⟩ := h
      refine ⟨(more.dropWhile Char.isDigit).takeWhile Text.isBlank,
        ⟨?_, hne, hwd, fun c hc => List.mem_takeWhile_imp hc, fun c hc => List.mem_takeWhile_imp hc, hv⟩⟩
      rw [Literal.numeral, if_neg hf, List.append_assoc, List.takeWhile_append_dropWhile,
        List.append_assoc, List.cons_append, List.takeWhile_append_dropWhile]
      exact hcs
  · -- no fraction: the blanks and the units follow the whole part
    obtain ⟨⟨hne, hv⟩, rfl, rfl, rfl⟩ := h
    refine ⟨rest.takeWhile Text.isBlank,
      ⟨?_, hne, hwd, by simp, fun c hc => List.mem_takeWhile_imp hc, hv⟩⟩
    rw [Literal.numeral, if_pos rfl, List.append_assoc, List.takeWhile_append_dropWhile]
    exact hcs

theorem readParts_eq_some_iff :
    readParts cs = some (whole, frac, units) ↔ ∃ blanks, Written cs whole frac blanks units :=
  ⟨written_of_readParts, fun ⟨_, h⟩ => readParts_written h⟩

/-- A text written as a quantity reads as the float of its numeral, with its units. -/
theorem read_written {t : String} (h : Written (Text.trimChars t.toList) whole frac blanks units) :
    ∃ v, Literal.read? (String.ofList (Literal.numeral whole frac)) = some v ∧
      read t = ⟨v, String.ofList units⟩ := by
  refine ⟨_, Literal.read?_numeral h.whole_ne h.whole_digits h.frac_digits, ?_⟩
  simp only [read, readParts_written h]

/-- Any other text reads as zero. -/
theorem read_unwritten {t : String}
    (h : ∀ whole frac blanks units, ¬ Written (Text.trimChars t.toList) whole frac blanks units) :
    read t = zero := by
  unfold read
  cases hr : readParts (Text.trimChars t.toList) with
  | none => rfl
  | some parts =>
    obtain ⟨whole, frac, units⟩ := parts
    obtain ⟨blanks, hw⟩ := written_of_readParts hr
    exact absurd hw (h whole frac blanks units)

theorem written_numeral_units (hw : whole ≠ []) (hwd : ∀ c ∈ whole, c.isDigit = true)
    (hfd : ∀ c ∈ frac, c.isDigit = true) (hu : validUnits units = true) :
    Written (Text.trimChars (Literal.numeral whole frac ++ units)) whole frac [] units := by
  obtain ⟨d, ds, hd⟩ := List.exists_cons_of_ne_nil hw
  have hstart : Literal.numeral whole frac ++ units =
      d :: (ds ++ (if frac = [] then [] else '.' :: frac) ++ units) := by
    rw [hd, Literal.numeral_cons, List.cons_append]
  have hlast : ∀ c ∈ (Literal.numeral whole frac ++ units).getLast?, Text.isBlank c = false := by
    intro c hc
    cases hl : units.getLast? with
    | none =>
      rw [List.getLast?_eq_none_iff.mp hl, List.append_nil] at hc
      exact isBlank_of_isDigit (Literal.numeral_last hwd hfd c hc)
    | some l =>
      rw [List.getLast?_append, hl] at hc
      obtain rfl : l = c := by simpa using hc
      exact (unitChar_plain (validUnits_chars hu l (List.mem_of_getLast? hl))).2.1
  have htrim : Text.trimChars (Literal.numeral whole frac ++ units) =
      Literal.numeral whole frac ++ units :=
    Text.Trimmed.trimChars ⟨by simp [hstart], by
      rw [hstart]
      simpa using isBlank_of_isDigit (hwd d (by simp [hd])), hlast⟩
  rw [htrim]
  exact ⟨by simp, hw, hwd, hfd, by simp, hu⟩

theorem read_numeral_units (hw : whole ≠ []) (hwd : ∀ c ∈ whole, c.isDigit = true)
    (hfd : ∀ c ∈ frac, c.isDigit = true) {u : String} (hu : validUnits u.toList = true) :
    ∃ v, Literal.read? (String.ofList (Literal.numeral whole frac)) = some v ∧
      read (String.ofList (Literal.numeral whole frac) ++ u) = ⟨v, u⟩ := by
  have h := written_numeral_units hw hwd hfd hu
  rw [← @String.toList_ofList (Literal.numeral whole frac), ← String.toList_append] at h
  simpa using read_written h

end Quantity

end TradeDesk
