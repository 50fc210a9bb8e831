import TradeDesk.Amount.Reading

/-!
Plain decimal numerals read as the float of their digits over a power of ten
(`Literal.read?_numeral`).
-/

namespace TradeDesk

section Runs

variable {α : Type} {p : α → Bool} {run after : List α}

/-- A run of `p` followed by a list that does not start with `p` is what `takeWhile p` takes. -/
theorem takeWhile_run (hr : ∀ c ∈ run, p c = true) (ha : ∀ c ∈ after.head?, p c = false) :
    (run ++ after).takeWhile p = run := by
  rw [List.takeWhile_append_of_pos hr]
  cases after with
  | nil => simp
  | cons c rest => simp [ha c rfl]

/-- A run of `p` followed by a list that does not start with `p` is what `dropWhile p` leaves of
the list. -/
theorem dropWhile_run (hr : ∀ c ∈ run, p c = true) (ha : ∀ c ∈ after.head?, p c = false) :
    (run ++ after).dropWhile p = after := by
  rw [List.dropWhile_append_of_pos hr]
  cases after with
  | nil => rfl
  | cons c rest => simp [ha c rfl]

end Runs

namespace Literal

/-- The numeral of a whole part and a fraction: `D`, or `D.D` when the fraction is not empty. -/
def numeral (whole frac : List Char) : List Char :=
  if frac = [] then whole else whole ++ '.' :: frac

theorem numeral_cons (d : Char) (ds frac : List Char) :
    numeral (d :: ds) frac = d :: (ds ++ if frac = [] then [] else '.' :: frac) := by
  unfold numeral
  split <;> simp

theorem digitsValue_eq_ofDigitChars (ds : List Char) : digitsValue ds = Nat.ofDigitChars 10 ds 0 :=
  rfl

theorem mapM_asciiForm {cs : List Char} (h : ∀ c ∈ cs, c.toNat < 0x7F) :
    cs.mapM asciiForm = some cs := by
  induction cs with
  | nil => rfl
  | cons c cs ih =>
    have hc : asciiForm c = some c := by simp [asciiForm, h c (by simp)]
    rw [List.mapM_cons, hc, ih fun d hd => h d (by simp [hd])]
    rfl

theorem dropUnderscores_plain {cs : List Char} (h : ∀ c ∈ cs, c ≠ '_') (prev : Char) :
    dropUnderscores prev cs = some cs := by
  induction cs generalizing prev with
  | nil => rfl
  | cons c cs ih =>
    have hc : c ≠ '_' := h c (by simp)
    have hstep : dropUnderscores prev (c :: cs) = (dropUnderscores c cs).map (c :: ·) := by
      rw [dropUnderscores.eq_def]
      split <;> simp_all
    rw [hstep, ih (fun d hd => h d (by simp [hd]))]
    rfl

theorem read?_plain {cs : List Char} (hascii : ∀ c ∈ cs, c.toNat < 0x7F) (hu : ∀ c ∈ cs, c ≠ '_')
    (hhead : ∀ c ∈ cs.head?, isAsciiBlank c = false)
    (hlast : ∀ c ∈ cs.getLast?, isAsciiBlank c = false) :
    read? (String.ofList cs) = readTrimmed cs := by
  have h1 : cs.dropWhile isAsciiBlank = cs := by
    cases cs with
    | nil => rfl
    | cons c rest => simp [hhead c rfl]
  have h2 : cs.reverse.dropWhile isAsciiBlank = cs.reverse := by
    cases hc : cs.reverse with
    | nil => rfl
    | cons c rest =>
      have : c ∈ cs.getLast? := by simp [List.getLast?_eq_head?_reverse, hc]
      simp [hlast c this]
  simp only [read?, String.toList_ofList, mapM_asciiForm hascii, Option.bind_eq_bind,
    Option.bind_some, dropUnderscores_plain hu, h1, h2, List.reverse_reverse]

theorem toLower_digit {d : Char} (hd : d.isDigit = true) : d.toLower = d := by
  have h := Char.isDigit_iff_toNat.mp hd
  unfold Char.toLower
  rw [dif_neg]
  -- a digit lies below the capital letters
  intro hu
  simp only [ge_iff_le, UInt32.le_iff_toNat_le] at hu
  simp only [Char.toNat] at h
  have : ('0'.val.toNat : Nat) = 48 := rfl
  have : ('9'.val.toNat : Nat) = 57 := rfl
  have : ('A'.val.toNat : Nat) = 65 := rfl
  omega

theorem sameWord_of_digit {d : Char} (hd : d.isDigit = true) (rest : List Char) (w : String)
    (hw : w.toList.head?.all (fun c => !c.isDigit) = true) : sameWord (d :: rest) w = false := by
  unfold sameWord
  cases h : w.toList with
  | nil => simp
  | cons c more =>
    have hc : c.isDigit = false := by simpa [h] using hw
    have hne : d.toLower ≠ c := by
      rw [toLower_digit hd]
      rintro rfl
      simp_all
    simp [hne]

theorem readTrimmed_of_digit {d : Char} (hd : d.isDigit = true) (rest : List Char) :
    readTrimmed (d :: rest) = readNumeral false (d :: rest) := by
  have hsign : readSign (d :: rest) = (false, d :: rest) := by
    unfold readSign
    split <;> simp_all
  have hletter : ∀ w : String, w.toList.head? = some 'i' ∨ w.toList.head? = some 'n' →
      sameWord (d :: rest) w = false := by
    intro w hw
    refine sameWord_of_digit hd rest w ?_
    rcases hw with hw | hw <;> rw [hw] <;> rfl
  simp only [readTrimmed, hsign, hletter "inf" (.inl rfl), hletter "infinity" (.inl rfl),
    hletter "nan" (.inr rfl), Bool.or_self, Bool.false_eq_true, if_false]

section Numeral

variable {whole frac : List Char}

theorem isDigit_code {c : Char} (h : c.isDigit = true) : 48 ≤ c.toNat ∧ c.toNat ≤ 57 := by
  have h := Char.isDigit_iff_toNat.mp h
  have : '0'.toNat = 48 := rfl
  have : '9'.toNat = 57 := rfl
  omega

theorem isDigit_toNat {c : Char} (h : c.isDigit = true) : c.toNat < 0x7F := by
  have := isDigit_code h
  omega

theorem isAsciiBlank_of_isDigit {c : Char} (h : c.isDigit = true) : isAsciiBlank c = false := by
  simp only [Char.isDigit, Bool.and_eq_true, decide_eq_true_eq] at h
  simp only [isAsciiBlank, Bool.or_eq_false_iff, decide_eq_false_iff_not]
  refine ⟨⟨⟨⟨⟨?_, ?_⟩, ?_⟩, ?_⟩, ?_⟩, ?_⟩ <;> rintro rfl <;> simp at h

theorem numeral_chars (hwd : ∀ c ∈ whole, c.isDigit = true) (hfd : ∀ c ∈ frac, c.isDigit = true) :
    ∀ c ∈ numeral whole frac, c.isDigit = true ∨ c = '.' := by
  intro c hc
  unfold numeral at hc
  split at hc
  · exact .inl (hwd c hc)
  · simp only [List.mem_append, List.mem_cons] at hc
    rcases hc with hc | rfl | hc
    · exact .inl (hwd c hc)
    · exact .inr rfl
    · exact .inl (hfd c hc)

theorem numeral_last (hwd : ∀ c ∈ whole, c.isDigit = true) (hfd : ∀ c ∈ frac, c.isDigit = true) :
    ∀ c ∈ (numeral whole frac).getLast?, c.isDigit = true := by
  intro c hc
  unfold numeral at hc
  split at hc
  · exact hwd c (List.mem_of_getLast? hc)
  · rename_i hf
    obtain ⟨f, fs, rfl⟩ := List.exists_cons_of_ne_nil hf
    have hc' : c ∈ (f :: fs).getLast? := by
      simpa [List.getLast?_append, List.getLast?_cons] using hc
    exact hfd c (List.mem_of_getLast? hc')

theorem readNumeral_numeral (hw : whole ≠ []) (hwd : ∀ c ∈ whole, c.isDigit = true)
    (hfd : ∀ c ∈ frac, c.isDigit = true) :
    readNumeral false (numeral whole frac) =
      some (Binary64.nearestDecimal false (digitsValue (whole ++ frac)) (-(frac.length : Int))) := by
  unfold numeral
  split
  · rename_i hf
    subst hf
    have hrun : digitRun whole = (whole, []) := by
      simpa [digitRun] using
        And.intro (@takeWhile_run _ _ whole [] hwd (by simp)) (@dropWhile_run _ _ whole [] hwd (by simp))
    simp [readNumeral, hrun, hw, readExponent]
  · have hpoint : ∀ c ∈ ('.' :: frac).head?, c.isDigit = false := by simp
    have hrun : digitRun (whole ++ '.' :: frac) = (whole, '.' :: frac) := by
      simp only [digitRun, takeWhile_run hwd hpoint, dropWhile_run hwd hpoint]
    have hfrac : digitRun frac = (frac, []) := by
      simpa [digitRun] using
        And.intro (@takeWhile_run _ _ frac [] hfd (by simp)) (@dropWhile_run _ _ frac [] hfd (by simp))
    simp [readNumeral, hrun, hfrac, hw, readExponent]

/-- A plain numeral reads as the float nearest to its digits, as many places after the point as
its fraction has. -/
theorem read?_numeral (hw : whole ≠ []) (hwd : ∀ c ∈ whole, c.isDigit = true)
    (hfd : ∀ c ∈ frac, c.isDigit = true) :
    read? (String.ofList (numeral whole frac)) =
      some (Binary64.nearestDecimal false (digitsValue (whole ++ frac)) (-(frac.length : Int))) := by
  have hchars := numeral_chars hwd hfd
  obtain ⟨d, ws, hd⟩ := List.exists_cons_of_ne_nil hw
  have hdig : d.isDigit = true := hwd d (by simp [hd])
  have hstart : numeral whole frac = d :: (ws ++ (if frac = [] then [] else '.' :: frac)) := by
    rw [hd, numeral_cons]
  rw [read?_plain, hstart, readTrimmed_of_digit hdig, ← hstart, readNumeral_numeral hw hwd hfd]
  · intro c hc
    rcases hchars c hc with h | rfl
    · exact isDigit_toNat h
    · decide
  · intro c hc
    rcases hchars c hc with h | rfl
    · rintro rfl
      simp at h
    · decide
  · rw [hstart]
    simpa using isAsciiBlank_of_isDigit hdig
  · intro c hc
    exact isAsciiBlank_of_isDigit (numeral_last hwd hfd c hc)

end Numeral

end Literal

end TradeDesk
