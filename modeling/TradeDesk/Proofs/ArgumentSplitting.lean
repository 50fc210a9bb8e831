import TradeDesk.Proofs.CommandReading

/-!
Where an argument list splits: quotes pair up from the left, and only commas outside a pair
separate arguments (`parseArguments_eq_segments`). An empty stretch takes no index, a blank one does.
-/

namespace TradeDesk

namespace Argument

/-- The stretches of a text between the commas that separate arguments; `inside` tells whether an
odd number of quotes has been passed. A comma separates unless a quote is open and a later quote
closes it. -/
def segmentsFrom (inside : Bool) : List Char → List (List Char)
  | [] => [[]]
  | c :: rest =>
    if c = ',' ∧ ¬(inside = true ∧ '"' ∈ rest) then [] :: segmentsFrom inside rest
    else (segmentsFrom (if c = '"' then !inside else inside) rest).modifyHead (c :: ·)

example : segmentsFrom false "a\"b,c\",,\"d,e".toList =
    ["a\"b,c\"".toList, [], "\"d".toList, "e".toList] := by decide

/-! ### Stretches -/

theorem segmentsFrom_comma (cs : List Char) :
    segmentsFrom false (',' :: cs) = [] :: segmentsFrom false cs := by
  simp [segmentsFrom]

theorem segmentsFrom_quote (cs : List Char) :
    segmentsFrom false ('"' :: cs) = (segmentsFrom true cs).modifyHead ('"' :: ·) := by
  simp [segmentsFrom]

theorem segmentsFrom_plain (inside : Bool) {s : List Char} (hs : ∀ c ∈ s, isPlain c = true)
    (t : List Char) :
    segmentsFrom inside (s ++ t) = (segmentsFrom inside t).modifyHead (s ++ ·) := by
  induction s with
  | nil => exact (congrFun List.modifyHead_id _).symm
  | cons c s ih =>
    have hc : c ≠ ',' ∧ c ≠ '"' := by simpa [isPlain] using hs c (by simp)
    rw [List.cons_append, segmentsFrom, if_neg (fun h => hc.1 h.1), if_neg hc.2,
      ih fun d hd => hs d (by simp [hd]), List.modifyHead_modifyHead]
    rfl

theorem segmentsFrom_quoted {q : List Char} (hq : '"' ∉ q) (t : List Char) :
    segmentsFrom true (q ++ '"' :: t) = (segmentsFrom false t).modifyHead (q ++ '"' :: ·) := by
  induction q with
  | nil => simp [segmentsFrom]
  | cons c q ih =>
    have hc : c ≠ '"' := fun e => hq (by simp [e])
    rw [List.cons_append, segmentsFrom, if_neg (fun h => h.2 ⟨rfl, by simp⟩), if_neg hc,
      ih (fun h => hq (by simp [h])), List.modifyHead_modifyHead]
    rfl

theorem segmentsFrom_no_quote {t : List Char} (ht : '"' ∉ t) (inside : Bool) :
    segmentsFrom inside t = segmentsFrom false t := by
  induction t generalizing inside with
  | nil => rfl
  | cons c t ih =>
    have hc : c ≠ '"' := fun e => ht (by simp [e])
    have ht' : '"' ∉ t := fun h => ht (by simp [h])
    simp only [segmentsFrom, ht', and_false, not_false_eq_true, and_true, hc, if_false,
      ih ht' inside]

/-! ### The splitter follows the stretches -/

theorem head_dropWhile {p : Char → Bool} {cs more : List Char} {c : Char}
    (h : cs.dropWhile p = c :: more) : p c = false := by
  have := List.head_dropWhile_not p (l := cs) (by simp [h])
  simpa [h] using this

theorem atComma_dropWhile (cs : List Char) : AtComma (cs.dropWhile (· != ',')) := by
  intro c hc
  cases hrest : cs.dropWhile (· != ',') with
  | nil => simp [hrest] at hc
  | cons d rest =>
    rw [hrest] at hc
    cases hc
    simpa using head_dropWhile hrest

theorem segmentsFrom_to_comma {t : List Char} (ht : '"' ∉ t) (inside : Bool) :
    segmentsFrom inside t =
      (segmentsFrom false (t.dropWhile (· != ','))).modifyHead (t.takeWhile (· != ',') ++ ·) := by
  have hfront : ∀ c ∈ t.takeWhile (· != ','), isPlain c = true := fun c hc => by
    have hcomma := List.mem_takeWhile_imp hc
    have hquote : c ≠ '"' := fun e => ht (e ▸ (List.takeWhile_prefix _).subset hc)
    simpa [isPlain, hquote] using hcomma
  rw [segmentsFrom_no_quote ht]
  conv_lhs => rw [← List.takeWhile_append_dropWhile (p := (· != ',')) (l := t)]
  exact segmentsFrom_plain false hfront _

theorem quotedStretch_eq_some {cs stretch rest : List Char} {h : rest.length < cs.length}
    (hq : quotedStretch cs = some ⟨(stretch, rest), h⟩) :
    ∃ a q, (∀ c ∈ a, isPlain c = true) ∧ '"' ∉ q ∧ cs = a ++ '"' :: (q ++ '"' :: rest) ∧
      stretch = a ++ '"' :: q ++ ['"'] := by
  unfold quotedStretch at hq
  split at hq
  · rename_i more hd
    split at hq
    · rename_i rest' hd'
      simp only [Option.some.injEq, Subtype.mk.injEq, Prod.mk.injEq] at hq
      obtain ⟨rfl, rfl⟩ := hq
      refine ⟨cs.takeWhile isPlain, more.takeWhile (· != '"'),
        fun c hc => List.mem_takeWhile_imp hc, fun hm => by simpa using List.mem_takeWhile_imp hm,
        ?_, by simp⟩
      calc cs = cs.takeWhile isPlain ++ cs.dropWhile isPlain := List.takeWhile_append_dropWhile.symm
        _ = cs.takeWhile isPlain ++ '"' ::
              (more.takeWhile (· != '"') ++ more.dropWhile (· != '"')) := by
          rw [hd, List.takeWhile_append_dropWhile]
        _ = _ := by rw [hd']
    · cases hq
  · cases hq

theorem quotedStretch_eq_none {cs : List Char} (hq : quotedStretch cs = none) :
    AtComma (cs.dropWhile isPlain) ∨ ∃ more, cs.dropWhile isPlain = '"' :: more ∧ '"' ∉ more := by
  unfold quotedStretch at hq
  split at hq
  · rename_i more hd
    split at hq
    · cases hq
    · rename_i hnone
      refine .inr ⟨more, hd, fun hm => ?_⟩
      cases hrest : more.dropWhile (· != '"') with
      | nil => simpa using (List.dropWhile_eq_nil_iff.1 hrest) _ hm
      | cons d rest =>
        have : d = '"' := by simpa using head_dropWhile hrest
        exact hnone rest (this ▸ hrest)
  · rename_i hnot
    left
    intro c hc
    cases hd : cs.dropWhile isPlain with
    | nil => simp [hd] at hc
    | cons d more =>
      rw [hd] at hc
      cases hc
      have hplain : isPlain c = false := head_dropWhile hd
      have hquote : c ≠ '"' := fun e => hnot more (e ▸ hd)
      simpa [isPlain, hquote] using hplain

theorem segmentsFrom_quotedStretch {cs stretch rest : List Char} {h : rest.length < cs.length}
    (hq : quotedStretch cs = some ⟨(stretch, rest), h⟩) :
    segmentsFrom false cs = (segmentsFrom false rest).modifyHead (stretch ++ ·) := by
  obtain ⟨a, q, ha, hqq, rfl, rfl⟩ := quotedStretch_eq_some hq
  rw [segmentsFrom_plain false ha, segmentsFrom_quote, segmentsFrom_quoted hqq]
  simp only [List.modifyHead_modifyHead]
  congr 1
  funext x
  simp

theorem segmentsFrom_takePiece (cs : List Char) :
    segmentsFrom false cs =
        (segmentsFrom false (takePiece cs).2).modifyHead ((takePiece cs).1 ++ ·) ∧
      AtComma (takePiece cs).2 := by
  induction cs using takePiece.induct with
  | case1 cs stretch rest h hs more after hma ih =>
    rw [hma] at ih
    rw [takePiece, hs]
    simp only [hma]
    refine ⟨?_, ih.2⟩
    rw [segmentsFrom_quotedStretch hs, ih.1, List.modifyHead_modifyHead]
    congr 1
    funext x
    simp
  | case2 cs hs =>
    rcases quotedStretch_eq_none hs with hat | ⟨more, hd, hmore⟩
    · -- plain characters up to a comma or the end
      have hcs := (List.takeWhile_append_dropWhile (p := isPlain) (l := cs)).symm
      have hplain : ∀ c ∈ cs.takeWhile isPlain, isPlain c = true :=
        fun c hc => List.mem_takeWhile_imp hc
      rw [hcs, takePiece_plain hplain hat]
      exact ⟨segmentsFrom_plain false hplain _, hat⟩
    · -- a quote without a partner: the piece runs on to the next comma
      have hplain : ∀ c ∈ cs.takeWhile isPlain, isPlain c = true :=
        fun c hc => List.mem_takeWhile_imp hc
      have hcs : cs = cs.takeWhile isPlain ++ '"' :: more := by
        rw [← hd, List.takeWhile_append_dropWhile]
      rw [takePiece, hs]
      simp only
      generalize cs.takeWhile isPlain = a at hcs hplain
      subst hcs
      have hcomma : ∀ c ∈ a, (c != ',') = true := fun c hc => by
        have := hplain c hc
        simp only [isPlain, Bool.and_eq_true] at this
        exact this.1
      rw [List.takeWhile_append_of_pos hcomma, List.dropWhile_append_of_pos hcomma]
      refine ⟨?_, by simpa using atComma_dropWhile more⟩
      rw [segmentsFrom_plain false hplain, segmentsFrom_quote, segmentsFrom_to_comma hmore]
      simp only [List.modifyHead_modifyHead, List.takeWhile_cons, List.dropWhile_cons]
      congr 1
      funext x
      simp

theorem takePiece_ne_nil {c : Char} (hc : c ≠ ',') (cs : List Char) :
    (takePiece (c :: cs)).1 ≠ [] := by
  rw [takePiece]
  split
  · rename_i stretch rest _ hs
    obtain ⟨a, q, -, -, -, rfl⟩ := quotedStretch_eq_some hs
    simp
  · simp [hc]

theorem pieces_eq_segments (cs : List Char) :
    pieces cs = (segmentsFrom false cs).filter (· ≠ []) := by
  induction cs using pieces.induct with
  | case1 => simp [pieces, segmentsFrom]
  | case2 cs ih =>
    rw [pieces_comma, ih, segmentsFrom_comma]
    simp
  | case3 c cs hc _ ih =>
    obtain ⟨hseg, hat⟩ := segmentsFrom_takePiece (c :: cs)
    have hne := takePiece_ne_nil hc cs
    rw [pieces, dif_neg hc]
    dsimp only
    rw [hseg, ih]
    -- the piece is cut off at the end of the text or at a separating comma
    cases hrest : (takePiece (c :: cs)).2 with
    | nil => simp [segmentsFrom, hne]
    | cons d rest =>
      have hd : d = ',' := hat d (by simp [hrest])
      subst hd
      simp [segmentsFrom_comma, hne]

end Argument

/-- The arguments of an argument list are read from the stretches between separating commas that
are not empty, each with the number of such stretches before it as its index. -/
theorem parseArguments_eq_segments (text : String) :
    parseArguments text =
      ((Argument.segmentsFrom false text.toList).filter (· ≠ [])).zipIdx.filterMap
        fun (p, i) => Argument.ofPiece (Text.trimChars p) i := by
  rw [parseArguments, Argument.pieces_eq_segments]

/-- Two commas in a row close an empty stretch, which takes no index, while a comma, a blank and a
comma close a blank one, which does: `1` comes second after `buy,,1` and third after `buy, ,1`,
although two separating commas stand before it in both. -/
theorem doubled_comma_takes_no_place :
    parseArguments "buy,,1" = [⟨"", "buy", 0⟩, ⟨"", "1", 1⟩] ∧
      parseArguments "buy, ,1" = [⟨"", "buy", 0⟩, ⟨"", "1", 2⟩] := by
  decide +kernel

end TradeDesk
