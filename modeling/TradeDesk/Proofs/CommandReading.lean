import Mathlib
import TradeDesk.Command.Action

/-!
Messages as people write them, with a printer for each kind of text and a condition under which
it is well written. A well written message is read back exactly.
-/

namespace TradeDesk

def Word (k : List Char) : Prop := k ≠ [] ∧ ∀ c ∈ k, Argument.isKeyLetter c = true

-- decided through `List.all`, so that no instance deciding over all characters is tried
instance (k : List Char) : Decidable (Word k) :=
  decidable_of_iff (k ≠ [] ∧ k.all Argument.isKeyLetter = true) (by simp [Word])

def LooksNamed (v : List Char) : Prop :=
  ∃ k w r, Word k ∧ (∀ c ∈ w, Text.isBlank c = true) ∧ v = k ++ w ++ '=' :: r

structure PlainValue (v : List Char) : Prop where
  ne_nil : v ≠ []
  head_not_blank : ∀ c ∈ v.head?, Text.isBlank c = false
  last_not_blank : ∀ c ∈ v.getLast?, Text.isBlank c = false
  no_comma : ',' ∉ v
  no_quote : '"' ∉ v
  no_paren : ')' ∉ v
  no_brace : '}' ∉ v

structure QuotedText (q : List Char) : Prop where
  no_quote : '"' ∉ q
  no_paren : ')' ∉ q
  no_brace : '}' ∉ q

instance (v : List Char) : Decidable (PlainValue v) :=
  decidable_of_iff (v ≠ [] ∧ (v.head?.all fun c => !Text.isBlank c) = true ∧
      (v.getLast?.all fun c => !Text.isBlank c) = true ∧ ',' ∉ v ∧ '"' ∉ v ∧ ')' ∉ v ∧ '}' ∉ v)
    ⟨fun ⟨a, b, c, d, e, f, g⟩ =>
      ⟨a, by simpa [Option.all_eq_true] using b, by simpa [Option.all_eq_true] using c, d, e, f, g⟩,
     fun ⟨a, b, c, d, e, f, g⟩ =>
      ⟨a, by simpa [Option.all_eq_true] using b, by simpa [Option.all_eq_true] using c, d, e, f, g⟩⟩

instance (q : List Char) : Decidable (QuotedText q) :=
  decidable_of_iff ('"' ∉ q ∧ ')' ∉ q ∧ '}' ∉ q)
    ⟨fun ⟨a, b, c⟩ => ⟨a, b, c⟩, fun ⟨a, b, c⟩ => ⟨a, b, c⟩⟩

theorem not_looksNamed {v : List Char} (h : '=' ∉ v) : ¬ LooksNamed v := by
  rintro ⟨k, w, r, -, -, rfl⟩
  simp at h

/-- An argument as written: a value, a quoted value, or either of them after `key=`. -/
inductive ArgForm where
  | plain (v : List Char)
  | quoted (q : List Char)
  | named (key v : List Char)
  | namedQuoted (key q : List Char)

namespace ArgForm

def render : ArgForm → List Char
  | plain v => v
  | quoted q => '"' :: (q ++ ['"'])
  | named key v => key ++ '=' :: v
  | namedQuoted key q => key ++ '=' :: '"' :: (q ++ ['"'])

def meaning : ArgForm → Nat → Argument
  | plain v, i => ⟨"", String.ofList v, i⟩
  | quoted q, i => ⟨"", String.ofList q, i⟩
  | named key v, i => ⟨String.ofList key, String.ofList v, i⟩
  | namedQuoted key q, i => ⟨String.ofList key, String.ofList q, i⟩

def WF : ArgForm → Prop
  | plain v => PlainValue v ∧ ¬ LooksNamed v
  | quoted q => QuotedText q
  | named key v => Word key ∧ PlainValue v
  | namedQuoted key q => Word key ∧ QuotedText q

end ArgForm

def renderArgs (args : List ArgForm) : List Char :=
  [',', ' '].intercalate (args.map ArgForm.render)

/-! ### Character classes -/

theorem keyLetter_range {c : Char} (h : Argument.isKeyLetter c = true) :
    (65 ≤ c.toNat ∧ c.toNat ≤ 90) ∨ (97 ≤ c.toNat ∧ c.toNat ≤ 122) := by
  simp only [Argument.isKeyLetter, Char.isUpper, Char.isLower, Bool.or_eq_true, Bool.and_eq_true,
    decide_eq_true_eq, UInt32.le_iff_toNat_le] at h
  exact h

theorem blank_of_keyLetter {c : Char} (h : Argument.isKeyLetter c = true) :
    Text.isBlank c = false := by
  have hr := keyLetter_range h
  simp only [Text.isBlank, Text.blankCodes, List.contains_eq_mem, decide_eq_false_iff_not,
    List.mem_cons, List.not_mem_nil, or_false]
  omega

theorem plain_of_keyLetter {c : Char} (h : Argument.isKeyLetter c = true) :
    Argument.isPlain c = true := by
  have hr := keyLetter_range h
  have h1 : c ≠ ',' := fun e => by subst e; simp at hr
  have h2 : c ≠ '"' := fun e => by subst e; simp at hr
  simp [Argument.isPlain, h1, h2]

theorem nameLetter_of_keyLetter {c : Char} (h : Argument.isKeyLetter c = true) :
    isNameLetter c = true := by
  simp only [isNameLetter, Bool.or_eq_true]
  simp only [Argument.isKeyLetter, Bool.or_eq_true] at h
  exact .inl (.inl (.inl (.inl h)))

def AtComma (tail : List Char) : Prop := ∀ c ∈ tail.head?, c = ','

namespace Argument

theorem dropWhile_atComma {p : Char → Bool} (hp : p ',' = false) {tail : List Char}
    (h : AtComma tail) : tail.dropWhile p = tail := by
  cases tail with
  | nil => rfl
  | cons c r =>
    rw [h c rfl]
    simp [hp]

theorem takeWhile_atComma {p : Char → Bool} (hp : p ',' = false) {tail : List Char}
    (h : AtComma tail) : tail.takeWhile p = [] := by
  cases tail with
  | nil => rfl
  | cons c r =>
    rw [h c rfl]
    simp [hp]

theorem quotedStretch_plain {s tail : List Char} (hs : ∀ c ∈ s, isPlain c = true)
    (ht : AtComma tail) : quotedStretch (s ++ tail) = none := by
  have hd : (s ++ tail).dropWhile isPlain = tail := by
    rw [List.dropWhile_append_of_pos hs, dropWhile_atComma rfl ht]
  unfold quotedStretch
  split
  · rename_i more h
    rw [hd] at h
    have := ht '"' (by simp [h])
    simp at this
  · rfl

theorem takePiece_plain {s tail : List Char} (hs : ∀ c ∈ s, isPlain c = true)
    (ht : AtComma tail) : takePiece (s ++ tail) = (s, tail) := by
  have hc : ∀ c ∈ s, (c != ',') = true := fun c hc => by
    have := hs c hc
    simp only [isPlain, Bool.and_eq_true] at this
    exact this.1
  rw [takePiece, quotedStretch_plain hs ht]
  simp only [List.takeWhile_append_of_pos hc, List.dropWhile_append_of_pos hc,
    takeWhile_atComma (p := (· != ',')) rfl ht,
    dropWhile_atComma (p := (· != ',')) rfl ht, List.append_nil]

theorem takePiece_quoted {s q tail : List Char} (hs : ∀ c ∈ s, isPlain c = true)
    (hq : '"' ∉ q) (ht : AtComma tail) :
    takePiece (s ++ '"' :: (q ++ '"' :: tail)) = (s ++ '"' :: q ++ ['"'], tail) := by
  have hq' : ∀ c ∈ q, (c != '"') = true := fun c hc => by
    have : c ≠ '"' := fun e => hq (e ▸ hc)
    simpa using this
  have hd : (s ++ '"' :: (q ++ '"' :: tail)).dropWhile isPlain = '"' :: (q ++ '"' :: tail) := by
    rw [List.dropWhile_append_of_pos hs]
    rfl
  have hstretch : (quotedStretch (s ++ '"' :: (q ++ '"' :: tail))).map Subtype.val =
      some (s ++ '"' :: q ++ ['"'], tail) := by
    unfold quotedStretch
    split
    · rename_i more h
      rw [hd] at h
      cases h
      split
      · rename_i rest h'
        rw [List.dropWhile_append_of_pos hq'] at h'
        cases h'
        simp [List.takeWhile_append_of_pos hs, List.takeWhile_append_of_pos hq', isPlain]
      · rename_i h'
        rw [List.dropWhile_append_of_pos hq'] at h'
        exact absurd rfl (h' tail)
    · rename_i h
      exact absurd hd (h _)
  rw [takePiece]
  split
  · rename_i stretch rest _ h
    rw [h] at hstretch
    simp only [Option.map_some, Option.some.injEq, Prod.mk.injEq] at hstretch
    obtain ⟨rfl, rfl⟩ := hstretch
    have := takePiece_plain (s := []) (by simp) ht
    simp only [List.nil_append] at this
    simp [this]
  · rename_i h
    rw [h] at hstretch
    simp at hstretch

theorem pieces_comma (cs : List Char) : pieces (',' :: cs) = pieces cs := by
  rw [pieces]
  simp

theorem pieces_of_takePiece {cs p rest : List Char} (hne : cs ≠ [])
    (hc : ∀ c ∈ cs.head?, c ≠ ',') (h : takePiece cs = (p, rest)) :
    pieces cs = p :: pieces rest := by
  obtain ⟨c, cs, rfl⟩ := List.exists_cons_of_ne_nil hne
  rw [pieces]
  simp [hc c rfl, h]

theorem looksNamed_of_named? {v key value : List Char} (h : named? v = some (key, value)) :
    LooksNamed v := by
  unfold named? at h
  split at h
  · rename_i rest hr
    by_cases hk : v.takeWhile isKeyLetter = []
    · simp [hk] at h
    · refine ⟨v.takeWhile isKeyLetter, (v.dropWhile isKeyLetter).takeWhile Text.isBlank, rest,
        ⟨hk, fun c hc => List.mem_takeWhile_imp hc⟩, fun c hc => List.mem_takeWhile_imp hc, ?_⟩
      rw [List.append_assoc, ← hr, List.takeWhile_append_dropWhile,
        List.takeWhile_append_dropWhile]
  · simp at h

theorem named?_eq_none {v : List Char} (h : ¬ LooksNamed v) : named? v = none := by
  cases hv : named? v with
  | none => rfl
  | some kv => exact absurd (looksNamed_of_named? hv) h

theorem unquote_of_no_quote {v : List Char} (h : '"' ∉ v) : unquote v = v := by
  unfold unquote
  split
  · simp at h
  · rfl

end Argument

namespace Text

theorem trimChars_blank_append {b s : List Char} (hb : ∀ c ∈ b, isBlank c = true)
    (h1 : ∀ c ∈ s.head?, isBlank c = false) (h2 : ∀ c ∈ s.getLast?, isBlank c = false) :
    trimChars (b ++ s) = s := by
  have hs : s.dropWhile isBlank = s := by
    cases s with
    | nil => rfl
    | cons c r => simp [h1 c rfl]
  have hr : s.reverse.dropWhile isBlank = s.reverse := by
    cases hrev : s.reverse with
    | nil => rfl
    | cons c r =>
      have hc : isBlank c = false := h2 c (by rw [← List.head?_reverse, hrev]; rfl)
      simp [hc]
  unfold trimChars
  rw [List.dropWhile_append_of_pos hb, hs, hr, List.reverse_reverse]

/-- Text that is not empty and neither starts nor ends with a blank. -/
structure Trimmed (s : List Char) : Prop where
  ne_nil : s ≠ []
  head : ∀ c ∈ s.head?, isBlank c = false
  last : ∀ c ∈ s.getLast?, isBlank c = false

theorem Trimmed.trimChars {s : List Char} (h : Trimmed s) : trimChars s = s :=
  trimChars_blank_append (b := []) (by simp) h.head h.last

theorem Trimmed.append {s t : List Char} (hs : Trimmed s) (ht : Trimmed t) (m : List Char) :
    Trimmed (s ++ m ++ t) := by
  obtain ⟨x, xs, hx⟩ := List.exists_cons_of_ne_nil hs.ne_nil
  refine ⟨by simp [hx], fun c hc => hs.head c ?_, fun c hc => ht.last c ?_⟩
  · simpa [hx] using hc
  · cases hl : t.getLast? with
    | none => exact absurd (List.getLast?_eq_none_iff.mp hl) ht.ne_nil
    | some l => simpa [List.getLast?_append, hl] using hc

theorem Trimmed.intercalate {x : List Char} {xs : List (List Char)}
    (h : ∀ y ∈ x :: xs, Trimmed y) (sep : List Char) : Trimmed (sep.intercalate (x :: xs)) := by
  induction xs generalizing x with
  | nil => simpa using h x List.mem_cons_self
  | cons y ys ih =>
    rw [List.intercalate_cons_cons]
    exact (h x List.mem_cons_self).append (ih fun z hz => h z (List.mem_cons_of_mem x hz)) sep

end Text

theorem PlainValue.plain {v : List Char} (h : PlainValue v) :
    ∀ c ∈ v, Argument.isPlain c = true := by
  intro c hc
  have h1 : c ≠ ',' := fun e => h.no_comma (e ▸ hc)
  have h2 : c ≠ '"' := fun e => h.no_quote (e ▸ hc)
  simp [Argument.isPlain, h1, h2]

theorem Word.plain {k : List Char} (h : Word k) : ∀ c ∈ k, Argument.isPlain c = true :=
  fun c hc => plain_of_keyLetter (h.2 c hc)

theorem Word.head_not_blank {k : List Char} (h : Word k) : ∀ c ∈ k.head?, Text.isBlank c = false :=
  fun c hc => blank_of_keyLetter (h.2 c (List.mem_of_mem_head? hc))

theorem Word.takeWhile_append {k : List Char} (h : Word k) {c : Char} {r : List Char}
    (hc : Argument.isKeyLetter c = false) : (k ++ c :: r).takeWhile Argument.isKeyLetter = k := by
  rw [List.takeWhile_append_of_pos h.2]
  simp [hc]

theorem Word.dropWhile_append {k : List Char} (h : Word k) {c : Char} {r : List Char}
    (hc : Argument.isKeyLetter c = false) :
    (k ++ c :: r).dropWhile Argument.isKeyLetter = c :: r := by
  rw [List.dropWhile_append_of_pos h.2]
  simp [hc]

theorem PlainValue.dropWhile_blank {v : List Char} (h : PlainValue v) :
    v.dropWhile Text.isBlank = v := by
  cases v with
  | nil => rfl
  | cons c r => simp [h.head_not_blank c rfl]

theorem PlainValue.trimmed {v : List Char} (h : PlainValue v) : Text.Trimmed v :=
  ⟨h.ne_nil, h.head_not_blank, h.last_not_blank⟩

namespace ArgForm

theorem lead_plain {lead : List Char} (hl : ∀ c ∈ lead, c = ' ') :
    ∀ c ∈ lead, Argument.isPlain c = true := fun c hc => by rw [hl c hc]; rfl

theorem render_ne_nil {a : ArgForm} (ha : a.WF) : a.render ≠ [] := by
  cases a with
  | plain v => exact ha.1.ne_nil
  | quoted q => simp [render]
  | named key v => simp [render]
  | namedQuoted key q => simp [render]

theorem render_head {a : ArgForm} (ha : a.WF) :
    ∀ c ∈ a.render.head?, c ≠ ',' ∧ Text.isBlank c = false := by
  intro c hc
  cases a with
  | plain v =>
    exact ⟨fun e => ha.1.no_comma (e ▸ List.mem_of_mem_head? hc), ha.1.head_not_blank c hc⟩
  | quoted q =>
    simp only [render, List.head?_cons, Option.mem_def, Option.some.injEq] at hc
    rw [← hc]
    exact ⟨by decide, rfl⟩
  | named key v | namedQuoted key q =>
    have hk := ha.1
    obtain ⟨k0, ks, rfl⟩ := List.exists_cons_of_ne_nil hk.1
    simp only [render, List.cons_append, List.head?_cons, Option.mem_def,
      Option.some.injEq] at hc
    have hl := hk.2 k0 List.mem_cons_self
    rw [← hc]
    refine ⟨fun e => ?_, blank_of_keyLetter hl⟩
    rw [e] at hl
    exact absurd hl (by decide)

theorem render_last {a : ArgForm} (ha : a.WF) : ∀ c ∈ a.render.getLast?, Text.isBlank c = false := by
  intro c hc
  cases a with
  | plain v => exact ha.1.last_not_blank c hc
  | quoted q | namedQuoted key q =>
    simp only [render, List.getLast?_append, List.getLast?_cons, List.getLast?_nil,
      Option.getD_none, Option.some_or, Option.mem_def, Option.some.injEq] at hc
    rw [← hc]
    rfl
  | named key v =>
    have hv := ha.2
    obtain ⟨v0, vs, rfl⟩ := List.exists_cons_of_ne_nil hv.ne_nil
    have : c ∈ (v0 :: vs).getLast? := by
      simpa [render, List.getLast?_append] using hc
    exact hv.last_not_blank c this

theorem render_trimmed {a : ArgForm} (ha : a.WF) : Text.Trimmed a.render :=
  ⟨render_ne_nil ha, fun c hc => (render_head ha c hc).2, render_last ha⟩

theorem takePiece_render {a : ArgForm} (ha : a.WF) (lead tail : List Char)
    (hl : ∀ c ∈ lead, c = ' ') (ht : AtComma tail) :
    Argument.takePiece (lead ++ a.render ++ tail) = (lead ++ a.render, tail) := by
  have hp := lead_plain hl
  cases a with
  | plain v =>
    have hs : ∀ c ∈ lead ++ v, Argument.isPlain c = true := fun c hc => by
      rcases List.mem_append.1 hc with hc | hc
      · exact hp c hc
      · exact ha.1.plain c hc
    simpa [render] using Argument.takePiece_plain hs ht
  | quoted q =>
    simpa [render] using Argument.takePiece_quoted hp ha.no_quote ht
  | named key v =>
    have hs : ∀ c ∈ lead ++ (key ++ '=' :: v), Argument.isPlain c = true := by
      intro c hc
      simp only [List.mem_append, List.mem_cons] at hc
      rcases hc with hc | hc | rfl | hc
      · exact hp c hc
      · exact ha.1.plain c hc
      · rfl
      · exact ha.2.plain c hc
    simpa [render] using Argument.takePiece_plain hs ht
  | namedQuoted key q =>
    have hs : ∀ c ∈ lead ++ (key ++ ['=']), Argument.isPlain c = true := by
      intro c hc
      simp only [List.mem_append, List.mem_cons, List.not_mem_nil, or_false] at hc
      rcases hc with hc | hc | rfl
      · exact hp c hc
      · exact ha.1.plain c hc
      · rfl
    simpa [render] using Argument.takePiece_quoted hs ha.2.no_quote ht

theorem named?_key {key rest : List Char} (hk : Word key) (hr : rest.dropWhile Text.isBlank = rest) :
    Argument.named? (key ++ '=' :: rest) = (Argument.namedValue rest).map (key, ·) := by
  unfold Argument.named?
  rw [hk.takeWhile_append rfl, hk.dropWhile_append rfl]
  simp [hr, hk.1, show Text.isBlank '=' = false from rfl]

theorem namedValue_plain {v : List Char} (hv : PlainValue v) :
    Argument.namedValue v = some v := by
  obtain ⟨c, r, rfl⟩ := List.exists_cons_of_ne_nil hv.ne_nil
  have hc : c ≠ '"' := fun e => hv.no_quote (by simp [e])
  unfold Argument.namedValue
  split
  · rename_i h
    cases h
  · rename_i rest h
    cases h
    exact absurd rfl hc
  · rw [hv.trimmed.trimChars]

theorem namedValue_quoted {q : List Char} (hq : '"' ∉ q) :
    Argument.namedValue ('"' :: (q ++ ['"'])) = some q := by
  have hq' : ∀ c ∈ q, (c != '"') = true := fun c hc => by
    have : c ≠ '"' := fun e => hq (e ▸ hc)
    simpa using this
  simp [Argument.namedValue, List.dropWhile_append_of_pos hq', List.takeWhile_append_of_pos hq']

theorem unquote_quoted (q : List Char) : Argument.unquote ('"' :: (q ++ ['"'])) = q := by
  cases q with
  | nil => rfl
  | cons c q =>
    have h : c :: (q ++ ['"']) = (c :: q) ++ ['"'] := rfl
    have hl : (c :: (q ++ ['"'])).getLast? = some '"' := by
      rw [h, List.getLast?_append]
      rfl
    simp only [Argument.unquote, List.cons_append]
    rw [if_pos hl, h, List.dropLast_concat]

theorem ofPiece_render {a : ArgForm} (ha : a.WF) (i : Nat) :
    Argument.ofPiece a.render i = some (a.meaning i) := by
  unfold Argument.ofPiece
  rw [if_neg (render_ne_nil ha)]
  cases a with
  | plain v =>
    simp only [render, Argument.named?_eq_none ha.2, Argument.unquote_of_no_quote ha.1.no_quote,
      meaning]
  | quoted q =>
    have hn : Argument.named? ('"' :: (q ++ ['"'])) = none := by
      simp [Argument.named?, show Argument.isKeyLetter '"' = false from rfl,
        show Text.isBlank '"' = false from rfl]
    simp only [render, hn, unquote_quoted, meaning]
  | named key v =>
    simp only [render, named?_key ha.1 ha.2.dropWhile_blank, namedValue_plain ha.2, Option.map_some,
      meaning]
  | namedQuoted key q =>
    have hr : ('"' :: (q ++ ['"'])).dropWhile Text.isBlank = '"' :: (q ++ ['"']) := rfl
    simp only [render, named?_key ha.1 hr, namedValue_quoted ha.2.no_quote, Option.map_some,
      meaning]

theorem trimChars_render {a : ArgForm} (ha : a.WF) (lead : List Char)
    (hl : ∀ c ∈ lead, c = ' ') : Text.trimChars (lead ++ a.render) = a.render :=
  Text.trimChars_blank_append (fun c hc => by rw [hl c hc]; rfl)
    (fun c hc => (render_head ha c hc).2) (render_last ha)

theorem head_lead_render {a : ArgForm} (ha : a.WF) {lead : List Char}
    (hl : ∀ c ∈ lead, c = ' ') : ∀ c ∈ (lead ++ a.render).head?, c ≠ ',' := by
  intro c hc
  cases lead with
  | nil => exact (render_head ha c hc).1
  | cons l ls =>
    simp only [List.cons_append, List.head?_cons, Option.mem_def, Option.some.injEq] at hc
    rw [← hc, hl l List.mem_cons_self]
    decide

end ArgForm

theorem renderArgs_cons_cons (a b : ArgForm) (bs : List ArgForm) :
    renderArgs (a :: b :: bs) = a.render ++ ',' :: ' ' :: renderArgs (b :: bs) := by
  simp [renderArgs]

theorem pieces_renderArgs {a : ArgForm} {as : List ArgForm} (h : ∀ x ∈ a :: as, x.WF)
    (lead : List Char) (hl : ∀ c ∈ lead, c = ' ') :
    Argument.pieces (lead ++ renderArgs (a :: as)) =
      (lead ++ a.render) :: as.map fun b => ' ' :: b.render := by
  induction as generalizing a lead with
  | nil =>
    have ha := h a List.mem_cons_self
    have ht := ArgForm.takePiece_render ha lead [] hl (by simp [AtComma])
    rw [List.append_nil] at ht
    have hne : lead ++ a.render ≠ [] := by simp [ArgForm.render_ne_nil ha]
    simp only [renderArgs, List.map_cons, List.map_nil, List.intercalate_singleton]
    rw [Argument.pieces_of_takePiece hne (ArgForm.head_lead_render ha hl) ht]
    simp [Argument.pieces]
  | cons b bs ih =>
    have ha := h a List.mem_cons_self
    have ht := ArgForm.takePiece_render ha lead (',' :: ' ' :: renderArgs (b :: bs)) hl
      (by simp [AtComma])
    have hne : lead ++ a.render ≠ [] := by simp [ArgForm.render_ne_nil ha]
    have hc : ∀ c ∈ (lead ++ a.render ++ ',' :: ' ' :: renderArgs (b :: bs)).head?, c ≠ ',' := by
      obtain ⟨c, cs, hcs⟩ := List.exists_cons_of_ne_nil hne
      rw [hcs]
      simpa [hcs] using ArgForm.head_lead_render ha hl
    have hrest : Argument.pieces (' ' :: renderArgs (b :: bs)) =
        (' ' :: b.render) :: bs.map fun b => ' ' :: b.render :=
      ih (fun x hx => h x (List.mem_cons_of_mem a hx)) [' '] (by simp)
    rw [renderArgs_cons_cons, ← List.append_assoc,
      Argument.pieces_of_takePiece (by simp) hc ht, Argument.pieces_comma, hrest,
      List.map_cons]

theorem filterMap_zipIdx_trimChars (ps : List (List Char)) :
    (ps.zipIdx.filterMap fun (p, i) => Argument.ofPiece (Text.trimChars p) i) =
      (ps.map Text.trimChars).zipIdx.filterMap fun (p, i) => Argument.ofPiece p i := by
  rw [List.zipIdx_map, List.filterMap_map]
  rfl

theorem parseArguments_renderArgs {args : List ArgForm} (h : ∀ a ∈ args, a.WF) :
    parseArguments (String.ofList (renderArgs args)) =
      args.zipIdx.map fun (a, i) => a.meaning i := by
  have hp : (Argument.pieces (renderArgs args)).map Text.trimChars = args.map ArgForm.render := by
    cases args with
    | nil => simp [renderArgs, Argument.pieces]
    | cons a as =>
      have hs := pieces_renderArgs h [] (by simp)
      have ha : Text.trimChars a.render = a.render := by
        simpa using ArgForm.trimChars_render (h a List.mem_cons_self) [] (by simp)
      rw [List.nil_append] at hs
      rw [hs]
      simp only [List.map_cons, List.map_map, List.nil_append, ha]
      congr 1
      apply List.map_congr_left
      intro b hb
      exact ArgForm.trimChars_render (h b (List.mem_cons_of_mem a hb)) [' '] (by simp)
  unfold parseArguments
  rw [String.toList_ofList, filterMap_zipIdx_trimChars, hp, List.zipIdx_map, List.filterMap_map]
  apply List.filterMap_eq_map_iff_forall_eq_some.mpr
  intro x hmem
  obtain ⟨a, i⟩ := x
  exact ArgForm.ofPiece_render (h a (List.fst_mem_of_mem_zipIdx hmem)) i


/-! ### Actions -/

def Closer (c : Char) : Prop := c = ')' ∨ c = '}'

theorem ArgForm.not_mem_render {a : ArgForm} (ha : a.WF) {c : Char} (hc : Closer c) :
    c ∉ a.render := by
  have hk : ∀ {k : List Char}, Word k → c ∉ k := fun hw hm => by
    have hr := keyLetter_range (hw.2 c hm)
    rcases hc with rfl | rfl <;> simp at hr
  have hq : ∀ {q : List Char}, QuotedText q → c ∉ q := fun hq hm => by
    rcases hc with rfl | rfl
    · exact hq.no_paren hm
    · exact hq.no_brace hm
  have hv : ∀ {v : List Char}, PlainValue v → c ∉ v := fun hv hm => by
    rcases hc with rfl | rfl
    · exact hv.no_paren hm
    · exact hv.no_brace hm
  have hne : c ≠ '"' ∧ c ≠ '=' := by rcases hc with rfl | rfl <;> decide
  cases a with
  | plain v => exact hv ha.1
  | quoted q =>
    simp only [ArgForm.render, List.mem_cons, List.mem_append, List.not_mem_nil, or_false]
    rintro (h | h | h)
    exacts [hne.1 h, hq ha h, hne.1 h]
  | named key v =>
    simp only [ArgForm.render, List.mem_append, List.mem_cons]
    rintro (h | h | h)
    exacts [hk ha.1 h, hne.2 h, hv ha.2 h]
  | namedQuoted key q =>
    simp only [ArgForm.render, List.mem_append, List.mem_cons, List.not_mem_nil, or_false]
    rintro (h | h | h | h | h)
    exacts [hk ha.1 h, hne.2 h, hne.1 h, hq ha.2 h, hne.1 h]

theorem not_mem_renderArgs {args : List ArgForm} (h : ∀ a ∈ args, a.WF) {c : Char}
    (hc : Closer c) : c ∉ renderArgs args := by
  have hsep : c ≠ ',' ∧ c ≠ ' ' := by rcases hc with rfl | rfl <;> decide
  induction args with
  | nil => simp [renderArgs]
  | cons a as ih =>
    have ha := ArgForm.not_mem_render (h a List.mem_cons_self) hc
    have has := ih fun x hx => h x (List.mem_cons_of_mem a hx)
    cases as with
    | nil => simpa [renderArgs] using ha
    | cons b bs =>
      rw [renderArgs_cons_cons]
      simp only [List.mem_append, List.mem_cons]
      rintro (h' | h' | h' | h')
      exacts [ha h', hsep.1 h', hsep.2 h', has h']

/-- An action as written: its name and its arguments. -/
structure ActionForm where
  name : List Char
  args : List ArgForm

namespace ActionForm

def render (a : ActionForm) : List Char := a.name ++ '(' :: (renderArgs a.args ++ [')'])

def meaning (a : ActionForm) : Action :=
  ⟨String.ofList a.name, a.args.zipIdx.map fun (x, i) => x.meaning i⟩

def WF (a : ActionForm) : Prop := Word a.name ∧ ∀ x ∈ a.args, x.WF

end ActionForm

def renderActions (acts : List ActionForm) : List Char :=
  [';', ' '].intercalate (acts.map ActionForm.render)

theorem renderActions_cons_cons (a b : ActionForm) (bs : List ActionForm) :
    renderActions (a :: b :: bs) = a.render ++ ';' :: ' ' :: renderActions (b :: bs) := by
  simp [renderActions]

theorem Word.takeWhile_name {k : List Char} (h : Word k) {c : Char} {r : List Char}
    (hc : isNameLetter c = false) : (k ++ c :: r).takeWhile isNameLetter = k := by
  rw [List.takeWhile_append_of_pos fun x hx => nameLetter_of_keyLetter (h.2 x hx)]
  simp [hc]

theorem Word.dropWhile_name {k : List Char} (h : Word k) {c : Char} {r : List Char}
    (hc : isNameLetter c = false) : (k ++ c :: r).dropWhile isNameLetter = c :: r := by
  rw [List.dropWhile_append_of_pos fun x hx => nameLetter_of_keyLetter (h.2 x hx)]
  simp [hc]

namespace Action

theorem at?_render {a : ActionForm} (ha : a.WF) (rest : List Char) :
    (at? (a.render ++ rest)).map Subtype.val = some (a.name, renderArgs a.args, rest) := by
  have hp : ∀ c ∈ renderArgs a.args, (c != ')') = true := fun c hc => by
    have : c ≠ ')' := fun e => not_mem_renderArgs ha.2 (.inl rfl) (e ▸ hc)
    simpa using this
  have hsplit : a.render ++ rest = a.name ++ '(' :: (renderArgs a.args ++ ')' :: rest) := by
    simp [ActionForm.render]
  have hd := ha.1.dropWhile_name (c := '(') (r := renderArgs a.args ++ ')' :: rest) rfl
  have ht := ha.1.takeWhile_name (c := '(') (r := renderArgs a.args ++ ')' :: rest) rfl
  rw [hsplit]
  unfold at?
  split
  · rename_i afterParen h
    rw [hd] at h
    cases h
    rw [ht, if_neg ha.1.1]
    split
    · rename_i r h'
      rw [List.dropWhile_append_of_pos hp] at h'
      cases h'
      simp [List.takeWhile_append_of_pos hp]
    · rename_i h'
      rw [List.dropWhile_append_of_pos hp] at h'
      exact absurd rfl (h' rest)
  · rename_i h
    exact absurd hd (h _)

theorem at?_of_not_nameLetter {c : Char} (hc : isNameLetter c = false) (cs : List Char) :
    at? (c :: cs) = none := by
  unfold at?
  split
  · rw [if_pos (by simp [hc])]
  · rfl

theorem scan_of_at? {cs name args rest : List Char}
    (h : (at? cs).map Subtype.val = some (name, args, rest)) :
    scan cs = (name, args) :: scan rest := by
  rw [scan.eq_def]
  split
  · rename_i name' args' rest' _ h'
    rw [h'] at h
    simp only [Option.map_some, Option.some.injEq, Prod.mk.injEq] at h
    obtain ⟨rfl, rfl, rfl⟩ := h
    rfl
  · rename_i h'
    rw [h'] at h
    simp at h

theorem scan_skip {c : Char} (hc : isNameLetter c = false) (cs : List Char) :
    scan (c :: cs) = scan cs := by
  rw [scan.eq_def, at?_of_not_nameLetter hc]

end Action

theorem scan_renderActions {acts : List ActionForm} (h : ∀ a ∈ acts, a.WF) :
    Action.scan (renderActions acts) = acts.map fun a => (a.name, renderArgs a.args) := by
  induction acts with
  | nil => simp [renderActions, Action.scan, Action.at?]
  | cons a as ih =>
    have ha := h a List.mem_cons_self
    have has := ih fun x hx => h x (List.mem_cons_of_mem a hx)
    cases as with
    | nil =>
      have hs := Action.scan_of_at? (Action.at?_render ha [])
      simp only [List.append_nil] at hs
      simp [renderActions, hs, Action.scan, Action.at?]
    | cons b bs =>
      rw [renderActions_cons_cons, Action.scan_of_at? (Action.at?_render ha _),
        Action.scan_skip rfl, Action.scan_skip rfl, has]
      rfl

theorem Word.trimmed {k : List Char} (h : Word k) : Text.Trimmed k :=
  ⟨h.1, h.head_not_blank, fun c hc => blank_of_keyLetter (h.2 c (List.mem_of_mem_getLast? hc))⟩

theorem trimChars_renderArgs {args : List ArgForm} (h : ∀ a ∈ args, a.WF) :
    Text.trimChars (renderArgs args) = renderArgs args := by
  cases args with
  | nil => rfl
  | cons a as =>
    rw [renderArgs, List.map_cons]
    refine (Text.Trimmed.intercalate (fun y hy => ?_) _).trimChars
    rw [← List.map_cons] at hy
    obtain ⟨x, hx, rfl⟩ := List.mem_map.mp hy
    exact ArgForm.render_trimmed (h x hx)

theorem parseActions_renderActions {acts : List ActionForm} (h : ∀ a ∈ acts, a.WF) :
    parseActions (String.ofList (renderActions acts)) = acts.map ActionForm.meaning := by
  unfold parseActions
  rw [String.toList_ofList, scan_renderActions h, List.map_map]
  apply List.map_congr_left
  intro a ha
  have hw := h a ha
  simp only [Function.comp_apply, ActionForm.meaning, hw.1.trimmed.trimChars, trimChars_renderArgs hw.2,
    parseArguments_renderArgs hw.2]

theorem not_mem_renderActions {acts : List ActionForm} (h : ∀ a ∈ acts, a.WF) :
    '}' ∉ renderActions acts := by
  have hr : ∀ a ∈ acts, '}' ∉ a.render := fun a ha hm => by
    have hw := h a ha
    simp only [ActionForm.render, List.mem_append, List.mem_cons, List.not_mem_nil,
      or_false] at hm
    rcases hm with hm | hm | hm | hm
    · have := keyLetter_range (hw.1.2 _ hm)
      simp at this
    · exact absurd hm (by decide)
    · exact not_mem_renderArgs hw.2 (.inr rfl) hm
    · exact absurd hm (by decide)
  induction acts with
  | nil => simp [renderActions]
  | cons a as ih =>
    have ha := hr a List.mem_cons_self
    have has := ih (fun x hx => h x (List.mem_cons_of_mem a hx))
      (fun x hx => hr x (List.mem_cons_of_mem a hx))
    cases as with
    | nil => simpa [renderActions] using ha
    | cons b bs =>
      rw [renderActions_cons_cons]
      simp only [List.mem_append, List.mem_cons]
      rintro (h' | h' | h' | h')
      · exact ha h'
      · exact absurd h' (by decide)
      · exact absurd h' (by decide)
      · exact has h'

/-! ### Blocks -/

/-- A block as written: the exchange name, the symbol, the blanks before `{`, and the actions. -/
structure BlockForm where
  name : List Char
  symbol : List Char
  gap : List Char
  actions : List ActionForm

namespace BlockForm

def render (b : BlockForm) : List Char :=
  b.name ++ '(' :: (b.symbol ++ ')' :: (b.gap ++ '{' :: (renderActions b.actions ++ ['}'])))

def WF (b : BlockForm) : Prop :=
  Word b.name ∧ ')' ∉ b.symbol ∧ (∀ c ∈ b.gap, Text.isBlank c = true) ∧ ∀ a ∈ b.actions, a.WF

def raw (b : BlockForm) : RawBlock := ⟨b.name, b.symbol, renderActions b.actions⟩

def command? (b : BlockForm) : Option CommandBlock :=
  if Text.trimChars b.symbol = [] ∨ b.actions = [] then none
  else some ⟨String.ofList (b.name.map Char.toLower), String.ofList (Text.trimChars b.symbol),
    String.ofList (renderActions b.actions)⟩

end BlockForm

namespace Segment

theorem body?_render {gap body : List Char} (rest : List Char)
    (hg : ∀ c ∈ gap, Text.isBlank c = true) (hb : '}' ∉ body) :
    (body? (gap ++ '{' :: (body ++ '}' :: rest))).map Subtype.val = some (body, rest) := by
  have hp : ∀ c ∈ body, (c != '}') = true := fun c hc => by
    have : c ≠ '}' := fun e => hb (e ▸ hc)
    simpa using this
  have hd : (gap ++ '{' :: (body ++ '}' :: rest)).dropWhile Text.isBlank =
      '{' :: (body ++ '}' :: rest) := by
    rw [List.dropWhile_append_of_pos hg]
    rfl
  unfold body?
  split
  · rename_i more h
    rw [hd] at h
    cases h
    split
    · rename_i r h'
      rw [List.dropWhile_append_of_pos hp] at h'
      cases h'
      simp [List.takeWhile_append_of_pos hp]
    · rename_i h'
      rw [List.dropWhile_append_of_pos hp] at h'
      exact absurd rfl (h' rest)
  · rename_i h
    exact absurd hd (h _)

theorem symbolAndBody_render {symbol tail body rest : List Char} (hs : ')' ∉ symbol)
    (hb : (body? tail).map Subtype.val = some (body, rest)) :
    (symbolAndBody (symbol ++ ')' :: tail)).map Subtype.val = some (symbol, body, rest) := by
  obtain ⟨⟨⟨body', rest'⟩, hlt⟩, hv, heq⟩ := Option.map_eq_some_iff.mp hb
  cases heq
  induction symbol with
  | nil => simp [symbolAndBody, hv]
  | cons c symbol ih =>
    have hc : c ≠ ')' := fun e => hs (by simp [e])
    have ih' := ih fun hm => hs (List.mem_cons_of_mem c hm)
    obtain ⟨r, hr, hre⟩ := Option.map_eq_some_iff.mp ih'
    simp only [List.cons_append, symbolAndBody, hc, if_false]
    rw [hr]
    simp only [Option.map_some, Option.some.injEq]
    rw [hre]

theorem blockAt?_render {b : BlockForm} (hb : b.WF) (rest : List Char) :
    (blockAt? (b.render ++ rest)).map Subtype.val = some (b.raw, rest) := by
  obtain ⟨hn, hs, hg, ha⟩ := hb
  have hsb := symbolAndBody_render hs (body?_render rest hg (not_mem_renderActions ha))
  have hsplit : b.render ++ rest = b.name ++ '(' :: (b.symbol ++ ')' ::
      (b.gap ++ '{' :: (renderActions b.actions ++ '}' :: rest))) := by
    simp [BlockForm.render]
  have hd := hn.dropWhile_name (c := '(') (r := b.symbol ++ ')' ::
    (b.gap ++ '{' :: (renderActions b.actions ++ '}' :: rest))) rfl
  have ht := hn.takeWhile_name (c := '(') (r := b.symbol ++ ')' ::
    (b.gap ++ '{' :: (renderActions b.actions ++ '}' :: rest))) rfl
  rw [hsplit]
  unfold blockAt?
  split
  · rename_i afterParen h
    rw [hd] at h
    cases h
    rw [ht, if_neg hn.1]
    obtain ⟨r, hr, hre⟩ := Option.map_eq_some_iff.mp hsb
    rw [hr]
    simp only [Option.map_some, Option.some.injEq, hre]
    rfl
  · rename_i h
    exact absurd hd (h _)

end Segment

theorem ActionForm.render_trimmed {a : ActionForm} (ha : a.WF) : Text.Trimmed a.render := by
  have hp : Text.isBlank ')' = false := rfl
  have h := ha.1.trimmed.append (m := '(' :: renderArgs a.args)
    (t := [')']) ⟨by simp, by simp [hp], by simp [hp]⟩
  simpa [ActionForm.render] using h

theorem trimChars_renderActions {acts : List ActionForm} (h : ∀ a ∈ acts, a.WF) :
    Text.trimChars (renderActions acts) = renderActions acts := by
  cases acts with
  | nil => rfl
  | cons a as =>
    rw [renderActions, List.map_cons]
    refine (Text.Trimmed.intercalate (fun y hy => ?_) _).trimChars
    rw [← List.map_cons] at hy
    obtain ⟨x, hx, rfl⟩ := List.mem_map.mp hy
    exact ActionForm.render_trimmed (h x hx)

theorem renderActions_eq_nil {acts : List ActionForm} (h : ∀ a ∈ acts, a.WF) :
    renderActions acts = [] ↔ acts = [] := by
  cases acts with
  | nil => simp [renderActions]
  | cons a as =>
    have ht : Text.Trimmed (renderActions (a :: as)) := by
      rw [renderActions, List.map_cons]
      refine Text.Trimmed.intercalate (fun y hy => ?_) _
      rw [← List.map_cons] at hy
      obtain ⟨x, hx, rfl⟩ := List.mem_map.mp hy
      exact ActionForm.render_trimmed (h x hx)
    simp [ht.ne_nil]

theorem Text.lowerFrom_ascii {cs : List Char} (h : ∀ c ∈ cs, c.toNat < 0x80)
    (before : List Char) : Text.lowerFrom before cs = cs.map Char.toLower := by
  induction cs generalizing before with
  | nil => rfl
  | cons c cs ih =>
    have hc := h c List.mem_cons_self
    have h1 : c.toNat ≠ 0x130 := by omega
    have h2 : c.toNat ≠ 0x3A3 := by omega
    simp only [Text.lowerFrom, h1, h2, if_false, Text.lowerChar, hc, if_true, List.map_cons,
      List.singleton_append]
    rw [ih (fun x hx => h x (List.mem_cons_of_mem c hx))]

theorem Word.lower {k : List Char} (h : Word k) :
    Text.lower (String.ofList k) = String.ofList (k.map Char.toLower) := by
  rw [Text.lower, String.toList_ofList, Text.lowerFrom_ascii]
  intro c hc
  have := keyLetter_range (h.2 c hc)
  omega

/-! ### Messages -/

def NoCall (p : List Char) : Prop :=
  ∀ pre c post, p = pre ++ c :: '(' :: post → isNameLetter c = false

theorem noCall_of_no_paren {p : List Char} (h : '(' ∉ p) : NoCall p := by
  rintro pre c post rfl
  simp at h

theorem NoCall.tail {c : Char} {p : List Char} (h : NoCall (c :: p)) : NoCall p :=
  fun pre x post hp => h (c :: pre) x post (by simp [hp])

/-- A message as written: prose, or prose followed by a block and the rest of the message. -/
inductive MessageForm where
  | prose (p : List Char)
  | block (p : List Char) (b : BlockForm) (rest : MessageForm)

namespace MessageForm

def render : MessageForm → List Char
  | prose p => p
  | block p b rest => p ++ (b.render ++ rest.render)

def blocks : MessageForm → List BlockForm
  | prose _ => []
  | block _ b rest => b :: rest.blocks

def proseText : MessageForm → List Char
  | prose p => p
  | block p _ rest => p ++ rest.proseText

/-- Well written: well written blocks, prose with no call in it, and no letter at the end of
prose that a block follows. -/
def WF : MessageForm → Prop
  | prose p => NoCall p
  | block p b rest => NoCall p ∧ (∀ c ∈ p.getLast?, isNameLetter c = false) ∧ b.WF ∧ rest.WF

def segmentsOf : MessageForm → List Segment
  | prose p => p.map .prose
  | block p b rest => p.map .prose ++ .block b.raw :: rest.segmentsOf

end MessageForm

theorem segments_nil : segments [] = [] := by
  rw [segments.eq_def]
  rfl

theorem segments_of_blockAt? {cs rest : List Char} {b : RawBlock}
    (h : (Segment.blockAt? cs).map Subtype.val = some (b, rest)) :
    segments cs = .block b :: segments rest := by
  rw [segments.eq_def]
  split
  · rename_i b' rest' _ h'
    rw [h'] at h
    simp only [Option.map_some, Option.some.injEq, Prod.mk.injEq] at h
    obtain ⟨rfl, rfl⟩ := h
    rfl
  · rename_i h'
    rw [h'] at h
    simp at h

theorem segments_of_no_block {c : Char} {cs : List Char} (h : Segment.blockAt? (c :: cs) = none) :
    segments (c :: cs) = .prose c :: segments cs := by
  rw [segments.eq_def, h]

theorem blockAt?_prose {p rest : List Char} (hne : p ≠ []) (hn : NoCall p)
    (hend : rest = [] ∨ ∀ c ∈ p.getLast?, isNameLetter c = false) :
    Segment.blockAt? (p ++ rest) = none := by
  unfold Segment.blockAt?
  split
  · rename_i after h
    rw [if_pos]
    cases hd : p.dropWhile isNameLetter with
    | nil =>
      -- all of `p` is letters: it runs to the end of the message, so no `(` follows
      have hall : ∀ c ∈ p, isNameLetter c = true := by
        intro c hc
        by_contra hcn
        have := List.dropWhile_eq_nil_iff.mp hd c hc
        exact hcn this
      rcases hend with rfl | hl
      · rw [List.append_nil, hd] at h
        cases h
      · cases hp : p.getLast? with
        | none => exact absurd (List.getLast?_eq_none_iff.mp hp) hne
        | some l =>
          have := hl l hp
          rw [hall l (List.mem_of_mem_getLast? hp)] at this
          cases this
    | cons e d =>
      -- the letters stop inside `p`, at a character that is not `(`
      have hpe : (p ++ rest).dropWhile isNameLetter = e :: (d ++ rest) := by
        rw [List.dropWhile_append, hd]
        rfl
      rw [hpe] at h
      cases h
      rcases List.eq_nil_or_concat (p.takeWhile isNameLetter) with ht | ⟨t, l, ht⟩
      · have hlen : ¬ ([] : List Char).length = p.length := by
          rw [List.length_nil, eq_comm, List.length_eq_zero_iff]
          exact hne
        rw [List.takeWhile_append, ht, if_neg hlen]
      · have hl : isNameLetter l = true :=
          List.mem_takeWhile_imp (show l ∈ p.takeWhile isNameLetter by simp [ht])
        have hsplit : p = t ++ l :: '(' :: d := by
          rw [← List.takeWhile_append_dropWhile (p := isNameLetter) (l := p), ht, hd]
          simp
        rw [hn t l d hsplit] at hl
        cases hl
  · rfl

theorem segments_prose {p rest : List Char} (hn : NoCall p)
    (hend : rest = [] ∨ ∀ c ∈ p.getLast?, isNameLetter c = false) :
    segments (p ++ rest) = p.map .prose ++ segments rest := by
  induction p with
  | nil => rfl
  | cons c p ih =>
    have hend' : rest = [] ∨ ∀ x ∈ p.getLast?, isNameLetter x = false := by
      rcases hend with h | h
      · exact .inl h
      · cases p with
        | nil => exact .inr (by simp)
        | cons y ys => exact .inr fun x hx => h x (by simpa [List.getLast?_cons_cons] using hx)
    have hb : Segment.blockAt? (c :: (p ++ rest)) = none :=
      blockAt?_prose (p := c :: p) (by simp) hn hend
    rw [List.cons_append, segments_of_no_block hb, ih hn.tail hend', List.map_cons,
      List.cons_append]

theorem segments_render {m : MessageForm} (hm : m.WF) : segments m.render = m.segmentsOf := by
  induction m with
  | prose p =>
    simpa [MessageForm.render, MessageForm.segmentsOf, segments_nil] using
      segments_prose hm (.inl rfl)
  | block p b rest ih =>
    obtain ⟨hn, hl, hb, hr⟩ := hm
    rw [MessageForm.render, segments_prose hn (.inr hl),
      segments_of_blockAt? (Segment.blockAt?_render hb _), ih hr]
    rfl

theorem BlockForm.read {b : BlockForm} (hb : b.WF) :
    (if Text.lower (String.ofList (Text.trimChars b.raw.name)) = "" ∨
        String.ofList (Text.trimChars b.raw.symbol) = "" ∨
        String.ofList (Text.trimChars b.raw.body) = "" then none
      else some (⟨Text.lower (String.ofList (Text.trimChars b.raw.name)),
        String.ofList (Text.trimChars b.raw.symbol),
        String.ofList (Text.trimChars b.raw.body)⟩ : CommandBlock)) = b.command? := by
  obtain ⟨hn, -, -, ha⟩ := hb
  simp only [BlockForm.raw, BlockForm.command?, hn.trimmed.trimChars, hn.lower,
    trimChars_renderActions ha, String.ofList_eq_empty_iff, List.map_eq_nil_iff, hn.1,
    renderActions_eq_nil ha, false_or]

theorem MessageForm.WF.blocks {m : MessageForm} (hm : m.WF) : ∀ b ∈ m.blocks, b.WF := by
  induction m with
  | prose p => simp [MessageForm.blocks]
  | block p b rest ih =>
    intro x hx
    rcases List.mem_cons.mp hx with rfl | hx
    · exact hm.2.2.1
    · exact ih hm.2.2.2 x hx

/-- A well written message is read back exactly. The command blocks come out in order, the
exchange lowercased and the symbol trimmed, leaving out blocks whose symbol is blank or that hold
no action; the prose is the message without its blocks; each block's actions come out with their
names, and each action's arguments with their keys, values and places. -/
theorem MessageForm.read_exactly {m : MessageForm} (hm : m.WF) :
    commandBlocks (String.ofList m.render) = m.blocks.filterMap BlockForm.command? ∧
    TradeDesk.prose (String.ofList m.render) = String.ofList m.proseText ∧
    ∀ b ∈ m.blocks,
      parseActions (String.ofList (renderActions b.actions)) = b.actions.map ActionForm.meaning ∧
      ∀ a ∈ b.actions, parseArguments (String.ofList (renderArgs a.args)) =
        a.args.zipIdx.map fun (x, i) => x.meaning i := by
  have hseg := segments_render hm
  refine ⟨?_, ?_, fun b hb => ⟨parseActions_renderActions (hm.blocks b hb).2.2.2,
    fun a ha => parseArguments_renderArgs ((hm.blocks b hb).2.2.2 a ha).2⟩⟩
  · -- the blocks: prose segments give nothing, each block segment its command
    unfold commandBlocks
    rw [String.toList_ofList, hseg]
    clear hseg
    induction m with
    | prose p => simp [MessageForm.segmentsOf, MessageForm.blocks, List.filterMap_map]
    | block p b rest ih =>
      obtain ⟨-, -, hb, hr⟩ := hm
      simp only [MessageForm.segmentsOf, MessageForm.blocks, List.filterMap_append,
        List.filterMap_map, List.filterMap_cons, ih hr]
      rw [BlockForm.read hb]
      simp
  · -- the prose: every prose segment gives its character
    unfold TradeDesk.prose
    rw [String.toList_ofList, hseg]
    congr 1
    clear hseg
    induction m with
    | prose p => simp [MessageForm.segmentsOf, MessageForm.proseText, List.filterMap_map]
    | block p b rest ih =>
      simp [MessageForm.segmentsOf, MessageForm.proseText, List.filterMap_map, ih hm.2.2.2]

/-- Quotes protect commas only. A `}` in quoted text ends the block, a `)` in quoted text ends the
action (and what follows may read as another action), and blanks before the `=` of a plain value
make it named. -/
theorem quoted_closers_and_spaced_keys_misread :
    commandBlocks (String.ofList (MessageForm.block [] ⟨['x'], ['S'], [],
        [⟨['a'], [.quoted ['}']]⟩]⟩ (.prose [])).render) ≠ [⟨"x", "S", "a(\"\x7d\")"⟩] ∧
    parseActions (String.ofList (renderActions [⟨['a'], [.quoted "x)y(z".toList]⟩])) ≠
      [⟨"a", [⟨"", "x)y(z", 0⟩]⟩] ∧
    parseArguments (String.ofList (renderArgs [.plain "a =b".toList])) ≠ [⟨"", "a =b", 0⟩] := by
  decide +kernel

def orderMessage : MessageForm :=
  .block "Buy the dip: ".toList
    ⟨"paper".toList, "BTCUSD".toList, " ".toList,
      [⟨"limitOrder".toList,
          [.plain "buy".toList, .plain "12".toList, .namedQuoted "msg".toList "a, b".toList]⟩,
        ⟨"wait".toList, [.plain "5s".toList]⟩]⟩
    (.prose " done".toList)

theorem orderMessage_wf : orderMessage.WF := by
  -- the checks over characters go through the instances for lists and options by name, since a
  -- search may find one that decides over every character instead
  refine ⟨noCall_of_no_paren (by decide), @of_decide_eq_true _ (Option.decidableForallMem _) rfl,
    ⟨by decide, by decide, List.all_eq_true.1 (by decide), ?_⟩, noCall_of_no_paren (by decide)⟩
  simp only [List.mem_cons, List.not_mem_nil, or_false, forall_eq_or_imp, forall_eq]
  refine ⟨⟨by decide, ?_⟩, ⟨by decide, ?_⟩⟩ <;>
    simp only [List.mem_cons, List.not_mem_nil, or_false, forall_eq_or_imp, forall_eq]
  · exact ⟨⟨by decide, not_looksNamed (by decide)⟩, ⟨by decide, not_looksNamed (by decide)⟩,
      ⟨by decide, by decide⟩⟩
  · exact ⟨by decide, not_looksNamed (by decide)⟩

theorem orderMessage_read_exactly : orderMessage.WF ∧
    (commandBlocks (String.ofList orderMessage.render) =
      orderMessage.blocks.filterMap BlockForm.command? ∧
    TradeDesk.prose (String.ofList orderMessage.render) = String.ofList orderMessage.proseText ∧
    ∀ b ∈ orderMessage.blocks,
      parseActions (String.ofList (renderActions b.actions)) = b.actions.map ActionForm.meaning ∧
      ∀ a ∈ b.actions, parseArguments (String.ofList (renderArgs a.args)) =
        a.args.zipIdx.map fun (x, i) => x.meaning i) :=
  ⟨orderMessage_wf, MessageForm.read_exactly orderMessage_wf⟩

end TradeDesk
