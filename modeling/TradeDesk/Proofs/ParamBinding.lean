import TradeDesk.Proofs.NameLookup

/-!
Binding arguments to parameters: a parameter ends with its last named argument, else its last
positional one, else its default (`Params.assign_binds`).
-/

namespace TradeDesk

namespace Assoc

variable {α β γ : Type} [BEq α] [LawfulBEq α]

/-- One write of a run driven by a list: an item writes its value under its target key, when it
has one, and leaves the table alone otherwise. -/
def writeStep (target : γ → Option α) (value : γ → β) (acc : List (α × β)) (x : γ) :
    List (α × β) :=
  match target x with
  | some k => set acc k (value x)
  | none => acc

theorem find?_foldl_writeStep (target : γ → Option α) (value : γ → β) (xs : List γ)
    (acc : List (α × β)) (k : α) :
    find? (xs.foldl (writeStep target value) acc) k =
      ((xs.reverse.find? fun x => target x == some k).map value).or (find? acc k) := by
  induction xs generalizing acc with
  | nil => simp
  | cons x xs ih =>
    rw [List.foldl_cons, ih, List.reverse_cons, List.find?_append]
    unfold writeStep
    split
    · rename_i k' hx
      rw [find?_set]
      by_cases hk : k = k'
      · subst hk
        cases xs.reverse.find? fun x => target x == some k <;> simp [hx]
      · have hne : (some k' == some k) = false := by simpa using Ne.symm hk
        simp [hx, hne, hk]
    · rename_i hx
      simp [hx]

theorem keys_foldl_writeStep (target : γ → Option α) (value : γ → β) (xs : List γ)
    (acc : List (α × β)) (h : ∀ x ∈ xs, ∀ k, target x = some k → k ∈ keys acc) :
    keys (xs.foldl (writeStep target value) acc) = keys acc := by
  induction xs generalizing acc with
  | nil => rfl
  | cons x xs ih =>
    have hstep : keys (writeStep target value acc x) = keys acc := by
      unfold writeStep
      split
      · rename_i k hx
        obtain ⟨p, hp, rfl⟩ := List.mem_map.1 (h x (by simp) k hx)
        exact keys_set_of_mem acc _ _ (List.any_eq_true.2 ⟨p, hp, beq_self_eq_true _⟩)
      · rfl
    rw [List.foldl_cons, ih _ fun y hy k hk => hstep ▸ h y (by simp [hy]) k hk, hstep]

theorem find?_ofPairs (xs : List (α × β)) (k : α) :
    find? (ofPairs xs) k = (xs.reverse.find? fun p => p.1 == k).map (·.2) := by
  have hfold : ofPairs xs = xs.foldl (writeStep (fun p => some p.1) (·.2)) [] := rfl
  rw [hfold, find?_foldl_writeStep]
  simp [find?]

theorem ofPairs_of_nodup {xs : List (α × β)} (h : (keys xs).Nodup) : ofPairs xs = xs := by
  suffices ∀ acc : List (α × β), (keys (acc ++ xs)).Nodup →
      xs.foldl (fun acc p => set acc p.1 p.2) acc = acc ++ xs from this [] h
  clear h
  induction xs with
  | nil => simp
  | cons p xs ih =>
    intro acc hn
    have hfresh : acc.any (·.1 == p.1) = false := by
      simp only [keys, List.map_append, List.map_cons, List.nodup_append, List.mem_cons,
        List.mem_map] at hn
      simp only [List.any_eq_false, beq_iff_eq]
      intro q hq hqp
      exact hn.2.2 _ ⟨q, hq, rfl⟩ _ (.inl rfl) hqp
    have hset : set acc p.1 p.2 = acc ++ [p] := by simp [set, hfresh]
    rw [List.foldl_cons, hset, ih (acc ++ [p]) (by simpa using hn)]
    simp

theorem eq_map_of_find? {xs ys : List (α × β)} (hk : keys ys = keys xs) (hn : (keys xs).Nodup)
    (f : α × β → β) (hf : ∀ p ∈ xs, find? ys p.1 = some (f p)) :
    ys = xs.map fun p => (p.1, f p) := by
  have hlen : ys.length = xs.length := by simpa [keys] using congrArg List.length hk
  apply List.ext_getElem (by simpa using hlen)
  intro i hy hx
  have hx' : i < xs.length := by simpa using hx
  have hkey : ys[i].1 = xs[i].1 := by
    have := List.getElem_of_eq hk (by simpa [keys] using hy)
    simpa [keys] using this
  have hfind : find? ys ys[i].1 = some ys[i].2 :=
    find?_of_mem (hk ▸ hn) (List.getElem_mem hy)
  rw [hkey, hf _ (List.getElem_mem hx')] at hfind
  simp only [List.getElem_map]
  exact Prod.ext hkey (Option.some.inj hfind).symm

end Assoc

namespace Params

/-! ### The binding rule -/

def lastOfCase (keys : List String) (k : String) : Bool :=
  keys.reverse.find? (fun k' => Text.lower k' == Text.lower k) == some k

def setsByName (keys : List String) (k : String) (a : Argument) : Bool :=
  a.name != "" && Text.lower a.name == Text.lower k && lastOfCase keys k

def setsByPlace (keys : List String) (k : String) (a : Argument) : Bool :=
  a.name == "" && keys[a.index]? == some k

/-- The value parameter `k` with default `d` is bound to: that of the last argument setting it by
name, else that of the last setting it by place, else `d`. -/
def boundValue (keys : List String) (args : List Argument) (k d : String) : String :=
  match args.reverse.find? (setsByName keys k), args.reverse.find? (setsByPlace keys k) with
  | some a, _ => a.value
  | none, some a => a.value
  | none, none => d

/-! ### The two passes as runs of writes -/

def placeTarget (keys : List String) (a : Argument) : Option String :=
  if a.name = "" then keys[a.index]? else none

def nameTarget (index : List (String × String)) (a : Argument) : Option String :=
  if a.name = "" then none
  else
    match Assoc.find? index (Text.lower a.name) with
    | some k => if k = "" then none else some k
    | none => none

theorem assign_eq_writes (defaults : List (String × String)) (args : List Argument) :
    assign defaults args =
      let params := Assoc.ofPairs defaults
      let keys := Assoc.keys params
      args.foldl (Assoc.writeStep (nameTarget (lowerIndex keys)) (·.value))
        (args.foldl (Assoc.writeStep (placeTarget keys) (·.value)) params) := by
  unfold assign
  dsimp only
  congr 1
  · funext acc a
    unfold Assoc.writeStep nameTarget
    by_cases ha : a.name = ""
    · simp [ha]
    · simp only [ha, if_false]
      cases Assoc.find? (lowerIndex (Assoc.keys (Assoc.ofPairs defaults))) (Text.lower a.name) with
      | none => rfl
      | some k =>
        by_cases hk : k = ""
        · simp only [hk, if_true]
        · simp only [hk, if_false]
  · congr 1
    funext acc a
    unfold Assoc.writeStep placeTarget
    by_cases ha : a.name = ""
    · simp only [ha, if_true]
      cases (Assoc.keys (Assoc.ofPairs defaults))[a.index]? <;> rfl
    · simp [ha]

theorem find?_lowerIndex (keys : List String) (name : String) :
    Assoc.find? (lowerIndex keys) (Text.lower name) =
      keys.reverse.find? fun k' => Text.lower k' == Text.lower name := by
  rw [lowerIndex, Assoc.find?_ofPairs, ← List.map_reverse, List.find?_map, Option.map_map]
  simp only [Function.comp_def]
  cases keys.reverse.find? fun k' => Text.lower k' == Text.lower name <;> rfl

theorem lower_ne_empty {s : String} (h : s ≠ "") : Text.lower s ≠ "" := by
  intro hl
  have : Text.lowerFrom [] s.toList = [] := by simpa [Text.lower] using congrArg String.toList hl
  exact h (String.toList_eq_nil_iff.1 (lowerFrom_eq_nil [] this))

theorem placeTarget_eq_some (keys : List String) (k : String) (a : Argument) :
    (placeTarget keys a == some k) = setsByPlace keys k a := by
  unfold placeTarget setsByPlace
  by_cases ha : a.name = "" <;> simp [ha]

theorem nameTarget_eq_some (keys : List String) (k : String) (a : Argument) :
    (nameTarget (lowerIndex keys) a == some k) = setsByName keys k a := by
  unfold nameTarget setsByName lastOfCase
  by_cases ha : a.name = ""
  · simp [ha]
  rw [if_neg ha, find?_lowerIndex]
  by_cases hlow : Text.lower a.name = Text.lower k
  · -- the name and `k` look for the same lowercase form
    rw [← hlow]
    cases hf : keys.reverse.find? (fun k' => Text.lower k' == Text.lower a.name) with
    | none => simp
    | some k' =>
      have hk' : k' ≠ "" := by
        rintro rfl
        have hempty : Text.lower "" = Text.lower a.name := by simpa using List.find?_some hf
        exact lower_ne_empty ha (hempty.symm.trans (by decide))
      simp [hk', ha]
  · cases hf : keys.reverse.find? (fun k' => Text.lower k' == Text.lower a.name) with
    | none => simp [hlow]
    | some k' =>
      have hk'low : Text.lower k' = Text.lower a.name := by simpa using List.find?_some hf
      have hne : k' ≠ k := fun e => hlow (e ▸ hk'low).symm
      by_cases hk0 : k' = ""
      · simp [hk0, hlow]
      · simp [hk0, beq_eq_false_iff_ne.2 hne, beq_eq_false_iff_ne.2 hlow]

theorem placeTarget_mem (keys : List String) (a : Argument) (k : String)
    (h : placeTarget keys a = some k) : k ∈ keys := by
  unfold placeTarget at h
  split at h
  · exact List.mem_of_getElem? h
  · cases h

theorem nameTarget_mem (keys : List String) (a : Argument) (k : String)
    (h : nameTarget (lowerIndex keys) a = some k) : k ∈ keys := by
  unfold nameTarget at h
  split at h
  · cases h
  · rw [find?_lowerIndex] at h
    split at h
    · rename_i k' hk'
      split at h
      · cases h
      · cases h
        exact List.mem_reverse.1 (List.mem_of_find?_eq_some hk')
    · cases h

/-! ### Binding -/

theorem keys_assign (defaults : List (String × String)) (hd : (Assoc.keys defaults).Nodup)
    (args : List Argument) : Assoc.keys (assign defaults args) = Assoc.keys defaults := by
  rw [assign_eq_writes, Assoc.ofPairs_of_nodup hd]
  simp only
  set keys := Assoc.keys defaults
  set positional := args.foldl (Assoc.writeStep (placeTarget keys) (·.value)) defaults
  -- the positional pass writes only parameters, and so does the named pass after it
  have hpos : Assoc.keys positional = keys :=
    Assoc.keys_foldl_writeStep _ _ _ _ fun a _ k hk => placeTarget_mem keys a k hk
  rw [Assoc.keys_foldl_writeStep _ _ _ _ fun a _ k hk => hpos ▸ nameTarget_mem keys a k hk, hpos]

/-- Binding keeps the parameters of a table with distinct keys, in order, and binds each to the
value of the last argument setting it by name, else of the last setting it by place, else to its
default. -/
theorem assign_binds (defaults : List (String × String)) (hd : (Assoc.keys defaults).Nodup)
    (args : List Argument) :
    assign defaults args =
      defaults.map fun p => (p.1, boundValue (Assoc.keys defaults) args p.1 p.2) := by
  rw [assign_eq_writes, Assoc.ofPairs_of_nodup hd]
  simp only
  set keys := Assoc.keys defaults
  set positional := args.foldl (Assoc.writeStep (placeTarget keys) (·.value)) defaults
  have hpos : Assoc.keys positional = keys :=
    Assoc.keys_foldl_writeStep _ _ _ _ fun a _ k hk => placeTarget_mem keys a k hk
  apply Assoc.eq_map_of_find? _ hd
  · intro p hp
    rw [Assoc.find?_foldl_writeStep, Assoc.find?_foldl_writeStep,
      Assoc.find?_of_mem hd hp]
    simp only [nameTarget_eq_some, placeTarget_eq_some, boundValue]
    cases args.reverse.find? (setsByName keys p.1) <;>
      cases args.reverse.find? (setsByPlace keys p.1) <;> rfl
  · rw [Assoc.keys_foldl_writeStep _ _ _ _ fun a _ k hk => hpos ▸ nameTarget_mem keys a k hk,
      hpos]

theorem assign_binds_case_twins :
    (Assoc.keys [("side", "buy"), ("Tag", ""), ("tag", "")]).Nodup ∧
      assign [("side", "buy"), ("Tag", ""), ("tag", "")]
          [⟨"", "first", 1⟩, ⟨"TAG", "named", 2⟩, ⟨"", "placed", 1⟩] =
        [("side", "buy"), ("Tag", ""), ("tag", "")].map fun p =>
          (p.1, boundValue (Assoc.keys [("side", "buy"), ("Tag", ""), ("tag", "")])
            [⟨"", "first", 1⟩, ⟨"TAG", "named", 2⟩, ⟨"", "placed", 1⟩] p.1 p.2) :=
  ⟨by decide, assign_binds _ (by decide) _⟩

example : assign [("side", "buy"), ("Tag", ""), ("tag", "")]
    [⟨"", "first", 1⟩, ⟨"TAG", "named", 2⟩, ⟨"", "placed", 1⟩] =
    [("side", "buy"), ("Tag", "placed"), ("tag", "named")] := by decide +kernel

end Params

end TradeDesk
