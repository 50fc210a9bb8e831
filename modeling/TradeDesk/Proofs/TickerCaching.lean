import TradeDesk.Proofs.FloatOrder
import TradeDesk.Proofs.DeskSharing
import TradeDesk.Proofs.Refusals

/-!
Quotes kept for a time. A cache library with the laws of `TickerCache.Library.Lawful` follows the
rule of a time-to-live cache over calls in order and keys within its capacity (`follows_ttl_rule`).
-/

namespace TradeDesk

/-- A call for a quote as the cache meets it: the key, the times the call starts and ends, the
quote it hands out and whether it asked the exchange. -/
structure TickerCall where
  key : String × String
  start : Float
  finish : Float
  quote : Ticker
  asked : Bool

/-- A quote fetched from the exchange: the key, when the fetching call started, the time the quote
was kept from and the quote. -/
structure Fetch where
  key : String × String
  start : Float
  kept : Float
  quote : Ticker

namespace Fetch

def latest (hist : List Fetch) (key : String × String) : Option Fetch :=
  (hist.filter (·.key == key)).getLast?

def freshFor (ttl : Float) (key : String × String) (now : Float) (f : Fetch) : Bool :=
  f.key == key && now < f.kept + ttl

theorem latest_append_self (hist : List Fetch) (f : Fetch) : latest (hist ++ [f]) f.key = some f := by
  simp [latest, List.filter_append]

theorem latest_append_of_ne (hist : List Fetch) {f : Fetch} {key : String × String}
    (h : f.key ≠ key) : latest (hist ++ [f]) key = latest hist key := by
  simp [latest, List.filter_append, h]

theorem latest_spec {hist : List Fetch} {key : String × String} {f : Fetch}
    (h : latest hist key = some f) : f ∈ hist ∧ f.key = key := by
  have hm := List.mem_of_getLast? h
  simp only [List.mem_filter, beq_iff_eq] at hm
  exact hm

theorem latest_of_mem {hist : List Fetch} {g : Fetch} (hg : g ∈ hist) :
    ∃ f, latest hist g.key = some f := by
  cases hl : latest hist g.key with
  | none =>
    simp only [latest, List.getLast?_eq_none_iff, List.filter_eq_nil_iff, beq_iff_eq] at hl
    exact absurd rfl (hl g hg)
  | some f => exact ⟨f, rfl⟩

theorem latest_last {R : Fetch → Fetch → Prop} {hist : List Fetch} (hR : hist.Pairwise R)
    {key : String × String} {f g : Fetch} (hf : latest hist key = some f) (hg : g ∈ hist)
    (hk : g.key = key) : g = f ∨ R g f := by
  set l := hist.filter (·.key == key) with hl
  have hsplit : l = l.dropLast ++ [f] := (List.dropLast_append_getLast? f hf).symm
  have hgl : g ∈ l.dropLast ++ [f] := by
    rw [← hsplit, hl, List.mem_filter]
    exact ⟨hg, by simp [hk]⟩
  have hpair : (l.dropLast ++ [f]).Pairwise R := hsplit ▸ hR.sublist List.filter_sublist
  rcases List.mem_append.1 hgl with hg' | hg'
  · exact .inr (List.pairwise_append.1 hpair |>.2.2 g hg' f List.mem_cons_self)
  · exact .inl (List.mem_singleton.1 hg')

end Fetch

namespace TickerCall

def toFetch (a : TickerCall) : Fetch := ⟨a.key, a.start, a.finish, a.quote⟩

/-- The rule of a time-to-live cache over a history of fetches: a call asks the exchange exactly
when no fetch of its key is fresh at its start, and hands out the quote of the latest fetch of its
key; a call that asks hands out what it fetched, and the fetch joins the history. -/
def expected (ttl : Float) : List Fetch → List TickerCall → List (Ticker × Bool)
  | _, [] => []
  | hist, a :: as =>
    if hist.any (Fetch.freshFor ttl a.key a.start) then
      (((Fetch.latest hist a.key).map (·.quote)).getD a.quote, false) :: expected ttl hist as
    else (a.quote, true) :: expected ttl (hist ++ [a.toFetch]) as

def InOrder : Float → List TickerCall → Prop
  | _, [] => True
  | now, a :: as => now ≤ a.start ∧ a.start ≤ a.finish ∧ InOrder a.finish as

end TickerCall

namespace TickerCache

def liveOthers (c : TickerCache) (now : Float) (key : String × String) :
    List ((String × String) × Ticker × Float) :=
  (c.entries.filter fun e => now < e.2.2).filter (·.1 != key)

/-- What the theory assumes of a time-to-live cache library, said of the quotes it keeps. A quote
is served exactly while its expiry is ahead (`TickerCache.get?`), and marking a key used only
reorders the quotes. Keeping a quote at `now` drops the expired quotes and the key's old one and
adds the new one, to live for the time to live; a key new to the cache makes room beyond the
capacity by evicting the least recently used. -/
structure Library.Lawful (L : Library) : Prop where
  serves_until_ttl : ∀ c now key, L.get? c now key = c.get? now key
  use_ttl : ∀ c key, (L.use c key).ttl = c.ttl
  use_reorders : ∀ c key, (L.use c key).entries.Perm c.entries
  put_ttl : ∀ c now key t, (L.put c now key t).ttl = c.ttl
  evicts_least_recent : ∀ c now key t, (L.put c now key t).entries =
    (if (c.entries.filter fun e => now < e.2.2).any (·.1 == key) then c.liveOthers now key
      else (c.liveOthers now key).drop ((c.liveOthers now key).length + 1 - capacity)) ++
      [(key, t, now + c.ttl)]

theorem standard_lawful : standard.Lawful where
  serves_until_ttl _ _ _ := rfl
  use_ttl _ _ := rfl
  use_reorders c key :=
    List.perm_append_comm.trans (List.filter_append_perm (·.1 == key) c.entries)
  put_ttl _ _ _ _ := rfl
  evicts_least_recent _ _ _ _ := rfl

/-- What a cache hands out to calls made one after another, and whether each asks the exchange:
a quote kept and valid at the call's start is handed out and marked used; otherwise the call's own
fetch is handed out and kept from the time the call ends. -/
def serve (L : Library) (c : TickerCache) : List TickerCall → List (Ticker × Bool)
  | [] => []
  | a :: as =>
    match L.get? c a.start a.key with
    | some t => (t, false) :: serve L (L.use c a.key) as
    | none => (a.quote, true) :: serve L (L.put c a.finish a.key a.quote) as

variable {L : Library}

theorem put_entries_of_fits (hL : L.Lawful) {c : TickerCache} {now : Float}
    {key : String × String} {t : Ticker} (h : (c.liveOthers now key).length + 1 ≤ capacity) :
    (L.put c now key t).entries = c.liveOthers now key ++ [(key, t, now + c.ttl)] := by
  rw [hL.evicts_least_recent]
  split
  · rfl
  · rw [Nat.sub_eq_zero_of_le h, List.drop_zero]

theorem put_keys_nodup (hL : L.Lawful) {c : TickerCache} {now : Float} {key : String × String}
    {t : Ticker} (hc : (Assoc.keys c.entries).Nodup)
    (h : (c.liveOthers now key).length + 1 ≤ capacity) :
    (Assoc.keys (L.put c now key t).entries).Nodup := by
  rw [put_entries_of_fits hL h]
  simp only [Assoc.keys, List.map_append, List.map_cons, List.map_nil]
  refine List.nodup_append.2 ⟨?_, List.nodup_singleton _, ?_⟩
  · exact ((List.filter_sublist.trans List.filter_sublist).map _).nodup hc
  · -- the quotes kept are of other keys than the new one
    intro k hk k' hk'
    simp only [liveOthers, List.mem_map, List.mem_filter, bne_iff_ne] at hk
    obtain ⟨e, ⟨-, hne⟩, rfl⟩ := hk
    rw [List.mem_singleton.1 hk']
    exact hne

/-- The cache reflects a history of fetches at time `now`, over the keys `K`: its keys are
distinct, it holds each key's latest fetch until that fetch expires and nothing else, every
fetch is of a key of `K` and lies in the past, and a key was fetched only once its earlier fetches
had gone stale. -/
structure Reflects (c : TickerCache) (K : Finset (String × String)) (hist : List Fetch)
    (now : Float) : Prop where
  nodup : (Assoc.keys c.entries).Nodup
  held : ∀ e ∈ c.entries, ∃ f, Fetch.latest hist e.1 = some f ∧ e.2 = (f.quote, f.kept + c.ttl)
  kept : ∀ key f, Fetch.latest hist key = some f →
    (key, f.quote, f.kept + c.ttl) ∈ c.entries ∨ ¬ now < f.kept + c.ttl
  keys : ∀ f ∈ hist, f.key ∈ K
  past : ∀ f ∈ hist, f.start ≤ f.kept ∧ f.kept ≤ now
  stale : hist.Pairwise fun f g => f.key = g.key → ¬ g.start < f.kept + c.ttl

theorem reflects_empty (ttl now : Float) (K : Finset (String × String)) :
    Reflects ⟨ttl, []⟩ K [] now where
  nodup := List.nodup_nil
  held := by simp
  kept := by simp [Fetch.latest]
  keys := by simp
  past := by simp
  stale := List.Pairwise.nil

namespace Reflects

variable {c : TickerCache} {K : Finset (String × String)} {hist : List Fetch} {now t : Float}
  {key : String × String}

theorem get?_some (h : c.Reflects K hist now) {q : Ticker} (hq : c.get? t key = some q) :
    ∃ f, Fetch.latest hist key = some f ∧ t < f.kept + c.ttl ∧ q = f.quote := by
  unfold get? at hq
  split at hq
  · next q' e hfind =>
    obtain ⟨f, hf, he⟩ := h.held _ (Assoc.mem_of_find? hfind)
    simp only [Prod.mk.injEq] at he
    obtain ⟨rfl, rfl⟩ := he
    split at hq
    · next hlt => exact ⟨f, hf, hlt, (Option.some.inj hq).symm⟩
    · cases hq
  · cases hq

theorem get?_latest (h : c.Reflects K hist now) (ht : now ≤ t) {f : Fetch}
    (hf : Fetch.latest hist key = some f) (hfresh : t < f.kept + c.ttl) :
    c.get? t key = some f.quote := by
  rcases h.kept key f hf with hmem | hstale
  · simp [get?, Assoc.find?_of_mem h.nodup hmem, hfresh]
  · exact absurd (Float.lt_of_le_of_lt ht hfresh) hstale

/-- Some fetch of a key is fresh at a later time exactly when its latest fetch is. -/
theorem any_fresh_iff (h : c.Reflects K hist now) (ht : now ≤ t) :
    hist.any (Fetch.freshFor c.ttl key t) = true ↔
      ∃ f, Fetch.latest hist key = some f ∧ t < f.kept + c.ttl := by
  simp only [List.any_eq_true, Fetch.freshFor, Bool.and_eq_true, beq_iff_eq, decide_eq_true_eq]
  constructor
  · rintro ⟨g, hg, rfl, hfresh⟩
    obtain ⟨f, hf⟩ := Fetch.latest_of_mem hg
    refine ⟨f, hf, ?_⟩
    -- a fetch after `g` was made only once `g` had gone stale, which it has not by `t`
    rcases Fetch.latest_last h.stale hf hg rfl with rfl | hstale
    · exact hfresh
    · obtain ⟨hfm, hfk⟩ := Fetch.latest_spec hf
      have hft : f.start ≤ t := Float.le_trans (h.past f hfm).1 (Float.le_trans (h.past f hfm).2 ht)
      exact absurd (Float.lt_of_le_of_lt hft hfresh) (hstale hfk.symm)
  · rintro ⟨f, hf, hfresh⟩
    obtain ⟨hfm, hfk⟩ := Fetch.latest_spec hf
    exact ⟨f, hfm, hfk, hfresh⟩

theorem any_fresh_eq_false (h : c.Reflects K hist now) (ht : now ≤ t)
    (hmiss : c.get? t key = none) : hist.any (Fetch.freshFor c.ttl key t) = false := by
  rw [Bool.eq_false_iff]
  intro hany
  obtain ⟨f, hf, hfresh⟩ := (h.any_fresh_iff ht).1 hany
  rw [h.get?_latest ht hf hfresh] at hmiss
  cases hmiss

theorem later (h : c.Reflects K hist now) (ht : now ≤ t) : c.Reflects K hist t where
  nodup := h.nodup
  held := h.held
  kept key f hf := (h.kept key f hf).imp_right fun hs hlt => hs (Float.lt_of_le_of_lt ht hlt)
  keys := h.keys
  past f hf := ⟨(h.past f hf).1, Float.le_trans (h.past f hf).2 ht⟩
  stale := h.stale

theorem use (h : c.Reflects K hist now) (hL : L.Lawful) (key : String × String) :
    (L.use c key).Reflects K hist now := by
  have hp := hL.use_reorders c key
  have ht := hL.use_ttl c key
  refine ⟨(hp.map Prod.fst).nodup_iff.2 h.nodup, fun e he => ?_, fun key' f hf => ?_, h.keys,
    h.past, ht ▸ h.stale⟩
  · exact ht ▸ h.held e (hp.mem_iff.1 he)
  · exact ht ▸ (h.kept key' f hf).imp_left hp.mem_iff.2

theorem others_fit (h : c.Reflects K hist now) (t : Float) (hK : key ∈ K)
    (hcap : K.card ≤ capacity) : (c.liveOthers t key).length + 1 ≤ capacity := by
  set others := c.liveOthers t key
  have hsub : others.Sublist c.entries := List.filter_sublist.trans List.filter_sublist
  have hnodup : (others.map Prod.fst).Nodup := (hsub.map Prod.fst).nodup h.nodup
  have hin : (others.map Prod.fst).toFinset ⊆ K.erase key := by
    intro k hk
    simp only [List.mem_toFinset, List.mem_map] at hk
    obtain ⟨e, he, rfl⟩ := hk
    have hne : e.1 ≠ key := by
      simpa [others, List.mem_filter] using (List.mem_filter.1 he).2
    obtain ⟨f, hf, -⟩ := h.held e (hsub.subset he)
    obtain ⟨hfm, hfk⟩ := Fetch.latest_spec hf
    exact Finset.mem_erase.2 ⟨hne, hfk ▸ h.keys f hfm⟩
  have hlen : others.length ≤ K.card - 1 := by
    calc others.length = (others.map Prod.fst).toFinset.card := by
          rw [List.toFinset_card_of_nodup hnodup, List.length_map]
      _ ≤ (K.erase key).card := Finset.card_le_card hin
      _ = K.card - 1 := Finset.card_erase_of_mem hK
  have hpos : 0 < K.card := Finset.card_pos.2 ⟨key, hK⟩
  omega

/-- A call that found nothing keeps its fetch: the cache then reflects the history with the fetch
added, at the time the call ends. -/
theorem put (h : c.Reflects K hist now) (hL : L.Lawful) {a : TickerCall} (hstart : now ≤ a.start)
    (hfinish : a.start ≤ a.finish) (hmiss : c.get? a.start a.key = none) (hK : a.key ∈ K)
    (hcap : K.card ≤ capacity) :
    (L.put c a.finish a.key a.quote).Reflects K (hist ++ [a.toFetch]) a.finish := by
  have hnow : now ≤ a.finish := Float.le_trans hstart hfinish
  have hentries := put_entries_of_fits hL (t := a.quote) (h.others_fit a.finish hK hcap)
  have hmem : ∀ e, e ∈ (L.put c a.finish a.key a.quote).entries ↔
      (e ∈ c.entries ∧ e.1 ≠ a.key ∧ a.finish < e.2.2) ∨ e = (a.key, a.quote, a.finish + c.ttl) := by
    intro e
    simp [hentries, liveOthers, List.mem_filter]
  have hfresh := h.any_fresh_eq_false hstart hmiss
  have hT := hL.put_ttl c a.finish a.key a.quote
  refine ⟨?nodup, ?held, ?kept, ?keys, ?past, ?stale⟩
  case nodup => exact put_keys_nodup hL h.nodup (h.others_fit a.finish hK hcap)
  case held =>
    rw [hT]
    intro e he
    rcases (hmem e).1 he with ⟨he, hne, -⟩ | rfl
    · obtain ⟨f, hf, hef⟩ := h.held e he
      exact ⟨f, (Fetch.latest_append_of_ne hist (Ne.symm hne)).trans hf, hef⟩
    · exact ⟨a.toFetch, Fetch.latest_append_self hist a.toFetch, rfl⟩
  case kept =>
    rw [hT]
    intro key' g hg
    by_cases hk : key' = a.key
    · subst hk
      obtain rfl : a.toFetch = g :=
        Option.some.inj ((Fetch.latest_append_self hist a.toFetch).symm.trans hg)
      exact .inl ((hmem _).2 (.inr rfl))
    · rw [Fetch.latest_append_of_ne hist (Ne.symm hk)] at hg
      rcases h.kept key' g hg with hin | hstale
      · by_cases hlive : a.finish < g.kept + c.ttl
        · exact .inl ((hmem _).2 (.inl ⟨hin, hk, hlive⟩))
        · exact .inr hlive
      · exact .inr fun hlt => hstale (Float.lt_of_le_of_lt hnow hlt)
  case keys =>
    intro f hf
    rcases List.mem_append.1 hf with hf | hf
    · exact h.keys f hf
    · rw [List.mem_singleton.1 hf]
      exact hK
  case past =>
    intro f hf
    rcases List.mem_append.1 hf with hf | hf
    · exact ⟨(h.past f hf).1, Float.le_trans (h.past f hf).2 hnow⟩
    · rw [List.mem_singleton.1 hf]
      exact ⟨hfinish, Float.le_refl_of_number (Float.isNaN_of_le hfinish).2⟩
  case stale =>
    rw [hT]
    refine List.pairwise_append.2 ⟨h.stale, List.pairwise_singleton _ _, ?_⟩
    -- the new fetch was made because no earlier fetch of its key was fresh
    intro f hf g hg hk hlt
    rw [List.mem_singleton.1 hg] at hk hlt
    simp only [TickerCall.toFetch] at hk hlt
    rw [List.any_eq_false] at hfresh
    exact hfresh f hf (by simp [Fetch.freshFor, hk, hlt])

end Reflects

theorem serve_eq_expected (hL : L.Lawful) {K : Finset (String × String)}
    (hcap : K.card ≤ capacity) (calls : List TickerCall) :
    ∀ {c : TickerCache} {hist : List Fetch} {now : Float}, c.Reflects K hist now →
      TickerCall.InOrder now calls → (∀ a ∈ calls, a.key ∈ K) →
      serve L c calls = TickerCall.expected c.ttl hist calls := by
  induction calls with
  | nil => intros; rfl
  | cons a as ih =>
    intro c hist now h horder hK
    obtain ⟨hstart, hfinish, hrest⟩ := horder
    have hnow : now ≤ a.finish := Float.le_trans hstart hfinish
    have hKs : ∀ b ∈ as, b.key ∈ K := fun b hb => hK b (List.mem_cons_of_mem _ hb)
    have hserves := hL.serves_until_ttl c a.start a.key
    cases hget : c.get? a.start a.key with
    | some q =>
      -- a hit hands out the latest fetch, which the rule finds fresh
      obtain ⟨f, hf, hfresh, rfl⟩ := h.get?_some hget
      have hany := (h.any_fresh_iff hstart).2 ⟨f, hf, hfresh⟩
      simp only [serve, hserves, hget, TickerCall.expected, hany, if_true, hf, Option.map_some,
        Option.getD_some]
      rw [ih ((h.use hL a.key).later hnow) hrest hKs, hL.use_ttl]
    | none =>
      -- a miss is a call the rule sends to the exchange, and its fetch joins the history
      have hany := h.any_fresh_eq_false hstart hget
      simp only [serve, hserves, hget, TickerCall.expected, hany, Bool.false_eq_true, if_false]
      rw [ih (h.put hL hstart hfinish hget (hK a List.mem_cons_self) hcap) hrest hKs, hL.put_ttl]

end TickerCache

/-! ### Calls of the ticker job -/

def World.cacheOf (i : Nat) (w : World) : Option (TickerCache.Library × TickerCache) :=
  w.desks[i]?.map fun d => (d.tickerLibrary, d.tickers)

def World.cacheClock (i : Nat) (w : World) :
    Option (TickerCache.Library × TickerCache) × Float :=
  (w.cacheOf i, w.now)

/-- From `w` to `w'` nothing touched the quotes desk `i` keeps and the clock did not go back: how
a ticker call finds the world when woken from a nap, and the next call finds it after the last. -/
structure World.Calm (i : Nat) (w w' : World) : Prop where
  cache : w'.cacheOf i = w.cacheOf i
  later : w.now ≤ w'.now

theorem World.cacheOf_modify (w : World) (i : Nat) (f : Desk → Desk) :
    { w with desks := w.desks.modify i f }.cacheOf i =
      w.desks[i]?.map fun d => ((f d).tickerLibrary, (f d).tickers) := by
  simp [World.cacheOf, Array.getElem?_modify, Option.map_map, Function.comp_def]

theorem Quiet.later {b : Float} (hb : b.isNaN = false) :
    ∀ {naps : List (Nap World)} {s : World}, Quiet World.now b naps s →
      (∀ n ∈ naps, n.fell.now ≤ n.woke.now) → b ≤ s.now
  | [], _, h, _ => by
    change World.now _ = b at h
    rw [h]
    exact Float.le_refl_of_number hb
  | n :: _, _, ⟨h, hq⟩, hw => by
    have h₁ : b ≤ n.woke.now := by
      rw [← h]
      exact hw n List.mem_cons_self
    exact Float.le_trans h₁
      (Quiet.later (Float.isNaN_of_le h₁).2 hq fun m hm => hw m (List.mem_cons_of_mem _ hm))

namespace Act

variable {i : Nat}

theorem modifyDesk_keeps_cacheClock {f : Desk → Desk}
    (hf : ∀ d, ((f d).tickerLibrary, (f d).tickers) = (d.tickerLibrary, d.tickers)) :
    Act.Fixes (World.cacheClock i) (modifyDesk i f) := by
  refine ⟨fun w => ?_⟩
  change World.cacheClock i { w with desks := w.desks.modify i f } = World.cacheClock i w
  simp only [World.cacheClock, World.cacheOf_modify, hf]
  rfl

theorem call_keeps_cacheClock (i : Nat) : Act.Fixes (World.cacheClock i) (call i) := by
  unfold call
  refine Fixes.bind (Fixes.desk i) fun d => ?_
  split
  · exact Fixes.throw_bind _ _
  · refine Fixes.bind Fixes.now fun now => ?_
    split
    refine Fixes.bind (modifyDesk_keeps_cacheClock fun _ => rfl) fun _ => ?_
    split
    · exact Fixes.sleep _
    · exact Fixes.pure _

theorem quote_keeps_cacheClock (i : Nat) (symbol : String) :
    Act.Fixes (World.cacheClock i) (quote i symbol) :=
  Fixes.bind (call_keeps_cacheClock i) fun _ => Fixes.bind (Fixes.desk i) fun _ =>
    Fixes.bind (modifyDesk_keeps_cacheClock fun _ => rfl) fun _ => Fixes.pure _

theorem quote_run_calm {symbol : String} {w s : World} {naps : List (Nap World)} {t : Ticker}
    (hnow : w.now.isNaN = false) (hrun : Step.Run (quote i symbol w) naps s (.ok t))
    (hcalm : ∀ n ∈ naps, World.Calm i n.fell n.woke) :
    s.cacheOf i = w.cacheOf i ∧ w.now ≤ s.now := by
  have hq := (quote_keeps_cacheClock i symbol).quiet hrun
  exact ⟨(hq.map Prod.fst).undisturbed fun n hn => (hcalm n hn).cache,
    Quiet.later hnow (hq.map Prod.snd) fun n hn => (hcalm n hn).later⟩

theorem desk_cache {w : World} {L : TickerCache.Library} {c : TickerCache}
    (hc : w.cacheOf i = some (L, c)) :
    (w.desks.getD i default).tickerLibrary = L ∧ (w.desks.getD i default).tickers = c := by
  simp only [World.cacheOf, Option.map_eq_some_iff, Prod.mk.injEq] at hc
  obtain ⟨d, hd, rfl, rfl⟩ := hc
  simp [Array.getD_eq_getD_getElem?, hd]

theorem ticker_of_hit {symbol session : String} {w : World} {q : Ticker}
    {L : TickerCache.Library} {c : TickerCache} (hc : w.cacheOf i = some (L, c))
    (hq : L.get? c w.now (session, Text.upper symbol) = some q) :
    ticker i symbol session w =
      .done { w with desks := w.desks.modify i fun d =>
        { d with tickers := d.tickerLibrary.use d.tickers (session, Text.upper symbol) } }
        (.ok q) := by
  obtain ⟨hL, hT⟩ := desk_cache hc
  unfold ticker
  rw [desk_bind, now_bind, hL, hT, hq]
  rfl

theorem ticker_run_of_hit {symbol session : String} {w s : World} {naps : List (Nap World)}
    {t q : Ticker} {L : TickerCache.Library} {c : TickerCache} (hc : w.cacheOf i = some (L, c))
    (hq : L.get? c w.now (session, Text.upper symbol) = some q)
    (hrun : Step.Run (ticker i symbol session w) naps s (.ok t)) :
    naps = [] ∧ t = q ∧
      s = { w with desks := w.desks.modify i fun d =>
        { d with tickers := d.tickerLibrary.use d.tickers (session, Text.upper symbol) } } := by
  obtain ⟨rfl, rfl, ht⟩ := (Step.Run.of_done_eq (ticker_of_hit hc hq)).1 hrun
  exact ⟨rfl, Except.ok.inj ht, rfl⟩

theorem ticker_run_of_miss {symbol session : String} {w s : World} {naps : List (Nap World)}
    {t : Ticker} {L : TickerCache.Library} {c : TickerCache} (hc : w.cacheOf i = some (L, c))
    (hq : L.get? c w.now (session, Text.upper symbol) = none)
    (hrun : Step.Run (ticker i symbol session w) naps s (.ok t)) :
    ∃ s₁, Step.Run (quote i symbol w) naps s₁ (.ok t) ∧
      s = { s₁ with desks := s₁.desks.modify i fun d =>
        { d with tickers := d.tickerLibrary.put d.tickers s₁.now (session, Text.upper symbol) t } } := by
  obtain ⟨hL, hT⟩ := desk_cache hc
  unfold ticker at hrun
  rw [desk_bind, now_bind, hL, hT, hq] at hrun
  rcases Step.Run.of_bind hrun with ⟨naps₁, s₁, x, naps₂, rfl, h₁, h₂⟩ | ⟨e, -, he⟩
  · obtain ⟨rfl, rfl, ht⟩ := (Step.Run.of_done_eq rfl).1 h₂
    cases ht
    exact ⟨s₁, by simpa using h₁, rfl⟩
  · cases he

end Act

theorem World.cacheOf_update {w : World} {i : Nat} {L : TickerCache.Library} {c : TickerCache}
    (hc : w.cacheOf i = some (L, c)) (g : TickerCache.Library → TickerCache → TickerCache) :
    { w with desks := w.desks.modify i fun d =>
      { d with tickers := g d.tickerLibrary d.tickers } }.cacheOf i = some (L, g L c) := by
  rw [World.cacheOf_modify]
  simp only [World.cacheOf, Option.map_eq_some_iff, Prod.mk.injEq] at hc
  obtain ⟨d, hd, rfl, rfl⟩ := hc
  simp [hd]

theorem TickerCall.InOrder.of_le {t t' : Float} {calls : List TickerCall} (h : t ≤ t') :
    TickerCall.InOrder t' calls → TickerCall.InOrder t calls := by
  cases calls with
  | nil => intro; trivial
  | cons a as =>
    rintro ⟨h₁, h₂, h₃⟩
    exact ⟨Float.le_trans h h₁, h₂, h₃⟩

/-- Ticker calls on desk `i`, one after another: each call runs to its quote, woken only into calm
worlds, and the next starts in a calm world after it. A call is recorded by its key (the session
and the upper-case symbol), the times it starts and ends, the quote it hands out and whether it
found no live quote for its key, so that it went to the exchange (`Act.ticker_run_of_miss`). -/
inductive TickerSession (i : Nat) : World → List TickerCall → World → Prop
  | nil (w : World) : TickerSession i w [] w
  | call {w s w' w'' : World} {naps : List (Nap World)} {symbol session : String} {t : Ticker}
      {calls : List TickerCall} :
      Step.Run (Act.ticker i symbol session w) naps s (.ok t) →
      (∀ n ∈ naps, World.Calm i n.fell n.woke) → World.Calm i s w' →
      TickerSession i w' calls w'' →
      TickerSession i w (⟨(session, Text.upper symbol), w.now, s.now, t,
        ((w.cacheOf i).bind fun lc => lc.1.get? lc.2 w.now (session, Text.upper symbol)).isNone⟩ ::
          calls) w''

namespace TickerSession

theorem serve {i : Nat} {w w'' : World} {calls : List TickerCall}
    (hs : TickerSession i w calls w'') :
    ∀ {L : TickerCache.Library} {c : TickerCache}, w.cacheOf i = some (L, c) →
      w.now.isNaN = false → TickerCall.InOrder w.now calls ∧
        TickerCache.serve L c calls = calls.map fun a => (a.quote, a.asked) := by
  induction hs with
  | nil w => exact fun _ _ => ⟨trivial, rfl⟩
  | @call w s w' w'' naps symbol session t calls hrun hcalm hgap _ ih =>
    intro L c hc hnow
    have hnow' : w'.now.isNaN = false := (Float.isNaN_of_le hgap.later).2
    have hstart : w.now ≤ w.now := Float.le_refl_of_number hnow
    cases hget : L.get? c w.now (session, Text.upper symbol) with
    | some q =>
      -- a hit: no time passes, and the cache only marks the key used
      obtain ⟨rfl, rfl, rfl⟩ := Act.ticker_run_of_hit hc hget hrun
      obtain ⟨horder, hserve⟩ := ih (hgap.cache.trans
        (World.cacheOf_update hc fun L c => L.use c (session, Text.upper symbol))) hnow'
      refine ⟨⟨hstart, hstart, horder.of_le hgap.later⟩, ?_⟩
      simp only [TickerCache.serve, hget, hc, Option.bind_some, Option.isNone_some, List.map_cons,
        hserve]
    | none =>
      -- a miss: the quote from the exchange is kept from the time it ends
      obtain ⟨s₁, hquote, rfl⟩ := Act.ticker_run_of_miss hc hget hrun
      obtain ⟨hkept, hlater⟩ := Act.quote_run_calm hnow hquote hcalm
      obtain ⟨horder, hserve⟩ := ih (hgap.cache.trans (World.cacheOf_update (hkept.trans hc)
        fun L c => L.put c s₁.now (session, Text.upper symbol) t)) hnow'
      refine ⟨⟨hstart, hlater, horder.of_le hgap.later⟩, ?_⟩
      simp only [TickerCache.serve, hget, hc, Option.bind_some, Option.isNone_none, List.map_cons,
        hserve]

/-- Ticker calls on a desk whose cache, of a lawful library, starts empty, at times that never go
back, over no more keys than the cache holds, follow the rule of a time-to-live cache: a call goes
to the exchange exactly when no earlier fetch of its key, kept from the time that fetch ended, is
still fresh when the call starts, and hands out the quote of the latest fetch of its key. Keys are
the session with the upper-case symbol, so symbols that differ only in case share a quote and
sessions do not. -/
theorem follows_ttl_rule {i : Nat} {w w' : World} {calls : List TickerCall} {ttl : Float}
    {L : TickerCache.Library} (hs : TickerSession i w calls w')
    (hc : w.cacheOf i = some (L, ⟨ttl, []⟩)) (hL : L.Lawful) (hnow : w.now.isNaN = false)
    (hkeys : (calls.map TickerCall.key).toFinset.card ≤ TickerCache.capacity) :
    calls.map (fun a => (a.quote, a.asked)) = TickerCall.expected ttl [] calls := by
  obtain ⟨horder, hserve⟩ := hs.serve hc hnow
  rw [← hserve]
  exact TickerCache.serve_eq_expected hL hkeys calls (TickerCache.reflects_empty ttl w.now _)
    horder fun a ha => List.mem_toFinset.2 (List.mem_map_of_mem ha)

def quoteDeskWorld : World :=
  { desks := #[Desk.assemble "paper" [] Paper.Market.spotDefault default 0.001 {}] }

theorem lowercase_call_served_from_cache :
    ∃ calls w', TickerSession 0 quoteDeskWorld calls w' ∧ calls.map TickerCall.asked = [true, false] ∧
      calls.map (fun a => (a.quote, a.asked)) = TickerCall.expected 30.0 [] calls := by
  obtain ⟨s₁, r₁, h₁, key⟩ := Step.eq_done_of_doneWith
    (show (Act.ticker 0 "BTCUSD" "s1" quoteDeskWorld).doneWith (fun s r => r.toBool &&
        ((s.cacheOf 0).bind fun lc => lc.1.get? lc.2 s.now ("s1", "BTCUSD")).isSome &&
          !s.now.isNaN) = true by
      decide +kernel)
  cases r₁ with
  | error e => simp [Except.toBool] at key
  | ok t₁ =>
    simp only [Except.toBool, Bool.true_and, Bool.and_eq_true, Option.isSome_iff_exists,
      Option.bind_eq_some_iff, Bool.not_eq_true'] at key
    obtain ⟨⟨q, ⟨L₁, c₁⟩, hc₁, hq⟩, hnan⟩ := key
    dsimp only at hq
    have hupper : Text.upper "btcusd" = "BTCUSD" := by decide +kernel
    have h₂ := Act.ticker_of_hit hc₁
      (show L₁.get? c₁ s₁.now ("s1", Text.upper "btcusd") = some q from hupper ▸ hq)
    have hcalm : ∀ {w : World}, w.now.isNaN = false → World.Calm 0 w w :=
      fun h => ⟨rfl, Float.le_refl_of_number h⟩
    have hs : TickerSession 0 quoteDeskWorld _ _ :=
      .call (Step.Run.of_eq_done h₁) (by simp) (hcalm hnan)
        (.call (Step.Run.of_eq_done h₂) (by simp) (hcalm hnan) (.nil _))
    have hc₀ : quoteDeskWorld.cacheOf 0 = some (TickerCache.standard, ⟨30.0, []⟩) := rfl
    refine ⟨_, _, hs, ?_, TickerSession.follows_ttl_rule hs hc₀ TickerCache.standard_lawful
      (by decide +kernel) ?_⟩
    · simp only [List.map_cons, List.map_nil, hc₀, hc₁, hupper, hq, Option.bind_some,
        Option.isNone_some]
      rfl
    · exact (List.toFinset_card_le _).trans (by simp [TickerCache.capacity])

end TickerSession

end TradeDesk
