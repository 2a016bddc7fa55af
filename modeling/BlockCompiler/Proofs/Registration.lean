import BlockCompiler.Proofs.Collector
import BlockCompiler.Proofs.Generation.Outline
import BlockCompiler.Proofs.Text.Layout
import Mathlib.Data.List.Forall2
import Mathlib.Data.List.Induction

/-!
# The first registration stays

Collectors and logs of diagnostics take in one thing after the other and keep the first one
for each key: a symbol, or a reason together with a block.  What they hold in the end can
be read off the calls alone.  A call is a newcomer if no earlier call has its key
(`newcomers`), and the newcomers in their order are what is held (`firsts`).

One step adds the new thing or nothing (`firsts_append_singleton`).  Both ways of
collecting do just that as long as the set that they ask is in step with the list that
they show, so a single induction over the calls serves them (`held_eq_firsts`).
-/

namespace BlockCompiler

/-! ## Newcomers -/

section Firsts

variable {α κ : Type} [DecidableEq κ] (key : α → κ)

/-- Whether each member of a list has a key that no earlier member has. -/
def newcomers (xs : List α) : List Bool :=
  xs.zipIdx.map fun e => !((xs.take e.2).map key).contains (key e.1)

/-- The members whose keys no earlier member has, in their order. -/
def firsts (xs : List α) : List α :=
  ((xs.zip (newcomers key xs)).filter (·.2)).map (·.1)

theorem newcomers_append_singleton (xs : List α) (x : α) :
    newcomers key (xs ++ [x]) = newcomers key xs ++ [!(xs.map key).contains (key x)] := by
  have hbefore : ∀ e ∈ xs.zipIdx, (xs ++ [x]).take e.2 = xs.take e.2 := by
    intro e he
    have hidx := List.snd_lt_of_mem_zipIdx he
    exact List.take_append_of_le_length (by omega)
  rw [newcomers, List.zipIdx_append, List.map_append]
  congr 1
  · refine List.map_congr_left fun e he => ?_
    rw [hbefore e he]
  · simp

/-- One member more is one more of the first ones, or none. -/
theorem firsts_append_singleton (xs : List α) (x : α) :
    firsts key (xs ++ [x]) = firsts key xs ++ if key x ∈ xs.map key then [] else [x] := by
  have hlength : xs.length = (newcomers key xs).length := by
    rw [newcomers, List.length_map, List.length_zipIdx]
  rw [firsts, newcomers_append_singleton, List.zip_append hlength, List.filter_append,
    List.map_append, ← firsts]
  by_cases h : key x ∈ xs.map key <;> simp [h]

theorem map_key_firsts_iff (xs : List α) (k : κ) :
    k ∈ (firsts key xs).map key ↔ k ∈ xs.map key := by
  induction xs using List.reverseRecOn with
  | nil => rfl
  | append_singleton xs x ih =>
    rw [firsts_append_singleton, List.map_append, List.map_append, List.mem_append, ih,
      List.mem_append, List.map_singleton, List.mem_singleton]
    by_cases h : key x ∈ xs.map key
    · rw [if_pos h]
      refine ⟨fun hk => Or.inl (hk.resolve_right List.not_mem_nil), fun hk => ?_⟩
      rcases hk with hk | rfl
      · exact Or.inl hk
      · exact Or.inl h
    · rw [if_neg h, List.map_singleton, List.mem_singleton]

/-- Whatever takes a thing in exactly if its key is not there yet comes to hold the first ones. -/
theorem held_eq_firsts {σ : Type} {held : σ → List α} {take : σ → α → σ} {Sound : σ → Prop}
    (hsound : ∀ s x, Sound s → Sound (take s x))
    (hold : ∀ s x, Sound s → key x ∈ (held s).map key → held (take s x) = held s)
    (hnew : ∀ s x, Sound s → key x ∉ (held s).map key → held (take s x) = held s ++ [x])
    {s : σ} (hs : Sound s) (hempty : held s = []) (xs : List α) :
    Sound (xs.foldl take s) ∧ held (xs.foldl take s) = firsts key xs := by
  induction xs using List.reverseRecOn with
  | nil => exact ⟨hs, hempty⟩
  | append_singleton xs x ih =>
    obtain ⟨hbefore, ih⟩ := ih
    rw [List.foldl_append, List.foldl_cons, List.foldl_nil, firsts_append_singleton]
    refine ⟨hsound _ x hbefore, ?_⟩
    -- The keys held so far are those of all things that came.
    by_cases h : key x ∈ xs.map key
    · rw [if_pos h, List.append_nil, ← ih]
      refine hold _ x hbefore ?_
      rwa [ih, map_key_firsts_iff]
    · rw [if_neg h, ← ih]
      refine hnew _ x hbefore ?_
      rwa [ih, map_key_firsts_iff]

end Firsts

/-! ## Collectors -/

namespace Collector

/-- Offers made one after the other: the answer to each, and the collector after the last. -/
def offerAll (c : Collector) : List (String × String) → List Bool × Collector
  | [] => ([], c)
  | o :: rest =>
    let first := c.offer o.1 o.2
    let later := first.2.offerAll rest
    (first.1 :: later.1, later.2)

theorem offerAll_snd (c : Collector) (offers : List (String × String)) :
    (c.offerAll offers).2 = c.registerAll offers := by
  induction offers generalizing c with
  | nil => rfl
  | cons o rest ih => exact ih (c.register o.1 o.2)

theorem offerAll_append_fst (c : Collector) (offers later : List (String × String)) :
    (c.offerAll (offers ++ later)).1 =
      (c.offerAll offers).1 ++ ((c.registerAll offers).offerAll later).1 := by
  induction offers generalizing c with
  | nil => rfl
  | cons o rest ih => exact congrArg (_ :: ·) (ih (c.register o.1 o.2))

/-- The set of symbols decides what is taken, and the entries come to be the first offers. -/
theorem inStep_and_entries_eq_firsts (offers : List (String × String)) :
    (({} : Collector).registerAll offers).InStep ∧
      (({} : Collector).registerAll offers).entries = firsts (·.1) offers := by
  refine held_eq_firsts (fun o : String × String => o.1) (fun c o hc => hc.register o.1 o.2)
    (fun c o hc hold => ?_) (fun c o hc hnew => ?_) inStep_empty rfl offers
  · rw [register_of_contains (hc.contains_iff.mpr hold)]
  · rw [register, if_neg (mt hc.contains_iff.mp hnew)]

theorem answers_eq_newcomers (offers : List (String × String)) :
    (({} : Collector).offerAll offers).1 = newcomers (·.1) offers := by
  induction offers using List.reverseRecOn with
  | nil => rfl
  | append_singleton offers o ih =>
    have hheld : (({} : Collector).registerAll offers).contains o.1 =
        (offers.map (·.1)).contains o.1 := by
      rw [Bool.eq_iff_iff, contains_registerAll, List.contains_iff_mem]
      exact or_iff_right Bool.false_ne_true
    rw [offerAll_append_fst, ih, newcomers_append_singleton, ← hheld]
    rfl

/-- Looking a symbol up among the first entries finds what it finds among all. -/
theorem lookup_firsts (offers : List (String × String)) (symbol : String) :
    (firsts (·.1) offers).lookup symbol = offers.lookup symbol := by
  induction offers using List.reverseRecOn with
  | nil => rfl
  | append_singleton offers o ih =>
    rw [firsts_append_singleton, List.lookup_append, List.lookup_append, ih]
    split
    · rename_i hold
      -- The last offer is not reached: its symbol is found before it, or is another one.
      by_cases hsymbol : symbol = o.1
      · have hfound : offers.lookup symbol ≠ none := by
          rw [Ne, List.lookup_eq_none_iff]
          intro hnone
          obtain ⟨e, he, heq⟩ := List.mem_map.mp hold
          simpa [hsymbol, heq] using hnone e he
        obtain ⟨text, htext⟩ := Option.ne_none_iff_exists'.mp hfound
        rw [htext]
        rfl
      · have hlast : [o].lookup symbol = none := by simpa [List.lookup_eq_none_iff] using hsymbol
        rw [hlast]
        rfl
    · rfl

/-- The set has a symbol iff the list has a text for it. -/
theorem InStep.contains_eq_isSome_get? {c : Collector} (h : c.InStep) (symbol : String) :
    c.contains symbol = (c.get? symbol).isSome := by
  rw [Bool.eq_iff_iff, h.contains_iff, get?, Option.isSome_iff_ne_none, Ne, List.lookup_eq_none_iff]
  constructor
  · intro hmem hnone
    obtain ⟨e, he, rfl⟩ := List.mem_map.mp hmem
    simpa using hnone e he
  · intro hsome
    by_contra hmem
    refine hsome fun e he => ?_
    rw [bne_iff_ne]
    rintro rfl
    exact hmem (List.mem_map_of_mem he)

end Collector

namespace Text

/-- The text is the stem followed by any number of line feeds, and the stem ends in none. -/
def IsStem (stem text : String) : Prop :=
  stem.toList.getLast? ≠ some '\n' ∧
    ∃ count, text.toList = stem.toList ++ List.replicate count '\n'

theorem isStem_trimLineFeeds (text : String) : IsStem (trimLineFeeds text) text := by
  obtain ⟨feeds, hsplit, hfeeds⟩ := exists_lineFeeds text
  refine ⟨?_, feeds.length, ?_⟩
  · rw [trimLineFeeds, String.toList_ofList, dropEndWhile, List.getLast?_reverse]
    intro hhead
    have hnot := List.head?_dropWhile_not (· == '\n') text.toList.reverse
    rw [hhead] at hnot
    cases hnot
  · rw [hsplit, ← List.eq_replicate_of_mem hfeeds]

end Text

theorem Collector.flush_eq_stems (c : Collector) :
    ∃ stems, List.Forall₂ (fun stem e => Text.IsStem stem e.2) stems c.entries ∧
      c.flush = String.join (stems.map (· ++ "\n")) := by
  refine ⟨c.texts.map Text.trimLineFeeds, ?_, ?_⟩
  · rw [texts, List.map_map, List.forall₂_map_left_iff, List.forall₂_same]
    exact fun e _ => Text.isStem_trimLineFeeds e.2
  · rw [flush, List.map_map]
    rfl

/-! ## Logs of diagnostics -/

namespace DiagnosticLog

/-- The two ways to hand diagnostics to a log. -/
inductive Call where
  | push (d : Diagnostic)
  | extend (ds : List Diagnostic)

/-- The diagnostics that are handed over. -/
def Call.given : Call → List Diagnostic
  | push d => [d]
  | extend ds => ds

/-- The log after a call. -/
def call (log : DiagnosticLog) : Call → DiagnosticLog
  | .push d => log.push d
  | .extend ds => log.extend ds

/-- The set of subjects decides what is taken, and the entries come to be the first diagnostics. -/
theorem inStep_and_entries_extend (ds : List Diagnostic) :
    (({} : DiagnosticLog).extend ds).InStep ∧
      (({} : DiagnosticLog).extend ds).entries = firsts Diagnostic.subject ds := by
  refine held_eq_firsts Diagnostic.subject (fun log d hlog => hlog.push d)
    (fun log d hlog hold => ?_) (fun log d hlog hnew => ?_) inStep_empty rfl ds
  · rw [push, if_pos (hlog.reports_iff.mpr hold)]
  · rw [push, if_neg (mt hlog.reports_iff.mp hnew)]

theorem foldl_call (log : DiagnosticLog) (calls : List Call) :
    calls.foldl call log = log.extend (calls.flatMap Call.given) := by
  induction calls generalizing log with
  | nil => rfl
  | cons c rest ih =>
    have hcall : log.call c = log.extend c.given := by cases c <;> rfl
    rw [List.foldl_cons, ih, List.flatMap_cons, hcall, extend, extend, extend, List.foldl_append]

end DiagnosticLog

/-- **The first registration stays, and is made once.**  After any offers to an empty collector its
entries are the offers with symbols that no earlier offer has, in order, and each offer was taken
iff it is one of them.  No symbol has two entries.  The set of symbols, which decides what is taken,
is in step with the list: it has a symbol iff a text is found for it iff it has an entry, and the
text is that of its first offer.  Flushing gives the texts one after the other, each with any line
feeds at its end replaced by a single one.  Likewise a log holds, after any calls, the first
diagnostic for each reason and block, no two of the same, and its set has exactly their reasons and
blocks. -/
theorem first_registration_stays :
    (∀ offers : List (String × String),
      let result := ({} : Collector).offerAll offers
      let c := result.2
      c.entries = firsts (·.1) offers ∧
      result.1 = newcomers (·.1) offers ∧
      (c.entries.map (·.1)).Nodup ∧
      (∀ symbol, c.seen.contains symbol = (c.get? symbol).isSome ∧
        c.contains symbol = (c.get? symbol).isSome ∧
        (c.contains symbol = true ↔ ∃ text, (symbol, text) ∈ c.entries) ∧
        c.get? symbol = offers.lookup symbol) ∧
      ∃ stems, List.Forall₂ (fun stem e => Text.IsStem stem e.2) stems c.entries ∧
        c.flush = String.join (stems.map (· ++ "\n"))) ∧
    ∀ calls : List DiagnosticLog.Call,
      let log := calls.foldl DiagnosticLog.call {}
      log.entries = firsts Diagnostic.subject (calls.flatMap DiagnosticLog.Call.given) ∧
      (log.entries.map Diagnostic.subject).Nodup ∧
      ∀ subject, log.seen.contains subject = true ↔
        ∃ d ∈ log.entries, (d.reason, d.node) = subject := by
  refine ⟨fun offers => ?_, fun calls => ?_⟩
  · dsimp only
    rw [Collector.offerAll_snd]
    obtain ⟨hstep, hentries⟩ := Collector.inStep_and_entries_eq_firsts offers
    refine ⟨hentries, Collector.answers_eq_newcomers offers, hstep.nodup,
      fun symbol => ⟨?_, ?_, ?_, ?_⟩, Collector.flush_eq_stems _⟩
    · exact hstep.contains_eq_isSome_get? symbol
    · exact hstep.contains_eq_isSome_get? symbol
    · rw [hstep.contains_iff, List.mem_map]
      constructor
      · rintro ⟨e, he, rfl⟩
        exact ⟨e.2, he⟩
      · rintro ⟨text, he⟩
        exact ⟨_, he, rfl⟩
    · rw [Collector.get?, hentries, Collector.lookup_firsts]
  · dsimp only
    rw [DiagnosticLog.foldl_call]
    obtain ⟨hstep, hentries⟩ :=
      DiagnosticLog.inStep_and_entries_extend (calls.flatMap DiagnosticLog.Call.given)
    refine ⟨hentries, KeySet.Tracks.nodup hstep, fun subject => ?_⟩
    rw [KeySet.Tracks.contains_iff hstep, List.mem_map]
    rfl

end BlockCompiler
