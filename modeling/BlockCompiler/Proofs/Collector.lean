import BlockCompiler.Collector
import BlockCompiler.Diagnostic
import Mathlib.Data.List.Nodup

/-!
# What a collector holds

A symbol once registered stays, and offering a text for it again changes nothing
(`register_of_contains`).  So a collector takes in a list of offers at most once:
afterwards it holds all their symbols (`contains_registerAll`), and offering them
another time leaves it as it is (`registerAll_of_contains`).

What a list of offers adds is fixed but for what is there already: the entries that an
empty collector would have afterwards, without those whose symbols were registered
before (`entries_registerAll`).

Whether a text is taken is decided by the set of symbols, and what is found for a symbol by
the list of entries.  The two are in step (`InStep`): the set tracks the symbols of the
entries (`KeySet.Tracks`).  An empty collector is in step, and every offer keeps it so.
Logs of diagnostics are kept in step in the same way.
-/

namespace BlockCompiler

/-! ## Sets that track a list -/

namespace KeySet

variable {κ : Type} [DecidableEq κ] {seen : KeySet κ} {keys : List κ}

/-- The set has the keys of the list, and no key is listed twice. -/
structure Tracks (seen : KeySet κ) (keys : List κ) : Prop where
  contains_iff : ∀ key, seen.contains key = true ↔ key ∈ keys
  nodup : keys.Nodup

theorem tracks_empty : ({} : KeySet κ).Tracks [] :=
  ⟨fun _ => ⟨fun h => (Bool.false_ne_true h).elim, fun h => (List.not_mem_nil h).elim⟩,
    List.nodup_nil⟩

/-- A new key that goes into the set and to the end of the list keeps them in step. -/
theorem Tracks.insert (h : seen.Tracks keys) {key : κ} (hnew : seen.contains key = false) :
    (seen.insert key).Tracks (keys ++ [key]) := by
  have hkey : key ∉ keys := by
    rw [← h.contains_iff, hnew]
    exact Bool.false_ne_true
  constructor
  · intro other
    rw [contains_insert, h.contains_iff, List.mem_append, List.mem_singleton]
  · exact List.nodup_append.mpr ⟨h.nodup, List.nodup_singleton key,
      fun x hx y hy hxy => hkey (List.mem_singleton.mp hy ▸ hxy ▸ hx)⟩

end KeySet

namespace Collector

/-! ## Offers -/

theorem contains_register (c : Collector) (symbol text other : String) :
    (c.register symbol text).contains other = true ↔ c.contains other = true ∨ other = symbol := by
  unfold register
  split
  · rename_i hsymbol
    refine ⟨Or.inl, fun h => h.elim id ?_⟩
    rintro rfl
    exact hsymbol
  · exact c.seen.contains_insert symbol other

theorem register_of_contains {c : Collector} {symbol : String} (h : c.contains symbol = true)
    (text : String) : c.register symbol text = c :=
  if_pos h

/-- The collector after all offers of a list were made. -/
def registerAll (c : Collector) (offers : List (String × String)) : Collector :=
  offers.foldl (fun c o => c.register o.1 o.2) c

theorem contains_registerAll (c : Collector) (offers : List (String × String)) (other : String) :
    (c.registerAll offers).contains other = true ↔
      c.contains other = true ∨ other ∈ offers.map (·.1) := by
  induction offers generalizing c with
  | nil => simp [registerAll]
  | cons o rest ih =>
    rw [registerAll, List.foldl_cons, ← registerAll, ih, contains_register, List.map_cons,
      List.mem_cons, or_assoc]

theorem registerAll_of_contains {c : Collector} {offers : List (String × String)}
    (h : ∀ symbol ∈ offers.map (·.1), c.contains symbol = true) : c.registerAll offers = c := by
  induction offers with
  | nil => rfl
  | cons o rest ih =>
    rw [List.map_cons, List.forall_mem_cons] at h
    rw [registerAll, List.foldl_cons, register_of_contains h.1]
    exact ih h.2

theorem registerAll_append (c : Collector) (offers offers' : List (String × String)) :
    c.registerAll (offers ++ offers') = (c.registerAll offers).registerAll offers' :=
  List.foldl_append

/-! ## The entries -/

/-- The set of symbols and the list of entries are in step: the symbols seen are those that have an
entry, and no symbol has two. -/
def InStep (c : Collector) : Prop :=
  c.seen.Tracks (c.entries.map (·.1))

theorem inStep_empty : ({} : Collector).InStep :=
  KeySet.tracks_empty

theorem InStep.contains_iff {c : Collector} (h : c.InStep) {symbol : String} :
    c.contains symbol = true ↔ symbol ∈ c.entries.map (·.1) :=
  KeySet.Tracks.contains_iff h symbol

theorem InStep.nodup {c : Collector} (h : c.InStep) : (c.entries.map (·.1)).Nodup :=
  KeySet.Tracks.nodup h

/-- An offer keeps the set and the list in step: both grow or neither does. -/
theorem InStep.register {c : Collector} (h : c.InStep) (symbol text : String) :
    (c.register symbol text).InStep := by
  unfold Collector.register
  split
  · exact h
  · rename_i hnew
    rw [InStep, List.map_append, List.map_singleton]
    exact KeySet.Tracks.insert h (Bool.eq_false_iff.mpr hnew)

/-- So do any number of offers. -/
theorem InStep.registerAll {c : Collector} (h : c.InStep) (offers : List (String × String)) :
    (c.registerAll offers).InStep := by
  induction offers generalizing c with
  | nil => exact h
  | cons o rest ih => exact ih (h.register o.1 o.2)

/-- An entry is the only one with its symbol. -/
theorem InStep.filter_eq {c : Collector} (h : c.InStep) {e : String × String}
    (he : e ∈ c.entries) : c.entries.filter (·.1 == e.1) = [e] := by
  obtain ⟨before, after, hsplit⟩ := List.append_of_mem he
  have hnodup := h.nodup
  rw [hsplit, List.map_append, List.map_cons] at hnodup
  obtain ⟨-, htail, hne⟩ := List.nodup_append.mp hnodup
  have hbefore : before.filter (·.1 == e.1) = [] := by
    refine List.filter_eq_nil_iff.mpr fun d hd heq => ?_
    exact hne d.1 (List.mem_map_of_mem hd) e.1 List.mem_cons_self (beq_iff_eq.mp heq)
  have hafter : after.filter (·.1 == e.1) = [] := by
    refine List.filter_eq_nil_iff.mpr fun d hd heq => ?_
    exact (List.nodup_cons.mp htail).1 (beq_iff_eq.mp heq ▸ List.mem_map_of_mem hd)
  rw [hsplit, List.filter_append, List.filter_cons, hbefore, hafter]
  simp

theorem mem_of_mem_register {c : Collector} {symbol text : String} {e : String × String}
    (h : e ∈ (c.register symbol text).entries) : e ∈ c.entries ∨ e = (symbol, text) := by
  unfold register at h
  split at h
  · exact Or.inl h
  · exact (List.mem_append.mp h).imp_right List.mem_singleton.mp

/-- Every entry was there before, or is one of the offers. -/
theorem mem_of_mem_registerAll {c : Collector} {offers : List (String × String)}
    {e : String × String} (h : e ∈ (c.registerAll offers).entries) :
    e ∈ c.entries ∨ e ∈ offers := by
  induction offers generalizing c with
  | nil => exact Or.inl h
  | cons o rest ih =>
    rcases ih h with hfirst | hrest
    · rcases mem_of_mem_register hfirst with hold | rfl
      · exact Or.inl hold
      · exact Or.inr List.mem_cons_self
    · exact Or.inr (List.mem_cons_of_mem _ hrest)

/-- The entries that a list of offers makes up on its own: the first one for each symbol. -/
def offered (offers : List (String × String)) : List (String × String) :=
  (({} : Collector).registerAll offers).entries

/-- `c'` has the entries of `c`, followed by those of `d` with symbols that `c` has not seen, and has
seen what either of the two has. -/
structure Extends (c d c' : Collector) : Prop where
  entries : c'.entries = c.entries ++ d.entries.filter fun e => !c.contains e.1
  contains_iff : ∀ symbol,
    c'.contains symbol = true ↔ c.contains symbol = true ∨ d.contains symbol = true

namespace Extends

variable {c d c' : Collector}

/-- The same offer made to both keeps it so. -/
theorem register (h : c.Extends d c') (symbol text : String) :
    c.Extends (d.register symbol text) (c'.register symbol text) := by
  constructor
  · have hcontains := h.contains_iff symbol
    by_cases hd : d.contains symbol = true
    · rw [register_of_contains hd, register_of_contains (hcontains.mpr (Or.inr hd))]
      exact h.entries
    · by_cases hc : c.contains symbol = true
      · simp [Collector.register, hd, hc, hcontains.mpr (Or.inl hc), h.entries]
      · have hnew : c'.contains symbol = false := by
          rw [← Bool.not_eq_true, hcontains]
          exact not_or.mpr ⟨hc, hd⟩
        simp [Collector.register, hd, hc, hnew, h.entries]
  · intro other
    rw [contains_register, contains_register, h.contains_iff, or_assoc]

theorem registerAll (h : c.Extends d c') (offers : List (String × String)) :
    c.Extends (d.registerAll offers) (c'.registerAll offers) := by
  induction offers generalizing d c' with
  | nil => exact h
  | cons o rest ih => exact ih (h.register o.1 o.2)

end Extends

/-- **What a list of offers adds**: of the entries that it makes up on its own, those with symbols
that are not there yet. -/
theorem entries_registerAll (c : Collector) (offers : List (String × String)) :
    (c.registerAll offers).entries =
      c.entries ++ (offered offers).filter fun e => !c.contains e.1 := by
  have hstart : c.Extends {} c := by
    refine ⟨by simp, fun symbol => ⟨Or.inl, fun h => h.elim id fun hempty => ?_⟩⟩
    exact absurd hempty Bool.false_ne_true
  exact (hstart.registerAll offers).entries

end Collector

/-! ## Logs of diagnostics -/

namespace DiagnosticLog

/-- The set of subjects and the list of diagnostics are in step: the subjects seen are those of the
diagnostics, and no two diagnostics have the same. -/
def InStep (log : DiagnosticLog) : Prop :=
  log.seen.Tracks (log.entries.map Diagnostic.subject)

theorem inStep_empty : ({} : DiagnosticLog).InStep :=
  KeySet.tracks_empty

theorem InStep.reports_iff {log : DiagnosticLog} (h : log.InStep) {d : Diagnostic} :
    log.reports d = true ↔ d.subject ∈ log.entries.map Diagnostic.subject :=
  KeySet.Tracks.contains_iff h d.subject

/-- A report keeps the set and the list in step: both grow or neither does. -/
theorem InStep.push {log : DiagnosticLog} (h : log.InStep) (d : Diagnostic) :
    (log.push d).InStep := by
  unfold DiagnosticLog.push
  split
  · exact h
  · rename_i hnew
    rw [InStep, List.map_append, List.map_singleton]
    exact KeySet.Tracks.insert h (Bool.eq_false_iff.mpr hnew)

/-- So do any number of reports. -/
theorem InStep.extend {log : DiagnosticLog} (h : log.InStep) (ds : List Diagnostic) :
    (log.extend ds).InStep := by
  induction ds generalizing log with
  | nil => exact h
  | cons d rest ih => exact ih (h.push d)

end DiagnosticLog

end BlockCompiler
