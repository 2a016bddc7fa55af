import BlockCompiler.Proofs.Generation.Declarations
import BlockCompiler.Proofs.Generation.Sections
import BlockCompiler.Proofs.Generation.Shelter
import Mathlib.Data.List.Forall2

/-!
# Timed repeats

A timed repeat keeps the time of its last round in a variable of its own, named after the
key of its block.  A key may hold any characters and a name may not, so the name is made
by replacing characters, and keys that differ only in characters that are replaced give
the same name (`Text.symbol_eq_iff`).  For such keys two timed repeats share a variable.

For all others the variables are different, and each has its own declaration: the symbols
of other declarations begin with another letter (`BlockKind.timer_or_other`), so that the
text registered for a variable is the one that its timed repeat offers.
-/

namespace BlockCompiler

/-! ## Names that can be confused -/

namespace Text

/-- The texts differ at most in characters that are neither letters nor digits. -/
def Confusable (a b : String) : Prop :=
  List.Forall₂ (fun c d => c = d ∨ (c.isAlphanum = false ∧ d.isAlphanum = false))
    a.toList b.toList

/-- The text is made of letters, digits and underscores. -/
def IsName (s : String) : Prop :=
  ∀ c ∈ s.toList, c.isAlphanum = true ∨ c = '_'

instance decidableConfusable (a b : String) : Decidable (Confusable a b) :=
  inferInstanceAs (Decidable (List.Forall₂ _ a.toList b.toList))

instance decidableIsName (s : String) : Decidable (IsName s) :=
  List.decidableBAll _ s.toList

theorem ne_underscore_of_isAlphanum {c : Char} (h : c.isAlphanum = true) : c ≠ '_' := by
  rintro rfl
  exact absurd h (by decide)

theorem symbolChar_eq_iff {c d : Char} :
    symbolChar c = symbolChar d ↔ c = d ∨ (c.isAlphanum = false ∧ d.isAlphanum = false) := by
  unfold symbolChar
  by_cases hc : c.isAlphanum = true
  · by_cases hd : d.isAlphanum = true
    · simp [hc, hd]
    · have hcd : c ≠ d := fun heq => hd (heq ▸ hc)
      simp [hc, hd, hcd, ne_underscore_of_isAlphanum hc]
  · by_cases hd : d.isAlphanum = true
    · have hcd : c ≠ d := fun heq => hc (heq ▸ hd)
      simp [hc, hd, hcd, (ne_underscore_of_isAlphanum hd).symm]
    · simp [hc, hd]

/-- **Which keys give the same name.** -/
theorem symbol_eq_iff {a b : String} : symbol a = symbol b ↔ Confusable a b := by
  rw [← String.toList_inj, symbol, symbol, String.toList_map, String.toList_map, Confusable]
  generalize a.toList = cs
  generalize b.toList = ds
  induction cs generalizing ds with
  | nil => cases ds <;> simp
  | cons c cs ih =>
    cases ds with
    | nil => simp
    | cons d ds =>
      rw [List.map_cons, List.map_cons, List.cons.injEq, List.forall₂_cons, symbolChar_eq_iff, ih]

theorem symbol_of_isName {s : String} (h : IsName s) : symbol s = s := by
  rw [← String.toList_inj, symbol, String.toList_map]
  refine (List.map_congr_left fun c hc => ?_).trans (List.map_id _)
  rcases h c hc with halnum | rfl
  · rw [symbolChar, if_pos halnum, id]
  · rfl

/-- Names are never confused: they stay as they are. -/
theorem Confusable.eq_of_isName {a b : String} (h : Confusable a b) (ha : IsName a)
    (hb : IsName b) : a = b := by
  rwa [← symbol_eq_iff, symbol_of_isName ha, symbol_of_isName hb] at h

end Text

/-! ## The code and the declaration of a timed repeat -/

namespace Blocks

/-- The code of a timed repeat that keeps its time in `state`. -/
def timedCode (t : Target) (state interval body : String) : String :=
  match t with
  | .arduino =>
    "if (millis() - " ++ state ++ " >= " ++ interval ++ ") \x7b\n" ++
      t.backend.formatting.indent (t.backend.formatting.line (state ++ " = millis()")) ++ body ++
        "\x7d\n"
  | .microPython =>
    "if time.ticks_diff(time.ticks_ms(), " ++ state ++ ") >= " ++ interval ++ ":\n" ++
      t.backend.formatting.indent (state ++ " = time.ticks_ms()\n") ++ body

theorem timerState_eq_iff {n m : Node} :
    timerState n = timerState m ↔ Text.Confusable n.key m.key := by
  rw [← Text.symbol_eq_iff, timerState, timerState, String.append_left_inj, String.append_right_inj]
  rfl

/-- A timed repeat reads and writes its own variable. -/
theorem code_of_timedRepeat {g : Graph} {t : Target} {n : Node} {s s' : Run} {steps : List Step}
    {c : Code} (h : Job.Course ⟨g, t.backend⟩ (timedRepeat t ⟨g, t.backend⟩ n) s steps c s') :
    ∃ interval body, c = .statement (timedCode t (timerState n) interval body) := by
  cases t with
  | arduino =>
    obtain ⟨_, _, _, _, -, h, -⟩ := h.of_bind
    obtain ⟨_, interval, _, _, -, h, -⟩ := h.of_bind
    obtain ⟨_, body, _, _, -, h, -⟩ := h.of_bind
    obtain ⟨-, rfl, -⟩ := h.of_pure
    exact ⟨interval, body, rfl⟩
  | microPython =>
    obtain ⟨_, _, _, _, -, h, -⟩ := h.of_bind
    obtain ⟨_, _, _, _, -, h, -⟩ := h.of_bind
    obtain ⟨_, interval, _, _, -, h, -⟩ := h.of_bind
    obtain ⟨_, body, _, _, -, h, -⟩ := h.of_bind
    obtain ⟨-, rfl, -⟩ := h.of_pure
    exact ⟨interval, body, rfl⟩

end Blocks

theorem Blocks.exists_getLast?_timerDeclaration (t : Target) (state : String) :
    ∃ c, (timerDeclaration t state).toList.getLast? = some c ∧ c ≠ '\n' := by
  cases t with
  | arduino => exact ⟨';', by simp [timerDeclaration, List.getLast?_cons], by decide⟩
  | microPython => exact ⟨'0', by simp [timerDeclaration], by decide⟩

/-- The variable of a timed repeat is declared as such; other symbols begin with another letter. -/
theorem BlockKind.timer_or_other (t : Target) (n : Node) (kind : BlockKind) :
    ∀ d ∈ kind.declarations t n,
      d = (Blocks.timerState n, Blocks.timerDeclaration t (Blocks.timerState n)) ∨
        d.1.toList.head? ≠ some 'e' := by
  cases kind <;> cases t <;>
    simp [declarations, Blocks.pinImport, Blocks.pwmImport, Blocks.timeImport]

theorem Blocks.head?_timerState (n : Node) : (timerState n).toList.head? = some 'e' := by
  simp [timerState]

namespace Job

variable {g : Graph} {t : Target} {options : Options} {i : NodeId} {s : Run}
  {texts : List (NodeId × String)} {steps : List Step}

theorem mem_typeKinds_timer (t : Target) (htype : (g.node i).type = "time_every") :
    ((g.node i).type, BlockKind.timedRepeat) ∈ t.typeKinds := by
  rw [htype]
  cases t <;> decide

theorem get?_timer (t : Target) (htype : (g.node i).type = "time_every") :
    t.backend.generators.get? (g.node i).type = some ⟨t, .timedRepeat⟩ := by
  have hget := Target.get?_of_mem_typeKinds (mem_typeKinds_timer t htype)
  exact hget

/-- A compilation finds a container above every timed repeat that it generates. -/
theorem isInside_of_timer (h : g.Built)
    (hcourse : Course ⟨g, t.backend⟩ (sections ⟨g, t.backend⟩ options) {} steps texts s)
    (hi : i ∈ Step.blocks steps) (htype : (g.node i).type = "time_every") :
    g.isInside t.backend.containers i = true := by
  obtain ⟨step, hstep, hrequest⟩ := Step.mem_blocks.mp hi
  have hsheltered : Sheltered ⟨g, t.backend⟩ i := by
    have hkeeps := hcourse.forall_request_within
      (fun i hi => asks_blockScript_sheltered h t.backend_orderly hi)
      (asks_sections_sheltered ⟨g, t.backend⟩ options) step hstep
    rwa [hrequest] at hkeeps
  exact inside_of_guarded (j := ⟨g, t.backend⟩) t.backend_orderly hsheltered (get?_timer t htype)
    rfl

theorem guarded_of_inside {j : Job} (hin : j.graph.isInside j.backend.containers i = true)
    (code : Script Code) : j.guarded i code = code := by
  rw [guarded, standsInContainer, if_pos hin]
  rfl

theorem blockScript_timer (htype : (g.node i).type = "time_every")
    (hin : g.isInside t.backend.containers i = true) :
    blockScript ⟨g, t.backend⟩ i = Blocks.timedRepeat t ⟨g, t.backend⟩ (g.node i) := by
  rw [blockScript_of_mem (mem_typeKinds_timer t htype)]
  exact guarded_of_inside (j := ⟨g, t.backend⟩) hin (Blocks.timedRepeat t _ (g.node i))

theorem blockScript_countingLoop (htype : (g.node i).type = "controls_for")
    (hin : g.isInside t.backend.containers i = true) :
    blockScript ⟨g, t.backend⟩ i = Blocks.countingLoop t ⟨g, t.backend⟩ (g.node i) := by
  have hkind : ((g.node i).type, BlockKind.countingLoop) ∈ t.typeKinds := by
    rw [htype]
    cases t <;> decide
  rw [blockScript_of_mem hkind]
  exact guarded_of_inside (j := ⟨g, t.backend⟩) hin (Blocks.countingLoop t _ (g.node i))

theorem mem_declarations_timer (htype : (g.node i).type = "time_every")
    (hin : g.isInside t.backend.containers i = true) :
    (Blocks.timerState (g.node i), Blocks.timerDeclaration t (Blocks.timerState (g.node i))) ∈
      declarations ⟨g, t.backend⟩ i := by
  simp only [declarations, node, get?_timer t htype, Generator.declarations, hin, Bool.not_true,
    Bool.and_false, Bool.false_eq_true, if_false]
  cases t <;> simp [BlockKind.declarations]

/-- What is registered under the name of a timer's variable declares that variable. -/
theorem entry_of_timerState
    (hcourse : Course ⟨g, t.backend⟩ (sections ⟨g, t.backend⟩ options) {} steps texts s)
    {e : String × String} (he : e ∈ s.declarations.entries) {n : Node}
    (hsymbol : e.1 = Blocks.timerState n) :
    e = (Blocks.timerState n, Blocks.timerDeclaration t (Blocks.timerState n)) := by
  obtain ⟨k, hk⟩ := hcourse.exists_declaration he
  obtain ⟨kind, hkind⟩ := exists_kind_of_mem_declarations hk
  rcases kind.timer_or_other t _ e hkind with rfl | hother
  · rw [← hsymbol]
  · rw [hsymbol] at hother
    exact absurd (Blocks.head?_timerState n) hother

/-- The declaration of a timer's variable is registered in the end. -/
theorem mem_entries_timer
    (hcourse : Course ⟨g, t.backend⟩ (sections ⟨g, t.backend⟩ options) {} steps texts s)
    (hi : i ∈ Step.blocks steps) (htype : (g.node i).type = "time_every")
    (hin : g.isInside t.backend.containers i = true) :
    (Blocks.timerState (g.node i), Blocks.timerDeclaration t (Blocks.timerState (g.node i))) ∈
      s.declarations.entries := by
  have hcontains := hcourse.contains_declaration hi (mem_declarations_timer htype hin)
  have hstep := hcourse.precedes.inStep_declarations Collector.inStep_empty
  obtain ⟨e, he, hsymbol⟩ := List.mem_map.mp (hstep.contains_iff.mp hcontains)
  exact entry_of_timerState hcourse he hsymbol ▸ he

/-! ## In the source -/

/-- A declaration that is registered stands in the source. -/
theorem occurs_declaration {declarations : Collector} {text : String} {c : Char}
    (h : text ∈ declarations.texts) (hlast : text.toList.getLast? = some c) (hc : c ≠ '\n')
    (banner : Option String) (sections : List String) :
    Text.Occurs text (assemble declarations.flush banner sections) := by
  have hflush : Text.Occurs text declarations.flush :=
    (((Text.occurs_refl text).trimLineFeeds hlast hc).trans (Text.occurs_append_left _ _)).trans
      (Text.occurs_join (List.mem_map_of_mem h))
  have hne : declarations.flush.isEmpty = false := by
    obtain ⟨front, back, heq⟩ := hflush
    have htext : text ≠ "" := by
      rintro rfl
      cases hlast
    simp [heq, htext]
  exact (hflush.trimLineFeeds hlast hc).trans (occurs_assemble_part (by simp [hne]))

/-- In a compilation the block keeps its time in the variable of the name, and nothing else declares
a variable of that name. -/
structure KeepsTime (g : Graph) (t : Target) (options : Options) (i : NodeId) (state : String) :
    Prop where
  /-- Whenever its code is generated, that code reads and writes the variable. -/
  code : ∀ step ∈ compilationSteps ⟨g, t.backend⟩ options, step.request = .generate i →
    ∃ interval body s', play? ⟨g, t.backend⟩ (Script.generate i) step.run =
      some (.statement (Blocks.timedCode t state interval body), s')
  /-- Exactly one declaration is registered under the name. -/
  declared : (compileRun ⟨g, t.backend⟩ options).2.declarations.entries.filter (·.1 == state) =
    [(state, Blocks.timerDeclaration t state)]
  /-- That declaration stands in the source. -/
  shown : Text.Occurs (Blocks.timerDeclaration t state) (compile ⟨g, t.backend⟩ options).source

end Job

namespace Graph

variable {g : Graph} {t : Target} {options : Options} {i k : NodeId}

theorem lt_size_of_timer (htype : (g.node i).type = "time_every") : i < g.size := by
  by_contra hle
  rw [g.node_of_size_le (Nat.le_of_not_lt hle)] at htype
  exact absurd htype (by decide)

/-- A timed repeat keeps its time in the variable that is named after its key. -/
theorem Built.keepsTime (h : g.Built)
    (hi : i ∈ Step.blocks (Job.compilationSteps ⟨g, t.backend⟩ options))
    (htype : (g.node i).type = "time_every") :
    Job.KeepsTime g t options i (Blocks.timerState (g.node i)) := by
  obtain ⟨texts, s, hplay⟩ :=
    Job.exists_play? (j := ⟨g, t.backend⟩) h.isForest (Job.sections ⟨g, t.backend⟩ options) {}
  have hcourse : Job.Course ⟨g, t.backend⟩ _ _ (Job.compilationSteps ⟨g, t.backend⟩ options) _ _ :=
    Job.course_of_play? hplay
  have hin := Job.isInside_of_timer h hcourse hi htype
  have hentry := Job.mem_entries_timer hcourse hi htype hin
  refine ⟨fun step hstep hrequest => ?_, ?_, ?_⟩
  · obtain ⟨inside, c, s₁, hinside, -⟩ := hcourse.exists_inside hstep hrequest
    have hcode := hinside.play?_eq h.isForest
    rw [Job.blockScript_timer htype hin] at hinside
    obtain ⟨interval, body, rfl⟩ := Blocks.code_of_timedRepeat hinside
    exact ⟨interval, body, s₁, (Job.play?_generate h.isForest i step.run).trans hcode⟩
  · have hrun : (Job.compileRun ⟨g, t.backend⟩ options).2.declarations = s.declarations := by
      rw [Job.compileRun_of_play? hplay]
      rfl
    rw [hrun]
    exact (hcourse.precedes.inStep_declarations Collector.inStep_empty).filter_eq hentry
  · rw [Job.compile, Job.compileRun_of_play? hplay]
    obtain ⟨c, hlast, hc⟩ :=
      Blocks.exists_getLast?_timerDeclaration t (Blocks.timerState (g.node i))
    exact Job.occurs_declaration (List.mem_map_of_mem hentry) hlast hc _ _

/-- **Timed repeats that are not confused keep their time apart.**  Each timed repeat that a
compilation generates reads and writes a variable named after its key, which is declared exactly
once.  The variables of two timed repeats are the same iff their keys differ only in characters that
are neither letters nor digits; so they are different when both keys are names. -/
theorem Built.timers_apart (h : g.Built) (t : Target) (options : Options)
    (hi : i ∈ Step.blocks (Job.compilationSteps ⟨g, t.backend⟩ options))
    (hk : k ∈ Step.blocks (Job.compilationSteps ⟨g, t.backend⟩ options))
    (htype : (g.node i).type = "time_every") (htype' : (g.node k).type = "time_every")
    (hne : i ≠ k) :
    Job.KeepsTime g t options i (Blocks.timerState (g.node i)) ∧
    Job.KeepsTime g t options k (Blocks.timerState (g.node k)) ∧
    (Blocks.timerState (g.node i) = Blocks.timerState (g.node k) ↔
      Text.Confusable (g.node i).key (g.node k).key) ∧
    (Text.IsName (g.node i).key → Text.IsName (g.node k).key →
      Blocks.timerState (g.node i) ≠ Blocks.timerState (g.node k)) := by
  refine ⟨h.keepsTime hi htype, h.keepsTime hk htype', Blocks.timerState_eq_iff, ?_⟩
  intro hname hname' hstate
  have hkey := (Blocks.timerState_eq_iff.mp hstate).eq_of_isName hname hname'
  exact hne (h.isForest.keys i k (lt_size_of_timer htype) (lt_size_of_timer htype') hkey)

/-- An entry point whose loop holds two timed repeats with the given keys. -/
def timerDraft (first second : String) : Draft :=
  [.node "main" "arduino_entry", .node first "time_every", .node second "time_every",
    .setBody 0 "LOOP" [1, 2]].foldl (fun d e => Draft.Edit.apply e d) {}

theorem timerDraft_reachable (first second : String) : (timerDraft first second).Reachable :=
  Draft.reachable_of_edits rfl

theorem Built.timers_apart_blink :
    (timerDraft "blink" "poll").toGraph.Built ∧
      Blocks.timerState ((timerDraft "blink" "poll").toGraph.node 1) ≠
        Blocks.timerState ((timerDraft "blink" "poll").toGraph.node 2) ∧
      Text.Occurs "unsigned long every_poll_last = 0;"
        (Job.compile ⟨(timerDraft "blink" "poll").toGraph, Target.arduino.backend⟩ {}).source := by
  have hbuilt := (timerDraft_reachable "blink" "poll").built rfl
  obtain ⟨-, hpoll, -, hapart⟩ := hbuilt.timers_apart (i := 1) (k := 2) .arduino {} (by decide)
    (by decide) rfl rfl (by decide)
  refine ⟨hbuilt, hapart (by decide) (by decide), ?_⟩
  have hdeclaration : Blocks.timerDeclaration .arduino
      (Blocks.timerState ((timerDraft "blink" "poll").toGraph.node 2)) =
        "unsigned long every_poll_last = 0;" := by
    decide +kernel
  exact hdeclaration ▸ hpoll.shown

/-- Two timed repeats whose keys differ in a hyphen share their variable and its declaration. -/
theorem timers_shared :
    (timerDraft "a-b" "a_b").toGraph.Built ∧
      [1, 2] ⊆ Step.blocks
        (Job.compilationSteps ⟨(timerDraft "a-b" "a_b").toGraph, Target.arduino.backend⟩ {}) ∧
      Blocks.timerState ((timerDraft "a-b" "a_b").toGraph.node 1) =
        Blocks.timerState ((timerDraft "a-b" "a_b").toGraph.node 2) ∧
      (Job.compileRun ⟨(timerDraft "a-b" "a_b").toGraph, Target.arduino.backend⟩
        {}).2.declarations.entries =
          [("every_a_b_last", "unsigned long every_a_b_last = 0;")] := by
  refine ⟨(timerDraft_reachable "a-b" "a_b").built rfl, ?_, ?_, ?_⟩
  · decide
  · exact Blocks.timerState_eq_iff.mpr (by decide)
  · decide +kernel

end Graph

end BlockCompiler
