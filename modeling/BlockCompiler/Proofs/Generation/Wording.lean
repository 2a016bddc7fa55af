import BlockCompiler.Proofs.Generation.Alignment
import BlockCompiler.Proofs.Generation.Weaving

/-!
# What the wording of a text can change

`Graph.Rewords` relates the graphs that differ in the text of one text block only.  All
other blocks are counterparts in them (`Rewords.counterparts`), so they are compiled in
lockstep, and their sources come from one template with the literals of the texts in its
open places (`Rewords.exists_template`).

Of the line ends that the target languages know, a literal escapes the line feed and leaves
the carriage return.  So the number of physical lines follows the number of carriage returns
in the text, and nothing else of it (`Graph.length_physicalLines_withText`).
-/

namespace BlockCompiler

open Text Script

/-- The second graph is the first one, with another text in the block `k`. -/
structure Graph.Rewords (g : Graph) (k : NodeId) (g' : Graph) (text : String) : Prop where
  size_eq : g'.size = g.size
  roots_eq : g'.roots = g.roots
  node_eq : ∀ i, i ≠ k → g'.node i = g.node i
  text_eq : ∃ fields : Dict String, g'.node k = { g.node k with fields := fields } ∧
    (fields.get? "TEXT").getD "" = text

namespace Graph.Rewords

variable {g g' : Graph} {k : NodeId} {text : String} (h : g.Rewords k g' text)

include h

theorem exists_fields (i : NodeId) : ∃ fields, g'.node i = { g.node i with fields := fields } := by
  by_cases hi : i = k
  · subst hi
    obtain ⟨fields, hnode, -⟩ := h.text_eq
    exact ⟨fields, hnode⟩
  · exact ⟨_, h.node_eq i hi⟩

theorem type_eq (i : NodeId) : (g'.node i).type = (g.node i).type := by
  obtain ⟨fields, hnode⟩ := h.exists_fields i
  rw [hnode]

theorem key_eq (i : NodeId) : (g'.node i).key = (g.node i).key := by
  obtain ⟨fields, hnode⟩ := h.exists_fields i
  rw [hnode]

theorem sameLinks : g.SameLinks g' := by
  refine ⟨h.size_eq, fun i => ?_⟩
  obtain ⟨fields, hnode⟩ := h.exists_fields i
  rw [hnode]

/-- A text block assigns nothing, whatever it says. -/
theorem assignedName?_eq (hk : (g.node k).type = "text") (i : NodeId) :
    Blocks.assignedName? (g'.node i) = Blocks.assignedName? (g.node i) := by
  by_cases hi : i = k
  · subst hi
    simp only [Blocks.assignedName?, h.type_eq, hk]
    rfl
  · rw [h.node_eq i hi]

variable (b : Backend)

/-- **The other blocks agree in all that generators look at**: none of them looks at the text. -/
theorem counterparts (hk : (g.node k).type = "text") {i : NodeId} (hi : i ≠ k) :
    Job.Counterparts ⟨g, b⟩ g' Eq (fun _ => False) i i := by
  have hancestors : List.Forall₂ Eq (g.ancestors i) (g'.ancestors i) := by
    rw [h.sameLinks.ancestors_eq]
    exact List.forall₂_refl _
  have htype : ∀ a a', a = a' → (g'.node a').type = (g.node a).type := by
    rintro a _ rfl
    exact h.type_eq a
  have hslots : SlotsMatch g g' Eq (fun _ => False) (g.node i) (g'.node i) := by
    rw [h.node_eq i hi]
    refine ⟨fun slot => ?_, fun slot => ?_, fun _ => rfl⟩
    · cases (g.node i).values.get? slot with
      | none => exact .none
      | some child => exact .some rfl
    · cases (g.node i).statements.get? slot with
      | none => exact .none
      | some head =>
        rw [h.sameLinks.chain_eq]
        exact .some (.of_forall₂ (List.forall₂_refl _))
  refine ⟨h.key_eq i, h.type_eq i, ?_, hslots, isInside_of_forall₂ htype hancestors b.containers,
    enclosingWithin_of_forall₂ htype hancestors loopTypes b.containers, fun params => ?_⟩
  · rw [h.node_eq i hi]
    rfl
  · refine Blocks.assignedGlobals_congr (fun name => ?_) params
    simp only [Job.node, h.sameLinks.descendants_eq, h.assignedName?_eq hk]

theorem alwaysEmitted_eq : Job.alwaysEmitted ⟨g', b⟩ = Job.alwaysEmitted ⟨g, b⟩ := by
  simp only [Job.alwaysEmitted, Job.node, Graph.ids, h.size_eq, h.type_eq]

theorem parallel_blockScript (hk : (g.node k).type = "text") {i : NodeId} (hi : i ≠ k) :
    (Job.blockScript ⟨g, b⟩ i).Parallel Eq (fun _ => False) (fun _ => True)
      (Job.blockScript ⟨g', b⟩ i) := by
  refine (h.counterparts b hk hi).parallel_blockScript (fun _ _ => trivial) ?_ trivial trivial
  rw [Job.on, h.alwaysEmitted_eq]
  exact List.forall₂_refl _

theorem sections_eq (options : Options) :
    Job.sections ⟨g', b⟩ options = Job.sections ⟨g, b⟩ options := by
  have hentry : Job.isEntry ⟨g', b⟩ = Job.isEntry ⟨g, b⟩ := by
    funext root
    simp only [Job.isEntry, Job.node, h.type_eq]
  have horder : Job.generationOrder ⟨g', b⟩ = Job.generationOrder ⟨g, b⟩ := by
    simp only [Job.generationOrder, hentry, h.roots_eq]
  have htop : Job.topLevel ⟨g', b⟩ options = Job.topLevel ⟨g, b⟩ options := by
    funext i
    simp only [Job.topLevel, Job.node, h.type_eq, h.key_eq]
    rfl
  have hroot : Job.rootSection ⟨g', b⟩ options = Job.rootSection ⟨g, b⟩ options := by
    funext root
    simp only [Job.rootSection, Job.stack, h.sameLinks.chain_eq, htop]
  rw [Job.sections, Job.sections, horder, hroot]

theorem arrange_eq : Job.arrange ⟨g', b⟩ = Job.arrange ⟨g, b⟩ := by
  funext sections
  simp only [Job.arrange, h.roots_eq]
  rfl

omit h

/-- **Whatever a text says, it stands in the same places of the same source.** -/
theorem exists_template (hk : (g.node k).type = "text") (t : Target) (options : Options) :
    ∃ T : Template, ∀ g' text, g.Rewords k g' text →
      (Job.compile ⟨g', t.backend⟩ options).source.toList =
        T.fill (Blocks.literal t.quoteMark text).toList := by
  -- The family of all graphs with another text.
  let Variant := { v : Graph × String // g.Rewords k v.1 v.2 }
  let pieces : Variant → List Char := fun v => (Blocks.literal t.quoteMark v.1.2).toList
  have hpieces : ∀ v, Sealed t.quoteMark (pieces v) := fun v => Literal.sealed_literal t v.1.2
  have hblocks : ∀ i, InStep (Code.Woven pieces) (Code.Woven pieces) fun v =>
      Job.blockScript ⟨v.1.1, t.backend⟩ i := by
    intro i
    by_cases hi : i = k
    · subst hi
      have hscript : ∀ v : Variant, Job.blockScript ⟨v.1.1, t.backend⟩ i =
          pure (.expression (Blocks.literal t.quoteMark v.1.2) Order.atomic) := by
        intro v
        have hkind : ((v.1.1.node i).type, BlockKind.text) ∈ t.typeKinds := by
          rw [v.2.type_eq, hk]
          cases t <;> decide
        obtain ⟨fields, hnode, htext⟩ := v.2.text_eq
        rw [Job.blockScript_of_mem hkind]
        simp only [Generator.script, Job.node, Blocks.text, hnode, htext]
      simp only [hscript]
      exact .pure (.expression _ (woven_pieces fun v => rfl))
    · exact (Job.inStep_blockScript hpieces i).of_parallel fun v =>
        v.2.parallel_blockScript t.backend hk hi
  have hdepth : ∀ v : Variant, Job.depthBound ⟨v.1.1, t.backend⟩ = Job.depthBound ⟨g, t.backend⟩ := by
    intro v
    rw [Job.depthBound, Job.depthBound, v.2.size_eq]
  have hsource : Woven pieces fun v => (Job.compile ⟨v.1.1, t.backend⟩ options).source :=
    Job.woven_source hpieces (Literal.isBlank_quoteMark t) hdepth hblocks
      (fun v => v.2.sections_eq _ options) (fun v => v.2.arrange_eq _) fun _ => rfl
  obtain ⟨T, hT⟩ := hsource
  exact ⟨T, fun g' text hv => hT ⟨(g', text), hv⟩⟩

end Graph.Rewords

/-! ## Physical lines -/

namespace Graph

/-- The text of a text block. -/
def textOf (g : Graph) (k : NodeId) : String :=
  ((g.node k).fields.get? "TEXT").getD ""

/-- The graph with another text in a block. -/
def withText (g : Graph) (k : NodeId) (text : String) : Graph :=
  { g with nodes := g.nodes.modify k fun n => { n with fields := n.fields.insert "TEXT" text } }

variable {g : Graph} {k : NodeId}

theorem rewords_self : g.Rewords k g (g.textOf k) :=
  ⟨rfl, rfl, fun _ _ => rfl, (g.node k).fields, rfl, rfl⟩

theorem rewords_withText (hk : (g.node k).type = "text") (text : String) :
    g.Rewords k (g.withText k text) text := by
  have hlt : k < g.nodes.size := by
    refine Nat.lt_of_not_le fun hle => ?_
    rw [node_of_size_le g hle] at hk
    exact absurd hk (by decide)
  have hnode : ∀ i, (g.withText k text).node i =
      if k = i then { g.node i with fields := (g.node i).fields.insert "TEXT" text }
      else g.node i := by
    intro i
    by_cases hi : i < g.nodes.size
    · by_cases hki : k = i
      · subst hki
        simp [node, withText, hi, Array.getElem_modify]
      · simp [node, withText, hi, hki, Array.getElem_modify]
    · have hki : k ≠ i := fun heq => hi (heq ▸ hlt)
      simp [node, withText, hi, hki]
  refine ⟨Array.size_modify, rfl, fun i hi => ?_, (g.node k).fields.insert "TEXT" text, ?_, ?_⟩
  · rw [hnode, if_neg (Ne.symm hi)]
  · rw [hnode, if_pos rfl]
  · rw [Dict.get?_insert, if_pos rfl]
    rfl

/-- **What a text changes in the lines of the source**: each place where it is used has a line more
for every carriage return in it.  Texts with as many carriage returns, none for instance, make
sources of as many lines. -/
theorem length_physicalLines_withText (hk : (g.node k).type = "text") (t : Target)
    (options : Options) :
    ∃ copies, ∀ text,
      (physicalLines
          (Job.compile ⟨g.withText k text, t.backend⟩ options).source.toList).length +
        copies * (g.textOf k).toList.count '\r' =
      (physicalLines (Job.compile ⟨g, t.backend⟩ options).source.toList).length +
        copies * text.toList.count '\r' := by
  obtain ⟨T, hT⟩ := Rewords.exists_template hk t options
  have hlines : ∀ g' text, g.Rewords k g' text →
      (physicalLines (Job.compile ⟨g', t.backend⟩ options).source.toList).length =
        (physicalLines (T.fill [t.quoteMark, t.quoteMark])).length +
          T.count none * text.toList.count '\r' := by
    intro g' text hg'
    rw [hT g' text hg', (Literal.sealed_literal t text).length_physicalLines_fill
      (Literal.isBlank_quoteMark t), Literal.count_literal]
  refine ⟨T.count none, fun text => ?_⟩
  rw [hlines _ text (rewords_withText hk text), hlines _ _ rewords_self]
  omega

/-- A function that returns a text. -/
def wordingDraft (text : String) : Draft :=
  [.node "answer" "procedures_defreturn", .node "words" "text", .setField 1 "TEXT" text,
    .setValue 0 "RETURN" 1].foldl (fun d e => Draft.Edit.apply e d) {}

theorem wordingDraft_reachable (text : String) : (wordingDraft text).Reachable :=
  Draft.reachable_of_edits rfl

/-- Quotes, backslashes and line feeds add no lines. -/
theorem length_physicalLines_withText_quotes :
    (wordingDraft "ab").toGraph.Built ∧ ((wordingDraft "ab").toGraph.node 1).type = "text" ∧
      (physicalLines (Job.compile ⟨(wordingDraft "ab").toGraph.withText 1 "'\\\n'\n\\",
        Target.microPython.backend⟩ {}).source.toList).length =
      (physicalLines (Job.compile ⟨(wordingDraft "ab").toGraph,
        Target.microPython.backend⟩ {}).source.toList).length := by
  refine ⟨(wordingDraft_reachable "ab").built rfl, rfl, ?_⟩
  obtain ⟨copies, hlines⟩ :=
    length_physicalLines_withText (g := (wordingDraft "ab").toGraph) (k := 1) rfl .microPython {}
  have hold : ((wordingDraft "ab").toGraph.textOf 1).toList.count '\r' = 0 := by decide
  have hnew : "'\\\n'\n\\".toList.count '\r' = 0 := by decide
  have hsame := hlines "'\\\n'\n\\"
  rwa [hold, hnew, Nat.mul_zero, Nat.add_zero, Nat.add_zero] at hsame

/-- A carriage return in a text stands in the source as it is, and ends a line there. -/
theorem carriage_return_ends_line :
    (wordingDraft "ab").toGraph.Built ∧ ((wordingDraft "ab").toGraph.node 1).type = "text" ∧
      (physicalLines (Job.compile ⟨(wordingDraft "ab").toGraph,
        Target.microPython.backend⟩ { banner := false }).source.toList).length = 2 ∧
      (physicalLines (Job.compile ⟨(wordingDraft "ab").toGraph.withText 1 "a\rb",
        Target.microPython.backend⟩ { banner := false }).source.toList).length = 3 := by
  refine ⟨(wordingDraft_reachable "ab").built rfl, rfl, ?_, ?_⟩
  · decide +kernel
  · decide +kernel

end Graph

end BlockCompiler
