import BlockCompiler.Proofs.Generation.Alignment
import BlockCompiler.Proofs.Generation.Orphans

/-!
# Orphans leave no trace of what is in them

An orphan at top level is reported by its key and its type, and that is all a compilation
says about it: neither its fields nor its slots nor the blocks inside of it have any
influence, except that the always-emitted ones among these are generated like all
others of their kind.

What is hidden from a compilation is thus the inside of the orphans
(`Backend.hides`).  Two graphs agree outside their orphans (`Backend.AgreeOutside`) if
they have the same portraits of the nodes that are not hidden, the same roots, and
orphans with the same keys, types and next links; and if their always-emitted blocks,
hidden or not, have the same types and fields in the order of the nodes.  Such graphs
compile to the same product (`Built.orphans_isolated`).
-/

namespace BlockCompiler

open Relation

/-! ## What is hidden -/

namespace Backend

/-- The node is an orphan at top level or lies inside of one. -/
def hides (b : Backend) (g : Graph) (i : NodeId) : Bool :=
  (b.orphans g).any fun o => o == i || (g.descendants o).contains i

/-- The nodes that are not hidden. -/
def shown (b : Backend) (g : Graph) : List NodeId :=
  g.ids.filter (!b.hides g ·)

variable {b : Backend} {g g' : Graph}

theorem hides_iff (h : g.IsForest) {i : NodeId} :
    b.hides g i = true ↔ ∃ o ∈ b.orphans g, o = i ∨ TransGen g.Contains o i := by
  simp only [hides, List.any_eq_true, Bool.or_eq_true, beq_iff_eq, List.contains_iff_mem,
    h.mem_descendants_iff]

theorem mem_orphans_iff {i : NodeId} :
    i ∈ b.orphans g ↔ i ∈ Job.walk ⟨g, b⟩ ∧ Job.isPlaced ⟨g, b⟩ (g.node i).type = false := by
  rw [Job.orphans_eq ⟨g, b⟩, List.mem_filter, Bool.not_eq_true']
  rfl

/-- A node is hidden together with the node that contains it. -/
theorem hides_of_contains (h : g.IsForest) {o m : NodeId} (hom : g.Contains o m) :
    b.hides g o = true ↔ b.hides g m = true := by
  rw [hides_iff h, hides_iff h]
  refine exists_congr fun r => and_congr_right fun hr => ?_
  constructor
  · rintro (rfl | hro)
    · exact Or.inr (TransGen.single hom)
    · exact Or.inr (hro.tail hom)
  · rintro (rfl | hrm)
    · exact absurd hom (Job.not_contains_of_mem_walk (j := ⟨g, b⟩) h (mem_orphans_iff.mp hr).1 o)
    · obtain ⟨c, hrc, hcm⟩ := TransGen.tail'_iff.mp hrm
      obtain rfl := h.contains_unique hcm hom
      rcases reflTransGen_iff_eq_or_transGen.mp hrc with heq | hrc
      · exact Or.inl heq.symm
      · exact Or.inr hrc

/-- A placed block at top level is not hidden. -/
theorem hides_of_isPlaced (h : g.IsForest) {i : NodeId} (hi : i ∈ Job.walk ⟨g, b⟩)
    (hplaced : Job.isPlaced ⟨g, b⟩ (g.node i).type = true) : b.hides g i = false := by
  rw [← Bool.not_eq_true, hides_iff h]
  rintro ⟨o, ho, rfl | hcontains⟩
  · rw [(mem_orphans_iff.mp ho).2] at hplaced
    cases hplaced
  · obtain ⟨c, -, hc⟩ := TransGen.tail'_iff.mp hcontains
    exact Job.not_contains_of_mem_walk (j := ⟨g, b⟩) h hi c hc

end Backend

/-! ## Agreement -/

/-- The graphs agree in all but the inside of their orphans.  Nodes are compared by their keys, not
by their positions. -/
structure Backend.AgreeOutside (b : Backend) (g g' : Graph) : Prop where
  roots : g.roots.map g.keyOf = g'.roots.map g'.keyOf
  outside : ∀ n, n ∈ (b.shown g).map g.portrait ↔ n ∈ (b.shown g').map g'.portrait
  orphans : ∀ n, n ∈ (b.orphans g).map g.header ↔ n ∈ (b.orphans g').map g'.header
  aside : b.aside g = b.aside g'

namespace Backend.AgreeOutside

variable {b : Backend} {g g' : Graph}

theorem sharePortraits (h : b.AgreeOutside g g') (hg : g.IsForest) (hg' : g'.IsForest) :
    Graph.SharePortraits g g' (b.hides g · = false) (b.hides g' · = false) := by
  have hshown : ∀ {g : Graph} {n : Portrait}, n ∈ (b.shown g).map g.portrait ↔
      ∃ i < g.size, b.hides g i = false ∧ g.portrait i = n := by
    intro g n
    simp [shown, Graph.ids, and_assoc]
  have hclosed : ∀ {g : Graph}, g.IsForest → ∀ o m, g.Contains o m →
      (b.hides g o = false ↔ b.hides g m = false) := by
    intro g hg o m hom
    rw [← Bool.not_eq_true, ← Bool.not_eq_true]
    exact not_congr (hides_of_contains hg hom)
  exact ⟨hclosed hg, hclosed hg', fun n => by rw [← hshown, ← hshown]; exact h.outside n⟩

/-- A block at top level is either shown as a whole or told by its header. -/
theorem header_eq (h : b.AgreeOutside g g') (hg : g.IsForest) (hg' : g'.IsForest) {i i' : NodeId}
    (hi : i ∈ Job.walk ⟨g, b⟩) (hi' : i' < g'.size) (hkey : g.keyOf i = g'.keyOf i') :
    g.header i = g'.header i' := by
  cases hplaced : Job.isPlaced ⟨g, b⟩ (g.node i).type with
  | true =>
    have hpaired := (h.sharePortraits hg hg').paired_of_key hg'
      (Job.lt_size_of_mem_walk (j := ⟨g, b⟩) hg hi) (hides_of_isPlaced hg hi hplaced) hi' hkey
    exact hpaired.header_eq
  | false =>
    have hmem : g.header i ∈ (b.orphans g).map g.header :=
      List.mem_map_of_mem (mem_orphans_iff.mpr ⟨hi, hplaced⟩)
    obtain ⟨k, hk, hheader⟩ := List.mem_map.mp ((h.orphans _).mp hmem)
    have hlt : k < g'.size :=
      Job.lt_size_of_mem_walk (j := ⟨g', b⟩) hg' (mem_orphans_iff.mp hk).1
    -- The orphan with this header is the node with this key.
    obtain rfl := hg'.keys k i' hlt hi' ((congrArg (·.1) hheader).trans hkey)
    exact hheader.symm

theorem resemble (h : b.AgreeOutside g g') (hg : g.IsForest) (hg' : g'.IsForest) :
    b.Resemble g g' (b.hides g · = false) (b.hides g' · = false) where
  share := h.sharePortraits hg hg'
  roots := h.roots
  header _ hi _ hi' hkey := h.header_eq hg hg' hi hi' hkey
  placed _ hi hplaced := hides_of_isPlaced hg hi hplaced
  aside := h.aside

end Backend.AgreeOutside

/-! ## Isolation -/

namespace Graph

variable {g g' : Graph}

/-- **Orphans are isolated.**  What is inside of them reaches neither the declarations nor the setup
lines nor the diagnostics that a compilation collects, nor its product. -/
theorem Built.orphans_isolated (h : g.Built) (h' : g'.Built) (t : Target)
    (hagree : t.backend.AgreeOutside g g') (options : Options) :
    ∃ sections sections' s s',
      Job.play? ⟨g, t.backend⟩ (Job.sections ⟨g, t.backend⟩ options) {} = some (sections, s) ∧
      Job.play? ⟨g', t.backend⟩ (Job.sections ⟨g', t.backend⟩ options) {} = some (sections', s') ∧
      s'.declarations = s.declarations ∧ s'.setups = s.setups ∧
      s'.diagnostics = s.diagnostics ∧
      Job.compile ⟨g', t.backend⟩ options = Job.compile ⟨g, t.backend⟩ options := by
  have haligned := (hagree.resemble h.isForest h'.isForest).aligned h h'
  obtain ⟨sections, sections', s, s', hplay, hplay', houtput, hcompile⟩ :=
    haligned.compile_eq options
  exact ⟨sections, sections', s, s', hplay, hplay', (congrArg Run.declarations houtput).symm,
    (congrArg Run.setups houtput).symm, (congrArg Run.diagnostics houtput).symm, hcompile⟩

/-- An entry point beside a stray print, in whose slots stand a number and a serial setup. -/
def strayPrintDraft : Draft :=
  [.node "entry" "arduino_entry", .node "stray" "serial_print", .node "number" "math_number",
    .node "serial" "serial_setup", .setField 1 "NEWLINE" "FALSE", .setValue 1 "VALUE" 2,
    .setStatement 1 "DO" 3].foldl (fun d e => Draft.Edit.apply e d) {}

/-- The same but for the inside of the print: it holds a serial setup of another key, and
nothing else. -/
def otherStrayPrintDraft : Draft :=
  [.node "line" "serial_setup", .node "entry" "arduino_entry", .node "stray" "serial_print",
    .setStatement 2 "ELSE" 0].foldl (fun d e => Draft.Edit.apply e d) {}

theorem strayPrintDraft_built : strayPrintDraft.toGraph.Built :=
  (Draft.reachable_of_edits rfl : strayPrintDraft.Reachable).built rfl

theorem otherStrayPrintDraft_built : otherStrayPrintDraft.toGraph.Built :=
  (Draft.reachable_of_edits rfl : otherStrayPrintDraft.Reachable).built rfl

theorem strayPrintDraft_agreeOutside :
    Target.arduino.backend.AgreeOutside strayPrintDraft.toGraph otherStrayPrintDraft.toGraph where
  roots := rfl
  outside n := iff_of_eq (congrArg (n ∈ ·) rfl)
  orphans n := iff_of_eq (congrArg (n ∈ ·) rfl)
  aside := rfl

theorem Built.orphans_isolated_strayPrint :
    (∃ i, Target.arduino.backend.hides strayPrintDraft.toGraph i = true) ∧
      Job.compile ⟨otherStrayPrintDraft.toGraph, Target.arduino.backend⟩ {} =
        Job.compile ⟨strayPrintDraft.toGraph, Target.arduino.backend⟩ {} := by
  obtain ⟨-, -, -, -, -, -, -, -, -, hcompile⟩ := Built.orphans_isolated strayPrintDraft_built
    otherStrayPrintDraft_built .arduino strayPrintDraft_agreeOutside {}
  exact ⟨⟨2, by decide⟩, hcompile⟩

end Graph

end BlockCompiler
