import BlockCompiler.Proofs.Generation.Depth
import BlockCompiler.Proofs.Generation.Registry
import BlockCompiler.Proofs.Generation.Visits
import Mathlib.Logic.Equiv.Basic

/-!
# One graph for two targets

A program for one target becomes one for another when its entry points change their
type.  `Graph.retype` changes the types of all nodes by a function, and nothing else;
what it makes of a built graph is a built graph (`Built.retype`).

Two backends agree up to such a change if they take each type, and what it is changed
into, for the same kind of block and for the same sort of container
(`Backend.Agrees`).  The outlines of all blocks are then the same, and so are the
diagnostics up to their wording (`Backend.Agrees.tally_play?`).  The backends of any
two targets agree up to the exchange of their entry types.
-/

namespace BlockCompiler

/-! ## Changing types -/

/-- The node with its type changed. -/
def Node.retype (f : String → String) (n : Node) : Node :=
  { n with type := f n.type }

/-- The graph with the types of its nodes changed. -/
def Graph.retype (f : String → String) (g : Graph) : Graph :=
  { g with nodes := g.nodes.map (Node.retype f) }

/-- The draft with the types of its nodes changed. -/
def Draft.retype (f : String → String) (d : Draft) : Draft :=
  { d with nodes := d.nodes.map (Node.retype f) }

section Retype

variable {f : String → String}

/-- Links do not depend on types. -/
@[simp] theorem Node.target?_retype (n : Node) (p : Place) :
    (n.retype f).target? p = n.target? p := by
  cases p <;> rfl

theorem Graph.size_retype (g : Graph) : (g.retype f).size = g.size :=
  Array.size_map

theorem Draft.size_retype (d : Draft) : (d.retype f).size = d.size :=
  Array.size_map

/-- Outside of a list of nodes stands the default node, which has the empty type. -/
theorem getD_map_retype (hf : f "" = "") (nodes : Array Node) (i : NodeId) :
    (nodes.map (Node.retype f)).getD i default = (nodes.getD i default).retype f := by
  by_cases hi : i < nodes.size
  · simp [hi]
  · have hdefault : (default : Node).retype f = default := by
      rw [Node.retype, show f (default : Node).type = "" from hf]
      rfl
    simp [hi, hdefault]

theorem Graph.node_retype (hf : f "" = "") (g : Graph) (i : NodeId) :
    (g.retype f).node i = (g.node i).retype f :=
  getD_map_retype hf g.nodes i

theorem Draft.node_retype (hf : f "" = "") (d : Draft) (i : NodeId) :
    (d.retype f).node i = (d.node i).retype f :=
  getD_map_retype hf d.nodes i

/-! ## Building -/

namespace Draft

variable (hf : f "" = "") (d : Draft)

include hf

theorem key_retype (i : NodeId) : (d.retype f).key i = d.key i := by
  rw [key, d.node_retype hf]
  rfl

theorem links_retype : (d.retype f).links = d.links := by
  simp only [links, ids, d.size_retype, d.node_retype hf]
  rfl

/-- Sequences follow links, so they stay the same. -/
theorem chainFrom_retype (steps : Nat) (i : NodeId) :
    Graph.chainFrom (d.retype f).node steps i = Graph.chainFrom d.node steps i := by
  refine Graph.chainFrom_congr (fun k => ?_) steps i
  rw [d.node_retype hf]
  rfl

theorem containment_retype : (d.retype f).containment = d.containment := by
  simp only [containment, ids, d.size_retype, d.node_retype hf, d.chainFrom_retype hf]
  rfl

theorem owners_retype : (d.retype f).owners = d.owners := by
  rw [owners, owners, d.size_retype, d.links_retype hf]

/-- A draft has the same roots after the change. -/
theorem rootList_retype : (d.retype f).rootList = d.rootList := by
  simp only [rootList, ids, d.size_retype, d.owners_retype hf]
  rfl

/-- What makes a draft defective does not depend on types. -/
theorem defect?_retype : (d.retype f).defect? = d.defect? := by
  refine defect?_congr d.size_retype rfl (funext (d.key_retype hf)) (funext fun i => ?_)
  rw [targets, d.node_retype hf]
  rfl

/-- Types may be changed before or after a graph is made of a draft. -/
theorem toGraph_retype : (d.retype f).toGraph = d.toGraph.retype f := by
  simp only [toGraph, Graph.retype, d.size_retype, d.containment_retype hf, d.rootList_retype hf]
  congr 1
  refine Array.ext (by simp [retype]) fun i _ _ => ?_
  simp [retype, Node.retype]

end Draft

/-- A built graph stays one when the types of its nodes are changed. -/
theorem Graph.Built.retype (hf : f "" = "") {g : Graph} (h : g.Built) : (g.retype f).Built := by
  obtain ⟨d, hc, hb⟩ := h
  obtain rfl := Draft.eq_toGraph_of_build hb
  refine ⟨d.retype f, ⟨fun i p t ht => ?_, fun r hr => ?_⟩, ?_⟩
  · rw [d.node_retype hf, Node.target?_retype] at ht
    rw [d.size_retype]
    exact hc.target_lt i p t ht
  · rw [d.size_retype]
    exact hc.root_lt r hr
  · rw [Draft.build] at hb ⊢
    rw [d.defect?_retype hf, d.toGraph_retype hf]
    cases hdefect : d.defect? with
    | none => rfl
    | some defect =>
      rw [hdefect] at hb
      cases hb

/-! ## Walks -/

namespace Graph

variable (hf : f "" = "") (g : Graph)

include hf

/-- Changing types leaves links as they are, and with them all walks. -/
theorem sameLinks_retype : g.SameLinks (g.retype f) := by
  refine ⟨g.size_retype, fun i => ?_⟩
  rw [g.node_retype hf]
  rfl

/-- A node is inside of the same nodes, which are of allowed types as before. -/
theorem isInside_retype {allowed allowed' : TypeSet}
    (hallowed : ∀ type, allowed'.contains (f type) = allowed.contains type) (i : NodeId) :
    (g.retype f).isInside allowed' i = g.isInside allowed i := by
  simp only [isInside, enclosing?, (g.sameLinks_retype hf).ancestors_eq, g.node_retype hf, Node.retype, hallowed]

theorem held_retype (n : Node) (p : Place) : (g.retype f).held (n.retype f) p = g.held n p := by
  simp only [held, Node.target?_retype, (g.sameLinks_retype hf).chain_eq]

/-- What stands at the places of a node is the same. -/
theorem visits_retype (n : Node) (places : List Place) :
    (g.retype f).visits (n.retype f) places = g.visits n places := by
  simp only [visits, g.held_retype hf]

end Graph

end Retype

/-! ## Backends that agree -/

/-- The backends take a type, and what it is changed into, for the same. -/
structure Backend.Agrees (f : String → String) (b b' : Backend) : Prop where
  blank : f "" = ""
  kind : ∀ type, (b'.generators.get? (f type)).map (·.kind) = (b.generators.get? type).map (·.kind)
  containers : ∀ type, b'.containers.contains (f type) = b.containers.contains type
  alwaysEmitted : ∀ type, b'.alwaysEmitted.contains (f type) = b.alwaysEmitted.contains type
  entryPoints : ∀ type, b'.entryPoints.contains (f type) = b.entryPoints.contains type
  returnsValue : ∀ type, f type = "procedures_defreturn" ↔ type = "procedures_defreturn"

namespace Backend.Agrees

variable {f : String → String} {b b' : Backend} (h : b.Agrees f b') (g : Graph)

include h

/-- The pass goes over the same blocks. -/
theorem alwaysEmitted_eq :
    Job.alwaysEmitted ⟨g.retype f, b'⟩ = Job.alwaysEmitted ⟨g, b⟩ := by
  simp only [Job.alwaysEmitted, Job.node, Graph.ids, g.size_retype, g.node_retype h.blank,
    Node.retype, h.alwaysEmitted]

/-- Of a node only the places of a procedure look at the type. -/
theorem places_eq (kind : BlockKind) (n : Node) : kind.places (n.retype f) = kind.places n := by
  have hreturns : Blocks.returnsValue (n.retype f) = Blocks.returnsValue n := by
    rw [Blocks.returnsValue, Blocks.returnsValue, Bool.eq_iff_iff, beq_iff_eq, beq_iff_eq]
    exact h.returnsValue n.type
  cases kind with
  | procedure => simp only [BlockKind.places, hreturns]
  | _ => rfl

/-- The outline of a kind asks for the type of its block nowhere, except for what a procedure
returns. -/
theorem kindOutline_eq (kind : BlockKind) (i : NodeId) :
    kind.outline ⟨g.retype f, b'⟩ i = kind.outline ⟨g, b⟩ i := by
  simp only [BlockKind.outline, Job.node, g.node_retype h.blank, h.alwaysEmitted_eq,
    g.isInside_retype h.blank h.containers, g.visits_retype h.blank, h.places_eq]
  rfl

/-- The outline of a block depends on its type only by the kind. -/
theorem outline_eq (i : NodeId) : Job.outline ⟨g.retype f, b'⟩ i = Job.outline ⟨g, b⟩ i := by
  have hkind := h.kind (g.node i).type
  simp only [Job.outline, Job.node, g.node_retype h.blank, Node.retype]
  cases hg : b.generators.get? (g.node i).type with
  | none =>
    rw [hg, Option.map_none, Option.map_eq_none_iff] at hkind
    rw [hkind]
  | some gen =>
    rw [hg, Option.map_some] at hkind
    obtain ⟨gen', hgen', hsame⟩ := Option.map_eq_some_iff.mp hkind
    simp only [hgen', hsame]
    exact h.kindOutline_eq g gen.kind i

theorem topOutline_eq (i : NodeId) :
    Job.topOutline ⟨g.retype f, b'⟩ i = Job.topOutline ⟨g, b⟩ i := by
  simp only [Job.topOutline, Job.isPlaced, Job.node, g.node_retype h.blank, Node.retype,
    h.containers, h.alwaysEmitted]
  rfl

theorem stackOutline_eq (root : NodeId) :
    ((g.retype f).chain root).flatMap (Job.topOutline ⟨g.retype f, b'⟩) =
      (g.chain root).flatMap (Job.topOutline ⟨g, b⟩) := by
  rw [(g.sameLinks_retype h.blank).chain_eq, funext (h.topOutline_eq g)]

/-- A compilation makes the same moves as before. -/
theorem compilationOutline_eq :
    Job.compilationOutline ⟨g.retype f, b'⟩ = Job.compilationOutline ⟨g, b⟩ := by
  have hentry : ∀ root, Job.isEntry ⟨g.retype f, b'⟩ root = Job.isEntry ⟨g, b⟩ root := by
    intro root
    simp only [Job.isEntry, Job.node, g.node_retype h.blank, Node.retype, h.entryPoints]
  have horder : Job.generationOrder ⟨g.retype f, b'⟩ = Job.generationOrder ⟨g, b⟩ := by
    simp only [Job.generationOrder, funext hentry]
    rfl
  simp only [Job.compilationOutline, horder, h.stackOutline_eq g]

/-- A preview makes the same moves as before. -/
theorem fragmentOutline_eq (i : NodeId) :
    Job.fragmentOutline ⟨g.retype f, b'⟩ i = Job.fragmentOutline ⟨g, b⟩ i := by
  simp only [Job.fragmentOutline, h.stackOutline_eq g]
  rfl

/-- **Scripts with one outline leave the same tally** on a graph and on the retyped one. -/
theorem tally_play? {α : Type} {script script' : Script α} {moves : List Move}
    (hscript : script.Outlines moves) (hscript' : script'.Outlines moves) (s : Run) :
    (Job.play? ⟨g.retype f, b'⟩ script' s).map (·.2.tally) =
      (Job.play? ⟨g, b⟩ script s).map (·.2.tally) := by
  have hbound : Job.depthBound ⟨g.retype f, b'⟩ = Job.depthBound ⟨g, b⟩ := by
    simp only [Job.depthBound, g.size_retype]
  rw [Job.map_tally_play? _ hscript, Job.map_tally_play? _ hscript', hbound,
    funext (h.outline_eq g)]

/-- Scripts with the same outline leave the same remarks. -/
theorem remarks_play {α : Type} [Inhabited α] {script script' : Script α} {moves : List Move}
    (hscript : script.Outlines moves) (hscript' : script'.Outlines moves) :
    (Job.play ⟨g.retype f, b'⟩ script' {}).2.tally.remarks =
      (Job.play ⟨g, b⟩ script {}).2.tally.remarks := by
  have htally := h.tally_play? g hscript hscript' {}
  unfold Job.play
  cases hplay : Job.play? ⟨g, b⟩ script {} with
  | none =>
    rw [hplay, Option.map_none, Option.map_eq_none_iff] at htally
    rw [htally]
  | some r =>
    rw [hplay, Option.map_some] at htally
    obtain ⟨r', hr', hsame⟩ := Option.map_eq_some_iff.mp htally
    rw [hr']
    exact congrArg Tally.remarks hsame

end Backend.Agrees

/-! ## The targets -/

/-- The types of two targets' entry points change places. -/
def Target.exchange (t t' : Target) : String → String :=
  Equiv.swap t.entryType t'.entryType

namespace Target

variable {t t' : Target}

/-- All other types stay what they are. -/
theorem exchange_of_ne {type : String} (h : type ≠ t.entryType) (h' : type ≠ t'.entryType) :
    t.exchange t' type = type :=
  Equiv.swap_apply_of_ne_of_ne h h'

/-- Only the entry type of the one target becomes that of the other. -/
theorem exchange_eq_entryType_iff {type : String} :
    t.exchange t' type = t'.entryType ↔ type = t.entryType := by
  rw [exchange, Equiv.swap_apply_eq_iff, Equiv.swap_apply_right]

/-- A name that is no entry type is the exchanged form of itself only. -/
theorem exchange_eq_iff {name : String} (h : ∀ t : Target, name ≠ t.entryType) {type : String} :
    t.exchange t' type = name ↔ type = name := by
  rw [exchange, Equiv.swap_apply_eq_iff, Equiv.swap_apply_of_ne_of_ne (h t) (h t')]

/-- Names that are no entry types are found as before. -/
theorem mem_exchange_iff {names : List String} (h : ∀ name ∈ names, ∀ t : Target, name ≠ t.entryType)
    {type : String} : t.exchange t' type ∈ names ↔ type ∈ names := by
  constructor
  · intro hmem
    rwa [(exchange_eq_iff (h _ hmem)).mp rfl]
  · intro hmem
    rwa [(exchange_eq_iff (h _ hmem)).mpr rfl]

theorem sharedTypes_ne_entryType : ∀ e ∈ sharedTypes, ∀ t : Target, e.1 ≠ t.entryType := by
  intro e he t
  revert e
  cases t <;> decide

/-- The targets know the same types of the same kinds, up to the exchange. -/
theorem mem_typeKinds_exchange_iff {type : String} {kind : BlockKind} :
    (t.exchange t' type, kind) ∈ t'.typeKinds ↔ (type, kind) ∈ t.typeKinds := by
  simp only [typeKinds, List.mem_cons, Prod.mk.injEq, exchange_eq_entryType_iff]
  refine or_congr_right ⟨fun hmem => ?_, fun hmem => ?_⟩
  · have hsame : type = t.exchange t' type :=
      (exchange_eq_iff (sharedTypes_ne_entryType _ hmem)).mp rfl
    rwa [← hsame] at hmem
  · have hsame : t.exchange t' type = type :=
      (exchange_eq_iff (sharedTypes_ne_entryType _ hmem)).mpr rfl
    rwa [hsame]

/-- The generators of a target are those of its table of kinds. -/
theorem map_kind_get?_eq_some_iff {type : String} {kind : BlockKind} :
    (t.backend.generators.get? type).map (·.kind) = some kind ↔ (type, kind) ∈ t.typeKinds := by
  constructor
  · intro hmap
    obtain ⟨g, hg, rfl⟩ := Option.map_eq_some_iff.mp hmap
    exact mem_typeKinds_of_get? hg
  · intro hmem
    rw [get?_of_mem_typeKinds hmem]
    rfl

/-- The backends of two targets agree up to their entry types. -/
theorem backend_agrees (t t' : Target) : t.backend.Agrees (t.exchange t') t'.backend where
  blank := exchange_of_ne (by cases t <;> decide) (by cases t' <;> decide)
  kind type := by
    refine Option.ext fun kind => ?_
    rw [map_kind_get?_eq_some_iff, map_kind_get?_eq_some_iff, mem_typeKinds_exchange_iff]
  containers type := by
    have hrest : ∀ name ∈ ["procedures_defnoreturn", "procedures_defreturn"],
        ∀ t : Target, name ≠ t.entryType := by
      intro name hname t
      revert name
      cases t <;> decide
    rw [Bool.eq_iff_iff]
    simp only [backend, TypeSet.contains_ofList]
    rw [List.mem_cons, List.mem_cons (a := type), exchange_eq_entryType_iff, mem_exchange_iff hrest]
  alwaysEmitted type := by
    have hnames : ∀ name ∈ ["serial_setup", "servo_attach", "interrupt_attach"],
        ∀ t : Target, name ≠ t.entryType := by
      intro name hname t
      revert name
      cases t <;> decide
    rw [Bool.eq_iff_iff]
    simp only [backend, TypeSet.contains_ofList]
    exact mem_exchange_iff hnames
  entryPoints type := by
    rw [Bool.eq_iff_iff]
    simp only [backend, TypeSet.contains_ofList, List.mem_singleton]
    exact exchange_eq_entryType_iff
  returnsValue type := exchange_eq_iff fun t => by cases t <;> decide

end Target

namespace Graph

/-- **All targets judge a graph alike.**  Let the entry types of two targets change places in a
built graph.  What comes out is a built graph, and compiling the one graph for the one target and
the other graph for the other comes to an end and reports the same blocks for the same reasons, in
the same order; so does showing a block of either graph on its own. -/
theorem Built.same_subjects {g : Graph} (h : g.Built) (t t' : Target) :
    (g.retype (t.exchange t')).Built ∧
    (∀ options,
      (Job.play? ⟨g, t.backend⟩ (Job.sections ⟨g, t.backend⟩ options) {}).isSome ∧
      (Job.play? ⟨g.retype (t.exchange t'), t'.backend⟩
        (Job.sections ⟨g.retype (t.exchange t'), t'.backend⟩ options) {}).isSome ∧
      (Job.compile ⟨g.retype (t.exchange t'), t'.backend⟩ options).diagnostics.map (·.subject) =
        (Job.compile ⟨g, t.backend⟩ options).diagnostics.map (·.subject)) ∧
    ∀ i,
      (Job.play? ⟨g, t.backend⟩ (Job.fragmentScript ⟨g, t.backend⟩ i) {}).isSome ∧
      (Job.play? ⟨g.retype (t.exchange t'), t'.backend⟩
        (Job.fragmentScript ⟨g.retype (t.exchange t'), t'.backend⟩ i) {}).isSome ∧
      (Job.fragment ⟨g.retype (t.exchange t'), t'.backend⟩ i).diagnostics.map (·.subject) =
        (Job.fragment ⟨g, t.backend⟩ i).diagnostics.map (·.subject) := by
  have hagrees := t.backend_agrees t'
  have hbuilt := h.retype hagrees.blank
  have hends : ∀ {α : Type} (j : Job) (script : Script α), j.graph.Built →
      (j.play? script {}).isSome := by
    intro α j script hj
    obtain ⟨a, s, hplay⟩ := Job.exists_play? hj.isForest script {}
    rw [hplay]
    rfl
  refine ⟨hbuilt, fun options => ⟨hends _ _ h, hends _ _ hbuilt, ?_⟩,
    fun i => ⟨hends _ _ h, hends _ _ hbuilt, ?_⟩⟩
  · rw [Job.compile, Job.compile, Job.compileRun_eq, Job.compileRun_eq]
    refine hagrees.remarks_play g (Job.outlines_sections _ options) ?_
    rw [← hagrees.compilationOutline_eq g]
    exact Job.outlines_sections _ options
  · refine hagrees.remarks_play g (Job.outlines_fragmentScript _ i) ?_
    rw [← hagrees.fragmentOutline_eq g]
    exact Job.outlines_fragmentScript _ i

/-- An entry point of each target, one with a block of an unknown type in its loop, and a
conditional at top level that holds a return. -/
def mixedDraft : Draft :=
  [.node "A" "arduino_entry", .node "B" "servo_spin", .node "C" "micropython_entry",
    .node "D" "controls_if", .node "E" "procedures_return", .setStatement 0 "LOOP" 1,
    .setStatement 3 "DO0" 4].foldl (fun d e => Draft.Edit.apply e d) {}

theorem mixedDraft_reachable : mixedDraft.Reachable :=
  Draft.reachable_of_edits rfl

theorem mixedDraft_built : mixedDraft.toGraph.Built :=
  mixedDraft_reachable.built rfl

/-- On either side the entry point of the other target is an orphan, like the conditional; the
block of the unknown type is reported from inside its entry point, and the return, shown on its
own, for want of a container. -/
theorem Built.same_subjects_mixed :
    mixedDraft.toGraph.Built ∧
      (Job.compile ⟨mixedDraft.toGraph.retype (Target.arduino.exchange .microPython),
        Target.microPython.backend⟩ {}).diagnostics.map (·.subject) =
        [(.orphanedTopLevel, "C"), (.orphanedTopLevel, "D"), (.missingGenerator, "B")] ∧
      (Job.fragment ⟨mixedDraft.toGraph.retype (Target.arduino.exchange .microPython),
        Target.microPython.backend⟩ 4).diagnostics.map (·.subject) = [(.orphanedNested, "E")] := by
  obtain ⟨-, hcompile, hfragment⟩ :=
    Built.same_subjects mixedDraft_built .arduino .microPython
  refine ⟨mixedDraft_built, (hcompile {}).2.2.trans ?_, (hfragment 4).2.2.trans ?_⟩
  · rfl
  · rfl

end Graph

end BlockCompiler
