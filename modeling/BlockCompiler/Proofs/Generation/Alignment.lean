import BlockCompiler.Proofs.Generation.Census
import BlockCompiler.Proofs.Generation.Counterparts
import BlockCompiler.Proofs.Graph.Likeness

/-!
# Compilations side by side

Paired nodes of two graphs are counterparts for every backend
(`Pairing.counterparts`): what a generator looks at besides the node and its slots are
walks, and in a pairing these agree.

Two graphs are aligned for a backend if their roots match in order, the blocks of the
sequences at top level match in key and type, and those of them that are generated are
related blocks whose scripts run in parallel.  Then the two compilations have the same
sections (`Aligned.exists_sections`).  If no block is silent, they have the same product,
and their runs end alike, apart from their logs (`Aligned.compile_eq`).

Whether two graphs are aligned is told from their portraits.  Only some of the nodes need
to have the same ones in both (`Resemble`): those that are generated from top level, with
all that they contain.  Of the others at top level only the header counts.
-/

namespace BlockCompiler

/-! ## Paired nodes are counterparts -/

theorem Blocks.assignedName?_congr {n n' : Node} (hkey : n'.key = n.key) (htype : n'.type = n.type)
    (hfields : n'.fields = n.fields) : assignedName? n' = assignedName? n := by
  obtain ⟨key, type, fields, values, statements, next, parent⟩ := n'
  subst hkey htype hfields
  rfl

/-- The names that blocks below a node assign. -/
theorem Blocks.mem_assignedNames_iff {j : Job} {i : NodeId} {name : String} :
    name ∈ (Dict.ofList (((j.graph.descendants i).filterMap fun d =>
      assignedName? (j.node d)).map fun name => (name, ()))).names ↔
      ∃ d ∈ j.graph.descendants i, assignedName? (j.node d) = some name := by
  rw [Dict.mem_names_iff, Dict.contains_ofList, List.map_map]
  simp [Function.comp_def]

/-- Nodes below which the same names are assigned have the same globals. -/
theorem Blocks.assignedGlobals_congr {j j' : Job} {i i' : NodeId}
    (h : ∀ name, (∃ d ∈ j'.graph.descendants i', assignedName? (j'.node d) = some name) ↔
      ∃ d ∈ j.graph.descendants i, assignedName? (j.node d) = some name) (params : List String) :
    assignedGlobals j' i' params = assignedGlobals j i params := by
  unfold assignedGlobals
  refine congrArg (List.filter _) (Dict.names_ext fun name => ?_)
  rw [mem_assignedNames_iff, mem_assignedNames_iff]
  exact h name

namespace Graph.Pairing

variable {g g' : Graph} {S B : NodeId → NodeId → Prop} {Z : NodeId → Prop} {i i' : NodeId}

theorem assignedGlobals (h : Pairing g g' S) (hg : g.IsForest) (hg' : g'.IsForest) (b : Backend)
    (hS : S i i') (params : List String) :
    Blocks.assignedGlobals ⟨g', b⟩ i' params = Blocks.assignedGlobals ⟨g, b⟩ i params := by
  have hname : ∀ m m', S m m' →
      Blocks.assignedName? (g'.node m') = Blocks.assignedName? (g.node m) := fun m m' hm =>
    Blocks.assignedName?_congr (h.key m m' hm) (h.type m m' hm) (h.fields m m' hm)
  refine Blocks.assignedGlobals_congr (fun name => ?_) params
  constructor
  · rintro ⟨m', hm', hassigned⟩
    obtain ⟨m, hm, hSm⟩ := h.symm.exists_descendant hg' hg hS hm'
    exact ⟨m, hm, (hname m m' hSm).symm.trans hassigned⟩
  · rintro ⟨m, hm, hassigned⟩
    obtain ⟨m', hm', hSm⟩ := h.exists_descendant hg hg' hS hm
    exact ⟨m', hm', (hname m m' hSm).trans hassigned⟩

theorem slotsMatch (h : Pairing g g' S) (hg : g.IsForest) (hg' : g'.IsForest)
    (hSB : ∀ i i', S i i' → B i i') (hS : S i i') :
    SlotsMatch g g' B Z (g.node i) (g'.node i') where
  values slot := by
    have hslot := h.target i i' (.value slot) hS (Or.inl Place.noConfusion)
    simp only [Node.target?] at hslot
    generalize (g.node i).values.get? slot = t, (g'.node i').values.get? slot = t' at hslot ⊢
    cases hslot with
    | none => exact .none
    | some hchild => exact .some (hSB _ _ hchild)
  statements slot := by
    cases ht : (g.node i).statements.get? slot with
    | none =>
      have hslot := h.target i i' (.statement slot) hS (Or.inl Place.noConfusion)
      simp only [Node.target?, ht] at hslot
      generalize (g'.node i').statements.get? slot = t' at hslot ⊢
      cases hslot
      exact .none
    | some head =>
      obtain ⟨head', ht', hhead⟩ := h.target.exists_target (p := .statement slot) hS
        (Or.inl Place.noConfusion) ht
      have ht'' : (g'.node i').statements.get? slot = some head' := ht'
      have hcontained : g.IsContained head :=
        ⟨i, contains_of_target? (p := .statement slot) Place.noConfusion ht⟩
      rw [ht'']
      exact .some (.of_forall₂ ((h.chain hg hg' hhead hcontained).imp hSB))
  slotCount := h.slotCount hS

/-- **Paired nodes are counterparts**, whatever the backend. -/
theorem counterparts (h : Pairing g g' S) (hg : g.Built) (hg' : g'.Built) (b : Backend)
    (hSB : ∀ i i', S i i' → B i i') (hS : S i i') : Job.Counterparts ⟨g, b⟩ g' B Z i i' where
  key := h.key i i' hS
  type := h.type i i' hS
  fields := h.fields i i' hS
  slots := h.slotsMatch hg.isForest hg'.isForest hSB hS
  inside := isInside_of_forall₂ h.type (h.ancestors hg hg' hS) b.containers
  inLoop := enclosingWithin_of_forall₂ h.type (h.ancestors hg hg' hS) loopTypes b.containers
  globals := h.assignedGlobals hg.isForest hg'.isForest b hS

end Graph.Pairing

/-! ## Aligned graphs -/

namespace Job

variable {j : Job} {g' : Graph} {B : NodeId → NodeId → Prop} {Z : NodeId → Prop}
  {P : Request → Prop} {R : Run → Run → Prop} {options : Options}

/-- The blocks at top level match: they are generated alike, or left out alike. -/
structure TopMatch (j : Job) (g' : Graph) (B : NodeId → NodeId → Prop) (i i' : NodeId) : Prop where
  key : (g'.node i').key = (j.node i).key
  type : (g'.node i').type = (j.node i).type
  related : j.isPlaced (j.node i).type = true → B i i'

/-- The roots match, and so do the sequences that begin at them. -/
structure RootMatch (j : Job) (g' : Graph) (B : NodeId → NodeId → Prop) (r r' : NodeId) :
    Prop where
  lt : r < j.graph.size
  lt' : r' < g'.size
  key : (g'.node r').key = (j.node r).key
  type : (g'.node r').type = (j.node r).type
  chain : List.Forall₂ (j.TopMatch g' B) (j.graph.chain r) (g'.chain r')

/-- The graphs match from the roots on, and the scripts of related blocks run in parallel, where
the first graph may have silent blocks besides. -/
structure Aligned (j : Job) (g' : Graph) (B : NodeId → NodeId → Prop) (Z : NodeId → Prop)
    (P : Request → Prop) : Prop where
  forest : j.graph.IsForest
  forest' : g'.IsForest
  roots : List.Forall₂ (j.RootMatch g' B) j.graph.roots g'.roots
  ordinary : ∀ r : Request, r.IsOrdinary → P r
  blocks : ∀ i i', B i i' → (j.blockScript i).Parallel B Z P ((j.on g').blockScript i')

theorem TopMatch.parallel {i i' : NodeId} (h : j.TopMatch g' B i i')
    (hord : ∀ r : Request, r.IsOrdinary → P r) (options : Options) :
    (j.topLevel options i).Parallel B Z P ((j.on g').topLevel options i') := by
  have hkey : ((j.on g').node i').key = (j.node i).key := h.key
  have htype : ((j.on g').node i').type = (j.node i).type := h.type
  have hplaced : (j.on g').isPlaced (j.node i).type = j.isPlaced (j.node i).type := rfl
  simp only [topLevel, hkey, htype, hplaced]
  cases hi : j.isPlaced (j.node i).type with
  | true =>
    exact (Blocks.parallel_notice hord Severity.noConfusion Severity.noConfusion).bind fun _ =>
      .block (h.related hi) fun _ => .pure _
  | false =>
    exact (Blocks.parallel_notice hord Severity.noConfusion Severity.noConfusion).bind fun _ =>
      .same (hord _ Reason.noConfusion) (fun _ => Request.noConfusion) fun _ => .pure _

theorem RootMatch.isEntry {r r' : NodeId} (h : j.RootMatch g' B r r') :
    (j.on g').isEntry r' = j.isEntry r :=
  congrArg j.backend.entryPoints.contains h.type

namespace Aligned

theorem generationOrder (h : j.Aligned g' B Z P) :
    List.Forall₂ (j.RootMatch g' B) j.generationOrder (j.on g').generationOrder := by
  refine List.rel_append ?_ ?_
  · exact List.rel_filter (fun r r' hr => by simp only [hr.isEntry]) h.roots
  · exact List.rel_filter (fun r r' hr => by simp only [hr.isEntry]) h.roots

theorem parallel_stackTexts (h : j.Aligned g' B Z P) (options : Options) :
    (j.stackTexts options).Parallel B Z P ((j.on g').stackTexts options) :=
  .mapM (fun _ _ hr => .mapM (fun _ _ hi => hi.parallel h.ordinary options) hr.chain)
    h.generationOrder

/-- The section of a root is found under the matching root. -/
theorem lookup_zip (h : j.Aligned g' B Z P) {r r' : NodeId} (hr : j.RootMatch g' B r r')
    {order order' : List NodeId} (horder : List.Forall₂ (j.RootMatch g' B) order order')
    (texts : List String) :
    ((order'.zip texts).lookup r') = (order.zip texts).lookup r := by
  induction horder generalizing texts with
  | nil => rfl
  | @cons x x' _ _ hx _ ih =>
    cases texts with
    | nil => rfl
    | cons text texts =>
      -- Keys tell the roots of either graph apart.
      have hiff : r' = x' ↔ r = x := by
        constructor
        · rintro rfl
          exact h.forest.keys r x hr.lt hx.lt (hr.key.symm.trans hx.key)
        · rintro rfl
          exact h.forest'.keys r' x' hr.lt' hx.lt' (hr.key.trans hx.key.symm)
      rw [List.zip_cons_cons, List.zip_cons_cons, List.lookup_cons, List.lookup_cons]
      by_cases heq : r = x
      · rw [beq_iff_eq.mpr heq, beq_iff_eq.mpr (hiff.mpr heq)]
      · rw [beq_eq_false_iff_ne.mpr heq, beq_eq_false_iff_ne.mpr (mt hiff.mp heq)]
        exact ih texts

theorem arrange_eq (h : j.Aligned g' B Z P) {texts : List String}
    (hlength : texts.length = j.generationOrder.length) :
    (j.on g').arrange ((j.on g').generationOrder.zip texts) =
      j.arrange (j.generationOrder.zip texts) := by
  have horder := h.generationOrder
  unfold arrange
  have hformat : (j.on g').formatting = j.formatting := rfl
  rw [hformat]
  split
  · rw [List.map_snd_zip (by rw [hlength, horder.length_eq]), List.map_snd_zip (by rw [hlength])]
  · have hroots : ∀ {roots roots' : List NodeId}, List.Forall₂ (j.RootMatch g' B) roots roots' →
        (roots'.map fun r' => (((j.on g').generationOrder.zip texts).lookup r').getD "") =
          roots.map fun r => ((j.generationOrder.zip texts).lookup r).getD "" := by
      intro roots roots' hmatch
      induction hmatch with
      | nil => rfl
      | cons hr _ ih => rw [List.map_cons, List.map_cons, ih, h.lookup_zip hr horder]
    exact hroots h.roots

/-- Aligned graphs have the same sections in the source, and compiling them ends in related
runs. -/
theorem exists_sections (h : j.Aligned g' B Z P) (hR : Request.Respects P R)
    (hsilent : Silences j.blockScript Z R) (hstart : R {} {}) (options : Options) :
    ∃ sections sections' s s', j.play? (j.sections options) {} = some (sections, s) ∧
      (j.on g').play? ((j.on g').sections options) {} = some (sections', s') ∧ R s s' ∧
      (j.on g').arrange sections' = j.arrange sections := by
  obtain ⟨texts, s, s', hplay, hplay', hs⟩ := parallel_play? h.forest h.forest' hR h.blocks hsilent
    (h.parallel_stackTexts options) hstart
  refine ⟨j.generationOrder.zip (texts.map String.join),
    (j.on g').generationOrder.zip (texts.map String.join), s, s', ?_, ?_, hs, h.arrange_eq ?_⟩
  · rw [sections_eq, play?_map, hplay]
    rfl
  · rw [sections_eq, play?_map, hplay']
    rfl
  · rw [List.length_map]
    exact length_of_play?_mapM hplay

/-- **Aligned graphs compile to the same product** if there are no silent blocks.  Both
compilations run to their ends, where the runs differ in their logs only. -/
theorem compile_eq (h : j.Aligned g' B (fun _ => False) P) (options : Options) :
    ∃ sections sections' s s', j.play? (j.sections options) {} = some (sections, s) ∧
      (j.on g').play? ((j.on g').sections options) {} = some (sections', s') ∧
      s.output = s'.output ∧ (j.on g').compile options = j.compile options := by
  obtain ⟨sections, sections', s, s', hplay, hplay', houtput, harrange⟩ :=
    h.exists_sections (Request.respects_output P) (fun _ _ _ _ _ _ hi => hi.elim) rfl options
  refine ⟨sections, sections', s, s', hplay, hplay', houtput, ?_⟩
  have hdeclarations : s'.declarations = s.declarations := (congrArg Run.declarations houtput).symm
  have hdiagnostics : s'.diagnostics = s.diagnostics := (congrArg Run.diagnostics houtput).symm
  simp only [compile, compileRun_of_play? hplay, compileRun_of_play? hplay', finish, product,
    harrange, hdeclarations, hdiagnostics]
  rfl

end Aligned

end Job

/-! ## Graphs that resemble each other -/

/-- What is said about a block at top level that is left out, and what comes after it: its key, its
type and the key of the next node. -/
def Graph.header (g : Graph) (i : NodeId) : String × String × Option String :=
  ((g.node i).key, (g.node i).type, (g.node i).next.map g.keyOf)

theorem Graph.Paired.header_eq {g g' : Graph} {V V' : NodeId → Prop} {i i' : NodeId}
    (h : Paired g g' V V' i i') : g.header i = g'.header i' :=
  congrArg (fun n : Portrait => (n.key, n.type, n.next)) h.portrait

/-- The types and fields of the always-emitted blocks, in the order of the nodes. -/
def Backend.aside (b : Backend) (g : Graph) : List (String × Dict String) :=
  (Job.alwaysEmitted ⟨g, b⟩).map fun i => ((g.node i).type, (g.node i).fields)

/-- The graphs show a compilation the same: the chosen nodes have the same portraits, all that is
generated from top level is chosen, and the rest is the same as far as it is looked at. -/
structure Backend.Resemble (b : Backend) (g g' : Graph) (V V' : NodeId → Prop) : Prop where
  share : Graph.SharePortraits g g' V V'
  roots : g.roots.map g.keyOf = g'.roots.map g'.keyOf
  header : ∀ i ∈ Job.walk ⟨g, b⟩, ∀ i' < g'.size, g.keyOf i = g'.keyOf i' →
    g.header i = g'.header i'
  placed : ∀ i ∈ Job.walk ⟨g, b⟩, Job.isPlaced ⟨g, b⟩ (g.node i).type = true → V i
  aside : b.aside g = b.aside g'

theorem forall₂_of_map_eq {α β γ : Type} {f : α → γ} {f' : β → γ} {xs : List α} {xs' : List β}
    (h : xs.map f = xs'.map f') :
    List.Forall₂ (fun x x' => x ∈ xs ∧ x' ∈ xs' ∧ f x = f' x') xs xs' := by
  have heq : List.Forall₂ (fun x x' => f x = f' x') xs xs' := by
    rw [← List.forall₂_map_right_iff (R := fun x y => f x = y),
      ← List.forall₂_map_left_iff (R := fun x y => x = y), List.forall₂_eq_eq_eq]
    exact h
  obtain ⟨hlength, hzip⟩ := List.forall₂_iff_zip.mp heq
  exact List.forall₂_iff_zip.mpr ⟨hlength, fun hx =>
    ⟨(List.of_mem_zip hx).1, (List.of_mem_zip hx).2, hzip hx⟩⟩

namespace Backend.Resemble

variable {b : Backend} {g g' : Graph} {V V' : NodeId → Prop} {i i' : NodeId}

/-- The blocks whose scripts run in parallel: those with the same portrait, and the always-emitted
ones at the same place among these. -/
def Related (b : Backend) (g g' : Graph) (V V' : NodeId → Prop) (i i' : NodeId) : Prop :=
  Graph.Paired g g' V V' i i' ∨ Job.Twins ⟨g, b⟩ g' i i'

theorem topMatch (h : b.Resemble g g' V V') (hg : g.IsForest) (hg' : g'.IsForest)
    (hi : i ∈ Job.walk ⟨g, b⟩) (hi' : i' < g'.size) (hkey : g.keyOf i = g'.keyOf i') :
    Job.TopMatch ⟨g, b⟩ g' (Related b g g' V V') i i' where
  key := hkey.symm
  type := (congrArg (·.2.1) (h.header i hi i' hi' hkey)).symm
  related hplaced := Or.inl <| h.share.paired_of_key hg'
    (Job.lt_size_of_mem_walk (j := ⟨g, b⟩) hg hi) (h.placed i hi hplaced) hi' hkey

/-- The sequence below a block at top level is told by the headers of its blocks. -/
theorem chain (h : b.Resemble g g' V V') (hg : g.IsForest) (hg' : g'.IsForest)
    (hi : i ∈ Job.walk ⟨g, b⟩) (hi' : i' < g'.size) (hkey : g.keyOf i = g'.keyOf i') :
    List.Forall₂ (Job.TopMatch ⟨g, b⟩ g' (Related b g g' V V')) (g.chain i) (g'.chain i') := by
  refine (Graph.forall₂_chain
    (T := fun i i' => i ∈ Job.walk ⟨g, b⟩ ∧ i' < g'.size ∧ g.keyOf i = g'.keyOf i') ?_ hg hg'
    (Job.lt_size_of_mem_walk (j := ⟨g, b⟩) hg hi) hi' ⟨hi, hi', hkey⟩).imp
    fun _ _ ⟨hi, hi', hkey⟩ => h.topMatch hg hg' hi hi' hkey
  rintro i i' ⟨hi, hi', hkey⟩
  have hnext : (g.node i).next.map g.keyOf = (g'.node i').next.map g'.keyOf :=
    congrArg (·.2.2) (h.header i hi i' hi' hkey)
  cases ht : (g.node i).next with
  | none =>
    rw [ht, Option.map_none, eq_comm, Option.map_eq_none_iff] at hnext
    rw [hnext]
    exact .none
  | some t =>
    rw [ht, Option.map_some, eq_comm, Option.map_eq_some_iff] at hnext
    obtain ⟨t', ht', hkey'⟩ := hnext
    rw [ht']
    have hwalk : t ∈ Job.walk ⟨g, b⟩ := by
      obtain ⟨r, hr, hchain⟩ := (Job.mem_walk_iff (j := ⟨g, b⟩) hg).mp hi
      exact (Job.mem_walk_iff (j := ⟨g, b⟩) hg).mpr ⟨r, hr, hchain.tail ht⟩
    exact .some ⟨hwalk, (hg'.within i' .next t' ht').2, hkey'.symm⟩

theorem rootMatch (h : b.Resemble g g' V V') (hg : g.IsForest) (hg' : g'.IsForest) :
    List.Forall₂ (Job.RootMatch ⟨g, b⟩ g' (Related b g g' V V')) g.roots g'.roots := by
  refine (forall₂_of_map_eq h.roots).imp fun r r' ⟨hr, hr', hkey⟩ => ?_
  have hwalk : r ∈ Job.walk ⟨g, b⟩ := (Job.mem_walk_iff (j := ⟨g, b⟩) hg).mpr ⟨r, hr, .refl⟩
  have hlt' : r' < g'.size := ((hg'.mem_roots r').mp hr').1
  have htop := h.topMatch hg hg' hwalk hlt' hkey
  exact ⟨((hg.mem_roots r).mp hr).1, hlt', htop.key, htop.type, h.chain hg hg' hwalk hlt' hkey⟩

/-- Always-emitted blocks are generated from their types and fields alone. -/
theorem twins {t : Target} (h : t.backend.Resemble g g' V V') :
    List.Forall₂ (Related t.backend g g' V V') (Job.alwaysEmitted ⟨g, t.backend⟩)
      (Job.alwaysEmitted ⟨g', t.backend⟩) := by
  refine (forall₂_of_map_eq h.aside).imp fun i i' ⟨hi, _, heq⟩ => Or.inr ?_
  obtain ⟨kind, hget, hkind⟩ := Job.exists_generator_of_alwaysEmitted (List.mem_filter.mp hi).2
  exact ⟨(congrArg (·.1) heq).symm, (congrArg (·.2) heq).symm, ⟨t, kind⟩, hget, hkind⟩

/-- **Graphs that resemble each other are aligned.** -/
theorem aligned {t : Target} (h : t.backend.Resemble g g' V V') (hg : g.Built) (hg' : g'.Built) :
    Job.Aligned ⟨g, t.backend⟩ g' (Related t.backend g g' V V') (fun _ => False)
      (fun _ => True) where
  forest := hg.isForest
  forest' := hg'.isForest
  roots := h.rootMatch hg.isForest hg'.isForest
  ordinary _ _ := trivial
  blocks := by
    rintro i i' (hpaired | htwins)
    · have hpairing := Graph.pairing_of_portraits h.share hg.isForest hg'.isForest
      exact (hpairing.counterparts hg hg' t.backend (fun _ _ => Or.inl) hpaired).parallel_blockScript
        (fun _ _ => trivial) h.twins trivial trivial
    · exact htwins.parallel_blockScript fun _ _ => trivial

end Backend.Resemble

end BlockCompiler
