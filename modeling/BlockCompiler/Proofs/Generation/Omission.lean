import BlockCompiler.Proofs.Generation.Alignment
import BlockCompiler.Proofs.Graph.Deletion

/-!
# Blocks without a generator

A block of a type that the backend does not know turns into nothing.  If it has no slots
and stands among others in a statement slot, then nothing depends on it: the graph without
it compiles to the same source, and of the diagnostics only the report about the block
itself is missing (`Built.compile_without_unknown`).

The other blocks are asked for in the same order in both graphs, at positions that differ
(`Kept`).  The blocks match in all that generators look at (`Detachable.counterparts`): the
deleted block holds no other one, so the nodes around each block are the same; it stands in
no value slot and leaves no slot empty; it assigns no variable and is not always emitted.
Where it is asked for it is silent, apart from its own report.
-/

namespace BlockCompiler

/-- A sequence matches what is left of it without a silent block. -/
theorem SequenceMatch.of_filter {B : NodeId → NodeId → Prop} {f : NodeId → NodeId} {m : NodeId}
    {blocks blocks' : List NodeId} (hB : ∀ i' ∈ blocks', B (f i') i')
    (h : blocks'.map f = blocks.filter (· != m)) : SequenceMatch B (· = m) blocks blocks' := by
  induction blocks generalizing blocks' with
  | nil =>
    rw [List.filter_nil, List.map_eq_nil_iff] at h
    subst h
    exact .nil
  | cons i blocks ih =>
    by_cases hi : i = m
    · rw [List.filter_cons_of_neg (by simp [hi])] at h
      exact .skip hi (ih hB h)
    · rw [List.filter_cons_of_pos (by simp [hi]), List.map_eq_cons_iff] at h
      obtain ⟨i', rest, rfl, rfl, hrest⟩ := h
      exact .cons (hB i' List.mem_cons_self)
        (ih (fun k hk => hB k (List.mem_cons_of_mem _ hk)) hrest)

theorem forall₂_of_map_left_eq {S : NodeId → NodeId → Prop} {f : NodeId → NodeId}
    {blocks blocks' : List NodeId} (h : blocks'.map f = blocks) (hS : ∀ i' ∈ blocks', S (f i') i') :
    List.Forall₂ S blocks blocks' := by
  subst h
  exact List.forall₂_map_left_iff.mpr (List.forall₂_same.mpr hS)

/-- Entries that are related one by one have the same names. -/
theorem Dict.names_eq_of_rel {α β : Type} {R : α → β → Prop} {d : Dict α} {d' : Dict β}
    (h : ∀ name, Option.Rel R (d.get? name) (d'.get? name)) : d'.names = d.names := by
  refine names_ext fun name => ?_
  have hname := h name
  rw [mem_names_iff, mem_names_iff, contains, contains]
  generalize d.get? name = o, d'.get? name = o' at hname ⊢
  cases hname <;> simp

/-- A type without a generator is none of those that assign variables. -/
theorem Blocks.assignedName?_of_unknown {t : Target} {n : Node}
    (h : t.backend.generators.get? n.type = none) : assignedName? n = none := by
  have hknown : ∀ e ∈ t.typeKinds, n.type ≠ e.1 := by
    intro e he heq
    rw [heq, Target.get?_of_mem_typeKinds he] at h
    cases h
  have hne : ∀ e ∈ sharedTypes, n.type ≠ e.1 := fun e he =>
    hknown e (List.mem_cons_of_mem _ he)
  unfold assignedName?
  split
  next heq => exact absurd heq (hne ("variables_set", .assignment) (by decide))
  next heq => exact absurd heq (hne ("controls_for", .countingLoop) (by decide))
  next heq => exact absurd heq (hne ("time_every", .timedRepeat) (by decide))
  next => rfl

namespace Graph

variable {g : Graph} {m : NodeId}

theorem IsForest.lt_size_of_mem_chain (h : g.IsForest) {head i : NodeId} (hhead : head < g.size)
    (hi : i ∈ g.chain head) : i < g.size := by
  rcases (reflTransGen_of_mem_chain hi).cases_tail with rfl | ⟨b, -, hb⟩
  · exact hhead
  · exact (h.within b .next i hb).2

/-- The block is still there once the one at `m` is deleted. -/
structure Kept (g : Graph) (m i i' : NodeId) : Prop where
  lt : i < g.size
  former : i = NodeId.former m i'

theorem Kept.type {i i' : NodeId} (hi : g.Kept m i i') :
    ((g.delete m).node i').type = (g.node i).type := by
  obtain ⟨-, rfl⟩ := hi
  exact g.type_delete m i'

theorem Kept.key {i i' : NodeId} (hi : g.Kept m i i') :
    ((g.delete m).node i').key = (g.node i).key := by
  obtain ⟨-, rfl⟩ := hi
  exact g.key_delete m i'

namespace Detachable

section

variable (hm : g.Detachable m) (h : g.Built)

include hm h

/-! ### Positions -/

/-- Every node that is left is one from before. -/
theorem kept {i' : NodeId} (hi' : i' < (g.delete m).size) :
    g.Kept m (NodeId.former m i') i' where
  lt := by
    rwa [NodeId.former_lt_iff (hm.lt_size h.isForest), ← hm.size_delete h.isForest]
  former := rfl

theorem kept_of_mem_chain {head' : NodeId} (hhead' : head' < (g.delete m).size) :
    ∀ i' ∈ (g.delete m).chain head', g.Kept m (NodeId.former m i') i' := fun _ hi' =>
  hm.kept h ((hm.built_delete h.isForest).isForest.lt_size_of_mem_chain hhead' hi')

/-- What contained a node that is left contains it still. -/
theorem kept_owner {i i' o : NodeId} (hi : g.Kept m i i') (ho : g.Contains o i) :
    ∃ o', g.Kept m o o' ∧ (g.delete m).Contains o' i' := by
  have hne : o ≠ m := by
    rintro rfl
    exact hm.not_contains i ho
  obtain ⟨o', rfl⟩ := NodeId.exists_former hne
  obtain ⟨-, rfl⟩ := hi
  exact ⟨o', ⟨(h.isForest.lt_size_of_contains ho).1, rfl⟩, (hm.contains_delete h.isForest).mpr ho⟩

/-- What contains a node that is left contained it before. -/
theorem kept_owner_of_delete {i i' o' : NodeId} (hi : g.Kept m i i') (ho' : (g.delete m).Contains o' i') :
    ∃ o, g.Kept m o o' ∧ g.Contains o i := by
  obtain ⟨-, rfl⟩ := hi
  have ho := (hm.contains_delete h.isForest).mp ho'
  exact ⟨_, ⟨(h.isForest.lt_size_of_contains ho).1, rfl⟩, ho⟩

/-! ### What generators look at -/

/-- Value slots hold the same blocks as before. -/
theorem rel_values (i : NodeId) (slot : String) :
    Option.Rel (g.Kept m) ((g.node (NodeId.former m i)).values.get? slot)
      (((g.delete m).node i).values.get? slot) := by
  have hf := h.isForest
  have htarget := g.target?_delete m i (.value slot)
  simp only [Node.target?] at htarget
  rw [htarget]
  cases ht : (g.node (NodeId.former m i)).values.get? slot with
  | none => exact .none
  | some k =>
    have hk : k ≠ m := by
      rintro rfl
      obtain ⟨⟨_, hplace⟩, -⟩ := hm.of_slot hf (p := .value slot) Place.noConfusion ht
      cases hplace
    rw [Option.bind_some, Draft.rejoin, if_neg hk, Option.map_some]
    exact .some ⟨(hf.within _ (.value slot) k ht).2, (NodeId.former_moved hk).symm⟩

/-- Statement slots hold the same sequences as before, but for the deleted block. -/
theorem rel_statements (i : NodeId) (slot : String) :
    Option.Rel (fun a a' => SequenceMatch (g.Kept m) (· = m) (g.chain a) ((g.delete m).chain a'))
      ((g.node (NodeId.former m i)).statements.get? slot)
      (((g.delete m).node i).statements.get? slot) := by
  have hf := h.isForest
  have htarget := g.target?_delete m i (.statement slot)
  cases ht : (g.node (NodeId.former m i)).target? (.statement slot) with
  | none =>
    rw [ht, Option.bind_none] at htarget
    simp only [Node.target?] at ht htarget
    rw [ht, htarget]
    exact .none
  | some head =>
    obtain ⟨head', hrejoin⟩ := hm.exists_rejoin hf Place.noConfusion ht
    rw [ht, Option.bind_some, hrejoin] at htarget
    have hlt := ((hm.built_delete hf).isForest.within i _ head' htarget).2
    have hmatch := SequenceMatch.of_filter (hm.kept_of_mem_chain h hlt)
      (hm.chain_rejoin hf ht hrejoin)
    simp only [Node.target?] at ht htarget
    rw [ht, htarget]
    exact .some hmatch

theorem slotsMatch (i : NodeId) :
    SlotsMatch g (g.delete m) (g.Kept m) (· = m) (g.node (NodeId.former m i))
      ((g.delete m).node i) where
  values := hm.rel_values h i
  statements := hm.rel_statements h i
  slotCount starts := by
    rw [Node.slotCount, Node.slotCount, Dict.names_eq_of_rel (hm.rel_values h i),
      Dict.names_eq_of_rel (hm.rel_statements h i)]

/-- The ancestors of a node that is left are left too. -/
theorem forall₂_ancestors_kept {i i' : NodeId} (hi : g.Kept m i i') :
    List.Forall₂ (g.Kept m) (g.ancestors i) ((g.delete m).ancestors i') :=
  forall₂_ancestors h (hm.built_delete h.isForest) (fun _ _ _ => hm.kept_owner h)
    (fun _ _ _ => hm.kept_owner_of_delete h) hi

/-- A block that assigns nothing adds no globals. -/
theorem assignedGlobals_eq {b : Backend} (hassigns : Blocks.assignedName? (g.node m) = none)
    {i i' : NodeId} (hi : g.Kept m i i') (params : List String) :
    Blocks.assignedGlobals ⟨g.delete m, b⟩ i' params = Blocks.assignedGlobals ⟨g, b⟩ i params := by
  have hname : ∀ k, Blocks.assignedName? ((g.delete m).node k) =
      Blocks.assignedName? (g.node (NodeId.former m k)) := fun k =>
    Blocks.assignedName?_congr (g.key_delete m k) (g.type_delete m k) (g.fields_delete m k)
  obtain ⟨-, rfl⟩ := hi
  refine Blocks.assignedGlobals_congr (fun name => ?_) params
  constructor
  · rintro ⟨k, hk, hassigned⟩
    exact ⟨_, (hm.mem_descendants_delete h.isForest).mp hk, (hname k).symm.trans hassigned⟩
  · rintro ⟨k, hk, hassigned⟩
    have hne : k ≠ m := by
      rintro rfl
      exact absurd (hassigns.symm.trans hassigned) (Option.some_ne_none name).symm
    obtain ⟨k, rfl⟩ := NodeId.exists_former hne
    exact ⟨k, (hm.mem_descendants_delete h.isForest).mpr hk, (hname k).trans hassigned⟩

/-- **What is left looks the same to generators.** -/
theorem counterparts (b : Backend) (hassigns : Blocks.assignedName? (g.node m) = none)
    {i i' : NodeId} (hi : g.Kept m i i') :
    Job.Counterparts ⟨g, b⟩ (g.delete m) (g.Kept m) (· = m) i i' where
  key := hi.key
  type := hi.type
  fields := by
    obtain ⟨-, rfl⟩ := hi
    exact g.fields_delete m i'
  slots := by
    obtain ⟨-, rfl⟩ := hi
    exact hm.slotsMatch h i'
  inside := isInside_of_forall₂ (fun _ _ => Kept.type) (hm.forall₂_ancestors_kept h hi) b.containers
  inLoop := enclosingWithin_of_forall₂ (fun _ _ => Kept.type) (hm.forall₂_ancestors_kept h hi)
    loopTypes b.containers
  globals := hm.assignedGlobals_eq h hassigns hi

/-! ### The compilation -/

/-- The pass is over the same blocks. -/
theorem alwaysEmitted_kept {b : Backend}
    (haside : b.alwaysEmitted.contains (g.node m).type = false) :
    List.Forall₂ (g.Kept m) (Job.alwaysEmitted ⟨g, b⟩) (Job.alwaysEmitted ⟨g.delete m, b⟩) := by
  have hf := h.isForest
  have hrest : g.ids.filter (fun i => b.alwaysEmitted.contains (g.node i).type) =
      (g.ids.filter (· != m)).filter fun i => b.alwaysEmitted.contains (g.node i).type := by
    rw [List.filter_filter]
    refine List.filter_congr fun i _ => ?_
    by_cases hi : i = m
    · simp [hi, haside]
    · simp [hi]
  refine forall₂_of_map_left_eq (f := NodeId.former m) ?_ fun i hi => hm.kept h ?_
  · simp only [Job.alwaysEmitted, Job.node, hrest, type_delete, ← hm.map_former_ids hf,
      List.filter_map]
    rfl
  · exact List.mem_range.mp (List.mem_filter.mp hi).1

/-- The roots have the same stacks as before. -/
theorem rootMatch (b : Backend) :
    List.Forall₂ (Job.RootMatch ⟨g, b⟩ (g.delete m) (g.Kept m)) g.roots (g.delete m).roots := by
  have hf := h.isForest
  have hf' := (hm.built_delete hf).isForest
  refine forall₂_of_map_left_eq (hm.map_former_roots_delete hf) fun r hr => ?_
  have hlt := ((hf'.mem_roots r).mp hr).1
  have hroot : NodeId.former m r ∈ g.roots := by
    rw [← hm.map_former_roots_delete hf]
    exact List.mem_map_of_mem hr
  have hkept := hm.kept h hlt
  refine ⟨hkept.lt, hlt, hkept.key, hkept.type, ?_⟩
  -- The deleted block stands in a slot, so no sequence at top level has it.
  have hall : (g.chain (NodeId.former m r)).filter (· != m) = g.chain (NodeId.former m r) := by
    refine List.filter_eq_self.mpr fun k hk => bne_iff_ne.mpr ?_
    rintro rfl
    obtain ⟨o, ho⟩ := hm.exists_contains
    exact hf.not_contains_of_root hroot (reflTransGen_of_mem_chain hk) ho
  refine forall₂_of_map_left_eq ((hm.chain_delete hf hlt).trans hall) fun k hk => ?_
  have hkept := hm.kept_of_mem_chain h hlt k hk
  exact ⟨hkept.key, hkept.type, fun _ => hkept⟩

end

end Detachable

end Graph

/-! ## The compilation without the block -/

/-- The request reports nothing about a missing generator for the block with the key. -/
def Request.Spares (key : String) (r : Request) : Prop :=
  ∀ d, r = .report d → d.reason = .missingGenerator → d.node ≠ key

theorem Request.spares_of_isOrdinary {key : String} {r : Request} (h : r.IsOrdinary) :
    r.Spares key := by
  rintro d rfl hreason
  exact absurd hreason h

/-- A block without a generator turns into nothing and leaves its report. -/
theorem Job.silences_missing {j : Job} {m : NodeId} (hmissing : j.isMissing m = true) :
    Silences j.blockScript (· = m) fun s s' => s.visible [j.missingReport m] = s'.output := by
  rintro i code s s' c u rfl hs hrun
  have hunknown := Option.isNone_iff_eq_none.mp hmissing
  have htrace : ((s.notice (j.missingNotice i)).report (j.missingReport i)).visible
      [j.missingReport i] = (s.notice (j.missingNotice i)).visible [j.missingReport i] :=
    Run.visible_report_of_mem (List.mem_singleton_self _) _
  simp only [blockScript, hunknown] at hrun
  cases hrun
  exact ⟨rfl, htrace.trans hs⟩

namespace Graph.Detachable

variable {g : Graph} {m : NodeId} {t : Target}

/-- A block without a generator is silent apart from its report, so the two graphs are aligned. -/
theorem aligned (hm : g.Detachable m) (h : g.Built)
    (hmissing : Job.isMissing ⟨g, t.backend⟩ m = true) :
    Job.Aligned ⟨g, t.backend⟩ (g.delete m) (g.Kept m) (· = m)
      (Request.Spares (g.node m).key) where
  forest := h.isForest
  forest' := (hm.built_delete h.isForest).isForest
  roots := hm.rootMatch h t.backend
  ordinary _ := Request.spares_of_isOrdinary
  blocks i i' hi := by
    have hunknown : t.backend.generators.get? (g.node m).type = none :=
      Option.isNone_iff_eq_none.mp hmissing
    have haside : t.backend.alwaysEmitted.contains (g.node m).type = false := by
      rw [Bool.eq_false_iff]
      intro hin
      obtain ⟨kind, hkind, -⟩ := Job.exists_generator_of_alwaysEmitted hin
      rw [hkind] at hunknown
      cases hunknown
    have hcounterparts := hm.counterparts h t.backend (Blocks.assignedName?_of_unknown hunknown) hi
    refine hcounterparts.parallel_blockScript (fun _ => Request.spares_of_isOrdinary)
      (hm.alwaysEmitted_kept h haside) (fun d hd => by cases hd) ?_
    -- Another block has another key.
    rintro _ ⟨⟩ - hkey
    obtain ⟨hlt, rfl⟩ := hi
    exact NodeId.former_ne m i' (h.isForest.keys _ m hlt (hm.lt_size h.isForest) hkey)

end Graph.Detachable

namespace Graph

variable {g : Graph} {m : NodeId}

/-- **A missing generator is recovered from in its place.**  Let a block that the target has no
generator for have no slots, and stand among others in a statement slot.  Deleting it, so that what
led to it leads to the block after it, gives a built graph, and both graphs compile to the end, to
the same source and with the same diagnostics, except that there is no report about the block. -/
theorem Built.compile_without_unknown (h : g.Built) (t : Target) (options : Options)
    (hm : g.Detachable m) (hmissing : Job.isMissing ⟨g, t.backend⟩ m = true) :
    (g.draft.delete m).build = .ok (g.delete m) ∧ (g.delete m).Built ∧
      (Job.play? ⟨g, t.backend⟩ (Job.sections ⟨g, t.backend⟩ options) {}).isSome ∧
      (Job.play? ⟨g.delete m, t.backend⟩
        (Job.sections ⟨g.delete m, t.backend⟩ options) {}).isSome ∧
      (Job.compile ⟨g.delete m, t.backend⟩ options).source =
        (Job.compile ⟨g, t.backend⟩ options).source ∧
      (Job.compile ⟨g.delete m, t.backend⟩ options).diagnostics =
        (Job.compile ⟨g, t.backend⟩ options).diagnostics.filter
          (· != Job.missingReport ⟨g, t.backend⟩ m) := by
  -- What is hidden is the report of the deleted block; no other request is about that block.
  have hspares : ∀ d, Request.Spares (g.node m).key (.report d) →
      d.subject ∉ [Job.missingReport ⟨g, t.backend⟩ m].map Diagnostic.subject := by
    intro d hd hmem
    obtain ⟨hreason, hnode⟩ := Prod.ext_iff.mp (List.mem_singleton.mp hmem)
    exact hd d rfl hreason hnode
  obtain ⟨sections, sections', s, s', hplay, hplay', hs, harrange⟩ :=
    (hm.aligned h hmissing).exists_sections (Request.respects_visible hspares)
      (Job.silences_missing hmissing) rfl options
  have hdeclarations : s'.declarations = s.declarations := (congrArg Run.declarations hs).symm
  have hdiagnostics : s'.diagnostics.entries =
      s.diagnostics.entries.filter (· != Job.missingReport ⟨g, t.backend⟩ m) := by
    have hentries :
        s.diagnostics.entries.filter (fun d => !([Job.missingReport ⟨g, t.backend⟩ m].contains d)) =
          s'.diagnostics.entries := congrArg (·.diagnostics.entries) hs
    rw [← hentries]
    exact List.filter_congr fun d _ => by
      rw [List.contains_cons, List.contains_nil, Bool.or_false, bne]
  refine ⟨hm.build_delete h.isForest, hm.built_delete h.isForest, ?_, ?_, ?_, ?_⟩
  · rw [hplay]
    rfl
  · rw [hplay']
    rfl
  · simp only [Job.compile, Job.compileRun_of_play? hplay, Job.compileRun_of_play? hplay',
      Job.finish, Job.product, harrange, hdeclarations]
    rfl
  · simp only [Job.compile, Job.compileRun_of_play? hplay, Job.compileRun_of_play? hplay',
      Job.finish, Job.product, hdiagnostics]

/-- An entry point with a conditional in its loop, whose branch begins with a block of an unknown
type. -/
def spinDraft : Draft :=
  [.node "A" "micropython_entry", .node "B" "controls_if", .node "C" "servo_spin",
    .node "D" "time_delay", .setStatement 0 "LOOP" 1, .setBody 1 "DO0" [2, 3]].foldl
      (fun d e => Draft.Edit.apply e d) {}

theorem spinDraft_reachable : spinDraft.Reachable :=
  Draft.reachable_of_edits rfl

theorem spinDraft_built : spinDraft.toGraph.Built :=
  spinDraft_reachable.built rfl

theorem spinDraft_detachable : spinDraft.toGraph.Detachable 2 where
  bare := rfl
  among := ⟨1, "DO0", 2, rfl, by decide, by decide⟩

/-- The delay moves to the position of the deleted block, and the branch begins with it. -/
theorem Built.compile_without_unknown_spin :
    spinDraft.toGraph.Detachable 2 ∧
      ((spinDraft.toGraph.delete 2).node 1).statements.get? "DO0" = some 2 ∧
      ((spinDraft.toGraph.delete 2).node 2).key = "D" ∧
      (Job.compile ⟨spinDraft.toGraph.delete 2, Target.microPython.backend⟩ {}).source =
        (Job.compile ⟨spinDraft.toGraph, Target.microPython.backend⟩ {}).source ∧
      (Job.compile ⟨spinDraft.toGraph, Target.microPython.backend⟩ {}).diagnostics =
        [Job.missingReport ⟨spinDraft.toGraph, Target.microPython.backend⟩ 2] ∧
      (Job.compile ⟨spinDraft.toGraph.delete 2, Target.microPython.backend⟩ {}).diagnostics =
        [] := by
  have hreported : (Job.compile ⟨spinDraft.toGraph, Target.microPython.backend⟩ {}).diagnostics =
      [Job.missingReport ⟨spinDraft.toGraph, Target.microPython.backend⟩ 2] := rfl
  obtain ⟨-, -, -, -, hsource, hdiagnostics⟩ := Built.compile_without_unknown spinDraft_built
    .microPython {} spinDraft_detachable rfl
  rw [hreported] at hdiagnostics
  exact ⟨spinDraft_detachable, rfl, rfl, hsource, hreported, hdiagnostics.trans (by simp)⟩

end Graph

end BlockCompiler
