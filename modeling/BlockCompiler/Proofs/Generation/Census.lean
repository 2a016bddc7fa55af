import BlockCompiler.Proofs.Generation.Counterparts
import BlockCompiler.Proofs.Generation.Orphans
import BlockCompiler.Proofs.Generation.Setup
import BlockCompiler.Proofs.Generation.Visits

/-!
# How often a block is generated

A block is asked for by the script of the one block that contains it, at the place where
it stands, or by the compilation itself if it stands at top level; besides, the pass over
the always-emitted blocks asks for each of these once.  So the number of times that a
block is generated can be counted from the outlines of the others
(`Course.count_blocks`), and going down from the roots it is at most one, and two for the
always-emitted blocks, which have nothing inside (`count_blocks_le`).

A block whose type has no generator is hence generated at most once, and the reports and
the errors in the log that follow from it are about different blocks.
-/

namespace BlockCompiler

open Relation

/-! ## The blocks that a block visits -/

namespace BlockKind

theorem repr_injective : Function.Injective Nat.repr := by
  intro a b h
  rw [Nat.repr_eq_ofList_toDigits, Nat.repr_eq_ofList_toDigits] at h
  have hdigits : Nat.toDigits 10 a = Nat.toDigits 10 b := String.ofList_injective h
  rw [← Nat.ofDigitChars_ten_toDigits (n := a), hdigits, Nat.ofDigitChars_ten_toDigits]

/-- Numbered places with different numbers differ. -/
theorem nodup_numbered {places : Nat → List Place} (hplaces : ∀ i, (places i).Nodup)
    (hne : ∀ i k, i ≠ k → (places i).Disjoint (places k)) (count : Nat) :
    ((List.range count).flatMap places).Nodup :=
  List.nodup_flatMap.mpr ⟨fun i _ => hplaces i, List.nodup_range.imp fun hik => hne _ _ hik⟩

/-- No place is visited twice. -/
theorem nodup_places (kind : BlockKind) (n : Node) : (kind.places n).Nodup := by
  have hinj : ∀ {start : String} {i k : Nat}, start ++ i.repr = start ++ k.repr → i = k :=
    fun h => repr_injective ((String.append_right_inj _).mp h)
  cases kind with
  | conditional =>
    refine List.Nodup.append (nodup_numbered (by simp) ?_ _) (List.nodup_singleton _) ?_
    · intro i k hik p hi hk
      simp only [List.mem_cons, List.not_mem_nil, or_false] at hi hk
      rcases hi with rfl | rfl
      · rcases hk with h | h
        · exact hik (hinj (Place.value.inj h))
        · cases h
      · rcases hk with h | h
        · cases h
        · exact hik (hinj (Place.statement.inj h))
    · intro p hp helse
      obtain rfl := List.mem_singleton.mp helse
      obtain ⟨i, -, hi⟩ := List.mem_flatMap.mp hp
      have hname : "ELSE" = "DO" ++ i.repr := by simpa using hi
      simpa using congrArg String.toList hname
  | callStatement | callExpression =>
    refine nodup_numbered (by simp) ?_ _
    intro i k hik p hi hk
    obtain rfl := List.mem_singleton.mp hi
    exact hik (hinj (Place.value.inj (List.mem_singleton.mp hk)))
  | procedure =>
    simp only [places]
    split <;> simp
  | _ => simp [places]

/-- No block visits the one after it. -/
theorem next_not_mem_places (kind : BlockKind) (n : Node) : .next ∉ kind.places n := by
  cases kind <;> simp [places]

end BlockKind

namespace Graph

variable {g : Graph}

/-- What is held at a slot belongs to the sequence there. -/
theorem exists_head_of_mem_held {n : Node} {p : Place} {m : NodeId} (h : m ∈ g.held n p) :
    ∃ head, n.target? p = some head ∧ ReflTransGen (Next g.node) head m := by
  unfold held at h
  split at h
  · rename_i child hchild
    obtain rfl := List.mem_singleton.mp h
    exact ⟨m, hchild, .refl⟩
  · rename_i head _ hhead
    exact ⟨head, hhead, reflTransGen_of_mem_chain h⟩
  · cases h

/-- What a slot holds is held once. -/
theorem IsForest.nodup_held (h : g.IsForest) (n : Node) (p : Place) : (g.held n p).Nodup := by
  unfold held
  split
  · exact List.nodup_singleton _
  · exact h.nodup_chain _
  · exact List.nodup_nil

/-- No block stands at two places of a node, or twice at one of them. -/
theorem IsForest.nodup_held_places (h : g.IsForest) (i : NodeId) {places : List Place}
    (hplaces : places.Nodup) (hnext : .next ∉ places) :
    (places.flatMap (g.held (g.node i))).Nodup := by
  refine List.nodup_flatMap.mpr ⟨fun p _ => h.nodup_held _ p, hplaces.imp_of_mem ?_⟩
  intro p q hp hq hpq m hm hm'
  obtain ⟨head, hhead, hchain⟩ := exists_head_of_mem_held hm
  obtain ⟨head', hhead', hchain'⟩ := exists_head_of_mem_held hm'
  have hp' : p ≠ .next := fun heq => hnext (heq ▸ hp)
  have hq' : q ≠ .next := fun heq => hnext (heq ▸ hq)
  exact hpq (h.slot_unique hp' hq' hhead hhead' hchain hchain').2

/-- Visits are counted by what the places hold. -/
theorem count_visits (g : Graph) (n : Node) (places : List Place) (x : NodeId) :
    (g.visits n places).count (.visit x) = (places.flatMap (g.held n)).count x := by
  have hvisits : g.visits n places = (places.flatMap (g.held n)).map .visit := by
    rw [visits, List.map_flatMap]
  rw [hvisits, List.count_map_of_injective _ _ fun _ _ => Move.visit.inj]

end Graph

namespace Job

variable {j : Job}

/-- Apart from the pass and from remarks, a block's outline is made of visits to different blocks
that it contains. -/
theorem count_kindOutline (h : j.graph.IsForest) (kind : BlockKind) (i x : NodeId) :
    (kind.outline j i).count (.visit x) ≤ 1 ∧
      (0 < (kind.outline j i).count (.visit x) → j.graph.Contains i x) := by
  unfold BlockKind.outline
  split
  · simp
  · have hpass : ((if kind = .entry then [.pass j.alwaysEmitted] else []) : List Move).count
        (.visit x) = 0 := by
      split <;> simp
    rw [List.count_append, hpass, Nat.zero_add, Graph.count_visits]
    have hnodup := h.nodup_held_places i (kind.nodup_places (j.node i))
      (kind.next_not_mem_places (j.node i))
    refine ⟨List.nodup_iff_count_le_one.mp hnodup x, fun hpos => ?_⟩
    obtain ⟨p, hp, hx⟩ := List.mem_flatMap.mp (List.count_pos_iff.mp hpos)
    obtain ⟨head, hhead, hchain⟩ := Graph.exists_head_of_mem_held hx
    have hne : p ≠ .next := fun heq => kind.next_not_mem_places (j.node i) (heq ▸ hp)
    exact ⟨p, head, hne, hhead, hchain⟩

/-- A block is visited at most once by the outline of another one, which contains it. -/
theorem count_outline (h : j.graph.IsForest) (i x : NodeId) :
    (j.outline i).count (.visit x) ≤ 1 ∧
      (0 < (j.outline i).count (.visit x) → j.graph.Contains i x) := by
  unfold outline
  split
  · exact count_kindOutline h _ i x
  · simp

/-- There is one pass only, over all always-emitted blocks. -/
theorem pass_of_mem_outline {i : NodeId} {blocks : List NodeId}
    (h : .pass blocks ∈ j.outline i) : blocks = j.alwaysEmitted := by
  unfold outline at h
  split at h
  · unfold BlockKind.outline at h
    split at h
    · simp at h
    · rcases List.mem_append.mp h with h | h
      · split at h
        · simpa using h
        · cases h
      · simp [Graph.visits] at h
  · simp at h

/-! ## Counting along a course -/

/-- How often the pass, if it is still to be made, will ask for a block. -/
def due (j : Job) (x : NodeId) (s : Run) : Nat :=
  if s.passMade then 0 else j.alwaysEmitted.count x

theorem due_eq {s s' : Run} (h : s'.passMade = s.passMade) (x : NodeId) :
    j.due x s' = j.due x s := by
  rw [due, due, h]

/-- **Each time that a block is generated is accounted for**: by the outline of the script, by that
of a block that is generated in its course, or by the pass. -/
theorem Course.count_blocks {α : Type} {script : Script α} {s s' : Run} {steps : List Step} {a : α}
    (h : j.Course script s steps a s') {moves : List Move} (hmoves : script.Outlines moves)
    (hpass : ∀ blocks, .pass blocks ∈ moves → blocks = j.alwaysEmitted) (x : NodeId) :
    (Step.blocks steps).count x + j.due x s' =
      moves.count (.visit x) +
        ((Step.blocks steps).flatMap j.outline).count (.visit x) + j.due x s := by
  induction h generalizing moves with
  | done =>
    cases hmoves
    rfl
  | @block _ i _ s s₁ s' _ _ inside rest _ _ ihinside ihrest =>
    cases hmoves with
    | quiet hr => exact hr.elim
    | @visit _ _ moves hrest =>
      -- The block itself counts once here, and what its own script visits is in its outline.
      have hin := ihinside (j.outlines_blockScript i) fun _ => pass_of_mem_outline
      have hout := ihrest (hrest _) fun blocks hb => hpass blocks (List.mem_cons_of_mem _ hb)
      have hblocks : Step.blocks (⟨.generate i, s⟩ :: (inside ++ rest)) =
          i :: (Step.blocks inside ++ Step.blocks rest) := by
        rw [Step.blocks_cons, Step.blocks_append]
        rfl
      rw [hblocks]
      simp only [List.count_cons, List.count_append, List.flatMap_cons, List.flatMap_append,
        beq_iff_eq, Move.visit.injEq]
      omega
  | @plain _ r _ s s₁ s' reply _ rest hanswer _ ih =>
    have hblocks : Step.blocks (⟨r, s⟩ :: rest) = Step.blocks rest := by
      rw [Step.blocks_cons, Request.block?_of_answer hanswer]
      rfl
    rw [hblocks]
    cases hmoves with
    | quiet hr hrest =>
      obtain ⟨reply', after, hreply, htally⟩ := hr.tally_answer (fun _ _ => none) s
      rw [hanswer] at hreply
      cases hreply
      rw [ih (hrest _) hpass, due_eq (congrArg Tally.passMade htally)]
    | visit => cases hanswer
    | remark hrest =>
      cases hanswer
      rw [ih hrest fun blocks hb => hpass blocks (List.mem_cons_of_mem _ hb),
        List.count_cons_of_ne (by simp)]
      rfl
    | @pass blocks _ moves hskip hmake =>
      cases hanswer
      have hblocks := hpass blocks List.mem_cons_self
      subst hblocks
      have hrest : ∀ blocks, .pass blocks ∈ moves → blocks = j.alwaysEmitted :=
        fun blocks hb => hpass blocks (List.mem_cons_of_mem _ hb)
      rw [List.count_cons_of_ne (by simp)]
      -- Only the first pass asks for its blocks; until then they are due.
      cases hmade : s.passMade with
      | true =>
        rw [hmade] at ih
        rw [ih hskip hrest]
        simp [due, hmade]
      | false =>
        rw [hmade] at ih
        have hvisits := ih hmake fun blocks hb => by
          rcases List.mem_append.mp hb with hb | hb
          · simp at hb
          · exact hrest blocks hb
        rw [List.count_append, List.count_map_of_injective _ _ fun _ _ => Move.visit.inj] at hvisits
        simp only [due, hmade, Bool.false_eq_true, if_false, if_true] at hvisits ⊢
        omega

/-- A move that the lists of one member hold at most once, and no others do. -/
theorem count_flatMap_le {f : NodeId → List Move} {m : Move} {o : NodeId}
    (hf : ∀ v, (f v).count m ≤ if v = o then 1 else 0) (blocks : List NodeId) :
    (blocks.flatMap f).count m ≤ blocks.count o := by
  induction blocks with
  | nil => rfl
  | cons v rest ih =>
    have hv := hf v
    rw [List.flatMap_cons, List.count_append, List.count_cons]
    simp only [beq_iff_eq]
    omega

/-- At top level a block is visited as often as it stands there, or not at all. -/
theorem count_compilationOutline (j : Job) (x : NodeId) :
    j.compilationOutline.count (.visit x) ≤ j.walk.count x := by
  have houtline : j.compilationOutline = j.walk.flatMap j.topOutline := by
    rw [compilationOutline, walk, List.flatMap_assoc]
  rw [houtline]
  refine count_flatMap_le (fun i => ?_) j.walk
  unfold topOutline
  split <;> simp [List.count_singleton]

theorem not_pass_mem_compilationOutline (j : Job) (blocks : List NodeId) :
    .pass blocks ∉ j.compilationOutline := by
  intro h
  obtain ⟨root, -, h⟩ := List.mem_flatMap.mp h
  obtain ⟨i, -, h⟩ := List.mem_flatMap.mp h
  unfold topOutline at h
  split at h <;> simp at h

/-- Only the container of a block visits it, and only once. -/
theorem count_flatMap_outline_le (h : j.graph.IsForest) {o x : NodeId} (ho : j.graph.Contains o x)
    (blocks : List NodeId) : (blocks.flatMap j.outline).count (.visit x) ≤ blocks.count o := by
  refine count_flatMap_le (fun v => ?_) blocks
  obtain ⟨hle, hpos⟩ := count_outline h v x
  split
  · exact hle
  · rename_i hne
    exact Nat.le_of_not_lt fun hlt => hne (h.contains_unique (hpos hlt) ho)

/-- A block is not visited if its container does not visit it, or if it has none. -/
theorem count_flatMap_outline_eq_zero (h : j.graph.IsForest) {x : NodeId}
    (hno : ∀ o, j.graph.Contains o x → (j.outline o).count (.visit x) = 0)
    (blocks : List NodeId) : (blocks.flatMap j.outline).count (.visit x) = 0 := by
  refine List.count_eq_zero.mpr fun hmem => ?_
  obtain ⟨v, -, hv⟩ := List.mem_flatMap.mp hmem
  have hpos := List.count_pos_iff.mpr hv
  have hzero := hno v ((count_outline h v x).2 hpos)
  omega

/-- **A block is generated at most once**, and once more if it is always emitted. -/
theorem count_blocks_le (h : j.graph.IsForest)
    (hleaf : ∀ i, j.backend.alwaysEmitted.contains (j.node i).type = true →
      ∀ x, (j.outline i).count (.visit x) = 0)
    {options : Options} {s : Run} {steps : List Step} {texts : List (NodeId × String)}
    (hcourse : j.Course (j.sections options) {} steps texts s) (x : NodeId) :
    (Step.blocks steps).count x ≤ 1 + j.alwaysEmitted.count x := by
  induction x using h.ancestor_induction with
  | step x ih =>
    have hcount := hcourse.count_blocks (j.outlines_sections options)
      (fun blocks hb => absurd hb (j.not_pass_mem_compilationOutline blocks)) x
    have hdue : j.due x {} = j.alwaysEmitted.count x := rfl
    have htop := j.count_compilationOutline x
    by_cases hcontained : ∃ o, j.graph.Contains o x
    · obtain ⟨o, ho⟩ := hcontained
      have hwalk : j.walk.count x = 0 :=
        List.count_eq_zero.mpr fun hx => not_contains_of_mem_walk h hx o ho
      by_cases halways : j.backend.alwaysEmitted.contains (j.node o).type = true
      · -- An always-emitted container visits nothing, so its own count does not matter.
        have hzero := count_flatMap_outline_eq_zero h
          (fun v hv => h.contains_unique ho hv ▸ hleaf o halways x) (Step.blocks steps)
        omega
      · have hinside := count_flatMap_outline_le h ho (Step.blocks steps)
        have hnone : j.alwaysEmitted.count o = 0 :=
          List.count_eq_zero.mpr fun ho => halways (List.mem_filter.mp ho).2
        have hcontainer := ih o ho.transGen
        omega
    · have hwalk := List.nodup_iff_count_le_one.mp (nodup_walk h) x
      have hzero := count_flatMap_outline_eq_zero h
        (fun o ho => absurd ⟨o, ho⟩ hcontained) (Step.blocks steps)
      omega

/-! ## Types without a generator -/

/-- No generator serves the type of the block. -/
def isMissing (j : Job) (i : NodeId) : Bool :=
  (j.backend.generators.get? (j.node i).type).isNone

/-- The diagnostic of a block without a generator. -/
def missingReport (j : Job) (i : NodeId) : Diagnostic :=
  .missingGenerator (j.node i).key (j.node i).type j.backend.name

/-- The error in the log for a block without a generator. -/
def missingNotice (j : Job) (i : NodeId) : Notice :=
  .missingGenerator (j.node i).type (j.node i).key j.backend.name

/-- The reports of blocks without a generator. -/
def missingReports (steps : List Step) : List Diagnostic :=
  (Step.reports steps).filter (·.reason == .missingGenerator)

/-- The errors that are written to the log. -/
def errors (notices : List Notice) : List Notice :=
  notices.filter (·.severity == .error)

theorem errors_append (notices notices' : List Notice) :
    errors (notices ++ notices') = errors notices ++ errors notices' :=
  List.filter_append _ _

theorem missingReports_append (steps steps' : List Step) :
    missingReports (steps ++ steps') = missingReports steps ++ missingReports steps' := by
  simp [missingReports]

/-- The request is for a block, or has nothing to do with missing generators. -/
def Harmless (r : Request) : Prop :=
  (∃ i, r = .generate i) ∨ r.IsOrdinary

theorem slotsMatch_self (g : Graph) (n : Node) : SlotsMatch g g Eq (fun _ => False) n n where
  values slot := by
    cases n.values.get? slot with
    | none => exact .none
    | some child => exact .some rfl
  statements slot := by
    cases n.statements.get? slot with
    | none => exact .none
    | some head => exact .some (.of_forall₂ (List.forall₂_refl _))
  slotCount _ := rfl

/-- A block is in the same position as itself. -/
theorem counterparts_self (j : Job) (i : NodeId) :
    j.Counterparts j.graph Eq (fun _ => False) i i where
  key := rfl
  type := rfl
  fields := rfl
  slots := slotsMatch_self j.graph (j.node i)
  inside := rfl
  inLoop := rfl
  globals _ := rfl

/-- The script of a block is harmless if there is a generator for it. -/
theorem asks_harmless_blockScript {i : NodeId} (hi : j.isMissing i = false) :
    (j.blockScript i).Asks Harmless Harmless false := by
  unfold isMissing at hi
  simp only [blockScript]
  cases hg : j.backend.generators.get? (j.node i).type with
  | some g =>
    have hself : (g.script j i).Parallel Eq (fun _ => False) Request.IsOrdinary (g.script j i) :=
      g.parallel_script (fun _ => id) (List.forall₂_refl _) (j.counterparts_self i)
    exact hself.asks (fun _ => id) (fun _ => Or.inr) (fun i _ _ => Or.inl ⟨i, rfl⟩) _ _
  | none => simp [hg] at hi

/-- A compilation itself has nothing to do with missing generators. -/
theorem asks_harmless_sections (j : Job) (options : Options) :
    (j.sections options).Asks Harmless Harmless false := by
  refine Script.Asks.mapM fun root _ => Script.Asks.bind ?_ fun _ => .pure _
  refine Script.Asks.bind (Script.Asks.mapM fun i _ => ?_) fun _ => .pure _
  simp only [topLevel]
  cases j.isPlaced (j.node i).type with
  | true =>
    exact Script.Asks.bind (.single (Or.inr Severity.noConfusion) fun _ => .done _) fun _ =>
      .single (Or.inl ⟨i, rfl⟩) fun _ => .pure _
  | false =>
    exact Script.Asks.bind (.single (Or.inr Severity.noConfusion) fun _ => .done _) fun _ =>
      .single (Or.inr Reason.noConfusion) fun _ => .pure _

/-- The steps of a block without a generator: an error in the log, and a report. -/
theorem Course.of_isMissing {i : NodeId} (hi : j.isMissing i = true) {s s' : Run}
    {steps : List Step} {c : Code} (h : j.Course (j.blockScript i) s steps c s') :
    steps = [⟨.notice (j.missingNotice i), s⟩,
      ⟨.report (j.missingReport i), s.notice (j.missingNotice i)⟩] := by
  have hnone := Option.isNone_iff_eq_none.mp hi
  simp only [blockScript, hnone] at h
  cases h with
  | plain hanswer hrest =>
    cases hanswer
    cases hrest with
    | plain hanswer hrest =>
      cases hanswer
      cases hrest
      rfl

/-- A harmless request that is not for a block leaves no trace of a missing generator. -/
theorem no_trace_of_harmless {r : Request} (hr : Harmless r) {s s' : Run} {reply : r.Reply}
    (hanswer : r.answer (fun _ _ => none) s = some (reply, s')) :
    (Step.report? ⟨r, s⟩).toList.filter (·.reason == .missingGenerator) = [] ∧
      errors (Step.written ⟨r, s⟩) = [] := by
  rcases hr with ⟨i, rfl⟩ | hr
  · cases hanswer
  cases r with
  | generate i => exact hr.elim
  | notice n => exact ⟨rfl, by simpa [errors, Step.written, Request.IsOrdinary] using hr⟩
  | setupBeside symbol text rival warning =>
    refine ⟨rfl, ?_⟩
    simp only [errors, Step.written]
    split
    · simpa [Request.IsOrdinary] using hr
    · rfl
  | report d => exact ⟨by simpa [Step.report?, Request.IsOrdinary] using hr, rfl⟩
  | enterProgram key =>
    refine ⟨rfl, ?_⟩
    simp only [errors, Step.written]
    split <;> rfl
  | declare | setup | setupLines | beginPass => exact ⟨rfl, rfl⟩

/-- **The reports of missing generators, and the errors in the log**, are those of the blocks
without a generator, each time that one of them is generated. -/
theorem Course.missing {α : Type} {script : Script α} {s s' : Run} {steps : List Step} {a : α}
    (h : j.Course script s steps a s') {opened : Bool}
    (hscript : script.Asks Harmless Harmless opened) :
    missingReports steps = ((Step.blocks steps).filter j.isMissing).map j.missingReport ∧
      errors (Step.notices steps) =
        ((Step.blocks steps).filter j.isMissing).map j.missingNotice := by
  induction h generalizing opened with
  | done => exact ⟨rfl, rfl⟩
  | @block _ i _ s _ _ _ _ inside rest hinside _ ihinside ihrest =>
    obtain ⟨hreports, herrors⟩ := ihrest (hscript.2 _)
    have hblocks : Step.blocks (⟨.generate i, s⟩ :: (inside ++ rest)) =
        i :: (Step.blocks inside ++ Step.blocks rest) := by
      rw [Step.blocks_cons, Step.blocks_append]
      rfl
    -- A block without a generator asks for nothing; of any other, the script is harmless.
    have hown : missingReports inside =
        ((i :: Step.blocks inside).filter j.isMissing).map j.missingReport ∧
        errors (Step.notices inside) =
          ((i :: Step.blocks inside).filter j.isMissing).map j.missingNotice := by
      cases hi : j.isMissing i with
      | true =>
        obtain rfl := hinside.of_isMissing hi
        rw [List.filter_cons_of_pos hi]
        exact ⟨rfl, rfl⟩
      | false =>
        rw [List.filter_cons_of_neg (by simp [hi])]
        exact ihinside (asks_harmless_blockScript hi)
    have hreports' : missingReports (⟨.generate i, s⟩ :: (inside ++ rest)) =
        missingReports inside ++ missingReports rest := missingReports_append inside rest
    rw [hblocks, hreports', Step.notices_generate, Step.notices_append, errors_append,
      ← List.cons_append, List.filter_append, List.map_append, List.map_append]
    exact ⟨congrArg₂ (· ++ ·) hown.1 hreports, congrArg₂ (· ++ ·) hown.2 herrors⟩
  | @plain _ r _ s _ _ _ _ rest hanswer _ ih =>
    obtain ⟨hreports, herrors⟩ := ih (hscript.2 _)
    obtain ⟨hreport, hwritten⟩ := no_trace_of_harmless (hscript.1.elim id And.right) hanswer
    have hblocks : Step.blocks (⟨r, s⟩ :: rest) = Step.blocks rest := by
      rw [Step.blocks_cons, Request.block?_of_answer hanswer]
      rfl
    rw [hblocks, ← hreports, ← herrors, missingReports, Step.reports_cons, Step.notices_cons,
      List.filter_append, hreport, errors_append, hwritten]
    exact ⟨rfl, rfl⟩

/-! ## Targets -/

/-- The request is for no block beyond the graph. -/
def AsksWithin (j : Job) (r : Request) : Prop :=
  ∀ i, r = .generate i → i < j.graph.size

/-- Blocks ask for what they contain, which is in the graph. -/
theorem asksWithin_blockScript (h : j.graph.IsForest) (i : NodeId) :
    (j.blockScript i).Asks j.AsksWithin j.AsksWithin false := by
  refine (j.asks_blockScript i).mono ?_ ?_ id
  · rintro r hr c rfl
    exact (h.lt_size_of_contains (contains_of_permits hr)).2
  · rintro r hr c rfl
    exact List.mem_range.mp (List.mem_filter.mp hr).1

theorem asksWithin_sections (h : j.graph.IsForest) (options : Options) :
    (j.sections options).Asks j.AsksWithin j.AsksWithin false := by
  refine (j.asks_sections options j.AsksWithin false).mono ?_ (fun _ => id) id
  rintro r hr c rfl
  obtain ⟨-, root, hroot, hc⟩ := hr
  exact lt_size_of_mem_walk h (List.mem_flatMap.mpr ⟨root, mem_generationOrder.mpr hroot, hc⟩)

/-- Only blocks of the graph are generated. -/
theorem lt_size_of_mem_blocks (h : j.graph.IsForest) {options : Options} {s : Run}
    {steps : List Step} {texts : List (NodeId × String)}
    (hcourse : j.Course (j.sections options) {} steps texts s) {i : NodeId}
    (hi : i ∈ Step.blocks steps) : i < j.graph.size := by
  obtain ⟨step, hstep, hblock⟩ := List.mem_filterMap.mp hi
  have hrequest : step.request = .generate i := by
    cases hr : step.request <;> simp_all [Step.block?]
  exact hcourse.forall_request (asksWithin_blockScript h) (asksWithin_sections h options) step hstep
    i hrequest

variable {g : Graph} {t : Target}

/-- The types that are always emitted have generators. -/
theorem exists_generator_of_alwaysEmitted {i : NodeId}
    (hi : t.backend.alwaysEmitted.contains (g.node i).type = true) :
    ∃ kind, t.backend.generators.get? (g.node i).type = some ⟨t, kind⟩ ∧
      kind ∈ [.serialSetup, .servoAttach, .interruptAttach] := by
  obtain ⟨kind, hkind⟩ := Target.exists_alwaysEmittedKind hi
  have hget := Target.get?_of_mem_typeKinds (t.alwaysEmittedKinds_subset hkind)
  have hmem : kind ∈ alwaysEmittedKinds.map (·.2) := List.mem_map_of_mem hkind
  exact ⟨kind, hget, hmem⟩

/-- The always-emitted blocks of a target have nothing inside. -/
theorem outline_of_alwaysEmitted {i : NodeId}
    (hi : t.backend.alwaysEmitted.contains (g.node i).type = true) :
    outline ⟨g, t.backend⟩ i = [] := by
  obtain ⟨kind, hkind, hmem⟩ := exists_generator_of_alwaysEmitted hi
  simp only [outline, node, hkind]
  simp only [List.mem_cons, List.not_mem_nil, or_false] at hmem
  rcases hmem with rfl | rfl | rfl <;> rfl

theorem isMissing_of_alwaysEmitted {i : NodeId}
    (hi : t.backend.alwaysEmitted.contains (g.node i).type = true) :
    isMissing ⟨g, t.backend⟩ i = false := by
  obtain ⟨kind, hkind, -⟩ := exists_generator_of_alwaysEmitted hi
  simp [isMissing, node, hkind]

/-- The pass asks for each of its blocks once. -/
theorem count_alwaysEmitted (j : Job) (i : NodeId) :
    j.alwaysEmitted.count i ≤ if j.backend.alwaysEmitted.contains (j.node i).type then 1 else 0 := by
  split
  · exact List.nodup_iff_count_le_one.mp (List.nodup_range.filter _) i
  · rename_i hnot
    exact Nat.le_of_eq (List.count_eq_zero.mpr fun hmem => hnot (List.mem_filter.mp hmem).2)

section Census

variable (h : g.Built) {options : Options} {s : Run} {steps : List Step}
  {texts : List (NodeId × String)}
  (hcourse : Course ⟨g, t.backend⟩ (sections ⟨g, t.backend⟩ options) {} steps texts s)

include h hcourse

/-- With the backend of a target a block is generated once, or twice if it is always emitted. -/
theorem count_blocks_of_target (i : NodeId) :
    (Step.blocks steps).count i ≤
      if t.backend.alwaysEmitted.contains (g.node i).type then 2 else 1 := by
  have hle := count_blocks_le (j := ⟨g, t.backend⟩) h.isForest
    (fun i hi x => by rw [outline_of_alwaysEmitted hi]; rfl) hcourse i
  have halways : (alwaysEmitted ⟨g, t.backend⟩).count i ≤
      if t.backend.alwaysEmitted.contains (g.node i).type then 1 else 0 :=
    count_alwaysEmitted ⟨g, t.backend⟩ i
  cases hi : t.backend.alwaysEmitted.contains (g.node i).type with
  | true =>
    rw [hi, if_pos rfl] at halways
    rw [if_pos rfl]
    omega
  | false =>
    rw [hi, if_neg Bool.false_ne_true] at halways
    rw [if_neg Bool.false_ne_true]
    omega

/-- No block without a generator is generated twice. -/
theorem nodup_missing :
    ((Step.blocks steps).filter (isMissing ⟨g, t.backend⟩)).Nodup := by
  refine List.nodup_iff_count_le_one.mpr fun i => ?_
  by_cases hi : isMissing ⟨g, t.backend⟩ i = true
  · have hle := count_blocks_of_target h hcourse i
    have hnot : t.backend.alwaysEmitted.contains (g.node i).type = false := by
      rw [← Bool.not_eq_true]
      intro halways
      rw [isMissing_of_alwaysEmitted halways] at hi
      cases hi
    rw [hnot] at hle
    exact Nat.le_trans (List.filter_sublist.count_le i) hle
  · rw [List.count_eq_zero.mpr fun hmem => hi (List.mem_filter.mp hmem).2]
    exact Nat.zero_le 1

/-- No block without a generator is reported twice. -/
theorem nodup_missing_keys : ((missingReports steps).map (·.node)).Nodup := by
  rw [(hcourse.missing (asks_harmless_sections _ options)).1, List.map_map]
  refine nodup_map_key (j := ⟨g, t.backend⟩) h.isForest (nodup_missing h hcourse) fun i hi => ?_
  exact lt_size_of_mem_blocks (j := ⟨g, t.backend⟩) h.isForest hcourse (List.mem_filter.mp hi).1

end Census

/-- After the sections only closing notices are written to the log. -/
theorem notices_compileRun {j : Job} {options : Options} {texts : List (NodeId × String)} {s : Run}
    (hplay : j.play? (j.sections options) {} = some (texts, s)) :
    (j.compileRun options).2.notices = s.notices ++ j.closingNotices s := by
  rw [compileRun_of_play? hplay]
  rfl

/-- None of these is an error. -/
theorem errors_closingNotices (j : Job) (s : Run) : errors (j.closingNotices s) = [] := by
  unfold closingNotices
  split <;> rfl

end Job

namespace Graph

/-- **How often blocks are generated.**  A compilation for a target runs to its end and generates
each block at most once, and an always-emitted one at most twice.  So the reports of missing
generators are about different blocks, none of them is dropped, and the errors in the log are one
for each of these diagnostics, in the same order. -/
theorem Built.generated_once {g : Graph} (h : g.Built) (t : Target) (options : Options) :
    (∃ sections s, Job.play? ⟨g, t.backend⟩ (Job.sections ⟨g, t.backend⟩ options) {} =
      some (sections, s)) ∧
    (∀ i, (Step.blocks (Job.compilationSteps ⟨g, t.backend⟩ options)).count i ≤
      if t.backend.alwaysEmitted.contains (g.node i).type then 2 else 1) ∧
    ((Job.missingReports (Job.compilationSteps ⟨g, t.backend⟩ options)).map (·.node)).Nodup ∧
    (∀ step ∈ Job.compilationSteps ⟨g, t.backend⟩ options, ∀ d, step.request = .report d →
      d.reason = .missingGenerator → step.run.diagnostics.reports d = false) ∧
    (Job.compile ⟨g, t.backend⟩ options).withReason .missingGenerator =
      Job.missingReports (Job.compilationSteps ⟨g, t.backend⟩ options) ∧
    Job.errors (Job.compileRun ⟨g, t.backend⟩ options).2.notices =
      ((Job.compile ⟨g, t.backend⟩ options).withReason .missingGenerator).map fun d =>
        .missingGenerator d.nodeType d.node t.backend.name := by
  obtain ⟨sections, s, hplay⟩ :=
    Job.exists_play? (j := ⟨g, t.backend⟩) h.isForest (Job.sections ⟨g, t.backend⟩ options) {}
  have hcourse : Job.Course ⟨g, t.backend⟩ _ _ (Job.compilationSteps ⟨g, t.backend⟩ options) _ _ :=
    Job.course_of_play? hplay
  have hdistinct := Job.nodup_missing_keys h hcourse
  -- Distinct subjects are what keeps the log of diagnostics from dropping a report.
  obtain ⟨hstay, hfresh⟩ := hcourse.reports_fresh hdistinct
  have hwith := (Job.withReason_compile hplay .missingGenerator).trans hstay
  refine ⟨⟨sections, s, hplay⟩, Job.count_blocks_of_target h hcourse, hdistinct, hfresh, hwith, ?_⟩
  obtain ⟨hreports, herrors⟩ := hcourse.missing (Job.asks_harmless_sections _ options)
  have hlog : s.notices = Step.notices (Job.compilationSteps ⟨g, t.backend⟩ options) :=
    hcourse.notices
  rw [hwith, Job.notices_compileRun hplay, Job.errors_append, Job.errors_closingNotices, hlog,
    herrors, List.append_nil]
  refine Eq.trans ?_ (congrArg (List.map _) hreports.symm)
  rw [List.map_map]
  rfl

/-- An entry point whose setup opens the serial line, and whose loop holds two blocks of unknown
types in sequence. -/
def unknownDraft : Draft :=
  [.node "entry" "arduino_entry", .node "serial" "serial_setup", .node "first" "mystery",
    .node "second" "riddle", .setStatement 0 "SETUP" 1, .setBody 0 "LOOP" [2, 3]].foldl
      (fun d e => Draft.Edit.apply e d) {}

theorem unknownDraft_reachable : unknownDraft.Reachable :=
  Draft.reachable_of_edits rfl

theorem unknownDraft_built : unknownDraft.toGraph.Built :=
  unknownDraft_reachable.built rfl

/-- The serial line is opened by the pass and again in its slot; each unknown type leaves one
diagnostic and one error in the log. -/
theorem Built.generated_once_unknown :
    unknownDraft.toGraph.Built ∧
      (Step.blocks (Job.compilationSteps ⟨unknownDraft.toGraph, Target.arduino.backend⟩ {})).count
        1 = 2 ∧
      Job.errors (Job.compileRun ⟨unknownDraft.toGraph, Target.arduino.backend⟩ {}).2.notices =
        [.missingGenerator "mystery" "first" "arduino",
          .missingGenerator "riddle" "second" "arduino"] := by
  obtain ⟨-, -, -, -, -, herrors⟩ := Built.generated_once unknownDraft_built .arduino {}
  refine ⟨unknownDraft_built, rfl, ?_⟩
  rw [herrors]
  decide

end Graph

end BlockCompiler
