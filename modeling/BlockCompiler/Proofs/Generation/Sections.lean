import BlockCompiler.Proofs.Generation.Depth
import BlockCompiler.Proofs.Text.Lines

/-!
# The sections of a source

A compilation walks over the blocks at top level, root by root (`Job.walk`).  In a
forest no block stands there twice (`nodup_walk`).  What the walk yields, block by
block, is grouped into sections (`play?_sections`), and every section that is not blank
is part of the source, up to the line feeds at its end (`occurs_source`).
-/

namespace BlockCompiler

open Relation

/-! ## Steps in turn -/

namespace Run

/-- The members of a list are dealt with one after the other, each on the run that the one before
left, and come to the results. -/
inductive InTurn {α β : Type} (step : α → β → Run → Run → Prop) :
    List α → List β → Run → Run → Prop
  | nil (s : Run) : InTurn step [] [] s s
  | cons {x : α} {xs : List α} {y : β} {ys : List β} {s s₁ s' : Run}
      (hfirst : step x y s s₁) (hrest : InTurn step xs ys s₁ s') :
      InTurn step (x :: xs) (y :: ys) s s'

namespace InTurn

variable {α β γ : Type} {step : α → β → Run → Run → Prop} {step' : α → γ → Run → Run → Prop}
  {xs : List α} {ys : List β} {s s' : Run}

/-- There is one result for each member. -/
theorem length_eq (h : InTurn step xs ys s s') : ys.length = xs.length := by
  induction h with
  | nil => rfl
  | cons _ _ ih => rw [List.length_cons, List.length_cons, ih]

/-- The results for different members are those of a function. -/
theorem exists_eq_map [DecidableEq α] [Inhabited β] (h : InTurn step xs ys s s')
    (hnodup : xs.Nodup) : ∃ g : α → β, ys = xs.map g := by
  induction h with
  | nil => exact ⟨fun _ => default, rfl⟩
  | @cons x rest y _ _ _ _ _ _ ih =>
    obtain ⟨hx, hrest⟩ := List.nodup_cons.mp hnodup
    obtain ⟨g, rfl⟩ := ih hrest
    refine ⟨fun z => if z = x then y else g z, ?_⟩
    rw [List.map_cons, if_pos rfl]
    -- The result of the first member is its own, that of all others stays.
    refine congrArg (y :: ·) (List.map_congr_left fun z hz => ?_)
    rw [if_neg]
    rintro rfl
    exact hx hz

/-- What is made of the results at the end does not matter to the run. -/
theorem zipWith {r : α → β → γ} (h : InTurn step xs ys s s')
    (hstep : ∀ x y s s', step x y s s' → step' x (r x y) s s') :
    InTurn step' xs (List.zipWith r xs ys) s s' := by
  induction h with
  | nil s => exact .nil s
  | cons hfirst _ ih => exact .cons (hstep _ _ _ _ hfirst) ih

/-- Results that were made of others lead back to those. -/
theorem exists_zipWith {r : α → β → γ} {zs : List γ} (h : InTurn step' xs zs s s')
    (hstep : ∀ x z s s', step' x z s s' → ∃ y, z = r x y ∧ step x y s s') :
    ∃ ys, zs = List.zipWith r xs ys ∧ InTurn step xs ys s s' := by
  induction h with
  | nil s => exact ⟨[], rfl, .nil s⟩
  | cons hfirst _ ih =>
    obtain ⟨ys, rfl, hrest⟩ := ih
    obtain ⟨y, rfl, hy⟩ := hstep _ _ _ _ hfirst
    exact ⟨y :: ys, rfl, .cons hy hrest⟩

theorem imp {step' : α → β → Run → Run → Prop} (h : InTurn step xs ys s s')
    (hstep : ∀ x y s s', step x y s s' → step' x y s s') : InTurn step' xs ys s s' := by
  induction h with
  | nil s => exact .nil s
  | cons hfirst _ ih => exact .cons (hstep _ _ _ _ hfirst) ih

section Function

variable {g : α → β}

/-- Each member has its turn. -/
theorem exists_of_mem (h : InTurn step xs (xs.map g) s s') {x : α} (hx : x ∈ xs) :
    ∃ s₁ s₂, step x (g x) s₁ s₂ := by
  induction xs generalizing s with
  | nil => cases hx
  | cons first rest ih =>
    cases h with
    | cons hfirst hrest =>
      rcases List.mem_cons.mp hx with rfl | hx
      · exact ⟨_, _, hfirst⟩
      · exact ih hrest hx

theorem map_function {r : α → β → γ} (h : InTurn step xs (xs.map g) s s')
    (hstep : ∀ x y s s', step x y s s' → step' x (r x y) s s') :
    InTurn step' xs (xs.map fun x => r x (g x)) s s' := by
  have hturn := h.zipWith hstep
  rwa [List.zipWith_map_right, List.zipWith_self] at hturn

/-- The first members have their turns before the later ones. -/
theorem exists_append {later : List α} (h : InTurn step (xs ++ later) ((xs ++ later).map g) s s') :
    ∃ s₁, InTurn step xs (xs.map g) s s₁ ∧ InTurn step later (later.map g) s₁ s' := by
  induction xs generalizing s with
  | nil => exact ⟨s, .nil s, h⟩
  | cons first rest ih =>
    cases h with
    | cons hfirst hrest =>
      obtain ⟨s₁, hleft, hright⟩ := ih hrest
      exact ⟨s₁, .cons hfirst hleft, hright⟩

/-- Members may be dealt with group by group. -/
theorem grouped {δ : Type} {members : δ → List α} {groups : List δ}
    (h : InTurn step (groups.flatMap members) ((groups.flatMap members).map g) s s') :
    InTurn (fun d => InTurn step (members d)) groups (groups.map fun d => (members d).map g)
      s s' := by
  induction groups generalizing s with
  | nil =>
    cases h
    exact .nil s'
  | cons first rest ih =>
    rw [List.flatMap_cons] at h
    obtain ⟨s₁, hfirst, hrest⟩ := h.exists_append
    exact .cons hfirst (ih hrest)

end Function

end InTurn

end Run

namespace Script

variable {α β γ : Type} {code : NodeId → Run → Option (Code × Run)} {f : α → Script β}
  {xs : List α} {ys : List β} {s s' : Run}

theorem run_map (script : Script α) (f : α → β) (s : Run) :
    (f <$> script).run code s = (script.run code s).map fun r => (f r.1, r.2) := by
  rw [← bind_pure_comp, run_bind]
  cases script.run code s <;> rfl

theorem run_map_of_run {script : Script α} {a : α} (h : script.run code s = some (a, s'))
    (f : α → β) : (f <$> script).run code s = some (f a, s') := by
  rw [run_map, h]
  rfl

/-- Scripts in sequence are played in turn. -/
theorem run_mapM_iff : (xs.mapM f).run code s = some (ys, s') ↔
    Run.InTurn (fun x y s s' => (f x).run code s = some (y, s')) xs ys s s' := by
  constructor
  · intro h
    induction xs generalizing ys s with
    | nil =>
      cases h
      exact .nil s'
    | cons x rest ih =>
      rw [List.mapM_cons, run_bind] at h
      obtain ⟨⟨y, s₁⟩, hfirst, h⟩ := Option.bind_eq_some_iff.mp h
      rw [run_bind] at h
      obtain ⟨⟨ys, s₂⟩, hrest, h⟩ := Option.bind_eq_some_iff.mp h
      cases h
      exact .cons hfirst (ih hrest)
  · intro h
    induction h with
    | nil => rfl
    | cons hfirst _ ih =>
      rw [List.mapM_cons, run_bind, hfirst, Option.bind_some, run_bind, ih]
      rfl

end Script

namespace Job

variable {j : Job} {options : Options}

/-- The blocks at top level, in the order in which a compilation gets to them. -/
def walk (j : Job) : List NodeId :=
  j.generationOrder.flatMap j.graph.chain

/-- Each root is generated once. -/
theorem nodup_generationOrder (h : j.graph.IsForest) : j.generationOrder.Nodup := by
  refine (h.nodup_roots.filter _).append (h.nodup_roots.filter _) ?_
  intro r hr hr'
  have hnot := (List.mem_filter.mp hr).2
  rw [(List.mem_filter.mp hr').2] at hnot
  cases hnot

/-- No block stands at top level twice. -/
theorem nodup_walk (h : j.graph.IsForest) : j.walk.Nodup := by
  refine List.nodup_flatMap.mpr ⟨fun r _ => h.nodup_chain r, ?_⟩
  refine (nodup_generationOrder h).imp_of_mem ?_
  intro r r' hr hr' hne m hm hm'
  exact hne (h.root_unique (mem_generationOrder.mp hr) (mem_generationOrder.mp hr')
    (Graph.reflTransGen_of_mem_chain hm) (Graph.reflTransGen_of_mem_chain hm'))

theorem lt_size_of_mem_walk (h : j.graph.IsForest) {i : NodeId} (hi : i ∈ j.walk) :
    i < j.graph.size := by
  obtain ⟨r, hr, hchain⟩ := List.mem_flatMap.mp hi
  rcases (Graph.reflTransGen_of_mem_chain hchain).cases_tail with rfl | ⟨b, -, hb⟩
  · exact ((h.mem_roots _).mp (mem_generationOrder.mp hr)).1
  · exact (h.within b .next i hb).2

/-- At top level are the blocks that come after a root. -/
theorem mem_walk_iff (h : j.graph.IsForest) {i : NodeId} :
    i ∈ j.walk ↔ ∃ r ∈ j.graph.roots, Relation.ReflTransGen (Next j.graph.node) r i := by
  rw [walk, List.mem_flatMap]
  refine exists_congr fun r => ?_
  rw [mem_generationOrder]
  exact and_congr_right fun hr => h.mem_chain_iff ((h.mem_roots r).mp hr).1

/-- A block at top level is not held by any slot. -/
theorem not_contains_of_mem_walk (h : j.graph.IsForest) {i : NodeId} (hi : i ∈ j.walk)
    (o : NodeId) : ¬ j.graph.Contains o i := by
  obtain ⟨r, hr, hchain⟩ := List.mem_flatMap.mp hi
  exact h.not_contains_of_root (mem_generationOrder.mp hr)
    (Graph.reflTransGen_of_mem_chain hchain)

/-! ## From the walk to sections -/

/-- What the walk yields, root by root. -/
def stackTexts (j : Job) (options : Options) : Script (List (List String)) :=
  j.generationOrder.mapM fun root => (j.graph.chain root).mapM (j.topLevel options)

theorem mapM_flatMap {α β γ : Type} (xs : List α) (f : α → List β) (g : β → Script γ) :
    (xs.flatMap f).mapM g = List.flatten <$> xs.mapM fun x => (f x).mapM g := by
  induction xs with
  | nil => rfl
  | cons x rest ih => simp [-Script.pure_eq_done, List.mapM_append, ih]

/-- Going through all blocks at top level is going through them root by root. -/
theorem walk_mapM (j : Job) (options : Options) :
    j.walk.mapM (j.topLevel options) = List.flatten <$> j.stackTexts options :=
  mapM_flatMap _ _ _

/-- A section is made by joining the texts of its stack. -/
theorem sections_eq (j : Job) (options : Options) :
    j.sections options =
      (fun texts => j.generationOrder.zip (texts.map String.join)) <$> j.stackTexts options := by
  unfold sections stackTexts
  induction j.generationOrder with
  | nil => rfl
  | cons root rest ih => simp [-Script.pure_eq_done, ih, rootSection, stack]

/-! ## Scripts in turn -/

theorem play?_map {α β : Type} (script : Script α) (f : α → β) (s : Run) :
    j.play? (f <$> script) s = (j.play? script s).map fun r => (f r.1, r.2) :=
  script.run_map f s

/-- The scripts of a list are played in turn. -/
abbrev InTurn {α β : Type} (j : Job) (f : α → Script β) : List α → List β → Run → Run → Prop :=
  Run.InTurn fun x y s s' => j.play? (f x) s = some (y, s')

section InTurn

variable {α β γ : Type} {f : α → Script β} {xs : List α} {ys : List β} {s s' : Run}

/-- A list of scripts is played member by member. -/
theorem inTurn_of_play? (h : j.play? (xs.mapM f) s = some (ys, s')) : j.InTurn f xs ys s s' :=
  Script.run_mapM_iff.mp h

theorem InTurn.play?_mapM (h : j.InTurn f xs ys s s') : j.play? (xs.mapM f) s = some (ys, s') :=
  Script.run_mapM_iff.mpr h

theorem length_of_play?_mapM (h : j.play? (xs.mapM f) s = some (ys, s')) :
    ys.length = xs.length :=
  (inTurn_of_play? h).length_eq

/-- Scripts that differ in what they make of their results are played in turn alike. -/
theorem InTurn.of_map_result {k : α → Script γ} {r : α → β → γ} {zs : List γ}
    (h : j.InTurn k xs zs s s') (hf : ∀ x, k x = r x <$> f x) :
    ∃ ys, zs = List.zipWith r xs ys ∧ j.InTurn f xs ys s s' := by
  refine h.exists_zipWith fun x z s s' hz => ?_
  rw [hf, play?_map] at hz
  obtain ⟨⟨y, s₁⟩, hy, heq⟩ := Option.map_eq_some_iff.mp hz
  cases heq
  exact ⟨y, rfl, hy⟩

theorem InTurn.map_result {g : α → β} {k : α → Script γ} {r : α → β → γ}
    (h : j.InTurn f xs (xs.map g) s s') (hf : ∀ x, k x = r x <$> f x) :
    j.InTurn k xs (xs.map fun x => r x (g x)) s s' := by
  refine h.map_function fun x y s s' hy => ?_
  rw [hf]
  exact Script.run_map_of_run hy (r x)

/-- Scripts that are played in turn may be played group by group. -/
theorem InTurn.mapM {g : α → β} {δ : Type} {members : δ → List α} {groups : List δ}
    (h : j.InTurn f (groups.flatMap members) ((groups.flatMap members).map g) s s') :
    j.InTurn (fun d => (members d).mapM f) groups (groups.map fun d => (members d).map g) s s' :=
  h.grouped.imp fun _ _ _ _ => InTurn.play?_mapM

end InTurn

/-! ## Sections -/

/-- The sections are what the walk yields, put together for each root; the run is the same. -/
theorem play?_sections {texts : List String} {s s' : Run}
    (h : j.play? (j.walk.mapM (j.topLevel options)) s = some (texts, s')) :
    ∃ groups : List (List String), groups.flatten = texts ∧
      groups.length = j.generationOrder.length ∧
      j.play? (j.sections options) s =
        some (j.generationOrder.zip (groups.map String.join), s') := by
  rw [walk_mapM, play?_map] at h
  obtain ⟨⟨groups, after⟩, hplay, heq⟩ := Option.map_eq_some_iff.mp h
  cases heq
  refine ⟨groups, rfl, ?_, ?_⟩
  · exact length_of_play?_mapM hplay
  · rw [sections_eq, play?_map, hplay]
    rfl

/-! ## From sections to the source -/

/-- Each part of the source stands in it, without the line feeds at its end. -/
theorem occurs_assemble_part {declarations : String} {banner : Option String}
    {sections : List String} {text : String}
    (h : text ∈ (if declarations.isEmpty then [] else [declarations]) ++ banner.toList ++
      sections.filter (!Text.blank ·)) :
    Text.Occurs (Text.trimLineFeeds text) (assemble declarations banner sections) := by
  simp only [assemble]
  rw [if_neg (by simpa using List.ne_nil_of_mem h)]
  exact (Text.occurs_intercalate _ (List.mem_map_of_mem h)).trans (Text.occurs_append_left _ _)

/-- A section that is not blank stands in the source, without the line feeds at its ends. -/
theorem occurs_assemble {declarations : String} {banner : Option String} {sections : List String}
    {text : String} (h : text ∈ sections) (hblank : Text.blank text = false) :
    Text.Occurs (Text.trimLineFeeds text) (assemble declarations banner sections) :=
  occurs_assemble_part (by simp [h, hblank])

theorem lookup_of_mem {α : Type} {sections : List (NodeId × α)}
    (hkeys : (sections.map (·.1)).Nodup) {root : NodeId} {text : α}
    (h : (root, text) ∈ sections) : sections.lookup root = some text := by
  induction sections with
  | nil => cases h
  | cons first rest ih =>
    rw [List.map_cons, List.nodup_cons] at hkeys
    rcases List.mem_cons.mp h with rfl | h
    · simp
    · have hne : root ≠ first.1 := by
        rintro rfl
        exact hkeys.1 (List.mem_map.mpr ⟨_, h, rfl⟩)
      rw [List.lookup_cons, beq_eq_false_iff_ne.mpr hne]
      exact ih hkeys.2 h

/-- No section gets lost when they are arranged. -/
theorem mem_arrange {sections : List (NodeId × String)} (hkeys : (sections.map (·.1)).Nodup)
    {root : NodeId} (hroot : root ∈ j.graph.roots) {text : String}
    (h : (root, text) ∈ sections) : text ∈ j.arrange sections := by
  unfold arrange
  split
  · exact List.mem_map_of_mem h
  · exact List.mem_map.mpr ⟨root, hroot, by rw [lookup_of_mem hkeys h]; rfl⟩

/-- **What the walk yields is part of the source**, apart from line feeds at the end of its
section. -/
theorem occurs_source (h : j.graph.IsForest) {texts : List String} {s : Run}
    (hplay : j.play? (j.walk.mapM (j.topLevel options)) {} = some (texts, s)) {text : String}
    (htext : text ∈ texts) (hblank : Text.blank text = false) :
    ∃ content, Text.Occurs text content ∧
      Text.Occurs (Text.trimLineFeeds content) (j.compile options).source := by
  obtain ⟨groups, rfl, hlength, hsections⟩ := play?_sections hplay
  obtain ⟨group, hgroup, hmem⟩ := List.mem_flatten.mp htext
  have hcontent := Text.occurs_join hmem
  refine ⟨String.join group, hcontent, ?_⟩
  have hfirst : (j.generationOrder.zip (groups.map String.join)).map (·.1) = j.generationOrder :=
    List.map_fst_zip (by simp [hlength])
  have hsecond : (j.generationOrder.zip (groups.map String.join)).map (·.2) =
      groups.map String.join :=
    List.map_snd_zip (by simp [hlength])
  -- The group of the text is that of some root.
  have hsection : String.join group ∈
      (j.generationOrder.zip (groups.map String.join)).map (·.2) := by
    rw [hsecond]
    exact List.mem_map_of_mem hgroup
  obtain ⟨⟨root, content⟩, hpair, rfl⟩ := List.mem_map.mp hsection
  have hroot : root ∈ j.graph.roots := by
    refine mem_generationOrder.mp ?_
    rw [← hfirst]
    exact List.mem_map_of_mem hpair
  have hkeys : ((j.generationOrder.zip (groups.map String.join)).map (·.1)).Nodup := by
    rw [hfirst]
    exact nodup_generationOrder h
  have harranged := mem_arrange hkeys hroot hpair
  rw [compile, compileRun_of_play? hsections]
  exact occurs_assemble harranged (Text.blank_eq_false_of_occurs hcontent hblank)

end Job

end BlockCompiler
