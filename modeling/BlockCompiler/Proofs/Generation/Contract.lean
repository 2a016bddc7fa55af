import BlockCompiler.Proofs.Generation.Depth
import BlockCompiler.Proofs.Generation.Registry

/-!
# Contracts between blocks

A contract says what holds of the code of each block, of every text that is declared and
of every text offered for the setup.  A script *obeys* it (`Script.Obeys`) if it offers
only such texts and comes to a result with a given property, as long as the code and the
setup lines it gets for its requests are as the contract says.

If the script of every block obeys the contract, with what holds of its code as the
property of its result, then the contract is kept by every run: the argument is an
induction on the depth to which blocks are generated inside each other
(`Contract.emit_kept`), after which a single script is looked at step by step
(`Script.Obeys.run`).

Values, sequences, sections and sources are put together in the same way by all blocks, so
what a contract comes to for them is said here once.
-/

namespace BlockCompiler

/-- What holds of the code of blocks, of declarations and of setup lines. -/
structure Contract where
  code : NodeId → Code → Prop
  declared : String → Prop
  prepared : String → Prop

namespace Contract

variable (C : Contract)

/-- The request offers only texts that the contract allows. -/
def Allows : Request → Prop
  | .declare _ text => C.declared text
  | .setup _ text | .setupBeside _ text _ _ => C.prepared text
  | .generate _ | .report _ | .notice _ | .setupLines | .beginPass | .enterProgram _ => True

/-- The reply is one that the contract grants. -/
def Grants : (r : Request) → r.Reply → Prop
  | .generate i, code => C.code i code
  | .setupLines, text => ∃ c : Collector, (∀ t ∈ c.texts, C.prepared t) ∧ text = c.flush
  | .declare .., _ | .setup .., _ | .setupBeside .., _ | .report _, _ | .notice _, _
  | .beginPass, _ | .enterProgram _, _ => True

/-- The texts collected so far are as the contract says. -/
structure Kept (s : Run) : Prop where
  declarations : ∀ t ∈ s.declarations.texts, C.declared t
  setups : ∀ t ∈ s.setups.texts, C.prepared t

end Contract

/-- A collected text was there before, or is the one just offered. -/
theorem Collector.mem_texts_register {c : Collector} {symbol text t : String}
    (h : t ∈ (c.register symbol text).texts) : t ∈ c.texts ∨ t = text := by
  rw [register] at h
  split at h
  · exact Or.inl h
  · simpa [texts] using h

namespace Run

@[simp] theorem declarations_setupBeside (s : Run) (symbol text rival : String) (warning : Notice) :
    (s.setupBeside symbol text rival warning).declarations = s.declarations := by
  simp only [setupBeside]
  split <;> rfl

@[simp] theorem setups_setupBeside (s : Run) (symbol text rival : String) (warning : Notice) :
    (s.setupBeside symbol text rival warning).setups = s.setups.register symbol text := by
  simp only [setupBeside]
  split <;> rfl

@[simp] theorem declarations_enterProgram (s : Run) (key : String) :
    (s.enterProgram key).declarations = s.declarations := by
  simp only [enterProgram]
  split <;> rfl

@[simp] theorem setups_enterProgram (s : Run) (key : String) :
    (s.enterProgram key).setups = s.setups := by
  simp only [enterProgram]
  split <;> rfl

end Run

namespace Script

variable {α β γ : Type} {C : Contract} {p : α → Prop} {q : β → Prop}

/-- With replies that the contract grants, the script makes only requests that the contract
allows, and its result satisfies `p`. -/
inductive Obeys (C : Contract) (p : α → Prop) : Script α → Prop
  | done {a : α} (h : p a) : Obeys C p (done a)
  | ask {r : Request} {resume : r.Reply → Script α} (hr : C.Allows r)
      (h : ∀ reply, C.Grants r reply → Obeys C p (resume reply)) : Obeys C p (ask r resume)

theorem obeys_pure {a : α} (h : p a) : (pure a : Script α).Obeys C p :=
  .done h

/-- A weaker property may be asked of the result. -/
theorem Obeys.mono {p' : α → Prop} {script : Script α} (h : script.Obeys C p)
    (hp : ∀ a, p a → p' a) : script.Obeys C p' := by
  induction h with
  | done ha => exact .done (hp _ ha)
  | ask hr _ ih => exact .ask hr ih

/-- Scripts one after the other: the second one may rely on the result of the first. -/
theorem Obeys.bind {script : Script α} {f : α → Script β} (h : script.Obeys C p)
    (hf : ∀ a, p a → (f a).Obeys C q) : (script >>= f).Obeys C q := by
  induction h with
  | done ha => exact hf _ ha
  | ask hr _ ih => exact .ask hr ih

/-- The result is made from that of a script before it. -/
theorem Obeys.result {script : Script α} {f : α → β} (h : script.Obeys C p)
    (hf : ∀ a, p a → q (f a)) : (script >>= fun a => pure (f a)).Obeys C q :=
  h.bind fun a ha => obeys_pure (hf a ha)

/-- A list of scripts has results that have the property one by one. -/
theorem Obeys.mapM {f : γ → Script β} {xs : List γ} (h : ∀ x ∈ xs, (f x).Obeys C q) :
    (xs.mapM f).Obeys C fun ys => ∀ y ∈ ys, q y := by
  induction xs with
  | nil => exact obeys_pure fun _ hy => nomatch hy
  | cons x rest ih =>
    rw [List.mapM_cons]
    refine (h x List.mem_cons_self).bind fun y hy => ?_
    refine (ih fun z hz => h z (List.mem_cons_of_mem _ hz)).result fun ys hys => ?_
    exact List.forall_mem_cons.mpr ⟨hy, hys⟩

theorem Obeys.forM {f : γ → Script PUnit} {xs : List γ}
    (h : ∀ x ∈ xs, (f x).Obeys C fun _ => True) : (xs.forM f).Obeys C fun _ => True := by
  induction xs with
  | nil => exact obeys_pure trivial
  | cons x rest ih =>
    refine (h x List.mem_cons_self).bind fun _ _ => ?_
    exact ih fun z hz => h z (List.mem_cons_of_mem _ hz)

/-- The code of a block is what the contract says. -/
theorem obeys_generate (i : NodeId) : (generate i).Obeys C (C.code i) :=
  .ask trivial fun _ h => .done h

/-- A declaration has to be as the contract says. -/
theorem obeys_declare {symbol text : String} (h : C.declared text) :
    (declare symbol text).Obeys C fun _ => True :=
  .ask h fun _ _ => .done trivial

theorem obeys_setup {symbol text : String} (h : C.prepared text) :
    (setup symbol text).Obeys C fun _ => True :=
  .ask h fun _ _ => .done trivial

theorem obeys_notice (n : Notice) : (notice n).Obeys C fun _ => True :=
  .ask trivial fun _ _ => .done trivial

theorem obeys_report (d : Diagnostic) : (report d).Obeys C fun _ => True :=
  .ask trivial fun _ _ => .done trivial

theorem obeys_enterProgram (key : String) : (enterProgram key).Obeys C fun _ => True :=
  .ask trivial fun _ _ => .done trivial

theorem obeys_beginPass : beginPass.Obeys C fun _ => True :=
  .ask trivial fun _ _ => .done trivial

/-- The lines of the setup are taken over from a collector of allowed texts. -/
theorem obeys_setupLines : setupLines.Obeys C fun text =>
    ∃ c : Collector, (∀ t ∈ c.texts, C.prepared t) ∧ text = c.flush :=
  .ask trivial fun _ h => .done h

/-- A script that obeys a contract obeys another one that allows no less and, for what the script
asks for, grants no more. -/
theorem Obeys.exchange {C' : Contract} {P Q : Request → Prop} {opened : Bool} {script : Script α}
    (h : script.Obeys C p) (hasks : script.Asks P Q opened)
    (hallows : ∀ r, C.Allows r → C'.Allows r)
    (hgrants : ∀ r, P r ∨ Q r → ∀ reply, C'.Grants r reply → C.Grants r reply) :
    script.Obeys C' p := by
  induction h generalizing opened with
  | done ha => exact .done ha
  | ask hr _ ih =>
    refine .ask (hallows _ hr) fun reply hreply => ?_
    exact ih reply (hgrants _ (hasks.1.imp_right And.right) reply hreply) (hasks.2 reply)

end Script

namespace Contract

variable {C : Contract}

/-- The code of blocks, as far as it is to be had, is as the contract says, and generating it keeps
the contract. -/
def Supplies (C : Contract) (code : NodeId → Run → Option (Code × Run)) : Prop :=
  ∀ i s c s', C.Kept s → code i s = some (c, s') → C.code i c ∧ C.Kept s'

/-- One request: the contract is kept, and grants the reply. -/
theorem Kept.answer {code : NodeId → Run → Option (Code × Run)} (hcode : C.Supplies code)
    {r : Request} (hr : C.Allows r) {s s' : Run} {reply : r.Reply} (hs : C.Kept s)
    (h : r.answer code s = some (reply, s')) : C.Grants r reply ∧ C.Kept s' := by
  cases r with
  | generate i => exact hcode i s reply s' hs h
  | declare symbol text =>
    cases h
    refine ⟨trivial, fun t ht => ?_, hs.setups⟩
    rcases Collector.mem_texts_register ht with ht | rfl
    · exact hs.declarations t ht
    · exact hr
  | setup symbol text =>
    cases h
    refine ⟨trivial, hs.declarations, fun t ht => ?_⟩
    rcases Collector.mem_texts_register ht with ht | rfl
    · exact hs.setups t ht
    · exact hr
  | setupBeside symbol text rival warning =>
    cases h
    refine ⟨trivial, by simpa using hs.declarations, fun t ht => ?_⟩
    rw [Run.setups_setupBeside] at ht
    rcases Collector.mem_texts_register ht with ht | rfl
    · exact hs.setups t ht
    · exact hr
  | setupLines =>
    cases h
    exact ⟨⟨s.setups, hs.setups, rfl⟩, hs⟩
  | enterProgram key =>
    cases h
    exact ⟨trivial, by simpa using hs.declarations, by simpa using hs.setups⟩
  | report d | notice n | beginPass =>
    cases h
    exact ⟨trivial, hs.declarations, hs.setups⟩

end Contract

/-- A whole script: the contract is kept, and the result is as it should be. -/
theorem Script.Obeys.run {α : Type} {C : Contract} {p : α → Prop}
    {code : NodeId → Run → Option (Code × Run)} (hcode : C.Supplies code) {script : Script α}
    (h : script.Obeys C p) {s s' : Run} {a : α} (hs : C.Kept s)
    (hrun : script.run code s = some (a, s')) : p a ∧ C.Kept s' := by
  induction h generalizing s with
  | done ha =>
    cases hrun
    exact ⟨ha, hs⟩
  | ask hr _ ih =>
    obtain ⟨⟨reply, after⟩, hreply, hrest⟩ := Option.bind_eq_some_iff.mp hrun
    obtain ⟨hgrants, hafter⟩ := hs.answer hcode hr hreply
    exact ih reply hgrants hafter hrest

/-- All scripts together, to any depth. -/
theorem Contract.emit_kept {C : Contract} {scripts : NodeId → Script Code}
    (hscripts : ∀ i, (scripts i).Obeys C (C.code i)) (fuel : Nat) :
    C.Supplies (emit scripts fuel) := by
  induction fuel with
  | zero => exact fun _ _ _ _ _ h => nomatch h
  | succ fuel ih => exact fun i s c s' hs h => (hscripts i).run ih hs h

/-- If all blocks obey the contract, so does every script that is played. -/
theorem Job.kept_of_play? {j : Job} {C : Contract} (hblocks : ∀ i, (j.blockScript i).Obeys C (C.code i))
    {α : Type} {p : α → Prop} {script : Script α} (h : script.Obeys C p) {s s' : Run} {a : α}
    (hs : C.Kept s) (hplay : j.play? script s = some (a, s')) : p a ∧ C.Kept s' :=
  h.run (C.emit_kept hblocks j.depthBound) hs hplay

/-! ## Slots, sequences and sections -/

namespace Job

open Script

variable {j : Job} {C : Contract} {P : String → Prop}

/-- What holds of the text of expressions, with and without parentheses, holds of values. -/
theorem obeys_valueCode?_of
    (hcode : ∀ i text order, C.code i (.expression text order) → P text)
    (hparentheses : ∀ text inner outer, P text → P (parenthesize text inner outer))
    (n : Node) (slot : String) (outer : Order) :
    (j.valueCode? n slot outer).Obeys C fun value => ∀ text ∈ value, P text := by
  unfold valueCode?
  cases n.values.get? slot with
  | none => exact obeys_pure (by simp)
  | some child =>
    refine (obeys_generate child).bind fun code hchild => ?_
    cases code with
    | expression text inner =>
      refine obeys_pure fun value hvalue => ?_
      split at hvalue
      · cases hvalue
      · cases hvalue
        exact hparentheses text inner outer (hcode child text inner hchild)
    | statement text =>
      show (if !text.isEmpty then _ else _ : Script _).Obeys _ _
      split
      · exact (obeys_notice _).bind fun _ _ => obeys_pure (by simp)
      · exact obeys_pure (by simp)

/-- A value, or what stands in for it. -/
theorem obeys_valueCode_of {n : Node} {slot : String} {outer : Order} {fallback : String}
    (hfallback : P fallback)
    (hvalue : (j.valueCode? n slot outer).Obeys C fun value => ∀ text ∈ value, P text) :
    (j.valueCode n slot outer fallback).Obeys C P := by
  refine hvalue.result fun value hvalue => ?_
  cases value with
  | none => exact hfallback
  | some text => exact hvalue text rfl

/-- A property of statements that joining keeps is one of sequences. -/
theorem obeys_chainCode_of (hcode : ∀ i code, C.code i code → P (j.statementText code))
    (hjoin : ∀ texts : List String, (∀ t ∈ texts, P t) → P (String.join texts)) (head : NodeId) :
    (j.chainCode head).Obeys C P := by
  refine (Obeys.mapM (q := P) fun i _ => ?_).result hjoin
  exact (obeys_generate i).result fun code hi => hcode i code hi

theorem obeys_alwaysEmittedPass : j.alwaysEmittedPass.Obeys C fun _ => True := by
  refine obeys_beginPass.bind fun opened _ => ?_
  cases opened with
  | false => exact obeys_pure trivial
  | true =>
    refine Obeys.forM fun i _ => ?_
    refine (obeys_generate i).bind fun code _ => ?_
    split
    · exact obeys_notice _
    · exact obeys_pure trivial

/-- A guarded script has the result of the script itself, or none at all. -/
theorem obeys_guarded_of {p : Code → Prop} (hempty : p Code.empty) {i : NodeId}
    {script : Script Code}
    (h : j.graph.isInside j.backend.containers i = true → script.Obeys C p) :
    (j.guarded i script).Obeys C p := by
  unfold guarded standsInContainer
  cases hinside : j.graph.isInside j.backend.containers i with
  | true => exact h hinside
  | false =>
    refine (obeys_notice _).bind fun _ _ => (obeys_report _).bind fun _ _ => ?_
    exact obeys_pure hempty

/-- The script of a block is that of a generator of its backend, or gives nothing. -/
theorem obeys_blockScript_of_get? {p : Code → Prop} (hempty : p Code.empty) {i : NodeId}
    (hscript : ∀ gen, j.backend.generators.get? (j.node i).type = some gen →
      (gen.script j i).Obeys C p) : (j.blockScript i).Obeys C p := by
  unfold blockScript
  cases hget : j.backend.generators.get? (j.node i).type with
  | none =>
    simp only [hget]
    refine (obeys_notice _).bind fun _ _ => (obeys_report _).bind fun _ _ => ?_
    exact obeys_pure hempty
  | some gen =>
    simp only [hget]
    exact hscript gen hget

/-- The script of a block is that of one of its target's kinds, or gives nothing. -/
theorem obeys_blockScript_of {t : Target} (hb : j.backend = t.backend) {p : Code → Prop}
    (hempty : p Code.empty) {i : NodeId}
    (hscript : ∀ kind, ((j.node i).type, kind) ∈ t.typeKinds →
      (Generator.script ⟨t, kind⟩ j i).Obeys C p) : (j.blockScript i).Obeys C p := by
  refine obeys_blockScript_of_get? hempty fun gen hget => ?_
  rw [hb] at hget
  rw [Target.eq_of_get? hget]
  exact hscript gen.kind (Target.mem_typeKinds_of_get? hget)

/-- A property of blocks at top level that joining keeps is one of sections. -/
theorem obeys_sections_of {options : Options} (htop : ∀ i, (j.topLevel options i).Obeys C P)
    (hjoin : ∀ texts : List String, (∀ t ∈ texts, P t) → P (String.join texts)) :
    (j.sections options).Obeys C fun sections => ∀ e ∈ sections, P e.2 := by
  refine Obeys.mapM (q := fun e : NodeId × String => P e.2) fun root _ => ?_
  have hstack : (j.stack options root).Obeys C P :=
    (Obeys.mapM (q := P) fun i _ => htop i).result hjoin
  exact hstack.result fun _ htext => htext

/-- A source is made of its parts, each ended once, with a blank line between any two. -/
theorem assemble_of {declarations : String} {banner : Option String} {sections : List String}
    (hempty : P "")
    (hparts : ∀ parts : List String, parts ≠ [] → (∀ t ∈ parts, P t) →
      P ("\n\n".intercalate (parts.map Text.trimLineFeeds) ++ "\n"))
    (hdeclarations : P declarations) (hbanner : ∀ text ∈ banner, P text)
    (hsections : ∀ text ∈ sections, P text) : P (assemble declarations banner sections) := by
  unfold assemble
  extract_lets parts
  have hall : ∀ text ∈ parts, P text := by
    intro text htext
    rw [List.mem_append, List.mem_append] at htext
    rcases htext with (htext | htext) | htext
    · split at htext
      · cases htext
      · rw [List.mem_singleton.mp htext]
        exact hdeclarations
    · exact hbanner text (Option.mem_toList.mp htext)
    · exact hsections text (List.mem_filter.mp htext).1
  by_cases hnil : parts.isEmpty = true
  · rw [if_pos hnil]
    exact hempty
  · rw [if_neg hnil]
    exact hparts parts (fun heq => hnil (List.isEmpty_iff.mpr heq)) hall

/-- Whatever the order of the sections, each part of the source is one of them, or empty. -/
theorem arrange_of {sections : List (NodeId × String)} (hempty : P "")
    (h : ∀ e ∈ sections, P e.2) : ∀ text ∈ j.arrange sections, P text := by
  intro text htext
  rw [arrange] at htext
  split at htext
  · obtain ⟨e, he, rfl⟩ := List.mem_map.mp htext
    exact h e he
  · obtain ⟨r, -, rfl⟩ := List.mem_map.mp htext
    cases hlookup : sections.lookup r with
    | none => exact hempty
    | some found =>
      obtain ⟨before, after, hsplit, -⟩ := List.lookup_eq_some_iff.mp hlookup
      exact h (r, found) (hsplit ▸ List.mem_append_right before List.mem_cons_self)

/-- **From blocks to sources.**  What holds of collected declarations, of the banner and of what
stands at top level holds of the source, if it goes through every way of joining texts. -/
theorem source_of {options : Options} (h : j.graph.IsForest)
    (hblocks : ∀ i, (j.blockScript i).Obeys C (C.code i))
    (htop : ∀ i, (j.topLevel options i).Obeys C P)
    (hjoin : ∀ texts : List String, (∀ t ∈ texts, P t) → P (String.join texts))
    (hparts : ∀ parts : List String, parts ≠ [] → (∀ t ∈ parts, P t) →
      P ("\n\n".intercalate (parts.map Text.trimLineFeeds) ++ "\n"))
    (hflush : ∀ c : Collector, (∀ t ∈ c.texts, C.declared t) → P c.flush)
    (hbanner : P j.banner) : P (j.compile options).source := by
  have hempty : P "" := hjoin [] fun _ ht => nomatch ht
  have hkept : C.Kept {} := ⟨fun _ ht => (nomatch ht), fun _ ht => (nomatch ht)⟩
  obtain ⟨sections, s, hplay⟩ := exists_play? h (j.sections options) {}
  rw [compile, compileRun_of_play? hplay]
  obtain ⟨hsections, hs⟩ := kept_of_play? hblocks (obeys_sections_of htop hjoin) hkept hplay
  show P (assemble s.declarations.flush (if options.banner then some j.banner else none)
    (j.arrange sections))
  refine assemble_of hempty hparts (hflush _ hs.declarations) (fun text htext => ?_)
    (arrange_of hempty hsections)
  split at htext
  · cases htext
    exact hbanner
  · cases htext

end Job

end BlockCompiler
