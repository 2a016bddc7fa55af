import BlockCompiler.Proofs.Generation.Parallel
import BlockCompiler.Proofs.Text.Template

/-!
# Scripts in lockstep

A family of scripts goes in lockstep (`Script.InStep`) if all its members make the same
requests, one after the other, except that they may write different things to the log.
Replies are the same for all of them, except that the code of a block may differ from
member to member: of the codes of one block, as a family, only `C` is known.  What the
scripts come to is a family as well, of which `p` holds.

If the scripts of every block go in lockstep, with `C` for their results, then so does
whatever is played on the same run: all members come to an end or none does, and the runs
after them differ in their logs only (`InStep.play?`).  A family may be replaced by one that
runs in parallel to it, member by member (`InStep.of_parallel`).

For families of texts `C` is `Code.Woven`: all members are statements, or expressions of
one order, and their texts come from one template.  From there on the way leads as for a
single compilation: slots, sequences, sections, source.
-/

namespace BlockCompiler

open Text

namespace Script

variable {ι α β γ : Type} {C : (ι → Code) → Prop} {p : (ι → α) → Prop} {q : (ι → β) → Prop}

/-- The scripts make the same requests, up to the log.  Given the same replies, and codes of blocks
of which `C` holds, they come to results of which `p` holds. -/
inductive InStep (C : (ι → Code) → Prop) (p : (ι → α) → Prop) : (ι → Script α) → Prop
  | done {a : ι → α} (h : p a) : InStep C p fun x => done (a x)
  | block {i : NodeId} {resume : ι → Code → Script α}
      (h : ∀ c, C c → InStep C p fun x => resume x (c x)) :
      InStep C p fun x => ask (.generate i) (resume x)
  | plain {r : Request} {resume : ι → r.Reply → Script α} (hr : ∀ i, r ≠ .generate i)
      (h : ∀ reply, InStep C p fun x => resume x reply) : InStep C p fun x => ask r (resume x)
  | log {n : ι → Notice} {resume : ι → Unit → Script α} (h : InStep C p fun x => resume x ()) :
      InStep C p fun x => ask (.notice (n x)) (resume x)

namespace InStep

theorem pure {a : ι → α} (h : p a) : InStep C p fun x => (Pure.pure (a x) : Script α) :=
  .done h

/-- Scripts one after the other: the second family may rely on the results of the first. -/
theorem bind {script : ι → Script α} {f : ι → α → Script β} (h : InStep C p script)
    (hf : ∀ a, p a → InStep C q fun x => f x (a x)) : InStep C q fun x => script x >>= f x := by
  induction h with
  | done ha => exact hf _ ha
  | block _ ih => exact .block fun c hc => ih c hc
  | plain hr _ ih => exact .plain hr fun reply => ih reply
  | log _ ih => exact .log ih

/-- Of the codes of one block, as a family, `C` holds. -/
theorem generate (i : NodeId) : InStep C C fun _ => Script.generate i :=
  .block fun _ hc => .done hc

/-- A request other than for a block has the same reply for all. -/
theorem single {r : Request} (hr : ∀ i, r ≠ .generate i) :
    InStep C (fun a : ι → r.Reply => ∃ b, a = fun _ => b) fun _ => ask r Script.done :=
  .plain hr fun reply => .done ⟨reply, rfl⟩

theorem declare (symbol text : String) :
    InStep C (fun _ => True) fun _ : ι => Script.declare symbol text :=
  .plain (fun _ h => by cases h) fun _ => .done trivial

theorem notice (n : Notice) : InStep C (fun _ => True) fun _ : ι => Script.notice n :=
  .plain (fun _ h => by cases h) fun _ => .done trivial

/-- The results of a list of scripts, each of which is a family. -/
theorem mapM {f : ι → γ → Script β} {zs : List γ} (h : ∀ z ∈ zs, InStep C q fun x => f x z) :
    InStep C (fun ys => ∃ gs : List (ι → β), (∀ g ∈ gs, q g) ∧ ∀ x, ys x = gs.map (· x))
      fun x => zs.mapM (f x) := by
  induction zs with
  | nil => exact .pure ⟨[], by simp, fun _ => rfl⟩
  | cons z rest ih =>
    simp only [List.mapM_cons]
    refine (h z List.mem_cons_self).bind fun g hg => ?_
    refine (ih fun w hw => h w (List.mem_cons_of_mem _ hw)).bind fun ys hys => ?_
    obtain ⟨gs, hgs, heq⟩ := hys
    refine .pure ⟨g :: gs, List.forall_mem_cons.mpr ⟨hg, hgs⟩, fun x => ?_⟩
    simp only [heq x, List.map_cons]

theorem forM {f : ι → γ → Script PUnit} {zs : List γ}
    (h : ∀ z ∈ zs, InStep C (fun _ => True) fun x => f x z) :
    InStep C (fun _ => True) fun x => zs.forM (f x) := by
  induction zs with
  | nil => exact .pure trivial
  | cons z rest ih =>
    exact (h z List.mem_cons_self).bind fun _ _ =>
      ih fun w hw => h w (List.mem_cons_of_mem _ hw)

/-- A single script that asks for no block is in step with itself. -/
theorem of_asks {script : Script α} {P Q : Request → Prop} (h : script.Asks P Q false)
    (hP : ∀ r, P r → (∀ i, r ≠ .generate i) ∧ r ≠ .beginPass) :
    InStep C (fun a : ι → α => ∃ b, a = fun _ => b) fun _ => script := by
  induction script with
  | done b => exact .done ⟨b, rfl⟩
  | ask r resume ih =>
    rcases h.1 with hr | ⟨hopened, -⟩
    · refine .plain (hP r hr).1 fun reply => ih reply ?_
      have hrest := h.2 reply
      cases r with
      | beginPass => exact absurd rfl (hP _ hr).2
      | _ => exact hrest
    · cases hopened

/-- Members of a family may be replaced by scripts that run in parallel to them. -/
theorem of_parallel {P : Request → Prop} {first scripts : ι → Script α} (h : InStep C p first)
    (hscripts : ∀ x, (first x).Parallel Eq (fun _ => False) P (scripts x)) :
    InStep C p scripts := by
  induction h generalizing scripts with
  | @done a ha =>
    obtain rfl : scripts = fun x => .done (a x) := funext fun x => (hscripts x).eq_done
    exact .done ha
  | @block i resume _ ih =>
    choose block resume' hblock hscript hrest using fun x => (hscripts x).exists_of_generate
    obtain rfl : scripts = fun x => ask (.generate i) (resume' x) := funext fun x => by
      rw [hscript x, ← hblock x]
    exact .block fun c hc => ih c hc fun x => hrest x (c x)
  | @plain r resume hr _ ih =>
    -- Besides blocks, only the log may differ between parallel scripts: a notice is the one request
    -- that need not stay the same.
    by_cases hnotice : ∃ n, r = .notice n
    · obtain ⟨n, rfl⟩ := hnotice
      choose n' resume' hscript hrest using fun x => (hscripts x).exists_of_notice
      obtain rfl := funext hscript
      exact .log (ih () hrest)
    · choose resume' hscript hrest using fun x =>
        (hscripts x).exists_of_ask hr fun n hn => hnotice ⟨n, hn⟩
      obtain rfl := funext hscript
      exact .plain hr fun reply => ih reply fun x => hrest x reply
  | log _ ih =>
    choose n' resume' hscript hrest using fun x => (hscripts x).exists_of_notice
    obtain rfl := funext hscript
    exact .log (ih hrest)

end InStep

end Script

/-! ## Playing scripts in lockstep -/

section Play

variable {ι α : Type} {C : (ι → Code) → Prop} {p : (ι → α) → Prop}

/-- The runs differ in their logs only. -/
def SameOutput (runs : ι → Run) : Prop :=
  ∃ s : Run, ∀ x, (runs x).output = s.output

/-- All members come to a result of which `p` holds, and to runs that differ in their logs only, or
none does. -/
def Together (p : (ι → α) → Prop) (results : ι → Option (α × Run)) : Prop :=
  (∀ x, results x = none) ∨
    ∃ a runs, p a ∧ SameOutput runs ∧ ∀ x, results x = some (a x, runs x)

/-- A request other than for a block has the same reply for all. -/
theorem Request.exists_answers {r : Request} (hr : ∀ i, r ≠ .generate i)
    (code : ι → NodeId → Run → Option (Code × Run)) {runs : ι → Run} (h : SameOutput runs) :
    ∃ reply after, SameOutput after ∧ ∀ x, r.answer (code x) (runs x) = some (reply, after x) := by
  obtain ⟨s, hs⟩ := h
  obtain ⟨reply, s', hreply⟩ := r.exists_answer (fun _ _ => none) hr s
  have hanswer : ∀ x, ∃ after, r.answer (code x) (runs x) = some (reply, after) ∧
      after.output = s'.output := by
    intro x
    obtain ⟨reply', after, s'', hx, hreply', hafter⟩ :=
      (Request.respects_output fun _ => True).answer trivial hr (code x) (fun _ _ => none) (hs x)
    rw [hreply] at hreply'
    cases hreply'
    exact ⟨after, hx, hafter⟩
  choose after hx hafter using hanswer
  exact ⟨reply, after, ⟨s', hafter⟩, hx⟩

/-- If the codes of all blocks come together, so do the results of scripts in lockstep. -/
theorem Script.InStep.run {scripts : ι → Script α} (h : InStep C p scripts)
    {code : ι → NodeId → Run → Option (Code × Run)}
    (hcode : ∀ i runs, SameOutput runs → Together C fun x => code x i (runs x)) {runs : ι → Run}
    (hruns : SameOutput runs) : Together p fun x => (scripts x).run (code x) (runs x) := by
  induction h generalizing runs with
  | done ha => exact .inr ⟨_, runs, ha, hruns, fun _ => rfl⟩
  | @block i resume _ ih =>
    rcases hcode i runs hruns with hnone | ⟨c, after, hc, hafter, hsome⟩
    · refine .inl fun x => ?_
      have hx : code x i (runs x) = none := hnone x
      simp only [Script.run, Request.answer, hx]
      rfl
    · have hstep : ∀ x, (ask (.generate i) (resume x)).run (code x) (runs x) =
          (resume x (c x)).run (code x) (after x) := by
        intro x
        have hx : code x i (runs x) = some (c x, after x) := hsome x
        simp only [Script.run, Request.answer, hx]
        rfl
      simp only [hstep]
      exact ih c hc hafter
  | @plain r resume hr _ ih =>
    obtain ⟨reply, after, hafter, hx⟩ := Request.exists_answers hr code hruns
    simp only [Script.run, hx]
    exact ih reply hafter
  | @log n resume _ ih =>
    obtain ⟨s, hs⟩ := hruns
    have hnoticed : SameOutput fun x => (runs x).notice (n x) := ⟨s, hs⟩
    exact ih hnoticed

/-- The induction on the depth to which blocks are generated inside each other. -/
theorem Script.InStep.emit {scripts : ι → NodeId → Script Code}
    (h : ∀ i, InStep C C fun x => scripts x i) (fuel : Nat) (i : NodeId) {runs : ι → Run}
    (hruns : SameOutput runs) :
    Together C fun x => BlockCompiler.emit (scripts x) fuel i (runs x) := by
  induction fuel generalizing i runs with
  | zero => exact .inl fun _ => rfl
  | succ fuel ih => exact (h i).run (fun i _ => ih i) hruns

/-- **Scripts in lockstep stay together**, on jobs with the same bound on depth. -/
theorem Script.InStep.play? {j : ι → Job} {depth : Nat} (hdepth : ∀ x, (j x).depthBound = depth)
    (hblocks : ∀ i, InStep C C fun x => (j x).blockScript i) {scripts : ι → Script α}
    (h : InStep C p scripts) (s : Run) : Together p fun x => (j x).play? (scripts x) s := by
  simp only [Job.play?, hdepth]
  exact h.run (fun i _ => InStep.emit hblocks depth i) ⟨s, fun _ => rfl⟩

end Play

/-! ## Woven code -/

/-- The codes are statements, or expressions of one order, whose texts come from one template. -/
inductive Code.Woven {ι : Type} (pieces : ι → List Char) : (ι → Code) → Prop
  | statement {texts : ι → String} (h : Text.Woven pieces texts) :
      Woven pieces fun x => .statement (texts x)
  | expression {texts : ι → String} (order : Order) (h : Text.Woven pieces texts) :
      Woven pieces fun x => .expression (texts x) order

/-- Code that is the same for all members. -/
theorem Code.woven_const {ι : Type} {pieces : ι → List Char} (c : Code) :
    Code.Woven pieces fun _ => c := by
  cases c with
  | statement text => exact .statement (Text.woven_const text)
  | expression text order => exact .expression order (Text.woven_const text)

namespace Job

open Script

variable {ι : Type} {pieces : ι → List Char} {mark : Char}
variable (hpieces : ∀ x, Sealed mark (pieces x)) (hmark : isBlank mark = false)
variable (j : Job)

theorem woven_line {texts : ι → String} (h : Woven pieces texts) :
    Woven pieces fun x => j.line (texts x) :=
  (h.append (woven_const _)).append (woven_const _)

/-- There is no value for any member, or one for each. -/
def WovenValue (pieces : ι → List Char) (values : ι → Option String) : Prop :=
  (∀ x, values x = none) ∨ ∃ texts, Woven pieces texts ∧ ∀ x, values x = some (texts x)

include hpieces

/-- Whether there is a value does not depend on the member. -/
theorem inStep_valueCode? (n : Node) (slot : String) (outer : Order) :
    InStep (Code.Woven pieces) (WovenValue pieces) fun _ => j.valueCode? n slot outer := by
  unfold valueCode?
  cases n.values.get? slot with
  | none => exact .pure (.inl fun _ => rfl)
  | some child =>
    refine (InStep.generate child).bind fun c hc => ?_
    cases hc with
    | expression inner htexts =>
      obtain ⟨b, hb⟩ := htexts.isEmpty hpieces
      simp only [hb]
      refine .pure ?_
      cases b with
      | true => exact .inl fun _ => rfl
      | false => exact .inr ⟨_, htexts.parenthesize inner outer, fun _ => rfl⟩
    | statement htexts =>
      obtain ⟨b, hb⟩ := htexts.isEmpty hpieces
      simp only [hb]
      cases b with
      | true => exact .pure (.inl fun _ => rfl)
      | false => exact (InStep.notice _).bind fun _ _ => .pure (.inl fun _ => rfl)

theorem inStep_valueCode (n : Node) (slot : String) (outer : Order) (fallback : String) :
    InStep (Code.Woven pieces) (Woven pieces) fun _ => j.valueCode n slot outer fallback := by
  refine (j.inStep_valueCode? hpieces n slot outer).bind fun values hvalues => .pure ?_
  rcases hvalues with hnone | ⟨texts, htexts, hsome⟩
  · simp only [hnone]
    exact woven_const fallback
  · simp only [hsome]
    exact htexts

/-- The statements of a sequence are joined into one template. -/
theorem inStep_chainCode (head : NodeId) :
    InStep (Code.Woven pieces) (Woven pieces) fun _ => j.chainCode head := by
  have hstatement : ∀ i, InStep (Code.Woven pieces) (Woven pieces) fun _ => j.statementCode i := by
    intro i
    refine (InStep.generate i).bind fun c hc => .pure ?_
    cases hc with
    | statement htexts => exact htexts
    | expression order htexts =>
      obtain ⟨b, hb⟩ := htexts.isEmpty hpieces
      simp only [statementText, hb]
      cases b with
      | true => exact woven_const ""
      | false => exact j.woven_line htexts
  refine (InStep.mapM fun i _ => hstatement i).bind fun lists hlists => .pure ?_
  exact WovenList.join hlists

include hmark

theorem woven_indent {texts : ι → String} (h : Woven pieces texts) :
    Woven pieces fun x => j.indent (texts x) :=
  h.indent hpieces hmark _

/-- Whether the filler is needed does not depend on the member. -/
theorem woven_fillBody {texts : ι → String} (h : Woven pieces texts) :
    Woven pieces fun x => j.fillBody (texts x) := by
  obtain ⟨b, hb⟩ := h.blank hpieces hmark
  simp only [fillBody, hb]
  cases j.formatting.emptyBody with
  | none => exact h
  | some filler =>
    cases b with
    | true => exact woven_const _
    | false => exact h

/-- Whether a slot is filled is a matter of the graph. -/
theorem inStep_slotCode (n : Node) (slot : String) :
    InStep (Code.Woven pieces) (Woven pieces) fun _ => j.slotCode n slot := by
  unfold slotCode
  cases n.statements.get? slot with
  | none => exact .pure (woven_const "")
  | some head =>
    exact (j.inStep_chainCode hpieces head).bind fun texts htexts =>
      .pure (j.woven_indent hpieces hmark htexts)

theorem inStep_bodyCode (n : Node) (slot : String) :
    InStep (Code.Woven pieces) (Woven pieces) fun _ => j.bodyCode n slot :=
  (j.inStep_slotCode hpieces hmark n slot).bind fun _ htexts =>
    .pure (j.woven_fillBody hpieces hmark htexts)

omit hmark

theorem inStep_alwaysEmittedPass :
    InStep (Code.Woven pieces) (fun _ => True) fun _ : ι => j.alwaysEmittedPass := by
  refine (InStep.single (r := .beginPass) (fun _ h => by cases h)).bind fun opened hopened => ?_
  obtain ⟨b, rfl⟩ := hopened
  cases b with
  | false => exact .pure trivial
  | true =>
    refine InStep.forM fun i _ => (InStep.generate i).bind fun c hc => ?_
    have hempty : ∃ b, ∀ x, (c x).isEmpty = b := by
      cases hc with
      | statement htexts | expression _ htexts => exact htexts.isEmpty hpieces
    obtain ⟨b, hb⟩ := hempty
    simp only [hb]
    cases b with
    | true => exact .pure trivial
    | false => exact InStep.notice _

omit hpieces in
/-- Whether a block is inside of a container is a matter of the graph. -/
theorem inStep_guarded {i : NodeId} {script : Script Code}
    (h : InStep (Code.Woven pieces) (Code.Woven pieces) fun _ => script) :
    InStep (Code.Woven pieces) (Code.Woven pieces) fun _ => j.guarded i script := by
  unfold guarded standsInContainer
  cases j.graph.isInside j.backend.containers i with
  | true => exact h
  | false =>
    exact (InStep.notice _).bind fun _ _ => .plain (fun _ h => by cases h) fun _ =>
      .pure (Code.woven_const _)

/-! ## From blocks to sources -/

variable {j} {options : Options}

omit hpieces

/-- What is said about an orphan is the same for all members. -/
theorem inStep_topLevel (i : NodeId) :
    InStep (Code.Woven pieces) (Woven pieces) fun _ => j.topLevel options i := by
  simp only [topLevel]
  cases j.isPlaced (j.node i).type with
  | true =>
    refine (InStep.notice _).bind fun _ _ => (InStep.generate i).bind fun c hc => .pure ?_
    cases hc with
    | statement htexts | expression _ htexts => exact htexts
  | false =>
    exact (InStep.notice _).bind fun _ _ => .plain (fun _ h => by cases h) fun _ =>
      .pure (woven_const _)

/-- The sections are those of the same roots, with woven texts. -/
def WovenSections (pieces : ι → List Char) (sections : ι → List (NodeId × String)) : Prop :=
  ∃ es : List (NodeId × (ι → String)), (∀ e ∈ es, Woven pieces e.2) ∧
    ∀ x, sections x = es.map fun e => (e.1, e.2 x)

/-- The sections of a compilation are woven, root by root. -/
theorem inStep_sections :
    InStep (Code.Woven pieces) (WovenSections pieces) fun _ => j.sections options := by
  unfold sections
  induction j.generationOrder with
  | nil => exact .pure ⟨[], by simp, fun _ => rfl⟩
  | cons root rest ih =>
    simp only [List.mapM_cons, rootSection, stack]
    refine InStep.bind (p := fun f => ∃ texts, Woven pieces texts ∧ ∀ x, f x = (root, texts x)) ?_
      fun f hf => ih.bind fun sections hsections => .pure ?_
    · refine InStep.bind (p := Woven pieces) ?_ fun texts htexts =>
        .pure ⟨texts, htexts, fun _ => rfl⟩
      exact (InStep.mapM fun i _ => inStep_topLevel i).bind fun lists hlists =>
        .pure (WovenList.join hlists)
    · obtain ⟨texts, htexts, hf⟩ := hf
      obtain ⟨es, hes, heq⟩ := hsections
      refine ⟨(root, texts) :: es, List.forall_mem_cons.mpr ⟨htexts, hes⟩, fun x => ?_⟩
      simp only [hf x, heq x, List.map_cons]

/-- Sections are arranged by their roots, so all members have the same order. -/
theorem wovenList_arrange {sections : ι → List (NodeId × String)}
    (h : WovenSections pieces sections) : WovenList pieces fun x => j.arrange (sections x) := by
  obtain ⟨es, hes, heq⟩ := h
  simp only [arrange, heq]
  split
  · refine ⟨es.map (·.2), fun f hf => ?_, fun x => by simp [Function.comp_def]⟩
    obtain ⟨e, he, rfl⟩ := List.mem_map.mp hf
    exact hes e he
  -- The order is that of the roots, so it is the look-up that must not depend on the member.
  · have hlookup : ∀ (r : NodeId) (x : ι),
        (es.map fun e => (e.1, e.2 x)).lookup r = (es.lookup r).map (· x) := by
      intro r x
      clear hes heq
      induction es with
      | nil => rfl
      | cons e rest ih =>
        obtain ⟨root, texts⟩ := e
        simp only [List.map_cons, List.lookup_cons]
        cases r == root <;> simp [ih]
    refine ⟨j.graph.roots.map fun r => (es.lookup r).getD fun _ => "", fun f hf => ?_, fun x => ?_⟩
    · obtain ⟨r, -, rfl⟩ := List.mem_map.mp hf
      cases hr : es.lookup r with
      | none => exact woven_const ""
      | some texts =>
        obtain ⟨before, after, hsplit, -⟩ := List.lookup_eq_some_iff.mp hr
        exact hes (r, texts) (hsplit ▸ List.mem_append_right before List.mem_cons_self)
    · simp only [List.map_map, Function.comp_def, hlookup]
      refine List.map_congr_left fun r _ => ?_
      cases es.lookup r <;> rfl

include hpieces hmark

/-- The source is woven from its sections. -/
theorem woven_assemble {declarations : String} {banner : Option String} {sections : ι → List String}
    (h : WovenList pieces sections) :
    Woven pieces fun x => assemble declarations banner (sections x) := by
  have hparts := (wovenList_const ((if declarations.isEmpty then [] else [declarations]) ++
    banner.toList)).append (h.filter (k := fun text => !blank text) fun f hf => by
      obtain ⟨b, hb⟩ := hf.blank hpieces hmark
      exact ⟨!b, fun x => by rw [hb x]⟩)
  obtain ⟨b, hb⟩ := hparts.isEmpty
  simp only [assemble, hb]
  cases b with
  | true => exact woven_const ""
  | false =>
    refine Woven.append ?_ (woven_const "\n")
    exact (hparts.map fun f hf => hf.trimLineFeeds hpieces hmark).intercalate "\n\n"

/-- **From blocks to sources.**  Jobs with the same sections to play, whose blocks go in lockstep,
have woven sources. -/
theorem woven_source {jobs : ι → Job} (hdepth : ∀ x, (jobs x).depthBound = j.depthBound)
    (hblocks : ∀ i, InStep (Code.Woven pieces) (Code.Woven pieces) fun x => (jobs x).blockScript i)
    (hsections : ∀ x, (jobs x).sections options = j.sections options)
    (harrange : ∀ x, (jobs x).arrange = j.arrange) (hbanner : ∀ x, (jobs x).banner = j.banner) :
    Woven pieces fun x => ((jobs x).compile options).source := by
  have hscript : InStep (Code.Woven pieces) (WovenSections pieces) fun _ => j.sections options :=
    inStep_sections
  -- If no member comes to an end, each of them has the empty product.
  have hplay : ∃ (sections : ι → List (NodeId × String)) (runs : ι → Run),
      WovenSections pieces sections ∧ SameOutput runs ∧
      ∀ x, (jobs x).play (j.sections options) {} = (sections x, runs x) := by
    rcases InStep.play? hdepth hblocks hscript {} with hnone | ⟨sections, runs, hwoven, hruns, hsome⟩
    · refine ⟨fun _ => [], fun _ => {}, ⟨[], by simp, fun _ => rfl⟩, ⟨{}, fun _ => rfl⟩,
        fun x => ?_⟩
      have hx : (jobs x).play? (j.sections options) {} = none := hnone x
      rw [play, hx]
      rfl
    · refine ⟨sections, runs, hwoven, hruns, fun x => ?_⟩
      have hx : (jobs x).play? (j.sections options) {} = some (sections x, runs x) := hsome x
      rw [play, hx]
      rfl
  obtain ⟨sections, runs, hwoven, ⟨s, hruns⟩, hplay⟩ := hplay
  have hdeclarations : ∀ x, (runs x).declarations = s.declarations := by
    intro x
    have houtput : (runs x).output.declarations = s.output.declarations := by rw [hruns x]
    exact houtput
  simp only [compile, compileRun_eq, finish, product, hsections, harrange, hbanner, hplay,
    hdeclarations]
  exact woven_assemble hpieces hmark (wovenList_arrange hwoven)

end Job

end BlockCompiler
