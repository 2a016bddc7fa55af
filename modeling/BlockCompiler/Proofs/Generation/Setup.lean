import BlockCompiler.Proofs.Generation.Footprint
import BlockCompiler.Proofs.Generation.Registry
import BlockCompiler.Proofs.Generation.Sections

/-!
# The lines of the setup

An entry point takes over the lines of the setup that are registered when its code is
made.  Which lines come later?  The blocks of the pass register theirs before: the first
entry point makes the pass, and doing it again registers nothing new.  Orphans register
nothing.  So only a procedure that comes after the entry point in the walk can add a
line, and where none does, all lines that are registered in the end stand in the code of
the entry point (`Job.setup_keeps_lines`).  With a procedure behind it a line can be
lost (`setup_line_lost`).
-/

namespace BlockCompiler

/-! ## Lines that stay -/

namespace Job

variable {j : Job} {α β : Type}

/-- What every script of a list keeps is kept by all of them in turn. -/
theorem keeps_of_play?_mapM {I : Run → Prop} {f : α → Script β} {xs : List α}
    (hstep : ∀ x ∈ xs, ∀ s y s', I s → j.play? (f x) s = some (y, s') → I s') {s s' : Run}
    {ys : List β} (hs : I s) (hplay : j.play? (xs.mapM f) s = some (ys, s')) : I s' := by
  induction xs generalizing s ys with
  | nil =>
    cases hplay
    exact hs
  | cons x rest ih =>
    rw [List.mapM_cons, play?_bind] at hplay
    obtain ⟨⟨y, s₁⟩, hfirst, hplay⟩ := Option.bind_eq_some_iff.mp hplay
    rw [play?_bind] at hplay
    obtain ⟨⟨zs, s₂⟩, hrest, hplay⟩ := Option.bind_eq_some_iff.mp hplay
    cases hplay
    refine ih (fun z hz => hstep z (List.mem_cons_of_mem _ hz)) ?_ hrest
    exact hstep x List.mem_cons_self s y s₁ hs hfirst

end Job

/-! ## The blocks of the pass -/

/-- The symbols under which a block of the kind registers lines of the setup, for kinds that do
so wherever they stand. -/
def BlockKind.setupSymbols (t : Target) (n : Node) : BlockKind → List String
  | serialSetup => ["serial_begin"]
  | servoAttach => ["servo_attach_" ++ Blocks.nameField n "NAME" "servo"]
  | interruptAttach =>
    match t with
    | .arduino => ["interrupt_" ++ n.fieldOr "PIN" "2"]
    | .microPython =>
      ["pin_irq_" ++ Text.suffix (n.fieldOr "PIN" "2"), "interrupt_" ++ n.fieldOr "PIN" "2"]
  | _ => []

/-- The symbols that a block of the kind declares, for kinds that do so wherever they stand. -/
def BlockKind.declarationSymbols (t : Target) (n : Node) : BlockKind → List String
  | serialSetup =>
    match t with
    | .arduino => []
    | .microPython => ["import_uart"]
  | servoAttach =>
    match t with
    | .arduino => ["include_servo", "servo_" ++ Blocks.nameField n "NAME" "servo"]
    | .microPython => ["import_pin", "import_pwm"]
  | interruptAttach =>
    match t with
    | .arduino => ["proto_" ++ Blocks.nameField n "HANDLER" "on_interrupt"]
    | .microPython => ["import_pin"]
  | _ => []

/-- The types whose blocks are generated wherever they stand, with their kinds. -/
def alwaysEmittedKinds : List (String × BlockKind) :=
  [("serial_setup", .serialSetup), ("servo_attach", .servoAttach),
    ("interrupt_attach", .interruptAttach)]

namespace Target

variable {t : Target}

theorem alwaysEmittedKinds_subset (t : Target) : alwaysEmittedKinds ⊆ t.typeKinds := by
  intro e he
  revert e
  cases t <;> decide

theorem exists_alwaysEmittedKind {type : String}
    (h : t.backend.alwaysEmitted.contains type = true) :
    ∃ kind, (type, kind) ∈ alwaysEmittedKinds := by
  have hnames : (alwaysEmittedKinds.map (·.1)) =
      ["serial_setup", "servo_attach", "interrupt_attach"] := rfl
  rw [backend, TypeSet.contains_ofList, ← hnames] at h
  obtain ⟨⟨type, kind⟩, he, rfl⟩ := List.mem_map.mp h
  exact ⟨kind, he⟩

/-- A kind is generated wherever its blocks stand, or none of its types is. -/
theorem alwaysEmitted_iff {type : String} {kind : BlockKind} (h : (type, kind) ∈ t.typeKinds) :
    t.backend.alwaysEmitted.contains type = true ↔ kind ∈ alwaysEmittedKinds.map (·.2) := by
  have hkinds : ∀ e ∈ t.typeKinds, e.1 ∈ ["serial_setup", "servo_attach", "interrupt_attach"] ↔
      e.2 ∈ alwaysEmittedKinds.map (·.2) := by
    cases t <;> decide
  rw [backend, TypeSet.contains_ofList]
  exact hkinds (type, kind) h

end Target

/-- Blocks that are generated wherever they stand ask for no other block. -/
theorem BlockKind.isLeaf_of_mem_alwaysEmittedKinds {kind : BlockKind}
    (h : kind ∈ alwaysEmittedKinds.map (·.2)) : kind.isLeaf = true := by
  have hleaves : ∀ kind ∈ alwaysEmittedKinds.map (·.2), kind.isLeaf = true := by decide
  exact hleaves kind h

/-- The symbols under which the block registers lines of the setup. -/
def Job.setupSymbols (j : Job) (i : NodeId) : List String :=
  match j.backend.generators.get? (j.node i).type with
  | some gen => gen.kind.setupSymbols gen.target (j.node i)
  | none => []

/-- The symbols that the block declares. -/
def Job.declarationSymbols (j : Job) (i : NodeId) : List String :=
  match j.backend.generators.get? (j.node i).type with
  | some gen => gen.kind.declarationSymbols gen.target (j.node i)
  | none => []

/-- The lines of all blocks of the pass are registered. -/
def Job.Prepared (j : Job) (s : Run) : Prop :=
  ∀ c ∈ j.alwaysEmitted, ∀ symbol ∈ j.setupSymbols c, s.setups.contains symbol = true

/-- The declarations of all blocks of the pass are made. -/
def Job.Declared (j : Job) (s : Run) : Prop :=
  ∀ c ∈ j.alwaysEmitted, ∀ symbol ∈ j.declarationSymbols c, s.declarations.contains symbol = true

namespace Job

variable {j : Job} {t : Target}

/-- A block of the pass makes offers for its symbols and yields nothing else. -/
theorem exists_leaves_script_of_alwaysEmitted {type : String} {kind : BlockKind}
    (hkind : (type, kind) ∈ alwaysEmittedKinds) (j : Job) (t : Target) (i : NodeId) :
    ∃ f, j.Leaves (Generator.script ⟨t, kind⟩ j i) Code.empty f ∧
      f.setups.map (·.1) = kind.setupSymbols t (j.node i) ∧
      f.declarations.map (·.1) = kind.declarationSymbols t (j.node i) := by
  simp only [alwaysEmittedKinds, List.mem_cons, List.not_mem_nil, or_false, Prod.mk.injEq] at hkind
  rcases hkind with ⟨-, rfl⟩ | ⟨-, rfl⟩ | ⟨-, rfl⟩
  · cases t with
    | arduino => exact ⟨_, (leaves_setup _ _).bind (leaves_pure _), rfl, rfl⟩
    | microPython =>
      exact ⟨_, (leaves_declare _ _).bind ((leaves_setup _ _).bind (leaves_pure _)), rfl, rfl⟩
  · cases t <;> exact ⟨_, (leaves_declare _ _).bind ((leaves_declare _ _).bind
      ((leaves_setup _ _).bind (leaves_pure _))), rfl, rfl⟩
  · -- The trigger decides on the text of the line, and on nothing else.
    have htrigger : ∃ trigger, j.Leaves (Blocks.interruptTrigger t (j.node i)) trigger {} := by
      simp only [Blocks.interruptTrigger]
      cases Blocks.interruptTrigger? t ((j.node i).fieldOr "MODE" "RISING") with
      | some trigger => exact ⟨trigger, leaves_pure trigger⟩
      | none => exact ⟨_, (leaves_notice _).result _⟩
    obtain ⟨trigger, htrigger⟩ := htrigger
    cases t with
    | arduino =>
      exact ⟨_, htrigger.bind ((leaves_declare _ _).bind ((leaves_setup _ _).bind
        (leaves_pure _))), rfl, rfl⟩
    | microPython =>
      exact ⟨_, htrigger.bind ((leaves_declare _ _).bind ((leaves_setup _ _).bind
        ((leaves_setup _ _).bind (leaves_pure _)))), rfl, rfl⟩

variable (hb : j.backend = t.backend) (h : j.graph.IsForest)

include hb h

theorem exists_leaves_generate_of_alwaysEmitted {i : NodeId}
    (hi : j.backend.alwaysEmitted.contains (j.node i).type = true) :
    ∃ f, j.Leaves (Script.generate i) Code.empty f ∧ f.setups.map (·.1) = j.setupSymbols i ∧
      f.declarations.map (·.1) = j.declarationSymbols i := by
  rw [hb] at hi
  obtain ⟨kind, hkind⟩ := Target.exists_alwaysEmittedKind hi
  have hmem := t.alwaysEmittedKinds_subset hkind
  have hget : j.backend.generators.get? (j.node i).type = some ⟨t, kind⟩ := by
    rw [hb, Target.get?_of_mem_typeKinds hmem]
  obtain ⟨f, hscript, hsetups, hdeclarations⟩ :=
    exists_leaves_script_of_alwaysEmitted hkind j t i
  refine ⟨f, leaves_generate h ?_, ?_, ?_⟩
  · simpa only [blockScript, hget] using hscript
  · simpa only [setupSymbols, hget] using hsetups
  · simpa only [declarationSymbols, hget] using hdeclarations

/-- Blocks of the pass, generated one after the other, make offers for all their symbols. -/
theorem exists_leaves_emitAside {cs : List NodeId} (hcs : cs ⊆ j.alwaysEmitted) :
    ∃ f, j.Leaves (cs.forM j.emitAside) () f ∧ ∀ c ∈ cs,
      j.setupSymbols c ⊆ f.setups.map (·.1) ∧
      j.declarationSymbols c ⊆ f.declarations.map (·.1) := by
  induction cs with
  | nil => exact ⟨{}, leaves_pure (), fun _ hc => nomatch hc⟩
  | cons c rest ih =>
    obtain ⟨hc, hrest⟩ := List.cons_subset.mp hcs
    obtain ⟨f, hf, hsetups, hdeclarations⟩ :=
      exists_leaves_generate_of_alwaysEmitted hb h (List.mem_filter.mp hc).2
    obtain ⟨g, hg, hothers⟩ := ih hrest
    have haside : j.Leaves (j.emitAside c) () (f ++ {}) := hf.bind (leaves_pure ())
    refine ⟨f ++ {} ++ g, haside.bind hg, List.forall_mem_cons.mpr ⟨?_, fun d hd => ?_⟩⟩
    · rw [← hsetups, ← hdeclarations]
      simp [List.map_append]
    · obtain ⟨hlines, hdeclared⟩ := hothers d hd
      simp only [Footprint.setups_append, Footprint.declarations_append, List.map_append]
      exact ⟨List.subset_append_of_subset_right _ hlines,
        List.subset_append_of_subset_right _ hdeclared⟩

/-- After the pass the lines of all its blocks are registered, and their declarations made. -/
theorem exists_play?_pass {s : Run} (hs : s.passMade = false) :
    ∃ s', j.play? j.alwaysEmittedPass s = some ((), s') ∧ j.Prepared s' ∧ j.Declared s' := by
  obtain ⟨f, hf, hsymbols⟩ := exists_leaves_emitAside hb h (List.Subset.refl j.alwaysEmitted)
  obtain ⟨s', hplay, hmarks⟩ := hf { s with passMade := true }
  refine ⟨s', ?_, fun c hc symbol hsymbol => ?_, fun c hc symbol hsymbol => ?_⟩
  · have hbegin : j.play? j.alwaysEmittedPass s =
        j.play? (if !s.passMade then j.alwaysEmitted.forM j.emitAside else pure ())
          { s with passMade := true } := rfl
    rw [hbegin, hs]
    exact hplay
  · rw [hmarks.setups, Collector.contains_registerAll]
    exact Or.inr ((hsymbols c hc).1 hsymbol)
  · rw [hmarks.declarations, Collector.contains_registerAll]
    exact Or.inr ((hsymbols c hc).2 hsymbol)

omit hb h in
theorem Prepared.mono {s s' : Run} (hs : j.Prepared s) (hle : s.Precedes s') : j.Prepared s' :=
  fun c hc symbol hsymbol => hle.contains_setups (hs c hc symbol hsymbol)

omit hb h in
theorem Prepared.of_play? {α : Type} {script : Script α} {s s' : Run} {a : α} (hs : j.Prepared s)
    (hplay : j.play? script s = some (a, s')) : j.Prepared s' :=
  hs.mono (precedes_of_play? hplay)

end Job

/-! ## The code of an entry point -/

namespace Blocks

/-- The code of an entry point on the Arduino, up to its last line end. -/
def sketch (setup loop : String) : String :=
  "void setup() \x7b\n" ++ setup ++ "\x7d\n\nvoid loop() \x7b\n" ++ loop ++ "\x7d"

/-- The code of an entry point, from the lines of the setup and the code in its slots. -/
def program (t : Target) (lines setup loop : String) : String :=
  match t with
  | .arduino => sketch (lines ++ setup) loop ++ "\n"
  | .microPython =>
    lines ++ setup ++ (if (lines ++ setup).isEmpty then "" else "\n") ++ "while True:\n" ++ loop

/-- The code in the two slots of an entry point. -/
def programSlots (t : Target) (j : Job) (n : Node) : Script (String × String) :=
  match t with
  | .arduino => do return (← j.slotCode n "SETUP", ← j.slotCode n "LOOP")
  | .microPython => do
    let setup ← match n.statements.get? "SETUP" with
      | some head => j.chainCode head
      | none => pure ""
    return (setup, ← j.bodyCode n "LOOP")

end Blocks

/-- Lines of the setup as they stand in the code of an entry point. -/
def Job.inSetup (j : Job) (t : Target) (lines : String) : String :=
  match t with
  | .arduino => j.indent lines
  | .microPython => lines

theorem append_regroup (a b c d e f g : String) :
    a ++ b ++ c ++ d ++ e ++ (f ++ g) = a ++ (b ++ c) ++ d ++ e ++ f ++ g := by
  simp only [String.append_assoc]

theorem Blocks.sketch_line (lines inner loop : String) :
    "void setup() \x7b\n" ++ lines ++ inner ++ "\x7d\n\nvoid loop() \x7b\n" ++ loop ++ "\x7d\n" =
      sketch (lines ++ inner) loop ++ "\n" :=
  append_regroup "void setup() \x7b\n" lines inner "\x7d\n\nvoid loop() \x7b\n" loop "\x7d" "\n"

/-- The script of an entry point, in the parts that it has. -/
theorem Blocks.entry_eq (t : Target) (j : Job) (n : Node) :
    entry t j n = (do
      Script.enterProgram n.key
      j.alwaysEmittedPass
      let slots ← programSlots t j n
      let lines ← Script.setupLines
      return .statement (program t (j.inSetup t lines) slots.1 slots.2)) := by
  cases t with
  | arduino =>
    unfold entry programSlots
    simp only [bind_assoc, pure_bind, sketch_line]
    rfl
  | microPython =>
    unfold entry programSlots
    cases hhead : n.statements.get? "SETUP" <;>
    · simp only [bind_assoc, pure_bind]
      rfl

theorem Blocks.getLast?_sketch (setup loop : String) :
    (Blocks.sketch setup loop).toList.getLast? = some '\x7d' := by
  have hlast : ∀ text : String, (text ++ "\x7d").toList.getLast? = some '\x7d' := by simp
  exact hlast _

theorem Blocks.blank_sketch (setup loop : String) :
    Text.blank (Blocks.sketch setup loop ++ "\n") = false := by
  have hoccurs : Text.Occurs "void setup() \x7b\n" (Blocks.sketch setup loop ++ "\n") :=
    (((((Text.occurs_append_left _ _).trans (Text.occurs_append_left _ _)).trans
      (Text.occurs_append_left _ _)).trans (Text.occurs_append_left _ _)).trans
        (Text.occurs_append_left _ _))
  exact Text.blank_eq_false_of_occurs hoccurs (by decide)

/-- **The code of an entry point takes over the setup**: the lines that stand in it are those of the
run that it ends with. -/
theorem Job.exists_play?_entry {j : Job} (h : j.graph.IsForest) (t : Target) (n : Node) {s s₁ : Run}
    (hpass : j.play? j.alwaysEmittedPass (s.enterProgram n.key) = some ((), s₁)) :
    ∃ setup loop s', j.play? (Blocks.programSlots t j n) s₁ = some ((setup, loop), s') ∧
      j.play? (Blocks.entry t j n) s =
        some (.statement (Blocks.program t (j.inSetup t s'.setups.flush) setup loop), s') := by
  obtain ⟨⟨setup, loop⟩, s₂, hslots⟩ := exists_play? h (Blocks.programSlots t j n) s₁
  refine ⟨setup, loop, s₂, hslots, ?_⟩
  have henter : j.play? (Script.enterProgram n.key) s = some ((), s.enterProgram n.key) := rfl
  have hlines : j.play? Script.setupLines s₂ = some (s₂.setups.flush, s₂) := rfl
  rw [Blocks.entry_eq]
  simp only [play?_bind, henter, Option.bind_some, hpass, hslots, hlines]
  rfl

/-! ## Before and after the entry point -/

/-- Only one type of a target is of the kind of entry points. -/
theorem Target.eq_entryType_of_mem {t : Target} {type : String}
    (h : (type, .entry) ∈ t.typeKinds) : type = t.entryType := by
  have hentry : ∀ e ∈ t.typeKinds, e.2 = .entry → e.1 = t.entryType := by
    cases t <;> decide
  exact hentry _ h rfl

theorem Target.eq_entryType_of_get? {t : Target} {type : String} {gen : Generator}
    (h : t.backend.generators.get? type = some gen) (hkind : gen.kind = .entry) :
    type = t.entryType :=
  eq_entryType_of_mem (hkind ▸ mem_typeKinds_of_get? h)

theorem Job.isEntry_iff {j : Job} {t : Target} (hb : j.backend = t.backend) {i : NodeId} :
    j.isEntry i = true ↔ (j.node i).type = t.entryType := by
  rw [isEntry, hb, Target.backend, TypeSet.contains_ofList, List.mem_singleton]

theorem Job.blockScript_of_isEntry {j : Job} {t : Target} (hb : j.backend = t.backend) {e : NodeId}
    (he : j.isEntry e = true) : j.blockScript e = Blocks.entry t j (j.node e) := by
  have hget : j.backend.generators.get? (j.node e).type = some ⟨t, .entry⟩ := by
    rw [hb, (isEntry_iff hb).mp he]
    cases t <;> rfl
  simp only [blockScript, hget]
  rfl

/-- The generator of an entry point serves the types of entry points only. -/
theorem Job.kind_ne_entry {j : Job} {t : Target} (hb : j.backend = t.backend) {i : NodeId}
    (hi : j.isEntry i = false) {gen : Generator}
    (hget : j.backend.generators.get? (j.node i).type = some gen) : gen.kind ≠ .entry := by
  intro hkind
  rw [hb] at hget
  rw [(isEntry_iff hb).mpr (Target.eq_entryType_of_get? hget hkind)] at hi
  cases hi

/-- Only entry points begin the pass. -/
theorem Job.ne_beginPass_of_permits {j : Job} {t : Target} (hb : j.backend = t.backend) {i : NodeId}
    (hi : j.isEntry i = false) {r : Request} (hr : j.Permits i r) : r ≠ .beginPass := by
  rintro rfl
  rcases hr with ⟨gen, hget, hkind⟩ | ⟨-, hplain | hreport⟩
  · exact kind_ne_entry hb hi hget hkind
  · exact hplain
  · cases hreport

theorem Target.not_alwaysEmitted_entryType (t : Target) :
    t.backend.alwaysEmitted.contains t.entryType = false := by
  rw [Bool.eq_false_iff, ne_eq, backend, TypeSet.contains_ofList]
  cases t <;> decide

theorem Request.keeps_passMade {e : NodeId} {r : Request} (hgenerate : r ≠ .generate e)
    (hbegin : r ≠ .beginPass) : r.Keeps (· ≠ e) fun s => s.passMade = false := by
  cases r with
  | generate i => exact fun hi => hgenerate (congrArg _ hi)
  | beginPass => exact absurd rfl hbegin
  | setupBeside | enterProgram =>
    intro code s reply s' hs hanswer
    cases hanswer
    simpa using hs
  | declare | setup | report | notice | setupLines =>
    intro code s reply s' hs hanswer
    cases hanswer
    exact hs

namespace Job

section Walk

variable {j : Job} {t : Target} {options : Options} (hb : j.backend = t.backend)
  (h : j.graph.IsForest)

include hb h

section Before

variable {e : NodeId} (hentry : ∀ i, (j.node i).type = t.entryType ↔ i = e) (htop : e ∈ j.walk)

include hentry htop

/-- The pass is made by entry points only, and the one that there is at top level is asked for by
no other block. -/
theorem asks_blockScript_besides {i : NodeId} (hi : i ≠ e) :
    (j.blockScript i).Asks (Request.Keeps (· ≠ e) fun s => s.passMade = false)
      (Request.Keeps (· ≠ e) fun s => s.passMade = false) false := by
  refine (j.asks_blockScript i).mono (fun r hr => ?_) (fun r hr => ?_) id
  · refine Request.keeps_passMade ?_ ?_
    · rintro rfl
      exact not_contains_of_mem_walk h htop i (contains_of_permits hr)
    · rintro rfl
      rcases hr with ⟨gen, hgen, hkind⟩ | ⟨-, hplain | hreport⟩
      · rw [hb] at hgen
        exact hi ((hentry i).mp (Target.eq_entryType_of_get? hgen hkind))
      · exact hplain.elim
      · cases hreport
  · refine Request.keeps_passMade ?_ ?_
    · rintro rfl
      have halways := (List.mem_filter.mp hr).2
      rw [hb, (hentry e).mpr rfl, t.not_alwaysEmitted_entryType] at halways
      cases halways
    · rintro rfl
      exact hr.elim

theorem passMade_of_play?_before {before : List NodeId} (hbefore : e ∉ before) {s s' : Run}
    {texts : List String} (hs : s.passMade = false)
    (hplay : j.play? (before.mapM (j.topLevel options)) s = some (texts, s')) :
    s'.passMade = false := by
  have hplain : ∀ r : Request, r ≠ .generate e → r ≠ .beginPass →
      r.Keeps (· ≠ e) fun s => s.passMade = false := fun _ => Request.keeps_passMade
  have hasks : (before.mapM (j.topLevel options)).Asks
      (Request.Keeps (· ≠ e) fun s => s.passMade = false)
      (Request.Keeps (· ≠ e) fun s => s.passMade = false) false := by
    refine Script.Asks.mapM fun i hi => ?_
    have hne : i ≠ e := fun heq => hbefore (heq ▸ hi)
    simp only [topLevel]
    split
    · exact Script.Asks.bind (.single (hplain _ (by simp) (by simp)) fun _ => .done _) fun _ =>
        .single hne fun _ => .pure _
    · exact Script.Asks.bind (.single (hplain _ (by simp) (by simp)) fun _ => .done _) fun _ =>
        .single (hplain _ (by simp) (by simp)) fun _ => .pure _
  refine Script.run_keeps (fun i hi s c s' hs hemit => ?_) hasks hs hplay
  exact emit_keeps (fun _ => asks_blockScript_besides hb h hentry htop) hi hs hemit

end Before

/-- Once the lines of the pass are registered, a block at top level that is no container adds
none. -/
theorem setups_of_play?_topLevel {i : NodeId} {s s' : Run} {text : String} (hs : j.Prepared s)
    (hi : i < j.graph.size) (hcontainer : j.backend.containers.contains (j.node i).type = false)
    (hplay : j.play? (j.topLevel options i) s = some (text, s')) : s'.setups = s.setups := by
  simp only [topLevel, isPlaced, hcontainer, Bool.false_or] at hplay
  cases halways : j.backend.alwaysEmitted.contains (j.node i).type with
  | false =>
    rw [halways] at hplay
    cases hplay
    rfl
  | true =>
    have hmem : i ∈ j.alwaysEmitted := List.mem_filter.mpr ⟨List.mem_range.mpr hi, halways⟩
    have hnotice : j.play? (Script.notice (.generatingRoot (j.node i).key (j.node i).type)) s =
        some ((), s.notice (.generatingRoot (j.node i).key (j.node i).type)) := rfl
    obtain ⟨f, hleaves, hsymbols, -⟩ := exists_leaves_generate_of_alwaysEmitted hb h halways
    obtain ⟨s₁, hgenerate, hmarks⟩ :=
      hleaves (s.notice (.generatingRoot (j.node i).key (j.node i).type))
    rw [halways, if_pos rfl, play?_bind, hnotice, Option.bind_some, play?_bind, hgenerate] at hplay
    cases hplay
    rw [hmarks.setups]
    refine Collector.registerAll_of_contains fun symbol hsymbol => ?_
    rw [hsymbols] at hsymbol
    exact hs i hmem symbol hsymbol

theorem setups_of_play?_after {after : List NodeId} {s s' : Run} {texts : List String}
    (hs : j.Prepared s)
    (hafter : ∀ i ∈ after, i < j.graph.size ∧
      j.backend.containers.contains (j.node i).type = false)
    (hplay : j.play? (after.mapM (j.topLevel options)) s = some (texts, s')) :
    s'.setups = s.setups := by
  refine keeps_of_play?_mapM (I := fun r => r.setups = s.setups) ?_ rfl hplay
  intro i hi r text r' hr htext
  have hprepared : j.Prepared r := by
    rw [Prepared, hr]
    exact hs
  rw [setups_of_play?_topLevel hb h hprepared (hafter i hi).1 (hafter i hi).2 htext, hr]

end Walk

/-- Every line that is registered stands among the lines of the setup, further in. -/
theorem occurs_indent_flush (j : Job) {c : Collector} {text : String} (h : text ∈ c.texts) :
    Text.Occurs (j.indent (Text.trimLineFeeds text ++ "\n")) (j.indent c.flush) := by
  have hwhole : ∀ line ∈ c.texts.map fun text => Text.trimLineFeeds text ++ "\n",
      Text.IsWhole line := by
    intro line hline
    obtain ⟨text, -, rfl⟩ := List.mem_map.mp hline
    exact Text.isWhole_line _
  have hflush : j.indent c.flush = String.join
      ((c.texts.map fun text => Text.trimLineFeeds text ++ "\n").map j.indent) :=
    Text.indent_join _ hwhole
  rw [hflush]
  exact Text.occurs_join (List.mem_map_of_mem (List.mem_map.mpr ⟨text, h, rfl⟩))

variable {j : Job} {e : NodeId}

/-- The code of the entry point at top level. -/
theorem exists_play?_topLevel_entry (hb : j.backend = Target.arduino.backend)
    (h : j.graph.IsForest) (he : (j.node e).type = Target.arduino.entryType) (options : Options)
    {s : Run} (hs : s.passMade = false) :
    ∃ s' inner loop, j.play? (j.topLevel options e) s =
        some (Blocks.sketch (j.indent s'.setups.flush ++ inner) loop ++ "\n", s') ∧
      j.Prepared s' := by
  have hplaced : j.isPlaced (j.node e).type = true := by
    rw [isPlaced, hb, he]
    rfl
  have hscript := blockScript_of_isEntry hb ((isEntry_iff hb).mpr he)
  let s₀ := s.notice (.generatingRoot (j.node e).key (j.node e).type)
  have hnotice : j.play? (Script.notice (.generatingRoot (j.node e).key (j.node e).type)) s =
      some ((), s₀) := rfl
  have hs₀ : (s₀.enterProgram (j.node e).key).passMade = false := by
    rw [Run.passMade_enterProgram]
    exact hs
  obtain ⟨s₁, hpass, hprepared, -⟩ := exists_play?_pass hb h hs₀
  obtain ⟨inner, loop, s', hslots, hplay⟩ := exists_play?_entry h .arduino (j.node e) hpass
  refine ⟨s', inner, loop, ?_, hprepared.of_play? hslots⟩
  simp only [topLevel, hplaced, if_true, play?_bind, hnotice, Option.bind_some, play?_generate h,
    hscript, hplay]
  rfl

/-- **No line of the setup is lost** where the entry point is the last container that the
compilation gets to.  Let a graph have one entry point, at top level, and no procedure behind it in
the walk.  The compilation runs to its end, the code it yields for the entry point is part of the
source, and the setup in it holds every line that is registered in the end. -/
theorem setup_keeps_lines (h : j.graph.Built) (hb : j.backend = Target.arduino.backend)
    (options : Options) {before after : List NodeId}
    (hentry : ∀ i, (j.node i).type = "arduino_entry" ↔ i = e)
    (hwalk : j.walk = before ++ e :: after)
    (hafter : ∀ i ∈ after, (j.node i).type ∉ ["procedures_defnoreturn", "procedures_defreturn"]) :
    ∃ sections s texts s₁ s₂ setup loop,
      j.play? (j.sections options) {} = some (sections, s) ∧
      j.play? (before.mapM (j.topLevel options)) {} = some (texts, s₁) ∧
      j.play? (j.topLevel options e) s₁ = some (Blocks.sketch setup loop ++ "\n", s₂) ∧
      Text.Occurs (Blocks.sketch setup loop) (j.compile options).source ∧
      ∀ text ∈ s.setups.texts,
        Text.Occurs (j.indent (Text.trimLineFeeds text ++ "\n")) setup := by
  have hf := h.isForest
  have hmem : ∀ i, i ∈ before ++ e :: after → i ∈ j.walk := fun i hi => hwalk ▸ hi
  obtain ⟨-, hnodup, hdisjoint⟩ := List.nodup_append.mp (hwalk ▸ nodup_walk hf)
  have hebefore : e ∉ before := fun he => hdisjoint e he e List.mem_cons_self rfl
  -- Up to the entry point the pass has not been made, so the entry point makes it.
  obtain ⟨texts, s₁, hbefore⟩ := exists_play? hf (before.mapM (j.topLevel options)) {}
  have hmade : s₁.passMade = false :=
    passMade_of_play?_before hb hf hentry (hmem e (by simp)) hebefore rfl hbefore
  obtain ⟨s₂, inner, loop, hplay, hprepared⟩ :=
    exists_play?_topLevel_entry hb hf ((hentry e).mpr rfl) options hmade
  -- Behind it nothing is registered.
  obtain ⟨texts', s, hrest⟩ := exists_play? hf (after.mapM (j.topLevel options)) s₂
  have hsetups : s.setups = s₂.setups := by
    refine setups_of_play?_after hb hf hprepared (fun i hi => ?_) hrest
    refine ⟨lt_size_of_mem_walk hf (hmem i (by simp [hi])), ?_⟩
    have hne : i ≠ e := by
      rintro rfl
      exact (List.nodup_cons.mp hnodup).1 hi
    rw [Bool.eq_false_iff, ne_eq, hb, Target.backend, TypeSet.contains_ofList, List.mem_cons, not_or]
    exact ⟨fun htype => hne ((hentry i).mp htype), hafter i hi⟩
  have hall : j.play? (j.walk.mapM (j.topLevel options)) {} = some
      (texts ++ (Blocks.sketch (j.indent s₂.setups.flush ++ inner) loop ++ "\n") :: texts', s) := by
    rw [hwalk, List.mapM_append, List.mapM_cons]
    simp only [play?_bind, hbefore, Option.bind_some, hplay, hrest]
    rfl
  obtain ⟨groups, -, -, hsections⟩ := play?_sections hall
  obtain ⟨content, hcontent, hsource⟩ := occurs_source hf hall
    (List.mem_append_right _ List.mem_cons_self) (Blocks.blank_sketch _ _)
  refine ⟨_, s, texts, s₁, s₂, _, loop, hsections, hbefore, hplay, ?_, fun text htext => ?_⟩
  · exact ((((Text.occurs_append_left _ _).trans hcontent).trimLineFeeds
      (Blocks.getLast?_sketch _ _) (by decide)).trans hsource)
  · rw [hsetups] at htext
    exact (j.occurs_indent_flush htext).trans (Text.occurs_append_left _ _)

/-- The node of a type other than the empty one is found among the nodes of the graph. -/
theorem type_iff_of_lt {type : String} (htype : type ≠ "")
    (h : ∀ i < j.graph.size, (j.node i).type = type ↔ i = e) (he : e < j.graph.size) (i : NodeId) :
    (j.node i).type = type ↔ i = e := by
  by_cases hi : i < j.graph.size
  · exact h i hi
  · have hnode : (j.node i).type = "" := by
      rw [node, j.graph.node_of_size_le (Nat.le_of_not_lt hi)]
      rfl
    constructor
    · intro heq
      exact absurd (heq.symm.trans hnode) htype
    · rintro rfl
      exact absurd he hi

/-- A procedure that uses a pin, and an entry point with another one in its loop and the serial
line set up behind it. -/
def keptDraft : Draft :=
  [.node "main" "arduino_entry", .node "lamp" "io_digitalwrite",
    .node "blink" "procedures_defnoreturn", .node "led" "io_digitalwrite",
    .node "serial" "serial_setup", .setField 3 "PIN" "7", .setStatement 0 "LOOP" 1,
    .setStatement 2 "STACK" 3, .setNext 0 4].foldl (fun d e => Draft.Edit.apply e d) {}

theorem keptDraft_reachable : keptDraft.Reachable :=
  Draft.reachable_of_edits rfl

/-- The compilation of the graph of `keptDraft`. -/
def keptJob : Job :=
  ⟨keptDraft.toGraph, Target.arduino.backend⟩

theorem keptJob_built : keptJob.graph.Built :=
  keptDraft_reachable.built rfl

/-- The lines of the procedure, of the block behind the entry point and of its own loop all stand
in the setup. -/
theorem setup_keeps_lines_kept :
    keptJob.graph.Built ∧ (∀ i, (keptJob.node i).type = "arduino_entry" ↔ i = 0) ∧
      keptJob.walk = [2] ++ 0 :: [4] ∧
      ∃ setup loop, Text.Occurs (Blocks.sketch setup loop) (keptJob.compile {}).source ∧
        ∀ text ∈ ["pinMode(7, OUTPUT);", "Serial.begin(9600);", "pinMode(13, OUTPUT);"],
          Text.Occurs (keptJob.indent (Text.trimLineFeeds text ++ "\n")) setup := by
  have hwalk : keptJob.walk = [2] ++ 0 :: [4] := rfl
  have hentry : ∀ i, (keptJob.node i).type = "arduino_entry" ↔ i = 0 :=
    type_iff_of_lt (by decide) (by decide) (by decide)
  obtain ⟨sections, s, -, -, -, setup, loop, hplay, -, -, hsource, hlines⟩ :=
    setup_keeps_lines keptJob_built rfl {} hentry hwalk (by decide)
  have htexts : (keptJob.play? (keptJob.sections {}) {}).map (·.2.setups.texts) =
      some ["pinMode(7, OUTPUT);", "Serial.begin(9600);", "pinMode(13, OUTPUT);"] := rfl
  rw [hplay] at htexts
  have hregistered : s.setups.texts =
      ["pinMode(7, OUTPUT);", "Serial.begin(9600);", "pinMode(13, OUTPUT);"] :=
    Option.some.inj htexts
  refine ⟨keptJob_built, hentry, hwalk, setup, loop, hsource, fun text htext => hlines text ?_⟩
  rwa [hregistered]

/-- An entry point behind a procedure, and a procedure at top level that uses a pin. -/
def lostDraft : Draft :=
  [.node "f" "procedures_defnoreturn", .node "main" "arduino_entry",
    .node "g" "procedures_defnoreturn", .node "w" "io_digitalwrite", .setField 0 "NAME" "f",
    .setField 2 "NAME" "g", .setNext 0 1, .setStatement 2 "STACK" 3].foldl
      (fun d e => Draft.Edit.apply e d) {}

theorem lostDraft_reachable : lostDraft.Reachable :=
  Draft.reachable_of_edits rfl

/-- The compilation of the graph of `lostDraft`. -/
def lostJob : Job :=
  ⟨lostDraft.toGraph, Target.arduino.backend⟩

/-- **A line of the setup can be lost.**  The entry point stands behind a procedure, so its root is
generated in turn with the others, and the pin that the next root uses is registered too late. -/
theorem setup_line_lost :
    lostJob.graph.Built ∧ (∀ i, (lostJob.node i).type = "arduino_entry" ↔ i = 1) ∧
      lostJob.walk = [0] ++ 1 :: [2] ∧
      (lostJob.play? (lostJob.sections { banner := false }) {}).map (·.2.setups.texts) =
        some ["pinMode(13, OUTPUT);"] ∧
      (lostJob.compile { banner := false }).source =
        "void f();\nvoid g();\n\nvoid f() \x7b\n\x7d\n" ++
          "void setup() \x7b\n\x7d\n\nvoid loop() \x7b\n\x7d\n\n" ++
          "void g() \x7b\n  digitalWrite(13, LOW);\n\x7d\n" := by
  refine ⟨lostDraft_reachable.built rfl, ?_, rfl, rfl, ?_⟩
  · exact type_iff_of_lt (by decide) (by decide) (by decide)
  · decide +kernel

end Job

end BlockCompiler
