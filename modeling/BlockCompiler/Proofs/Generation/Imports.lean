import BlockCompiler.Proofs.Generation.Naming
import BlockCompiler.Proofs.Graph.Descent
import BlockCompiler.Proofs.Graph.Forest

/-!
# Imports before use

In MicroPython a pin is used through an object, which a declaration constructs; the class of
the object has to be imported before.  A block offers its declarations in that order
(`BlockKind.supplied_declarations`), and registering offers one after the other keeps the
order whichever of them are registered already: what a declaration needs is registered at
the latest just before it (`Job.Course.supplied`).

Everything else that is generated can stand at any distance from its imports, since the
declarations come first in a source.  There it is enough that what is named is imported at
all (`Job.Course.kept`, with the contract `warranting`).

The author of a program can write the word for a facility into a field, where nothing sees to
it that it is imported: a pin given as `ADC(3)` is one such text (`pin_names_other_class`).
`Graph.TakesFrom` says from whose fields words get into the code of a block, so the exception
is one for the block and what stands inside of it, and not for the whole program.
-/

namespace BlockCompiler

open Text

/-! ## Objects for pins -/

/-- The objects through which a pin is used. -/
inductive Device where
  | output
  | input
  | pwm
  | adc
deriving DecidableEq, Repr

namespace Device

/-- How the names of such objects begin. -/
def start : Device → String
  | output => "pin_out_"
  | input => "pin_in_"
  | pwm => "pwm_"
  | adc => "adc_"

/-- The classes that constructing such an object takes. -/
def facilities : Device → List Facility
  | output | input => [.pin]
  | pwm => [.pin, .pwm]
  | adc => [.pin, .adc]

/-- The name of the object for a pin. -/
def name (d : Device) (pin : String) : String :=
  d.start ++ suffix pin

/-- The declaration that constructs the object for a pin. -/
def declaration (d : Device) (pin : String) : String × String :=
  (d.name pin,
    match d with
    | output => d.name pin ++ " = Pin(" ++ pin ++ ", Pin.OUT)"
    | input => d.name pin ++ " = Pin(" ++ pin ++ ", Pin.IN)"
    | pwm => d.name pin ++ " = PWM(Pin(" ++ pin ++ "))"
    | adc => d.name pin ++ " = ADC(Pin(" ++ pin ++ "))")

/-- The symbol is one of such an object. -/
def Begins (d : Device) (symbol : String) : Prop :=
  d.start.toList <+: symbol.toList

instance (d : Device) (symbol : String) : Decidable (d.Begins symbol) :=
  inferInstanceAs (Decidable (_ <+: _))

theorem begins_name (d : Device) (pin : String) : d.Begins (d.name pin) := by
  rw [Begins, name, String.toList_append]
  exact List.prefix_append _ _

/-- No name belongs to two kinds of objects. -/
theorem Begins.unique {d d' : Device} {symbol : String} (h : d.Begins symbol)
    (h' : d'.Begins symbol) : d = d' := by
  have hstart : d.start.toList <+: d'.start.toList ∨ d'.start.toList <+: d.start.toList :=
    List.prefix_or_prefix_of_prefix h h'
  revert hstart
  cases d <;> cases d' <;> decide

theorem Begins.head? {d : Device} {symbol : String} (h : d.Begins symbol) :
    symbol.toList.head? = some 'p' ∨ symbol.toList.head? = some 'a' := by
  obtain ⟨rest, hrest⟩ := h
  rw [← hrest]
  cases d <;> simp [start]

/-- What a construction names are the classes that it takes, and what the text for the pin names. -/
theorem named_declaration {d : Device} {pin : String} {f : Facility}
    (h : f.NamedIn (d.declaration pin).2) : f ∈ d.facilities ∨ f.NamedIn pin := by
  let U : Facility → Prop := fun f => f ∈ d.facilities ∨ f.NamedIn pin
  have hU : ∀ f ∈ d.facilities, U f := fun _ => Or.inl
  have hpin : NamesOnly U pin := fun _ => Or.inr
  have hname : NamesOnly U (d.name pin) := by
    cases d <;> exact Blocks.namesOnly_pinName _ (by decide) (by decide) pin
  have honly : NamesOnly U (d.declaration pin).2 := by
    cases d <;>
      exact (hname.gap (gap_literal hU (by decide)) hpin).close (gap_literal hU (by decide))
  exact honly f h

end Device

/-! ## The order of declarations -/

/-- What a construction needs is among the symbols `seen`, or stands before it in the list. -/
def Supplied (seen : List String) (offers : List (String × String)) : Prop :=
  ∀ front e back, offers = front ++ e :: back → ∀ d : Device, d.Begins e.1 →
    ∀ f ∈ d.facilities, f.importEntry.1 ∈ seen ∨ f.importEntry.1 ∈ front.map (·.1)

namespace Supplied

variable {seen : List String} {offers : List (String × String)} {e : String × String}

theorem nil : Supplied seen [] := by
  intro front e back h
  simp at h

theorem cons_iff : Supplied seen (e :: offers) ↔
    (∀ d : Device, d.Begins e.1 → ∀ f ∈ d.facilities, f.importEntry.1 ∈ seen) ∧
      Supplied (e.1 :: seen) offers := by
  constructor
  · intro h
    refine ⟨fun d hd f hf => ?_, fun front e' back hsplit d hd f hf => ?_⟩
    · simpa using h [] e offers rfl d hd f hf
    · have hearlier := h (e :: front) e' back (by rw [hsplit, List.cons_append]) d hd f hf
      rw [List.map_cons, List.mem_cons] at hearlier
      rw [List.mem_cons]
      tauto
  · rintro ⟨hhead, hrest⟩ front e' back hsplit d hd f hf
    cases front with
    | nil =>
      cases hsplit
      exact Or.inl (hhead d hd f hf)
    | cons first front =>
      obtain ⟨rfl, htail⟩ := List.cons.inj hsplit
      have hearlier := hrest front e' back htail d hd f hf
      rw [List.mem_cons] at hearlier
      rw [List.map_cons, List.mem_cons]
      tauto

theorem mono {seen' : List String} (h : Supplied seen offers) (hseen : seen ⊆ seen') :
    Supplied seen' offers :=
  fun front e back hsplit d hd f hf => (h front e back hsplit d hd f hf).imp_left (@hseen _)

/-- One more entry at the end, with what it needs before it. -/
theorem concat (h : Supplied [] offers)
    (he : ∀ d : Device, d.Begins e.1 → ∀ f ∈ d.facilities,
      f.importEntry.1 ∈ offers.map (·.1)) : Supplied [] (offers ++ [e]) := by
  intro front e' back hsplit d hd f hf
  rcases List.eq_nil_or_concat' back with rfl | ⟨back, last, rfl⟩
  · obtain ⟨rfl, hlast⟩ := List.append_inj' hsplit rfl
    cases hlast
    exact Or.inr (he d hd f hf)
  · rw [← List.cons_append, ← List.append_assoc] at hsplit
    obtain ⟨hoffers, -⟩ := List.append_inj' hsplit rfl
    exact h front e' back hoffers d hd f hf

/-- One offer to a collector. -/
theorem register {c : Collector} (hc : c.InStep) (h : Supplied [] c.entries) {symbol text : String}
    (he : ∀ d : Device, d.Begins symbol → ∀ f ∈ d.facilities,
      c.contains f.importEntry.1 = true) : Supplied [] (c.register symbol text).entries := by
  rw [Collector.register]
  split
  · exact h
  · exact h.concat fun d hd f hf => hc.contains_iff.mp (he d hd f hf)

/-- A list of offers to a collector that holds all that was seen. -/
theorem registerAll {c : Collector} (hstep : c.InStep) (hc : Supplied [] c.entries)
    (hseen : ∀ symbol ∈ seen, c.contains symbol = true) {later : List (String × String)}
    (h : Supplied seen (offers ++ later)) :
    Supplied [] (c.registerAll offers).entries ∧
      ∃ seen', (∀ symbol ∈ seen', (c.registerAll offers).contains symbol = true) ∧
        Supplied seen' later := by
  induction offers generalizing c seen with
  | nil => exact ⟨hc, seen, hseen, h⟩
  | cons o rest ih =>
    obtain ⟨hhead, hrest⟩ := cons_iff.mp h
    refine ih (c := c.register o.1 o.2) (hstep.register _ _)
      (hc.register hstep fun d hd f hf => ?_) (fun symbol hsymbol => ?_) hrest
    · exact hseen _ (hhead d hd f hf)
    · rw [Collector.contains_register]
      rcases List.mem_cons.mp hsymbol with rfl | hsymbol
      · exact Or.inr rfl
      · exact Or.inl (hseen symbol hsymbol)

end Supplied

/-! ## The declarations of a block -/

open Blocks in
/-- What a block of the kind declares after its imports. -/
def BlockKind.ownDeclarations (n : Node) : BlockKind → List (String × String)
  | digitalWrite => [Device.output.declaration (n.fieldOr "PIN" "2")]
  | analogWrite => [Device.pwm.declaration (n.fieldOr "PIN" "4")]
  | digitalRead => [Device.input.declaration (n.fieldOr "PIN" "0")]
  | analogRead => [Device.adc.declaration (n.fieldOr "PIN" "34")]
  | countingLoop =>
    let var := nameField n "VAR" "i"
    [("var_" ++ var, var ++ " = 0")]
  | assignment =>
    let var := nameField n "VAR" "item"
    [("var_" ++ var, var ++ " = 0")]
  | timedRepeat => [(timerState n, timerDeclaration .microPython (timerState n))]
  | servoWrite =>
    [("servo_angle_fn",
      "def servo_angle(servo, degrees):\n    servo.duty(int(40 + degrees * 75 / 180))")]
  | _ => []

namespace BlockKind

variable {n : Node} {kind : BlockKind} {e : String × String}

/-- A block declares its imports first. -/
theorem declarations_microPython (n : Node) (kind : BlockKind) :
    kind.declarations .microPython n =
      kind.facilities.map (·.importEntry) ++ kind.ownDeclarations n := by
  cases kind <;> rfl

/-- After its imports, a block constructs an object from what it imported, for the pin of its field
or for one whose text names nothing, or declares something whose symbol begins with another
letter. -/
theorem own_cases (h : e ∈ kind.ownDeclarations n) :
    (∃ (d : Device) (fallback : String), e = d.declaration (n.fieldOr "PIN" fallback) ∧
      d.facilities = kind.facilities ∧ Facility.namedIn fallback = []) ∨
      e.1.toList.head? ∈ [some 'v', some 'e', some 's'] := by
  cases kind with
  | digitalWrite => exact Or.inl ⟨.output, "2", List.mem_singleton.mp h, rfl, by decide⟩
  | analogWrite => exact Or.inl ⟨.pwm, "4", List.mem_singleton.mp h, rfl, by decide⟩
  | digitalRead => exact Or.inl ⟨.input, "0", List.mem_singleton.mp h, rfl, by decide⟩
  | analogRead => exact Or.inl ⟨.adc, "34", List.mem_singleton.mp h, rfl, by decide⟩
  | countingLoop | assignment | timedRepeat | servoWrite =>
    rw [List.mem_singleton.mp h]
    simp [Blocks.timerState]
  | _ => cases h

/-- A symbol that begins with another letter is none of an object. -/
theorem not_begins_of_head? {symbol : String}
    (h : symbol.toList.head? ∈ [some 'v', some 'e', some 's']) (d : Device) : ¬ d.Begins symbol := by
  intro hd
  rcases hd.head? with hhead | hhead <;> rw [hhead] at h <;> exact absurd h (by decide)

theorem not_begins_import (f : Facility) (d : Device) : ¬ d.Begins f.importEntry.1 := by
  intro hd
  have hhead := hd.head?
  revert hhead
  cases f <;> decide

/-- Imports need nothing themselves, and what follows them may need them. -/
theorem supplied_imports {seen : List String} {offers : List (String × String)} (fs : List Facility)
    (h : Supplied (fs.map (·.importEntry.1) ++ seen) offers) :
    Supplied seen (fs.map (·.importEntry) ++ offers) := by
  induction fs generalizing seen with
  | nil => exact h
  | cons f rest ih =>
    refine Supplied.cons_iff.mpr ⟨fun d hd => absurd hd (not_begins_import f d), ih ?_⟩
    refine h.mono fun symbol hsymbol => ?_
    simp only [List.map_cons, List.cons_append, List.mem_cons, List.mem_append] at hsymbol ⊢
    tauto

/-- **A block imports what it constructs objects from before it does so.** -/
theorem supplied_declarations (n : Node) (kind : BlockKind) :
    Supplied [] (kind.declarations .microPython n) := by
  rw [declarations_microPython]
  refine supplied_imports _ fun front e back hsplit d hd f hf => Or.inl ?_
  have he : e ∈ kind.ownDeclarations n := hsplit ▸ List.mem_append_right _ List.mem_cons_self
  rcases own_cases he with ⟨d', fallback, rfl, hfacilities, -⟩ | hhead
  · rw [hd.unique (d'.begins_name _), hfacilities] at hf
    exact List.mem_append_left _ (List.mem_map_of_mem hf)
  · exact absurd hd (not_begins_of_head? hhead d)

/-- What is declared under the symbol of an import is that import. -/
theorem eq_importEntry (h : e ∈ kind.declarations .microPython n) {f : Facility}
    (hf : e.1 = f.importEntry.1) : e = f.importEntry := by
  have hhead : e.1.toList.head? = some 'i' := by
    rw [hf]
    cases f <;> rfl
  rw [declarations_microPython, List.mem_append] at h
  rcases h with himport | hown
  · obtain ⟨f', -, rfl⟩ := List.mem_map.mp himport
    cases f <;> cases f' <;> first | rfl | exact absurd hf (by decide)
  · rcases own_cases hown with ⟨d, fallback, rfl, -⟩ | hother
    · have hbegins : (d.declaration (n.fieldOr "PIN" fallback)).1.toList.head? = some 'p' ∨
          (d.declaration (n.fieldOr "PIN" fallback)).1.toList.head? = some 'a' :=
        (d.begins_name _).head?
      rw [hhead] at hbegins
      exact absurd hbegins (by decide)
    · rw [hhead] at hother
      exact absurd hother (by decide)

/-- What is declared under the name of an object constructs it. -/
theorem exists_declaration_of_begins (h : e ∈ kind.declarations .microPython n) {d : Device}
    (hd : d.Begins e.1) : ∃ fallback, Facility.namedIn fallback = [] ∧
      e = d.declaration (n.fieldOr "PIN" fallback) := by
  rw [declarations_microPython, List.mem_append] at h
  rcases h with himport | hown
  · obtain ⟨f, -, rfl⟩ := List.mem_map.mp himport
    exact absurd hd (not_begins_import f d)
  · rcases own_cases hown with ⟨d', fallback, rfl, -, hfallback⟩ | hother
    · rw [hd.unique (d'.begins_name _)]
      exact ⟨fallback, hfallback, rfl⟩
    · exact absurd hd (not_begins_of_head? hother d)

end BlockKind

/-! ## Along a run -/

theorem Contract.supplies_none (C : Contract) : C.Supplies fun _ _ => none := by
  intro _ _ _ _ _ hnone
  cases hnone

namespace Job.Course

variable {α : Type} {j : Job} {script : Script α} {s s' : Run} {steps : List Step} {a : α}

/-- What constructions need stands before them in the declarations of a run. -/
theorem supplied (hblocks : ∀ i, Supplied [] (j.declarations i))
    (h : j.Course script s steps a s') {seen : List String} {ds : List (String × String)}
    (hscript : script.Declares ds) (hds : Supplied seen ds)
    (hseen : ∀ symbol ∈ seen, s.declarations.contains symbol = true)
    (hstep : s.declarations.InStep) (hs : Supplied [] s.declarations.entries) :
    Supplied [] s'.declarations.entries := by
  induction h generalizing seen ds with
  | done => exact hs
  | @block _ i _ _ _ _ _ _ _ _ hinside _ ihinside ihrest =>
    cases hscript with
    | ask hrest =>
      refine ihrest (hrest _) hds (fun symbol hsymbol => ?_)
        (hinside.precedes.inStep_declarations hstep) ?_
      · exact hinside.precedes.contains_declarations (hseen symbol hsymbol)
      · exact ihinside (j.declares_blockScript i) (hblocks i) (fun _ hmem => nomatch hmem) hstep hs
  | @plain _ r _ _ _ _ _ _ _ hanswer _ ih =>
    cases hscript with
    | ask hrest =>
      have hmarks := (Request.marks_of_plain_answer hanswer).declarations
      obtain ⟨hnow, seen', hseen', hlater⟩ := hs.registerAll hstep hseen hds
      have hafter := hstep.registerAll r.footprint.declarations
      rw [← hmarks] at hnow hseen' hafter
      exact ih (hrest _) hlater hseen' hafter hnow

/-- What is registered as a declaration was there before, is declared by the script itself, or by a
block that it comes to. -/
theorem mem_declarations_cases (h : j.Course script s steps a s') {ds : List (String × String)}
    (hscript : script.Declares ds) {e : String × String} (he : e ∈ s'.declarations.entries) :
    e ∈ s.declarations.entries ∨ e ∈ ds ∨ ∃ i ∈ Step.blocks steps, e ∈ j.declarations i := by
  induction h generalizing ds with
  | done => exact Or.inl he
  | @block _ i _ _ _ _ _ _ inside rest _ _ ihinside ihrest =>
    rw [Step.blocks_cons, Step.blocks_append]
    cases hscript with
    | ask hrest =>
      rcases ihrest (hrest _) he with hmiddle | hown | ⟨k, hk, hek⟩
      · rcases ihinside (j.declares_blockScript i) hmiddle with hstart | hblock | ⟨k, hk, hek⟩
        · exact Or.inl hstart
        · exact Or.inr (Or.inr ⟨i, by simp [Step.block?], hblock⟩)
        · exact Or.inr (Or.inr ⟨k, by simp [hk], hek⟩)
      · exact Or.inr (Or.inl hown)
      · exact Or.inr (Or.inr ⟨k, by simp [hk], hek⟩)
  | plain hanswer _ ih =>
    cases hscript with
    | ask hrest =>
      rcases ih (hrest _) he with hnow | hown | ⟨k, hk, hek⟩
      · rw [(Request.marks_of_plain_answer hanswer).declarations] at hnow
        rcases Collector.mem_of_mem_registerAll hnow with hstart | hoffer
        · exact Or.inl hstart
        · exact Or.inr (Or.inl (List.mem_append_left _ hoffer))
      · exact Or.inr (Or.inl (List.mem_append_right _ hown))
      · rw [Step.blocks_cons]
        exact Or.inr (Or.inr ⟨k, List.mem_append_right _ hk, hek⟩)

/-- A contract that the blocks of a run obey is kept by the run. -/
theorem kept {C : Contract} {p : α → Prop} (h : j.Course script s steps a s')
    (hblocks : ∀ i ∈ Step.blocks steps, (j.blockScript i).Obeys C (C.code i))
    (hscript : script.Obeys C p) (hs : C.Kept s) : p a ∧ C.Kept s' := by
  induction h with
  | done =>
    cases hscript with
    | done ha => exact ⟨ha, hs⟩
  | @block _ i _ _ _ _ _ _ inside rest _ _ ihinside ihrest =>
    rw [Step.blocks_cons, Step.blocks_append] at hblocks
    cases hscript with
    | ask _ hrest =>
      have hi := hblocks i (by simp [Step.block?])
      obtain ⟨hcode, hafter⟩ := ihinside (fun k hk => hblocks k (by simp [hk])) hi hs
      exact ihrest (fun k hk => hblocks k (by simp [hk])) (hrest _ hcode) hafter
  | @plain _ r _ _ _ _ _ _ rest hanswer _ ih =>
    cases hscript with
    | ask hallows hrest =>
      obtain ⟨hgrants, hafter⟩ := hs.answer C.supplies_none hallows hanswer
      refine ih (fun k hk => hblocks k ?_) (hrest _ hgrants) hafter
      rw [Step.blocks_cons]
      exact List.mem_append_right _ hk

/-- The code of every block that a run comes to is as the contract says. -/
theorem code_kept {C : Contract} {p : α → Prop} (h : j.Course script s steps a s')
    (hblocks : ∀ i ∈ Step.blocks steps, (j.blockScript i).Obeys C (C.code i))
    (hscript : script.Obeys C p) (hs : C.Kept s) {step : Step} (hstep : step ∈ steps) {i : NodeId}
    (hi : step.request = .generate i) :
    ∃ inside c s₁, j.Course (j.blockScript i) step.run inside c s₁ ∧ C.code i c := by
  induction h with
  | done => cases hstep
  | @block _ k _ _ _ _ _ _ inside rest hinside _ ihinside ihrest =>
    rw [Step.blocks_cons, Step.blocks_append] at hblocks
    have hk := hblocks k (by simp [Step.block?])
    have hwithin : ∀ l ∈ Step.blocks inside, (j.blockScript l).Obeys C (C.code l) :=
      fun l hl => hblocks l (by simp [hl])
    obtain ⟨hcode, hafter⟩ := hinside.kept hwithin hk hs
    -- The step is the request for this block, one inside of it, or one that comes later.
    rcases List.mem_cons.mp hstep with rfl | hstep
    · cases hi
      exact ⟨_, _, _, hinside, hcode⟩
    · rcases List.mem_append.mp hstep with hstep | hstep
      · exact ihinside hwithin hk hs hstep
      · cases hscript with
        | ask _ hrest =>
          exact ihrest (fun l hl => hblocks l (by simp [hl])) (hrest _ hcode) hafter hstep
  | @plain _ r _ _ _ _ _ _ rest hanswer _ ih =>
    rcases List.mem_cons.mp hstep with rfl | hstep
    · cases hi
      cases hanswer
    · cases hscript with
      | ask hallows hrest =>
        obtain ⟨hgrants, hafter⟩ := hs.answer C.supplies_none hallows hanswer
        refine ih (fun k hk => hblocks k ?_) (hrest _ hgrants) hafter hstep
        rw [Step.blocks_cons]
        exact List.mem_append_right _ hk

end Job.Course

/-! ## Words of the author -/

namespace Graph

variable {g : Graph} {i k : NodeId} {f : Facility}

/-- The author of the program wrote the word for the facility into a field of the block. -/
def Mentions (g : Graph) (i : NodeId) (f : Facility) : Prop :=
  ∃ e ∈ (g.node i).fields.entries, f.NamedIn e.2

/-- A MicroPython block of this type is generated wherever it stands. -/
def isAside (g : Graph) (i : NodeId) : Bool :=
  Target.microPython.backend.alwaysEmitted.contains (g.node i).type

/-- A MicroPython program begins with the block. -/
def isProgram (g : Graph) (i : NodeId) : Bool :=
  Target.microPython.backend.entryPoints.contains (g.node i).type

/-- The fields of `k` are among those from which words get into the code of `i`. -/
inductive TakesFrom (g : Graph) (i : NodeId) : NodeId → Prop
  /-- Every block reads its own fields. -/
  | own : TakesFrom g i i
  /-- The code of the blocks inside becomes part of the code around them. -/
  | inside {k : NodeId} (hi : g.isAside i = false) (hk : k ∈ g.descendants i) : TakesFrom g i k
  /-- An entry point takes over the lines that were prepared for the setup. -/
  | prepared {e k : NodeId} (hi : g.isAside i = false) (he : e = i ∨ e ∈ g.descendants i)
      (hentry : g.isProgram e = true) (hk : g.isAside k = true) : TakesFrom g i k

/-- Blocks that are generated wherever they stand have nothing but their own fields. -/
theorem TakesFrom.eq_of_isAside (h : g.TakesFrom i k) (hi : g.isAside i = true) : k = i := by
  cases h with
  | own => rfl
  | inside hnot | prepared hnot =>
    rw [hi] at hnot
    cases hnot

/-- What gets into the code of a block gets into that of the block around it. -/
theorem TakesFrom.of_contains (h : g.IsForest) {c : NodeId} (hi : g.isAside i = false)
    (hc : g.Contains i c) (hk : g.TakesFrom c k) : g.TakesFrom i k := by
  have hbelow : ∀ {m}, m ∈ g.descendants c → m ∈ g.descendants i := fun hm =>
    h.mem_descendants_iff.mpr (.head hc (h.mem_descendants_iff.mp hm))
  have hdirect : c ∈ g.descendants i := h.mem_descendants_iff.mpr (.single hc)
  cases hk with
  | own => exact .inside hi hdirect
  | inside _ hk => exact .inside hi (hbelow hk)
  | prepared _ he hentry hk =>
    refine .prepared hi (Or.inr ?_) hentry hk
    rcases he with rfl | he
    · exact hdirect
    · exact hbelow he

/-- No entry point is generated wherever it stands. -/
theorem isAside_of_isProgram (h : g.isProgram i = true) : g.isAside i = false := by
  have htype : (g.node i).type = Target.microPython.entryType :=
    (Job.isEntry_iff (j := ⟨g, Target.microPython.backend⟩) rfl).mp h
  rw [isAside, htype]
  exact Target.microPython.not_alwaysEmitted_entryType

end Graph

/-! ## Imports before use -/

namespace Job

variable {g : Graph} {calls : List NodeId} {codes : List Code} {s : Run} {steps : List Step}

/-- The job of turning a graph into MicroPython. -/
def microPython (g : Graph) : Job :=
  ⟨g, Target.microPython.backend⟩

/-- The facility is imported in the end, or the code of the block has its word from a field. -/
def Warranted (g : Graph) (s : Run) (i : NodeId) (f : Facility) : Prop :=
  f.importEntry ∈ s.declarations.entries ∨ ∃ k, g.TakesFrom i k ∧ g.Mentions k f

/-- The code of each block names what is warranted for it, and so does each line of the setup for one
of the blocks that prepare such lines. -/
def warranting (g : Graph) (steps : List Step) (s : Run) : Contract where
  code i c := c.NamesOnly (Warranted g s i)
  declared _ := True
  prepared text := ∃ i ∈ Step.blocks steps, g.isAside i = true ∧ NamesOnly (Warranted g s i) text

theorem supplied_blocks (g : Graph) (i : NodeId) : Supplied [] (declarations (microPython g) i) := by
  simp only [declarations, microPython, node]
  cases hget : Target.microPython.backend.generators.get? (g.node i).type with
  | none => exact .nil
  | some gen =>
    simp only [Generator.declarations]
    split
    · exact .nil
    · rw [Target.eq_of_get? hget]
      exact BlockKind.supplied_declarations _ _

/-- What is declared after generate calls is declared by a block that they come to. -/
theorem exists_block_of_declared
    (hcourse : Course (microPython g) (calls.mapM Script.generate) {} steps codes s)
    {e : String × String} (he : e ∈ s.declarations.entries) :
    ∃ i ∈ Step.blocks steps, ∃ kind, e ∈ BlockKind.declarations .microPython (g.node i) kind := by
  have hscript := Script.Declares.mapM fun i (_ : i ∈ calls) => Script.declares_generate i
  rcases hcourse.mem_declarations_cases hscript he with hstart | hown | ⟨i, hi, hei⟩
  · cases hstart
  · cases hown
  · exact ⟨i, hi, exists_kind_of_mem_declarations hei⟩

/-- The import that a symbol stands for is registered under it. -/
theorem mem_importEntry
    (hcourse : Course (microPython g) (calls.mapM Script.generate) {} steps codes s)
    {f : Facility} {entries : List (String × String)} (hentries : entries ⊆ s.declarations.entries)
    (h : f.importEntry.1 ∈ entries.map (·.1)) : f.importEntry ∈ entries := by
  obtain ⟨e, he, hsymbol⟩ := List.mem_map.mp h
  obtain ⟨i, -, kind, hkind⟩ := exists_block_of_declared hcourse (hentries he)
  exact BlockKind.eq_importEntry hkind hsymbol ▸ he

/-- A block that is generated has what its kind needs imported. -/
theorem import_of_block
    (hcourse : Course (microPython g) (calls.mapM Script.generate) {} steps codes s) {i : NodeId}
    (hi : i ∈ Step.blocks steps) {kind : BlockKind}
    (hkind : ((g.node i).type, kind) ∈ Target.microPython.typeKinds)
    (hin : kind.isGuarded = true →
      g.isInside Target.microPython.backend.containers i = true) {f : Facility}
    (hf : f ∈ kind.facilities) : f.importEntry ∈ s.declarations.entries := by
  have hstep := hcourse.precedes.inStep_declarations Collector.inStep_empty
  refine mem_importEntry hcourse (List.Subset.refl _) (hstep.contains_iff.mp ?_)
  refine hcourse.contains_declaration hi ?_
  have hguard : (kind.isGuarded && !g.isInside Target.microPython.backend.containers i) = false := by
    cases hguarded : kind.isGuarded with
    | false => rfl
    | true => simp [hin hguarded]
  simp only [declarations, microPython, node, Target.get?_of_mem_typeKinds hkind,
    Generator.declarations, hguard, Bool.false_eq_true, if_false]
  rw [BlockKind.declarations_microPython]
  exact List.mem_append_left _ (List.mem_map_of_mem hf)

/-- Every facility that is used after the steps of a run is imported, and those that declarations use
are imported above them, unless the author wrote the word into a field. -/
structure ImportsFirst (g : Graph) (steps : List Step) (s : Run) : Prop where
  /-- What is declared under the name of an object constructs it for the pin of a generated block,
  below the imports of the classes that it takes.  Any other class it names stands in the field of
  that block that gives the pin. -/
  constructions : ∀ front e back, s.declarations.entries = front ++ e :: back →
    ∀ d : Device, d.Begins e.1 → ∃ i ∈ Step.blocks steps, ∃ pin, e = d.declaration pin ∧
      (∀ f ∈ d.facilities, f.importEntry ∈ front) ∧
      ∀ f : Facility, f.NamedIn e.2 → f ∈ d.facilities ∨
        f.NamedIn pin ∧ (g.node i).fields.get? "PIN" = some pin
  /-- What the kind of a generated block needs is imported; a block that needs a container and has
  none turns into nothing. -/
  kinds : ∀ i ∈ Step.blocks steps, ∀ kind, ((g.node i).type, kind) ∈ Target.microPython.typeKinds →
    (kind.isGuarded = true → g.isInside Target.microPython.backend.containers i = true) →
    ∀ f ∈ kind.facilities, f.importEntry ∈ s.declarations.entries
  /-- What the code of a generated block names is imported, or is a word in a field of that block, of
  one inside of it, or, for entry points, of one that prepares a line of the setup. -/
  code : ∀ step ∈ steps, ∀ i, step.request = .generate i →
    ∃ code after, play? (microPython g) (Script.generate i) step.run = some (code, after) ∧
      ∀ f : Facility, f.NamedIn code.text →
        f.importEntry ∈ s.declarations.entries ∨ ∃ k, g.TakesFrom i k ∧ g.Mentions k f
  /-- What a line of the setup names is imported, or is a word in a field of the block that prepared
  the line. -/
  setups : ∀ e ∈ s.setups.entries, ∃ i ∈ Step.blocks steps, g.isAside i = true ∧
    ∀ f : Facility, f.NamedIn e.2 → f.importEntry ∈ s.declarations.entries ∨ g.Mentions i f

theorem constructions_supplied
    (hcourse : Course (microPython g) (calls.mapM Script.generate) {} steps codes s)
    {front back : List (String × String)} {e : String × String}
    (hsplit : s.declarations.entries = front ++ e :: back) {d : Device} (hd : d.Begins e.1) :
    ∃ i ∈ Step.blocks steps, ∃ pin, e = d.declaration pin ∧
      (∀ f ∈ d.facilities, f.importEntry ∈ front) ∧
      ∀ f : Facility, f.NamedIn e.2 → f ∈ d.facilities ∨
        f.NamedIn pin ∧ (g.node i).fields.get? "PIN" = some pin := by
  have hscript := Script.Declares.mapM fun i (_ : i ∈ calls) => Script.declares_generate i
  have he : e ∈ s.declarations.entries := hsplit ▸ List.mem_append_right _ List.mem_cons_self
  obtain ⟨i, hi, kind, hkind⟩ := exists_block_of_declared hcourse he
  obtain ⟨fallback, hfallback, rfl⟩ := BlockKind.exists_declaration_of_begins hkind hd
  have hnone : Supplied [] [] := .nil
  have hsupplied : Supplied [] s.declarations.entries :=
    hcourse.supplied (supplied_blocks g) hscript hnone (fun _ hmem => absurd hmem List.not_mem_nil)
      Collector.inStep_empty hnone
  refine ⟨i, hi, _, rfl, fun f hf => ?_, fun f hf => ?_⟩
  · have hfront : front ⊆ s.declarations.entries := hsplit ▸ List.subset_append_left _ _
    refine mem_importEntry hcourse hfront ?_
    exact (hsupplied front _ back hsplit d hd f hf).resolve_left List.not_mem_nil
  · refine (Device.named_declaration hf).imp_right fun hpin => ⟨hpin, ?_⟩
    exact Node.get?_of_namedIn_fieldOr hfallback hpin

/-- What is warranted for a block inside is warranted for the block around it. -/
theorem Warranted.of_permits (h : g.IsForest) {i c : NodeId} {f : Facility}
    (hc : Permits (microPython g) i (.generate c)) (hf : Warranted g s c f) : Warranted g s i f := by
  have hcontains : g.Contains i c := contains_of_permits hc
  have hi : g.isAside i = false := by
    rcases hc with ⟨gen, hget, hleaf, -⟩ | ⟨-, hplain | hreport⟩
    · rw [← Bool.not_eq_true]
      intro haside
      have hkind := (Target.alwaysEmitted_iff (Target.mem_typeKinds_of_get? hget)).mp haside
      rw [BlockKind.isLeaf_of_mem_alwaysEmittedKinds hkind] at hleaf
      cases hleaf
    · exact hplain.elim
    · cases hreport
  refine hf.imp_right fun hword => ?_
  obtain ⟨k, hk, hmentions⟩ := hword
  exact ⟨k, hk.of_contains h hi hcontains, hmentions⟩

/-- What is warranted for a block that is generated wherever it stands is warranted for entry
points. -/
theorem Warranted.of_isAside {i c : NodeId} {f : Facility} (hi : g.isProgram i = true)
    (hc : g.isAside c = true) (hf : Warranted g s c f) : Warranted g s i f := by
  refine hf.imp_right fun hword => ?_
  obtain ⟨k, hk, hmentions⟩ := hword
  obtain rfl := hk.eq_of_isAside hc
  exact ⟨k, .prepared (g.isAside_of_isProgram hi) (Or.inl rfl) hi hc, hmentions⟩

/-- The blocks of a run keep to what is imported in the end, and to what the author wrote. -/
theorem obeys_warranting (h : g.IsForest)
    (hcourse : Course (microPython g) (calls.mapM Script.generate) {} steps codes s) :
    ∀ i ∈ Step.blocks steps, ((microPython g).blockScript i).Obeys (warranting g steps s)
      ((warranting g steps s).code i) := by
  intro i hi
  have hwords : ∀ k, g.TakesFrom i k → (g.node k).NamesOnly (Warranted g s i) :=
    fun k hk e he f hf => Or.inr ⟨k, hk, e, he, hf⟩
  have hobeys : ((microPython g).blockScript i).Obeys
      (naming (Warranted g s i) (warranting g steps s).prepared)
      (Code.NamesOnly (Warranted g s i)) := by
    refine obeys_naming rfl (hwords i .own) (fun haside k hk => hwords k (.inside haside hk))
      (fun haside text htext => ⟨i, hi, haside, htext⟩) (fun hentry text htext f hf => ?_)
      fun kind hkind hin f hf => Or.inl (import_of_block hcourse hi hkind hin hf)
    obtain ⟨c, -, hc, honly⟩ := htext
    exact (honly f hf).of_isAside hentry hc
  -- A script is granted the code of the blocks inside of its own, and of the pass if it makes it.
  have hexchange : ∀ {Q : Request → Prop},
      ((microPython g).blockScript i).Asks (Permits (microPython g) i) Q false →
      (∀ c, Q (.generate c) → ∀ f, Warranted g s c f → Warranted g s i f) →
      ((microPython g).blockScript i).Obeys (warranting g steps s)
        (Code.NamesOnly (Warranted g s i)) := by
    intro Q hasks hpass
    refine hobeys.exchange hasks (fun r hr => ?_) fun r hr reply hreply => ?_
    · cases r with
      | declare => trivial
      | _ => exact hr
    · cases r with
      | generate c =>
        refine Code.NamesOnly.mono (fun f => ?_) hreply
        exact hr.elim (fun hpermits => Warranted.of_permits h hpermits) (fun hq => hpass c hq f)
      | _ => exact hreply
  cases hentry : (microPython g).isEntry i with
  | true =>
    refine hexchange ((microPython g).asks_blockScript i) fun c hc f => ?_
    exact Warranted.of_isAside hentry (List.mem_filter.mp hc).2
  | false =>
    have hnone := ((microPython g).asks_blockScript i).closed (R := fun _ => False)
      fun _ => ne_beginPass_of_permits rfl hentry
    exact hexchange hnone fun _ hfalse => hfalse.elim

theorem importsFirst (h : g.Built)
    (hcourse : Course (microPython g) (calls.mapM Script.generate) {} steps codes s) :
    ImportsFirst g steps s := by
  have hblocks := obeys_warranting h.isForest hcourse
  have hscript : (calls.mapM Script.generate).Obeys (warranting g steps s) fun _ => True :=
    (Script.Obeys.mapM fun i (_ : i ∈ calls) =>
      (Script.obeys_generate i).mono fun _ _ => trivial).mono fun _ _ => trivial
  have hempty : (warranting g steps s).Kept {} :=
    ⟨fun _ ht => (nomatch ht), fun _ ht => (nomatch ht)⟩
  refine ⟨fun front e back hsplit d hd => constructions_supplied hcourse hsplit hd,
    fun i hi kind hkind hin f hf => import_of_block hcourse hi hkind hin hf, ?_, ?_⟩
  · intro step hstep i hi
    obtain ⟨inside, c, s₁, hinside, hcode⟩ := hcourse.code_kept hblocks hscript hempty hstep hi
    refine ⟨c, s₁, ?_, hcode.text⟩
    rw [play?_generate (j := microPython g) h.isForest]
    exact hinside.play?_eq h.isForest
  · intro e he
    obtain ⟨-, hkept⟩ := hcourse.kept hblocks hscript hempty
    obtain ⟨i, hi, haside, honly⟩ := hkept.setups e.2 (List.mem_map_of_mem he)
    refine ⟨i, hi, haside, fun f hf => (honly f hf).imp_right fun hword => ?_⟩
    obtain ⟨k, hk, hmentions⟩ := hword
    exact hk.eq_of_isAside haside ▸ hmentions

end Job

/-- **Imports come before use.**  Whatever blocks of a graph are generated, in whatever order, the
declarations that construct objects for pins stand below the imports of the classes that they name,
and whatever a block names in its code or in the setup is imported; words that the author wrote into
the fields of that block, or of one whose code becomes part of its own, are the exception. -/
theorem Graph.Built.imports_before_use {g : Graph} (h : g.Built) (calls : List NodeId) :
    ∃ codes s, Job.play? (Job.microPython g) (calls.mapM Script.generate) {} = some (codes, s) ∧
      Job.ImportsFirst g (Job.steps (Job.microPython g) (calls.mapM Script.generate) {}) s := by
  obtain ⟨codes, s, hplay⟩ :=
    Job.exists_play? (j := Job.microPython g) h.isForest (calls.mapM Script.generate) {}
  exact ⟨codes, s, hplay, Job.importsFirst h (Job.course_of_play? hplay)⟩

/-- An entry point whose loop sets the level of a pin. -/
def fadeDraft : Draft :=
  [.node "main" "micropython_entry", .node "fade" "io_analogwrite",
    .setBody 0 "LOOP" [1]].foldl (fun d e => Draft.Edit.apply e d) {}

theorem fadeDraft_reachable : fadeDraft.Reachable :=
  Draft.reachable_of_edits rfl

theorem Graph.Built.imports_before_use_fade :
    fadeDraft.toGraph.Built ∧ ∃ codes s,
      Job.play? (Job.microPython fadeDraft.toGraph) ([0].mapM Script.generate) {} =
        some (codes, s) ∧
      [Facility.pin.importEntry, Facility.pwm.importEntry] ⊆ s.declarations.entries := by
  have hbuilt := fadeDraft_reachable.built rfl
  obtain ⟨codes, s, hplay, hfirst⟩ := hbuilt.imports_before_use [0]
  refine ⟨hbuilt, codes, s, hplay, ?_⟩
  have hneeds := hfirst.kinds 1 (by decide) .analogWrite (by decide) (by decide)
  intro e he
  rcases List.mem_pair.mp he with rfl | rfl
  · exact hneeds .pin (by decide)
  · exact hneeds .pwm (by decide)

/-- A block for an output pin that the author gave as a call. -/
def crossedDraft : Draft :=
  [.node "write" "io_digitalwrite", .setField 0 "PIN" "ADC(3)"].foldl
    (fun d e => Draft.Edit.apply e d) {}

theorem crossedDraft_reachable : crossedDraft.Reachable :=
  Draft.reachable_of_edits rfl

/-- **What stands in a field is not looked at.**  The declaration for an output pin given as `ADC(3)`
names a class that is not imported. -/
theorem Graph.pin_names_other_class :
    crossedDraft.toGraph.Built ∧ ∃ codes s,
      Job.play? (Job.microPython crossedDraft.toGraph) ([0].mapM Script.generate) {} =
        some (codes, s) ∧
      s.declarations.entries = [("import_pin", "from machine import Pin"),
        ("pin_out_ADC_3_", "pin_out_ADC_3_ = Pin(ADC(3), Pin.OUT)")] ∧
      Device.output.Begins "pin_out_ADC_3_" ∧
      Facility.adc.NamedIn "pin_out_ADC_3_ = Pin(ADC(3), Pin.OUT)" ∧
      Facility.adc.importEntry ∉ s.declarations.entries := by
  refine ⟨crossedDraft_reachable.built rfl, _, _, rfl, ?_, ?_, ?_, ?_⟩ <;> decide +kernel

end BlockCompiler
