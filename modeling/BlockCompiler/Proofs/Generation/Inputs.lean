import BlockCompiler.Proofs.Expression.Integer
import BlockCompiler.Proofs.Generation.Census
import BlockCompiler.Proofs.Generation.Orders
import BlockCompiler.Proofs.Generation.Timers
import BlockCompiler.Proofs.Text.Indent

/-!
# Numbered inputs

The branches of a conditional and the arguments of a call stand in slots whose names end in
a number.  How many there are is read off the names, which are kept in the order of their
characters, where 10 comes before 9; a generator then makes up the names again, number by
number.  For names that hold their numbers as they are written (`Node.IsCanonical`) the two
directions agree: the count is one more than the greatest number (`Node.isInputCount_slotCount`),
and the input with number `k` is what the slot of that number gives, whichever slots before it
are filled (`Graph.Built.inputs_numbered`).

What a slot gives is said by the code of the blocks in it: an expression stands for itself, and
statements stand one step further in, line by line (`Target.body`).
-/

namespace BlockCompiler

open Text

/-! ## Numbers in names -/

namespace Whole

/-- The text reads as a number: digits, with or without a plus sign in front. -/
def IsNumeral (s : String) : Prop :=
  ∃ digits : List Char, digits ≠ [] ∧ (∀ c ∈ digits, c.isDigit = true) ∧
    (s.toList = digits ∨ s.toList = '+' :: digits)

/-- Only digits are read as a number, and at least one of them. -/
theorem natural?_eq_some {digits : List Char} {k : Nat} (h : natural? digits = some k) :
    digits ≠ [] ∧ ∀ c ∈ digits, c.isDigit = true := by
  rw [natural?] at h
  split at h
  · rename_i hdigits
    rw [Bool.and_eq_true, List.all_eq_true] at hdigits
    refine ⟨?_, hdigits.2⟩
    rintro rfl
    exact absurd hdigits.1 (by decide)
  · cases h

/-- A number may have a plus sign in front. -/
theorem isNumeral_of_unsigned? {s : String} {k : Nat} (h : unsigned? s.toList = some k) :
    IsNumeral s := by
  unfold unsigned? at h
  split at h
  · rename_i digits hplus
    obtain ⟨hne, hdigit⟩ := natural?_eq_some (Option.filter_eq_some_iff.mp h).1
    exact ⟨digits, hne, hdigit, Or.inr hplus⟩
  · obtain ⟨hne, hdigit⟩ := natural?_eq_some (Option.filter_eq_some_iff.mp h).1
    exact ⟨s.toList, hne, hdigit, Or.inl rfl⟩

/-- A number is read back from its digits. -/
theorem natural?_repr (k : Nat) : natural? k.repr.toList = some k := by
  rw [Nat.repr, String.toList_ofList]
  exact natural?_toDigits k

theorem isNumeral_repr (k : Nat) : IsNumeral k.repr := by
  obtain ⟨hne, hdigit⟩ := natural?_eq_some (natural?_repr k)
  exact ⟨k.repr.toList, hne, hdigit, Or.inl rfl⟩

/-- A number is read back from its digits. -/
theorem unsigned?_repr {k : Nat} (h : k < UInt64.size) : unsigned? k.repr.toList = some k := by
  unfold unsigned?
  split
  · rename_i rest hplus
    have hdigit := (natural?_eq_some (natural?_repr k)).2
    exact absurd (hdigit '+' (hplus ▸ List.mem_cons_self)) (by decide)
  · show Option.filter _ (natural? k.repr.toList) = some k
    rw [natural?_repr, Option.filter_some, if_pos (decide_eq_true h)]

end Whole

/-- What comes after the start of a name is what has to be added to it. -/
theorem Text.afterStart?_eq_some_iff {start name rest : String} :
    afterStart? start name = some rest ↔ name = start ++ rest := by
  rw [afterStart?]
  constructor
  · intro h
    split at h
    · rename_i hstart
      obtain ⟨tail, htail⟩ := List.isPrefixOf_iff_prefix.mp hstart
      cases h
      rw [← htail, List.drop_left, ← String.toList_inj, String.toList_append, String.toList_ofList,
        htail]
    · cases h
  · rintro rfl
    rw [String.toList_append, if_pos (List.isPrefixOf_iff_prefix.mpr (List.prefix_append _ _)),
      List.drop_left, String.ofList_toList]

namespace Node

variable {n : Node} {starts : List String}

/-- The names of the slots. -/
def slotNames (n : Node) : List String :=
  n.values.names ++ n.statements.names

/-- There is a slot with the number. -/
def IsNumbered (n : Node) (starts : List String) (k : Nat) : Prop :=
  ∃ start ∈ starts, start ++ k.repr ∈ n.slotNames

/-- The numbers in the names of slots are written without a sign or leading zeros, and the one after
each of them is in range. -/
def IsCanonical (n : Node) (starts : List String) : Prop :=
  ∀ start ∈ starts, ∀ rest, start ++ rest ∈ n.slotNames → Whole.IsNumeral rest →
    ∃ k, rest = Nat.repr k ∧ k + 1 < UInt64.size

/-- The least number from `least` on that is greater than the numbers of all slots. -/
structure IsInputCount (n : Node) (starts : List String) (least count : Nat) : Prop where
  least_le : least ≤ count
  lt_of_isNumbered : ∀ k, n.IsNumbered starts k → k < count
  attained : count = least ∨ ∃ k, n.IsNumbered starts k ∧ count = k + 1

/-- No name begins in two ways. -/
def StartApart (starts : List String) : Prop :=
  ∀ a ∈ starts, ∀ b ∈ starts, ∀ x y, a ++ x = b ++ y → a = b

/-- The start of a name is found, whichever others are tried before. -/
theorem findSome?_afterStart? (hapart : StartApart starts) {start rest : String}
    (h : start ∈ starts) :
    starts.findSome? (Text.afterStart? · (start ++ rest)) = some rest := by
  cases hfind : starts.findSome? (Text.afterStart? · (start ++ rest)) with
  | none =>
    have hnone := List.findSome?_eq_none_iff.mp hfind start h
    rw [Text.afterStart?_eq_some_iff.mpr rfl] at hnone
    cases hnone
  | some found =>
    obtain ⟨other, hother, hfound⟩ := List.exists_of_findSome?_eq_some hfind
    have hname := Text.afterStart?_eq_some_iff.mp hfound
    obtain rfl := hapart start h other hother _ _ hname
    rw [String.append_right_inj] at hname
    rw [hname]

/-- A slot with a canonical name has the number that its name was made up with. -/
theorem slotNumber?_eq_some_iff (hapart : StartApart starts) (hcanonical : n.IsCanonical starts)
    {name : String} (hname : name ∈ n.slotNames) {k : Nat} :
    slotNumber? starts name = some k ↔ ∃ start ∈ starts, name = start ++ k.repr := by
  constructor
  · intro h
    obtain ⟨rest, hrest, hnumber⟩ := Option.bind_eq_some_iff.mp h
    obtain ⟨start, hstart, hafter⟩ := List.exists_of_findSome?_eq_some hrest
    obtain rfl := Text.afterStart?_eq_some_iff.mp hafter
    obtain ⟨m, rfl, hm⟩ :=
      hcanonical start hstart rest hname (Whole.isNumeral_of_unsigned? hnumber)
    rw [Whole.unsigned?_repr (Nat.lt_of_succ_lt hm)] at hnumber
    cases hnumber
    exact ⟨start, hstart, rfl⟩
  · rintro ⟨start, hstart, rfl⟩
    obtain ⟨m, hm, hrange⟩ := hcanonical start hstart k.repr hname (Whole.isNumeral_repr k)
    obtain rfl := BlockKind.repr_injective hm
    rw [slotNumber?, findSome?_afterStart? hapart hstart]
    exact Whole.unsigned?_repr (Nat.lt_of_succ_lt hrange)

/-- So the numbers that are read off all slots are those of the slots that there are. -/
theorem mem_slotNumbers_iff (hapart : StartApart starts) (hcanonical : n.IsCanonical starts)
    {k : Nat} : k ∈ n.slotNames.filterMap (slotNumber? starts) ↔ n.IsNumbered starts k := by
  rw [List.mem_filterMap]
  constructor
  · rintro ⟨name, hname, hnumber⟩
    obtain ⟨start, hstart, rfl⟩ := (slotNumber?_eq_some_iff hapart hcanonical hname).mp hnumber
    exact ⟨start, hstart, hname⟩
  · rintro ⟨start, hstart, hname⟩
    exact ⟨_, hname, (slotNumber?_eq_some_iff hapart hcanonical hname).mpr ⟨start, hstart, rfl⟩⟩

/-- A greatest number is found: no other is greater, and it is one of them. -/
theorem foldl_max_cases (xs : List Nat) (least : Nat) :
    least ≤ xs.foldl max least ∧ (∀ x ∈ xs, x ≤ xs.foldl max least) ∧
      (xs.foldl max least = least ∨ xs.foldl max least ∈ xs) := by
  induction xs generalizing least with
  | nil => simp
  | cons x rest ih =>
    obtain ⟨hleast, hrest, hattained⟩ := ih (max least x)
    rw [List.foldl_cons]
    refine ⟨by omega, List.forall_mem_cons.mpr ⟨by omega, hrest⟩, ?_⟩
    rcases hattained with hstart | hmem
    · rcases Nat.le_total least x with hle | hle
      · rw [hstart, Nat.max_eq_right hle]
        exact Or.inr List.mem_cons_self
      · rw [hstart, Nat.max_eq_left hle]
        exact Or.inl rfl
    · exact Or.inr (List.mem_cons_of_mem _ hmem)

/-- **The inputs are counted by their numbers**, in whatever order their names come. -/
theorem isInputCount_slotCount (hapart : StartApart starts) (hcanonical : n.IsCanonical starts) :
    n.IsInputCount starts 0 (n.slotCount starts) := by
  obtain ⟨hleast, hle, hattained⟩ :=
    foldl_max_cases ((n.slotNames.filterMap (slotNumber? starts)).map (· + 1)) 0
  refine ⟨hleast, fun k hk => ?_, hattained.imp_right fun hmem => ?_⟩
  · exact hle (k + 1) (List.mem_map_of_mem ((mem_slotNumbers_iff hapart hcanonical).mpr hk))
  · obtain ⟨k, hk, hcount⟩ := List.mem_map.mp hmem
    exact ⟨k, (mem_slotNumbers_iff hapart hcanonical).mp hk, hcount.symm⟩

/-- A count that starts from nought becomes one that starts from `least`. -/
theorem IsInputCount.max {least count : Nat} (h : n.IsInputCount starts 0 count) :
    n.IsInputCount starts least (Max.max count least) where
  least_le := Nat.le_max_right _ _
  lt_of_isNumbered k hk := Nat.lt_of_lt_of_le (h.lt_of_isNumbered k hk) (Nat.le_max_left _ _)
  attained := by
    rcases Nat.le_total count least with hle | hle
    · exact Or.inl (Nat.max_eq_right hle)
    · rw [Nat.max_eq_left hle]
      rcases h.attained with rfl | hattained
      · exact Or.inl (Nat.le_zero.mp hle).symm
      · exact Or.inr hattained

end Node

/-! ## What slots give -/

/-- The text of an expression, or `fallback` where there is none. -/
def Code.valueOr (fallback : String) : Code → String
  | .expression text _ => if text.isEmpty then fallback else text
  | .statement _ => fallback

namespace Target

/-- A text as a statement of one line. -/
def ended : Target → String → String
  | arduino, text => text ++ ";\n"
  | microPython, text => text ++ "\n"

/-- The code of a block as statements: an expression is made one. -/
def statements (t : Target) : Code → String
  | .statement text => text
  | .expression text _ => if text.isEmpty then "" else t.ended text

/-- Statements as a body: their lines one step further in.  A body must not be empty in
MicroPython. -/
def body : Target → String → String
  | arduino, inner => unlines ((lines inner).map (furtherIn "  "))
  | microPython, inner =>
    if blank inner then "    pass\n" else unlines ((lines inner).map (furtherIn "    "))

end Target

namespace Job

variable {j : Job} {t : Target} {n : Node} {slot fallback text : String} {s s' : Run}

/-- The run after code was taken for a value: a statement is passed over, with a notice. -/
def afterValue (j : Job) (n : Node) (slot : String) (child : NodeId) : Code → Run → Run
  | .expression .., s => s
  | .statement text, s =>
    if text.isEmpty then s else s.notice (.statementAsValue (j.node child).type slot n.key)

/-- A value slot gives the text: that of the block in it, or `fallback` if there is none. -/
inductive GivesValue (j : Job) (n : Node) (slot fallback : String) : Run → String → Run → Prop
  | unfilled (h : n.values.get? slot = none) (s : Run) : GivesValue j n slot fallback s fallback s
  | filled {child : NodeId} {s after : Run} {code : Code} (h : n.values.get? slot = some child)
      (hcode : j.play? (Script.generate child) s = some (code, after)) :
      GivesValue j n slot fallback s (code.valueOr fallback) (j.afterValue n slot child code after)

/-- The blocks in a statement slot, in their order. -/
def slotChain (j : Job) (n : Node) (slot : String) : List NodeId :=
  ((n.statements.get? slot).map j.graph.chain).getD []

/-- A statement slot gives the text: the statements of its blocks, which are generated one after the
other, as a body. -/
def GivesBody (j : Job) (t : Target) (n : Node) (slot : String) (s : Run) (text : String)
    (s' : Run) : Prop :=
  ∃ codes, j.InTurn Script.generate (j.slotChain n slot) codes s s' ∧
    text = t.body (String.join (codes.map t.statements))

/-- Playing the script of a value slot gives the code of the block in it, or the fallback. -/
theorem givesValue_of_play? (hforest : j.graph.IsForest)
    (h : j.play? (j.valueCode n slot Order.loosest fallback) s = some (text, s')) :
    j.GivesValue n slot fallback s text s' := by
  rw [valueCode, play?_bind] at h
  obtain ⟨⟨value, s₁⟩, hvalue, hpure⟩ := Option.bind_eq_some_iff.mp h
  cases hpure
  unfold valueCode? at hvalue
  cases hslot : n.values.get? slot with
  | none =>
    rw [hslot] at hvalue
    cases hvalue
    exact .unfilled hslot _
  | some child =>
    rw [hslot] at hvalue
    dsimp only at hvalue
    rw [play?_bind] at hvalue
    obtain ⟨⟨code, after⟩, hcode, hrest⟩ := Option.bind_eq_some_iff.mp hvalue
    have hfilled : j.GivesValue n slot fallback s _ _ := .filled hslot hcode
    cases code with
    | expression content inner =>
      cases hrest
      -- At the loosest order no parentheses are put around the text.
      have hbare := (isBare_of_play? hforest hcode).parenthesize_eq
      cases hempty : content.isEmpty <;>
        simpa [Code.valueOr, hempty, afterValue, hbare] using hfilled
    | statement content =>
      dsimp only at hrest
      -- Whether there is a notice depends on the text; the value is the fallback either way.
      cases hempty : content.isEmpty <;> rw [hempty] at hrest <;> cases hrest <;>
        simpa [Code.valueOr, afterValue, hempty] using hfilled

/-- What holds one after the other of scripts holds of what is made from their results. -/
theorem InTurn.of_result {α β γ : Type} {f : α → Script β} {F : β → γ} {xs : List α} {zs : List γ}
    (h : j.InTurn (fun x => do return F (← f x)) xs zs s s') :
    ∃ ys, zs = ys.map F ∧ j.InTurn f xs ys s s' := by
  obtain ⟨ys, rfl, hturn⟩ := h.of_map_result (r := fun _ => F) fun _ => rfl
  refine ⟨ys, ?_, hturn⟩
  rw [← List.map_uncurry_zip_eq_zipWith]
  show (xs.zip ys).map (F ∘ Prod.snd) = ys.map F
  rw [← List.map_map, List.map_snd_zip hturn.length_eq.le]

/-- The blocks of a sequence are generated in turn, and their statements joined. -/
theorem exists_of_play?_chainCode {head : NodeId}
    (h : j.play? (j.chainCode head) s = some (text, s')) :
    ∃ codes, j.InTurn Script.generate (j.graph.chain head) codes s s' ∧
      text = String.join (codes.map j.statementText) := by
  rw [chainCode, play?_bind] at h
  obtain ⟨⟨texts, s₁⟩, htexts, hpure⟩ := Option.bind_eq_some_iff.mp h
  cases hpure
  obtain ⟨codes, rfl, hcodes⟩ := (inTurn_of_play? htexts).of_result
  exact ⟨codes, hcodes, rfl⟩

/-- An empty slot gives the empty text, as an empty sequence would. -/
theorem exists_of_play?_slotCode (h : j.play? (j.slotCode n slot) s = some (text, s')) :
    ∃ codes, j.InTurn Script.generate (j.slotChain n slot) codes s s' ∧
      text = j.indent (String.join (codes.map j.statementText)) := by
  unfold slotCode at h
  unfold slotChain
  cases hslot : n.statements.get? slot with
  | none =>
    rw [hslot] at h
    cases h
    exact ⟨[], .nil s, rfl⟩
  | some head =>
    rw [hslot] at h
    dsimp only at h
    rw [play?_bind] at h
    obtain ⟨⟨joined, s₁⟩, hjoined, hpure⟩ := Option.bind_eq_some_iff.mp h
    cases hpure
    obtain ⟨codes, hcodes, rfl⟩ := exists_of_play?_chainCode hjoined
    exact ⟨codes, hcodes, rfl⟩

end Job

/-! ### Bodies line by line -/

/-- A text is blank if all its lines are. -/
theorem Text.all_isBlank_iff {cs : List Char} :
    cs.all isBlank = true ↔ ∀ line ∈ splitLines cs, line.all isBlank = true := by
  fun_induction splitLines cs with
  | case1 => simp
  | case2 rest ih | case3 rest ih =>
    rw [List.forall_mem_cons, ← ih]
    simp [isBlank]
  | case4 c rest hcr hlf hnil ih =>
    obtain rfl := splitLines_eq_nil_iff.mp hnil
    simp
  | case5 c rest hcr hlf line lines hsplit ih =>
    rw [hsplit, List.forall_mem_cons] at ih
    rw [List.forall_mem_cons, List.all_cons, List.all_cons, Bool.and_eq_true, Bool.and_eq_true, ih,
      and_assoc]

/-- Moving its lines in does not fill an empty body. -/
theorem Text.blank_indent {unit : String} (hunit : blank unit = true) (s : String) :
    blank (indent unit s) = blank s := by
  have hline : ∀ line : List Char, (furtherIn unit (String.ofList line) ++ "\n").toList.all isBlank =
      line.all isBlank := by
    intro line
    cases line with
    | nil =>
      show (furtherIn unit "" ++ "\n").toList.all isBlank = true
      rw [furtherIn_empty]
      decide
    | cons c rest =>
      have hne : String.ofList (c :: rest) ≠ "" := by
        rw [ne_eq, ← String.toList_eq_nil_iff, String.toList_ofList]
        exact List.cons_ne_nil _ _
      have hblank : unit.toList.all isBlank = true := hunit
      rw [furtherIn_of_ne unit hne, String.toList_append, String.toList_append, String.toList_ofList,
        List.all_append, List.all_append, hblank, Bool.true_and]
      exact Bool.and_true _
  have hlines : blank s = true ↔ ∀ line ∈ splitLines s.toList, line.all isBlank = true :=
    all_isBlank_iff
  rw [Bool.eq_iff_iff, hlines, blank, indent_eq_unlines, unlines, lines, String.toList_join,
    List.map_map, List.map_map, List.flatMap_map, List.all_flatMap, List.all_eq_true]
  simp only [Function.comp_apply, hline]

namespace Job

variable {g : Graph} {t : Target} {n : Node} {slot text : String} {s s' : Run}

theorem line_eq_ended (text : String) : line ⟨g, t.backend⟩ text = t.ended text := by
  cases t with
  | arduino => exact String.append_assoc
  | microPython => exact congrArg (· ++ "\n") (String.append_empty (s := text))

/-- Every target makes statements of code in its own way. -/
theorem statementText_eq (c : Code) : statementText ⟨g, t.backend⟩ c = t.statements c := by
  cases c with
  | statement text => rfl
  | expression text order => rw [statementText, Target.statements, line_eq_ended]

theorem indent_arduino (inner : String) :
    indent ⟨g, Target.arduino.backend⟩ inner = Target.arduino.body inner :=
  indent_eq_unlines "  " inner

/-- Where there is nothing to move in, the filler stands. -/
theorem fillBody_microPython (inner : String) :
    fillBody ⟨g, Target.microPython.backend⟩ (indent ⟨g, Target.microPython.backend⟩ inner) =
      Target.microPython.body inner := by
  have hblank : blank (Text.indent "    " inner) = blank inner := blank_indent (by decide) inner
  have hpass : Text.indent "    " ("pass" ++ "" ++ "\n") = "    pass\n" := by decide
  show (if blank (Text.indent "    " inner) then Text.indent "    " ("pass" ++ "" ++ "\n")
    else Text.indent "    " inner) = _
  rw [hblank, hpass, indent_eq_unlines]
  rfl

/-- A slot on the Arduino. -/
theorem givesBody_of_play?_slotCode
    (h : play? ⟨g, Target.arduino.backend⟩ (slotCode ⟨g, Target.arduino.backend⟩ n slot) s =
      some (text, s')) :
    GivesBody ⟨g, Target.arduino.backend⟩ .arduino n slot s text s' := by
  obtain ⟨codes, hcodes, rfl⟩ := exists_of_play?_slotCode h
  refine ⟨codes, hcodes, ?_⟩
  rw [indent_arduino, List.map_congr_left fun c _ => statementText_eq c]

/-- A slot in MicroPython. -/
theorem givesBody_of_play?_bodyCode
    (h : play? ⟨g, Target.microPython.backend⟩ (bodyCode ⟨g, Target.microPython.backend⟩ n slot) s =
      some (text, s')) :
    GivesBody ⟨g, Target.microPython.backend⟩ .microPython n slot s text s' := by
  rw [bodyCode, play?_bind] at h
  obtain ⟨⟨inner, s₁⟩, hinner, hpure⟩ := Option.bind_eq_some_iff.mp h
  cases hpure
  obtain ⟨codes, hcodes, rfl⟩ := exists_of_play?_slotCode hinner
  refine ⟨codes, hcodes, ?_⟩
  rw [fillBody_microPython, List.map_congr_left fun c _ => statementText_eq c]

variable {j : Job}

/-- Scripts with numbers, one after the other: what each comes to, and the runs in between. -/
theorem InTurn.exists_runs {β : Type} [Inhabited β] {f : Nat → Script β} {first count : Nat}
    {ys : List β} (h : j.InTurn f (List.range' first count) ys s s') :
    ∃ (value : Nat → β) (runs : Nat → Run), ys = (List.range' first count).map value ∧
      runs first = s ∧ runs (first + count) = s' ∧
      ∀ k, first ≤ k → k < first + count → j.play? (f k) (runs k) = some (value k, runs (k + 1)) := by
  induction count generalizing first ys s with
  | zero =>
    cases h
    exact ⟨fun _ => default, fun _ => s', rfl, rfl, rfl, fun k hle hlt => absurd hle (by omega)⟩
  | succ count ih =>
    rw [List.range'_succ] at h
    cases h with
    | @cons _ _ y ys _ s₁ _ hfirst hrest =>
      obtain ⟨value, runs, rfl, hstart, hend, hplays⟩ := ih hrest
      -- The first script is put in front of what the induction gives for the others.
      refine ⟨fun k => if k = first then y else value k, fun k => if k = first then s else runs k,
        ?_, if_pos rfl, ?_, ?_⟩
      · rw [List.range'_succ, List.map_cons, if_pos rfl]
        refine congrArg _ (List.map_congr_left fun k hk => ?_)
        have hne : k ≠ first := by
          have := (List.mem_range'_1.mp hk).1
          omega
        rw [if_neg hne]
      · dsimp only
        rw [if_neg (by omega), ← hend]
        congr 1
        omega
      · intro k hle hlt
        dsimp only
        rw [if_neg (by omega : k + 1 ≠ first)]
        by_cases hk : k = first
        · subst hk
          rw [if_pos rfl, if_pos rfl, hstart]
          exact hfirst
        · rw [if_neg hk, if_neg hk]
          exact hplays k (by omega) (by omega)

end Job

/-! ## Conditionals and calls -/

namespace Target

/-- A branch of a conditional. -/
def branch (t : Target) (k : Nat) (condition body : String) : String :=
  match t with
  | arduino =>
    (if k = 0 then "if" else " else if") ++ " (" ++ condition ++ ") \x7b\n" ++ body ++ "\x7d"
  | microPython => (if k = 0 then "if" else "elif") ++ " " ++ condition ++ ":\n" ++ body

/-- The end of a conditional: what it does otherwise, if anything. -/
def otherwise (t : Target) (last : Option String) : String :=
  match t with
  | arduino => (last.map fun body => " else \x7b\n" ++ body ++ "\x7d").getD "" ++ "\n"
  | microPython => (last.map fun body => "else:\n" ++ body).getD ""

end Target

namespace Job

variable {g : Graph} {t : Target} {n : Node} {k : Nat} {text : String} {s s' : Run}

/-- What a conditional does otherwise, if that slot is filled. -/
def GivesOtherwise (j : Job) (t : Target) (n : Node) (s : Run) (last : Option String)
    (s' : Run) : Prop :=
  match last with
  | none => n.statements.contains "ELSE" = false ∧ s' = s
  | some body => n.statements.contains "ELSE" = true ∧ j.GivesBody t n "ELSE" s body s'

/-- A branch on the Arduino: first its condition, then its body. -/
theorem braceBranch_of_play? (hforest : g.IsForest)
    (h : play? ⟨g, Target.arduino.backend⟩ (Blocks.braceBranch ⟨g, Target.arduino.backend⟩ n k) s =
      some (text, s')) :
    ∃ condition middle body,
      GivesValue ⟨g, Target.arduino.backend⟩ n ("IF" ++ k.repr) "false" s condition middle ∧
      GivesBody ⟨g, Target.arduino.backend⟩ .arduino n ("DO" ++ k.repr) middle body s' ∧
      text = Target.arduino.branch k condition body := by
  rw [Blocks.braceBranch, play?_bind] at h
  obtain ⟨⟨condition, middle⟩, hcondition, h⟩ := Option.bind_eq_some_iff.mp h
  rw [play?_bind] at h
  obtain ⟨⟨body, s₁⟩, hbody, hpure⟩ := Option.bind_eq_some_iff.mp h
  cases hpure
  exact ⟨condition, middle, body, givesValue_of_play? hforest hcondition,
    givesBody_of_play?_slotCode hbody, rfl⟩

/-- A branch in MicroPython: first its condition, then its body. -/
theorem colonBranch_of_play? (hforest : g.IsForest)
    (h : play? ⟨g, Target.microPython.backend⟩
      (Blocks.colonBranch ⟨g, Target.microPython.backend⟩ n k) s = some (text, s')) :
    ∃ condition middle body,
      GivesValue ⟨g, Target.microPython.backend⟩ n ("IF" ++ k.repr) "False" s condition middle ∧
      GivesBody ⟨g, Target.microPython.backend⟩ .microPython n ("DO" ++ k.repr) middle body s' ∧
      text = Target.microPython.branch k condition body := by
  rw [Blocks.colonBranch, play?_bind] at h
  obtain ⟨⟨condition, middle⟩, hcondition, h⟩ := Option.bind_eq_some_iff.mp h
  rw [play?_bind] at h
  obtain ⟨⟨body, s₁⟩, hbody, hpure⟩ := Option.bind_eq_some_iff.mp h
  cases hpure
  exact ⟨condition, middle, body, givesValue_of_play? hforest hcondition,
    givesBody_of_play?_bodyCode hbody, rfl⟩

/-- The last branch is written if its slot is filled. -/
theorem braceOtherwise_of_play?
    (h : play? ⟨g, Target.arduino.backend⟩ (Blocks.braceOtherwise ⟨g, Target.arduino.backend⟩ n) s =
      some (text, s')) :
    ∃ last, GivesOtherwise ⟨g, Target.arduino.backend⟩ .arduino n s last s' ∧
      text ++ "\n" = Target.arduino.otherwise last := by
  unfold Blocks.braceOtherwise at h
  split at h
  · rename_i hfilled
    rw [play?_bind] at h
    obtain ⟨⟨body, s₁⟩, hbody, hpure⟩ := Option.bind_eq_some_iff.mp h
    cases hpure
    exact ⟨some body, ⟨hfilled, givesBody_of_play?_slotCode hbody⟩, rfl⟩
  · rename_i hunfilled
    cases h
    exact ⟨none, ⟨Bool.eq_false_iff.mpr hunfilled, rfl⟩, rfl⟩

theorem colonOtherwise_of_play?
    (h : play? ⟨g, Target.microPython.backend⟩
      (Blocks.colonOtherwise ⟨g, Target.microPython.backend⟩ n) s = some (text, s')) :
    ∃ last, GivesOtherwise ⟨g, Target.microPython.backend⟩ .microPython n s last s' ∧
      text = Target.microPython.otherwise last := by
  unfold Blocks.colonOtherwise at h
  split at h
  · rename_i hfilled
    rw [play?_bind] at h
    obtain ⟨⟨body, s₁⟩, hbody, hpure⟩ := Option.bind_eq_some_iff.mp h
    cases hpure
    exact ⟨some body, ⟨hfilled, givesBody_of_play?_bodyCode hbody⟩, rfl⟩
  · rename_i hunfilled
    cases h
    exact ⟨none, ⟨Bool.eq_false_iff.mpr hunfilled, rfl⟩, rfl⟩

/-- The code is a conditional with `count` branches in the order of their numbers.  Branch `k` is made
of what the slots with that number give, each on the run that the slot before left, and what is to be
done otherwise comes last. -/
def WritesBranches (j : Job) (t : Target) (n : Node) (count : Nat) (s : Run) (code : Code)
    (s' : Run) : Prop :=
  ∃ (condition body : Nat → String) (runs middle : Nat → Run) (last : Option String),
    runs 0 = s ∧
    (∀ k < count,
      j.GivesValue n ("IF" ++ k.repr) (t.truth false) (runs k) (condition k) (middle k) ∧
      j.GivesBody t n ("DO" ++ k.repr) (middle k) (body k) (runs (k + 1))) ∧
    j.GivesOtherwise t n (runs count) last s' ∧
    code = .statement
      (String.join ((List.range count).map fun k => t.branch k (condition k) (body k)) ++
        t.otherwise last)

/-- The text is a call with `count` arguments in the order of their numbers.  Argument `k` is what the
slot with that number gives, on the run that the one before left. -/
def WritesArguments (j : Job) (t : Target) (n : Node) (count : Nat) (s : Run) (text : String)
    (s' : Run) : Prop :=
  ∃ (argument : Nat → String) (runs : Nat → Run),
    runs 0 = s ∧ runs count = s' ∧
    (∀ k < count,
      j.GivesValue n ("ARG" ++ k.repr) t.noArgument (runs k) (argument k) (runs (k + 1))) ∧
    text = Blocks.nameField n "NAME" "do_something" ++ "(" ++
      ", ".intercalate ((List.range count).map argument) ++ ")"

/-- Branches that are written one after the other. -/
theorem exists_branches {j : Job} {count : Nat} {f : Nat → Script String} {branches : List String}
    (hbranch : ∀ k text s s', j.play? (f k) s = some (text, s') → ∃ condition middle body,
      j.GivesValue n ("IF" ++ k.repr) (t.truth false) s condition middle ∧
      j.GivesBody t n ("DO" ++ k.repr) middle body s' ∧ text = t.branch k condition body)
    (h : j.play? ((List.range count).mapM f) s = some (branches, s')) :
    ∃ (condition body : Nat → String) (runs middle : Nat → Run),
      runs 0 = s ∧ runs count = s' ∧
      (∀ k < count,
        j.GivesValue n ("IF" ++ k.repr) (t.truth false) (runs k) (condition k) (middle k) ∧
        j.GivesBody t n ("DO" ++ k.repr) (middle k) (body k) (runs (k + 1))) ∧
      branches = (List.range count).map fun k => t.branch k (condition k) (body k) := by
  have hturn := inTurn_of_play? h
  rw [List.range_eq_range'] at hturn ⊢
  obtain ⟨text, runs, rfl, hstart, hend, hplays⟩ := hturn.exists_runs
  rw [Nat.zero_add] at hend
  have hparts : ∀ k, k < count → ∃ condition middle body,
      j.GivesValue n ("IF" ++ k.repr) (t.truth false) (runs k) condition middle ∧
      j.GivesBody t n ("DO" ++ k.repr) middle body (runs (k + 1)) ∧
      text k = t.branch k condition body :=
    fun k hk => hbranch k _ _ _ (hplays k (Nat.zero_le k) (by omega))
  have hrun : Nonempty Run := ⟨{}⟩
  -- Each branch has its parts; together they are functions of the number.
  choose! condition middle body hcondition hbody htext using hparts
  refine ⟨condition, body, runs, middle, hstart, hend, fun k hk => ⟨hcondition k hk, hbody k hk⟩, ?_⟩
  refine List.map_congr_left fun k hk => htext k ?_
  have hrange := List.mem_range'_1.mp hk
  omega

/-- A conditional writes its branches by number, and the last branch after them. -/
theorem writesBranches_of_play? (hforest : g.IsForest) {code : Code}
    (h : play? ⟨g, t.backend⟩ (Blocks.conditional t ⟨g, t.backend⟩ n) s = some (code, s')) :
    WritesBranches ⟨g, t.backend⟩ t n (Blocks.branchCount n) s code s' := by
  cases t with
  | arduino =>
    rw [Blocks.conditional, play?_bind] at h
    obtain ⟨⟨branches, s₁⟩, hbranches, h⟩ := Option.bind_eq_some_iff.mp h
    rw [play?_bind] at h
    obtain ⟨⟨text, s₂⟩, htext, hpure⟩ := Option.bind_eq_some_iff.mp h
    cases hpure
    obtain ⟨condition, body, runs, middle, hstart, hend, hslots, rfl⟩ :=
      exists_branches (t := .arduino) (fun _ _ _ _ => braceBranch_of_play? hforest) hbranches
    obtain ⟨last, hlast, hotherwise⟩ := braceOtherwise_of_play? htext
    refine ⟨condition, body, runs, middle, last, hstart, hslots, ?_, ?_⟩
    · rw [hend]
      exact hlast
    · rw [← hotherwise, ← String.append_assoc]
  | microPython =>
    rw [Blocks.conditional, play?_bind] at h
    obtain ⟨⟨branches, s₁⟩, hbranches, h⟩ := Option.bind_eq_some_iff.mp h
    rw [play?_bind] at h
    obtain ⟨⟨text, s₂⟩, htext, hpure⟩ := Option.bind_eq_some_iff.mp h
    cases hpure
    obtain ⟨condition, body, runs, middle, hstart, hend, hslots, rfl⟩ :=
      exists_branches (t := .microPython) (fun _ _ _ _ => colonBranch_of_play? hforest) hbranches
    obtain ⟨last, hlast, rfl⟩ := colonOtherwise_of_play? htext
    refine ⟨condition, body, runs, middle, last, hstart, hslots, ?_, rfl⟩
    rw [hend]
    exact hlast

/-- A call writes its arguments by number. -/
theorem writesArguments_of_play? {j : Job} (hforest : j.graph.IsForest)
    (h : j.play? (Blocks.call t j n) s = some (text, s')) :
    j.WritesArguments t n (n.slotCount ["ARG"]) s text s' := by
  rw [Blocks.call, play?_bind] at h
  obtain ⟨⟨args, s₁⟩, hargs, hpure⟩ := Option.bind_eq_some_iff.mp h
  cases hpure
  have hturn := inTurn_of_play? hargs
  rw [List.range_eq_range'] at hturn
  obtain ⟨argument, runs, rfl, hstart, hend, hplays⟩ := hturn.exists_runs
  rw [Nat.zero_add] at hend
  refine ⟨argument, runs, hstart, hend, fun k hk => ?_, ?_⟩
  · exact givesValue_of_play? hforest (hplays k (Nat.zero_le k) (by omega))
  · rw [List.range_eq_range']

end Job

theorem Node.startApart_branches : StartApart ["IF", "DO"] := by
  intro a ha b hb x y h
  rw [← String.toList_inj, String.toList_append, String.toList_append] at h
  rcases List.mem_pair.mp ha with rfl | rfl <;> rcases List.mem_pair.mp hb with rfl | rfl
  · rfl
  · cases h
  · cases h
  · rfl

theorem Node.startApart_arguments : StartApart ["ARG"] := by
  intro a ha b hb x y _
  rw [List.mem_singleton.mp ha, List.mem_singleton.mp hb]

namespace Graph

variable {g : Graph} {t : Target} {i : NodeId}

/-- Inside of a container the script of a conditional is that of its generator. -/
theorem blockScript_conditional (htype : (g.node i).type = "controls_if")
    (hinside : g.isInside t.backend.containers i = true) :
    Job.blockScript ⟨g, t.backend⟩ i = Blocks.conditional t ⟨g, t.backend⟩ (g.node i) := by
  have hkind : ((g.node i).type, BlockKind.conditional) ∈ t.typeKinds := by
    rw [htype]
    cases t <;> decide
  rw [Job.blockScript_of_mem hkind]
  exact Job.guarded_of_inside (j := ⟨g, t.backend⟩) hinside (Blocks.conditional t _ (g.node i))

theorem blockScript_callStatement (htype : (g.node i).type = "procedures_callnoreturn") :
    Job.blockScript ⟨g, t.backend⟩ i = Blocks.callStatement t ⟨g, t.backend⟩ (g.node i) := by
  have hkind : ((g.node i).type, BlockKind.callStatement) ∈ t.typeKinds := by
    rw [htype]
    cases t <;> decide
  rw [Job.blockScript_of_mem hkind]
  rfl

theorem blockScript_callExpression (htype : (g.node i).type = "procedures_callreturn") :
    Job.blockScript ⟨g, t.backend⟩ i = Blocks.callExpression t ⟨g, t.backend⟩ (g.node i) := by
  have hkind : ((g.node i).type, BlockKind.callExpression) ∈ t.typeKinds := by
    rw [htype]
    cases t <;> decide
  rw [Job.blockScript_of_mem hkind]
  rfl

/-- The text of a call, before it is made a statement or an expression. -/
theorem Built.exists_call (h : g.Built) (t : Target) (hcanonical : (g.node i).IsCanonical ["ARG"])
    (s : Run) :
    ∃ count text s', (g.node i).IsInputCount ["ARG"] 0 count ∧
      Job.play? ⟨g, t.backend⟩ (Blocks.call t ⟨g, t.backend⟩ (g.node i)) s = some (text, s') ∧
      Job.WritesArguments ⟨g, t.backend⟩ t (g.node i) count s text s' := by
  obtain ⟨text, s', hplay⟩ := Job.exists_play? (j := ⟨g, t.backend⟩) h.isForest
    (Blocks.call t ⟨g, t.backend⟩ (g.node i)) s
  exact ⟨_, text, s', Node.isInputCount_slotCount Node.startApart_arguments hcanonical, hplay,
    Job.writesArguments_of_play? (j := ⟨g, t.backend⟩) h.isForest hplay⟩

/-- **Numbered inputs are neither lost nor reordered.**  Where the numbers in the names of its slots
are canonical, a conditional inside a container has one branch more than the greatest number, and at
least one; a call has one argument more than the greatest number, and none if there are none.  Each
branch and argument is what the slots of its own number give. -/
theorem Built.inputs_numbered (h : g.Built) (t : Target) (i : NodeId) (s : Run) :
    ((g.node i).type = "controls_if" → g.isInside t.backend.containers i = true →
      (g.node i).IsCanonical ["IF", "DO"] →
      ∃ count code s', (g.node i).IsInputCount ["IF", "DO"] 1 count ∧
        Job.play? ⟨g, t.backend⟩ (Script.generate i) s = some (code, s') ∧
        Job.WritesBranches ⟨g, t.backend⟩ t (g.node i) count s code s') ∧
    ((g.node i).type = "procedures_callnoreturn" → (g.node i).IsCanonical ["ARG"] →
      ∃ count text s', (g.node i).IsInputCount ["ARG"] 0 count ∧
        Job.play? ⟨g, t.backend⟩ (Script.generate i) s =
          some (.statement (t.ended text), s') ∧
        Job.WritesArguments ⟨g, t.backend⟩ t (g.node i) count s text s') ∧
    ((g.node i).type = "procedures_callreturn" → (g.node i).IsCanonical ["ARG"] →
      ∃ count text s', (g.node i).IsInputCount ["ARG"] 0 count ∧
        Job.play? ⟨g, t.backend⟩ (Script.generate i) s =
          some (.expression text (t.order .call), s') ∧
        Job.WritesArguments ⟨g, t.backend⟩ t (g.node i) count s text s') := by
  have hgenerate := Job.play?_generate (j := ⟨g, t.backend⟩) h.isForest i s
  refine ⟨fun htype hinside hcanonical => ?_, fun htype hcanonical => ?_,
    fun htype hcanonical => ?_⟩
  · obtain ⟨code, s', hplay⟩ := Job.exists_play? (j := ⟨g, t.backend⟩) h.isForest
      (Blocks.conditional t ⟨g, t.backend⟩ (g.node i)) s
    refine ⟨_, code, s', ?_, ?_, Job.writesBranches_of_play? h.isForest hplay⟩
    · exact (Node.isInputCount_slotCount Node.startApart_branches hcanonical).max
    · rw [hgenerate, blockScript_conditional htype hinside]
      exact hplay
  · obtain ⟨count, text, s', hcount, hplay, hwrites⟩ := h.exists_call t hcanonical s
    refine ⟨count, text, s', hcount, ?_, hwrites⟩
    rw [hgenerate, blockScript_callStatement htype, Blocks.callStatement, Job.play?_bind, hplay,
      ← Job.line_eq_ended (g := g)]
    rfl
  · obtain ⟨count, text, s', hcount, hplay, hwrites⟩ := h.exists_call t hcanonical s
    refine ⟨count, text, s', hcount, ?_, hwrites⟩
    rw [hgenerate, blockScript_callExpression htype, Blocks.callExpression, Job.play?_bind, hplay]
    rfl

/-- A procedure with a conditional, of which the branch 10 is filled, and a call with the argument 1
only. -/
def gapDraft : Draft :=
  [.node "f" "procedures_defnoreturn", .node "choice" "controls_if",
    .node "call" "procedures_callnoreturn", .node "either" "logic_operation",
    .node "sum" "math_arithmetic", .node "end" "procedures_callnoreturn",
    .setBody 0 "STACK" [1, 2], .setField 3 "OP" "OR", .setField 5 "NAME" "stop",
    .setValue 1 "IF10" 3, .setBody 1 "DO10" [5], .setValue 2 "ARG1" 4].foldl
    (fun d e => Draft.Edit.apply e d) {}

theorem gapDraft_reachable : gapDraft.Reachable :=
  Draft.reachable_of_edits rfl

theorem isCanonical_choice : (gapDraft.toGraph.node 1).IsCanonical ["IF", "DO"] := by
  have hnames : (gapDraft.toGraph.node 1).slotNames = ["IF10", "DO10"] := by decide
  have hafter : ∀ start ∈ ["IF", "DO"], ∀ name ∈ ["IF10", "DO10"],
      Text.afterStart? start name ∈ [none, some "10"] := by decide
  intro start hstart rest hname _
  rw [hnames] at hname
  have hrest := hafter start hstart _ hname
  rw [Text.afterStart?_eq_some_iff.mpr rfl] at hrest
  have hten : rest = "10" := by simpa using hrest
  exact ⟨10, hten.trans (by decide), by decide⟩

theorem isCanonical_call : (gapDraft.toGraph.node 2).IsCanonical ["ARG"] := by
  have hnames : (gapDraft.toGraph.node 2).slotNames = ["ARG1"] := by decide
  have harg : Text.afterStart? "ARG" "ARG1" = some "1" := by decide
  intro start hstart rest hname _
  rw [List.mem_singleton.mp hstart, hnames, List.mem_singleton] at hname
  have hafter := Text.afterStart?_eq_some_iff.mpr hname.symm
  rw [harg] at hafter
  cases hafter
  exact ⟨1, by decide, by decide⟩

/-- What the conditional turns into: nothing is done before the branch 10. -/
def choiceText : Target → String
  | .arduino => "if (false) \x7b\n\x7d" ++
      String.join (List.replicate 9 " else if (false) \x7b\n\x7d") ++
      " else if (false || false) \x7b\n  stop();\n\x7d\n"
  | .microPython => "if False:\n    pass\n" ++
      String.join (List.replicate 9 "elif False:\n    pass\n") ++
      "elif False or False:\n    stop()\n"

/-- What the call turns into. -/
def callText : Target → String
  | .arduino => "do_something(0, 0 + 0)"
  | .microPython => "do_something(None, 0 + 0)"

/-- Both targets write the inputs that are missing as the values that stand in for them. -/
theorem play?_gapDraft (t : Target) :
    (Job.play? ⟨gapDraft.toGraph, t.backend⟩ (Script.generate 1) {}).map (·.1) =
        some (.statement (choiceText t)) ∧
      (Job.play? ⟨gapDraft.toGraph, t.backend⟩ (Script.generate 2) {}).map (·.1) =
        some (.statement (t.ended (callText t))) := by
  cases t <;> decide +kernel

/-- On both targets the gaps are filled and shift nothing. -/
theorem Built.inputs_numbered_gap :
    gapDraft.toGraph.Built ∧ ∀ t : Target,
      (∃ count s', 10 < count ∧
        Job.play? ⟨gapDraft.toGraph, t.backend⟩ (Script.generate 1) {} =
          some (.statement (choiceText t), s') ∧
        Job.WritesBranches ⟨gapDraft.toGraph, t.backend⟩ t (gapDraft.toGraph.node 1) count {}
          (.statement (choiceText t)) s') ∧
      ∃ count s', 1 < count ∧
        Job.play? ⟨gapDraft.toGraph, t.backend⟩ (Script.generate 2) {} =
          some (.statement (t.ended (callText t)), s') ∧
        Job.WritesArguments ⟨gapDraft.toGraph, t.backend⟩ t (gapDraft.toGraph.node 2) count {}
          (callText t) s' := by
  have hbuilt := gapDraft_reachable.built rfl
  refine ⟨hbuilt, fun t => ?_⟩
  obtain ⟨hchoice, hcall⟩ := play?_gapDraft t
  constructor
  · obtain ⟨count, code, s', hcount, hplay, hwrites⟩ := (hbuilt.inputs_numbered t 1 {}).1 (by decide)
      (by cases t <;> decide) isCanonical_choice
    rw [hplay] at hchoice
    cases hchoice
    exact ⟨count, s', hcount.lt_of_isNumbered 10 ⟨"IF", by decide, by decide⟩, hplay, hwrites⟩
  · obtain ⟨count, text, s', hcount, hplay, hwrites⟩ :=
      (hbuilt.inputs_numbered t 2 {}).2.1 (by decide) isCanonical_call
    rw [hplay] at hcall
    have hended : t.ended text = t.ended (callText t) := by simpa using hcall
    obtain rfl : text = callText t := by
      cases t <;> exact (String.append_left_inj _).mp hended
    exact ⟨count, s', hcount.lt_of_isNumbered 1 ⟨"ARG", by decide, by decide⟩, hplay, hwrites⟩

end Graph

end BlockCompiler
