import BlockCompiler.Backend
import BlockCompiler.Proofs.Text.Layout
import Mathlib.Data.List.Basic
import Mathlib.Logic.Function.Iterate

/-!
# Indentation

A text of whole lines without carriage returns before line feeds is nothing but its lines,
each ended by a line feed (`unlines_lines`), and indentation works on these lines one by one
(`indent_unlines`).  As long as the unit does not end a line itself, the lines of the result
are the lines that were moved (`isRow_furtherIn`), so indentation can be taken back
(`outdent?_unlines`) and repeated (`iterate_indent_unlines`).
-/

namespace BlockCompiler

namespace Text

/-! ## Rows -/

/-- The line can be told from its end: it has no line feed, and no carriage return at its end. -/
structure IsRow (line : String) : Prop where
  oneLine : OneLine line
  unreturned : line.toList.getLast? ≠ some '\r'

/-- The text with the given lines. -/
def unlines (rows : List String) : String :=
  String.join (rows.map (· ++ "\n"))

theorem unlines_cons (row : String) (rows : List String) :
    unlines (row :: rows) = row ++ "\n" ++ unlines rows := by
  rw [unlines, List.map_cons, String.join_cons]
  rfl

theorem lines_unlines {rows : List String} (h : ∀ row ∈ rows, IsRow row) :
    lines (unlines rows) = rows := by
  induction rows with
  | nil => rfl
  | cons row rows ih =>
    obtain ⟨hrow, hrows⟩ := List.forall_mem_cons.mp h
    have hsplit := splitLines_cons hrow.oneLine hrow.unreturned (unlines rows).toList
    have htext : (unlines (row :: rows)).toList = row.toList ++ '\n' :: (unlines rows).toList := by
      simp [unlines_cons]
    rw [lines, htext, hsplit, List.map_cons, String.ofList_toList]
    exact congrArg _ (ih hrows)

/-- A text of whole lines that has no carriage return before a line feed is made of its lines. -/
theorem flatMap_splitLines {cs : List Char} (hwhole : cs = [] ∨ cs.getLast? = some '\n')
    (hreturn : ¬ ['\r', '\n'] <:+: cs) : (splitLines cs).flatMap (· ++ ['\n']) = cs := by
  fun_induction splitLines cs with
  | case1 => rfl
  | case2 rest ih => exact absurd (List.prefix_append ['\r', '\n'] rest).isInfix hreturn
  | case3 rest ih =>
    have hrest : rest = [] ∨ rest.getLast? = some '\n' := by
      cases rest with
      | nil => exact Or.inl rfl
      | cons d rest => simpa using hwhole
    rw [List.flatMap_cons, ih hrest fun h => hreturn (h.trans (List.suffix_cons _ _).isInfix)]
    rfl
  | case4 c rest hcr hlf hnil ih =>
    -- The text would be a single character that is no line feed.
    obtain rfl := splitLines_eq_nil_iff.mp hnil
    exact absurd (by simpa using hwhole) hlf
  | case5 c rest hcr hlf line lines hsplit ih =>
    obtain ⟨d, tail, rfl⟩ : ∃ d tail, rest = d :: tail := by
      cases rest with
      | nil => cases hsplit
      | cons d tail => exact ⟨d, tail, rfl⟩
    have hrest := ih (Or.inr (by simpa using hwhole))
      fun h => hreturn (h.trans (List.suffix_cons _ _).isInfix)
    rw [hsplit, List.flatMap_cons] at hrest
    rw [List.flatMap_cons, List.cons_append, List.cons_append, hrest]

theorem unlines_lines {a : String} (hwhole : IsWhole a) (hreturn : ¬ ['\r', '\n'] <:+: a.toList) :
    unlines (lines a) = a := by
  have hwhole' : a.toList = [] ∨ a.toList.getLast? = some '\n' :=
    hwhole.imp_left fun h => String.toList_eq_nil_iff.mpr h
  apply String.toList_inj.mp
  rw [unlines, lines, List.map_map, String.toList_join, List.flatMap_map]
  simpa using flatMap_splitLines hwhole' hreturn

theorem isRow_of_mem_lines {a : String} (hwhole : IsWhole a)
    (hreturn : ¬ ['\r', '\n'] <:+: a.toList) {row : String} (hrow : row ∈ lines a) : IsRow row := by
  constructor
  · obtain ⟨line, hline, rfl⟩ := List.mem_map.mp hrow
    rw [OneLine, String.toList_ofList]
    exact not_mem_of_mem_splitLines hline
  · intro hlast
    -- The row and the line feed after it are part of the text.
    obtain ⟨front, hfront⟩ := List.getLast?_eq_some_iff.mp hlast
    obtain ⟨before, after, hsplit⟩ := occurs_join (List.mem_map_of_mem (f := (· ++ "\n")) hrow)
    refine hreturn ⟨before.toList ++ front, after.toList, ?_⟩
    rw [← unlines_lines hwhole hreturn, unlines, hsplit]
    simp [hfront]

/-! ## Lines further in -/

/-- The line one `unit` further in; an empty one stays as it is. -/
def furtherIn (unit line : String) : String :=
  if line.isEmpty then "" else unit ++ line

theorem furtherIn_empty (unit : String) : furtherIn unit "" = "" := rfl

theorem furtherIn_of_ne (unit : String) {line : String} (h : line ≠ "") :
    furtherIn unit line = unit ++ line :=
  if_neg fun hempty => h (String.isEmpty_iff.mp hempty)

theorem furtherIn_eq_empty_iff {unit line : String} : furtherIn unit line = "" ↔ line = "" := by
  by_cases h : line = ""
  · rw [h]
    exact iff_of_true rfl rfl
  · rw [furtherIn_of_ne unit h, String.append_eq_empty_iff]
    exact and_iff_right_of_imp fun hline => absurd hline h

theorem isRow_furtherIn {unit line : String} (hunit : OneLine unit) (h : IsRow line) :
    IsRow (furtherIn unit line) := by
  by_cases hempty : line = ""
  · rw [hempty, furtherIn_empty]
    exact ⟨by decide, by decide⟩
  · rw [furtherIn_of_ne unit hempty]
    refine ⟨hunit.append h.oneLine, ?_⟩
    have hne : line.toList ≠ [] := fun hnil => hempty (String.toList_eq_nil_iff.mp hnil)
    rw [String.toList_append, List.getLast?_append_of_ne_nil _ hne]
    exact h.unreturned

/-- Indentation moves each line of a text. -/
theorem indent_eq_unlines (unit s : String) :
    indent unit s = unlines ((lines s).map (furtherIn unit)) := by
  rw [indent, mapLines, unlines, List.map_map]
  rfl

theorem indent_unlines (unit : String) {rows : List String} (h : ∀ row ∈ rows, IsRow row) :
    indent unit (unlines rows) = unlines (rows.map (furtherIn unit)) := by
  rw [indent_eq_unlines, lines_unlines h]

/-- Units one after the other. -/
def units (unit : String) (count : Nat) : String :=
  String.join (List.replicate count unit)

theorem furtherIn_units_succ (unit : String) (count : Nat) (line : String) :
    furtherIn unit (furtherIn (units unit count) line) = furtherIn (units unit (count + 1)) line := by
  by_cases h : line = ""
  · rw [h]
    rfl
  · have hmoved : units unit count ++ line ≠ "" := fun hempty =>
      h (String.append_eq_empty_iff.mp hempty).2
    rw [furtherIn_of_ne _ h, furtherIn_of_ne _ h, furtherIn_of_ne _ hmoved, units, units,
      List.replicate_succ, String.join_cons, String.append_assoc]

/-- Each time the text is indented its lines move on by a unit. -/
theorem iterate_indent_unlines {unit : String} (hunit : OneLine unit) {rows : List String}
    (h : ∀ row ∈ rows, IsRow row) (count : Nat) :
    (indent unit)^[count] (unlines rows) = unlines (rows.map (furtherIn (units unit count))) ∧
      ∀ row ∈ rows.map (furtherIn (units unit count)), IsRow row := by
  induction count with
  | zero =>
    have hsame : ∀ row ∈ rows, furtherIn (units unit 0) row = row := by
      intro row _
      by_cases hempty : row = ""
      · rw [hempty]
        rfl
      · rw [furtherIn_of_ne _ hempty]
        exact String.empty_append
    rw [List.map_congr_left hsame, List.map_id']
    exact ⟨rfl, h⟩
  | succ count ih =>
    obtain ⟨htext, hrows⟩ := ih
    have hstep : rows.map (furtherIn (units unit (count + 1))) =
        (rows.map (furtherIn (units unit count))).map (furtherIn unit) := by
      rw [List.map_map]
      exact List.map_congr_left fun row _ => (furtherIn_units_succ unit count row).symm
    rw [Function.iterate_succ_apply', htext, indent_unlines unit hrows, hstep]
    refine ⟨rfl, fun row hrow => ?_⟩
    obtain ⟨line, hline, rfl⟩ := List.mem_map.mp hrow
    exact isRow_furtherIn hunit (hrows line hline)

/-! ## Lines further out -/

/-- The line without the unit at its beginning; an empty one stays as it is.  There is none if the
line begins otherwise. -/
def furtherOut? (unit line : String) : Option String :=
  if line.isEmpty then some "" else (line.toList.dropPrefix? unit.toList).map String.ofList

/-- Every line that is not empty one `unit` further out, if each of them begins with it. -/
def outdent? (unit s : String) : Option String :=
  ((lines s).mapM (furtherOut? unit)).map unlines

theorem furtherOut?_furtherIn (unit line : String) :
    furtherOut? unit (furtherIn unit line) = some line := by
  by_cases h : line = ""
  · rw [h]
    rfl
  · have hmoved : (unit ++ line).isEmpty = false := by
      rw [Bool.eq_false_iff, Ne, String.isEmpty_iff, String.append_eq_empty_iff]
      exact fun hempty => h hempty.2
    have hdrop : (unit ++ line).toList.dropPrefix? unit.toList = some line.toList :=
      List.dropPrefix?_eq_some_iff.mpr ⟨unit.toList, String.toList_append, BEq.rfl⟩
    rw [furtherIn_of_ne unit h, furtherOut?, hmoved, hdrop]
    exact congrArg some String.ofList_toList

theorem outdent?_unlines {unit : String} (hunit : OneLine unit) {rows : List String}
    (h : ∀ row ∈ rows, IsRow row) :
    outdent? unit (unlines (rows.map (furtherIn unit))) = some (unlines rows) := by
  have hrows : ∀ row ∈ rows.map (furtherIn unit), IsRow row := by
    intro row hrow
    obtain ⟨line, hline, rfl⟩ := List.mem_map.mp hrow
    exact isRow_furtherIn hunit (h line hline)
  have hback : (rows.map (furtherIn unit)).mapM (furtherOut? unit) = some rows := by
    have hpure : furtherOut? unit ∘ furtherIn unit = fun line => pure (id line) :=
      funext (furtherOut?_furtherIn unit)
    rw [List.mapM_map, hpure, List.mapM_pure, List.map_id]
    rfl
  rw [outdent?, lines_unlines hrows, hback]
  rfl

end Text

open Text

/-- **Indentation keeps the structure of lines.**  A text of whole lines, none of them ended by a
carriage return and a line feed, can be indented before or after another text is put behind it.  If
the unit of indentation does not end a line itself, the text has as many lines afterwards.  The
empty ones are those that were empty, and every other one is the unit followed by the line that was
there.  Taking one unit off each line that is not empty gives the text back.  To indent it a number
of times is to put as many units in front of each line that is not empty. -/
theorem Formatting.indent_shifts_lines (f : Formatting) {a : String} (hwhole : IsWhole a)
    (hreturn : ¬ ['\r', '\n'] <:+: a.toList) :
    (∀ b, f.indent (a ++ b) = f.indent a ++ f.indent b) ∧
    (OneLine f.indentUnit →
      (lines (f.indent a)).length = (lines a).length ∧
      (∀ k : Nat, (lines (f.indent a))[k]? = some "" ↔ (lines a)[k]? = some "") ∧
      (∀ (k : Nat) (line : String), (lines a)[k]? = some line → line ≠ "" →
        (lines (f.indent a))[k]? = some (f.indentUnit ++ line)) ∧
      outdent? f.indentUnit (f.indent a) = some a ∧
      ∀ count, lines (f.indent^[count] a) =
        (lines a).map (furtherIn (units f.indentUnit count))) := by
  refine ⟨fun b => indent_append _ hwhole b, fun hunit => ?_⟩
  have hrows : ∀ row ∈ lines a, IsRow row := fun _ => isRow_of_mem_lines hwhole hreturn
  have htext : unlines (lines a) = a := unlines_lines hwhole hreturn
  -- Indenting is moving lines; the rest follows from what moving does to one line.
  have hindent : f.indent a = unlines ((lines a).map (furtherIn f.indentUnit)) := by
    rw [← indent_unlines _ hrows, htext]
    rfl
  have hlines : lines (f.indent a) = (lines a).map (furtherIn f.indentUnit) := by
    rw [hindent]
    refine lines_unlines fun row hrow => ?_
    obtain ⟨line, hline, rfl⟩ := List.mem_map.mp hrow
    exact isRow_furtherIn hunit (hrows line hline)
  refine ⟨?_, fun k => ?_, fun k line hline hne => ?_, ?_, fun count => ?_⟩
  · rw [hlines, List.length_map]
  · rw [hlines, List.getElem?_map, Option.map_eq_some_iff]
    constructor
    · rintro ⟨line, hline, hempty⟩
      rw [hline, furtherIn_eq_empty_iff.mp hempty]
    · intro hline
      exact ⟨"", hline, furtherIn_empty _⟩
  · rw [hlines, List.getElem?_map, hline, Option.map_some, furtherIn_of_ne _ hne]
  · rw [hindent, outdent?_unlines hunit hrows, htext]
  · obtain ⟨hiterate, hmoved⟩ := iterate_indent_unlines hunit hrows count
    rw [htext] at hiterate
    rw [← lines_unlines hmoved, ← hiterate]
    rfl

/-- A line with a carriage return inside, an empty one and one of spaces, indented twice, and once
and back. -/
theorem Formatting.indent_shifts_lines_spaced :
    IsWhole "if x:\r#\n\n  \n" ∧ ¬ ['\r', '\n'] <:+: "if x:\r#\n\n  \n".toList ∧
      OneLine Target.microPython.formatting.indentUnit ∧
      lines (Target.microPython.formatting.indent^[2] "if x:\r#\n\n  \n") =
        ["        if x:\r#", "", "          "] ∧
      outdent? "    " (Target.microPython.formatting.indent "if x:\r#\n\n  \n") =
        some "if x:\r#\n\n  \n" := by
  have hwhole : IsWhole "if x:\r#\n\n  \n" := Or.inr rfl
  have hreturn : ¬ ['\r', '\n'] <:+: "if x:\r#\n\n  \n".toList := by simp [List.infix_cons_iff]
  have hunit : OneLine Target.microPython.formatting.indentUnit := by decide
  obtain ⟨-, hshifts⟩ :=
    Formatting.indent_shifts_lines Target.microPython.formatting hwhole hreturn
  obtain ⟨-, -, -, hback, hcount⟩ := hshifts hunit
  exact ⟨hwhole, hreturn, hunit, (hcount 2).trans rfl, hback⟩

/-- A unit that ends a line makes two lines of one, and cannot be taken off again. -/
theorem Formatting.indent_breaks_line :
    IsWhole "pass\n" ∧ ¬ ['\r', '\n'] <:+: "pass\n".toList ∧
      (lines (Formatting.indent { Target.microPython.formatting with indentUnit := "\n" }
        "pass\n")).length ≠
        (lines "pass\n").length ∧
      lines (Formatting.indent { Target.microPython.formatting with indentUnit := "\n" } "pass\n") =
        ["", "pass"] ∧
      outdent? "\n"
        (Formatting.indent { Target.microPython.formatting with indentUnit := "\n" } "pass\n") =
        none := by
  refine ⟨Or.inr rfl, by simp [List.infix_cons_iff], by decide, rfl, rfl⟩

end BlockCompiler
