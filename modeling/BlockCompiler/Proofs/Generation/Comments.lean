import BlockCompiler.Compile
import BlockCompiler.Proofs.Text.Indent

/-!
# Comments

A comment may be made of any text, also one of several lines.  Each line is marked on its
own, so the comment is a number of lines that all begin with the mark
(`Formatting.exists_marks`), as long as the mark is a line that shows.  That holds of both
targets (`Target.hasMark`), and so their banners and placeholders are comments throughout.
-/

namespace BlockCompiler

open Text

/-! ## Rows -/

namespace Text

/-- The pieces of a text between line feeds. -/
def rows (s : String) : List (List Char) :=
  s.toList.splitOn '\n'

theorem rows_append_feed (a b : String) : rows (a ++ "\n" ++ b) = rows a ++ rows b := by
  have htext : (a ++ "\n" ++ b).toList = a.toList ++ '\n' :: b.toList := by simp
  rw [rows, htext]
  exact List.splitOnP_append_cons _ _ (by decide)

theorem rows_of_oneLine {s : String} (h : OneLine s) : rows s = [s.toList] := by
  refine List.splitOnP_eq_singleton fun c hc => ?_
  rw [beq_eq_false_iff_ne]
  rintro rfl
  exact h hc

/-- Lines that are not blank, each ended by a line feed, are the rows of a text that ends
otherwise, and a line feed after it. -/
theorem exists_unlines_eq {texts : List String} (hne : texts ≠ []) (hline : ∀ s ∈ texts, OneLine s)
    (hfull : ∀ s ∈ texts, blank s = false) :
    ∃ body, unlines texts = body ++ "\n" ∧ rows body = texts.map String.toList ∧
      (∃ c, body.toList.getLast? = some c ∧ c ≠ '\n') ∧ blank body = false := by
  induction texts with
  | nil => exact absurd rfl hne
  | cons s rest ih =>
    obtain ⟨hs, hrest⟩ := List.forall_mem_cons.mp hline
    obtain ⟨hsfull, hrestfull⟩ := List.forall_mem_cons.mp hfull
    rw [unlines_cons]
    -- The last line has no line feed behind it, so it is where the induction ends.
    by_cases hnil : rest = []
    · subst hnil
      refine ⟨s, String.append_empty, rows_of_oneLine hs, ?_, hsfull⟩
      have hlist : s.toList ≠ [] := by
        intro hempty
        rw [String.toList_eq_nil_iff.mp hempty] at hsfull
        cases hsfull
      refine ⟨s.toList.getLast hlist, List.getLast?_eq_some_getLast hlist, fun hc => hs ?_⟩
      exact hc ▸ List.getLast_mem hlist
    · obtain ⟨body, hbody, hrows, ⟨c, hlast, hc⟩, hblank⟩ := ih hnil hrest hrestfull
      refine ⟨s ++ "\n" ++ body, ?_, ?_, ⟨c, ?_, hc⟩,
        blank_eq_false_of_occurs (occurs_append_right _ _) hblank⟩
      · rw [hbody, ← String.append_assoc]
      · rw [rows_append_feed, rows_of_oneLine hs, hrows]
        rfl
      · rw [String.toList_append, List.getLast?_append, hlast]
        rfl

end Text

/-! ## Marked lines -/

namespace Formatting

variable {f : Formatting}

/-- A line that begins with the mark shows it: the mark is one line, and not blank. -/
structure HasMark (f : Formatting) : Prop where
  oneLine : OneLine f.commentMark
  shown : blank f.commentMark = false

/-- With a line feed at its end the text is a comment: each of its lines begins with the mark. -/
structure Marks (f : Formatting) (body : String) : Prop where
  marked : ∀ row ∈ rows body, (f.commentMark ++ " ").toList <+: row
  ended : ∃ c, body.toList.getLast? = some c ∧ c ≠ '\n'
  shown : blank body = false

/-- A comment is lines that all begin with the mark, whatever its text is. -/
theorem exists_marks (hmark : f.HasMark) {text : String} (htext : text ≠ "") :
    ∃ body, f.comment text = body ++ "\n" ∧ f.Marks body := by
  set commented := (lines text).map fun line => f.commentMark ++ " " ++ line
  have hcomment : f.comment text = unlines commented := by
    rw [comment, mapLines, unlines, List.map_map]
    rfl
  have hne : commented ≠ [] := by
    rw [Ne, List.map_eq_nil_iff, lines, List.map_eq_nil_iff, splitLines_eq_nil_iff,
      String.toList_eq_nil_iff]
    exact htext
  have hline : ∀ s ∈ commented, OneLine s := by
    intro s hs
    obtain ⟨line, hmem, rfl⟩ := List.mem_map.mp hs
    obtain ⟨cs, hcs, rfl⟩ := List.mem_map.mp hmem
    refine (hmark.oneLine.append (by decide)).append ?_
    rw [OneLine, String.toList_ofList]
    exact not_mem_of_mem_splitLines hcs
  have hfull : ∀ s ∈ commented, blank s = false := by
    intro s hs
    obtain ⟨line, -, rfl⟩ := List.mem_map.mp hs
    exact blank_eq_false_of_occurs
      ((occurs_append_left _ _).trans (occurs_append_left _ _)) hmark.shown
  obtain ⟨body, hbody, hrows, hlast, hblank⟩ := exists_unlines_eq hne hline hfull
  refine ⟨body, hcomment.trans hbody, fun row hrow => ?_, hlast, hblank⟩
  rw [hrows] at hrow
  obtain ⟨s, hs, rfl⟩ := List.mem_map.mp hrow
  obtain ⟨line, -, rfl⟩ := List.mem_map.mp hs
  have happend : (f.commentMark ++ " " ++ line).toList =
      (f.commentMark ++ " ").toList ++ line.toList := String.toList_append
  rw [happend]
  exact List.prefix_append _ _

end Formatting

theorem Target.hasMark (t : Target) : t.formatting.HasMark := by
  cases t <;> exact ⟨by decide, by decide⟩

namespace Job

variable {j : Job}

/-- The placeholder of an orphan is a comment, whatever its type is. -/
theorem exists_marks_placeholder (h : j.formatting.HasMark) (type : String) :
    ∃ body, j.placeholder type = body ++ "\n" ∧ j.formatting.Marks body :=
  Formatting.exists_marks h (by simp [String.append_eq_empty_iff])

/-- The banner is a comment. -/
theorem exists_marks_banner (h : j.formatting.HasMark) :
    ∃ body, j.banner = body ++ "\n" ∧ j.formatting.Marks body :=
  Formatting.exists_marks h (by simp [String.append_eq_empty_iff])

end Job

end BlockCompiler
