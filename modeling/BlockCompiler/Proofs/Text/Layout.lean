import BlockCompiler.Proofs.Text.Lines
import Mathlib.Data.List.TakeWhile

/-!
# Layout by indentation

In a language laid out by indentation a line that ends in a colon opens a block, and the
next line has to be a statement of that block, one step further in.  `layered` says so of
a list of lines.

Texts of whole lines that are laid out (`IsLaid`) can be joined, cut at the line feeds
that end them, and put together with blank lines between them.  A *block* (`IsBlock`) is
laid out and, unless it is empty, begins with a statement at the left margin: it may be
moved one step in and put under a header (`isBlock_header`).

Pieces of a line are classified by the characters at their two ends: `Opening` is what a
statement may begin with, `Closing` what a statement may end in.
-/

namespace BlockCompiler.Text

/-! ## Lines -/

/-- The line holds something, and that is not a comment. -/
def isStatement (line : List Char) : Bool :=
  match line.dropWhile isBlank with
  | [] => false
  | c :: _ => c != '#'

/-- The line is a statement that ends in a colon. -/
def opensBlock (line : List Char) : Bool :=
  isStatement line && line.getLast? == some ':'

/-- The number of spaces that a line begins with. -/
def indentation (line : List Char) : Nat :=
  (line.takeWhile (· == ' ')).length

/-- The line after the header of a block is a statement `step` further in. -/
def follows (step : Nat) (line next : List Char) : Bool :=
  !opensBlock line || (isStatement next && indentation next == indentation line + step)

/-- After each header of a block comes a statement of it. -/
def layered (step : Nat) : List (List Char) → Bool
  | [] => true
  | [line] => !opensBlock line
  | line :: next :: rest => follows step line next && layered step (next :: rest)

variable {step : Nat}

/-- Lines that are laid out can be put below others that are: no header between them is left open,
as the first ones end in none. -/
theorem layered_append {a b : List (List Char)} (ha : layered step a = true)
    (hb : layered step b = true) : layered step (a ++ b) = true := by
  fun_induction layered step a with
  | case1 => exact hb
  | case2 line =>
    cases b with
    | nil => exact ha
    | cons next rest =>
      have hfollows : follows step line next = true := by rw [follows, ha, Bool.true_or]
      simp only [List.cons_append, List.nil_append, layered, hfollows, hb, Bool.and_self]
  | case3 line next rest ih =>
    obtain ⟨hfollows, hrest⟩ := Bool.and_eq_true_iff.mp ha
    have happend := ih hrest
    simp only [List.cons_append] at happend
    simp only [List.cons_append, layered, hfollows, happend, Bool.and_self]

/-- Lines that are no statements close whatever is open before them. -/
theorem layered_of_append {a b : List (List Char)} (hb : ∀ line ∈ b, isStatement line = false)
    (h : layered step (a ++ b) = true) : layered step a = true := by
  fun_induction layered step a with
  | case1 => rfl
  | case2 line =>
    cases b with
    | nil => exact h
    | cons next rest =>
      have hfollows : follows step line next = true := (Bool.and_eq_true_iff.mp h).1
      rw [follows, hb next List.mem_cons_self, Bool.false_and, Bool.or_false] at hfollows
      exact hfollows
  | case3 line next rest ih =>
    obtain ⟨hfollows, hrest⟩ := Bool.and_eq_true_iff.mp h
    rw [hfollows, Bool.true_and]
    exact ih hrest

/-- What `layered` says of a header at a given place. -/
theorem getElem?_succ_of_layered {ls : List (List Char)} (h : layered step ls = true) {k : Nat}
    {line : List Char} (hline : ls[k]? = some line) (hopens : opensBlock line = true) :
    ∃ next, ls[k + 1]? = some next ∧ isStatement next = true ∧
      indentation next = indentation line + step := by
  fun_induction layered step ls generalizing k with
  | case1 => simp at hline
  | case2 only =>
    obtain ⟨-, rfl⟩ : k = 0 ∧ only = line := by
      cases k <;> simp_all
    simp [hopens] at h
  | case3 first next rest ih =>
    obtain ⟨hfollows, hrest⟩ := Bool.and_eq_true_iff.mp h
    cases k with
    | zero =>
      obtain rfl : first = line := by simpa using hline
      refine ⟨next, rfl, ?_⟩
      simpa [follows, hopens] using hfollows
    | succ k =>
      obtain ⟨following, hget, hfacts⟩ := ih hrest (k := k) (by simpa using hline)
      exact ⟨following, by simpa using hget, hfacts⟩

/-- The line moved in by `step` spaces, unless it is empty. -/
def shift (step : Nat) (line : List Char) : List Char :=
  if line.isEmpty then [] else List.replicate step ' ' ++ line

/-- Moving a line in does not change what kind of line it is. -/
theorem isStatement_shift (line : List Char) : isStatement (shift step line) = isStatement line := by
  rw [shift]
  split
  · rename_i h
    rw [List.isEmpty_iff.mp h]
  · have hspaces : ∀ c ∈ List.replicate step ' ', isBlank c = true := by
      intro c hc
      rw [(List.mem_replicate.mp hc).2]
      rfl
    rw [isStatement, List.dropWhile_append_of_pos hspaces]
    rfl

theorem getLast?_shift (line : List Char) : (shift step line).getLast? = line.getLast? := by
  cases line with
  | nil => rfl
  | cons c rest =>
    have hlast : (c :: rest).getLast? = some ((c :: rest).getLast (List.cons_ne_nil c rest)) :=
      List.getLast?_eq_some_getLast _
    rw [shift, List.isEmpty_cons, if_neg Bool.false_ne_true, List.getLast?_append, hlast]
    rfl

theorem opensBlock_shift (line : List Char) : opensBlock (shift step line) = opensBlock line := by
  rw [opensBlock, isStatement_shift, getLast?_shift, opensBlock]

/-- A statement that is moved in has a step more of spaces before it. -/
theorem indentation_shift {line : List Char} (h : isStatement line = true) :
    indentation (shift step line) = indentation line + step := by
  cases line with
  | nil => cases h
  | cons c rest =>
    have hspaces : ∀ c ∈ List.replicate step ' ', (c == ' ') = true := by
      intro c hc
      rw [(List.mem_replicate.mp hc).2]
      rfl
    have hshift : shift step (c :: rest) = List.replicate step ' ' ++ c :: rest := rfl
    rw [hshift, indentation, List.takeWhile_append_of_pos hspaces, List.length_append,
      List.length_replicate, Nat.add_comm]
    rfl

theorem isStatement_of_opensBlock {line : List Char} (h : opensBlock line = true) :
    isStatement line = true :=
  (Bool.and_eq_true_iff.mp h).1

/-- Moving a header in together with its first statement keeps the step between them. -/
theorem follows_shift {line next : List Char} (h : follows step line next = true) :
    follows step (shift step line) (shift step next) = true := by
  rw [follows, opensBlock_shift, isStatement_shift]
  by_cases hopens : opensBlock line = true
  · have hnext : isStatement next = true ∧ indentation next = indentation line + step := by
      simpa [follows, hopens] using h
    simp [hopens, hnext.1, indentation_shift hnext.1, hnext.2,
      indentation_shift (isStatement_of_opensBlock hopens)]
  · simp [Bool.eq_false_iff.mpr hopens]

/-- Lines that are laid out stay so when they are moved in together. -/
theorem layered_map_shift {ls : List (List Char)} (h : layered step ls = true) :
    layered step (ls.map (shift step)) = true := by
  fun_induction layered step ls with
  | case1 => rfl
  | case2 line =>
    rw [List.map_singleton, layered, opensBlock_shift]
    exact h
  | case3 line next rest ih =>
    obtain ⟨hfollows, hrest⟩ := Bool.and_eq_true_iff.mp h
    rw [List.map_cons, List.map_cons, layered, follows_shift hfollows, Bool.true_and]
    exact ih hrest

/-! ## Lines of a text -/

/-- Lines hold no line feeds. -/
theorem not_mem_of_mem_splitLines {cs line : List Char} (h : line ∈ splitLines cs) :
    '\n' ∉ line := by
  fun_induction splitLines cs generalizing line with
  | case1 => cases h
  | case2 rest ih =>
    rcases List.mem_cons.mp h with rfl | h
    · exact List.not_mem_nil
    · exact ih h
  | case3 rest ih =>
    rcases List.mem_cons.mp h with rfl | h
    · exact List.not_mem_nil
    · exact ih h
  | case4 c rest hcr hlf hnil ih =>
    rw [List.mem_singleton.mp h, List.mem_singleton]
    exact fun hc => hlf hc.symm
  | case5 c rest hcr hlf first others hsplit ih =>
    rw [hsplit] at ih
    rcases List.mem_cons.mp h with rfl | h
    · have hfirst := ih List.mem_cons_self
      rw [List.mem_cons]
      rintro (hc | hmem)
      · exact hlf hc.symm
      · exact hfirst hmem
    · exact ih (List.mem_cons_of_mem _ h)

/-- The first line of a text, up to a carriage return at its end. -/
theorem splitLines_line_feed {cs : List Char} (h : '\n' ∉ cs) (rest : List Char) :
    ∃ line, splitLines (cs ++ '\n' :: rest) = line :: splitLines rest ∧
      (cs = line ∨ cs = line ++ ['\r']) := by
  induction cs with
  | nil => exact ⟨[], by simp [splitLines], Or.inl rfl⟩
  | cons c cs ih =>
    have hc : c ≠ '\n' := fun hc => h (hc ▸ List.mem_cons_self)
    have hcs : '\n' ∉ cs := fun hcs => h (List.mem_cons_of_mem _ hcs)
    by_cases hreturn : c = '\r' ∧ cs = []
    · obtain ⟨rfl, rfl⟩ := hreturn
      exact ⟨[], by simp [splitLines], Or.inr rfl⟩
    · have hfirst : ∀ after, c = '\r' → cs ++ '\n' :: rest = '\n' :: after → False := by
        intro after hcr hafter
        cases cs with
        | nil => exact hreturn ⟨hcr, rfl⟩
        | cons d cs =>
          obtain ⟨rfl, -⟩ := List.cons.inj hafter
          exact hcs List.mem_cons_self
      obtain ⟨line, hsplit, hline⟩ := ih hcs
      refine ⟨c :: line, ?_, ?_⟩
      · rw [List.cons_append, splitLines.eq_4 _ _ hfirst hc, hsplit]
      · rcases hline with rfl | rfl
        · exact Or.inl rfl
        · exact Or.inr rfl

/-- The first line of a text is cut off at its line feed. -/
theorem splitLines_cons {line : List Char} (hfeed : '\n' ∉ line)
    (hreturn : line.getLast? ≠ some '\r') (rest : List Char) :
    splitLines (line ++ '\n' :: rest) = line :: splitLines rest := by
  obtain ⟨first, hsplit, rfl | rfl⟩ := splitLines_line_feed hfeed rest
  · exact hsplit
  · simp at hreturn

/-- A step of indentation made of spaces. -/
def spaces (step : Nat) : String :=
  String.ofList (List.replicate step ' ')

theorem toList_indented (step : Nat) (line : List Char) :
    (if (String.ofList line).isEmpty then "" else spaces step ++ String.ofList line).toList =
      shift step line := by
  cases line with
  | nil => rfl
  | cons c rest => simp [shift, spaces, String.isEmpty_iff]

/-- No line of the text ends in a carriage return. -/
def IsClean (s : String) : Prop :=
  ∀ line ∈ splitLines s.toList, line.getLast? ≠ some '\r'

/-- Indentation moves a text in line by line. -/
theorem splitLines_indent {s : String} (h : IsClean s) :
    splitLines (indent (spaces step) s).toList = (splitLines s.toList).map (shift step) := by
  rw [indent, mapLines, lines, List.map_map]
  have hfeed : ∀ line ∈ splitLines s.toList, '\n' ∉ line := fun _ => not_mem_of_mem_splitLines
  rw [IsClean] at h
  generalize splitLines s.toList = ls at h hfeed
  induction ls with
  | nil => rfl
  | cons line ls ih =>
    have hrest := ih (fun l hl => h l (List.mem_cons_of_mem _ hl))
      (fun l hl => hfeed l (List.mem_cons_of_mem _ hl))
    have hline : '\n' ∉ shift step line := by
      have hfeed' := hfeed line List.mem_cons_self
      rw [shift]
      split <;> simp [hfeed', List.mem_replicate]
    have hreturn : (shift step line).getLast? ≠ some '\r' := by
      rw [getLast?_shift]
      exact h line List.mem_cons_self
    rw [List.map_cons, String.join_cons, String.toList_append, Function.comp_apply,
      String.toList_append, toList_indented, List.append_assoc]
    exact (splitLines_cons hline hreturn _).trans (congrArg _ hrest)

/-! ## Pieces of a line -/

/-- The text has no line feed. -/
def OneLine (s : String) : Prop :=
  '\n' ∉ s.toList

instance (s : String) : Decidable (OneLine s) :=
  inferInstanceAs (Decidable ('\n' ∉ s.toList))

/-- A statement may begin with the text: its first character is neither blank nor the mark of a
comment. -/
def Opening (s : String) : Prop :=
  OneLine s ∧ s.toList.head?.any (fun c => !isBlank c && c != '#') = true

instance (s : String) : Decidable (Opening s) :=
  inferInstanceAs (Decidable (_ ∧ _))

/-- A statement that opens no block may end in the text: its last character is neither blank nor a
colon. -/
def Closing (s : String) : Prop :=
  OneLine s ∧ s.toList.getLast?.any (fun c => !isBlank c && c != ':') = true

instance (s : String) : Decidable (Closing s) :=
  inferInstanceAs (Decidable (_ ∧ _))

/-- The text is a statement of one line that opens no block, or an expression. -/
def Inline (s : String) : Prop :=
  Opening s ∧ Closing s

instance (s : String) : Decidable (Inline s) :=
  inferInstanceAs (Decidable (_ ∧ _))

theorem OneLine.append {a b : String} (ha : OneLine a) (hb : OneLine b) : OneLine (a ++ b) := by
  rw [OneLine, String.toList_append, List.mem_append]
  exact fun h => h.elim ha hb

/-- Only the beginning of a line counts for how it opens. -/
theorem Opening.append {a b : String} (ha : Opening a) (hb : OneLine b) : Opening (a ++ b) := by
  refine ⟨ha.1.append hb, ?_⟩
  cases h : a.toList with
  | nil => simp [Opening, h] at ha
  | cons c rest => simpa [Opening, h] using ha.2

/-- Only the end of a line counts for how it closes. -/
theorem Closing.append {a b : String} (ha : OneLine a) (hb : Closing b) : Closing (a ++ b) := by
  refine ⟨ha.append hb.1, ?_⟩
  cases h : b.toList.getLast? with
  | none => simp [Closing, h] at hb
  | some c => simpa [Closing, h, List.getLast?_append] using hb.2

theorem Inline.oneLine {s : String} (h : Inline s) : OneLine s :=
  h.1.1

/-- A beginning and an end make a statement. -/
theorem Opening.inline {a b : String} (ha : Opening a) (hb : Closing b) : Inline (a ++ b) :=
  ⟨ha.append hb.1, hb.append ha.1⟩

theorem oneLine_intercalate {separator : String} (hseparator : OneLine separator)
    (texts : List String) (h : ∀ t ∈ texts, OneLine t) :
    OneLine (separator.intercalate texts) := by
  induction texts with
  | nil => exact List.not_mem_nil
  | cons t rest ih =>
    have hrest := ih fun u hu => h u (List.mem_cons_of_mem _ hu)
    cases rest with
    | nil =>
      rw [String.intercalate_singleton]
      exact h t List.mem_cons_self
    | cons u rest =>
      rw [String.intercalate_cons_cons]
      exact ((h t List.mem_cons_self).append hseparator).append hrest

/-- A list ends as its last member does. -/
theorem closing_intercalate {separator : String} (hseparator : OneLine separator)
    {texts : List String} (hne : texts ≠ []) (h : ∀ t ∈ texts, Closing t) :
    Closing (separator.intercalate texts) := by
  induction texts with
  | nil => exact absurd rfl hne
  | cons t rest ih =>
    have hfirst := h t List.mem_cons_self
    cases rest with
    | nil =>
      rw [String.intercalate_singleton]
      exact hfirst
    | cons u rest =>
      rw [String.intercalate_cons_cons]
      refine Closing.append (hfirst.1.append hseparator) ?_
      exact ih (List.cons_ne_nil u rest) fun v hv => h v (List.mem_cons_of_mem _ hv)

theorem mem_of_mem_dropEndWhile {p : Char → Bool} {cs : List Char} {c : Char}
    (h : c ∈ dropEndWhile p cs) : c ∈ cs := by
  rw [dropEndWhile, List.mem_reverse] at h
  exact List.mem_reverse.mp ((List.dropWhile_sublist p).subset h)

/-- Trimming adds no line feed. -/
theorem OneLine.trim {s : String} (h : OneLine s) : OneLine (trim s) := by
  intro hmem
  rw [toList_trim] at hmem
  exact h ((List.dropWhile_sublist _).subset (mem_of_mem_dropEndWhile hmem))

/-- A text that is not blank, once trimmed, begins with a character that is not blank. -/
theorem exists_head?_trim {s : String} (h : blank s = false) :
    ∃ c, (trim s).toList.head? = some c ∧ isBlank c = false := by
  obtain ⟨c, rest, hdrop⟩ : ∃ c rest, s.toList.dropWhile isBlank = c :: rest := by
    cases hdrop : s.toList.dropWhile isBlank with
    | nil =>
      have hall : s.toList.all isBlank = true :=
        List.all_eq_true.mpr (List.dropWhile_eq_nil_iff.mp hdrop)
      rw [blank, hall] at h
      cases h
    | cons c rest => exact ⟨c, rest, rfl⟩
  have hc : isBlank c = false := by
    have hnot := List.head?_dropWhile_not isBlank s.toList
    rwa [hdrop] at hnot
  have hkeep := dropEndWhile_append (a := [c]) rfl hc rest
  rw [List.singleton_append, List.singleton_append] at hkeep
  refine ⟨c, ?_, hc⟩
  rw [toList_trim, hdrop, hkeep]
  rfl

/-- It ends with such a character too. -/
theorem exists_getLast?_trim {s : String} (h : blank s = false) :
    ∃ c, (trim s).toList.getLast? = some c ∧ isBlank c = false := by
  obtain ⟨first, hfirst, -⟩ := exists_head?_trim h
  rw [toList_trim, dropEndWhile, List.head?_reverse] at hfirst
  have hnot := List.head?_dropWhile_not isBlank (s.toList.dropWhile isBlank).reverse
  rw [toList_trim, dropEndWhile, List.getLast?_reverse]
  cases hrun : (s.toList.dropWhile isBlank).reverse.dropWhile isBlank with
  | nil =>
    rw [hrun] at hfirst
    cases hfirst
  | cons c rest =>
    rw [hrun] at hnot
    exact ⟨c, rfl, hnot⟩

/-- A trimmed text is fit for a line of its own unless it begins or ends in one of the two marks. -/
theorem inline_trim {s : String} (hline : OneLine s) (hblank : blank s = false)
    (hhead : (trim s).toList.head? ≠ some '#') (hlast : (trim s).toList.getLast? ≠ some ':') :
    Inline (trim s) := by
  obtain ⟨c, hc, hcblank⟩ := exists_head?_trim hblank
  obtain ⟨d, hd, hdblank⟩ := exists_getLast?_trim hblank
  refine ⟨⟨hline.trim, ?_⟩, ⟨hline.trim, ?_⟩⟩
  · rw [hc, ne_eq, Option.some.injEq] at hhead
    simp [hc, hcblank, hhead]
  · rw [hd, ne_eq, Option.some.injEq] at hlast
    simp [hd, hdblank, hlast]

/-- A line that opens as a statement does is one. -/
theorem Opening.isStatement {s : String} (h : Opening s) : isStatement s.toList = true := by
  obtain ⟨-, h⟩ := h
  cases hs : s.toList with
  | nil => simp [hs] at h
  | cons c rest =>
    rw [hs, List.head?_cons, Option.any_some, Bool.and_eq_true, Bool.not_eq_true'] at h
    rw [Text.isStatement, List.dropWhile_cons, h.1]
    exact h.2

/-- It stands at the left margin. -/
theorem Opening.indentation {s : String} (h : Opening s) : indentation s.toList = 0 := by
  obtain ⟨-, h⟩ := h
  cases hs : s.toList with
  | nil => rfl
  | cons c rest =>
    rw [hs, List.head?_cons, Option.any_some, Bool.and_eq_true, Bool.not_eq_true'] at h
    have hc : (c == ' ') = false := by
      rw [beq_eq_false_iff_ne]
      rintro rfl
      exact absurd h.1 (by decide)
    rw [Text.indentation, List.takeWhile_cons, hc]
    rfl

/-! ## Laid out texts -/

/-- The text is made of whole lines, and they are laid out. -/
structure IsLaid (step : Nat) (s : String) : Prop where
  whole : IsWhole s
  layered : layered step (splitLines s.toList) = true

/-- Whole lines and the text below them are cut into lines one after the other. -/
theorem splitLines_toList_append {a : String} (ha : IsWhole a) (b : String) :
    splitLines (a ++ b).toList = splitLines a.toList ++ splitLines b.toList := by
  rw [String.toList_append]
  exact splitLines_append (ha.imp_left fun h => String.toList_eq_nil_iff.mpr h) _

theorem isLaid_empty : IsLaid step "" :=
  ⟨isWhole_empty, rfl⟩

theorem isLaid_lineFeed : IsLaid step "\n" :=
  ⟨isWhole_line "", rfl⟩

/-- Laid out texts can be put below each other. -/
theorem IsLaid.append {a b : String} (ha : IsLaid step a) (hb : IsLaid step b) :
    IsLaid step (a ++ b) := by
  refine ⟨ha.whole.append hb.whole, ?_⟩
  rw [splitLines_toList_append ha.whole]
  exact layered_append ha.layered hb.layered

theorem isLaid_join {texts : List String} (h : ∀ t ∈ texts, IsLaid step t) :
    IsLaid step (String.join texts) := by
  induction texts with
  | nil => exact isLaid_empty
  | cons t rest ih =>
    rw [String.join_cons]
    exact (h t List.mem_cons_self).append (ih fun u hu => h u (List.mem_cons_of_mem _ hu))

/-- A comment opens no block, whatever it says. -/
theorem isLaid_comment (s : String) : IsLaid step (mapLines (fun line => "#" ++ " " ++ line) s) := by
  refine isLaid_join fun t ht => ?_
  rw [lines, List.map_map] at ht
  obtain ⟨line, hline, rfl⟩ := List.mem_map.mp ht
  refine ⟨isWhole_line _, ?_⟩
  have hfeed : '\n' ∉ '#' :: ' ' :: line := by
    have hnot := not_mem_of_mem_splitLines hline
    simp [hnot]
  obtain ⟨first, hsplit, hfirst⟩ := splitLines_line_feed hfeed []
  have hstatement : isStatement first = false := by
    rcases hfirst with rfl | hfirst
    · rfl
    · cases first with
      | nil => cases hfirst
      | cons c rest =>
        obtain ⟨rfl, -⟩ := List.cons.inj hfirst
        rfl
  have htext : (((fun line => "#" ++ " " ++ line ++ "\n") ∘ String.ofList) line).toList =
      '#' :: ' ' :: line ++ '\n' :: [] := by
    simp
  rw [htext, hsplit]
  simp [splitLines, Text.layered, opensBlock, hstatement]

/-- Line feeds make lines, but no statements. -/
theorem isStatement_of_all_lineFeeds {cs : List Char} (h : ∀ c ∈ cs, c = '\n') {line : List Char}
    (hline : line ∈ splitLines cs) : isStatement line = false := by
  induction cs with
  | nil => cases hline
  | cons c cs ih =>
    obtain rfl := h c List.mem_cons_self
    have hsplit : splitLines ('\n' :: cs) = [] :: splitLines cs := by simp [splitLines]
    rw [hsplit] at hline
    rcases List.mem_cons.mp hline with rfl | hline
    · rfl
    · exact ih (fun d hd => h d (List.mem_cons_of_mem _ hd)) hline

/-- What is cut off the end of a text are line feeds. -/
theorem exists_lineFeeds (s : String) :
    ∃ feeds, s.toList = (trimLineFeeds s).toList ++ feeds ∧ ∀ c ∈ feeds, c = '\n' := by
  refine ⟨(s.toList.reverse.takeWhile (· == '\n')).reverse, ?_, fun c hc => ?_⟩
  · rw [trimLineFeeds, String.toList_ofList, dropEndWhile, ← List.reverse_append,
      List.takeWhile_append_dropWhile, List.reverse_reverse]
  · simpa using List.mem_takeWhile_imp (List.mem_reverse.mp hc)

/-- Only one of the line feeds at the end of a text is needed. -/
theorem IsLaid.trimLineFeeds {s : String} (h : IsLaid step s) :
    IsLaid step (trimLineFeeds s ++ "\n") := by
  refine ⟨isWhole_line _, ?_⟩
  set run := (s.toList.reverse.takeWhile (· == '\n')).reverse with hrun
  have hsplit : s.toList = (Text.trimLineFeeds s).toList ++ run := by
    rw [Text.trimLineFeeds, String.toList_ofList, dropEndWhile, hrun, ← List.reverse_append,
      List.takeWhile_append_dropWhile, List.reverse_reverse]
  have hfeeds : ∀ c ∈ run, c = '\n' := by
    intro c hc
    have hp := List.mem_takeWhile_imp (List.mem_reverse.mp hc)
    simpa using hp
  have htext : (Text.trimLineFeeds s ++ "\n").toList = (Text.trimLineFeeds s).toList ++ ['\n'] := by
    simp
  cases hcases : run with
  | nil =>
    -- Without a line feed at its end a text of whole lines is empty.
    have hempty : s = "" := by
      refine h.whole.resolve_right fun hlast => ?_
      rw [← List.head?_reverse] at hlast
      obtain ⟨rest, hrest⟩ := List.head?_eq_some_iff.mp hlast
      simp [hrun, hrest] at hcases
    rw [hempty]
    rfl
  | cons c rest =>
    have hc : c = '\n' := hfeeds c (by simp [hcases])
    have hrest : ∀ d ∈ rest, d = '\n' := fun d hd => hfeeds d (by simp [hcases, hd])
    have hlines : splitLines s.toList =
        splitLines ((Text.trimLineFeeds s).toList ++ ['\n']) ++ splitLines rest := by
      rw [← splitLines_append (Or.inr List.getLast?_concat), hsplit, hcases, hc, List.append_assoc]
      rfl
    have hlayered := h.layered
    rw [hlines] at hlayered
    rw [htext]
    exact layered_of_append (fun line hline => isStatement_of_all_lineFeeds hrest hline) hlayered

/-- Laid out texts with a blank line between any two of them. -/
theorem isLaid_intercalate {texts : List String} (hne : texts ≠ [])
    (h : ∀ t ∈ texts, IsLaid step (t ++ "\n")) :
    IsLaid step ("\n\n".intercalate texts ++ "\n") := by
  induction texts with
  | nil => exact absurd rfl hne
  | cons t rest ih =>
    have hfirst := h t List.mem_cons_self
    cases rest with
    | nil =>
      rw [String.intercalate_singleton]
      exact hfirst
    | cons u rest =>
      have hrest := ih (List.cons_ne_nil u rest) fun v hv => h v (List.mem_cons_of_mem _ hv)
      have hregroup : "\n\n".intercalate (t :: u :: rest) ++ "\n" =
          t ++ "\n" ++ "\n" ++ ("\n\n".intercalate (u :: rest) ++ "\n") := by
        rw [String.intercalate_cons_cons, ← String.append_assoc]
        congr 2
        rw [String.append_assoc]
        rfl
      rw [hregroup]
      exact (hfirst.append isLaid_lineFeed).append hrest

/-! ## Blocks -/

/-- The text is laid out and, unless it is empty, begins with a statement at the margin. -/
structure IsBlock (step : Nat) (s : String) : Prop extends IsLaid step s where
  clean : IsClean s
  margin : ∀ line rest, splitLines s.toList = line :: rest →
    isStatement line = true ∧ indentation line = 0

theorem isBlock_empty : IsBlock step "" where
  toIsLaid := isLaid_empty
  clean := fun _ h => nomatch h
  margin := fun _ _ h => nomatch h

/-- Joining whole lines puts no carriage return before a line feed. -/
theorem IsClean.append {a b : String} (hwhole : IsWhole a) (ha : IsClean a) (hb : IsClean b) :
    IsClean (a ++ b) := by
  intro line hline
  rw [splitLines_toList_append hwhole, List.mem_append] at hline
  exact hline.elim (ha line) (hb line)

/-- A block below a block is a block: it still begins with a statement at the margin. -/
theorem IsBlock.append {a b : String} (ha : IsBlock step a) (hb : IsBlock step b) :
    IsBlock step (a ++ b) where
  toIsLaid := ha.toIsLaid.append hb.toIsLaid
  clean := ha.clean.append ha.whole hb.clean
  margin := by
    intro line rest h
    rw [splitLines_toList_append ha.whole] at h
    cases ha' : splitLines a.toList with
    | nil =>
      rw [ha', List.nil_append] at h
      exact hb.margin line rest h
    | cons first others =>
      rw [ha', List.cons_append] at h
      obtain ⟨rfl, -⟩ := List.cons.inj h
      exact ha.margin first others ha'

theorem isBlock_join {texts : List String} (h : ∀ t ∈ texts, IsBlock step t) :
    IsBlock step (String.join texts) := by
  induction texts with
  | nil => exact isBlock_empty
  | cons t rest ih =>
    rw [String.join_cons]
    exact (h t List.mem_cons_self).append (ih fun u hu => h u (List.mem_cons_of_mem _ hu))

/-- A block that is not empty begins with a statement at the margin. -/
theorem IsBlock.exists_first {s : String} (h : IsBlock step s) (hne : s ≠ "") :
    ∃ line rest, splitLines s.toList = line :: rest ∧ isStatement line = true ∧
      indentation line = 0 := by
  cases hs : splitLines s.toList with
  | nil => exact absurd (String.toList_eq_nil_iff.mp (splitLines_eq_nil_iff.mp hs)) hne
  | cons line rest => exact ⟨line, rest, rfl, h.margin line rest hs⟩

/-- A blank line may follow a block. -/
theorem IsBlock.lineFeed {s : String} (h : IsBlock step s) (hne : s ≠ "") :
    IsBlock step (s ++ "\n") where
  toIsLaid := h.toIsLaid.append isLaid_lineFeed
  clean := by
    have hfeed : IsClean "\n" := by
      intro line hline
      rw [List.mem_singleton.mp hline]
      decide
    exact h.clean.append h.whole hfeed
  margin := by
    intro line rest hsplit
    obtain ⟨first, others, hfirst, hfacts⟩ := h.exists_first hne
    rw [splitLines_toList_append h.whole, hfirst, List.cons_append] at hsplit
    obtain ⟨rfl, -⟩ := List.cons.inj hsplit
    exact hfacts

/-- What can end a statement is neither a carriage return nor a colon. -/
theorem Closing.getLast?_ne {s : String} (h : Closing s) :
    s.toList.getLast? ≠ some '\r' ∧ s.toList.getLast? ≠ some ':' := by
  obtain ⟨-, h⟩ := h
  constructor <;> intro hlast <;> rw [hlast] at h <;> exact absurd h (by decide)

/-- A line on its own is a block. -/
theorem isBlock_line {s : String} (h : Inline s) : IsBlock step (s ++ "\n") := by
  obtain ⟨hreturn, hcolon⟩ := h.2.getLast?_ne
  have hsplit : splitLines (s ++ "\n").toList = [s.toList] := by
    rw [String.toList_append]
    exact splitLines_cons h.oneLine hreturn []
  have hcloses : opensBlock s.toList = false := by
    rw [opensBlock, beq_eq_false_iff_ne.mpr hcolon, Bool.and_false]
  refine ⟨⟨isWhole_line s, ?_⟩, ?_, ?_⟩
  · rw [hsplit, Text.layered, hcloses]
    rfl
  · intro line hline
    rw [hsplit] at hline
    rw [List.mem_singleton.mp hline]
    exact hreturn
  · intro line rest hline
    rw [hsplit] at hline
    obtain ⟨rfl, -⟩ := List.cons.inj hline
    exact ⟨h.1.isStatement, h.1.indentation⟩

/-- The text is a block that is not empty, moved one step in. -/
def IsBody (step : Nat) (body : String) : Prop :=
  ∃ inner, IsBlock step inner ∧ inner ≠ "" ∧ body = indent (spaces step) inner

/-- The text ends a header: it is one line, and its last character is a colon. -/
def EndsHeader (mark : String) : Prop :=
  mark.toList.getLast? = some '\n' ∧ '\n' ∉ mark.toList.dropLast ∧
    mark.toList.dropLast.getLast? = some ':'

instance (mark : String) : Decidable (EndsHeader mark) :=
  inferInstanceAs (Decidable (_ ∧ _ ∧ _))

/-- A header is one line, with a colon at its end. -/
theorem EndsHeader.exists_line {header mark : String} (hmark : EndsHeader mark)
    (hheader : Opening header) :
    ∃ line : String, Opening line ∧ line.toList.getLast? = some ':' ∧
      (header ++ mark).toList = line.toList ++ ['\n'] := by
  obtain ⟨hlast, hfeed, hcolon⟩ := hmark
  refine ⟨header ++ String.ofList mark.toList.dropLast, hheader.append ?_, ?_, ?_⟩
  · rw [OneLine, String.toList_ofList]
    exact hfeed
  · simp [List.getLast?_append, hcolon]
  · obtain ⟨front, hfront⟩ := List.getLast?_eq_some_iff.mp hlast
    simp [hfront]

/-- A header and its body. -/
theorem isBlock_header {header mark body : String} (hheader : Opening header)
    (hmark : EndsHeader mark) (hbody : IsBody step body) :
    IsBlock step (header ++ mark ++ body) := by
  obtain ⟨inner, hinner, hne, rfl⟩ := hbody
  obtain ⟨first, others, hfirst, hstatement, hmargin⟩ := hinner.exists_first hne
  obtain ⟨line, hopening, hend, hline⟩ := hmark.exists_line hheader
  have hreturn : line.toList.getLast? ≠ some '\r' := by
    rw [hend]
    decide
  have hlines : splitLines (header ++ mark ++ indent (spaces step) inner).toList =
      line.toList :: (splitLines inner.toList).map (shift step) := by
    rw [String.toList_append, hline, List.append_assoc, List.singleton_append,
      splitLines_cons hopening.1 hreturn, splitLines_indent hinner.clean]
  -- The first statement of the body stands at its margin, so one step in it follows the header.
  have hnext : follows step line.toList (shift step first) = true := by
    rw [follows, isStatement_shift, indentation_shift hstatement, hstatement, hmargin,
      hopening.indentation]
    simp
  have hwhole : IsWhole (header ++ mark) := Or.inr (by rw [hline, List.getLast?_concat])
  refine ⟨⟨hwhole.append (isWhole_indent _ _), ?_⟩, ?_, ?_⟩
  · have hlayered := layered_map_shift hinner.layered
    rw [hlines]
    rw [hfirst, List.map_cons] at hlayered ⊢
    rw [Text.layered, hnext, hlayered]
    rfl
  · intro l hl
    rw [hlines] at hl
    rcases List.mem_cons.mp hl with rfl | hl
    · exact hreturn
    · obtain ⟨m, hm, rfl⟩ := List.mem_map.mp hl
      rw [getLast?_shift]
      exact hinner.clean m hm
  · intro l rest hl
    rw [hlines] at hl
    obtain ⟨rfl, -⟩ := List.cons.inj hl
    exact ⟨hopening.isStatement, hopening.indentation⟩

/-- A header and a body in two parts. -/
theorem isBlock_header_append {header mark front back : String} (hheader : Opening header)
    (hmark : EndsHeader mark) (hbody : IsBody step (front ++ back)) :
    IsBlock step (header ++ mark ++ front ++ back) := by
  rw [String.append_assoc]
  exact isBlock_header hheader hmark hbody

/-- Two blocks moved in together make a body if one of them holds a statement. -/
theorem isBody_append {a b : String} (ha : IsBlock step a) (hb : IsBlock step b) (hne : a ++ b ≠ "") :
    IsBody step (indent (spaces step) a ++ indent (spaces step) b) :=
  ⟨a ++ b, ha.append hb, hne, (indent_append _ ha.whole b).symm⟩

/-- A block, and after it one in two parts. -/
theorem IsBlock.append_append {a b c : String} (ha : IsBlock step a) (hbc : IsBlock step (b ++ c)) :
    IsBlock step (a ++ b ++ c) := by
  rw [String.append_assoc]
  exact ha.append hbc

end BlockCompiler.Text
