import BlockCompiler.Code
import BlockCompiler.Proofs.Text.Lines
import Mathlib.Data.List.Induction

/-!
# Texts with open places

A template is a text in which some places are open, and `Template.fill` puts the same piece
into each of them.  A family of texts is `Woven` from a family of pieces if all its texts
come from one template.  What a compiler does to texts on the way into the source keeps
families woven, as long as the pieces are sealed: they begin and end with a mark that is
not blank, and have no line feed.  So joining, indenting, trimming and looking for blank
texts go the same way whatever the pieces are (`Woven.indent`, `Woven.trimLineFeeds`,
`Woven.blank`).

`physicalLines` are the lines of a text as a reader of the target languages finds them:
a carriage return ends a line for them, with or without a line feed behind it.  How many
there are depends on the carriage returns in the piece and on nothing else of it
(`length_physicalLines_fill`).
-/

namespace BlockCompiler.Text

/-! ## Templates -/

/-- A text with open places. -/
abbrev Template := List (Option Char)

/-- The lines with a text in front of the first one. -/
def extendFirst {α : Type} (front : List α) : List (List α) → List (List α)
  | [] => [front]
  | line :: lines => (front ++ line) :: lines

namespace Template

/-- The text with a piece in each open place. -/
def fill (piece : List Char) (T : Template) : List Char :=
  T.flatMap fun place => place.elim piece fun c => [c]

/-- The lines of a template; they end at characters, never at an open place. -/
def lines : Template → List Template
  | [] => []
  | some '\r' :: some '\n' :: rest => [] :: lines rest
  | some '\n' :: rest => [] :: lines rest
  | place :: rest => extendFirst [place] (lines rest)

variable (piece : List Char)

@[simp] theorem fill_nil : fill piece [] = [] := rfl

@[simp] theorem fill_some (c : Char) (T : Template) :
    fill piece (some c :: T) = c :: fill piece T := rfl

@[simp] theorem fill_none (T : Template) : fill piece (none :: T) = piece ++ fill piece T := rfl

@[simp] theorem fill_append (T U : Template) : fill piece (T ++ U) = fill piece T ++ fill piece U :=
  List.flatMap_append

@[simp] theorem fill_map_some (cs : List Char) : fill piece (cs.map some) = cs := by
  induction cs with
  | nil => rfl
  | cons c rest ih => rw [List.map_cons, fill_some, ih]

end Template

theorem extendFirst_append {α : Type} (a b : List α) (ls : List (List α)) :
    extendFirst (a ++ b) ls = extendFirst a (extendFirst b ls) := by
  cases ls <;> simp [extendFirst]

theorem length_extendFirst {α : Type} (front : List α) (ls : List (List α)) :
    (extendFirst front ls).length = max 1 ls.length := by
  cases ls with
  | nil => rfl
  | cons line rest =>
    rw [extendFirst, List.length_cons, List.length_cons]
    omega

/-- Filling a template line by line. -/
theorem map_extendFirst_fill (piece : List Char) (front : Template) (ls : List Template) :
    (extendFirst front ls).map (Template.fill piece) =
      extendFirst (front.fill piece) (ls.map (Template.fill piece)) := by
  cases ls <;> simp [extendFirst]

/-- A character that ends no line goes before the first one. -/
theorem splitLines_extendFirst {c : Char} {rest : List Char} (hc : c ≠ '\n')
    (hreturn : c = '\r' → rest.head? ≠ some '\n') :
    splitLines (c :: rest) = extendFirst [c] (splitLines rest) := by
  have hfirst : ∀ after, c = '\r' → rest = '\n' :: after → False := by
    rintro after hc rfl
    exact hreturn hc rfl
  rw [splitLines.eq_4 _ _ hfirst hc]
  cases splitLines rest <;> rfl

/-! ## Pieces -/

/-- The piece begins and ends with the mark, and has no line feed. -/
structure Sealed (mark : Char) (piece : List Char) : Prop where
  shape : ∃ body, piece = mark :: (body ++ [mark])
  feedless : '\n' ∉ piece

theorem ne_of_isBlank_eq_false {mark c : Char} (hmark : isBlank mark = false)
    (hc : isBlank c = true) : mark ≠ c := by
  rintro rfl
  rw [hc] at hmark
  cases hmark

section Pieces

variable {mark : Char} (hmark : isBlank mark = false) {piece : List Char}

include hmark

/-- The first character of a filled template is a line feed only if the template says so. -/
theorem Sealed.head?_fill (h : Sealed mark piece) (T : Template) :
    (T.fill piece).head? = some '\n' ↔ T.head? = some (some '\n') := by
  obtain ⟨body, rfl⟩ := h.shape
  cases T with
  | nil => simp
  | cons place rest =>
    cases place with
    | none => simp [ne_of_isBlank_eq_false hmark (c := '\n') rfl]
    | some c => simp

/-- A sealed piece belongs to the line that it stands in. -/
theorem Sealed.splitLines_append (h : Sealed mark piece) (rest : List Char) :
    splitLines (piece ++ rest) = extendFirst piece (splitLines rest) := by
  obtain ⟨body, rfl⟩ := h.shape
  have hfeed := h.feedless
  rw [← List.cons_append] at hfeed ⊢
  generalize mark :: body = cs at hfeed ⊢
  -- The mark at the end keeps a carriage return of the piece from a line feed behind it.
  induction cs with
  | nil =>
    exact splitLines_extendFirst (ne_of_isBlank_eq_false hmark rfl)
      fun heq => absurd heq (ne_of_isBlank_eq_false hmark rfl)
  | cons c cs ih =>
    rw [List.cons_append, List.mem_cons, not_or] at hfeed
    have hhead : (cs ++ [mark] ++ rest).head? ≠ some '\n' := by
      intro heq
      refine hfeed.2 (List.mem_of_mem_head? ?_)
      cases cs with
      | nil => exact heq
      | cons d cs => exact heq
    rw [List.cons_append, List.cons_append, splitLines_extendFirst (Ne.symm hfeed.1) fun _ => hhead,
      ih hfeed.2, ← extendFirst_append]
    rfl

/-- The lines of a filled template are its lines, filled. -/
theorem Sealed.splitLines_fill (h : Sealed mark piece) (T : Template) :
    splitLines (T.fill piece) = T.lines.map (Template.fill piece) := by
  induction T using Template.lines.induct with
  | case1 => rfl
  | case2 rest ih => simp [Template.lines, splitLines, ih]
  | case3 rest ih => simp [Template.lines, splitLines, ih]
  | case4 place rest hreturn hfeed ih =>
    rw [Template.lines.eq_4 _ _ hreturn hfeed, map_extendFirst_fill, ← ih]
    cases place with
    | none => simpa using h.splitLines_append hmark (Template.fill piece rest)
    | some c =>
      rw [Template.fill_some, splitLines_extendFirst]
      · rfl
      · rintro rfl
        exact hfeed rfl
      · rintro rfl heq
        obtain ⟨after, rfl⟩ : ∃ after, rest = some '\n' :: after :=
          List.head?_eq_some_iff.mp ((h.head?_fill hmark rest).mp heq)
        exact hreturn after rfl rfl

omit hmark in
/-- A sealed piece is not empty. -/
theorem Sealed.fill_eq_nil_iff (h : Sealed mark piece) {T : Template} :
    T.fill piece = [] ↔ T = [] := by
  obtain ⟨body, rfl⟩ := h.shape
  cases T with
  | nil => simp
  | cons place rest => cases place <;> simp

/-- A sealed piece is not blank. -/
theorem Sealed.all_fill (h : Sealed mark piece) (T : Template) :
    (T.fill piece).all isBlank = T.all fun place => place.elim false isBlank := by
  obtain ⟨body, rfl⟩ := h.shape
  induction T with
  | nil => rfl
  | cons place rest ih =>
    cases place with
    | none => simp [hmark]
    | some c => simp [ih]

/-- Line feeds are trimmed off a filled template as off the template itself. -/
theorem Sealed.dropEndWhile_fill (h : Sealed mark piece) (T : Template) :
    dropEndWhile (· == '\n') (T.fill piece) =
      Template.fill piece (dropEndWhile (· == some '\n') T) := by
  induction T using List.reverseRecOn with
  | nil => rfl
  | append_singleton T place ih =>
    cases place with
    | some c =>
      by_cases hc : c = '\n'
      · subst hc
        simpa [dropEndWhile] using ih
      · simp [dropEndWhile, hc]
    | none =>
      obtain ⟨body, rfl⟩ := h.shape
      have hne : mark ≠ '\n' := ne_of_isBlank_eq_false hmark rfl
      simp [dropEndWhile, hne]

end Pieces

/-! ## Woven families -/

section Woven

variable {ι : Type} {pieces : ι → List Char}

/-- The texts come from one template, each with its own piece. -/
def Woven (pieces : ι → List Char) (texts : ι → String) : Prop :=
  ∃ T : Template, ∀ x, (texts x).toList = T.fill (pieces x)

/-- A text with no open place. -/
theorem woven_const (s : String) : Woven pieces fun _ => s :=
  ⟨s.toList.map some, fun _ => (Template.fill_map_some _ _).symm⟩

/-- The pieces themselves. -/
theorem woven_pieces {texts : ι → String} (h : ∀ x, (texts x).toList = pieces x) :
    Woven pieces texts :=
  ⟨[none], fun x => by simp [h x]⟩

variable {f g : ι → String}

/-- The templates are joined. -/
theorem Woven.append (hf : Woven pieces f) (hg : Woven pieces g) :
    Woven pieces fun x => f x ++ g x := by
  obtain ⟨T, hT⟩ := hf
  obtain ⟨U, hU⟩ := hg
  exact ⟨T ++ U, fun x => by simp [hT, hU]⟩

/-- A woven text between two fixed ones. -/
theorem Woven.between (front : String) (h : Woven pieces f) (back : String) :
    Woven pieces fun x => front ++ f x ++ back :=
  ((woven_const front).append h).append (woven_const back)

theorem Woven.parenthesize (h : Woven pieces f) (inner outer : Order) :
    Woven pieces fun x => parenthesize (f x) inner outer := by
  simp only [BlockCompiler.parenthesize]
  split
  · exact h.between "(" ")"
  · exact h

/-- Families of lists are woven if they are of one length and woven entry by entry. -/
def WovenList (pieces : ι → List Char) (lists : ι → List String) : Prop :=
  ∃ fs : List (ι → String), (∀ f ∈ fs, Woven pieces f) ∧ ∀ x, lists x = fs.map (· x)

theorem WovenList.join {lists : ι → List String} (h : WovenList pieces lists) :
    Woven pieces fun x => String.join (lists x) := by
  obtain ⟨fs, hfs, heq⟩ := h
  simp only [heq]
  induction fs generalizing lists with
  | nil => exact woven_const ""
  | cons f rest ih =>
    simp only [List.map_cons, String.join_cons]
    exact (hfs f List.mem_cons_self).append
      (ih (fun g hg => hfs g (List.mem_cons_of_mem _ hg)) (fun _ => rfl))

/-- A separator is part of the template. -/
theorem WovenList.intercalate {lists : ι → List String} (h : WovenList pieces lists)
    (separator : String) : Woven pieces fun x => separator.intercalate (lists x) := by
  obtain ⟨fs, hfs, heq⟩ := h
  simp only [heq]
  induction fs generalizing lists with
  | nil => exact woven_const ""
  | cons f rest ih =>
    have hf := hfs f List.mem_cons_self
    cases rest with
    | nil => simpa only [List.map_cons, List.map_nil, String.intercalate_singleton] using hf
    | cons g rest =>
      simp only [List.map_cons, String.intercalate_cons_cons]
      exact (hf.append (woven_const separator)).append
        (ih (fun g hg => hfs g (List.mem_cons_of_mem _ hg)) (fun _ => rfl))

theorem wovenList_const (list : List String) : WovenList pieces fun _ => list := by
  refine ⟨list.map fun s _ => s, fun f hf => ?_, fun x => by simp [Function.comp_def]⟩
  obtain ⟨s, -, rfl⟩ := List.mem_map.mp hf
  exact woven_const s

theorem WovenList.append {lists lists' : ι → List String} (h : WovenList pieces lists)
    (h' : WovenList pieces lists') : WovenList pieces fun x => lists x ++ lists' x := by
  obtain ⟨fs, hfs, heq⟩ := h
  obtain ⟨gs, hgs, heq'⟩ := h'
  refine ⟨fs ++ gs, fun f hf => ?_, fun x => by simp [heq, heq']⟩
  exact (List.mem_append.mp hf).elim (hfs f) (hgs f)

/-- What keeps texts woven keeps lists of them woven. -/
theorem WovenList.map {lists : ι → List String} (h : WovenList pieces lists) {k : String → String}
    (hk : ∀ f, Woven pieces f → Woven pieces fun x => k (f x)) :
    WovenList pieces fun x => (lists x).map k := by
  obtain ⟨fs, hfs, heq⟩ := h
  refine ⟨fs.map fun f x => k (f x), fun f hf => ?_, fun x => by simp [heq, Function.comp_def]⟩
  obtain ⟨g, hg, rfl⟩ := List.mem_map.mp hf
  exact hk g (hfs g hg)

theorem WovenList.isEmpty {lists : ι → List String} (h : WovenList pieces lists) :
    ∃ b, ∀ x, (lists x).isEmpty = b := by
  obtain ⟨fs, -, heq⟩ := h
  exact ⟨fs.isEmpty, fun x => by simp [heq]⟩

/-- A test that goes the same way for all members of a family picks families from a list. -/
theorem WovenList.filter {lists : ι → List String} (h : WovenList pieces lists) {k : String → Bool}
    (hk : ∀ f, Woven pieces f → ∃ b, ∀ x, k (f x) = b) :
    WovenList pieces fun x => (lists x).filter k := by
  obtain ⟨fs, hfs, heq⟩ := h
  simp only [heq]
  induction fs generalizing lists with
  | nil => exact wovenList_const []
  | cons f rest ih =>
    obtain ⟨b, hb⟩ := hk f (hfs f List.mem_cons_self)
    have hrest : WovenList pieces fun x => (rest.map (· x)).filter k :=
      ih (fun g hg => hfs g (List.mem_cons_of_mem _ hg)) fun _ => rfl
    simp only [List.map_cons, List.filter_cons, hb]
    cases b with
    | false => exact hrest
    | true =>
      obtain ⟨gs, hgs, hrest⟩ := hrest
      refine ⟨f :: gs, List.forall_mem_cons.mpr ⟨hfs f List.mem_cons_self, hgs⟩, fun x => ?_⟩
      simp only [if_true, hrest, List.map_cons]

variable {mark : Char} (hpieces : ∀ x, Sealed mark (pieces x))

include hpieces

/-- Whether a text is empty does not depend on the pieces. -/
theorem Woven.isEmpty (h : Woven pieces f) : ∃ b, ∀ x, (f x).isEmpty = b := by
  obtain ⟨T, hT⟩ := h
  refine ⟨T.isEmpty, fun x => ?_⟩
  rw [Bool.eq_iff_iff, String.isEmpty_iff, ← String.toList_eq_nil_iff, hT,
    (hpieces x).fill_eq_nil_iff, List.isEmpty_iff]

variable (hmark : isBlank mark = false)

include hmark

/-- Nor does it depend on them whether a text is blank. -/
theorem Woven.blank (h : Woven pieces f) : ∃ b, ∀ x, blank (f x) = b := by
  obtain ⟨T, hT⟩ := h
  refine ⟨T.all fun place => place.elim false isBlank, fun x => ?_⟩
  rw [Text.blank, hT]
  exact (hpieces x).all_fill hmark T

/-- Line feeds are trimmed off the template, as pieces have none at their ends. -/
theorem Woven.trimLineFeeds (h : Woven pieces f) : Woven pieces fun x => trimLineFeeds (f x) := by
  obtain ⟨T, hT⟩ := h
  refine ⟨dropEndWhile (· == some '\n') T, fun x => ?_⟩
  show (Text.trimLineFeeds (f x)).toList = _
  rw [Text.trimLineFeeds, String.toList_ofList, hT]
  exact (hpieces x).dropEndWhile_fill hmark T

/-- Each line is moved in, or left empty, in all texts alike. -/
theorem Woven.indent (h : Woven pieces f) (unit : String) :
    Woven pieces fun x => indent unit (f x) := by
  obtain ⟨T, hT⟩ := h
  let moved (line : Template) (x : ι) : String :=
    (if line.isEmpty then "" else unit ++ String.ofList (line.fill (pieces x))) ++ "\n"
  have hmoved : ∀ line, Woven pieces (moved line) := by
    intro line
    refine Woven.append ?_ (woven_const "\n")
    split
    · exact woven_const ""
    · exact (woven_const unit).append ⟨line, fun x => String.toList_ofList⟩
  have hlist : WovenList pieces fun x =>
      (lines (f x)).map fun line => (if line.isEmpty then "" else unit ++ line) ++ "\n" := by
    refine ⟨T.lines.map moved, fun g hg => ?_, fun x => ?_⟩
    · obtain ⟨line, -, rfl⟩ := List.mem_map.mp hg
      exact hmoved line
    · simp only [Text.lines, hT, (hpieces x).splitLines_fill hmark, List.map_map]
      refine List.map_congr_left fun line _ => ?_
      have hempty : (String.ofList (line.fill (pieces x))).isEmpty = line.isEmpty := by
        rw [Bool.eq_iff_iff, String.isEmpty_iff, ← String.toList_eq_nil_iff, String.toList_ofList,
          (hpieces x).fill_eq_nil_iff, List.isEmpty_iff]
      simp only [Function.comp_apply, hempty, moved]
  exact hlist.join

end Woven

/-! ## Physical lines -/

/-- The lines of a text, where a carriage return ends a line as well, and a line feed behind it
belongs to the same end. -/
def physicalLines : List Char → List (List Char)
  | [] => []
  | '\r' :: '\n' :: rest => [] :: physicalLines rest
  | '\r' :: rest => [] :: physicalLines rest
  | '\n' :: rest => [] :: physicalLines rest
  | c :: rest => extendFirst [c] (physicalLines rest)

theorem length_physicalLines_feed (rest : List Char) :
    (physicalLines ('\n' :: rest)).length = (physicalLines rest).length + 1 := by
  simp [physicalLines]

/-- A carriage return ends a line, unless a line feed does so right after it. -/
theorem length_physicalLines_return (rest : List Char) :
    (physicalLines ('\r' :: rest)).length =
      if rest.head? = some '\n' then (physicalLines rest).length
      else (physicalLines rest).length + 1 := by
  split
  · rename_i hhead
    obtain ⟨after, rfl⟩ := List.head?_eq_some_iff.mp hhead
    simp [physicalLines]
  · rename_i hhead
    rw [physicalLines, List.length_cons]
    rintro after rfl
    exact hhead rfl

/-- Any other character belongs to a line that is there already, or begins one. -/
theorem length_physicalLines_other {c : Char} (hreturn : c ≠ '\r') (hfeed : c ≠ '\n')
    (rest : List Char) :
    (physicalLines (c :: rest)).length = max 1 (physicalLines rest).length := by
  rw [physicalLines, length_extendFirst]
  · rintro after rfl
    exact absurd rfl hreturn
  · exact hreturn
  · exact hfeed

theorem length_physicalLines_pos (c : Char) (rest : List Char) :
    1 ≤ (physicalLines (c :: rest)).length := by
  by_cases hreturn : c = '\r'
  · subst hreturn
    rw [length_physicalLines_return]
    split
    · rename_i hhead
      obtain ⟨after, rfl⟩ := List.head?_eq_some_iff.mp hhead
      rw [length_physicalLines_feed]
      omega
    · omega
  by_cases hfeed : c = '\n'
  · subst hfeed
    rw [length_physicalLines_feed]
    omega
  · rw [length_physicalLines_other hreturn hfeed]
    omega

section Count

variable {mark : Char} (hmark : isBlank mark = false) {piece : List Char}

include hmark

/-- A piece adds a line for each of its carriage returns. -/
theorem Sealed.length_physicalLines_append (h : Sealed mark piece) (rest : List Char) :
    (physicalLines (piece ++ rest)).length =
      piece.count '\r' + max 1 (physicalLines rest).length := by
  obtain ⟨body, rfl⟩ := h.shape
  have hfeed := h.feedless
  have hreturn' : mark ≠ '\r' := ne_of_isBlank_eq_false hmark rfl
  have hfeed' : mark ≠ '\n' := ne_of_isBlank_eq_false hmark rfl
  rw [← List.cons_append] at hfeed ⊢
  generalize mark :: body = cs at hfeed ⊢
  induction cs with
  | nil => simp [length_physicalLines_other hreturn' hfeed', hreturn']
  | cons c cs ih =>
    rw [List.cons_append, List.mem_cons, not_or] at hfeed
    have hrest := ih hfeed.2
    rw [List.cons_append, List.cons_append, List.count_cons]
    -- The mark at the end keeps a carriage return of the piece from a line feed after it.
    by_cases hc : c = '\r'
    · subst hc
      have hhead : (cs ++ [mark] ++ rest).head? ≠ some '\n' := by
        intro heq
        refine hfeed.2 (List.mem_of_mem_head? ?_)
        cases cs with
        | nil => exact heq
        | cons d cs => exact heq
      rw [length_physicalLines_return, if_neg hhead, hrest, beq_self_eq_true, if_pos rfl]
      omega
    · rw [length_physicalLines_other hc (Ne.symm hfeed.1), hrest, if_neg (by simpa using hc)]
      omega

/-- **The number of lines of a filled template**: each open place brings the carriage returns of
the piece. -/
theorem Sealed.length_physicalLines_fill (h : Sealed mark piece) (T : Template) :
    (physicalLines (T.fill piece)).length =
      (physicalLines (T.fill [mark, mark])).length + T.count none * piece.count '\r' := by
  have hpair : Sealed mark [mark, mark] :=
    ⟨⟨[], rfl⟩, by simp [(ne_of_isBlank_eq_false hmark (c := '\n') rfl).symm]⟩
  have hcount : [mark, mark].count '\r' = 0 := by
    simp [ne_of_isBlank_eq_false hmark (c := '\r') rfl]
  induction T with
  | nil => simp
  | cons place rest ih =>
    -- Only behind the last open place there may be no line at all.
    have hrest : rest.count none = 0 ∨
        1 ≤ (physicalLines (Template.fill [mark, mark] rest)).length := by
      cases rest with
      | nil => exact .inl rfl
      | cons next rest => cases next <;> exact .inr (length_physicalLines_pos _ _)
    cases place with
    | none =>
      rw [Template.fill_none, Template.fill_none, h.length_physicalLines_append hmark,
        hpair.length_physicalLines_append hmark, List.count_cons_self, hcount, ih, Nat.succ_mul]
      rcases hrest with hzero | hpos
      · rw [hzero]
        omega
      · omega
    | some c =>
      rw [Template.fill_some, Template.fill_some, List.count_cons_of_ne (by simp)]
      by_cases hreturn : c = '\r'
      · subst hreturn
        simp only [length_physicalLines_return, h.head?_fill hmark, hpair.head?_fill hmark, ih]
        split <;> omega
      by_cases hfeed : c = '\n'
      · subst hfeed
        simp only [length_physicalLines_feed, ih]
        omega
      · simp only [length_physicalLines_other hreturn hfeed, ih]
        rcases hrest with hzero | hpos
        · rw [hzero]
          omega
        · omega

end Count

end BlockCompiler.Text
