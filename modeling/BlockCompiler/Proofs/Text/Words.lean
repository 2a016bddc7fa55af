import BlockCompiler.Proofs.Expression.Token
import BlockCompiler.Proofs.Text.Nesting
import BlockCompiler.Text.Name

/-!
# The words of a text

The words of a text are its longest runs of letters, digits and underscores; every other
character is a break.  Words split at a break (`words_append_break`), so those of a text
put together from pieces are the words of the pieces, as long as a break stands where two
pieces meet.  Moving a text in, trimming it and cutting the line feeds at its end change
breaks only, and leave its words as they are.
-/

namespace BlockCompiler.Text

/-- The longest runs of word characters. -/
def words (cs : List Char) : List (List Char) :=
  (cs.splitOnP (!isWordChar ·)).filter (!·.isEmpty)

@[simp] theorem words_nil : words [] = [] := rfl

/-- **Words split at a break.** -/
theorem words_append_break {c : Char} (hc : isWordChar c = false) (a b : List Char) :
    words (a ++ c :: b) = words a ++ words b := by
  unfold words
  rw [List.splitOnP_append_cons a b (by simpa using hc), List.filter_append]

theorem words_cons_break {c : Char} (hc : isWordChar c = false) (cs : List Char) :
    words (c :: cs) = words cs :=
  words_append_break hc [] cs

/-- A text without breaks is one word, or empty. -/
theorem eq_of_mem_words {cs w : List Char} (h : ∀ c ∈ cs, isWordChar c = true)
    (hw : w ∈ words cs) : w = cs := by
  rw [words, List.splitOnP_eq_singleton fun c hc => by simp [h c hc]] at hw
  exact List.mem_singleton.mp (List.mem_filter.mp hw).1

theorem words_of_isWord {cs : List Char} (h : ∀ c ∈ cs, isWordChar c = true) (hne : cs ≠ []) :
    words cs = [cs] := by
  rw [words, List.splitOnP_eq_singleton fun c hc => by simp [h c hc]]
  simp [hne]

/-! ## Pieces -/

/-- No word goes on after the text: it is empty or ends in a break. -/
def EndsApart (s : String) : Prop :=
  ∀ c ∈ s.toList.getLast?, isWordChar c = false

instance (s : String) : Decidable (EndsApart s) :=
  decidable_of_iff (s.toList.getLast?.all (!isWordChar ·) = true) (by
    unfold EndsApart
    cases s.toList.getLast? <;> simp)

theorem words_append {a b : String} (ha : EndsApart a) :
    words (a ++ b).toList = words a.toList ++ words b.toList := by
  rw [String.toList_append]
  unfold EndsApart at ha
  rcases List.eq_nil_or_concat' a.toList with hnil | ⟨front, c, hconcat⟩
  · rw [hnil]
    rfl
  · rw [hconcat, List.getLast?_concat] at ha
    have hc := ha c rfl
    rw [hconcat, List.append_assoc, List.singleton_append, words_append_break hc,
      words_append_break hc, words_nil, List.append_nil]

theorem EndsApart.append {a b : String} (ha : EndsApart a) (hb : EndsApart b) : EndsApart (a ++ b) := by
  unfold EndsApart at *
  rw [String.toList_append, List.getLast?_append]
  cases hlast : b.toList.getLast? with
  | none => simpa using ha
  | some c =>
    rw [hlast] at hb
    simpa using hb

theorem endsApart_join {texts : List String} (h : ∀ t ∈ texts, EndsApart t) :
    EndsApart (String.join texts) := by
  induction texts with
  | nil => decide
  | cons t rest ih =>
    rw [String.join_cons]
    obtain ⟨ht, hrest⟩ := List.forall_mem_cons.mp h
    exact ht.append (ih hrest)

theorem words_join {texts : List String} (h : ∀ t ∈ texts, EndsApart t) :
    words (String.join texts).toList = texts.flatMap fun t => words t.toList := by
  induction texts with
  | nil => rfl
  | cons t rest ih =>
    obtain ⟨ht, hrest⟩ := List.forall_mem_cons.mp h
    rw [String.join_cons, words_append ht, ih hrest, List.flatMap_cons]

/-- No word goes on into the text: it is empty or begins with a break. -/
def StartsApart (s : String) : Prop :=
  ∀ c ∈ s.toList.head?, isWordChar c = false

instance (s : String) : Decidable (StartsApart s) :=
  decidable_of_iff (s.toList.head?.all (!isWordChar ·) = true) (by
    unfold StartsApart
    cases s.toList.head? <;> simp)

theorem words_append_of_startsApart {a b : String} (hb : StartsApart b) :
    words (a ++ b).toList = words a.toList ++ words b.toList := by
  rw [String.toList_append]
  unfold StartsApart at hb
  cases hlist : b.toList with
  | nil => rw [List.append_nil, words_nil, List.append_nil]
  | cons c rest =>
    rw [hlist] at hb
    have hc := hb c rfl
    rw [words_append_break hc, words_cons_break hc]

/-- A break at the end of a text that is not empty is the end of whatever the text ends. -/
theorem EndsApart.append_left {b : String} (hb : EndsApart b) (hne : b ≠ "") (a : String) :
    EndsApart (a ++ b) := by
  unfold EndsApart at *
  rw [String.toList_append, List.getLast?_append_of_ne_nil _ fun h => hne (String.toList_eq_nil_iff.mp h)]
  exact hb

theorem words_intercalate {separator : String} (hstart : StartsApart separator)
    (hend : EndsApart separator) (hne : separator ≠ "") {texts : List String} {w : List Char}
    (h : w ∈ words (separator.intercalate texts).toList) :
    w ∈ words separator.toList ∨ ∃ t ∈ texts, w ∈ words t.toList := by
  induction texts with
  | nil => cases h
  | cons t rest ih =>
    cases rest with
    | nil =>
      rw [String.intercalate_singleton] at h
      exact Or.inr ⟨t, List.mem_cons_self, h⟩
    | cons next rest =>
      rw [String.intercalate_cons_cons, words_append (hend.append_left hne t),
        words_append_of_startsApart hstart, List.mem_append, List.mem_append] at h
      rcases h with (hfirst | hseparator) | hrest
      · exact Or.inr ⟨t, List.mem_cons_self, hfirst⟩
      · exact Or.inl hseparator
      · refine (ih hrest).imp_right ?_
        rintro ⟨u, hu, hw⟩
        exact ⟨u, List.mem_cons_of_mem _ hu, hw⟩

/-- A word character in front of a text goes on into its first word, if one begins there. -/
theorem mem_words_cons {c : Char} (hc : isWordChar c = true) {cs w : List Char}
    (h : w ∈ words (c :: cs)) : w.head? = some c ∨ w ∈ words cs := by
  unfold words at h ⊢
  rw [List.splitOnP_cons_eq_if_modifyHead, hc, Bool.not_true, if_neg Bool.false_ne_true] at h
  obtain ⟨hmem, hne⟩ := List.mem_filter.mp h
  cases hsplit : cs.splitOnP (!isWordChar ·) with
  | nil => exact absurd hsplit (List.splitOnP_ne_nil _ _)
  | cons first rest =>
    rw [hsplit, List.modifyHead_cons] at hmem
    rcases List.mem_cons.mp hmem with rfl | hrest
    · exact Or.inl rfl
    · exact Or.inr (List.mem_filter.mpr ⟨List.mem_cons_of_mem _ hrest, hne⟩)

theorem splitCommas_ne_nil (cs : List Char) : splitCommas cs ≠ [] := by
  fun_cases splitCommas cs <;> simp

/-- The words between commas are those of the whole. -/
theorem words_splitCommas {cs first : List Char} {pieces : List (List Char)}
    (h : splitCommas cs = first :: pieces) (front : List Char) :
    words (front ++ cs) = words (front ++ first) ++ pieces.flatMap words := by
  fun_induction splitCommas cs generalizing front first pieces with
  | case1 =>
    cases h
    simp
  | case2 rest ih =>
    cases h
    have hcomma : isWordChar ',' = false := rfl
    rw [words_append_break hcomma, List.append_nil]
    cases hsplit : splitCommas rest with
    | nil => exact absurd hsplit (splitCommas_ne_nil rest)
    | cons first pieces =>
      have hrest := ih hsplit []
      rw [List.nil_append, List.nil_append] at hrest
      rw [List.flatMap_cons, hrest]
  | case3 c rest _ hsplit => exact absurd hsplit (splitCommas_ne_nil rest)
  | case4 c rest _ first pieces hsplit ih =>
    cases h
    simpa using ih hsplit (front ++ [c])

theorem mem_words_of_mem_splitCommas {cs piece w : List Char} (hpiece : piece ∈ splitCommas cs)
    (hw : w ∈ words piece) : w ∈ words cs := by
  cases hsplit : splitCommas cs with
  | nil => exact absurd hsplit (splitCommas_ne_nil cs)
  | cons first pieces =>
    have hwords := words_splitCommas hsplit []
    rw [hsplit] at hpiece
    rw [List.nil_append] at hwords
    rw [hwords, List.nil_append, List.mem_append, List.mem_flatMap]
    rcases List.mem_cons.mp hpiece with rfl | hlater
    · exact Or.inl hw
    · exact Or.inr ⟨piece, hlater, hw⟩

/-! ## Breaks around a text -/

theorem words_breaks_append {a : List Char} (h : ∀ c ∈ a, isWordChar c = false) (b : List Char) :
    words (a ++ b) = words b := by
  induction a with
  | nil => rfl
  | cons c rest ih =>
    obtain ⟨hc, hrest⟩ := List.forall_mem_cons.mp h
    rw [List.cons_append, words_cons_break hc, ih hrest]

theorem words_append_breaks (a : List Char) {b : List Char} (h : ∀ c ∈ b, isWordChar c = false) :
    words (a ++ b) = words a := by
  cases b with
  | nil => rw [List.append_nil]
  | cons c rest =>
    obtain ⟨hc, hrest⟩ := List.forall_mem_cons.mp h
    have hnone := words_breaks_append hrest []
    rw [List.append_nil] at hnone
    rw [words_append_break hc, hnone, words_nil, List.append_nil]

theorem words_dropEndWhile {p : Char → Bool} (hp : ∀ c, p c = true → isWordChar c = false)
    (cs : List Char) : words (dropEndWhile p cs) = words cs := by
  have hsplit : cs = dropEndWhile p cs ++ (cs.reverse.takeWhile p).reverse := by
    rw [dropEndWhile, ← List.reverse_append, List.takeWhile_append_dropWhile, List.reverse_reverse]
  conv_rhs => rw [hsplit]
  refine (words_append_breaks _ fun c hc => hp c ?_).symm
  exact List.mem_takeWhile_imp (List.mem_reverse.mp hc)

theorem words_trimLineFeeds (s : String) : words (trimLineFeeds s).toList = words s.toList := by
  rw [trimLineFeeds, String.toList_ofList]
  refine words_dropEndWhile (fun c hc => ?_) _
  rw [beq_iff_eq.mp hc]
  rfl

/-! ## Moving in -/

/-- Whether the first line of a text is moved in makes no difference to its words. -/
theorem words_movedIn_splitLines {unit : List Char} (hunit : ∀ c ∈ unit, isWordChar c = false)
    {cs : List Char} (h : ∀ line rest, splitLines cs = line :: rest →
      words (line ++ '\n' :: Nesting.movedIn unit rest) = words cs) :
    words (Nesting.movedIn unit (splitLines cs)) = words cs := by
  cases hsplit : splitLines cs with
  | nil =>
    rw [splitLines_eq_nil_iff.mp hsplit]
    rfl
  | cons line rest =>
    rw [← h line rest hsplit, Nesting.movedIn, List.flatMap_cons]
    cases line with
    | nil => rfl
    | cons c line =>
      simp only [List.isEmpty_cons, Bool.false_eq_true, if_false, List.append_assoc]
      exact words_breaks_append hunit _

/-- Moving all lines but the first of a text in leaves its words as they are, whatever stands
before it. -/
theorem words_movedIn {unit : List Char} (hunit : ∀ c ∈ unit, isWordChar c = false)
    {cs line : List Char} {rest : List (List Char)} (hlines : splitLines cs = line :: rest)
    (front : List Char) :
    words (front ++ (line ++ '\n' :: Nesting.movedIn unit rest)) = words (front ++ cs) := by
  have hfeed : isWordChar '\n' = false := rfl
  have hreturn : isWordChar '\r' = false := rfl
  -- Every line feed is a break already, so the spaces after it break no word.
  fun_induction splitLines cs generalizing front line rest with
  | case1 => cases hlines
  | case2 tail ih =>
    cases hlines
    rw [List.nil_append, words_append_break hfeed, words_append_break hreturn,
      words_cons_break hfeed, words_movedIn_splitLines hunit fun _ _ hsplit => ih hsplit []]
  | case3 tail ih =>
    cases hlines
    rw [List.nil_append, words_append_break hfeed, words_append_break hfeed,
      words_movedIn_splitLines hunit fun _ _ hsplit => ih hsplit []]
  | case4 c tail _ _ hsplit ih =>
    cases hlines
    obtain rfl := splitLines_eq_nil_iff.mp hsplit
    rw [← List.append_assoc, words_append_break hfeed]
    simp [Nesting.movedIn]
  | case5 c tail _ _ line lines hsplit ih =>
    cases hlines
    have hmore := ih hsplit (front ++ [c])
    simpa using hmore

theorem words_indent {unit : String} (hunit : ∀ c ∈ unit.toList, isWordChar c = false)
    (s : String) : words (indent unit s).toList = words s.toList := by
  rw [Nesting.toList_indent]
  exact words_movedIn_splitLines hunit fun _ _ hsplit => words_movedIn hunit hsplit []

theorem endsApart_indent (unit s : String) : EndsApart (indent unit s) := by
  refine endsApart_join fun t ht => ?_
  obtain ⟨line, -, rfl⟩ := List.mem_map.mp ht
  exact EndsApart.append_left (by decide) (by decide) _

end BlockCompiler.Text
