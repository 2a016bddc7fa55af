import BlockCompiler.Text.Lines
import Mathlib.Tactic.Common

/-!
# Texts made of whole lines

Generated statements end with their lines: such a text is empty or ends in a line feed
(`IsWhole`).  Joining whole texts joins their lines (`lines_append`), so whatever works
line by line can be done before or after texts are joined (`indent_append`,
`indent_join`).

`Occurs` says that a text is part of another one.
-/

namespace BlockCompiler.Text

/-! ## Whole lines -/

/-- The text is empty or ends in a line feed. -/
def IsWhole (s : String) : Prop :=
  s = "" ∨ s.toList.getLast? = some '\n'

theorem isWhole_empty : IsWhole "" :=
  Or.inl rfl

theorem isWhole_line (s : String) : IsWhole (s ++ "\n") := by
  right
  simp

theorem IsWhole.append {a b : String} (ha : IsWhole a) (hb : IsWhole b) : IsWhole (a ++ b) := by
  rcases hb with rfl | hb
  · rwa [String.append_empty]
  · right
    simp [List.getLast?_append, hb]

theorem isWhole_join {texts : List String} (h : ∀ t ∈ texts, IsWhole t) :
    IsWhole (String.join texts) := by
  induction texts with
  | nil => exact isWhole_empty
  | cons t rest ih =>
    rw [String.join_cons]
    exact (h t List.mem_cons_self).append (ih fun u hu => h u (List.mem_cons_of_mem _ hu))

theorem isWhole_mapLines (f : String → String) (s : String) : IsWhole (mapLines f s) := by
  refine isWhole_join fun t ht => ?_
  obtain ⟨line, -, rfl⟩ := List.mem_map.mp ht
  exact isWhole_line _

theorem isWhole_indent (unit s : String) : IsWhole (indent unit s) :=
  isWhole_mapLines _ s

/-! ## Lines of joined texts -/

theorem splitLines_eq_nil_iff {cs : List Char} : splitLines cs = [] ↔ cs = [] := by
  constructor
  · intro h
    fun_cases splitLines cs <;> simp_all [splitLines]
  · rintro rfl
    rfl

/-- A line end at the end of the first text separates it from the second. -/
theorem splitLines_append {a : List Char} (ha : a = [] ∨ a.getLast? = some '\n') (b : List Char) :
    splitLines (a ++ b) = splitLines a ++ splitLines b := by
  fun_induction splitLines a with
  | case1 => rfl
  | case2 rest ih =>
    have hrest : rest = [] ∨ rest.getLast? = some '\n' := by
      cases rest with
      | nil => exact Or.inl rfl
      | cons d rest => simpa using ha
    simp [splitLines, ih hrest]
  | case3 rest ih =>
    have hrest : rest = [] ∨ rest.getLast? = some '\n' := by
      cases rest with
      | nil => exact Or.inl rfl
      | cons d rest => simpa using ha
    simp [splitLines, ih hrest]
  | case4 c rest hcr hlf hnil ih =>
    -- The text would be a single character that is no line feed.
    obtain rfl := splitLines_eq_nil_iff.mp hnil
    exact absurd (by simpa using ha) hlf
  | case5 c rest hcr hlf line lines hsplit ih =>
    obtain ⟨d, tail, rfl⟩ : ∃ d tail, rest = d :: tail := by
      cases rest with
      | nil => cases hsplit
      | cons d tail => exact ⟨d, tail, rfl⟩
    have hrest : (d :: tail).getLast? = some '\n' := by simpa using ha
    have hfirst : ∀ after, c = '\r' → d :: tail ++ b = '\n' :: after → False := by
      intro after hc hd
      exact hcr tail hc (by simpa using (List.cons.inj hd).1)
    rw [List.cons_append, splitLines.eq_4 _ _ hfirst hlf, ih (Or.inr hrest), hsplit]
    rfl

theorem lines_append {a : String} (ha : IsWhole a) (b : String) :
    lines (a ++ b) = lines a ++ lines b := by
  have ha' : a.toList = [] ∨ a.toList.getLast? = some '\n' :=
    ha.imp_left fun h => String.toList_eq_nil_iff.mpr h
  rw [lines, String.toList_append, splitLines_append ha', List.map_append]
  rfl

theorem mapLines_append (f : String → String) {a : String} (ha : IsWhole a) (b : String) :
    mapLines f (a ++ b) = mapLines f a ++ mapLines f b := by
  rw [mapLines, lines_append ha, List.map_append, String.join_append]
  rfl

theorem indent_append (unit : String) {a : String} (ha : IsWhole a) (b : String) :
    indent unit (a ++ b) = indent unit a ++ indent unit b :=
  mapLines_append _ ha b

theorem indent_join (unit : String) {texts : List String} (h : ∀ t ∈ texts, IsWhole t) :
    indent unit (String.join texts) = String.join (texts.map (indent unit)) := by
  induction texts with
  | nil => rfl
  | cons t rest ih =>
    rw [String.join_cons, indent_append unit (h t List.mem_cons_self),
      ih fun u hu => h u (List.mem_cons_of_mem _ hu), List.map_cons, String.join_cons]

/-! ## Parts -/

/-- The text `t` is part of `s`. -/
def Occurs (t s : String) : Prop :=
  ∃ front back, s = front ++ t ++ back

theorem occurs_refl (s : String) : Occurs s s :=
  ⟨"", "", by simp⟩

theorem Occurs.trans {a b c : String} (hab : Occurs a b) (hbc : Occurs b c) : Occurs a c := by
  obtain ⟨front, back, rfl⟩ := hab
  obtain ⟨front', back', rfl⟩ := hbc
  exact ⟨front' ++ front, back ++ back', by simp [String.append_assoc]⟩

theorem occurs_append_left (a b : String) : Occurs a (a ++ b) :=
  ⟨"", b, by simp⟩

theorem occurs_append_right (a b : String) : Occurs b (a ++ b) :=
  ⟨a, "", by simp⟩

theorem occurs_join {texts : List String} {t : String} (h : t ∈ texts) :
    Occurs t (String.join texts) := by
  obtain ⟨before, after, rfl⟩ := List.append_of_mem h
  rw [String.join_append, String.join_cons]
  exact (occurs_append_left t _).trans (occurs_append_right _ _)

theorem occurs_intercalate (separator : String) {texts : List String} {t : String}
    (h : t ∈ texts) : Occurs t (separator.intercalate texts) := by
  induction texts with
  | nil => cases h
  | cons u rest ih =>
    cases rest with
    | nil =>
      rw [List.mem_singleton.mp h, String.intercalate_singleton]
      exact occurs_refl u
    | cons v rest =>
      rw [String.intercalate_cons_cons]
      rcases List.mem_cons.mp h with rfl | h
      · exact (occurs_append_left t _).trans (occurs_append_left _ _)
      · exact (ih h).trans (occurs_append_right _ _)

theorem blank_eq_false_of_occurs {t s : String} (h : Occurs t s) (ht : blank t = false) :
    blank s = false := by
  obtain ⟨front, back, rfl⟩ := h
  obtain ⟨c, hc, hblank⟩ := List.all_eq_false.mp ht
  exact List.all_eq_false.mpr ⟨c, by simp [hc], hblank⟩

/-! ## The end of a text -/

/-- What does not end in the run that is dropped is kept. -/
theorem dropEndWhile_append {α : Type} {p : α → Bool} {a : List α} {c : α}
    (hlast : a.getLast? = some c) (hc : p c = false) (b : List α) :
    dropEndWhile p (a ++ b) = a ++ dropEndWhile p b := by
  have ha : a.reverse.dropWhile p = a.reverse := by
    rw [← List.head?_reverse] at hlast
    cases hrev : a.reverse with
    | nil => rfl
    | cons d rest =>
      rw [hrev, List.head?_cons] at hlast
      cases hlast
      rw [List.dropWhile_cons, hc]
      rfl
  rw [dropEndWhile, List.reverse_append, List.dropWhile_append, ha]
  cases hb : b.reverse.dropWhile p <;> simp [dropEndWhile, hb]

theorem trimLineFeeds_append {a : String} {c : Char} (hlast : a.toList.getLast? = some c)
    (hc : c ≠ '\n') (b : String) : trimLineFeeds (a ++ b) = a ++ trimLineFeeds b := by
  have hdrop := dropEndWhile_append (p := (· == '\n')) hlast (by simpa using hc) b.toList
  rw [trimLineFeeds, String.toList_append, hdrop, String.ofList_append, String.ofList_toList]
  rfl

/-- Trimming line feeds keeps every part that ends in another character. -/
theorem Occurs.trimLineFeeds {t s : String} (h : Occurs t s) {c : Char}
    (hlast : t.toList.getLast? = some c) (hc : c ≠ '\n') : Occurs t (trimLineFeeds s) := by
  obtain ⟨front, back, rfl⟩ := h
  have hlast' : (front ++ t).toList.getLast? = some c := by
    simp [List.getLast?_append, hlast]
  rw [trimLineFeeds_append hlast' hc]
  exact (occurs_append_right front t).trans (occurs_append_left _ _)

end BlockCompiler.Text
