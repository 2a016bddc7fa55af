import BlockCompiler.Proofs.Text.Layout

/-!
# Nesting of brackets

A source in a language with braces is read from left to right.  String literals end at the next
quote that no backslash stands before, and have to do so on their own line; comments go from
two slashes to the end of the line.  In what is left, braces and parentheses have to match.
`Nesting.scan` is the reader, and `Nesting.isWellNested` says that it gets to the end of a text
with nothing left open.

What a piece of text does to the open brackets does not depend on the brackets around it
(`scan_under`), so pieces are looked at one by one: `Carries` says which brackets are open before
and after a piece, and `Neutral` that it closes all it opens, and nothing else.  Neutral texts
stay so when they are moved in, and when the line feeds at their end are cut to one.
-/

namespace BlockCompiler.Nesting

open Text

/-! ## Reading a source -/

/-- What the next character is part of. -/
inductive Mode where
  | code
  /-- The character before was a slash, which may begin a comment. -/
  | slash
  | comment
  | literal
  /-- The character before was a backslash in a literal. -/
  | escape
deriving DecidableEq, Repr

/-- How far a source has been read. -/
structure State where
  mode : Mode := .code
  /-- The open brackets, the innermost first. -/
  opened : List Char := []
deriving DecidableEq, Repr

/-- The bracket that a closing one goes with. -/
def partner? : Char → Option Char
  | ')' => some '('
  | '\x7d' => some '\x7b'
  | _ => none

/-- The innermost bracket is closed; it has to be the given one. -/
def close (bracket : Char) : List Char → Option State
  | [] => none
  | innermost :: rest => if innermost = bracket then some ⟨.code, rest⟩ else none

/-- Reads a character that is neither in a literal nor in a comment. -/
def readCode (opened : List Char) (c : Char) : Option State :=
  if c = '"' then some ⟨.literal, opened⟩
  else if c = '/' then some ⟨.slash, opened⟩
  else if c = '(' ∨ c = '\x7b' then some ⟨.code, c :: opened⟩
  else
    match partner? c with
    | some bracket => close bracket opened
    | none => some ⟨.code, opened⟩

/-- Reads a character.  There is no state after a line feed in a literal, and none after a bracket
that does not go with the innermost open one. -/
def advance : State → Char → Option State
  | ⟨.code, opened⟩, c => readCode opened c
  | ⟨.slash, opened⟩, c => if c = '/' then some ⟨.comment, opened⟩ else readCode opened c
  | ⟨.comment, opened⟩, c => some ⟨if c = '\n' then .code else .comment, opened⟩
  | ⟨.literal, opened⟩, c =>
    if c = '\n' then none
    else if c = '"' then some ⟨.code, opened⟩
    else some ⟨if c = '\\' then .escape else .literal, opened⟩
  | ⟨.escape, opened⟩, c => if c = '\n' then none else some ⟨.literal, opened⟩

/-- Reads characters one after the other. -/
def scan (s : State) (cs : List Char) : Option State :=
  cs.foldlM advance s

/-- Literals are closed on their own lines, and brackets match. -/
def isWellNested (text : String) : Bool :=
  match scan {} text.toList with
  | some s => s.opened.isEmpty && s.mode != .literal && s.mode != .escape
  | none => false

@[simp] theorem scan_nil (s : State) : scan s [] = some s := rfl

theorem scan_cons (s : State) (c : Char) (cs : List Char) :
    scan s (c :: cs) = (advance s c).bind fun s' => scan s' cs := rfl

theorem scan_append (s : State) (cs ds : List Char) :
    scan s (cs ++ ds) = (scan s cs).bind fun s' => scan s' ds :=
  List.foldlM_append

/-! ## Brackets around a text -/

theorem close_under {bracket : Char} {opened : List Char} {s : State}
    (h : close bracket opened = some s) (around : List Char) :
    close bracket (opened ++ around) = some ⟨s.mode, s.opened ++ around⟩ := by
  cases opened with
  | nil => cases h
  | cons innermost rest =>
    rw [List.cons_append]
    by_cases heq : innermost = bracket
    · simp only [close, if_pos heq] at h ⊢
      cases h
      rfl
    · simp only [close, if_neg heq] at h
      cases h

theorem readCode_under {opened : List Char} {c : Char} {s : State}
    (h : readCode opened c = some s) (around : List Char) :
    readCode (opened ++ around) c = some ⟨s.mode, s.opened ++ around⟩ := by
  by_cases hquote : c = '"'
  · simp only [readCode, if_pos hquote] at h ⊢
    cases h
    rfl
  by_cases hslash : c = '/'
  · simp only [readCode, if_neg hquote, if_pos hslash] at h ⊢
    cases h
    rfl
  by_cases hopening : c = '(' ∨ c = '\x7b'
  · simp only [readCode, if_neg hquote, if_neg hslash, if_pos hopening] at h ⊢
    cases h
    rfl
  simp only [readCode, if_neg hquote, if_neg hslash, if_neg hopening] at h ⊢
  cases hpartner : partner? c with
  | some bracket =>
    rw [hpartner] at h
    exact close_under h around
  | none =>
    rw [hpartner] at h
    cases h
    rfl

theorem advance_under {s s' : State} {c : Char} (h : advance s c = some s') (around : List Char) :
    advance ⟨s.mode, s.opened ++ around⟩ c = some ⟨s'.mode, s'.opened ++ around⟩ := by
  obtain ⟨mode, opened⟩ := s
  -- Only code opens and closes brackets; in the other modes they are passed over.
  cases mode with
  | code => exact readCode_under h around
  | slash =>
    by_cases hslash : c = '/'
    · simp only [advance, if_pos hslash] at h ⊢
      cases h
      rfl
    · simp only [advance, if_neg hslash] at h ⊢
      exact readCode_under h around
  | comment =>
    cases h
    rfl
  | literal =>
    by_cases hfeed : c = '\n'
    · simp only [advance, if_pos hfeed] at h
      cases h
    by_cases hquote : c = '"'
    · simp only [advance, if_neg hfeed, if_pos hquote] at h ⊢
      cases h
      rfl
    · simp only [advance, if_neg hfeed, if_neg hquote] at h ⊢
      cases h
      rfl
  | escape =>
    by_cases hfeed : c = '\n'
    · simp only [advance, if_pos hfeed] at h
      cases h
    · simp only [advance, if_neg hfeed] at h ⊢
      cases h
      rfl

/-- **What a text does to the open brackets does not depend on those around it.** -/
theorem scan_under {s s' : State} {cs : List Char} (h : scan s cs = some s')
    (around : List Char) :
    scan ⟨s.mode, s.opened ++ around⟩ cs = some ⟨s'.mode, s'.opened ++ around⟩ := by
  induction cs generalizing s with
  | nil =>
    cases h
    rfl
  | cons c rest ih =>
    rw [scan_cons] at h ⊢
    obtain ⟨s₁, hfirst, hrest⟩ := Option.bind_eq_some_iff.mp h
    rw [advance_under hfirst around]
    exact ih hrest

/-! ## Pieces of a source -/

/-- Before the text the brackets of `before` are open, after it those of `after`. -/
def Carries (before : List Char) (text : String) (after : List Char) : Prop :=
  scan ⟨.code, before⟩ text.toList = some ⟨.code, after⟩

instance (before : List Char) (text : String) (after : List Char) :
    Decidable (Carries before text after) :=
  inferInstanceAs (Decidable (_ = _))

/-- The text closes the brackets that it opens, and no others. -/
def Neutral (text : String) : Prop :=
  Carries [] text []

instance (text : String) : Decidable (Neutral text) :=
  inferInstanceAs (Decidable (Carries _ _ _))

theorem isWellNested_of_neutral {text : String} (h : Neutral text) : isWellNested text = true := by
  have hscan : scan {} text.toList = some ⟨.code, []⟩ := h
  rw [isWellNested, hscan]
  rfl

example : isWellNested "f(\x7b)\x7d" = false := by decide

example : isWellNested "s = \"(\n\";" = false := by decide

theorem Carries.append {a b c : List Char} {s t : String} (hs : Carries a s b)
    (ht : Carries b t c) : Carries a (s ++ t) c := by
  have hfirst : scan ⟨.code, a⟩ s.toList = some ⟨.code, b⟩ := hs
  rw [Carries, String.toList_append, scan_append, hfirst]
  exact ht

theorem Neutral.under {text : String} (h : Neutral text) (around : List Char) :
    Carries around text around :=
  scan_under h around

/-- A neutral text goes anywhere in code. -/
theorem Carries.neutral {a b : List Char} {s t : String} (hs : Carries a s b) (ht : Neutral t) :
    Carries a (s ++ t) b :=
  hs.append (ht.under b)

theorem neutral_empty : Neutral "" := rfl

theorem neutral_join {texts : List String} (h : ∀ t ∈ texts, Neutral t) :
    Neutral (String.join texts) := by
  induction texts with
  | nil => exact neutral_empty
  | cons t rest ih =>
    rw [String.join_cons]
    exact Carries.neutral (h t List.mem_cons_self) (ih fun u hu => h u (List.mem_cons_of_mem _ hu))

theorem neutral_intercalate {separator : String} (hseparator : Neutral separator)
    {texts : List String} (h : ∀ t ∈ texts, Neutral t) :
    Neutral (separator.intercalate texts) := by
  induction texts with
  | nil => exact neutral_empty
  | cons t rest ih =>
    have hfirst := h t List.mem_cons_self
    cases rest with
    | nil =>
      rw [String.intercalate_singleton]
      exact hfirst
    | cons u rest =>
      rw [String.intercalate_cons_cons]
      refine (Carries.neutral hfirst hseparator).neutral ?_
      exact ih fun v hv => h v (List.mem_cons_of_mem _ hv)

/-! ## Characters without a meaning -/

/-- The character means nothing to a scan in code. -/
def isInert (c : Char) : Bool :=
  c != '"' && c != '/' && c != '(' && c != '\x7b' && c != ')' && c != '\x7d'

theorem readCode_of_isInert {c : Char} (h : isInert c = true) (opened : List Char) :
    readCode opened c = some ⟨.code, opened⟩ := by
  simp only [isInert, Bool.and_eq_true, bne_iff_ne, ne_eq] at h
  obtain ⟨⟨⟨⟨⟨hquote, hslash⟩, hround⟩, hcurly⟩, hround'⟩, hcurly'⟩ := h
  have hpartner : partner? c = none := by
    unfold partner?
    split
    · exact absurd rfl hround'
    · exact absurd rfl hcurly'
    · rfl
  rw [readCode, if_neg hquote, if_neg hslash, if_neg (not_or.mpr ⟨hround, hcurly⟩), hpartner]

/-- No character of the text means anything to a scan in code. -/
def Inert (text : String) : Prop :=
  ∀ c ∈ text.toList, isInert c = true

instance (text : String) : Decidable (Inert text) :=
  decidable_of_iff (text.toList.all isInert = true) List.all_eq_true

theorem scan_of_isInert {cs : List Char} (h : ∀ c ∈ cs, isInert c = true) (opened : List Char) :
    scan ⟨.code, opened⟩ cs = some ⟨.code, opened⟩ := by
  induction cs with
  | nil => rfl
  | cons c rest ih =>
    obtain ⟨hc, hrest⟩ := List.forall_mem_cons.mp h
    rw [scan_cons, advance, readCode_of_isInert hc]
    exact ih hrest

theorem Inert.neutral {text : String} (h : Inert text) : Neutral text :=
  scan_of_isInert h []

/-- A character class without the six characters that have a meaning. -/
theorem isInert_of_class {p : Char → Bool} {c : Char} (hc : p c = true)
    (hp : ['"', '/', '(', '\x7b', ')', '\x7d'].all (!p ·) = true) : isInert c = true := by
  have hne : ∀ d, p d = false → c ≠ d := by
    rintro d hd rfl
    rw [hc] at hd
    cases hd
  simp only [List.all_cons, List.all_nil, Bool.and_true, Bool.and_eq_true, Bool.not_eq_true'] at hp
  obtain ⟨hquote, hslash, hround, hcurly, hround', hcurly'⟩ := hp
  simp [isInert, hne _ hquote, hne _ hslash, hne _ hround, hne _ hcurly, hne _ hround',
    hne _ hcurly']

/-! ## Line feeds -/

/-- After a line feed a scan is in code, with the same brackets open. -/
theorem eq_of_advance_lineFeed {s s' : State} (h : advance s '\n' = some s') :
    s' = ⟨.code, s.opened⟩ := by
  obtain ⟨mode, opened⟩ := s
  cases mode <;> cases h <;> rfl

/-- A carriage return before the line feed makes no difference. -/
theorem advance_lineFeed_of_return {s s₁ s₂ : State} (h : advance s '\r' = some s₁)
    (h₁ : advance s₁ '\n' = some s₂) : advance s '\n' = some s₂ := by
  obtain ⟨mode, opened⟩ := s
  cases mode <;> cases h <;> exact h₁

/-- A neutral text stays neutral with the line feeds at its end cut to one, or with one added. -/
theorem Neutral.trimLineFeeds {text : String} (h : Neutral text) :
    Neutral (trimLineFeeds text ++ "\n") := by
  obtain ⟨feeds, htext, hfeeds⟩ := exists_lineFeeds text
  have hscan : scan ⟨.code, []⟩ text.toList = some ⟨.code, []⟩ := h
  rw [htext, scan_append] at hscan
  obtain ⟨s, hbody, hrest⟩ := Option.bind_eq_some_iff.mp hscan
  -- The scan up to the line feeds ends in a state that the first of them leads back to code.
  have hend : advance s '\n' = some ⟨.code, []⟩ := by
    cases feeds with
    | nil =>
      cases hrest
      rfl
    | cons c rest =>
      obtain ⟨rfl, hmore⟩ := List.forall_mem_cons.mp hfeeds
      rw [scan_cons] at hrest
      obtain ⟨s₁, hfirst, hrest⟩ := Option.bind_eq_some_iff.mp hrest
      have hinert : ∀ c ∈ rest, isInert c = true := fun c hc => hmore c hc ▸ rfl
      rw [eq_of_advance_lineFeed hfirst, scan_of_isInert hinert] at hrest
      rw [hfirst, eq_of_advance_lineFeed hfirst]
      exact hrest
  show scan _ _ = _
  rw [String.toList_append, scan_append, hbody]
  show (advance s '\n').bind _ = _
  rw [hend]
  rfl

/-! ## Moving in -/

/-- Lines one `unit` further in, as characters. -/
def movedIn (unit : List Char) (lines : List (List Char)) : List Char :=
  lines.flatMap fun line => (if line.isEmpty then [] else unit ++ line) ++ ['\n']

theorem toList_indent (unit text : String) :
    (indent unit text).toList = movedIn unit.toList (splitLines text.toList) := by
  rw [indent, mapLines, lines, List.map_map]
  induction splitLines text.toList with
  | nil => rfl
  | cons line rest ih =>
    rw [List.map_cons, String.join_cons, String.toList_append, ih]
    cases line <;> simp [movedIn]

/-- A line further in reads like the line itself. -/
theorem scan_movedIn_cons {unit : List Char} (hunit : ∀ c ∈ unit, isInert c = true)
    (opened line : List Char) (rest : List (List Char)) :
    scan ⟨.code, opened⟩ (movedIn unit (line :: rest)) =
      scan ⟨.code, opened⟩ (line ++ '\n' :: movedIn unit rest) := by
  rw [movedIn, List.flatMap_cons]
  cases line with
  | nil => rfl
  | cons c cs =>
    simp only [List.isEmpty_cons, Bool.false_eq_true, if_false, List.append_assoc]
    rw [scan_append, scan_of_isInert hunit]
    rfl

/-- Moving all lines but the first of a text in leaves its scan as it is, and ends its last line. -/
theorem scan_movedIn {unit : List Char} (hunit : ∀ c ∈ unit, isInert c = true) {cs : List Char}
    {s s' : State} (h : scan s cs = some s') (hend : advance s' '\n' = some ⟨.code, s'.opened⟩)
    {line : List Char} {rest : List (List Char)} (hlines : splitLines cs = line :: rest) :
    scan s (line ++ '\n' :: movedIn unit rest) = some ⟨.code, s'.opened⟩ := by
  -- After a line feed the scan is in code, where the next line may be moved in.
  have hnext : ∀ {cs : List Char} {s₁ : State}, scan ⟨.code, s₁.opened⟩ cs = some s' →
      (∀ line rest, splitLines cs = line :: rest →
        scan ⟨.code, s₁.opened⟩ (line ++ '\n' :: movedIn unit rest) = some ⟨.code, s'.opened⟩) →
      scan ⟨.code, s₁.opened⟩ (movedIn unit (splitLines cs)) = some ⟨.code, s'.opened⟩ := by
    intro cs s₁ hscan ih
    cases hsplit : splitLines cs with
    | nil =>
      rw [splitLines_eq_nil_iff.mp hsplit] at hscan
      cases hscan
      rfl
    | cons line rest =>
      rw [scan_movedIn_cons hunit]
      exact ih line rest hsplit
  fun_induction splitLines cs generalizing s line rest with
  | case1 => cases hlines
  | case2 tail ih =>
    cases hlines
    rw [scan_cons] at h
    obtain ⟨s₁, hreturn, h⟩ := Option.bind_eq_some_iff.mp h
    rw [scan_cons] at h
    obtain ⟨s₂, hfeed, h⟩ := Option.bind_eq_some_iff.mp h
    have hfirst := advance_lineFeed_of_return hreturn hfeed
    obtain rfl := eq_of_advance_lineFeed hfirst
    rw [List.nil_append, scan_cons, hfirst]
    exact hnext h fun _ _ => ih h
  | case3 tail ih =>
    cases hlines
    rw [scan_cons] at h
    obtain ⟨s₁, hfeed, h⟩ := Option.bind_eq_some_iff.mp h
    obtain rfl := eq_of_advance_lineFeed hfeed
    rw [List.nil_append, scan_cons, hfeed]
    exact hnext h fun _ _ => ih h
  | case4 c tail _ _ hsplit ih =>
    cases hlines
    obtain rfl := splitLines_eq_nil_iff.mp hsplit
    rw [scan_cons] at h
    obtain ⟨s₁, hfirst, h⟩ := Option.bind_eq_some_iff.mp h
    cases h
    rw [List.singleton_append, scan_cons, hfirst]
    show (advance _ '\n').bind _ = _
    rw [hend]
    rfl
  | case5 c tail _ _ line lines hsplit ih =>
    cases hlines
    rw [scan_cons] at h
    obtain ⟨s₁, hfirst, h⟩ := Option.bind_eq_some_iff.mp h
    rw [List.cons_append, scan_cons, hfirst]
    exact ih h hsplit

/-- **A neutral text stays neutral when it is moved in.** -/
theorem Neutral.indent {text : String} (h : Neutral text) {unit : String}
    (hunit : Inert unit) : Neutral (indent unit text) := by
  show scan _ _ = _
  rw [toList_indent]
  cases hsplit : splitLines text.toList with
  | nil => rfl
  | cons line rest =>
    rw [scan_movedIn_cons hunit]
    exact scan_movedIn hunit h rfl hsplit

/-! ## Comments and literals -/

/-- A line behind two slashes. -/
theorem neutral_commentLine {line : String} (h : '\n' ∉ line.toList) :
    Neutral ("//" ++ " " ++ line ++ "\n") := by
  have hscan : ∀ cs : List Char, '\n' ∉ cs →
      scan ⟨.comment, []⟩ (cs ++ ['\n']) = some ⟨.code, []⟩ := by
    intro cs
    induction cs with
    | nil => exact fun _ => rfl
    | cons c rest ih =>
      intro hcs
      obtain ⟨hc, hrest⟩ := not_or.mp (List.mem_cons.not.mp hcs)
      rw [List.cons_append, scan_cons, advance, if_neg fun heq => hc heq.symm]
      exact ih hrest
  have htext : ("//" ++ " " ++ line ++ "\n").toList = '/' :: '/' :: ' ' :: (line.toList ++ ['\n']) :=
    by simp
  show scan _ _ = _
  rw [htext]
  exact hscan _ h

theorem neutral_comment (text : String) :
    Neutral (mapLines (fun line => "//" ++ " " ++ line) text) := by
  refine neutral_join fun t ht => ?_
  obtain ⟨line, hline, rfl⟩ := List.mem_map.mp ht
  obtain ⟨cs, hcs, rfl⟩ := List.mem_map.mp hline
  refine neutral_commentLine ?_
  rw [String.toList_ofList]
  exact not_mem_of_mem_splitLines hcs

end BlockCompiler.Nesting
