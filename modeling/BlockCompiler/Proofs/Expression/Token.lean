import BlockCompiler.Decimal.Numeral
import Mathlib.Data.List.Basic
import Mathlib.Data.List.TakeWhile
import Mathlib.Tactic.Common

/-!
# Tokens

The first step of reading an expression takes its text apart into words, numerals
and signs.  Each token is as long as it can be: `scan` goes over the characters once
and keeps the token that is being read, which every character either extends or ends.
So `a--b` holds the sign `--`, if the language has one, and not two signs of one
character.

Generated text is put together from pieces, and what a piece is taken apart into must
not depend on the text around it.  `Lexes` says so for every text that may follow: a
blank, a closing bracket or a comma, with which no token can go on.
-/

namespace BlockCompiler

/-- The smallest parts of an expression, with their characters. -/
inductive Token where
  | numeral (spelling : List Char)
  | word (spelling : List Char)
  | sign (spelling : List Char)
deriving DecidableEq, Repr

/-- The characters of a token. -/
def Token.spelling : Token → List Char
  | numeral cs | word cs | sign cs => cs

/-- The character may stand in a word. -/
def isWordChar (c : Char) : Bool :=
  c.isAlphanum || c == '_'

/-- The text is a word: letters, digits and underscores, not beginning with a digit. -/
def isWord : List Char → Bool
  | [] => false
  | c :: rest => (c.isAlpha || c == '_') && rest.all isWordChar

/-- The text is a decimal literal without a sign: digits with an optional point among or around
them, and an optional exponent. -/
def isDecimal (cs : List Char) : Bool :=
  match Numeral.scan? cs with
  | some n => n.sign.isNone && n.isLiteral
  | none => false

/-- The character separates tokens. -/
def isSpace (c : Char) : Bool :=
  c == ' ' || c == '\t' || c == '\n'

/-- The signs of a language.  The point, brackets and the comma are among them; blanks, brackets and
commas are part of no longer sign. -/
structure Lexicon where
  signs : List (List Char)
  plain : ∀ c ∈ ['.', '(', ')', ','], [c] ∈ signs
  apart : ∀ s ∈ signs, ∀ c ∈ [' ', '(', ')', ','], c ∈ s → s = [c]
  /-- A word goes on over a point, as the name of something in a module does. -/
  dotted : Bool := false

namespace Numeral

/-- A sign is at most one character. -/
theorem splitSign_parts (cs : List Char) :
    ∃ sg ∈ [[], ['+'], ['-']], cs = sg ++ (splitSign cs).2 ∧
      ((splitSign cs).1 = none → sg = []) := by
  fun_cases splitSign cs <;> simp

/-- A fraction is a point with digits behind it. -/
theorem splitFraction_parts (cs : List Char) :
    (splitFraction cs = (none, cs)) ∨
      ∃ ds rest, cs = '.' :: (ds ++ rest) ∧ splitFraction cs = (some ds, rest) ∧
        ∀ c ∈ ds, c.isDigit = true := by
  fun_cases splitFraction cs with
  | case1 rest =>
    exact Or.inr ⟨_, _, by simp, rfl, fun c hc => List.mem_takeWhile_imp hc⟩
  | case2 => exact Or.inl rfl

/-- An exponent is a letter, a sign and digits. -/
theorem exponentOf?_parts {cs : List Char} {x : Option (Option Char × List Char)}
    (h : exponentOf? cs = some x) :
    cs = [] ∨ ∃ e ∈ ['e', 'E'], ∃ sg ∈ [[], ['+'], ['-']], ∃ ds,
      cs = e :: (sg ++ ds) ∧ ∀ c ∈ ds, c.isDigit = true := by
  cases cs with
  | nil => exact Or.inl rfl
  | cons e rest =>
    obtain ⟨sg, hsg, hrest, -⟩ := splitSign_parts rest
    simp only [exponentOf?] at h
    split at h
    · rename_i hall
      simp only [Bool.and_eq_true, Bool.or_eq_true, beq_iff_eq, List.all_eq_true] at hall
      exact Or.inr ⟨e, by simpa using hall.1.1, sg, hsg, _, by rw [← hrest], hall.2⟩
    · cases h

end Numeral

/-- The parts of a decimal literal. -/
theorem isDecimal_parts {cs : List Char} (h : isDecimal cs = true) :
    ∃ whole fraction exponent, cs = whole ++ (fraction ++ exponent) ∧
      (∀ c ∈ whole, c.isDigit = true) ∧
      (fraction = [] ∧ whole ≠ [] ∨ ∃ ds, fraction = '.' :: ds ∧ (∀ c ∈ ds, c.isDigit = true) ∧
        (whole ≠ [] ∨ ds ≠ [])) ∧
      (exponent = [] ∨ ∃ e ∈ ['e', 'E'], ∃ sg ∈ [[], ['+'], ['-']], ∃ ds,
        exponent = e :: (sg ++ ds) ∧ ∀ c ∈ ds, c.isDigit = true) := by
  rw [isDecimal] at h
  split at h
  case h_2 => cases h
  case h_1 n hscan =>
    obtain ⟨exponent, hexponent, rfl⟩ := Option.map_eq_some_iff.mp hscan
    obtain ⟨sg, -, hcs, hsg⟩ := Numeral.splitSign_parts cs
    simp only [Bool.and_eq_true, Option.isNone_iff_eq_none, Numeral.isLiteral, Bool.or_eq_true,
      Bool.not_eq_true', List.isEmpty_eq_false_iff] at h
    rw [hsg h.1, List.nil_append] at hcs
    rw [← hcs] at h hexponent
    have hsplit := List.takeWhile_append_dropWhile (p := Char.isDigit) (l := cs)
    have hexp := Numeral.exponentOf?_parts hexponent
    refine ⟨cs.takeWhile Char.isDigit, ?_⟩
    -- Without a point the exponent, if any, follows the digits at once.
    rcases Numeral.splitFraction_parts (cs.dropWhile Char.isDigit) with hnone | ⟨ds, rest, hds, hsome, hall⟩
    · rw [hnone] at h hexp
      refine ⟨[], cs.dropWhile Char.isDigit, by simp, fun c hc => List.mem_takeWhile_imp hc, ?_, hexp⟩
      exact Or.inl ⟨rfl, by simpa using h.2⟩
    · rw [hsome] at h hexp
      refine ⟨'.' :: ds, rest, ?_, fun c hc => List.mem_takeWhile_imp hc, ?_, hexp⟩
      · rw [List.cons_append, ← hds, hsplit]
      · exact Or.inr ⟨ds, rfl, hall, by simpa using h.2⟩

namespace Lexicon

variable {L : Lexicon}

/-- The token that a character begins. -/
def start? (L : Lexicon) (c : Char) : Option Token :=
  if c.isAlpha || c == '_' then some (.word [c])
  else if c.isDigit then some (.numeral [c])
  else if [c] ∈ L.signs then some (.sign [c])
  else none

/-- The token with one more character, if it can go on with it.  In a numeral, a sign may stand
after the letter of an exponent. -/
def extend? (L : Lexicon) : Token → Char → Option Token
  | .word w, c =>
    if isWordChar c || (L.dotted && c == '.') then some (.word (w ++ [c])) else none
  | .numeral n, c =>
    if isWordChar c || c == '.' ||
        ((c == '+' || c == '-') && (n.getLast?.any fun l => ['e', 'E', 'p', 'P'].contains l)) then
      some (.numeral (n ++ [c]))
    else none
  | .sign s, c =>
    if s = ['.'] ∧ c.isDigit then some (.numeral ['.', c])
    else if s ++ [c] ∈ L.signs then some (.sign (s ++ [c]))
    else none

/-- The token that all of a text makes up. -/
def token? (L : Lexicon) : List Char → Option Token
  | [] => none
  | c :: cs => if isSpace c then none else (L.start? c).bind fun t => cs.foldlM L.extend? t

/-- The tokens of a text that is read on from a token; there are none if some character neither
extends nor begins one. -/
def scan (L : Lexicon) : Option Token → List Char → Option (List Token)
  | none, [] => some []
  | some t, [] => some [t]
  | p, c :: cs =>
    match p.bind (L.extend? · c) with
    | some t => L.scan (some t) cs
    | none =>
      (if isSpace c then L.scan none cs
        else (L.start? c).bind fun t => L.scan (some t) cs).map (p.toList ++ ·)

/-! ## Steps -/

/-- A character that a token can go on with extends it. -/
theorem scan_extend {t t' : Token} {c : Char} (h : L.extend? t c = some t') (cs : List Char) :
    L.scan (some t) (c :: cs) = L.scan (some t') cs := by
  rw [scan, Option.bind_some, h]

theorem scan_space (cs : List Char) : L.scan none (' ' :: cs) = L.scan none cs := by
  simp [scan, isSpace]

/-- A character that is not blank begins a token. -/
theorem scan_start {t : Token} {c : Char} (hspace : isSpace c = false) (h : L.start? c = some t)
    (cs : List Char) : L.scan none (c :: cs) = L.scan (some t) cs := by
  simp [scan, hspace, h]

/-- A token ends where the next character does not extend it. -/
theorem scan_flush {t : Token} {cs : List Char} (h : ∀ c ∈ cs.head?, L.extend? t c = none) :
    L.scan (some t) cs = (L.scan none cs).map (t :: ·) := by
  cases cs with
  | nil => simp [scan]
  | cons c cs => simp [scan, h c rfl]

/-- A text that a token can go on with is taken into it. -/
theorem scan_grow {t t' : Token} {cs : List Char} (h : cs.foldlM L.extend? t = some t')
    (rest : List Char) : L.scan (some t) (cs ++ rest) = L.scan (some t') rest := by
  induction cs generalizing t with
  | nil =>
    cases h
    rfl
  | cons c cs ih =>
    rw [List.foldlM_cons] at h
    obtain ⟨next, hnext, hrest⟩ := Option.bind_eq_some_iff.mp h
    rw [List.cons_append, scan_extend hnext, ih hrest]

/-! ## Pieces of text -/

/-- No token goes on with the first character of the text. -/
def Stops (rest : List Char) : Prop :=
  ∀ c ∈ rest.head?, c ∈ [' ', ')', ',']

/-- Wherever the text stands before a blank, a closing bracket, a comma or the end, it is taken
apart into the given tokens. -/
def Lexes (L : Lexicon) (cs : List Char) (ts : List Token) : Prop :=
  ∀ rest, Stops rest → L.scan none (cs ++ rest) = (L.scan none rest).map (ts ++ ·)

/-- What is true in front of any text is true at the end. -/
theorem Lexes.scan_eq {cs : List Char} {ts : List Token} (h : L.Lexes cs ts) :
    L.scan none cs = some ts := by
  have hnil := h [] (by intro c hc; cases hc)
  simpa [scan] using hnil

theorem lexes_nil : L.Lexes [] [] := by
  intro rest _
  simp

/-- A token that the text after it does not extend. -/
theorem scan_token {cs rest : List Char} {t : Token} (h : L.token? cs = some t)
    (hrest : ∀ d ∈ rest.head?, L.extend? t d = none) :
    L.scan none (cs ++ rest) = (L.scan none rest).map (t :: ·) := by
  cases cs with
  | nil => cases h
  | cons c cs =>
    rw [token?] at h
    split at h
    · cases h
    · rename_i hspace
      obtain ⟨start, hstart, hgrow⟩ := Option.bind_eq_some_iff.mp h
      rw [List.cons_append, scan_start (by simpa using hspace) hstart, scan_grow hgrow,
        scan_flush hrest]

/-- A text that is one token is taken apart into that. -/
theorem lexes_token {cs : List Char} {t : Token} (h : L.token? cs = some t) (hne : t ≠ .sign []) :
    L.Lexes cs [t] := by
  intro rest hrest
  refine scan_token h fun d hd => ?_
  have hstop := hrest d hd
  -- What may follow is in no word, in no numeral and in no sign of two characters.
  cases t with
  | word w =>
    have hword : ∀ d ∈ [' ', ')', ','], isWordChar d = false ∧ (d == '.') = false :=
      List.forall_iff_forall_mem.mp (by decide)
    obtain ⟨hchar, hpoint⟩ := hword d hstop
    rw [extend?, hchar, hpoint, Bool.and_false]
    rfl
  | numeral n =>
    have hnumeral : ∀ d ∈ [' ', ')', ','],
        isWordChar d = false ∧ d ≠ '.' ∧ d ≠ '+' ∧ d ≠ '-' :=
      List.forall_iff_forall_mem.mp (by decide)
    obtain ⟨hword, hpoint, hplus, hminus⟩ := hnumeral d hstop
    simp [extend?, hword, hpoint, hplus, hminus]
  | sign s =>
    have hlong : s ++ [d] ∉ L.signs := by
      intro hmem
      have hapart : ∀ d ∈ [' ', ')', ','], d ∈ [' ', '(', ')', ','] :=
        List.forall_iff_forall_mem.mp (by decide)
      have hshort := L.apart _ hmem d (hapart d hstop) (by simp)
      exact hne (by simpa using hshort)
    have hdigit : ∀ d ∈ [' ', ')', ','], d.isDigit = false :=
      List.forall_iff_forall_mem.mp (by decide)
    rw [extend?, if_neg (by simp [hdigit d hstop]), if_neg hlong]

/-! ## Words -/

/-- A word goes on with letters, digits and underscores. -/
theorem foldlM_word (w : List Char) {cs : List Char} (h : ∀ c ∈ cs, isWordChar c = true) :
    cs.foldlM L.extend? (.word w) = some (.word (w ++ cs)) := by
  induction cs generalizing w with
  | nil => simp
  | cons c cs ih =>
    rw [List.foldlM_cons, extend?, h c List.mem_cons_self, Bool.true_or]
    have hrest := ih (w ++ [c]) fun d hd => h d (List.mem_cons_of_mem _ hd)
    simpa using hrest

theorem isWord_parts {cs : List Char} (h : isWord cs = true) :
    ∃ c rest, cs = c :: rest ∧ (c.isAlpha || c == '_') = true ∧ ∀ d ∈ rest, isWordChar d = true := by
  cases cs with
  | nil => cases h
  | cons c rest =>
    rw [isWord, Bool.and_eq_true, List.all_eq_true] at h
    exact ⟨c, rest, rfl, h⟩

theorem isWordChar_of_isWord {cs : List Char} (h : isWord cs = true) :
    ∀ c ∈ cs, isWordChar c = true := by
  obtain ⟨c, rest, rfl, hc, hrest⟩ := isWord_parts h
  refine List.forall_mem_cons.mpr ⟨?_, hrest⟩
  rw [isWordChar, Char.isAlphanum, Bool.or_right_comm, hc, Bool.true_or]

/-- A word does not begin with an equality sign, so it extends no comparison before it. -/
theorem head?_ne_of_isWord {cs : List Char} (h : isWord cs = true) : cs.head? ≠ some '=' := by
  obtain ⟨c, rest, rfl, hc, -⟩ := isWord_parts h
  rintro hhead
  cases hhead
  simp at hc

/-- A word is one token. -/
theorem token?_word {cs : List Char} (h : isWord cs = true) : L.token? cs = some (.word cs) := by
  obtain ⟨c, rest, rfl, hc, hrest⟩ := isWord_parts h
  have hspace : isSpace c = false := by
    by_contra hspace
    simp only [isSpace, Bool.not_eq_false, Bool.or_eq_true, beq_iff_eq] at hspace
    rcases hspace with (rfl | rfl) | rfl <;> simp at hc
  have hstart : L.start? c = some (.word [c]) := by
    rw [start?, hc]
    rfl
  rw [token?, hspace, hstart]
  exact foldlM_word [c] hrest

/-! ## Numerals -/

theorem not_wordStart_of_isDigit {c : Char} (h : c.isDigit = true) :
    (c.isAlpha || c == '_') = false := by
  have hnine : c.val ≤ '9'.val := of_decide_eq_true (Bool.and_eq_true_iff.mp h).2
  have hletter : ∀ a : Char, '9'.val < a.val → ¬a.val ≤ c.val := fun a ha hc =>
    UInt32.lt_irrefl _ (UInt32.lt_of_lt_of_le ha (UInt32.le_trans hc hnine))
  have hupper : c.isUpper = false := decide_eq_false fun hc => hletter 'A' (by decide) hc.1
  have hlower : c.isLower = false :=
    Bool.and_eq_false_iff.mpr (Or.inl (decide_eq_false (hletter 'a' (by decide))))
  have halpha : c.isAlpha = false := Bool.or_eq_false_iff.mpr ⟨hupper, hlower⟩
  have hunder : c ≠ '_' := by
    rintro rfl
    cases h
  simp [halpha, hunder]

theorem not_space_of_isDigit {c : Char} (h : c.isDigit = true) : isSpace c = false := by
  by_contra hspace
  simp only [isSpace, Bool.not_eq_false, Bool.or_eq_true, beq_iff_eq] at hspace
  rcases hspace with (rfl | rfl) | rfl <;> cases h

/-- A numeral goes on with digits. -/
theorem foldlM_digits (n : List Char) {cs : List Char} (h : ∀ c ∈ cs, c.isDigit = true) :
    cs.foldlM L.extend? (.numeral n) = some (.numeral (n ++ cs)) := by
  induction cs generalizing n with
  | nil => simp
  | cons c cs ih =>
    have hc : isWordChar c = true := by simp [isWordChar, Char.isAlphanum, h c List.mem_cons_self]
    rw [List.foldlM_cons, extend?, hc]
    have hrest := ih (n ++ [c]) fun d hd => h d (List.mem_cons_of_mem _ hd)
    simpa using hrest

/-- A numeral goes on with a point and the digits behind it. -/
theorem foldlM_fraction (n : List Char) {ds : List Char} (h : ∀ c ∈ ds, c.isDigit = true) :
    ('.' :: ds).foldlM L.extend? (.numeral n) = some (.numeral (n ++ '.' :: ds)) := by
  have hpoint : L.extend? (.numeral n) '.' = some (.numeral (n ++ ['.'])) := by simp [extend?]
  rw [List.foldlM_cons, hpoint]
  have hrest := foldlM_digits (L := L) (n ++ ['.']) h
  simpa using hrest

/-- A numeral goes on with an exponent, in which a sign belongs to it. -/
theorem foldlM_exponent (n : List Char) {e : Char} (he : e ∈ ['e', 'E']) {sg : List Char}
    (hsg : sg ∈ [[], ['+'], ['-']]) {ds : List Char} (h : ∀ c ∈ ds, c.isDigit = true) :
    (e :: (sg ++ ds)).foldlM L.extend? (.numeral n) = some (.numeral (n ++ e :: (sg ++ ds))) := by
  have hword : ∀ e ∈ ['e', 'E'], isWordChar e = true :=
    List.forall_iff_forall_mem.mp (by decide)
  have hletter : L.extend? (.numeral n) e = some (.numeral (n ++ [e])) := by
    simp [extend?, hword e he]
  have hsign : sg.foldlM L.extend? (.numeral (n ++ [e])) = some (.numeral (n ++ e :: sg)) := by
    simp only [List.mem_cons, List.not_mem_nil, or_false] at he hsg
    rcases hsg with rfl | rfl | rfl
    · simp
    · rcases he with rfl | rfl <;> simp [extend?]
    · rcases he with rfl | rfl <;> simp [extend?]
  rw [List.foldlM_cons, hletter, Option.bind_eq_bind, Option.bind_some, List.foldlM_append, hsign,
    Option.bind_eq_bind, Option.bind_some, foldlM_digits _ h]
  simp

/-- A decimal literal begins with a digit or a point. -/
theorem decimal_head {cs : List Char} (h : isDecimal cs = true) :
    ∃ c tail, cs = c :: tail ∧ (c.isDigit = true ∨ c = '.') := by
  obtain ⟨whole, fraction, exponent, rfl, hwhole, hfraction, -⟩ := isDecimal_parts h
  cases whole with
  | cons c whole => exact ⟨c, _, rfl, Or.inl (hwhole c List.mem_cons_self)⟩
  | nil =>
    rcases hfraction with ⟨-, hne⟩ | ⟨ds, rfl, -⟩
    · exact absurd rfl hne
    · exact ⟨'.', _, rfl, Or.inr rfl⟩

/-- A decimal literal is read as one token. -/
theorem token?_numeral {cs : List Char} (h : isDecimal cs = true) :
    L.token? cs = some (.numeral cs) := by
  obtain ⟨whole, fraction, exponent, rfl, hwhole, hfraction, hexponent⟩ := isDecimal_parts h
  have hexp : ∀ n, exponent.foldlM L.extend? (.numeral n) = some (.numeral (n ++ exponent)) := by
    intro n
    rcases hexponent with rfl | ⟨e, he, sg, hsg, ds, rfl, hds⟩
    · simp
    · exact foldlM_exponent n he hsg hds
  cases whole with
  | cons c whole =>
    have hfrac : ∀ n, fraction.foldlM L.extend? (.numeral n) = some (.numeral (n ++ fraction)) := by
      intro n
      rcases hfraction with ⟨rfl, -⟩ | ⟨ds, rfl, hds, -⟩
      · simp
      · exact foldlM_fraction n hds
    have hc := hwhole c List.mem_cons_self
    have hstart : L.start? c = some (.numeral [c]) := by
      simp [start?, not_wordStart_of_isDigit hc, hc]
    rw [List.cons_append, token?, not_space_of_isDigit hc, hstart]
    simp only [Bool.false_eq_true, if_false, Option.bind_some, List.foldlM_append,
      Option.bind_eq_bind]
    rw [foldlM_digits _ fun d hd => hwhole d (List.mem_cons_of_mem _ hd), Option.bind_some, hfrac,
      Option.bind_some, hexp]
    simp
  | nil =>
    rcases hfraction with ⟨-, hne⟩ | ⟨ds, rfl, hds, hne⟩
    · exact absurd rfl hne
    · -- The point alone is a sign, which the first digit after it turns into a numeral.
      obtain ⟨d, ds, rfl⟩ := List.exists_cons_of_ne_nil (hne.resolve_left fun hnil => hnil rfl)
      have hstart : L.start? '.' = some (.sign ['.']) := by simp [start?, L.plain]
      have hpoint : L.extend? (.sign ['.']) d = some (.numeral ['.', d]) := by
        simp [extend?, hds d List.mem_cons_self]
      rw [List.nil_append, List.cons_append, token?, hstart]
      simp only [isSpace, Option.bind_some, List.cons_append, List.foldlM_cons, hpoint,
        List.foldlM_append, Option.bind_eq_bind]
      rw [foldlM_digits _ fun c hc => hds c (List.mem_cons_of_mem _ hc), Option.bind_some, hexp]
      simp

/-! ## Brackets and commas -/

/-- A sign of one character does not go on with a character that follows it in no sign. -/
theorem extend?_eq_none (followers : List (List Char)) {a c : Char} (ha : a ≠ '.')
    (htails : ∀ s ∈ L.signs, s.head? = some a → s.tail ∈ followers) (hc : [c] ∉ followers) :
    L.extend? (.sign [a]) c = none := by
  have hlong : [a] ++ [c] ∉ L.signs := fun hmem => hc (htails _ hmem rfl)
  rw [extend?, if_neg (by simp [ha]), if_neg hlong]

/-- Brackets and commas are part of no longer sign. -/
theorem extend?_bracket {b : Char} (hb : b ∈ ['(', ')', ',']) (c : Char) :
    L.extend? (.sign [b]) c = none := by
  refine extend?_eq_none [[]] ?_ ?_ (by simp)
  · rintro rfl
    simp at hb
  · intro s hs hhead
    have hshort := L.apart s hs b (List.mem_cons_of_mem _ hb) (List.mem_of_mem_head? hhead)
    simp [hshort]

/-- So each of them is a token of its own. -/
theorem scan_bracket {b : Char} (hb : b ∈ ['(', ')', ',']) (rest : List Char) :
    L.scan none (b :: rest) = (L.scan none rest).map (.sign [b] :: ·) := by
  have hchar : ∀ b ∈ ['(', ')', ','],
      isSpace b = false ∧ (b.isAlpha || b == '_') = false ∧ b.isDigit = false :=
    List.forall_iff_forall_mem.mp (by decide)
  obtain ⟨hspace, hword, hdigit⟩ := hchar b hb
  have htoken : L.token? [b] = some (.sign [b]) := by
    simp [token?, start?, hspace, hword, hdigit, L.plain b (List.mem_cons_of_mem _ hb)]
  exact scan_token htoken fun c _ => extend?_bracket hb c

/-! ## Putting pieces together -/

theorem stops_cons {c : Char} (hc : c ∈ [' ', ')', ',']) (rest : List Char) : Stops (c :: rest) := by
  intro d hd
  cases hd
  exact hc

namespace Lexes

variable {a b : List Char} {ta tb : List Token}

/-- A blank keeps two pieces apart. -/
theorem space (ha : L.Lexes a ta) (hb : L.Lexes b tb) : L.Lexes (a ++ ' ' :: b) (ta ++ tb) := by
  intro rest hrest
  rw [List.append_assoc, List.cons_append, ha _ (stops_cons (by simp) _), scan_space, hb rest hrest,
    Option.map_map]
  simp [Function.comp_def]

/-- A comma and a blank stand between the arguments of a call. -/
theorem comma (ha : L.Lexes a ta) (hb : L.Lexes b tb) :
    L.Lexes (a ++ ',' :: ' ' :: b) (ta ++ .sign [','] :: tb) := by
  intro rest hrest
  rw [List.append_assoc, List.cons_append, List.cons_append, ha _ (stops_cons (by simp) _),
    scan_bracket (by simp), scan_space, hb rest hrest, Option.map_map, Option.map_map]
  simp [Function.comp_def]

/-- Brackets end every token, so what follows a bracketed text does not matter. -/
theorem scan_parens (ha : L.Lexes a ta) (rest : List Char) :
    L.scan none ('(' :: a ++ ')' :: rest) =
      (L.scan none rest).map (.sign ['('] :: (ta ++ [.sign [')']]) ++ ·) := by
  rw [List.cons_append, scan_bracket (by simp), ha _ (stops_cons (by simp) _),
    scan_bracket (by simp), Option.map_map, Option.map_map]
  simp [Function.comp_def]

/-- Brackets are tokens on both sides of what they enclose. -/
theorem parens (ha : L.Lexes a ta) :
    L.Lexes ('(' :: (a ++ [')'])) (.sign ['('] :: (ta ++ [.sign [')']])) := by
  intro rest _
  have hscan := scan_parens ha rest
  simpa using hscan

/-- A call is a word with brackets right behind it. -/
theorem call {f : List Char} (hf : L.token? f = some (.word f)) (ha : L.Lexes a ta) :
    L.Lexes (f ++ '(' :: (a ++ [')'])) (.word f :: .sign ['('] :: (ta ++ [.sign [')']])) := by
  intro rest _
  rw [List.append_assoc, scan_token hf (by simp [extend?, isWordChar])]
  have hscan := scan_parens ha rest
  simp only [List.cons_append, List.append_assoc, List.nil_append] at hscan ⊢
  rw [hscan, Option.map_map]
  rfl

/-- A token in front of a text whose first character does not extend it. -/
theorem token {cs : List Char} {t : Token} (ht : L.token? cs = some t) (hne : a ≠ [])
    (hhead : ∀ d ∈ a.head?, L.extend? t d = none) (ha : L.Lexes a ta) :
    L.Lexes (cs ++ a) (t :: ta) := by
  intro rest hrest
  obtain ⟨d, tail, rfl⟩ := List.exists_cons_of_ne_nil hne
  rw [List.append_assoc, scan_token ht (by simpa using hhead), ha rest hrest, Option.map_map]
  rfl

end Lexes

end Lexicon

end BlockCompiler
