import BlockCompiler.Proofs.Expression.Literal
import BlockCompiler.Proofs.Generation.Declarations
import BlockCompiler.Proofs.Generation.Setup
import BlockCompiler.Proofs.Generation.Statements
import BlockCompiler.Proofs.Text.Words

/-!
# What MicroPython code names

Code for the hardware names classes of the module `machine`, or the module `time`; each of
these facilities has a word and an import of its own.  Which of them a block needs is a
matter of its kind (`BlockKind.facilities`).

Apart from that, code can name a facility in one way only: the author of the program wrote
the word into a field.  `NamesOnly U` says of a text that it names no facility outside of `U`,
and is looked at piece by piece, since words end at breaks.  `naming U` is the contract that
says so of all code, declarations and setup lines, and each generator keeps to it if `U`
holds of what its kind needs and of what the fields name (`Job.obeys_naming`).
-/

namespace BlockCompiler

open Text Script

/-! ## Facilities -/

/-- What has to be imported before code can use it. -/
inductive Facility where
  | pin
  | pwm
  | adc
  | uart
  | clock
deriving DecidableEq, Repr

namespace Facility

/-- All facilities. -/
def all : List Facility :=
  [pin, pwm, adc, uart, clock]

/-- The word by which code names it. -/
def word : Facility → String
  | pin => "Pin"
  | pwm => "PWM"
  | adc => "ADC"
  | uart => "UART"
  | clock => "time"

/-- The declaration that imports it. -/
def importEntry : Facility → String × String
  | pin => Blocks.pinImport
  | pwm => Blocks.pwmImport
  | adc => ("import_adc", "from machine import ADC")
  | uart => ("import_uart", "from machine import UART")
  | clock => Blocks.timeImport

/-- The text names it. -/
def NamedIn (f : Facility) (s : String) : Prop :=
  f.word.toList ∈ words s.toList

instance (f : Facility) (s : String) : Decidable (f.NamedIn s) :=
  inferInstanceAs (Decidable (_ ∈ words s.toList))

theorem mem_all (f : Facility) : f ∈ all := by
  cases f <;> decide

theorem isAlphanum_of_mem_word {f : Facility} {c : Char} (h : c ∈ f.word.toList) :
    c.isAlphanum = true := by
  have hall : f.word.toList.all Char.isAlphanum = true := by
    cases f <;> rfl
  exact List.all_eq_true.mp hall c h

/-- No facility is named by a word with an underscore. -/
theorem underscore_not_mem_word (f : Facility) : '_' ∉ f.word.toList :=
  fun h => absurd (isAlphanum_of_mem_word h) (by decide)

end Facility

/-- The facilities that a block of the kind needs. -/
def BlockKind.facilities : BlockKind → List Facility
  | digitalWrite | digitalRead | interruptAttach => [.pin]
  | analogWrite | servoAttach => [.pin, .pwm]
  | analogRead => [.pin, .adc]
  | serialSetup => [.uart]
  | timedRepeat | delay | milliseconds => [.clock]
  | _ => []

/-! ## Texts that name nothing else -/

/-- The text names no facilities but those of `U`. -/
def NamesOnly (U : Facility → Prop) (s : String) : Prop :=
  ∀ f : Facility, f.NamedIn s → U f

/-- The facilities that a text names. -/
def Facility.namedIn (s : String) : List Facility :=
  all.filter fun f => decide (f.NamedIn s)

/-- The text begins and ends with a break, and names only the listed facilities. -/
def isGap (fs : List Facility) (s : String) : Bool :=
  s.toList.head?.any (!isWordChar ·) && s.toList.getLast?.any (!isWordChar ·) &&
    (Facility.namedIn s).all (fs.contains ·)

section Pieces

variable {U : Facility → Prop} {a b s : String}

/-- What a piece of code that is written out names can be read off it. -/
theorem namesOnly_literal {fs : List Facility} (hU : ∀ f ∈ fs, U f)
    (h : ∀ f ∈ Facility.namedIn s, f ∈ fs) : NamesOnly U s :=
  fun f hf => hU f (h f (List.mem_filter.mpr ⟨f.mem_all, decide_eq_true hf⟩))

theorem namesOnly_plain (h : Facility.namedIn s = []) : NamesOnly U s := by
  intro f hf
  have hmem : f ∈ Facility.namedIn s := List.mem_filter.mpr ⟨f.mem_all, decide_eq_true hf⟩
  rw [h] at hmem
  cases hmem

/-- Texts with a break between them name no more together than each on its own. -/
theorem NamesOnly.append (ha : NamesOnly U a) (hb : NamesOnly U b) (h : EndsApart a ∨ StartsApart b) :
    NamesOnly U (a ++ b) := by
  have hwords : words (a ++ b).toList = words a.toList ++ words b.toList :=
    h.elim words_append words_append_of_startsApart
  intro f hf
  rw [Facility.NamedIn, hwords, List.mem_append] at hf
  exact hf.elim (ha f) (hb f)

/-- The text names no facilities but those of `U`, and no word goes on after it. -/
structure Finished (U : Facility → Prop) (s : String) : Prop where
  only : NamesOnly U s
  ends : EndsApart s

theorem finished_empty : Finished U "" :=
  ⟨namesOnly_plain (by decide), by decide⟩

/-- Finished texts can be put together without a break between them. -/
theorem Finished.append (ha : Finished U a) (hb : Finished U b) : Finished U (a ++ b) :=
  ⟨ha.only.append hb.only (Or.inl ha.ends), ha.ends.append hb.ends⟩

theorem finished_join {texts : List String} (h : ∀ t ∈ texts, Finished U t) :
    Finished U (String.join texts) := by
  refine ⟨fun f hf => ?_, endsApart_join fun t ht => (h t ht).ends⟩
  rw [Facility.NamedIn, words_join fun t ht => (h t ht).ends] at hf
  obtain ⟨t, ht, hword⟩ := List.mem_flatMap.mp hf
  exact (h t ht).only f hword

/-- Commas keep the words of a list apart. -/
theorem namesOnly_commas {texts : List String} (h : ∀ t ∈ texts, NamesOnly U t) :
    NamesOnly U (", ".intercalate texts) := by
  intro f hf
  rcases words_intercalate (by decide) (by decide) (by decide) hf with hcomma | ⟨t, ht, hword⟩
  · exact absurd hcomma List.not_mem_nil
  · exact h t ht f hword

/-- A piece between two others, with a break on either side of it. -/
structure Gap (U : Facility → Prop) (s : String) : Prop where
  starts : StartsApart s
  ends : EndsApart s
  ne : s ≠ ""
  only : NamesOnly U s

/-- Whether a piece of code that is written out is a gap can be decided. -/
theorem gap_literal {fs : List Facility} (hU : ∀ f ∈ fs, U f) (h : isGap fs s = true) :
    Gap U s := by
  simp only [isGap, Bool.and_eq_true, List.all_eq_true, List.contains_iff_mem] at h
  obtain ⟨⟨hhead, hlast⟩, hnamed⟩ := h
  refine ⟨fun c hc => ?_, fun c hc => ?_, ?_, namesOnly_literal hU hnamed⟩
  · rw [Option.mem_def.mp hc] at hhead
    simpa using hhead
  · rw [Option.mem_def.mp hc] at hlast
    simpa using hlast
  · rintro rfl
    cases hhead

theorem gap_plain (h : isGap [] s = true) : Gap U s := by
  have hnone : ∀ f ∈ ([] : List Facility), U f := fun _ hf => nomatch hf
  exact gap_literal hnone h

/-- A gap keeps the words to its left and to its right apart. -/
theorem NamesOnly.gap (ha : NamesOnly U a) (hs : Gap U s) (hb : NamesOnly U b) :
    NamesOnly U (a ++ s ++ b) :=
  (ha.append hs.only (Or.inr hs.starts)).append hb (Or.inl (hs.ends.append_left hs.ne a))

theorem NamesOnly.close (ha : NamesOnly U a) (hs : Gap U s) : NamesOnly U (a ++ s) :=
  ha.append hs.only (Or.inr hs.starts)

/-- A gap at the end finishes a text. -/
theorem NamesOnly.finish (ha : NamesOnly U a) (hs : Gap U s) : Finished U (a ++ s) :=
  ⟨ha.close hs, hs.ends.append_left hs.ne a⟩

/-- A text behind a literal that ends in a break. -/
theorem namesOnly_opening (hb : NamesOnly U b) (ha : EndsApart a)
    (hnamed : Facility.namedIn a = []) : NamesOnly U (a ++ b) :=
  (namesOnly_plain hnamed).append hb (Or.inl ha)

/-- A word with an underscore in it names nothing. -/
theorem namesOnly_word (hword : ∀ c ∈ s.toList, isWordChar c = true) (h : '_' ∈ s.toList) :
    NamesOnly U s := by
  intro f hf
  rw [← eq_of_mem_words hword hf] at h
  exact absurd h f.underscore_not_mem_word

/-! ### Texts of the author -/

/-- Blanks around a text are no part of its words. -/
theorem words_trim (s : String) : words (trim s).toList = words s.toList := by
  have hbreak : ∀ c, isBlank c = true → isWordChar c = false := by
    intro c hblank
    refine Bool.eq_false_iff.mpr fun hword => ?_
    rw [isBlank_of_isWordChar hword] at hblank
    cases hblank
  rw [toList_trim, words_dropEndWhile hbreak]
  conv_rhs => rw [← List.takeWhile_append_dropWhile (p := isBlank) (l := s.toList)]
  refine (words_breaks_append (fun c hc => ?_) _).symm
  exact hbreak c (List.mem_takeWhile_imp hc)

/-- Only letters and digits stay as they are when a name is made. -/
theorem eq_of_map_symbolChar {cs w : List Char} (h : cs.map symbolChar = w)
    (hw : ∀ c ∈ w, c.isAlphanum = true) : cs = w := by
  subst h
  refine (List.map_id cs).symm.trans (List.map_congr_left fun c hc => ?_)
  have halnum := hw _ (List.mem_map_of_mem hc)
  rw [symbolChar] at halnum ⊢
  split at halnum
  · rw [if_pos (by assumption), id]
  · exact absurd halnum (by decide)

/-- A name that names a facility was made from the word for it. -/
theorem namesOnly_identifier {raw fallback : String} (hraw : NamesOnly U raw)
    (hfallback : isWord fallback.toList = true) (h : NamesOnly U fallback) :
    NamesOnly U (identifier raw fallback) := by
  intro f hf
  have hname : f.word.toList = (identifier raw fallback).toList :=
    eq_of_mem_words (Lexicon.isWordChar_of_isWord (isWord_identifier raw hfallback)) hf
  unfold identifier at hname hf
  split at hname
  · rename_i hnil
    rw [hnil] at hf
    exact h f hf
  · rename_i c rest hsuffix
    rw [String.toList_ofList] at hname
    split at hname
    · exact absurd (hname ▸ List.mem_cons_self) f.underscore_not_mem_word
    · rw [← hsuffix, suffix, symbol, String.toList_map] at hname
      have hraw' := eq_of_map_symbolChar hname.symm fun _ => Facility.isAlphanum_of_mem_word
      refine hraw f ?_
      rw [Facility.NamedIn, ← words_trim, hraw', words_of_isWord]
      · exact List.mem_singleton_self _
      · intro c hc
        rw [isWordChar, Facility.isAlphanum_of_mem_word hc, Bool.true_or]
      · cases f <;> decide

/-- A name out of a list of names is a word of the list, or the one that stands in for it. -/
theorem namesOnly_of_mem_nameList {raw fallback name : String} (hraw : NamesOnly U raw)
    (hfallback : isWord fallback.toList = true) (h : NamesOnly U fallback)
    (hname : name ∈ nameList raw fallback) : NamesOnly U name := by
  obtain ⟨text, htext, rfl⟩ := List.mem_map.mp hname
  obtain ⟨piece, hpiece, rfl⟩ := List.mem_map.mp (List.mem_filter.mp htext).1
  refine namesOnly_identifier (fun f hf => hraw f ?_) hfallback h
  rw [Facility.NamedIn, String.toList_ofList] at hf
  exact mem_words_of_mem_splitCommas hpiece hf

/-- A literal names what its text names: the escape for a line feed is no part of a facility's
word. -/
theorem mem_words_literal {cs w : List Char} (t : Target) (front : List Char)
    (hw : w.head? ≠ some 'n')
    (h : w ∈ words (front ++ cs.flatMap (Blocks.literalChar t.quoteMark))) :
    w ∈ words (front ++ cs) := by
  have hslash : isWordChar '\\' = false := rfl
  have hmark : isWordChar t.quoteMark = false := by
    cases t <;> rfl
  induction cs generalizing front with
  | nil => exact h
  | cons c rest ih =>
    rw [List.flatMap_cons, Blocks.literalChar] at h
    split at h
    · subst c
      rw [words_append_break hslash]
      rw [List.cons_append, List.cons_append, List.nil_append, words_append_break hslash,
        words_cons_break hslash] at h
      exact List.mem_append.mpr ((List.mem_append.mp h).imp_right (ih []))
    · split at h
      · subst c
        rw [words_append_break hmark]
        rw [List.cons_append, List.cons_append, List.nil_append, words_append_break hslash,
          words_cons_break hmark] at h
        exact List.mem_append.mpr ((List.mem_append.mp h).imp_right (ih []))
      · split at h
        · subst c
          rw [words_append_break (show isWordChar '\n' = false from rfl)]
          rw [List.cons_append, List.cons_append, List.nil_append, words_append_break hslash] at h
          -- The escape leaves an `n` in front of what comes next, which no facility begins with.
          refine List.mem_append.mpr ((List.mem_append.mp h).imp_right fun hrest => ?_)
          exact (mem_words_cons rfl (ih ['n'] hrest)).resolve_left hw
        · have hlonger := ih (front ++ [c])
          rw [List.append_assoc, List.append_assoc] at hlonger
          exact hlonger h

/-- Escapes in a literal put no new words together. -/
theorem namesOnly_literal_text (t : Target) (h : NamesOnly U s) :
    NamesOnly U (Blocks.literal t.quoteMark s) := by
  have hmark : isWordChar t.quoteMark = false := by
    cases t <;> rfl
  intro f hf
  rw [Facility.NamedIn, Blocks.literal, String.toList_ofList, words_cons_break hmark,
    words_append_breaks _ (by simpa using hmark)] at hf
  refine h f (mem_words_literal t [] ?_ hf)
  cases f <;> decide

/-- A number names nothing. -/
theorem namesOnly_repr (n : Nat) : NamesOnly U n.repr := by
  have hdigit : ∀ c ∈ n.repr.toList, c.isDigit = true := by
    intro c hc
    rw [Nat.repr, String.toList_ofList] at hc
    exact Nat.isDigit_of_mem_toDigits (by decide) (by decide) hc
  intro f hf
  have hword : f.word.toList = n.repr.toList := by
    refine eq_of_mem_words (fun c hc => ?_) hf
    rw [isWordChar, Char.isAlphanum, hdigit c hc, Bool.or_true, Bool.true_or]
  rw [← hword] at hdigit
  cases f <;> exact absurd (hdigit _ List.mem_cons_self) (by decide)

theorem namesOnly_render (n : Int) : NamesOnly U (Whole.render n) := by
  rw [Whole.render]
  split
  · exact (namesOnly_plain (by decide)).append (namesOnly_repr _) (Or.inl (by decide))
  · exact namesOnly_repr _

/-- Parentheses are breaks. -/
theorem namesOnly_parenthesize (h : NamesOnly U s) (inner outer : Order) :
    NamesOnly U (parenthesize s inner outer) := by
  rw [parenthesize]
  split
  · exact ((namesOnly_plain (by decide)).append h (Or.inl (by decide))).close
      (gap_plain (by decide))
  · exact h

/-- What a name made from a text ends with. -/
theorem namesOnly_symbol {start : String} (hstart : ∀ c ∈ start.toList, isWordChar c = true)
    (hunderscore : '_' ∈ start.toList) (raw : String) : NamesOnly U (start ++ symbol raw) := by
  refine namesOnly_word (fun c hc => ?_) (by simp [hunderscore])
  rw [String.toList_append, List.mem_append, symbol, String.toList_map] at hc
  rcases hc with hc | hc
  · exact hstart c hc
  · obtain ⟨d, -, rfl⟩ := List.mem_map.mp hc
    exact isWordChar_symbolChar d

end Pieces

/-- The fields of the block name no facilities but those of `U`. -/
def Node.NamesOnly (U : Facility → Prop) (n : Node) : Prop :=
  ∀ e ∈ n.fields.entries, BlockCompiler.NamesOnly U e.2

section Contract

variable {U : Facility → Prop} {S : String → Prop} {n : Node}

theorem Node.NamesOnly.field? (h : n.NamesOnly U) (name : String) :
    BlockCompiler.NamesOnly U ((n.fields.get? name).getD "") := by
  cases hget : n.fields.get? name with
  | none => exact finished_empty.only
  | some text => exact h (name, text) (Dict.mem_entries_iff.mpr hget)

/-- The text of a field names what its block may name. -/
theorem Node.NamesOnly.fieldOr (h : n.NamesOnly U) (name fallback : String)
    (hfallback : BlockCompiler.NamesOnly U fallback) :
    BlockCompiler.NamesOnly U (n.fieldOr name fallback) := by
  rw [Node.fieldOr]
  split
  · rename_i text htext
    split
    · exact hfallback
    · exact h (name, text) (Dict.mem_entries_iff.mpr htext)
  · exact hfallback

/-- A field that names a facility was filled in by the author. -/
theorem Node.get?_of_namedIn_fieldOr {name fallback : String}
    (hfallback : Facility.namedIn fallback = []) {f : Facility}
    (h : f.NamedIn (n.fieldOr name fallback)) :
    n.fields.get? name = some (n.fieldOr name fallback) := by
  have hplain : ¬ f.NamedIn fallback := fun hf => namesOnly_plain (U := fun _ => False) hfallback f hf
  rw [Node.fieldOr] at h ⊢
  split at h
  · rename_i text htext
    split at h
    · exact absurd h hplain
    · rename_i hblank
      rw [htext]
      simp only [hblank, Bool.false_eq_true, if_false]
  · exact absurd h hplain

/-- Making a name of the text of a field does not change its words for facilities. -/
theorem Node.NamesOnly.nameField (h : n.NamesOnly U) (name fallback : String)
    (hword : isWord fallback.toList = true) (hfallback : BlockCompiler.NamesOnly U fallback) :
    BlockCompiler.NamesOnly U (Blocks.nameField n name fallback) :=
  namesOnly_identifier (h.fieldOr name "" finished_empty.only) hword hfallback

/-- The code names no facilities but those of `U`; statements end in a break. -/
def Code.NamesOnly (U : Facility → Prop) : Code → Prop
  | .statement text => Finished U text
  | .expression text _ => BlockCompiler.NamesOnly U text

/-- Code and declarations name no facilities but those of `U`; the lines of the setup are those
of `S`. -/
def naming (U : Facility → Prop) (S : String → Prop) : Contract where
  code _ c := c.NamesOnly U
  declared := NamesOnly U
  prepared := S

/-- Code that names no facilities but those of `U` names none but those of a larger `U'`. -/
theorem Code.NamesOnly.mono {U' : Facility → Prop} (hU : ∀ f, U f → U' f) {c : Code}
    (h : c.NamesOnly U) : c.NamesOnly U' := by
  cases c with
  | statement text => exact ⟨fun f hf => hU f (h.only f hf), h.ends⟩
  | expression text order => exact fun f hf => hU f (h f hf)

/-- The text of such code names no other facilities. -/
theorem Code.NamesOnly.text {c : Code} (h : c.NamesOnly U) : BlockCompiler.NamesOnly U c.text := by
  cases c with
  | statement text => exact h.only
  | expression text order => exact h

/-- What a collector flushes names what its texts name. -/
theorem finished_flush {c : Collector} (h : ∀ t ∈ c.texts, NamesOnly U t) :
    Finished U c.flush := by
  refine finished_join fun t ht => ?_
  obtain ⟨text, htext, rfl⟩ := List.mem_map.mp ht
  refine NamesOnly.finish (fun f hf => h text htext f ?_) (gap_plain (by decide))
  rwa [Facility.NamedIn, words_trimLineFeeds] at hf

/-! ## Slots -/

variable {j : Job}

/-- An expression in a slot names what its block names. -/
theorem names_valueCode? (n : Node) (slot : String) (outer : Order) :
    (j.valueCode? n slot outer).Obeys (naming U S) fun value => ∀ text ∈ value, NamesOnly U text :=
  Job.obeys_valueCode?_of (P := NamesOnly U) (fun _ _ _ hcode => hcode)
    (fun _ inner outer htext => namesOnly_parenthesize htext inner outer) n slot outer

theorem names_valueCode (n : Node) (slot : String) (outer : Order) {fallback : String}
    (hfallback : Facility.namedIn fallback = []) :
    (j.valueCode n slot outer fallback).Obeys (naming U S) (NamesOnly U) :=
  Job.obeys_valueCode_of (namesOnly_plain hfallback) (names_valueCode? n slot outer)

variable (hb : j.backend = Target.microPython.backend)

include hb

/-- A line ends in a break. -/
theorem Job.finished_line {text : String} (h : NamesOnly U text) : Finished U (j.line text) := by
  rw [line_eq hb]
  exact h.finish (gap_plain (by decide))

/-- Indentation adds breaks and nothing else. -/
theorem Job.finished_indent {text : String} (h : NamesOnly U text) :
    Finished U (j.indent text) := by
  rw [indent_eq hb]
  refine ⟨fun f hf => h f ?_, endsApart_indent _ _⟩
  rwa [Facility.NamedIn, words_indent (List.forall_iff_forall_mem.mp (by decide))] at hf

/-- Statements end in breaks, so a sequence names what its blocks name. -/
theorem names_chainCode (head : NodeId) :
    (j.chainCode head).Obeys (naming U S) (Finished U) := by
  refine Job.obeys_chainCode_of (fun i code hcode => ?_) (fun _ => finished_join) head
  cases code with
  | statement text => exact hcode
  | expression text order =>
    rw [Job.statementText]
    split
    · exact finished_empty
    · exact Job.finished_line hb hcode

theorem names_slotCode (n : Node) (slot : String) :
    (j.slotCode n slot).Obeys (naming U S) (Finished U) := by
  unfold Job.slotCode
  cases n.statements.get? slot with
  | none => exact obeys_pure finished_empty
  | some head => exact (names_chainCode hb head).result fun text htext => Job.finished_indent hb htext.only

theorem names_bodyCode (n : Node) (slot : String) :
    (j.bodyCode n slot).Obeys (naming U S) (Finished U) := by
  refine (names_slotCode hb n slot).result fun text htext => ?_
  rw [Job.fillBody, Job.formatting, hb]
  show Finished U (if blank text then _ else _)
  split
  · exact Job.finished_indent hb (Job.finished_line hb (namesOnly_plain (by decide))).only
  · exact htext

end Contract

/-! ## Generators -/

namespace Blocks

variable {U : Facility → Prop} {S : String → Prop} {j : Job} {n : Node}

/-! ### Expressions -/

/-- The sign of an operator stands between breaks. -/
theorem names_binary {sign fallback : String} (order : Order)
    (hsign : isGap [] (" " ++ sign ++ " ") = true) (hfallback : Facility.namedIn fallback = []) :
    (binary j n sign order fallback).Obeys (naming U S) (Code.NamesOnly U) := by
  refine (names_valueCode n "A" order hfallback).bind fun a ha => ?_
  refine (names_valueCode n "B" order hfallback).result fun b hb => ?_
  have hgap := ha.gap (gap_plain hsign) hb
  rwa [← String.append_assoc, ← String.append_assoc] at hgap

theorem names_arithmetic : (arithmetic .microPython j n).Obeys (naming U S) (Code.NamesOnly U) := by
  have happly : ∀ op,
      (applyArithmetic .microPython j n op).Obeys (naming U S) (Code.NamesOnly U) := by
    intro op
    cases op <;> exact names_binary _ (by decide) (by decide)
  simp only [arithmetic]
  split
  · exact happly _
  · exact (obeys_notice _).bind fun _ _ => happly _

theorem names_comparison : (comparison .microPython j n).Obeys (naming U S) (Code.NamesOnly U) := by
  have hsign : ∀ op : ComparisonOp, isGap [] (" " ++ op.sign ++ " ") = true := by
    intro op
    cases op <;> decide
  exact names_binary _ (hsign _) (by decide)

theorem names_logic : (logic .microPython j n).Obeys (naming U S) (Code.NamesOnly U) := by
  have hsign : ∀ op : LogicOp, isGap [] (" " ++ op.sign .microPython ++ " ") = true := by
    intro op
    cases op <;> decide
  exact names_binary _ (hsign _) (by decide)

theorem names_negation : (negation .microPython j n).Obeys (naming U S) (Code.NamesOnly U) := by
  refine (names_valueCode n "BOOL" _ (by decide)).result fun operand hoperand => ?_
  exact namesOnly_opening (a := "not ") hoperand (by decide) (by decide)

/-- A call names its function and what its arguments name. -/
theorem names_call (hn : n.NamesOnly U) :
    (call .microPython j n).Obeys (naming U S) (NamesOnly U) := by
  refine (Obeys.mapM (q := NamesOnly U) fun i _ => names_valueCode n _ _ (by decide)).result
    fun args hargs => ?_
  have hname := hn.nameField "NAME" "do_something" (by decide)
    (namesOnly_plain (by decide))
  exact (hname.gap (gap_plain (by decide)) (namesOnly_commas hargs)).close (gap_plain (by decide))

theorem names_number (hn : n.NamesOnly U) : (number .microPython n).NamesOnly U := by
  have hfield := hn.fieldOr "NUM" "0" (namesOnly_plain (by decide))
  show NamesOnly U (trim (n.fieldOr "NUM" "0"))
  intro f hf
  rw [Facility.NamedIn, words_trim] at hf
  exact hfield f hf

theorem names_boolean : (boolean .microPython n).NamesOnly U := by
  rw [boolean]
  cases n.flag "BOOL" true
  · exact namesOnly_plain (s := "False") (by decide)
  · exact namesOnly_plain (s := "True") (by decide)

/-! ### Hardware -/

/-- A declaration may name what code may name. -/
theorem names_declare {symbol text : String} (h : NamesOnly U text) :
    (Script.declare symbol text).Obeys (naming U S) fun _ => True :=
  obeys_declare h

/-- A line of the setup has to be one of `S`. -/
theorem names_setup {symbol text : String} (h : S text) :
    (Script.setup symbol text).Obeys (naming U S) fun _ => True :=
  obeys_setup h

/-- An import names what it imports. -/
theorem names_importPin (h : U .pin) : importPin.Obeys (naming U S) fun _ => True := by
  have hU : ∀ f ∈ [Facility.pin], U f := by simpa using h
  exact names_declare (namesOnly_literal hU (by decide))

theorem names_importPwm (h : U .pwm) : importPwm.Obeys (naming U S) fun _ => True := by
  have hU : ∀ f ∈ [Facility.pwm], U f := by simpa using h
  exact names_declare (namesOnly_literal hU (by decide))

theorem names_importTime (h : U .clock) : importTime.Obeys (naming U S) fun _ => True := by
  have hU : ∀ f ∈ [Facility.clock], U f := by simpa using h
  exact names_declare (namesOnly_literal hU (by decide))

theorem names_milliseconds (hU : ∀ f ∈ BlockKind.milliseconds.facilities, U f) :
    (milliseconds .microPython).Obeys (naming U S) (Code.NamesOnly U) := by
  refine (names_importTime (hU _ (by decide))).result fun _ _ => ?_
  exact namesOnly_literal (s := "time.ticks_ms()") hU (by decide)

/-- The name of an object for a pin names nothing. -/
theorem namesOnly_pinName (start : String) (hstart : start.toList.all isWordChar = true)
    (hunderscore : '_' ∈ start.toList) (pin : String) : NamesOnly U (start ++ suffix pin) :=
  namesOnly_symbol (List.all_eq_true.mp hstart) hunderscore _

theorem names_digitalRead (hn : n.NamesOnly U)
    (hU : ∀ f ∈ BlockKind.digitalRead.facilities, U f) :
    (digitalRead .microPython n).Obeys (naming U S) (Code.NamesOnly U) := by
  have hpin := hn.fieldOr "PIN" "0" (namesOnly_plain (by decide))
  have hname := namesOnly_pinName (U := U) "pin_in_" (by decide) (by decide)
    (n.fieldOr "PIN" "0")
  refine (names_importPin (hU _ (by decide))).bind fun _ _ => ?_
  refine (names_declare ?_).result fun _ _ => ?_
  · exact (hname.gap (gap_literal hU (by decide)) hpin).close (gap_literal hU (by decide))
  · exact hname.close (gap_plain (by decide))

theorem names_analogRead (hn : n.NamesOnly U)
    (hU : ∀ f ∈ BlockKind.analogRead.facilities, U f) :
    (analogRead .microPython n).Obeys (naming U S) (Code.NamesOnly U) := by
  have hpin := hn.fieldOr "PIN" "34" (namesOnly_plain (by decide))
  have hname := namesOnly_pinName (U := U) "adc_" (by decide) (by decide)
    (n.fieldOr "PIN" "34")
  refine (names_importPin (hU _ (by decide))).bind fun _ _ => ?_
  refine (names_declare (namesOnly_literal hU (by decide))).bind fun _ _ => ?_
  refine (names_declare ?_).result fun _ _ => ?_
  · exact (hname.gap (gap_literal hU (by decide)) hpin).close (gap_literal hU (by decide))
  · exact hname.close (gap_plain (by decide))

theorem names_serialSetup (hn : n.NamesOnly U)
    (hU : ∀ f ∈ BlockKind.serialSetup.facilities, U f) (hS : ∀ t, NamesOnly U t → S t) :
    (serialSetup .microPython n).Obeys (naming U S) (Code.NamesOnly U) := by
  have hbaud := hn.fieldOr "BAUD" "115200" (namesOnly_plain (by decide))
  refine (names_declare (namesOnly_literal hU (by decide))).bind fun _ _ => ?_
  refine (names_setup (hS _ ?_)).result fun _ _ => finished_empty
  have hfront : NamesOnly U "uart = UART(0, baudrate=" := namesOnly_literal hU (by decide)
  exact (hfront.append hbaud (Or.inl (by decide))).close (gap_plain (by decide))

theorem names_servoAttach (hn : n.NamesOnly U)
    (hU : ∀ f ∈ BlockKind.servoAttach.facilities, U f) (hS : ∀ t, NamesOnly U t → S t) :
    (servoAttach .microPython n).Obeys (naming U S) (Code.NamesOnly U) := by
  have hpin := hn.fieldOr "PIN" "15" (namesOnly_plain (by decide))
  have hname := hn.nameField "NAME" "servo" (by decide) (namesOnly_plain (by decide))
  refine (names_importPin (hU _ (by decide))).bind fun _ _ => ?_
  refine (names_importPwm (hU _ (by decide))).bind fun _ _ => ?_
  refine (names_setup (hS _ ?_)).result fun _ _ => finished_empty
  exact (hname.gap (gap_literal hU (by decide)) hpin).close (gap_literal hU (by decide))

/-- The trigger of an interrupt is a constant of the class for pins. -/
theorem names_interruptTrigger (hU : ∀ f ∈ BlockKind.interruptAttach.facilities, U f) :
    (interruptTrigger .microPython n).Obeys (naming U S) (NamesOnly U) := by
  have hknown : ∀ mode trigger, interruptTrigger? .microPython mode = some trigger →
      NamesOnly U trigger := by
    intro mode trigger h
    unfold interruptTrigger? at h
    split at h <;> cases h <;> exact namesOnly_literal hU (by decide)
  simp only [interruptTrigger]
  split
  · rename_i trigger htrigger
    exact obeys_pure (hknown _ trigger htrigger)
  · refine (obeys_notice _).result fun _ _ => ?_
    exact namesOnly_literal (s := "Pin.IRQ_RISING") hU (by decide)

theorem names_interruptAttach (hn : n.NamesOnly U)
    (hU : ∀ f ∈ BlockKind.interruptAttach.facilities, U f) (hS : ∀ t, NamesOnly U t → S t) :
    (interruptAttach .microPython n).Obeys (naming U S) (Code.NamesOnly U) := by
  have hpin := hn.fieldOr "PIN" "2" (namesOnly_plain (by decide))
  have hhandler := hn.nameField "HANDLER" "on_interrupt" (by decide)
    (namesOnly_plain (by decide))
  have hname := namesOnly_pinName (U := U) "pin_irq_" (by decide) (by decide)
    (n.fieldOr "PIN" "2")
  refine (names_interruptTrigger hU).bind fun trigger htrigger => ?_
  refine (names_importPin (hU _ (by decide))).bind fun _ _ => ?_
  refine (names_setup (hS _ ?_)).bind fun _ _ => ?_
  · exact (hname.gap (gap_literal hU (by decide)) hpin).close (gap_literal hU (by decide))
  · refine (names_setup (hS _ ?_)).result fun _ _ => finished_empty
    have hirq := hname.gap (s := ".irq(trigger=") (gap_plain (by decide)) htrigger
    exact (hirq.gap (gap_plain (by decide)) hhandler).close (gap_plain (by decide))

variable (hb : j.backend = Target.microPython.backend)

include hb

theorem names_digitalWrite (hn : n.NamesOnly U)
    (hU : ∀ f ∈ BlockKind.digitalWrite.facilities, U f) :
    (digitalWrite .microPython j n).Obeys (naming U S) (Code.NamesOnly U) := by
  have hpin := hn.fieldOr "PIN" "2" (namesOnly_plain (by decide))
  have hname := namesOnly_pinName (U := U) "pin_out_" (by decide) (by decide)
    (n.fieldOr "PIN" "2")
  refine (names_importPin (hU _ (by decide))).bind fun _ _ => ?_
  refine (names_declare ?_).bind fun _ _ => ?_
  · exact (hname.gap (gap_literal hU (by decide)) hpin).close (gap_literal hU (by decide))
  · refine (names_valueCode n "STATE" _ (by decide)).result fun state hstate => ?_
    refine Job.finished_line hb ?_
    exact (hname.gap (gap_plain (by decide)) hstate).close (gap_plain (by decide))

theorem names_analogWrite (hn : n.NamesOnly U)
    (hU : ∀ f ∈ BlockKind.analogWrite.facilities, U f) :
    (analogWrite .microPython j n).Obeys (naming U S) (Code.NamesOnly U) := by
  have hpin := hn.fieldOr "PIN" "4" (namesOnly_plain (by decide))
  have hname := namesOnly_pinName (U := U) "pwm_" (by decide) (by decide)
    (n.fieldOr "PIN" "4")
  refine (names_importPin (hU _ (by decide))).bind fun _ _ => ?_
  refine (names_importPwm (hU _ (by decide))).bind fun _ _ => ?_
  refine (names_declare ?_).bind fun _ _ => ?_
  · exact (hname.gap (gap_literal hU (by decide)) hpin).close (gap_literal hU (by decide))
  · refine (names_valueCode n "NUM" _ (by decide)).result fun value hvalue => ?_
    refine Job.finished_line hb ?_
    exact (hname.gap (gap_plain (by decide)) hvalue).close (gap_plain (by decide))

theorem names_delay (hU : ∀ f ∈ BlockKind.delay.facilities, U f) :
    (delay .microPython j n).Obeys (naming U S) (Code.NamesOnly U) := by
  refine (names_importTime (hU _ (by decide))).bind fun _ _ => ?_
  refine (names_valueCode n "DELAY_TIME" _ (by decide)).result fun time htime => ?_
  have hfront : NamesOnly U "time.sleep_ms(" := namesOnly_literal hU (by decide)
  refine Job.finished_line hb ?_
  exact (hfront.append htime (Or.inl (by decide))).close (gap_plain (by decide))

theorem names_serialPrint :
    (serialPrint .microPython j n).Obeys (naming U S) (Code.NamesOnly U) := by
  refine (names_valueCode n "CONTENT" _ (by decide)).result fun content hcontent => ?_
  have hfront := namesOnly_opening (a := "print(") hcontent (by decide) (by decide)
  refine Job.finished_line hb ?_
  split
  · exact (hfront.append finished_empty.only (Or.inr (by decide))).close (gap_plain (by decide))
  · exact (hfront.close (gap_plain (by decide))).close (gap_plain (by decide))

theorem names_servoWrite (hn : n.NamesOnly U) :
    (servoWrite .microPython j n).Obeys (naming U S) (Code.NamesOnly U) := by
  have hname := hn.nameField "NAME" "servo" (by decide) (namesOnly_plain (by decide))
  refine (names_declare (namesOnly_plain (by decide))).bind fun _ _ => ?_
  refine (names_valueCode n "DEGREE" _ (by decide)).result fun degrees hdegrees => ?_
  have hfront := namesOnly_opening (a := "servo_angle(") hname (by decide) (by decide)
  refine Job.finished_line hb ?_
  exact (hfront.gap (gap_plain (by decide)) hdegrees).close (gap_plain (by decide))

/-! ### Control -/

theorem names_assignment (hn : n.NamesOnly U) :
    (assignment .microPython j n).Obeys (naming U S) (Code.NamesOnly U) := by
  have hvar := hn.nameField "VAR" "item" (by decide) (namesOnly_plain (by decide))
  refine (names_declare ?_).bind fun _ _ => ?_
  · exact hvar.append (b := " = 0") (namesOnly_plain (by decide)) (Or.inr (by decide))
  · refine (names_valueCode n "VALUE" _ (by decide)).result fun value hvalue => ?_
    exact Job.finished_line hb (hvar.gap (gap_plain (by decide)) hvalue)

theorem names_returnStatement :
    (returnStatement j n).Obeys (naming U S) (Code.NamesOnly U) := by
  refine (names_valueCode? n "VALUE" _).bind fun value hvalue => ?_
  cases value with
  | none => exact obeys_pure (Job.finished_line hb (namesOnly_plain (by decide)))
  | some text =>
    refine obeys_pure (Job.finished_line hb ?_)
    exact namesOnly_opening (hvalue text rfl) (by decide) (by decide)

theorem names_loopExit (i : NodeId) : (loopExit j i n).Obeys (naming U S) (Code.NamesOnly U) := by
  unfold loopExit
  extract_lets keyword
  have hkeyword : keyword = "continue" ∨ keyword = "break" := by
    show (if _ then _ else _) = _ ∨ (if _ then _ else _) = _
    split
    · exact Or.inl rfl
    · exact Or.inr rfl
  split
  · refine obeys_pure (Job.finished_line hb ?_)
    rcases hkeyword with h | h <;> rw [h] <;> exact namesOnly_plain (by decide)
  · refine (obeys_notice _).bind fun _ _ => obeys_pure ?_
    rw [Job.comment, Job.formatting, hb]
    rcases hkeyword with h | h <;> rw [h] <;> exact ⟨namesOnly_plain (by decide), by decide⟩

theorem names_colonBranch (k : Nat) :
    (colonBranch j n k).Obeys (naming U S) (Finished U) := by
  refine (names_valueCode n _ _ (by decide)).bind fun condition hcondition => ?_
  refine (names_bodyCode hb n _).result fun body hbody => ?_
  have hkeyword : NamesOnly U (if k = 0 then "if" else "elif") := by
    split <;> exact namesOnly_plain (by decide)
  exact (NamesOnly.finish (hkeyword.gap (gap_plain (by decide)) hcondition) (gap_plain (by decide))).append hbody

theorem names_colonOtherwise :
    (colonOtherwise j n).Obeys (naming U S) (Finished U) := by
  unfold colonOtherwise
  split
  · refine (names_bodyCode hb n _).result fun body hbody => ?_
    exact Finished.append ⟨namesOnly_plain (by decide), by decide⟩ hbody
  · exact obeys_pure finished_empty

theorem names_conditional :
    (conditional .microPython j n).Obeys (naming U S) (Code.NamesOnly U) := by
  refine (Obeys.mapM fun k _ => names_colonBranch hb k).bind fun branches hbranches => ?_
  refine (names_colonOtherwise hb).result fun otherwise hotherwise => ?_
  exact (finished_join hbranches).append hotherwise

theorem names_repeatLoop :
    (repeatLoop .microPython j n).Obeys (naming U S) (Code.NamesOnly U) := by
  refine (names_valueCode n "TIMES" _ (by decide)).bind fun times htimes => ?_
  refine (names_bodyCode hb n "DO").result fun body hbody => ?_
  have hcounter : NamesOnly U ("count_" ++ n.symbolSuffix) :=
    namesOnly_symbol (List.all_eq_true.mp (by decide)) (by decide) n.key
  have hfront := namesOnly_opening (a := "for ") hcounter (by decide) (by decide)
  exact (NamesOnly.finish (hfront.gap (gap_plain (by decide)) htimes) (gap_plain (by decide))).append hbody

theorem names_conditionLoop :
    (conditionLoop .microPython j n).Obeys (naming U S) (Code.NamesOnly U) := by
  have hcondition : (loopCondition .microPython j n).Obeys (naming U S) (NamesOnly U) := by
    unfold loopCondition
    split
    · refine (names_valueCode n "BOOL" _ (by decide)).result fun value hvalue => ?_
      exact namesOnly_opening (a := "not ") hvalue (by decide) (by decide)
    · exact names_valueCode n "BOOL" _ (by decide)
  refine hcondition.bind fun condition hcondition => ?_
  refine (names_bodyCode hb n "DO").result fun body hbody => ?_
  exact (NamesOnly.finish (namesOnly_opening hcondition (by decide) (by decide)) (gap_plain (by decide))).append hbody

omit hb in
/-- A bound that is moved by one is counted on, or gets a number added to it. -/
theorem namesOnly_movedBound {bound : String} (h : NamesOnly U bound) (up : Bool) :
    NamesOnly U (movedBound bound up) := by
  unfold movedBound
  extract_lets delta
  generalize Option.filter Whole.inSignedRange _ = moved
  cases moved with
  | some n => exact namesOnly_render n
  | none =>
    cases up <;> exact h.append (namesOnly_plain (by decide)) (Or.inr (by decide))

omit hb in
theorem namesOnly_countingRange {start last step : String} (hstart : NamesOnly U start)
    (hlast : NamesOnly U last) (hstep : NamesOnly U step) :
    NamesOnly U (countingRange start last step) := by
  have hfront := namesOnly_opening (a := "range(") hstart (by decide) (by decide)
  have hmoved := fun up => hfront.gap (gap_plain (s := ", ") (by decide))
    (namesOnly_movedBound hlast up)
  rw [countingRange]
  split
  · exact (hmoved true).close (gap_plain (by decide))
  · split
    · exact ((hmoved _).gap (gap_plain (by decide)) hstep).close (gap_plain (by decide))
    · have htest := ((hmoved true).gap (gap_plain (s := " if ") (by decide)) hstep).gap
        (gap_plain (s := " > 0 else ") (by decide)) (namesOnly_movedBound hlast false)
      exact (htest.gap (gap_plain (by decide)) hstep).close (gap_plain (by decide))

theorem names_countingLoop (hn : n.NamesOnly U) :
    (countingLoop .microPython j n).Obeys (naming U S) (Code.NamesOnly U) := by
  have hvar := hn.nameField "VAR" "i" (by decide) (namesOnly_plain (by decide))
  refine (names_declare ?_).bind fun _ _ => ?_
  · exact hvar.append (b := " = 0") (namesOnly_plain (by decide)) (Or.inr (by decide))
  refine (names_valueCode n "FROM" _ (by decide)).bind fun start hstart => ?_
  refine (names_valueCode n "TO" _ (by decide)).bind fun last hlast => ?_
  refine (names_valueCode n "BY" _ (by decide)).bind fun step hstep => ?_
  refine (names_bodyCode hb n "DO").result fun body hbody => ?_
  have hfront := namesOnly_opening (a := "for ") hvar (by decide) (by decide)
  have hrange := hfront.gap (gap_plain (s := " in ") (by decide))
    (namesOnly_countingRange hstart hlast hstep)
  exact (hrange.finish (gap_plain (by decide))).append hbody

omit hb in
/-- The variable of a timed repeat has underscores in its name. -/
theorem namesOnly_timerState (n : Node) : NamesOnly U (timerState n) := by
  refine namesOnly_word (fun c hc => ?_) (by simp [timerState])
  rw [timerState, Node.symbolSuffix, symbol] at hc
  simp only [String.toList_append, List.mem_append, String.toList_map] at hc
  rcases hc with (hc | hc) | hc
  · exact List.all_eq_true.mp (by decide) c hc
  · obtain ⟨d, -, rfl⟩ := List.mem_map.mp hc
    exact isWordChar_symbolChar d
  · exact List.all_eq_true.mp (by decide) c hc

theorem names_timedRepeat (hU : ∀ f ∈ BlockKind.timedRepeat.facilities, U f) :
    (timedRepeat .microPython j n).Obeys (naming U S) (Code.NamesOnly U) := by
  have hstate := namesOnly_timerState (U := U) n
  refine (names_importTime (hU _ (by decide))).bind fun _ _ => ?_
  refine (names_declare ?_).bind fun _ _ => ?_
  · exact hstate.append (b := " = 0") (namesOnly_plain (by decide)) (Or.inr (by decide))
  refine (names_valueCode n "INTERVAL" _ (by decide)).bind fun interval hinterval => ?_
  refine (names_slotCode hb n "DO").result fun body hbody => ?_
  have hfront : NamesOnly U "if time.ticks_diff(time.ticks_ms(), " :=
    namesOnly_literal hU (by decide)
  have htest := (hfront.append hstate (Or.inl (by decide))).gap (gap_plain (s := ") >= ")
    (by decide)) hinterval
  have hset : NamesOnly U (timerState n ++ " = time.ticks_ms()\n") :=
    hstate.close (gap_literal hU (by decide))
  have hheader := htest.finish (gap_plain (s := ":\n") (by decide))
  exact (hheader.append (Job.finished_indent hb hset)).append hbody

/-! ### Routines -/

theorem names_returnLine :
    (returnLine j n).Obeys (naming U S) (Finished U) := by
  unfold returnLine
  split
  · refine (names_valueCode? n "RETURN" _).bind fun value hvalue => ?_
    cases value with
    | none => exact obeys_pure finished_empty
    | some text =>
      have hreturn := namesOnly_opening (a := "return ") (hvalue text rfl) (by decide) (by decide)
      exact obeys_pure (Job.finished_indent hb (Job.finished_line hb hreturn).only)
  · exact obeys_pure finished_empty

omit hb in
/-- Globals are named by fields of blocks inside the procedure. -/
theorem namesOnly_of_mem_assignedGlobals {i : NodeId}
    (hinside : ∀ k ∈ j.graph.descendants i, (j.node k).NamesOnly U) {params : List String}
    {name : String} (h : name ∈ assignedGlobals j i params) : NamesOnly U name := by
  have hnames := (List.mem_filter.mp h).1
  obtain ⟨⟨key, value⟩, hentry, rfl⟩ := List.mem_map.mp hnames
  have hmem := Dict.mem_of_get?_ofList (Dict.mem_entries_iff.mp hentry)
  obtain ⟨assigned, hassigned, heq⟩ := List.mem_map.mp hmem
  obtain ⟨d, hd, hname⟩ := List.mem_filterMap.mp hassigned
  cases heq
  unfold assignedName? at hname
  split at hname
  · cases hname
    exact (hinside d hd).nameField "VAR" _ (by decide) (namesOnly_plain (by decide))
  · cases hname
    exact (hinside d hd).nameField "VAR" _ (by decide) (namesOnly_plain (by decide))
  · cases hname
    exact namesOnly_timerState _
  · cases hname

theorem finished_globalLine {names : List String} (h : ∀ name ∈ names, NamesOnly U name) :
    Finished U (globalLine j names) := by
  rw [globalLine]
  split
  · exact finished_empty
  · refine Job.finished_indent hb ?_
    exact (namesOnly_opening (namesOnly_commas h) (by decide) (by decide)).close
      (gap_plain (by decide))

/-- Besides its own fields, a procedure reads those of the blocks inside it, for its globals. -/
theorem names_procedure {i : NodeId} (hn : (j.node i).NamesOnly U)
    (hinside : ∀ k ∈ j.graph.descendants i, (j.node k).NamesOnly U) :
    (procedure .microPython j i (j.node i)).Obeys (naming U S) (Code.NamesOnly U) := by
  have hname := hn.nameField "NAME" "do_something" (by decide)
    (namesOnly_plain (by decide))
  have hparams : NamesOnly U (", ".intercalate (parameters (j.node i))) :=
    namesOnly_commas fun name => namesOnly_of_mem_nameList (hn.field? "PARAMS") (by decide)
      (namesOnly_plain (by decide))
  refine (names_slotCode hb _ "STACK").bind fun stack hstack => ?_
  refine (names_returnLine hb).result fun returned hreturned => ?_
  have hglobals : Finished U (globalLine j (assignedGlobals j i (parameters (j.node i)))) :=
    finished_globalLine hb fun _ => namesOnly_of_mem_assignedGlobals hinside
  have hbody : ∀ blank : Bool,
      Finished U (if blank then j.indent "pass\n" else stack ++ returned) := by
    intro blank
    cases blank with
    | true => exact Job.finished_indent hb (namesOnly_plain (by decide))
    | false => exact hstack.append hreturned
  have hfront := (namesOnly_opening (a := "def ") hname (by decide) (by decide)).gap
    (gap_plain (s := "(") (by decide)) hparams
  have hheader := hfront.finish (gap_plain (s := "):\n") (by decide))
  exact (hheader.append hglobals).append (hbody _)

/-- An entry point takes over the lines of the setup, so these have to name no more than it may. -/
theorem names_entry (hS : ∀ t, S t → NamesOnly U t) :
    (entry .microPython j n).Obeys (naming U S) (Code.NamesOnly U) := by
  have hrest : ∀ setup, Finished U setup → (do
      let loop ← j.bodyCode n "LOOP"
      let lines ← Script.setupLines
      let opening := lines ++ setup
      return .statement
        (opening ++ (if opening.isEmpty then "" else "\n") ++ "while True:\n" ++ loop) :
          Script Code).Obeys (naming U S) (Code.NamesOnly U) := by
    intro setup hsetup
    refine (names_bodyCode hb n "LOOP").bind fun loop hloop => ?_
    refine obeys_setupLines.result fun lines hlines => ?_
    obtain ⟨c, hc, rfl⟩ := hlines
    have hopening := (finished_flush fun t ht => hS t (hc t ht)).append hsetup
    have hfeed : ∀ empty : Bool, Finished U (if empty then "" else "\n") := by
      intro empty
      cases empty with
      | true => exact finished_empty
      | false => exact ⟨namesOnly_plain (by decide), by decide⟩
    have hwhile : Finished U "while True:\n" := ⟨namesOnly_plain (by decide), by decide⟩
    exact ((hopening.append (hfeed _)).append hwhile).append hloop
  refine (obeys_enterProgram _).bind fun _ _ => Job.obeys_alwaysEmittedPass.bind fun _ _ => ?_
  dsimp only
  cases n.statements.get? "SETUP" with
  | some head => exact (names_chainCode hb head).bind hrest
  | none => exact hrest "" finished_empty

end Blocks

/-- **Blocks name only what their kinds need**, apart from what the author of the program wrote
into their own fields and into those of the blocks inside of them.  Blocks that are emitted wherever
they stand take nothing from inside; they alone offer lines for the setup, which entry points take
over. -/
theorem Job.obeys_naming {U : Facility → Prop} {S : String → Prop} {j : Job}
    (hb : j.backend = Target.microPython.backend) {i : NodeId} (hn : (j.node i).NamesOnly U)
    (hinside : j.backend.alwaysEmitted.contains (j.node i).type = false →
      ∀ k ∈ j.graph.descendants i, (j.node k).NamesOnly U)
    (hoffers : j.backend.alwaysEmitted.contains (j.node i).type = true →
      ∀ text, NamesOnly U text → S text)
    (hlines : j.isEntry i = true → ∀ text, S text → NamesOnly U text)
    (hU : ∀ kind, ((j.node i).type, kind) ∈ Target.microPython.typeKinds →
      (kind.isGuarded = true → j.graph.isInside j.backend.containers i = true) →
      ∀ f ∈ kind.facilities, U f) :
    (j.blockScript i).Obeys (naming U S) (Code.NamesOnly U) := by
  refine obeys_blockScript_of hb finished_empty fun kind hkind => ?_
  have halways : (j.backend.alwaysEmitted.contains (j.node i).type = true) ↔
      kind ∈ alwaysEmittedKinds.map (·.2) := by
    rw [hb]
    exact Target.alwaysEmitted_iff hkind
  have hneeds := hU kind hkind
  have hfree : kind.isGuarded = false → ∀ f ∈ kind.facilities, U f := by
    intro hkind
    refine hneeds fun hguarded => ?_
    rw [hkind] at hguarded
    cases hguarded
  have hguard : ∀ {script : Script Code}, (j.graph.isInside j.backend.containers i = true →
      script.Obeys (naming U S) (Code.NamesOnly U)) →
      (j.guarded i script).Obeys (naming U S) (Code.NamesOnly U) :=
    obeys_guarded_of finished_empty
  -- Kinds without a guard need their facilities wherever they stand; a guarded one needs them only
  -- inside of a container, as it turns into nothing outside.
  cases kind with
  | entry =>
    refine Blocks.names_entry hb (hlines ((isEntry_iff hb).mpr ?_))
    exact Target.eq_entryType_of_mem hkind
  | procedure =>
    exact Blocks.names_procedure hb hn (hinside (by simpa using halways.not.mpr (by decide)))
  | serialSetup =>
    exact Blocks.names_serialSetup hn (hfree rfl) (hoffers (halways.mpr (by decide)))
  | servoAttach =>
    exact Blocks.names_servoAttach hn (hfree rfl) (hoffers (halways.mpr (by decide)))
  | interruptAttach =>
    exact Blocks.names_interruptAttach hn (hfree rfl) (hoffers (halways.mpr (by decide)))
  | conditional => exact hguard fun _ => Blocks.names_conditional hb
  | repeatLoop => exact hguard fun _ => Blocks.names_repeatLoop hb
  | conditionLoop => exact hguard fun _ => Blocks.names_conditionLoop hb
  | countingLoop => exact hguard fun _ => Blocks.names_countingLoop hb hn
  | loopExit => exact hguard fun _ => Blocks.names_loopExit hb i
  | returnStatement => exact hguard fun _ => Blocks.names_returnStatement hb
  | timedRepeat => exact hguard fun hin => Blocks.names_timedRepeat hb (hneeds fun _ => hin)
  | assignment => exact Blocks.names_assignment hb hn
  | digitalWrite => exact Blocks.names_digitalWrite hb hn (hfree rfl)
  | analogWrite => exact Blocks.names_analogWrite hb hn (hfree rfl)
  | serialPrint => exact Blocks.names_serialPrint hb
  | delay => exact Blocks.names_delay hb (hfree rfl)
  | servoWrite => exact Blocks.names_servoWrite hb hn
  | callStatement => exact (Blocks.names_call hn).result fun _ => finished_line hb
  | number => exact obeys_pure (Blocks.names_number hn)
  | arithmetic => exact Blocks.names_arithmetic
  | boolean => exact obeys_pure Blocks.names_boolean
  | comparison => exact Blocks.names_comparison
  | logic => exact Blocks.names_logic
  | negation => exact Blocks.names_negation
  | text => exact obeys_pure (namesOnly_literal_text .microPython (hn.field? "TEXT"))
  | variableValue =>
    exact obeys_pure (hn.nameField "VAR" _ (by decide) (namesOnly_plain (by decide)))
  | digitalRead => exact Blocks.names_digitalRead hn (hfree rfl)
  | analogRead => exact Blocks.names_analogRead hn (hfree rfl)
  | milliseconds => exact Blocks.names_milliseconds (hfree rfl)
  | callExpression => exact (Blocks.names_call hn).result fun _ htext => htext

end BlockCompiler
