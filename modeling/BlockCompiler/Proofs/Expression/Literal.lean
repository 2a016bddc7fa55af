import BlockCompiler.Proofs.Generation.Results
import BlockCompiler.Proofs.Graph.Forest

/-!
# String literals

A text stands in the source as a literal: between two quotes, with a backslash before each
character that would end the literal or its line.  `Literal.read?` reads a literal at the
start of a text, knows no escapes but those three, and takes no raw line feed.  Whatever
follows the literal of a text, reading gives back the text and what follows
(`Literal.read?_literal`); so two texts never have the same literal.
-/

namespace BlockCompiler

namespace Literal

/-- The positions of the quotes that no backslash escapes, where the first character has the
position `start`. -/
def bareMarks (mark : Char) (start : Nat) : List Char → List Nat
  | [] => []
  | '\\' :: _ :: rest => bareMarks mark (start + 2) rest
  | c :: rest =>
    if c = mark then start :: bareMarks mark (start + 1) rest else bareMarks mark (start + 1) rest

/-- The character that a backslash and `c` stand for. -/
def escape? (mark c : Char) : Option Char :=
  if c = '\\' then some '\\'
  else if c = mark then some mark
  else if c = 'n' then some '\n'
  else none

/-- Reads a literal behind its first quote: the text, and what follows the last quote. -/
def readBody? (mark : Char) : List Char → Option (List Char × List Char)
  | [] => none
  | '\\' :: c :: rest => do
    let d ← escape? mark c
    let (text, after) ← readBody? mark rest
    return (d :: text, after)
  | c :: rest =>
    if c = mark then some ([], rest)
    else if c = '\n' then none
    else do
      let (text, after) ← readBody? mark rest
      return (c :: text, after)

/-- Reads a literal: the text, and what follows the literal. -/
def read? (mark : Char) : List Char → Option (List Char × List Char)
  | [] => none
  | c :: rest => if c = mark then readBody? mark rest else none

/-- The characters with `c` replaced by `piece` wherever it stands. -/
def replace (c : Char) (piece cs : List Char) : List Char :=
  cs.flatMap fun d => if d = c then piece else [d]

/-! ## One character -/

variable (t : Target)

theorem quoteMark_ne : t.quoteMark ≠ '\\' ∧ t.quoteMark ≠ '\n' ∧ t.quoteMark ≠ 'n' := by
  cases t <;> decide

/-- A character stands in a literal for itself, or behind a backslash. -/
theorem literalChar_cases (c : Char) :
    (∃ d, Blocks.literalChar t.quoteMark c = ['\\', d] ∧ escape? t.quoteMark d = some c ∧
      d ≠ '\n') ∨
    (Blocks.literalChar t.quoteMark c = [c] ∧ c ≠ '\\' ∧ c ≠ t.quoteMark ∧ c ≠ '\n') := by
  obtain ⟨hback, hfeed, hn⟩ := quoteMark_ne t
  unfold Blocks.literalChar
  by_cases h : c = '\\'
  · subst h
    exact .inl ⟨'\\', if_pos rfl, if_pos rfl, by decide⟩
  by_cases h' : c = t.quoteMark
  · subst h'
    refine .inl ⟨t.quoteMark, ?_, ?_, hfeed⟩
    · rw [if_neg h, if_pos rfl]
    · rw [escape?, if_neg h, if_pos rfl]
  by_cases h'' : c = '\n'
  · subst h''
    refine .inl ⟨'n', ?_, ?_, by decide⟩
    · rw [if_neg h, if_neg h', if_pos rfl]
    · rw [escape?, if_neg (by decide), if_neg hn.symm, if_pos rfl]
  · refine .inr ⟨?_, h, h', h''⟩
    rw [if_neg h, if_neg h', if_neg h'']

theorem readBody?_literalChar (c : Char) (rest : List Char) :
    readBody? t.quoteMark (Blocks.literalChar t.quoteMark c ++ rest) =
      (readBody? t.quoteMark rest).map fun r => (c :: r.1, r.2) := by
  rcases literalChar_cases t c with ⟨d, hc, hd, -⟩ | ⟨hc, hback, hmark, hfeed⟩
  · rw [hc]
    simp only [List.cons_append, List.nil_append, readBody?, hd]
    cases readBody? t.quoteMark rest <;> rfl
  · rw [hc, List.singleton_append, readBody?, if_neg hmark, if_neg hfeed]
    · cases readBody? t.quoteMark rest <;> rfl
    · intro d _ h
      exact absurd h hback

theorem bareMarks_literalChar (c : Char) (start : Nat) (rest : List Char) :
    bareMarks t.quoteMark start (Blocks.literalChar t.quoteMark c ++ rest) =
      bareMarks t.quoteMark (start + (Blocks.literalChar t.quoteMark c).length) rest := by
  rcases literalChar_cases t c with ⟨d, hc, -, -⟩ | ⟨hc, hback, hmark, -⟩
  · rw [hc]
    rfl
  · rw [hc, List.singleton_append, bareMarks, if_neg hmark]
    · rfl
    · intro d _ h
      exact absurd h hback

/-! ## A whole text -/

theorem toList_literal (mark : Char) (s : String) :
    (Blocks.literal mark s).toList =
      mark :: (s.toList.flatMap (Blocks.literalChar mark) ++ [mark]) := by
  rw [Blocks.literal, String.toList_ofList]

/-- **A literal is read as its text**, whatever follows it. -/
theorem read?_literal (s : String) (rest : List Char) :
    read? t.quoteMark ((Blocks.literal t.quoteMark s).toList ++ rest) = some (s.toList, rest) := by
  have hbody : ∀ cs : List Char,
      readBody? t.quoteMark (cs.flatMap (Blocks.literalChar t.quoteMark) ++ t.quoteMark :: rest) =
        some (cs, rest) := by
    intro cs
    induction cs with
    | nil =>
      rw [List.flatMap_nil, List.nil_append, readBody?, if_pos rfl]
      intro c _ h
      exact absurd h (quoteMark_ne t).1
    | cons c cs ih =>
      rw [List.flatMap_cons, List.append_assoc, readBody?_literalChar, ih]
      rfl
  rw [toList_literal, List.cons_append, List.append_assoc, read?, if_pos rfl]
  exact hbody s.toList

theorem literal_injective : Function.Injective (Blocks.literal t.quoteMark) := by
  intro s s' h
  have hs := read?_literal t s []
  rw [h, read?_literal] at hs
  exact String.toList_inj.mp (congrArg Prod.fst (Option.some.inj hs)).symm

theorem bareMarks_literal (s : String) :
    bareMarks t.quoteMark 0 (Blocks.literal t.quoteMark s).toList =
      [0, (Blocks.literal t.quoteMark s).length - 1] := by
  have hback := (quoteMark_ne t).1
  -- What stands between the quotes moves the position of the last one, and adds none.
  have hbody : ∀ (cs : List Char) (start : Nat),
      bareMarks t.quoteMark start
          (cs.flatMap (Blocks.literalChar t.quoteMark) ++ [t.quoteMark]) =
        [start + (cs.flatMap (Blocks.literalChar t.quoteMark)).length] := by
    intro cs
    induction cs with
    | nil =>
      intro start
      rw [List.flatMap_nil, List.nil_append, bareMarks, if_pos rfl]
      · rfl
      · intro c _ h
        exact absurd h hback
    | cons c cs ih =>
      intro start
      rw [List.flatMap_cons, List.append_assoc, bareMarks_literalChar, ih, List.length_append,
        Nat.add_assoc]
  have hlength : (Blocks.literal t.quoteMark s).length =
      (s.toList.flatMap (Blocks.literalChar t.quoteMark)).length + 2 := by
    rw [← String.length_toList, toList_literal, List.length_cons, List.length_append,
      List.length_singleton]
  rw [toList_literal, bareMarks, if_pos rfl, hbody, hlength, Nat.zero_add, Nat.add_comm 1]
  · rfl
  · intro c _ h
    exact absurd h hback

theorem not_mem_literal (s : String) : '\n' ∉ (Blocks.literal t.quoteMark s).toList := by
  have hmark := (quoteMark_ne t).2.1.symm
  have hchar : ∀ c, '\n' ∉ Blocks.literalChar t.quoteMark c := by
    intro c
    rcases literalChar_cases t c with ⟨d, hc, -, hd⟩ | ⟨hc, -, -, hc'⟩
    · simp [hc, hd.symm]
    · simp [hc, hc'.symm]
  simp [toList_literal, hmark, hchar]

/-- Escaping in one go is the same as replacing first all backslashes, then all quotes and then
all line feeds. -/
theorem flatMap_literalChar (cs : List Char) :
    cs.flatMap (Blocks.literalChar t.quoteMark) =
      replace '\n' ['\\', 'n'] (replace t.quoteMark ['\\', t.quoteMark]
        (replace '\\' ['\\', '\\'] cs)) := by
  obtain ⟨hback, hfeed, -⟩ := quoteMark_ne t
  simp only [replace, List.flatMap_assoc]
  refine congrArg (fun f => cs.flatMap f) (funext fun c => ?_)
  unfold Blocks.literalChar
  by_cases h : c = '\\'
  · simp [h, hback.symm]
  by_cases h' : c = t.quoteMark
  · simp [h', hback, hfeed]
  by_cases h'' : c = '\n'
  · simp [h'', hfeed.symm]
  · simp [h, h', h'']

end Literal

namespace Graph

variable {g : Graph}

/-- **A text block stands for its text, whatever characters it has.**  It yields the same
literal on every run: the text between two quotes, with first the backslashes, then the quotes
and then the line feeds replaced.  Only the quotes at the two ends are not escaped, no line feed
is left, and reading gives back the text; so two texts have two literals. -/
theorem Built.yields_literal (h : g.Built) (t : Target) {i : NodeId}
    (htype : (g.node i).type = "text") {s : String}
    (htext : (g.node i).fields.get? "TEXT" = some s) :
    Job.Yields ⟨g, t.backend⟩ (Script.generate i)
        (.expression (Blocks.literal t.quoteMark s) Order.atomic) ∧
      (Blocks.literal t.quoteMark s).toList =
        t.quoteMark :: (Literal.replace '\n' ['\\', 'n']
          (Literal.replace t.quoteMark ['\\', t.quoteMark]
            (Literal.replace '\\' ['\\', '\\'] s.toList)) ++ [t.quoteMark]) ∧
      Literal.bareMarks t.quoteMark 0 (Blocks.literal t.quoteMark s).toList =
        [0, (Blocks.literal t.quoteMark s).length - 1] ∧
      '\n' ∉ (Blocks.literal t.quoteMark s).toList ∧
      (∀ rest, Literal.read? t.quoteMark ((Blocks.literal t.quoteMark s).toList ++ rest) =
        some (s.toList, rest)) ∧
      Function.Injective (Blocks.literal t.quoteMark) := by
  refine ⟨?_, ?_, Literal.bareMarks_literal t s, Literal.not_mem_literal t s,
    Literal.read?_literal t s, Literal.literal_injective t⟩
  · have hkind : ((g.node i).type, BlockKind.text) ∈ t.typeKinds := by
      rw [htype]
      cases t <;> decide
    have hcode : Blocks.text t (g.node i) =
        .expression (Blocks.literal t.quoteMark s) Order.atomic := by
      rw [Blocks.text, htext]
      rfl
    refine Job.yields_generate_of_mem h.isForest hkind ?_
    rw [← hcode]
    exact Job.yields_pure _
  · rw [Literal.toList_literal, Literal.flatMap_literalChar]

/-- A program of one text block. -/
def textDraft (text : String) : Draft :=
  [.node "words" "text", .setField 0 "TEXT" text].foldl (fun d e => Draft.Edit.apply e d) {}

theorem textDraft_reachable (text : String) : (textDraft text).Reachable :=
  Draft.reachable_of_edits rfl

/-- A backslash, a quote and a line feed, each at an end or beside another. -/
theorem Built.yields_literal_backslashes :
    (textDraft "\\'\\n\n\\").toGraph.Built ∧
      Job.Yields ⟨(textDraft "\\'\\n\n\\").toGraph, Target.microPython.backend⟩ (Script.generate 0)
        (.expression "'\\\\\\'\\\\n\\n\\\\'" Order.atomic) ∧
      Literal.read? '\'' "'\\\\\\'\\\\n\\n\\\\' + x".toList =
        some ("\\'\\n\n\\".toList, " + x".toList) := by
  have hbuilt := (textDraft_reachable "\\'\\n\n\\").built rfl
  obtain ⟨hyields, -, -, -, hread, -⟩ :=
    hbuilt.yields_literal .microPython (i := 0) (s := "\\'\\n\n\\") rfl rfl
  exact ⟨hbuilt, hyields, hread " + x".toList⟩

end Graph

end BlockCompiler
