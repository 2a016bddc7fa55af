import BlockCompiler.Proofs.Generation.Options
import BlockCompiler.Proofs.Generation.WholeLines

/-!
# Placeholders are comments

The type of an orphan stands in its placeholder, and may be any text, also one of several
lines.  The placeholder is a number of lines that all begin with the mark of comments
(`Job.exists_marks_placeholder`).

They stay lines of their own on the way into the source.  What stands above them in their
section are whole lines (`Job.isWhole_topLevel`), sections are separated by blank lines
(`Job.exists_layOut`), and only line feeds are trimmed, of which the placeholder has none
at its end but the last.
-/

namespace BlockCompiler

open Text Script

/-! ## Rows -/

namespace Text

/-- The rows of whole lines are the rows of the text without the last, which is empty. -/
theorem IsWhole.rows_append {a : String} (h : IsWhole a) (b : String) :
    rows (a ++ b) = (rows a).dropLast ++ rows b := by
  rcases h with rfl | h
  · rw [String.empty_append]
    rfl
  · obtain ⟨front, hfront⟩ := List.getLast?_eq_some_iff.mp h
    obtain rfl : a = String.ofList front ++ "\n" ++ "" := by
      apply String.toList_inj.mp
      simp [hfront]
    rw [rows_append_feed, String.append_empty, rows_append_feed]
    rw [show rows "" = [[]] from rfl, List.dropLast_concat]

/-- The lines of the text stand in the source one after the other, and right above them those of
`front`. -/
def StandsBelow (front text source : String) : Prop :=
  ∃ above below, rows source = above ++ (rows front).dropLast ++ rows text ++ below

theorem standsBelow_of_eq {before front text after : String} (hbefore : IsWhole before)
    (hfront : IsWhole front) :
    StandsBelow front text (before ++ front ++ text ++ "\n" ++ after) := by
  refine ⟨(rows before).dropLast, rows after, ?_⟩
  have hfirst : before ++ front ++ text = before ++ (front ++ text) := String.append_assoc
  rw [rows_append_feed, hfirst, hbefore.rows_append, hfront.rows_append, ← List.append_assoc]

theorem exists_trimLineFeeds_feed (back : String) :
    ∃ rest, trimLineFeeds ("\n" ++ back) ++ "\n" = "\n" ++ rest := by
  obtain ⟨feeds, hsplit, -⟩ := exists_lineFeeds ("\n" ++ back)
  have htext : ("\n" ++ back).toList = '\n' :: back.toList := by simp
  rw [htext] at hsplit
  cases htrimmed : (trimLineFeeds ("\n" ++ back)).toList with
  | nil =>
    refine ⟨"", ?_⟩
    rw [String.toList_eq_nil_iff.mp htrimmed, String.empty_append, String.append_empty]
  | cons c cs =>
    rw [htrimmed, List.cons_append] at hsplit
    obtain ⟨rfl, -⟩ := List.cons.inj hsplit
    refine ⟨String.ofList cs ++ "\n", ?_⟩
    apply String.toList_inj.mp
    simp [htrimmed]

end Text

/-! ## What stands at top level -/

/-- Of the kinds of a target, those that are generated at top level. -/
def BlockKind.placed : List BlockKind :=
  [.entry, .procedure, .serialSetup, .servoAttach, .interruptAttach]

theorem Job.mem_placed {j : Job} {t : Target} (hb : j.backend = t.backend) {type : String}
    {kind : BlockKind} (hmem : (type, kind) ∈ t.typeKinds) (hplaced : j.isPlaced type = true) :
    kind ∈ BlockKind.placed := by
  have hlisted : ∀ e ∈ t.typeKinds,
      e.1 ∈ [t.entryType, "procedures_defnoreturn", "procedures_defreturn"] ∨
        e.1 ∈ ["serial_setup", "servo_attach", "interrupt_attach"] → e.2 ∈ BlockKind.placed := by
    cases t <;> decide
  rw [isPlaced, hb, Bool.or_eq_true_iff] at hplaced
  exact hlisted _ hmem
    (hplaced.imp (TypeSet.contains_ofList _ _).mp (TypeSet.contains_ofList _ _).mp)

/-- These kinds turn into statements. -/
theorem Generator.statement_script {flat : Prop} (t : Target) (j : Job) (i : NodeId)
    {kind : BlockKind} (hkind : kind ∈ BlockKind.placed) :
    (Generator.script ⟨t, kind⟩ j i).Obeys (linewise flat) fun c => ∃ text, c = .statement text := by
  simp only [BlockKind.placed, List.mem_cons, List.not_mem_nil, or_false] at hkind
  rcases hkind with rfl | rfl | rfl | rfl | rfl
  · -- The entry point.
    refine (obeys_linewise _).bind fun _ _ => (obeys_linewise _).bind fun _ _ => ?_
    cases t with
    | arduino =>
      exact (obeys_linewise _).bind fun _ _ => (obeys_linewise _).bind fun _ _ =>
        (obeys_linewise _).result fun _ _ => ⟨_, rfl⟩
    | microPython =>
      dsimp only
      cases (j.node i).statements.get? "SETUP" <;>
        exact (obeys_linewise _).bind fun _ _ => (obeys_linewise _).bind fun _ _ =>
          (obeys_linewise _).result fun _ _ => ⟨_, rfl⟩
  · -- Procedures.
    cases t with
    | arduino =>
      exact (obeys_linewise _).bind fun _ _ => (obeys_linewise _).bind fun _ _ =>
        (obeys_linewise _).result fun _ _ => ⟨_, rfl⟩
    | microPython =>
      exact (obeys_linewise _).bind fun _ _ => (obeys_linewise _).result fun _ _ => ⟨_, rfl⟩
  · -- The setup of the serial line.
    cases t with
    | arduino => exact (obeys_linewise _).result fun _ _ => ⟨_, rfl⟩
    | microPython =>
      exact (obeys_linewise _).bind fun _ _ => (obeys_linewise _).result fun _ _ => ⟨_, rfl⟩
  · -- Servos.
    cases t <;>
      exact (obeys_linewise _).bind fun _ _ => (obeys_linewise _).bind fun _ _ =>
        (obeys_linewise _).result fun _ _ => ⟨_, rfl⟩
  · -- Interrupts.
    refine (obeys_linewise _).bind fun _ _ => ?_
    cases t with
    | arduino =>
      exact (obeys_linewise _).bind fun _ _ => (obeys_linewise _).result fun _ _ => ⟨_, rfl⟩
    | microPython =>
      exact (obeys_linewise _).bind fun _ _ => (obeys_linewise _).bind fun _ _ =>
        (obeys_linewise _).result fun _ _ => ⟨_, rfl⟩

namespace Job

variable {j : Job} {options : Options}

section Texts

variable {t : Target} (hb : j.backend = t.backend) (h : j.graph.IsForest)

include hb h

/-- What a block at top level comes to are whole lines. -/
theorem isWhole_topLevel {i : NodeId} {s s' : Run} {text : String}
    (hplay : j.play? (j.topLevel options i) s = some (text, s')) : IsWhole text := by
  simp only [topLevel] at hplay
  by_cases hplaced : j.isPlaced (j.node i).type = true
  · rw [if_pos hplaced, play?_bind] at hplay
    obtain ⟨⟨_, s₁⟩, -, hrest⟩ := Option.bind_eq_some_iff.mp hplay
    rw [play?_bind] at hrest
    obtain ⟨⟨c, s₂⟩, hcode, hdone⟩ := Option.bind_eq_some_iff.mp hrest
    cases hdone
    have hlines : c.KeepsLines j.IsFlat := keepsLines_of_play? (obeys_generate i) hcode
    rw [play?_generate h] at hcode
    obtain ⟨text, rfl⟩ := keepsLines_of_play? (obeys_blockScript_of hb ⟨"", rfl⟩ fun kind hmem =>
      Generator.statement_script t j i (mem_placed hb hmem hplaced)) hcode
    exact hlines
  · rw [if_neg hplaced] at hplay
    cases hplay
    split
    · exact isWhole_mapLines _ _
    · exact isWhole_empty

theorem InTurn.isWhole_topLevel {blocks : List NodeId} {texts : List String} {s s' : Run}
    (hturn : j.InTurn (j.topLevel options) blocks texts s s') : ∀ text ∈ texts, IsWhole text := by
  induction hturn with
  | nil => exact fun _ htext => absurd htext List.not_mem_nil
  | cons hfirst _ ih =>
    exact List.forall_mem_cons.mpr ⟨Job.isWhole_topLevel hb h hfirst, ih⟩

end Texts

/-! ## Sections in the source -/

/-- A part of a source begins with a line and ends with one. -/
theorem exists_layOut (before : List String) (part : String) (after : List String) :
    ∃ front back, IsWhole front ∧
      layOut (before ++ part :: after) = front ++ trimLineFeeds part ++ "\n" ++ back := by
  induction before with
  | nil =>
    cases after with
    | nil => exact ⟨"", "", isWhole_empty, by simp [layOut]⟩
    | cons next rest =>
      refine ⟨"", "\n" ++ layOut (next :: rest), isWhole_empty, ?_⟩
      apply String.toList_inj.mp
      simp [layOut]
  | cons first before ih =>
    obtain ⟨front, back, hfront, heq⟩ := ih
    have hcons : layOut (first :: before ++ part :: after) =
        trimLineFeeds first ++ "\n\n" ++ layOut (before ++ part :: after) := by
      cases before <;> rfl
    refine ⟨trimLineFeeds first ++ "\n\n" ++ front, back, ?_, ?_⟩
    · exact (isWhole_append_of_getLast? (by decide)).append hfront
    · rw [hcons, heq]
      simp only [String.append_assoc]

/-- The lines of a comment stay lines of their own, whatever is assembled around their section. -/
theorem standsBelow_assemble {f : Formatting} {front body back : String} (hfront : IsWhole front)
    (hbody : f.Marks body) (declarations : String) (banner : Option String)
    (before after : List String) :
    StandsBelow front body
      (assemble declarations banner (before ++ (front ++ body ++ "\n" ++ back) :: after)) := by
  obtain ⟨c, hlast, hc⟩ := hbody.ended
  have hlast' : (front ++ body).toList.getLast? = some c := by
    rw [String.toList_append, List.getLast?_append, hlast]
    rfl
  have hshown : blank (front ++ body ++ "\n" ++ back) = false :=
    blank_eq_false_of_occurs ⟨front, "\n" ++ back, by rw [← String.append_assoc]⟩ hbody.shown
  have htrim : trimLineFeeds (front ++ body ++ "\n" ++ back) =
      front ++ body ++ trimLineFeeds ("\n" ++ back) := by
    rw [← trimLineFeeds_append hlast' hc, ← String.append_assoc]
  have hparts : (before ++ (front ++ body ++ "\n" ++ back) :: after).filter (!blank ·) =
      before.filter (!blank ·) ++ (front ++ body ++ "\n" ++ back) :: after.filter (!blank ·) := by
    rw [List.filter_append, List.filter_cons_of_pos (by rw [hshown]; rfl)]
  obtain ⟨rest, hrest⟩ := exists_trimLineFeeds_feed back
  obtain ⟨above, below, habove, hsource⟩ :=
    exists_layOut ((if declarations.isEmpty then [] else [declarations]) ++ banner.toList ++
      before.filter (!blank ·)) (front ++ body ++ "\n" ++ back) (after.filter (!blank ·))
  -- Only line feeds at the end of the section are trimmed, and the comment is in front of them.
  have hstands : above ++ (front ++ body ++ trimLineFeeds ("\n" ++ back)) ++ "\n" ++ below =
      above ++ front ++ body ++ "\n" ++ (rest ++ below) := by
    calc above ++ (front ++ body ++ trimLineFeeds ("\n" ++ back)) ++ "\n" ++ below
        = above ++ front ++ body ++ (trimLineFeeds ("\n" ++ back) ++ "\n") ++ below := by
          simp only [String.append_assoc]
      _ = above ++ front ++ body ++ ("\n" ++ rest) ++ below := by rw [hrest]
      _ = above ++ front ++ body ++ "\n" ++ (rest ++ below) := by simp only [String.append_assoc]
  rw [assemble_eq_layOut, hparts, ← List.append_assoc, hsource, htrim, hstands]
  exact standsBelow_of_eq habove hfront

/-! ## From stacks to sources -/

/-- Only whether there are placeholders matters at top level. -/
theorem topLevel_of_placeholders (h : options.placeholders = true) :
    j.topLevel options = j.topLevel {} := by
  funext i
  simp only [topLevel, h]

/-- The source shows the lines of the text, right below those that the blocks `earlier` came to. -/
def Shows (j : Job) (options : Options) (earlier : List NodeId) (text source : String) : Prop :=
  ∃ s texts s', j.InTurn (j.topLevel options) earlier texts s s' ∧
    StandsBelow (String.join texts) text source

section Orphan

variable {t : Target} (hb : j.backend = t.backend) (h : j.graph.IsForest)
  {root i : NodeId} {earlier later : List NodeId} {body : String}
  (hchain : j.graph.chain root = earlier ++ i :: later)
  (hplays : ∀ s, ∃ s', j.play? (j.topLevel options i) s = some (body ++ "\n", s'))
  (hmarks : j.formatting.Marks body)

include hb h hchain hplays hmarks

/-- The section of an orphan shows its placeholder wherever the section is put. -/
theorem shows_assemble {s s' : Run} {text : String}
    (hstack : j.play? (j.stack options root) s = some (text, s')) (declarations : String)
    (banner : Option String) (before after : List String) :
    j.Shows options earlier body (assemble declarations banner (before ++ text :: after)) := by
  rw [stack, play?_bind, hchain] at hstack
  obtain ⟨⟨texts, s₁⟩, hplay, hdone⟩ := Option.bind_eq_some_iff.mp hstack
  cases hdone
  obtain ⟨piece, rfl⟩ :=
    (inTurn_of_play? hplay).exists_eq_map (hchain ▸ h.nodup_chain root)
  obtain ⟨s₂, hearlier, hturn⟩ := (inTurn_of_play? hplay).exists_append
  cases hturn with
  | cons hfound _ =>
    obtain ⟨s₃, hbody⟩ := hplays s₂
    rw [hfound] at hbody
    have hpiece : piece i = body ++ "\n" := congrArg Prod.fst (Option.some.inj hbody)
    have hjoin : String.join ((earlier ++ i :: later).map piece) =
        String.join (earlier.map piece) ++ body ++ "\n" ++ String.join (later.map piece) := by
      rw [List.map_append, List.map_cons, String.join_append, String.join_cons, hpiece,
        ← String.append_assoc, ← String.append_assoc]
    refine ⟨s, earlier.map piece, s₂, hearlier, ?_⟩
    rw [hjoin]
    exact standsBelow_assemble (isWhole_join (InTurn.isWhole_topLevel hb h hearlier)) hmarks
      declarations banner before after

theorem shows_compile (hroot : root ∈ j.graph.roots) :
    j.Shows options earlier body (j.compile options).source := by
  obtain ⟨texts, s, hplay⟩ := exists_play? h (j.entriesLast.mapM (j.stack options)) {}
  have hstacks := inTurn_of_play? hplay
  obtain ⟨text, rfl⟩ :=
    hstacks.exists_eq_map (j.perm_entriesLast.nodup_iff.mpr h.nodup_roots)
  obtain ⟨s₁, s₂, hstack⟩ :=
    hstacks.exists_of_mem (j.perm_entriesLast.mem_iff.mpr hroot)
  have hmem : root ∈ j.sectionOrder := by
    rw [sectionOrder]
    split
    · exact j.perm_entriesLast.mem_iff.mpr hroot
    · exact hroot
  obtain ⟨before, after, hsplit⟩ := List.append_of_mem hmem
  rw [compile, compileRun_of_inTurn h hstacks, hsplit, List.map_append, List.map_cons]
  exact shows_assemble hb h hchain hplays hmarks hstack _ _ _ _

theorem shows_fragment (hroot : root ∈ j.graph.roots) (hoptions : options.placeholders = true) :
    j.Shows options earlier body (j.fragment root).source := by
  obtain ⟨text, s, hstack⟩ := exists_play? h (j.stack options root) {}
  have hscript : j.fragmentScript root = j.stack options root := by
    rw [fragmentScript, if_pos (List.contains_iff_mem.mpr hroot), stack, stack,
      topLevel_of_placeholders hoptions]
  rw [fragment, hscript, play, hstack]
  exact shows_assemble hb h hchain hplays hmarks hstack s.declarations.flush none [] []

end Orphan

end Job

/-- **No type escapes from a placeholder.**  Take an orphan at top level, whatever text its type is,
and the blocks in front of it in its stack.  Its placeholder is a text with a line feed after it,
and every line of the text, up to a line feed each, begins with the mark of comments and a space.
Wherever the section of the stack is put, with any declarations and banner and between any other
sections, these lines are lines of the source, right below those of the blocks in front.  So they
are in the compilation, and in the preview of the stack. -/
theorem Graph.Built.placeholders_stay_comments {j : Job} (h : j.graph.Built) {t : Target}
    (hb : j.backend = t.backend) {options : Options} (hoptions : options.placeholders = true)
    {root i : NodeId} (hroot : root ∈ j.graph.roots) {earlier later : List NodeId}
    (hchain : j.graph.chain root = earlier ++ i :: later)
    (horphan : j.isPlaced (j.node i).type = false) :
    ∃ body, (∀ row ∈ rows body, (t.formatting.commentMark ++ " ").toList <+: row) ∧
      (∀ s, ∃ s', j.play? (j.topLevel options i) s = some (body ++ "\n", s')) ∧
      (∀ s, ∃ text s', j.play? (j.stack options root) s = some (text, s') ∧
        ∀ declarations banner before after, j.Shows options earlier body
          (Job.assemble declarations banner (before ++ text :: after))) ∧
      j.Shows options earlier body (j.compile options).source ∧
      j.Shows options earlier body (j.fragment root).source := by
  have hf := h.isForest
  have hmark : j.formatting.HasMark := by
    rw [Job.formatting, hb]
    exact t.hasMark
  obtain ⟨body, hplaceholder, hmarks⟩ := Job.exists_marks_placeholder hmark (j.node i).type
  have hplays : ∀ s, ∃ s', j.play? (j.topLevel options i) s = some (body ++ "\n", s') := by
    intro s
    simp only [Job.topLevel, horphan, hoptions, Bool.false_eq_true, if_false, if_true,
      ← hplaceholder]
    exact ⟨_, rfl⟩
  refine ⟨body, ?_, hplays, fun s => ?_, Job.shows_compile hb hf hchain hplays hmarks hroot,
    Job.shows_fragment hb hf hchain hplays hmarks hroot hoptions⟩
  · have hmarked := hmarks.marked
    rwa [Job.formatting, hb] at hmarked
  · obtain ⟨text, s', hstack⟩ := Job.exists_play? hf (j.stack options root) s
    exact ⟨text, s', hstack, Job.shows_assemble hb hf hchain hplays hmarks hstack⟩

/-- A procedure, and behind it an orphan whose type is a statement on a line of its own. -/
def injectingDraft : Draft :=
  [.node "helper" "procedures_defnoreturn", .node "stray" "\nint x;\r\n\n", .setNext 0 1].foldl
    (fun d e => Draft.Edit.apply e d) {}

theorem injectingDraft_reachable : injectingDraft.Reachable :=
  Draft.reachable_of_edits rfl

def injectingJob : Job :=
  ⟨injectingDraft.toGraph, Target.arduino.backend⟩

/-- The statement stands in the source as a comment, below the procedure. -/
theorem Graph.Built.placeholders_stay_comments_injecting :
    injectingJob.graph.Built ∧ 0 ∈ injectingJob.graph.roots ∧
      injectingJob.graph.chain 0 = [0] ++ 1 :: [] ∧
      injectingJob.isPlaced (injectingJob.node 1).type = false ∧
      ∃ body, body = "// [ORPHANED_TOP_LEVEL] '\n// int x;\n// \n// ' skipped: place it inside " ++
          "one of: arduino_entry, procedures_defnoreturn, procedures_defreturn" ∧
        (∀ row ∈ rows body, "// ".toList <+: row) ∧
        injectingJob.Shows {} [0] body (injectingJob.compile {}).source := by
  have hbuilt : injectingJob.graph.Built := injectingDraft_reachable.built rfl
  have hroot : 0 ∈ injectingJob.graph.roots := by decide
  have hchain : injectingJob.graph.chain 0 = [0] ++ 1 :: [] := by decide
  have horphan : injectingJob.isPlaced (injectingJob.node 1).type = false := by decide
  have hoptions : ({} : Options).placeholders = true := rfl
  obtain ⟨body, hmarked, hplays, -, hcompile, -⟩ :=
    Graph.Built.placeholders_stay_comments hbuilt (t := .arduino) rfl hoptions hroot hchain horphan
  refine ⟨hbuilt, hroot, hchain, horphan, body, ?_, hmarked, hcompile⟩
  obtain ⟨s', hplay⟩ := hplays {}
  have htext : (injectingJob.play? (injectingJob.topLevel {} 1) {}).map (·.1) =
      some ("// [ORPHANED_TOP_LEVEL] '\n// int x;\n// \n// ' skipped: place it inside " ++
        "one of: arduino_entry, procedures_defnoreturn, procedures_defreturn" ++ "\n") := by
    decide +kernel
  rw [hplay] at htext
  exact String.append_left_inj "\n" |>.mp (Option.some.inj htext)

end BlockCompiler
