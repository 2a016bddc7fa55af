import BlockCompiler.Proofs.Generation.Requests

/-!
# Outlines of scripts

Which blocks a script asks for, in what order, and what it reports does not depend on
the code it is given: only the pass over the always-emitted blocks depends on the run,
on whether that pass was made before.  An outline lists these moves.  `Outlines` says
that a script has an outline, whatever the replies to it are.

The diagnostics of a run, up to their wording, and whether the pass was made are the
`Tally` of the run.  An outline is enough to follow it: playing a script on a run and
following its outline on the tally come to the same (`Outlines.map_tally_run`), and so
do generating a block and following the outlines of all blocks from it on
(`map_tally_emit`).
-/

namespace BlockCompiler

/-- A move of a script that another block or the diagnostics take notice of. -/
inductive Move where
  /-- Asks for the code of a block. -/
  | visit (block : NodeId)
  /-- Reports the block with the given key. -/
  | remark (reason : Reason) (key : String)
  /-- Asks for the code of some blocks, unless the pass was made before. -/
  | pass (blocks : List NodeId)
deriving DecidableEq, Repr

/-- The request is for no block, begins no pass and reports nothing. -/
def Request.IsQuiet : Request → Prop
  | .declare .. | .setup .. | .setupBeside .. | .notice _ | .setupLines | .enterProgram _ => True
  | .generate _ | .report _ | .beginPass => False

namespace Script

variable {α β γ : Type}

/-- The moves of the script are those listed, whatever the replies are. -/
inductive Outlines : Script α → List Move → Prop
  | done (a : α) : Outlines (done a) []
  | quiet {r : Request} {resume : r.Reply → Script α} {moves : List Move} (hr : r.IsQuiet)
      (h : ∀ reply, Outlines (resume reply) moves) : Outlines (ask r resume) moves
  | visit {i : NodeId} {resume : Code → Script α} {moves : List Move}
      (h : ∀ code, Outlines (resume code) moves) :
      Outlines (ask (.generate i) resume) (.visit i :: moves)
  | remark {d : Diagnostic} {resume : Unit → Script α} {moves : List Move}
      (h : Outlines (resume ()) moves) :
      Outlines (ask (.report d) resume) (.remark d.reason d.node :: moves)
  | pass {blocks : List NodeId} {resume : Bool → Script α} {moves : List Move}
      (hskip : Outlines (resume false) moves)
      (hmake : Outlines (resume true) (blocks.map .visit ++ moves)) :
      Outlines (ask .beginPass resume) (.pass blocks :: moves)

namespace Outlines

theorem pure (a : α) : (Pure.pure a : Script α).Outlines [] :=
  done a

theorem bind {script : Script α} {f : α → Script β} {moves moves' : List Move}
    (h : script.Outlines moves) (hf : ∀ a, (f a).Outlines moves') :
    (script >>= f).Outlines (moves ++ moves') := by
  induction h with
  | done a => exact hf a
  | quiet hr _ ih => exact quiet hr ih
  | visit _ ih => exact visit ih
  | remark _ ih => exact remark ih
  | pass _ _ ihskip ihmake =>
    rw [List.append_assoc] at ihmake
    exact pass ihskip ihmake

/-- Working out a result from that of a script is no move. -/
theorem result {script : Script α} {moves : List Move} (h : script.Outlines moves) (f : α → β) :
    (do return f (← script) : Script β).Outlines moves := by
  have hbind := h.bind (f := fun a => Pure.pure (f a)) fun a => pure (f a)
  rwa [List.append_nil] at hbind

theorem mapM {f : γ → Script β} {moves : γ → List Move} {xs : List γ}
    (h : ∀ x ∈ xs, (f x).Outlines (moves x)) : (xs.mapM f).Outlines (xs.flatMap moves) := by
  induction xs with
  | nil => exact pure _
  | cons x rest ih =>
    rw [List.mapM_cons, List.flatMap_cons]
    refine (h x List.mem_cons_self).bind fun y => ?_
    exact (ih fun z hz => h z (List.mem_cons_of_mem _ hz)).result (y :: ·)

theorem forM {f : γ → Script PUnit} {moves : γ → List Move} {xs : List γ}
    (h : ∀ x ∈ xs, (f x).Outlines (moves x)) : (xs.forM f).Outlines (xs.flatMap moves) := by
  induction xs with
  | nil => exact pure _
  | cons x rest ih =>
    rw [List.flatMap_cons]
    refine (h x List.mem_cons_self).bind fun _ => ?_
    exact ih fun z hz => h z (List.mem_cons_of_mem _ hz)

end Outlines

end Script

/-! ## Tallies -/

/-- What is left of a run when only its diagnostics, up to their wording, and the pass count. -/
structure Tally where
  remarks : List (Reason × String) := []
  seen : KeySet (Reason × String) := {}
  passMade : Bool := false
deriving DecidableEq, Repr

/-- The tally of a run. -/
def Run.tally (s : Run) : Tally where
  remarks := s.diagnostics.entries.map Diagnostic.subject
  seen := s.diagnostics.seen
  passMade := s.passMade

namespace Tally

/-- The tally after a remark: the first of each reason and block counts. -/
def remark (t : Tally) (subject : Reason × String) : Tally :=
  if t.seen.contains subject then t
  else { t with remarks := t.remarks ++ [subject], seen := t.seen.insert subject }

/-- The tally after a move, given what a visit to a block does to it. -/
def move (visit : NodeId → Tally → Option Tally) : Move → Tally → Option Tally
  | .visit i, t => visit i t
  | .remark reason key, t => some (t.remark (reason, key))
  | .pass blocks, t =>
    if t.passMade then some t
    else blocks.foldlM (fun t i => visit i t) { t with passMade := true }

/-- The tally after all moves of a list. -/
def moves (visit : NodeId → Tally → Option Tally) (ms : List Move) (t : Tally) : Option Tally :=
  ms.foldlM (fun t m => move visit m t) t

/-- The tally after a visit to a block, given the outline of each block, with at most `fuel`
blocks being visited inside each other. -/
def visit (outline : NodeId → List Move) : (fuel : Nat) → NodeId → Tally → Option Tally
  | 0, _, _ => none
  | fuel + 1, i, t => moves (visit outline fuel) (outline i) t

theorem moves_cons (visit : NodeId → Tally → Option Tally) (m : Move) (ms : List Move)
    (t : Tally) : moves visit (m :: ms) t = (move visit m t).bind (moves visit ms) :=
  List.foldlM_cons

theorem moves_map_visit_append (visit : NodeId → Tally → Option Tally) (blocks : List NodeId)
    (ms : List Move) (t : Tally) :
    moves visit (blocks.map .visit ++ ms) t =
      (blocks.foldlM (fun t i => visit i t) t).bind (moves visit ms) := by
  unfold moves
  rw [List.foldlM_append, List.foldlM_map]
  rfl

end Tally

namespace Run

@[simp] theorem passMade_tally (s : Run) : s.tally.passMade = s.passMade := rfl

theorem tally_report (s : Run) (d : Diagnostic) :
    (s.report d).tally = s.tally.remark (d.reason, d.node) := by
  have hreports : s.tally.seen.contains (d.reason, d.node) = s.diagnostics.reports d := rfl
  simp only [report, DiagnosticLog.push, Tally.remark, hreports]
  cases s.diagnostics.reports d with
  | true => rfl
  | false => simp [tally, Diagnostic.subject]

end Run

/-- Requests that are no moves leave the tally as it is. -/
theorem Request.IsQuiet.tally_answer {r : Request} (hr : r.IsQuiet)
    (code : NodeId → Run → Option (Code × Run)) (s : Run) :
    ∃ reply s', r.answer code s = some (reply, s') ∧ s'.tally = s.tally := by
  cases r with
  | generate | report | beginPass => exact hr.elim
  | setupBeside | enterProgram => exact ⟨_, _, rfl, by simp [Run.tally]⟩
  | declare | setup | notice | setupLines => exact ⟨_, _, rfl, rfl⟩

/-! ## Following an outline -/

section Following

variable {code : NodeId → Run → Option (Code × Run)} {visit : NodeId → Tally → Option Tally}

/-- The effect of a script on the tally is that of its outline. -/
theorem Script.Outlines.map_tally_run {α : Type} {script : Script α} {moves : List Move}
    (h : script.Outlines moves)
    (hcode : ∀ i s, (code i s).map (·.2.tally) = visit i s.tally) (s : Run) :
    (script.run code s).map (·.2.tally) = Tally.moves visit moves s.tally := by
  induction h generalizing s with
  | done a => rfl
  | quiet hr _ ih =>
    obtain ⟨reply, after, hreply, htally⟩ := hr.tally_answer code s
    rw [Script.run, hreply, ← htally]
    exact ih reply after
  | @visit i resume moves _ ih =>
    rw [Tally.moves_cons, Tally.move, ← hcode i s]
    show ((code i s).bind fun r => (resume r.1).run code r.2).map _ = _
    cases code i s with
    | none => rfl
    | some r => exact ih r.1 r.2
  | remark _ ih =>
    rw [Tally.moves_cons, Tally.move, ← s.tally_report]
    exact ih _
  | @pass blocks resume moves _ _ ihskip ihmake =>
    rw [Tally.moves_cons, Tally.move, Run.passMade_tally]
    show ((resume !s.passMade).run code { s with passMade := true }).map _ = _
    -- The pass is made at most once, and the tally knows whether it has been.
    cases hmade : s.passMade with
    | true =>
      have htally : ({ s with passMade := true } : Run).tally = s.tally := by
        simp [Run.tally, hmade]
      rw [← htally]
      exact ihskip _
    | false =>
      refine (ihmake { s with passMade := true }).trans ?_
      rw [Tally.moves_map_visit_append]
      rfl

/-- The effect of a block on the tally is that of a visit to it. -/
theorem map_tally_emit {scripts : NodeId → Script Code} {outline : NodeId → List Move}
    (h : ∀ i, (scripts i).Outlines (outline i)) (fuel : Nat) (i : NodeId) (s : Run) :
    (emit scripts fuel i s).map (·.2.tally) = Tally.visit outline fuel i s.tally := by
  induction fuel generalizing i s with
  | zero => rfl
  | succ fuel ih => exact (h i).map_tally_run ih s

end Following

end BlockCompiler
