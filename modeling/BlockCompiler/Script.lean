import BlockCompiler.Code
import BlockCompiler.Diagnostic
import BlockCompiler.Graph.Node
import BlockCompiler.Notice

/-!
# Scripts

The code of a block depends on the code of other blocks, and generating it leaves
traces: declarations, lines of the setup, diagnostics, notices.  A script says
what generating a block amounts to, step by step, as data.  Each step asks for
one thing and goes on with the reply; `Run` says what the replies are.

Only three requests have a reply that tells anything: the code of another block,
the setup lines so far, and whether the pass over the always-emitted blocks is
still to be made.
-/

namespace BlockCompiler

/-- A step of a script. -/
inductive Request where
  /-- Asks for the code of a block. -/
  | generate (block : NodeId)
  /-- Offers a declaration. -/
  | declare (symbol text : String)
  /-- Offers a line of the setup. -/
  | setup (symbol text : String)
  /-- Offers a line of the setup, with a notice if it is taken while the `rival` is there. -/
  | setupBeside (symbol text rival : String) (warning : Notice)
  /-- Reports a diagnostic. -/
  | report (d : Diagnostic)
  /-- Writes to the log. -/
  | notice (n : Notice)
  /-- Asks for the lines of the setup so far. -/
  | setupLines
  /-- Asks whether the pass over the always-emitted blocks is still to be made, and takes it as
  made from now on. -/
  | beginPass
  /-- Counts the entry point with the given key. -/
  | enterProgram (key : String)

/-- What the reply to a request is. -/
def Request.Reply : Request → Type
  | generate _ => Code
  | setupLines => String
  | beginPass => Bool
  | declare .. | setup .. | setupBeside .. | report _ | notice _ | enterProgram _ => Unit

/-- Steps to be taken, and what they result in. -/
inductive Script (α : Type) where
  | done (a : α)
  | ask (r : Request) (resume : r.Reply → Script α)

namespace Script

variable {α β : Type}

/-- The first script, then the second one on its result. -/
def bind : Script α → (α → Script β) → Script β
  | done a, f => f a
  | ask r resume, f => ask r fun reply => (resume reply).bind f

instance : Monad Script where
  pure := done
  bind := bind

@[simp] theorem pure_eq_done (a : α) : (pure a : Script α) = done a := rfl

@[simp] theorem done_bind (a : α) (f : α → Script β) : (done a >>= f) = f a := rfl

@[simp] theorem ask_bind (r : Request) (resume : r.Reply → Script α) (f : α → Script β) :
    (ask r resume >>= f) = ask r fun reply => resume reply >>= f := rfl

theorem bind_done (s : Script α) : (s >>= done) = s := by
  induction s with
  | done a => rfl
  | ask r resume ih =>
    rw [ask_bind]
    congr 1
    funext reply
    exact ih reply

theorem bind_bind {γ : Type} (s : Script α) (f : α → Script β) (g : β → Script γ) :
    (s >>= f >>= g) = s >>= fun a => f a >>= g := by
  induction s with
  | done a => rfl
  | ask r resume ih =>
    simp only [ask_bind]
    congr 1
    funext reply
    exact ih reply

instance : LawfulMonad Script :=
  LawfulMonad.mk' Script bind_done (fun _ _ => rfl) bind_bind

/-- The code of a block. -/
def generate (block : NodeId) : Script Code :=
  ask (.generate block) done

/-- Offers a declaration. -/
def declare (symbol text : String) : Script Unit :=
  ask (.declare symbol text) done

/-- Offers a line of the setup. -/
def setup (symbol text : String) : Script Unit :=
  ask (.setup symbol text) done

/-- Offers a line of the setup, with a notice if it is taken while the `rival` is there. -/
def setupBeside (symbol text rival : String) (warning : Notice) : Script Unit :=
  ask (.setupBeside symbol text rival warning) done

/-- Reports a diagnostic. -/
def report (d : Diagnostic) : Script Unit :=
  ask (.report d) done

/-- Writes to the log. -/
def notice (n : Notice) : Script Unit :=
  ask (.notice n) done

/-- The lines of the setup so far. -/
def setupLines : Script String :=
  ask .setupLines done

/-- Whether the pass over the always-emitted blocks is still to be made. -/
def beginPass : Script Bool :=
  ask .beginPass done

/-- Counts an entry point. -/
def enterProgram (key : String) : Script Unit :=
  ask (.enterProgram key) done

end Script

end BlockCompiler
