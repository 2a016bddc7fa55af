import BlockCompiler.Report.Basic

/-!
# Arguments

The arguments of the program: a subcommand with its options.  An option's value
follows it as the next argument, or is attached to it; options of one letter that
take no value may be written together.  Arguments are looked at one after the
other, and the first one that settles the matter decides.
-/

namespace BlockCompiler.CommandLine

/-- What `build` is asked to do. -/
structure BuildRequest where
  file : String
  target : Target := .arduino
  output : Option String := none
  format : ReportFormat := .text
  config : Option String := none
  noBanner : Bool := false
  noPlaceholders : Bool := false
  strict : Bool := false
deriving DecidableEq, Repr

/-- What the program is asked to do. -/
inductive Invocation where
  | build (request : BuildRequest)
  | targets
  | version
  | help
  | nothing
  | refused
deriving DecidableEq, Repr

/-- The options of `build` that take a value. -/
inductive ValueOption where
  | target
  | output
  | format
  | config
deriving DecidableEq, Repr

/-- The options that take no value. -/
inductive FlagOption where
  | verbose
  | help
  | version
  | noBanner
  | noPlaceholders
  | strict
deriving DecidableEq, Repr

/-- What `build` has been told so far. -/
structure Progress where
  file : Option String := none
  target : Option Target := none
  output : Option String := none
  format : Option ReportFormat := none
  config : Option String := none
  noBanner : Bool := false
  noPlaceholders : Bool := false
  strict : Bool := false
deriving DecidableEq, Repr

namespace Progress

/-- The request, once all arguments are read; a file has to be named. -/
def finish (p : Progress) : Invocation :=
  match p.file with
  | none => .refused
  | some file =>
    .build {
      file := file
      target := p.target.getD .arduino
      output := p.output
      format := p.format.getD .text
      config := p.config
      noBanner := p.noBanner
      noPlaceholders := p.noPlaceholders
      strict := p.strict }

/-- Takes in the value of an option; each is given once, and has to be known. -/
def setValue (p : Progress) (o : ValueOption) (value : String) : Option Progress :=
  match o with
  | .target =>
    match p.target, Target.parse? value with
    | none, some t => some { p with target := some t }
    | _, _ => none
  | .output => if p.output.isSome then none else some { p with output := some value }
  | .format =>
    match p.format, ReportFormat.ofName? value with
    | none, some f => some { p with format := some f }
    | _, _ => none
  | .config => if p.config.isSome then none else some { p with config := some value }

/-- Takes in a positional argument; there is one. -/
def setFile (p : Progress) (value : String) : Option Progress :=
  if p.file.isSome then none else some { p with file := some value }

/-- Takes in an option without a value: the progress, or what it settles.  Only the wish for more
output may be given more than once. -/
def setFlag (p : Progress) (f : FlagOption) : Except Invocation Progress :=
  match f with
  | .verbose => .ok p
  | .help => .error .help
  | .version => .error .refused
  | .noBanner => if p.noBanner then .error .refused else .ok { p with noBanner := true }
  | .noPlaceholders =>
    if p.noPlaceholders then .error .refused else .ok { p with noPlaceholders := true }
  | .strict => if p.strict then .error .refused else .ok { p with strict := true }

end Progress

/-- The option of a long name that takes a value. -/
def longValue? : String → Option ValueOption
  | "target" => some .target
  | "output" => some .output
  | "format" => some .format
  | "config" => some .config
  | _ => none

/-- The option of a letter that takes a value. -/
def shortValue? : Char → Option ValueOption
  | 't' => some .target
  | 'o' => some .output
  | 'f' => some .format
  | 'c' => some .config
  | _ => none

/-- The option of a long name that takes no value. -/
def longFlag? : String → Option FlagOption
  | "verbose" => some .verbose
  | "help" => some .help
  | "version" => some .version
  | "no-banner" => some .noBanner
  | "no-placeholders" => some .noPlaceholders
  | "strict" => some .strict
  | _ => none

/-- The option of a letter that takes no value. -/
def shortFlag? : Char → Option FlagOption
  | 'v' => some .verbose
  | 'h' => some .help
  | 'V' => some .version
  | _ => none

/-- An argument taken apart. -/
inductive Argument where
  /-- Two dashes: only positional arguments follow. -/
  | divider
  /-- A long option, with the value attached to it. -/
  | long (name : String) (value : Option String)
  /-- Options of one letter. -/
  | short (letters : List Char)
  /-- Any other argument. -/
  | plain (text : String)
deriving DecidableEq, Repr

/-- Takes an argument apart. -/
def Argument.ofString (s : String) : Argument :=
  match s.toList with
  | ['-', '-'] => .divider
  | '-' :: '-' :: rest =>
    let name := rest.takeWhile (· != '=')
    .long (String.ofList name)
      (if name.length < rest.length then some (String.ofList (rest.drop (name.length + 1)))
      else none)
  | '-' :: c :: rest => .short (c :: rest)
  | _ => .plain s

/-- The value attached to an option of one letter. -/
def attachedValue : List Char → Option String
  | [] => none
  | '=' :: rest => some (String.ofList rest)
  | rest => some (String.ofList rest)

/-- What reading an argument of `build` leads to. -/
inductive BuildStep where
  /-- More arguments may follow. -/
  | proceed (p : Progress)
  /-- The value of an option has to follow. -/
  | awaiting (p : Progress) (o : ValueOption)
  /-- The matter is settled. -/
  | settled (i : Invocation)

/-- Goes on, if there is something to go on with. -/
def BuildStep.ofOption : Option Progress → BuildStep
  | some p => .proceed p
  | none => .settled .refused

/-- Reads options of one letter. -/
def shortStep (p : Progress) : List Char → BuildStep
  | [] => .proceed p
  | c :: rest =>
    match shortValue? c with
    | some o =>
      match attachedValue rest with
      | some value => .ofOption (p.setValue o value)
      | none => .awaiting p o
    | none =>
      match shortFlag? c with
      | some f =>
        match p.setFlag f with
        | .ok q => shortStep q rest
        | .error i => .settled i
      | none => .settled .refused

/-- Reads an argument of `build`. -/
def buildStep (p : Progress) : Argument → BuildStep
  | .plain text => .ofOption (p.setFile text)
  | .short letters => shortStep p letters
  | .long name value =>
    match longValue? name, value with
    | some o, some value => .ofOption (p.setValue o value)
    | some o, none => .awaiting p o
    | none, some _ => .settled .refused
    | none, none =>
      match longFlag? name with
      | some f =>
        match p.setFlag f with
        | .ok q => .proceed q
        | .error i => .settled i
      | none => .settled .refused
  | .divider => .proceed p

/-- Reads arguments that are all positional. -/
def readPositional (p : Progress) : List String → Invocation
  | [] => p.finish
  | s :: rest =>
    match p.setFile s with
    | some q => readPositional q rest
    | none => .refused

/-- Reads the arguments of `build`; `pending` is an option whose value is to come. -/
def readBuild (p : Progress) (pending : Option ValueOption) : List String → Invocation
  | [] => if pending.isSome then .refused else p.finish
  | s :: rest =>
    match pending, Argument.ofString s with
    | some o, .plain text =>
      match p.setValue o text with
      | some q => readBuild q none rest
      | none => .refused
    | some _, _ => .refused
    | none, .divider => readPositional p rest
    | none, a =>
      match buildStep p a with
      | .proceed q => readBuild q none rest
      | .awaiting q o => readBuild q (some o) rest
      | .settled i => i

/-- Reads options of one letter where none takes a value. -/
def readLetters (version : Bool) : List Char → Option Invocation
  | [] => none
  | 'v' :: rest => readLetters version rest
  | 'h' :: _ => some .help
  | 'V' :: _ => some (if version then .version else .refused)
  | _ => some .refused

/-- Reads a long option where none takes a value. -/
def readLong (version : Bool) : String → Option String → Option Invocation
  | "verbose", none => none
  | "help", none => some .help
  | "version", none => some (if version then .version else .refused)
  | _, _ => some .refused

/-- Reads the arguments of `targets`. -/
def readTargets : List String → Invocation
  | [] => .targets
  | s :: rest =>
    match Argument.ofString s with
    | .plain _ => .refused
    | .divider => if rest.isEmpty then .targets else .refused
    | .short letters => (readLetters false letters).getD (readTargets rest)
    | .long name value => (readLong false name value).getD (readTargets rest)

/-- Reads the arguments of `help`: the name of a subcommand. -/
def readHelp : List String → Invocation
  | [] | ["build"] | ["targets"] | ["help"] => .help
  | _ => .refused

/-- Reads the arguments of the program. -/
def read : List String → Invocation
  | [] => .nothing
  | s :: rest =>
    match Argument.ofString s with
    | .plain "build" => readBuild {} none rest
    | .plain "targets" => readTargets rest
    | .plain "help" => readHelp rest
    | .plain _ => .refused
    | .divider => if rest.isEmpty then .nothing else .refused
    | .short letters => (readLetters true letters).getD (read rest)
    | .long name value => (readLong true name value).getD (read rest)

end BlockCompiler.CommandLine
