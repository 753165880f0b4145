/-! # Command line options

One input file, options with a value and flags. Short flags may share a dash, and a value may
be attached to its option or be the next argument. -/
namespace HackAssembler.CommandLine

structure Options where
  input : String
  output : Option String
  symbols : Option String
  console : Bool
  dump : Bool
  deriving DecidableEq

/-- What has been read of the arguments. -/
structure Draft where
  input : Option String := none
  output : Option String := none
  symbols : Option String := none
  console : Bool := false
  dump : Bool := false
  deriving DecidableEq

inductive Flag
  | console
  | dump
  deriving DecidableEq

inductive Setting
  | output
  | symbols
  deriving DecidableEq

namespace Draft

/-- There is one input. -/
def setInput (draft : Draft) (value : String) : Option Draft :=
  if draft.input.isSome then none else some { draft with input := some value }

/-- A flag is given once. -/
def raise (draft : Draft) : Flag → Option Draft
  | .console => if draft.console then none else some { draft with console := true }
  | .dump => if draft.dump then none else some { draft with dump := true }

/-- An option is given once. -/
def assign (draft : Draft) (value : String) : Setting → Option Draft
  | .output => if draft.output.isSome then none else some { draft with output := some value }
  | .symbols => if draft.symbols.isSome then none else some { draft with symbols := some value }

def finish (draft : Draft) : Option Options :=
  draft.input.map fun input =>
    ⟨input, draft.output, draft.symbols, draft.console, draft.dump⟩

end Draft

def flagOfLetter? : Char → Option Flag
  | 'c' => some .console
  | 'd' => some .dump
  | _ => none

def settingOfLetter? : Char → Option Setting
  | 'o' => some .output
  | 's' => some .symbols
  | _ => none

def flagOfName? : String → Option Flag
  | "console" => some .console
  | "dump" => some .dump
  | _ => none

def settingOfName? : String → Option Setting
  | "output" => some .output
  | "symbols" => some .symbols
  | _ => none

/-- What one argument says. -/
inductive Argument
  /-- All that follows is input. -/
  | terminator
  | input (value : String)
  /-- Flags, and perhaps an option with the value attached to it. -/
  | flags (flags : List Flag) (setting : Option (Setting × String))
  /-- Flags, and an option whose value is the next argument. -/
  | awaiting (flags : List Flag) (setting : Setting)
  | unknown
  deriving DecidableEq

namespace Argument

/-- The letters behind one dash: flags, until a letter takes what follows as its value, with or
without an equal sign. -/
def ofLetters (flags : List Flag) : List Char → Argument
  | [] => .flags flags.reverse none
  | c :: rest =>
    match flagOfLetter? c, settingOfLetter? c with
    | some flag, _ => ofLetters (flag :: flags) rest
    | none, none => .unknown
    | none, some setting =>
      match rest with
      | [] => .awaiting flags.reverse setting
      | '=' :: value => .flags flags.reverse (some (setting, String.ofList value))
      | value => .flags flags.reverse (some (setting, String.ofList value))

/-- A name behind two dashes, perhaps with an equal sign and a value. -/
def ofName (text : List Char) : Argument :=
  let name := String.ofList (text.takeWhile (· != '='))
  match text.dropWhile (· != '=') with
  | [] =>
    match flagOfName? name, settingOfName? name with
    | some flag, _ => .flags [flag] none
    | none, some setting => .awaiting [] setting
    | none, none => .unknown
  | _ :: value =>
    match settingOfName? name with
    | some setting => .flags [] (some (setting, String.ofList value))
    | none => .unknown

/-- A single dash is an input like any other. -/
def ofString (argument : String) : Argument :=
  match argument.toList with
  | ['-', '-'] => .terminator
  | '-' :: '-' :: name => ofName name
  | ['-'] => .input argument
  | '-' :: letters => ofLetters [] letters
  | _ => .input argument

end Argument

/-- An argument that may be the value of the option before it. -/
def isValue (argument : String) : Bool :=
  match argument.toList with
  | '-' :: _ :: _ => false
  | _ => true

def Draft.raiseAll (draft : Draft) (flags : List Flag) : Option Draft :=
  flags.foldlM Draft.raise draft

/-- Reads the arguments from left to right. -/
def readArguments (draft : Draft) : List String → Option Draft
  | [] => some draft
  | argument :: rest =>
    match Argument.ofString argument with
    | .unknown => none
    | .terminator => rest.foldlM Draft.setInput draft
    | .input value => do readArguments (← draft.setInput value) rest
    | .flags flags none => do readArguments (← draft.raiseAll flags) rest
    | .flags flags (some (setting, value)) => do
      readArguments (← (← draft.raiseAll flags).assign value setting) rest
    | .awaiting flags setting =>
      match rest with
      | [] => none
      | value :: rest =>
        if isValue value then do
          readArguments (← (← draft.raiseAll flags).assign value setting) rest
        else none

/-- The options that some arguments give, if they can be understood. -/
def Options.ofArguments (arguments : List String) : Option Options := do
  (← readArguments {} arguments).finish

end HackAssembler.CommandLine
