import SlipStack.Number.Numeral

/-!
# Command lines

The commands of the program and how they are written. A command is a word followed by the
path of a plan and by options in any order. The value of an option follows it as the next
argument or after an equals sign, and no option may be given twice. After two hyphens all
arguments are paths. An argument that is a single hyphen is a path, too.

Arguments are taken in order, so the first one that is wrong, or asks for help, decides.
-/

namespace SlipStack

/-- What the program is asked to do. -/
inductive Command where
  /-- Print the tokens of a plan file, one per line. -/
  | lex (plan : String)
  /-- Parse a plan and, given behaviours, check that every name resolves. -/
  | check (plan : String) (behaviours : Option String) (json : Bool)
  /-- Print a plan in canonical form. -/
  | format (plan : String)
  /-- Run a plan against scripted behaviours. -/
  | run (plan behaviours : String) (config : Option String) (maxSteps : Option Nat)
    (stopOnLost : Bool)
  deriving DecidableEq, Repr

namespace Command

/-- Why there is no command to carry out. -/
inductive Usage where
  /-- The arguments are wrong. -/
  | wrong
  /-- They ask for help or for the version. -/
  | help
  deriving DecidableEq, Repr

/-- The exit code that goes with it. -/
def Usage.code : Usage → Nat
  | .wrong => 2
  | .help => 0

/-- The options. Those of the first two are flags, the others take a value. -/
inductive Flag where
  | json
  | stopOnLost
  | behaviours
  | config
  | maxSteps
  deriving DecidableEq, Repr

namespace Flag

def takesValue : Flag → Bool
  | json | stopOnLost => false
  | behaviours | config | maxSteps => true

/-- The name of an option, without its hyphens. -/
def name : Flag → String
  | json => "json"
  | stopOnLost => "stop-on-lost"
  | behaviours => "behaviours"
  | config => "config"
  | maxSteps => "max-steps"

end Flag

/-- The greatest number of steps that can be asked for. -/
def stepLimit : Nat := 2 ^ 64 - 1

/-- Whether a value is of the right form for an option. -/
def validValue (flag : Flag) (value : String) : Bool :=
  match flag with
  | .maxSteps => (Numeral.natural? stepLimit value.toList).isSome
  | _ => value ≠ ""

/-- What the arguments of a command have given so far. -/
structure Given where
  plan : Option String
  options : List (Flag × String)
  deriving DecidableEq, Repr

namespace Given

def value? (given : Given) (flag : Flag) : Option String :=
  (given.options.find? (·.1 = flag)).map (·.2)

def has (given : Given) (flag : Flag) : Bool :=
  (given.value? flag).isSome

/-- One more option. -/
def add (given : Given) (flag : Flag) (value : String) : Except Usage Given :=
  if given.has flag || (flag.takesValue && !validValue flag value) then .error .wrong
  else .ok { given with options := given.options ++ [(flag, value)] }

/-- One more path. -/
def addPath (given : Given) (path : String) : Except Usage Given :=
  if given.plan.isSome || path = "" then .error .wrong
  else .ok { given with plan := some path }

end Given

/-- How an argument is to be understood. -/
inductive Argument where
  /-- Two hyphens alone. -/
  | endOfOptions
  /-- A name after two hyphens, possibly with a value after an equals sign. -/
  | long (name : String) (value : Option String)
  /-- Letters after one hyphen. -/
  | short (letters : List Char)
  | plain (text : String)
  deriving DecidableEq, Repr

namespace Argument

def ofText (text : String) : Argument :=
  match text.toList with
  | ['-', '-'] => .endOfOptions
  | '-' :: '-' :: rest =>
    let value := match rest.dropWhile (· ≠ '=') with
      | [] => none
      | _ :: value => some (String.ofList value)
    .long (String.ofList (rest.takeWhile (· ≠ '='))) value
  | ['-'] => .plain text
  | '-' :: letters => .short letters
  | _ => .plain text

def isPlain (text : String) : Bool :=
  match ofText text with
  | .plain _ => true
  | _ => false

end Argument

/-- Reads the arguments of a command that knows the given options. -/
def read (known : List Flag) (given : Given) : List String → Except Usage Given
  | [] => .ok given
  | argument :: rest =>
    match Argument.ofText argument with
    | .plain text => do
      let given ← given.addPath text
      read known given rest
    | .endOfOptions => rest.foldlM Given.addPath given
    | .short letters => .error (if letters.head? = some 'h' then .help else .wrong)
    | .long name value =>
      if name = "help" then .error (if value.isNone then .help else .wrong)
      else
        match known.find? (·.name = name), value with
        | none, _ => .error .wrong
        | some flag, some value =>
          if flag.takesValue then do
            let given ← given.add flag value
            read known given rest
          else .error .wrong
        | some flag, none =>
          if flag.takesValue then
            match rest with
            | [] => .error .wrong
            | value :: rest =>
              -- What looks like an option is not taken for a value.
              if Argument.isPlain value then do
                let given ← given.add flag value
                read known given rest
              else .error .wrong
          else do
            let given ← given.add flag ""
            read known given rest

/-- An item that has to be there. -/
def needed {α : Type} : Option α → Except Usage α
  | some x => .ok x
  | none => .error .wrong

/-- The words that name commands, apart from the one that explains them. -/
def words : List String := ["lex", "check", "fmt", "run"]

/-- The command with the given name. -/
def ofWord (word : String) (arguments : List String) : Except Usage Command :=
  if word = "lex" then do
    let given ← read [] ⟨none, []⟩ arguments
    return .lex (← needed given.plan)
  else if word = "check" then do
    let given ← read [.behaviours, .json] ⟨none, []⟩ arguments
    return .check (← needed given.plan) (given.value? .behaviours) (given.has .json)
  else if word = "fmt" then do
    let given ← read [] ⟨none, []⟩ arguments
    return .format (← needed given.plan)
  else if word = "run" then do
    let given ← read [.behaviours, .config, .maxSteps, .stopOnLost] ⟨none, []⟩ arguments
    return .run (← needed given.plan) (← needed (given.value? .behaviours))
      (given.value? .config)
      ((given.value? .maxSteps).bind fun value =>
        Numeral.natural? stepLimit value.toList)
      (given.has .stopOnLost)
  else .error .wrong

/-- Whether there is help on what the arguments name. -/
def helpOn : List String → Usage
  | [] => .help
  | [word] => if words.contains word || word = "help" then .help else .wrong
  | _ => .wrong

/-- The command that a command line stands for. -/
def ofArguments : List String → Except Usage Command
  | [] => .error .wrong
  | argument :: rest =>
    match Argument.ofText argument with
    | .plain word => if word = "help" then .error (helpOn rest) else ofWord word rest
    | .long name none =>
      .error (if name = "help" || name = "version" then .help else .wrong)
    | .short letters =>
      .error (if letters.head? = some 'h' || letters.head? = some 'V' then .help else .wrong)
    | _ => .error .wrong

end Command

end SlipStack
