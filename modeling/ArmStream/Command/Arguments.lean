import ArmStream.Number.Decimal
import ArmStream.Number.Natural
import ArmStream.Text.Split

/-!
# Arguments of the command line

A command line is a subcommand with options around it. An option has a long name, often a letter,
and takes a value or none. A value follows in the next argument, after an equals sign, or right
after the letter. A value in the next argument must not begin with a hyphen unless its option
allows it. No option may come twice in one place; after `--` no option is recognised.

Options are settled from left to right, so a value that cannot be read stands against a help text
asked for behind it. Only a value in an argument of its own right before the subcommand is settled
after the subcommand.

## Main definitions

- `ValueKind`, `Value`: what options take.
- `Switch`, `scan`: options in general.
- `Request`, `readRequest`: the command lines of this program.
-/

namespace ArmStream.Command

open Text Number

inductive ValueKind where
  | text
  /-- The path of a file, which is not empty. -/
  | path
  /-- A number as it is written in a list of values. -/
  | number
  /-- A whole number that fits into 64 bits. -/
  | count
  deriving DecidableEq, Repr, Inhabited

inductive Value where
  /-- Nothing: the option takes no value. -/
  | present
  | text (s : String)
  | number (p : Pattern)
  | count (n : Nat)
  deriving DecidableEq, Repr, Inhabited

/-- The bound of whole numbers on the command line. -/
def wordLimit : Nat := 0x10000000000000000

def ValueKind.read? : ValueKind → String → Option Value
  | .text, s => some (.text s)
  | .path, s => if s.isEmpty then none else some (.text s)
  | .number, s =>
    match readPattern s.toList with
    | .ok p => some (.number p)
    | .error _ => none
  | .count, s => (readBelow? wordLimit s.toList).map .count

structure Switch where
  name : String
  letter : Option Char := none
  /-- The kind of its value, if it takes one. -/
  takes : Option ValueKind := none
  /-- A value in the next argument may begin with a hyphen. -/
  allowsHyphen : Bool := false
  /-- It ends the reading of the command line, which then is only about this. -/
  isFinal : Bool := false
  deriving DecidableEq, Repr, Inhabited

inductive Scanned where
  | misused
  /-- An option that ends the reading. -/
  | final (name : String)
  /-- The options with their values, and the subcommand with its arguments. -/
  | found (values : List (String × Value)) (rest : Option (String × List String))
  /-- A subcommand with its arguments behind a value that was refused. -/
  | spoiled (name : String) (args : List String)
  deriving DecidableEq, Repr, Inhabited

namespace Scanned

def add (name : String) (value : Value) : Scanned → Scanned
  | .found values rest => .found ((name, value) :: values) rest
  | other => other

end Scanned

inductive Reading where
  | misused
  | final (name : String)
  /-- A complete option; `value` is what stands in this argument as its value. -/
  | given (s : Switch) (value : Option String)
  /-- An option whose value is the next argument. -/
  | awaits (s : Switch)
  /-- The end of the options. -/
  | trailing
  | subcommand (name : String)
  deriving DecidableEq, Repr, Inhabited

/-- Reads an option given by its long name, with the value after an equals sign. -/
def readLong (switches : List Switch) (arg : List Char) : Reading :=
  let (name, value) := match cutFirst? ['='] arg with
    | some (name, value) => (name, some value)
    | none => (arg, none)
  match switches.find? fun s => s.name.toList == name, value with
  | none, _ => .misused
  | some s, some value => .given s (some (String.ofList value))
  | some s, none =>
    if s.isFinal then .final s.name
    else if s.takes.isSome then .awaits s
    else .given s none

/-- Reads options given by letters in one argument. The value of an option is what follows its
letter. -/
def readLetters (switches : List Switch) : List Char → Reading
  | [] => .misused
  | c :: rest =>
    match switches.find? fun s => s.letter == some c with
    | none => .misused
    | some s =>
      if s.isFinal then .final s.name
      else
        match rest with
        | [] => if s.takes.isSome then .awaits s else .given s none
        | '=' :: value => .given s (some (String.ofList value))
        | value => .given s (some (String.ofList value))

def readArgument (switches : List Switch) (subcommands : List String) (arg : String) : Reading :=
  if subcommands.contains arg then .subcommand arg
  else
    match arg.toList with
    | ['-', '-'] => .trailing
    | '-' :: '-' :: name => readLong switches name
    | '-' :: c :: rest => readLetters switches (c :: rest)
    | _ => .misused

def mayBeValue (s : Switch) (arg : String) : Bool :=
  s.allowsHyphen ||
    match arg.toList with
    | '-' :: _ :: _ => false
    | _ => true

/-- The value of an option, if the option is not among those `seen` and takes what it was
given. -/
def settle? (seen : List String) (s : Switch) (given : Option String) : Option Value :=
  if seen.contains s.name then none
  else
    match s.takes, given with
    | none, none => some .present
    | some kind, some value => kind.read? value
    | _, _ => none

/-- What remains of a command line behind a refused value in an argument of its own. -/
def afterRefusal (subcommands : List String) : List String → Scanned
  | [] => .misused
  | arg :: rest => if subcommands.contains arg then .spoiled arg rest else .misused

/-- Reads arguments up to a subcommand. An option may await its value from the argument before;
none may be among those `seen`. -/
def scan (switches : List Switch) (subcommands : List String) :
    (awaiting : Option Switch) → (seen : List String) → List String → Scanned
  | none, _, [] => .found [] none
  | some _, _, [] => .misused
  | some s, seen, arg :: rest =>
    if mayBeValue s arg then
      match settle? seen s (some arg) with
      | some value => (scan switches subcommands none (s.name :: seen) rest).add s.name value
      | none => afterRefusal subcommands rest
    else .misused
  | none, seen, arg :: rest =>
    match readArgument switches subcommands arg with
    | .misused => .misused
    | .final name => .final name
    | .given s given =>
      match settle? seen s given with
      | some value => (scan switches subcommands none (s.name :: seen) rest).add s.name value
      | none => .misused
    | .awaits s => scan switches subcommands (some s) seen rest
    | .trailing => if rest.isEmpty then .found [] none else .misused
    | .subcommand name => .found [] (some (name, rest))

structure RunArguments where
  /-- Ticks per second. -/
  rate : Pattern := 0x4069000000000000
  /-- The number of ticks, if it is limited. -/
  ticks : Option Nat := none
  joints : String := "0,0,0,0,0,0,0"
  torques : String := ""
  /-- Seconds between two reports to the log. -/
  reportSeconds : Nat := 5
  deriving DecidableEq, Repr, Inhabited

inductive Request where
  | misused
  | version
  | help (subcommand : Option String)
  /-- Shows the parameters, as a table or as a parameter file. -/
  | params (config : Option String) (toml : Bool)
  /-- Sends commands to the arm. -/
  | run (config : Option String) (arguments : RunArguments)
  deriving DecidableEq, Repr, Inhabited

namespace Switch

/-- The parameter file. It is understood before and after the subcommand. -/
def config : Switch := { name := "config", letter := some 'c', takes := some .path }

def everywhere : List Switch :=
  [config, { name := "help", letter := some 'h', isFinal := true }]

def outer : List Switch :=
  everywhere ++ [{ name := "version", letter := some 'V', isFinal := true }]

def ofParams : List Switch := everywhere ++ [{ name := "toml" }]

def ofRun : List Switch :=
  everywhere ++
    [{ name := "rate", letter := some 'r', takes := some .number },
      { name := "ticks", letter := some 't', takes := some .count },
      { name := "joints", letter := some 'j', takes := some .text, allowsHyphen := true },
      { name := "torques", takes := some .text, allowsHyphen := true },
      { name := "report-secs", takes := some .count }]

end Switch

def RunArguments.set (a : RunArguments) : String × Value → RunArguments
  | ("rate", .number rate) => { a with rate := rate }
  | ("ticks", .count n) => { a with ticks := some n }
  | ("report-secs", .count n) => { a with reportSeconds := n }
  | ("joints", .text joints) => { a with joints := joints }
  | ("torques", .text torques) => { a with torques := torques }
  | _ => a

def configOf? (values : List (String × Value)) : Option String :=
  match values.lookup "config" with
  | some (.text path) => some path
  | _ => none

/-- Reads the arguments of a subcommand. The parameter file named there wins over `config`, the
one named before. -/
def readSubcommand (config : Option String) (name : String) (args : List String) : Request :=
  match name with
  | "params" =>
    match scan Switch.ofParams [] none [] args with
    | .final _ => .help (some name)
    | .found values _ =>
      .params ((configOf? values).or config) ((values.lookup "toml").isSome)
    | _ => .misused
  | "run" =>
    match scan Switch.ofRun [] none [] args with
    | .final _ => .help (some name)
    | .found values _ =>
      .run ((configOf? values).or config) (values.foldl RunArguments.set {})
    | _ => .misused
  | _ =>
    match args with
    | [] => .help none
    | [topic] => if ["run", "params", "help"].contains topic then .help (some topic) else .misused
    | _ => .misused

def readRequest (args : List String) : Request :=
  match scan Switch.outer ["run", "params", "help"] none [] args with
  | .misused => .misused
  | .final name => if name = "version" then .version else .help none
  | .found _ none => .misused
  | .found values (some (name, rest)) => readSubcommand (configOf? values) name rest
  | .spoiled name rest =>
    match readSubcommand none name rest with
    | .help topic => .help topic
    | _ => .misused

end ArmStream.Command
