import ArmStream.Link.Error
import ArmStream.Params.Toml

/-!
# What the driver reports

`DriverError` holds the causes, `DriverError.message` their wording. `ParamTable.load` reads a
parameter file and reports what is wrong with it.
-/

namespace ArmStream

inductive DriverError where
  | connection (near far : String) (cause : LinkError)
  | link (cause : LinkError)
  | badMessage (cause : MessageError)
  | alreadyRunning
  | stopped
  | notImplemented (what : String)
  | ioThread (what : String)
  | io (cause : IoError)
  /-- A parameter file that cannot be read as one. -/
  | config
  deriving DecidableEq, Repr, Inhabited

/-- The wording of an error. What exactly is wrong with a parameter file is not told. -/
def DriverError.message : DriverError → String
  | .connection near far cause =>
    s!"Failed to establish transport {near} <-> {far}: {cause.message}"
  | .link cause => "Link error: " ++ cause.message
  | .badMessage cause => "Protocol error: " ++ cause.message
  | .alreadyRunning => "Driver already running"
  | .stopped => "Driver stopped"
  | .notImplemented what => "Not implemented: " ++ what
  | .ioThread what => "IO thread error: " ++ what
  | .io cause => "IO error: " ++ cause.message
  | .config => "Config parse error"

def DriverError.chain (e : DriverError) : List String :=
  e.message ::
    match e with
    | .connection _ _ cause => cause.chain
    | .link cause => cause.chain
    | .badMessage cause => [cause.message]
    | .io cause => [cause.message]
    | .config => ["not a table of parameters"]
    | _ => []

def IoError.noSuchFile : IoError := .other "No such file or directory (os error 2)"

def IoError.isDirectory : IoError := .other "Is a directory (os error 21)"

def IoError.notDirectory : IoError := .other "Not a directory (os error 20)"

def IoError.nameTooLong : IoError := .other "File name too long (os error 36)"

/-- A text file whose bytes are no text. -/
def IoError.invalidText : IoError := .other "stream did not contain valid UTF-8"

namespace ParamTable

def ofText (text : String) : Except DriverError ParamTable :=
  match ofToml? text with
  | some t => .ok t
  | none => .error .config

/-- The table in a file of given contents, or whose reading failed. -/
def load (contents : Except IoError Bytes) : Except DriverError ParamTable :=
  match contents with
  | .error e => .error (.io e)
  | .ok bytes =>
    match String.fromUTF8? ⟨bytes⟩ with
    | none => .error (.io .invalidText)
    | some text => ofText text

end ParamTable

end ArmStream
