import ArmStream.Command.Run

/-!
# The program

The program reads its arguments and the parameter file that they name, shows the parameters or
sends commands to the arm, and ends with a code: 0 for success, 1 for an error that it explains,
2 for a command line that it does not understand and 101 for a run that broke off.

## Main definitions

- `Ending`: the code and the two texts of an end.
- `explain`: the text of an error with its causes.
- `program`: the whole program.
-/

namespace ArmStream.Command

structure Ending where
  code : Nat
  /-- The result, for standard output. -/
  output : String := ""
  /-- The error, for standard error. -/
  complaint : String := ""
  deriving DecidableEq, Repr, Inhabited

/-- The lines of a text, all but the first indented. -/
def indentLines (width : Nat) (s : String) : String :=
  String.ofList (s.toList.flatMap fun c =>
    if c = '\n' then c :: List.replicate width ' ' else [c])

def numbered (n : Nat) (cause : String) : String :=
  let digits := toString n
  String.ofList (List.replicate (5 - digits.length) ' ') ++ digits ++ ": " ++ indentLines 7 cause

/-- The text of an error with its causes. Several causes are numbered. -/
def explain (what : String) (causes : List String) : String :=
  let lines := match causes with
    | [] => []
    | [cause] => ["    " ++ indentLines 4 cause]
    | _ => causes.zipIdx.map fun (cause, n) => numbered n cause
  "Error: " ++ what
    ++ (if causes.isEmpty then "" else "\n\nCaused by:\n" ++ "\n".intercalate lines) ++ "\n"

def RunError.explanation : RunError → String
  | .unusableRate => explain "rate must be positive" []
  | .badJoints e => explain ("--joints: " ++ e.message) []
  | .badTorques e => explain ("--torques: " ++ e.message) []
  | .noConnection e => explain "建立传输连接失败" e.chain

def configExplanation (path : String) (e : DriverError) : String :=
  explain ("读取配置文件失败: " ++ path) e.chain

def versionText : String := "iiwa-cli 0.1.0\n"

def helpText : Option String → String
  | some "run" =>
    "以固定频率发送指令\n\nUsage: iiwa-cli run [OPTIONS]\n\nOptions:\n" ++
    "  -r, --rate <RATE>                控制频率（Hz） [default: 200]\n" ++
    "  -t, --ticks <TICKS>              发送周期数（不指定则一直运行到 Ctrl-C）\n" ++
    "  -c, --config <CONFIG>            参数表配置文件（TOML，缺失的键取默认值）\n" ++
    "  -j, --joints <JOINTS>            关节角（弧度，逗号分隔） [default: 0,0,0,0,0,0,0]\n" ++
    "      --torques <TORQUES>          力矩反馈（Nm，逗号分隔，可为空），在加速度槽位发送 [default: ]\n" ++
    "      --report-secs <REPORT_SECS>  统计日志间隔（秒） [default: 5]\n" ++
    "  -h, --help                       Print help\n"
  | some "params" =>
    "打印生效的参数表\n\nUsage: iiwa-cli params [OPTIONS]\n\nOptions:\n" ++
    "      --toml             以 TOML 格式输出（可直接保存为配置文件）\n" ++
    "  -c, --config <CONFIG>  参数表配置文件（TOML，缺失的键取默认值）\n" ++
    "  -h, --help             Print help\n"
  | some "help" => "Print this message or the help of the given subcommand(s)\n"
  | _ =>
    "Command-line interface for the KUKA iiwa JAVA command bridge\n\n" ++
    "Usage: iiwa-cli [OPTIONS] <COMMAND>\n\nCommands:\n" ++
    "  run     以固定频率发送指令\n  params  打印生效的参数表\n" ++
    "  help    Print this message or the help of the given subcommand(s)\n\nOptions:\n" ++
    "  -c, --config <CONFIG>  参数表配置文件（TOML，缺失的键取默认值）\n" ++
    "  -h, --help             Print help\n  -V, --version          Print version\n"

/-- The end that goes with the end of a run; `none` if nothing ends it. -/
def RunEnd.ending? : RunEnd → Option Ending
  | .reported r => some { code := 0, output := r.text }
  | .refused e => some { code := 1, complaint := e.explanation }
  | .brokeOff => some { code := 101 }
  | .endless => none

/-- The parameters that a command line asks for, or the explanation of why there are none. -/
def loadParams (files : String → Except IoError Bytes) :
    Option String → Except String ParamTable
  | none => .ok .default
  | some path =>
    match ParamTable.load (files path) with
    | .ok t => .ok t
    | .error e => .error (configExplanation path e)

/-- The program, with the contents of files and the moment of an interruption, in milliseconds
after the first tick begins, if it comes. `none` if nothing ends it. -/
def program {σ : Type} (env : Surroundings σ) (files : String → Except IoError Bytes)
    (args : List String) (interruption : Option Nat) (w : σ) : Option Ending :=
  match readRequest args with
  | .misused => some { code := 2 }
  | .version => some { code := 0, output := versionText }
  | .help topic => some { code := 0, output := helpText topic }
  | .params config toml =>
    match loadParams files config with
    | .error complaint => some { code := 1, complaint := complaint }
    | .ok t => some { code := 0, output := if toml then t.toToml else t.text }
  | .run config a =>
    match loadParams files config with
    | .error complaint => some { code := 1, complaint := complaint }
    | .ok t => (run env t a (interruption.map (Pace.ticksWithin · a.rate)) w).1.ending?

end ArmStream.Command
