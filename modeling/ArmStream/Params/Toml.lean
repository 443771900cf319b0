import ArmStream.Params
import ArmStream.Toml.Assignment
import ArmStream.Toml.Written

/-!
# Parameter files

A parameter file assigns strings to the names of the fields of the table. A field that is not
assigned keeps its default. An unknown name, a name assigned twice and a file that cannot be read
are errors. The names are listed here a second time, apart from those of `ParamKey.name`.

## Main definitions

- `ParamTable.fields`, `ParamTable.withField?`: the fields under the names of a file.
- `ParamTable.ofToml?`: the table of a file.
- `ParamTable.toToml`: the file of a table.
-/

namespace ArmStream.ParamTable

def fields (t : ParamTable) : List (String × String) :=
  [("robot_tip_name", t.robotTipName),
    ("robot_target_name", t.robotTargetName),
    ("robot_target_base_name", t.robotTargetBaseName),
    ("local_transport_address", t.localTransportAddress),
    ("remote_transport_address", t.remoteTransportAddress),
    ("local_low_level_address", t.localLowLevelAddress),
    ("local_low_level_port", t.localLowLevelPort),
    ("remote_low_level_address", t.remoteLowLevelAddress),
    ("remote_low_level_port", t.remoteLowLevelPort),
    ("command_mode", t.commandMode),
    ("monitor_mode", t.monitorMode),
    ("kinematics_group_name", t.kinematicsGroupName)]

/-- The table with another value for the field of a name; no field has any other name. -/
def withField? (t : ParamTable) (name value : String) : Option ParamTable :=
  match name with
  | "robot_tip_name" => some { t with robotTipName := value }
  | "robot_target_name" => some { t with robotTargetName := value }
  | "robot_target_base_name" => some { t with robotTargetBaseName := value }
  | "local_transport_address" => some { t with localTransportAddress := value }
  | "remote_transport_address" => some { t with remoteTransportAddress := value }
  | "local_low_level_address" => some { t with localLowLevelAddress := value }
  | "local_low_level_port" => some { t with localLowLevelPort := value }
  | "remote_low_level_address" => some { t with remoteLowLevelAddress := value }
  | "remote_low_level_port" => some { t with remoteLowLevelPort := value }
  | "command_mode" => some { t with commandMode := value }
  | "monitor_mode" => some { t with monitorMode := value }
  | "kinematics_group_name" => some { t with kinematicsGroupName := value }
  | _ => none

/-- Applies assignments to a table, unless a name is unknown or comes again; `seen` are the names
that came before. -/
def assign? (t : ParamTable) (seen : List String) :
    List (String × String) → Option ParamTable
  | [] => some t
  | (name, value) :: rest =>
    match t.withField? name value with
    | none => none
    | some t =>
      if name ∈ seen then none
      else t.assign? (name :: seen) rest

def ofToml? (text : String) : Option ParamTable :=
  match Toml.readAssignments? text with
  | none => none
  | some entries => default.assign? [] entries

/-- The file that describes a table: one assignment for each field. -/
def toToml (t : ParamTable) : String :=
  String.join (t.fields.map fun (name, value) =>
    name ++ " = " ++ Toml.writeString value ++ "\n")

end ArmStream.ParamTable
