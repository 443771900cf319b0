/-!
# The parameter table

Twelve texts name the frames of the robot, the addresses of the transport and the modes of
operation. Each has a default. Nothing is checked here: an address that is none shows when the
driver is launched.

## Main definitions

- `ParamKey`: the twelve parameters in their order.
- `ParamTable`: their values, with `get` and `set`.
- `ParamTable.text`: one line for each parameter.
-/

namespace ArmStream

inductive ParamKey where
  | robotTipName
  | robotTargetName
  | robotTargetBaseName
  | localTransportAddress
  | remoteTransportAddress
  | localLowLevelAddress
  | localLowLevelPort
  | remoteLowLevelAddress
  | remoteLowLevelPort
  | commandMode
  | monitorMode
  | kinematicsGroupName
  deriving DecidableEq, Repr, Inhabited

namespace ParamKey

def all : List ParamKey :=
  [.robotTipName, .robotTargetName, .robotTargetBaseName, .localTransportAddress,
    .remoteTransportAddress, .localLowLevelAddress, .localLowLevelPort, .remoteLowLevelAddress,
    .remoteLowLevelPort, .commandMode, .monitorMode, .kinematicsGroupName]

/-- The name of a parameter in a configuration file. -/
def name : ParamKey → String
  | .robotTipName => "robot_tip_name"
  | .robotTargetName => "robot_target_name"
  | .robotTargetBaseName => "robot_target_base_name"
  | .localTransportAddress => "local_transport_address"
  | .remoteTransportAddress => "remote_transport_address"
  | .localLowLevelAddress => "local_low_level_address"
  | .localLowLevelPort => "local_low_level_port"
  | .remoteLowLevelAddress => "remote_low_level_address"
  | .remoteLowLevelPort => "remote_low_level_port"
  | .commandMode => "command_mode"
  | .monitorMode => "monitor_mode"
  | .kinematicsGroupName => "kinematics_group_name"

def ofName? (s : String) : Option ParamKey := all.find? fun key => key.name == s

def index (key : ParamKey) : Nat := all.idxOf key

end ParamKey

structure ParamTable where
  robotTipName : String := "RobotMillTip"
  robotTargetName : String := "RobotMillTipTarget"
  robotTargetBaseName : String := "Robotiiwa"
  localTransportAddress : String := "tcp://0.0.0.0:30010"
  remoteTransportAddress : String := "tcp://172.31.1.147:30010"
  localLowLevelAddress : String := "192.170.10.100"
  localLowLevelPort : String := "30200"
  remoteLowLevelAddress : String := "192.170.10.2"
  remoteLowLevelPort : String := "30200"
  commandMode : String := "JAVA"
  monitorMode : String := "JAVA"
  kinematicsGroupName : String := "IK_Group1_iiwa"
  deriving DecidableEq, Repr, Inhabited

namespace ParamTable

def default : ParamTable := {}

def get (t : ParamTable) : ParamKey → String
  | .robotTipName => t.robotTipName
  | .robotTargetName => t.robotTargetName
  | .robotTargetBaseName => t.robotTargetBaseName
  | .localTransportAddress => t.localTransportAddress
  | .remoteTransportAddress => t.remoteTransportAddress
  | .localLowLevelAddress => t.localLowLevelAddress
  | .localLowLevelPort => t.localLowLevelPort
  | .remoteLowLevelAddress => t.remoteLowLevelAddress
  | .remoteLowLevelPort => t.remoteLowLevelPort
  | .commandMode => t.commandMode
  | .monitorMode => t.monitorMode
  | .kinematicsGroupName => t.kinematicsGroupName

def set (t : ParamTable) (key : ParamKey) (value : String) : ParamTable :=
  match key with
  | .robotTipName => { t with robotTipName := value }
  | .robotTargetName => { t with robotTargetName := value }
  | .robotTargetBaseName => { t with robotTargetBaseName := value }
  | .localTransportAddress => { t with localTransportAddress := value }
  | .remoteTransportAddress => { t with remoteTransportAddress := value }
  | .localLowLevelAddress => { t with localLowLevelAddress := value }
  | .localLowLevelPort => { t with localLowLevelPort := value }
  | .remoteLowLevelAddress => { t with remoteLowLevelAddress := value }
  | .remoteLowLevelPort => { t with remoteLowLevelPort := value }
  | .commandMode => { t with commandMode := value }
  | .monitorMode => { t with monitorMode := value }
  | .kinematicsGroupName => { t with kinematicsGroupName := value }

def entries (t : ParamTable) : List (ParamKey × String) :=
  ParamKey.all.map fun key => (key, t.get key)

def nameWidth : Nat := 26

def padded (width : Nat) (s : String) : String :=
  s ++ String.ofList (List.replicate (width - s.length) ' ')

/-- One line for each parameter, the values aligned. -/
def text (t : ParamTable) : String :=
  String.join (t.entries.map fun (key, value) =>
    padded nameWidth key.name ++ " = " ++ value ++ "\n")

@[simp] theorem get_set (t : ParamTable) (key other : ParamKey) (value : String) :
    (t.set key value).get other = if other = key then value else t.get other := by
  cases key <;> cases other <;> rfl

end ParamTable

end ArmStream
