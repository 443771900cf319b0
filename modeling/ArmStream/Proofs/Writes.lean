import Mathlib
import ArmStream.Arm.State
import ArmStream.Proofs.Building

/-!
# Writes to the state of the arm

A write replaces the whole vector of one quantity, or of both limits, and leaves all others alone.
So after any writes each quantity has the value that was last written to it, and only two of them
are sent: the commanded positions and the measured torques.

## Main definitions

- `ArmWrite`: a write, by whatever route.
- `ArmState.latest`: the last value of each quantity.
- `ArmState.outgoing`, `ArmState.core`: what of the state is sent, and the state without the rest.

## Main statements

- `ArmState.foldl_apply`: after any writes the state holds the last value of each quantity.
- `ArmState.core_apply`: a write of what is not sent changes nothing of what is sent.
-/

namespace ArmStream

/-- A write to the state of the arm. Each command can be written by its kind and by its name. -/
inductive ArmWrite where
  | command (kind : CommandKind) (values : List Pattern)
  | jointAngles (values : List Pattern)
  | jointTorques (values : List Pattern)
  | cartesianWrench (values : List Pattern)
  | measure (values : List Pattern)
  | limit (lower upper : List Pattern)
  deriving DecidableEq, Repr, Inhabited

namespace ArmWrite

/-- The commanded positions that a write sets. -/
def angles? : ArmWrite → Option (List Pattern)
  | .command .jointAngle values => some values
  | .jointAngles values => some values
  | _ => none

def torques? : ArmWrite → Option (List Pattern)
  | .command .jointTorque values => some values
  | .jointTorques values => some values
  | _ => none

def wrench? : ArmWrite → Option (List Pattern)
  | .command .cartesianWrench values => some values
  | .cartesianWrench values => some values
  | _ => none

def measured? : ArmWrite → Option (List Pattern)
  | .measure values => some values
  | _ => none

def lower? : ArmWrite → Option (List Pattern)
  | .limit lower _ => some lower
  | _ => none

def upper? : ArmWrite → Option (List Pattern)
  | .limit _ upper => some upper
  | _ => none

def isSent (w : ArmWrite) : Bool := w.angles?.isSome || w.measured?.isSome

/-- The vectors that are sent are short enough to be counted by the header of a field. -/
def Short (w : ArmWrite) : Prop :=
  (∀ values ∈ w.angles?, values.length < valueLimit) ∧
    ∀ values ∈ w.measured?, values.length < valueLimit

/-- The last value that writes give to a quantity, nothing if they give it none. -/
def last (quantity : ArmWrite → Option (List Pattern)) (ws : List ArmWrite) : List Pattern :=
  (ws.filterMap quantity).getLast?.getD []

theorem last_concat (quantity : ArmWrite → Option (List Pattern)) (ws : List ArmWrite)
    (w : ArmWrite) : last quantity (ws ++ [w]) = (quantity w).getD (last quantity ws) := by
  cases h : quantity w <;> simp [last, List.filterMap_append, h]

end ArmWrite

namespace ArmState

def apply (s : ArmState) : ArmWrite → ArmState
  | .command kind values => s.command kind values
  | .jointAngles values => s.command .jointAngle values
  | .jointTorques values => s.command .jointTorque values
  | .cartesianWrench values => s.command .cartesianWrench values
  | .measure values => s.measure values
  | .limit lower upper => s.limit lower upper

/-- The last value of each quantity. -/
def latest (ws : List ArmWrite) : ArmState where
  commandedPosition := ArmWrite.last ArmWrite.angles? ws
  commandedTorque := ArmWrite.last ArmWrite.torques? ws
  commandedCartesianWrench := ArmWrite.last ArmWrite.wrench? ws
  torque := ArmWrite.last ArmWrite.measured? ws
  lowerPositionLimit := ArmWrite.last ArmWrite.lower? ws
  upperPositionLimit := ArmWrite.last ArmWrite.upper? ws

/-- A write replaces what it sets and leaves all else alone. -/
theorem latest_concat (ws : List ArmWrite) (w : ArmWrite) :
    latest (ws ++ [w]) = (latest ws).apply w := by
  cases w with
  | command kind values => cases kind <;> simp only [latest, ArmWrite.last_concat] <;> rfl
  | _ =>
    simp only [latest, ArmWrite.last_concat]
    rfl

theorem foldl_apply (ws : List ArmWrite) : ws.foldl apply {} = latest ws := by
  induction ws using List.reverseRecOn with
  | nil => rfl
  | append_singleton ws w ih => rw [List.foldl_concat, ih, latest_concat]

/-- What of the state is sent: the commanded positions, no velocities, and the measured torques in
the place of accelerations. -/
def outgoing (s : ArmState) : JointState := ⟨s.commandedPosition, [], s.torque⟩

def core (s : ArmState) : ArmState :=
  { commandedPosition := s.commandedPosition, torque := s.torque }

theorem core_apply (s : ArmState) (w : ArmWrite) :
    (s.apply w).core = if w.isSent then s.core.apply w else s.core := by
  cases w with
  | command kind values => cases kind <;> rfl
  | _ => rfl

theorem fits_outgoing_latest {ws : List ArmWrite} (h : ∀ w ∈ ws, w.Short) :
    (latest ws).outgoing.Fits := by
  have hlast (quantity : ArmWrite → Option (List Pattern))
      (hshort : ∀ w ∈ ws, ∀ values ∈ quantity w, values.length < valueLimit) :
      (ArmWrite.last quantity ws).length < valueLimit := by
    unfold ArmWrite.last
    cases hvalues : (ws.filterMap quantity).getLast? with
    | none => simp [valueLimit]
    | some values =>
      obtain ⟨w, hw, hset⟩ := List.mem_filterMap.1 (List.mem_of_getLast? hvalues)
      exact hshort w hw values hset
  rw [JointState.fits_iff]
  exact ⟨hlast _ fun w hw => (h w hw).1, by simp [outgoing, valueLimit],
    hlast _ fun w hw => (h w hw).2⟩

end ArmState

end ArmStream
