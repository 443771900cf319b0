import ArmStream.Frame.Decoder
import ArmStream.Main
import ArmStream.Proofs.Arrivals
import ArmStream.Proofs.Datagrams
import ArmStream.Proofs.Departures
import ArmStream.Proofs.Health
import ArmStream.Proofs.HeldBytes
import ArmStream.Proofs.Inbound
import ArmStream.Proofs.NeverBackwards
import ArmStream.Proofs.ParamFiles
import ArmStream.Proofs.Pieces
import ArmStream.Proofs.RaceAccounting
import ArmStream.Proofs.Reading
import ArmStream.Proofs.RoundRobin
import ArmStream.Proofs.SendAccounting
import ArmStream.Proofs.Stopping
import ArmStream.Simulation.Files
import ArmStream.Proofs.Extent
import ArmStream.Proofs.Calls
import ArmStream.Proofs.Truncation
import ArmStream.Proofs.Schedules
import ArmStream.Proofs.Addresses
import ArmStream.Proofs.Overlays
import ArmStream.Proofs.PeerCalls
import ArmStream.Proofs.Values
import ArmStream.Proofs.CommandRuns
import ArmStream.Proofs.Reciprocals
import ArmStream.Proofs.Periods
