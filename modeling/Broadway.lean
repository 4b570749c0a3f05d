import Broadway.Main
import Broadway.Proofs.Bytes
import Broadway.Proofs.Encoding.Place
import Broadway.Proofs.Encoding.RoundTrip
import Broadway.Proofs.Memory.Access
import Broadway.Proofs.Memory.Window
import Broadway.Proofs.Memory.Transfer
import Broadway.Proofs.Memory.Repair
import Broadway.Proofs.Instr.Legal
import Broadway.Proofs.Instr.Dispatch
import Broadway.Proofs.Instr.Reads
import Broadway.Proofs.Exec.Control
import Broadway.Proofs.Fault.Atomic
import Broadway.Proofs.Fault.Restart
import Broadway.Proofs.Run.Step
import Broadway.Proofs.Run.Trace
import Broadway.Proofs.Run.Stretch
import Broadway.Proofs.Run.Code
import Broadway.Proofs.Run.Limit
import Broadway.Proofs.Fault.Order
import Broadway.Proofs.Instr.Aligned
import Broadway.Proofs.Fault.Precise
import Broadway.Proofs.Run.Sentinel
import Broadway.Proofs.Fault.Record
import Broadway.Proofs.Call.Entry
import Broadway.Proofs.Call.Report
import Broadway.Proofs.Exec.Frame
import Broadway.Proofs.Exec.WriteSets
import Broadway.Proofs.Run.Reservation
import Broadway.Proofs.Memory.Footprint
import Broadway.Proofs.Float.Status
import Broadway.Proofs.Run.Reachable
import Broadway.Proofs.Exec.Status
import Broadway.Proofs.Exec.Xer
import Broadway.Proofs.Exec.Sticky
import Broadway.Proofs.Float.Sticky
import Broadway.Proofs.Checked.Arithmetic
import Broadway.Proofs.Checked.Decode
import Broadway.Proofs.Checked.Operands
import Broadway.Proofs.Checked.Registers
import Broadway.Proofs.Checked.Fixed
import Broadway.Proofs.Checked.Single
import Broadway.Proofs.Checked.Float
import Broadway.Proofs.Checked.Access
import Broadway.Proofs.Checked.Memory
import Broadway.Proofs.Checked.Run
import Broadway.Proofs.Exec.Sums
import Broadway.Proofs.Float.Value
import Broadway.Proofs.Float.Storage
import Broadway.Proofs.Memory.Copy
import Broadway.Proofs.Float.Rounding
import Broadway.Proofs.Exec.ToInteger
import Broadway.Proofs.Worker.Refinement
import Broadway.Proofs.Memory.Quantized
import Broadway.Proofs.Memory.Restore
import Broadway.Proofs.Exec.Branch
import Broadway.Proofs.Memory.Update
import Broadway.Proofs.Instr.Groups
import Broadway.Proofs.Float.Class
import Broadway.Proofs.Exec.Lanes
import Broadway.Proofs.Instr.Record
import Broadway.Proofs.Exec.Record
import Broadway.Proofs.Float.Exceptions
import Broadway.Proofs.Exec.Propagation
import Broadway.Proofs.Exec.ResultClass
import Broadway.Proofs.Exec.Compare
import Broadway.Proofs.Exec.Results
import Broadway.Proofs.Exec.Products
import Broadway.Proofs.Exec.Shifts
import Broadway.Proofs.Exec.Carry
import Broadway.Proofs.Exec.Rotate
import Broadway.Proofs.Exec.Special
import Broadway.Proofs.Condition
import Broadway.Proofs.Exec.ConditionTargets
import Broadway.Proofs.Exec.Condition
import Broadway.Proofs.Exec.Decision
import Broadway.Proofs.Exec.StatusMoves
import Broadway.Proofs.Run.SystemCall
import Broadway.Proofs.Run.Loops
import Broadway.Proofs.Float.Magnitude
import Broadway.Proofs.Float.Truncation
import Broadway.Proofs.Memory.Truncation
import Broadway.Proofs.Float.Nearest
import Broadway.Proofs.Float.Reload
import Broadway.Proofs.Memory.Reload
import Broadway.Proofs.Instr.Accesses
import Broadway.Proofs.Memory.Loads
import Broadway.Proofs.Memory.StoreLoad
