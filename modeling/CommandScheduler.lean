import CommandScheduler.Scenario.Session
import CommandScheduler.Wire.Codec
import CommandScheduler.Wire.Reader
import CommandScheduler.Proofs.Course
import CommandScheduler.Proofs.Accounting
import CommandScheduler.Proofs.Reachable
import CommandScheduler.Proofs.Interpreter
import CommandScheduler.Proofs.Sketch
import CommandScheduler.Proofs.Steps
import CommandScheduler.Proofs.Resolution
import CommandScheduler.Proofs.Layers
import CommandScheduler.Proofs.Termination
import CommandScheduler.Proofs.Lockstep
import CommandScheduler.Proofs.Refinement
import CommandScheduler.Proofs.Enclosed
import CommandScheduler.Proofs.Blind
import CommandScheduler.Proofs.Twin
import CommandScheduler.Proofs.FanOut
import CommandScheduler.Proofs.Tickets
import CommandScheduler.Proofs.Preorder
import CommandScheduler.Proofs.Confined
import CommandScheduler.Proofs.Ending
import CommandScheduler.Proofs.Truncation
import CommandScheduler.Proofs.Observers
import CommandScheduler.Proofs.Widening
import CommandScheduler.Proofs.TopCall
import CommandScheduler.Proofs.History
import CommandScheduler.Proofs.Charges
import CommandScheduler.Proofs.Outcomes
import CommandScheduler.Proofs.Overflow
import CommandScheduler.Proofs.Rollback
import CommandScheduler.Proofs.Depth
import CommandScheduler.Proofs.Profiling
import CommandScheduler.Proofs.Leftover
import CommandScheduler.Proofs.Nested
import CommandScheduler.Proofs.Echo
import CommandScheduler.Proofs.Hearing
import CommandScheduler.Proofs.Verdict
import CommandScheduler.Proofs.Return
import CommandScheduler.Proofs.Answer
import CommandScheduler.Proofs.Room
import CommandScheduler.Proofs.Execution
import CommandScheduler.Proofs.Survivors
import CommandScheduler.Proofs.Returning
import CommandScheduler.Proofs.Track
import CommandScheduler.Proofs.Representation
import CommandScheduler.Proofs.Bounds
