import SecantDescent.Failure.Message
import SecantDescent.Objective.Differences
import SecantDescent.Objective.Laurent
import SecantDescent.Objective.Quadratic
import SecantDescent.Settings
import SecantDescent.Proofs.Run.FirstHit
import SecantDescent.Proofs.Run.WellShaped
import SecantDescent.Proofs.Exact.Bfgs
import SecantDescent.Proofs.Exact.Course
import SecantDescent.Proofs.Exact.Quadratic
import SecantDescent.Proofs.Exact.Reframing
import SecantDescent.Proofs.Run.Transcript
import SecantDescent.Proofs.Run.Schedule
import SecantDescent.Proofs.Run.Policies
import SecantDescent.Proofs.Exact.Broyden
import SecantDescent.Proofs.Run.Budget
import SecantDescent.Proofs.Run.NonFinite
import SecantDescent.Proofs.Run.Symmetry
import SecantDescent.Proofs.Run.Misfits
import SecantDescent.Proofs.Run.Diary
import SecantDescent.Proofs.Exact.Termination
import SecantDescent.Proofs.Exact.LeastChange
import SecantDescent.Proofs.Run.Accounting
import SecantDescent.Proofs.Run.Arguments
import SecantDescent.Proofs.Settings
import SecantDescent.Proofs.Exact.Directions
import SecantDescent.Proofs.Secant.Outcomes
import SecantDescent.Proofs.Objective.Differences
import SecantDescent.Proofs.Exact.Differences
import SecantDescent.Proofs.Exact.Scaling
import SecantDescent.Proofs.Dense.Infinities
import SecantDescent.Proofs.Run.Stopping
