import LinearProgram.Document.Files
import LinearProgram.Problem.Display
import LinearProgram.Snapshot.Bounds
import LinearProgram.Snapshot.Definition
import LinearProgram.Snapshot.Values
import LinearProgram.Solver.Preset
import LinearProgram.Proofs.Problem.Representation
import LinearProgram.Proofs.Document.Atomicity
import LinearProgram.Proofs.Document.Copying
import LinearProgram.Proofs.Document.Saving
import LinearProgram.Proofs.Table.Retirement
import LinearProgram.Proofs.Problem.Histories
import LinearProgram.Proofs.Problem.Retirement
import LinearProgram.Proofs.Problem.Forms
import LinearProgram.Proofs.Problem.Lasting
import LinearProgram.Proofs.Problem.Recorded
import LinearProgram.Proofs.Pairing.Alike
import LinearProgram.Proofs.Pairing.Reading
import LinearProgram.Proofs.Pairing.Editing
import LinearProgram.Proofs.Pairing.Composing
import LinearProgram.Proofs.Document.Recovering
import LinearProgram.Proofs.Pairing.Histories
import LinearProgram.Proofs.Problem.Events
import LinearProgram.Proofs.Problem.Safety
import LinearProgram.Proofs.Problem.Frames
import LinearProgram.Proofs.Document.Loading
import LinearProgram.Proofs.Problem.Refusals
import LinearProgram.Proofs.Problem.Membership
import LinearProgram.Proofs.Process.Basic
import LinearProgram.Proofs.Process.Ownership
import LinearProgram.Proofs.Document.Rereading
import LinearProgram.Proofs.Number.Rounding
import LinearProgram.Proofs.Snapshot.Feasibility
import LinearProgram.Proofs.Document.Extending
import LinearProgram.Proofs.Snapshot.Restoring
import LinearProgram.Proofs.Problem.Availability
import LinearProgram.Proofs.Snapshot.Readmission
import LinearProgram.Proofs.Linear.Canonical
import LinearProgram.Proofs.Process.Additions
import LinearProgram.Proofs.Tableau.Deletion
import LinearProgram.Proofs.Snapshot.Judging
import LinearProgram.Proofs.Table.Tenancy
