import NqcBlocks.Examples.Capture
import NqcBlocks.Examples.Regression
import NqcBlocks.Json.Pairs
import NqcBlocks.Main
import NqcBlocks.Program.Guest
import NqcBlocks.Proofs.Graph.Notices
import NqcBlocks.Proofs.Validation.Supervision
import NqcBlocks.Proofs.Program.Hygiene
import NqcBlocks.Proofs.Output.Containment
import NqcBlocks.Proofs.Output.Reporting
import NqcBlocks.Proofs.Session.Delivery
import NqcBlocks.Proofs.Viewer.Outcome
import NqcBlocks.Proofs.Program.Indentation
import NqcBlocks.Proofs.Program.Grouping
import NqcBlocks.Proofs.Naming.Queries
import NqcBlocks.Proofs.Program.LoopVariables
import NqcBlocks.Proofs.Workspace.Translation
import NqcBlocks.Proofs.Examples.Cleaning
import NqcBlocks.Proofs.Graph.FieldValues
import NqcBlocks.Proofs.Session.Interruption
import NqcBlocks.Proofs.Program.CommentLines
import NqcBlocks.Proofs.Viewer.Overview
import NqcBlocks.Proofs.Program.Piecewise
