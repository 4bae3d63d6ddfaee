import LineForth.Main
import LineForth.Prompt
import LineForth.Proofs.CallDepth
import LineForth.Proofs.Closing
import LineForth.Proofs.Constructs
import LineForth.Proofs.ControlFlow
import LineForth.Proofs.ExitCode
import LineForth.Proofs.ExitStatus
import LineForth.Proofs.Inlining
import LineForth.Proofs.Input.Answers
import LineForth.Proofs.OutputFailure
import LineForth.Proofs.Recursion
import LineForth.Proofs.Replay
import LineForth.Proofs.Shadowing
import LineForth.Proofs.StackEffects
import LineForth.Proofs.StackFrame
import LineForth.Proofs.Tracing
import LineForth.Proofs.PrintedStacks
import LineForth.Proofs.Output.LoggedLines
import LineForth.Proofs.Output.Arrivals
import LineForth.Proofs.Division
import LineForth.Proofs.Text.Readings
import LineForth.Proofs.Text.Trimming
import LineForth.Proofs.StringLiterals
import LineForth.Proofs.Tokenization
import LineForth.Proofs.Cancellation
import LineForth.Proofs.Grouping
import LineForth.Proofs.Courses
import LineForth.Proofs.InputOrder
import LineForth.Proofs.DumpLayout
