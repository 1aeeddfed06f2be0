import LiveCalls.Table
import LiveCalls.Text.Blank
import LiveCalls.Text.Quoted
import LiveCalls.Text.Ordinal
import LiveCalls.Text.Enumeration
import LiveCalls.Decimal.Nearest
import LiveCalls.Decimal.Reading
import LiveCalls.Decimal.Shortest
import LiveCalls.Conversion
import LiveCalls.Diagnostic
import LiveCalls.Expr.Conversion
import LiveCalls.Expr.Evaluation
import LiveCalls.Callable
import LiveCalls.Linkage
import LiveCalls.Json.Reader
import LiveCalls.Manifest.Reader
import LiveCalls.Manifest.Writer
import LiveCalls.Manifest.Compile
import LiveCalls.ScriptSet.Load
import LiveCalls.ScriptSet.Reload
import LiveCalls.ScriptSet.Fire
import LiveCalls.Watch
import LiveCalls.Main
import LiveCalls.Proofs.Meaning
import LiveCalls.Proofs.Callers
import LiveCalls.Proofs.Rebinding
import LiveCalls.Proofs.Isolation
import LiveCalls.Proofs.Slots
import LiveCalls.Proofs.Reading
import LiveCalls.Proofs.FirstBinding
import LiveCalls.Proofs.Assembly
import LiveCalls.Proofs.Contents
import LiveCalls.Proofs.FreshLoad
import LiveCalls.Proofs.FileOrder
import LiveCalls.Proofs.Revalidation
import LiveCalls.Proofs.Staleness
import LiveCalls.Proofs.Handover
import LiveCalls.Proofs.Results
import LiveCalls.Proofs.Verdict
import LiveCalls.Proofs.Reporting
import LiveCalls.Proofs.Repetition
import LiveCalls.Proofs.SingleResult
import LiveCalls.Proofs.Firing
import LiveCalls.Proofs.Spreading
import LiveCalls.Proofs.Omission
import LiveCalls.Proofs.CallerOrder
import LiveCalls.Proofs.Upkeep
import LiveCalls.Proofs.Acceptance
import LiveCalls.Proofs.Refusal
import LiveCalls.Proofs.Problems
import LiveCalls.Proofs.GivenValues
import LiveCalls.Proofs.Flattening
import LiveCalls.Proofs.Spelling
import LiveCalls.Proofs.StaticTypes
import LiveCalls.Proofs.ReadBack
