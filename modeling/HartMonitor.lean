import HartMonitor.CommandLine
import HartMonitor.Main
import HartMonitor.Proofs.Expression.Grammar
import HartMonitor.Proofs.Expression.Nesting
import HartMonitor.Proofs.Expression.Counting
import HartMonitor.Proofs.Expression.Number
import HartMonitor.Proofs.Expression.Derivation
import HartMonitor.Proofs.Expression.Agreement
import HartMonitor.Proofs.Expression.Failing
import HartMonitor.Proofs.Expression.Spelling
import HartMonitor.Proofs.Expression.Lexeme
import HartMonitor.Proofs.Expression.Lexical
import HartMonitor.Proofs.Simulator.Split
import HartMonitor.Proofs.Machine.Precise
import HartMonitor.Proofs.Machine.InPlace
import HartMonitor.Proofs.Simulator.Request
import HartMonitor.Proofs.Watch.Sweep
import HartMonitor.Proofs.Simulator.Coherence
import HartMonitor.Proofs.Simulator.Ending
import HartMonitor.Proofs.Simulator.Failure
import HartMonitor.Proofs.Rv32i.Hart
import HartMonitor.Proofs.Rv32i.Field
import HartMonitor.Proofs.Rv32i.Decode
import HartMonitor.Proofs.Rv32i.Encoding
import HartMonitor.Proofs.Rv32i.Refinement
import HartMonitor.Proofs.Rv32i.Trap
import HartMonitor.Proofs.Expression.Stability
import HartMonitor.Proofs.Simulator.Invariant
import HartMonitor.Proofs.Simulator.Loss
import HartMonitor.Proofs.Simulator.Status
import HartMonitor.Proofs.Simulator.Transparency
import HartMonitor.Proofs.Shell.ExitStatus
import HartMonitor.Proofs.Watch.Slot
import HartMonitor.Proofs.Watch.Arena
import HartMonitor.Proofs.Watch.BoundedMap
import HartMonitor.Proofs.Watch.Callback
import HartMonitor.Proofs.Watch.History
import HartMonitor.Proofs.Simulator.Accounting
import HartMonitor.Proofs.Shell.Transcript
import HartMonitor.Proofs.Shell.Inspection
import HartMonitor.Proofs.Expression.Checked
import HartMonitor.Proofs.Expression.Offset
import HartMonitor.Proofs.Expression.Scans
import HartMonitor.Proofs.Expression.Range
import HartMonitor.Proofs.Shell.Screen
import HartMonitor.Proofs.Shell.Report
import HartMonitor.Proofs.Expression.Malformed
import HartMonitor.Proofs.Expression.Dereference
import HartMonitor.Proofs.Expression.Pairing
import HartMonitor.Proofs.Expression.Placeless
import HartMonitor.Proofs.Expression.Spacing
import HartMonitor.Proofs.Memory.ByteArray
import HartMonitor.Proofs.Memory.Contains
import HartMonitor.Proofs.Rv32i.Lookup
import HartMonitor.Proofs.Rv32i.Listing
import HartMonitor.Proofs.Text.ReadBack
import HartMonitor.Proofs.Rv32i.Readable
import HartMonitor.Proofs.Simulator.Examine
import HartMonitor.Proofs.Rv32i.Pattern
import HartMonitor.Proofs.Image.Placement
import HartMonitor.Proofs.Image.Layout
import HartMonitor.Proofs.Image.Elf
import HartMonitor.Proofs.Image.Bounded
import HartMonitor.Proofs.Document.Json
import HartMonitor.Proofs.Document.Scan
import HartMonitor.Proofs.Document.Shape
import HartMonitor.Proofs.Document.Follow
import HartMonitor.Proofs.Document.Settings
import HartMonitor.Proofs.Machine.Widening
import HartMonitor.Proofs.Simulator.Trace
import HartMonitor.Proofs.Expression.Matching
import HartMonitor.Proofs.Shell.Picture
