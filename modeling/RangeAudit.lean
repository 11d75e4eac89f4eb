import RangeAudit.Main
import RangeAudit.Proofs.Alarm
import RangeAudit.Proofs.Choice
import RangeAudit.Proofs.Completion
import RangeAudit.Proofs.Confidence
import RangeAudit.Proofs.Constant
import RangeAudit.Proofs.Contradiction
import RangeAudit.Proofs.Conversion
import RangeAudit.Proofs.Coverage
import RangeAudit.Proofs.Export
import RangeAudit.Proofs.HalfBounded
import RangeAudit.Proofs.Inclusion
import RangeAudit.Proofs.Locality
import RangeAudit.Proofs.Marks
import RangeAudit.Proofs.Monotonicity
import RangeAudit.Proofs.Movement
import RangeAudit.Proofs.NamedArithmetic
import RangeAudit.Proofs.Narrowing
import RangeAudit.Proofs.Overflow
import RangeAudit.Proofs.Parameter
import RangeAudit.Proofs.Refinement
import RangeAudit.Proofs.Repetition
import RangeAudit.Proofs.SeverityOrder
import RangeAudit.Proofs.Shift
import RangeAudit.Proofs.Sweep
import RangeAudit.Proofs.Truncation
import RangeAudit.Proofs.Unknown
import RangeAudit.Proofs.Unsigned
import RangeAudit.Proofs.Widening
import RangeAudit.Proofs.WordRange
import RangeAudit.Proofs.Wording
import RangeAudit.Proofs.WriteOrder
import RangeAudit.Proofs.ZeroDivisor
import RangeAudit.Report.Moment
import RangeAudit.Proofs.Guard
import RangeAudit.Proofs.Printing
