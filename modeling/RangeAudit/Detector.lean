import RangeAudit.Detector.FlashCallback
import RangeAudit.Detector.GeneralViolation
import RangeAudit.Detector.LimitViolation
import RangeAudit.Detector.NumericAnomaly
import RangeAudit.Detector.UnboundedChange
import RangeAudit.Detector.UncheckedBalance

namespace RangeAudit

inductive Detector
  | uncheckedBalance | unboundedChange | generalViolation | numericAnomaly | limitViolation
  | flashCallback
  deriving DecidableEq, Repr

namespace Detector

def all : List Detector :=
  [uncheckedBalance, unboundedChange, generalViolation, numericAnomaly, limitViolation,
    flashCallback]

def profile : Detector → Profile
  | uncheckedBalance => UncheckedBalance.profile
  | unboundedChange => UnboundedChange.profile
  | generalViolation => GeneralViolation.profile
  | numericAnomaly => NumericAnomaly.profile
  | limitViolation => LimitViolation.profile
  | flashCallback => FlashCallback.profile

def ofCheck? (check : String) : Option Detector :=
  all.find? (·.profile.check == check)

def detect (order : SetOrder) (d : Detector) (u : CompilationUnit) : Reporting (List Finding) :=
  match d with
  | uncheckedBalance => .ofExcept (UncheckedBalance.detect u)
  | unboundedChange => .ofExcept (UnboundedChange.detect u)
  | generalViolation => GeneralViolation.detect u
  | numericAnomaly => NumericAnomaly.detect u
  | limitViolation => .ofExcept (LimitViolation.detect u)
  | flashCallback => FlashCallback.detect order u

end Detector

structure Plugin where
  detectors : List Detector
  printers : List Profile
  deriving DecidableEq, Repr

namespace Plugin

def full : Plugin := ⟨Detector.all, []⟩

def balances : Plugin := ⟨[.uncheckedBalance], []⟩

end Plugin

end RangeAudit
