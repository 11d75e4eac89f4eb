import RangeAudit.Proofs.Location
import RangeAudit.Proofs.TypeText

namespace RangeAudit

variable {u : CompilationUnit} {records : List Record} {r : Record} {p : Place} {i : Interval}
  {v : Violation}

namespace Text

theorem contains_append {s word : String} (h : contains s word) (before : String) :
    contains (before ++ s) word := by
  rw [contains, occurs_iff] at h ⊢
  obtain ⟨a, b, hs⟩ := h
  exact ⟨before.toList ++ a, b, by simp [String.toList_append, hs]⟩

theorem mem_of_contains {s word : String} {c : Char} (h : contains s word) (hc : c ∈ word.toList) :
    c ∈ s.toList := by
  rw [contains, occurs_iff] at h
  obtain ⟨a, b, hs⟩ := h
  rw [hs]
  exact List.mem_append_left b (List.mem_append_right a hc)

end Text

theorem star_notMem_digits {l : List Char} (h : ∀ c ∈ l, c.isDigit) : '*' ∉ l := by
  intro hstar
  exact absurd (h '*' hstar) (by decide)

theorem star_notMem_toDigits (n : Nat) : '*' ∉ Nat.toDigits 10 n :=
  star_notMem_digits (toDigits_digits n)

namespace Number

theorem star_notMem_digitsText {digits : List Char} (h : '*' ∉ digits) (point : Int) :
    '*' ∉ digitsText digits point := by
  have hzeros (n : Nat) : '*' ∉ List.replicate n '0' := by simp [List.mem_replicate]
  unfold digitsText
  dsimp only
  split
  · have hmark : '*' ∉ (if point - 1 < 0 then ['e', '-'] else ['e', '+']) := by
      split <;> decide
    have hsize := star_notMem_toDigits (point - 1).natAbs
    rw [List.append_assoc, List.mem_append, List.mem_append, not_or, not_or]
    refine ⟨?_, hmark, ?_⟩
    · split
      · exact h
      · exact h
      · simpa using h
    · split
      · simpa using hsize
      · exact hsize
  split
  · simp [hzeros, h]
  split
  · simp [hzeros, h]
  · simp only [List.mem_append, List.mem_cons, not_or]
    exact ⟨fun hstar => h (List.mem_of_mem_take hstar), by decide,
      fun hstar => h (List.mem_of_mem_drop hstar)⟩

theorem star_notMem_normalize (d : Decimal) : '*' ∉ d.normalize.1 := by
  intro h
  have hkept := (List.dropWhile_sublist _).subset (List.mem_reverse.1 h)
  exact star_notMem_toDigits d.coefficient (List.mem_reverse.1 hkept)

theorem star_notMem_doubleText (x : Binary64) : '*' ∉ (doubleText x).toList := by
  cases x with
  | nan => decide
  | inf negative => cases negative <;> decide
  | finite negative m e =>
    have hbody : '*' ∉ (if m = 0 then ['0', '.', '0']
        else digitsText (Binary64.shortest m e).normalize.1
          ((Binary64.shortest m e).normalize.2 + (Binary64.shortest m e).normalize.1.length)) := by
      split
      · decide
      · exact star_notMem_digitsText (star_notMem_normalize _) _
    rw [doubleText, String.toList_ofList]
    cases negative with
    | false => exact hbody
    | true => exact List.not_mem_cons_of_ne_of_not_mem (by decide) hbody

/-- No number is written with a star. -/
theorem star_notMem_text (x : Number) : '*' ∉ x.text.toList := by
  cases x with
  | int n =>
    cases n with
    | ofNat m => exact Nat.toList_repr ▸ star_notMem_toDigits m
    | negSucc m =>
      change '*' ∉ ("-" ++ (m + 1).repr).toList
      rw [String.toList_append, Nat.toList_repr]
      exact List.not_mem_cons_of_ne_of_not_mem (by decide) (star_notMem_toDigits (m + 1))
  | truth b => cases b <;> decide
  | double x => exact star_notMem_doubleText x

theorem eq_posInf_of_same {x : Number} (h : x.same posInf) : x = posInf := by
  cases x with
  | int n => cases h
  | truth b => cases h
  | double x =>
    cases x with
    | nan => cases h
    | inf negative =>
      cases negative with
      | true => cases h
      | false => rfl
    | finite negative m e => cases h

end Number

namespace Interval

theorem star_notMem_text (i : Interval) : '*' ∉ i.text.toList := by
  have hbound (bound : Option Number) : '*' ∉ (boundText bound).toList := by
    cases bound with
    | none => decide
    | some x => exact x.star_notMem_text
  unfold text
  split
  · decide
  split
  · decide
  · simp [String.toList_append, hbound]

theorem text_ne_top (h : i.isTop = false) : i.text ≠ "⊤" := by
  rw [text, h]
  split
  · decide
  · intro htext
    have hhead := congrArg (fun s : String => s.toList.head?) htext
    simp [String.toList_append] at hhead

end Interval

theorem Place.violation?_of_isTop (p : Place) (h : i.isTop) : p.violation? i = some .overflow := by
  obtain ⟨lo, hi⟩ := i
  cases hi with
  | none => exact absurd (Bool.and_eq_true_iff.1 h).2 Bool.false_ne_true
  | some x =>
    obtain rfl : x = .posInf := Number.eq_posInf_of_same (Bool.and_eq_true_iff.1 h).2
    have hreaches : Number.le (.int (Nat.pow 2 256)) .posInf := rfl
    rw [violation?, if_neg (by simp [Interval.isBottom])]
    exact if_pos hreaches

namespace NumericAnomaly

theorem isLikely_of_words {contract function subject violation interval : String}
    (h : Text.containsAny violation definiteWords) :
    isLikely (.located contract function subject violation interval) := by
  simp [isLikely, h]

theorem isLikely_of_interval {contract function subject violation interval : String}
    (htop : interval ≠ "⊤") (hstar : '*' ∉ interval.toList) :
    isLikely (.located contract function subject violation interval) := by
  have hwhole : Text.contains interval "[0, 2**256 - 1]" = false :=
    Bool.eq_false_iff.2 fun h => hstar (Text.mem_of_contains h (by decide))
  simp [isLikely, htop, hwhole]

/-- Overflows are likely because of the wording, other violations because of the interval. -/
theorem isLikely_violation (contract function subject : String) (h : p.violation? i = some v) :
    isLikely (.located contract function subject (v.text p) i.text) := by
  by_cases hv : v = .overflow
  · subst hv
    refine isLikely_of_words (List.any_eq_true.2 ⟨"可能溢出", by decide, ?_⟩)
    exact Text.contains_append (by decide) p.text
  · have htop : i.isTop = false := by
      refine Bool.eq_false_iff.2 fun htop => hv ?_
      exact Option.some_inj.1 (h.symm.trans (p.violation?_of_isTop htop))
    exact isLikely_of_interval (Interval.text_ne_top htop) i.star_notMem_text

def isDefiniteIssue : Record → Bool
  | .located _ _ _ _ _ => false
  | .issue text => Text.containsAny text definiteWords

end NumericAnomaly

namespace CompilationUnit

theorem analyze_of_records (h : u.records = .ok records) :
    ∃ t, u.analyze {} .initial = .ok records t := by
  unfold CompilationUnit.records at h
  split at h
  · rename_i t hrun
    cases h
    exact ⟨t, hrun⟩
  · cases h

/-- The likely violations stand in front of the issues. -/
theorem records_split (h : u.records = .ok records) :
    ∃ violations issues, records = violations ++ issues ∧
      (∀ r ∈ violations, r.isIssue = false ∧ NumericAnomaly.isLikely r) ∧
      ∀ r ∈ issues, r.isIssue = true := by
  obtain ⟨t, h⟩ := analyze_of_records h
  obtain ⟨violations, hv, rfl⟩ := analyze_ok.1 h
  refine ⟨violations, _, rfl, fun r hr => ?_, fun r hr => ?_⟩
  · obtain ⟨contract, function, p, i, v, hviolation, rfl⟩ := mem_reportContracts hv r hr
    exact ⟨rfl, NumericAnomaly.isLikely_violation contract function p.text hviolation⟩
  · obtain ⟨issue, -, rfl⟩ := List.mem_map.1 hr
    rfl

theorem mem_of_lookup {contract : String} {contracts : List Contract} {c : Contract}
    (h : u.lookup contract = .found contracts) (hc : c ∈ contracts) : c ∈ u.contracts := by
  unfold lookup search at h
  cases hmode : u.lookupMode with
  | all =>
    rw [hmode] at h
    cases h
    exact List.mem_of_mem_filter hc
  | first =>
    rw [hmode] at h
    cases h
    exact List.mem_of_find?_eq_some (Option.mem_toList.1 hc)
  | nothing =>
    rw [hmode] at h
    cases h
    cases hc
  | failing | unavailable =>
    rw [hmode] at h
    cases h

theorem IsMapped.target? (h : u.IsMapped) (r : Record) :
    (NumericAnomaly.target? u r).all (·.isMapped) := by
  rw [Option.all_eq_true]
  intro f hf
  cases r with
  | issue text => cases hf
  | located contract function subject violation interval =>
    rw [NumericAnomaly.target?] at hf
    cases hlookup : u.lookup contract with
    | unavailable | failed =>
      rw [hlookup] at hf
      cases hf
    | found contracts =>
      rw [hlookup] at hf
      obtain ⟨c, hc, hfunction⟩ := List.exists_of_findSome?_eq_some hf
      exact h c (mem_of_lookup hlookup hc) f (List.mem_of_find?_eq_some hfunction)

end CompilationUnit

namespace NumericAnomaly

theorem gather_findings (hmapped : u.IsMapped) (l : List Record) (log : Transcript) :
    ∃ log', gather (inspect u) (l.map Record.toJson) log = .ok (l.map (finding u)) log' := by
  have hanswers : ∀ r ∈ l, ∀ log, ∃ here log', inspect u r.toJson log = .ok here log' ∧
      Answers (fun _ => true) (fun r x => finding u r = x) r here := by
    intro r _ log
    obtain ⟨log', h⟩ := inspect_toJson u r log
    rw [if_pos (hmapped.target? r)] at h
    exact ⟨_, log', h, .reported rfl rfl⟩
  obtain ⟨findings, log', h, hall⟩ := Reporting.gather_answers hanswers log
  rw [List.filter_true, ← List.forall₂_map_left_iff, List.forall₂_eq_eq_eq] at hall
  rw [gather_map, hall]
  exact ⟨log', h⟩

theorem filter_isLikely (h : u.records = .ok records) :
    records.filter isLikely = records.filter (!·.isIssue) ++ records.filter isDefiniteIssue := by
  obtain ⟨violations, issues, rfl, hviolations, hissues⟩ := u.records_split h
  have hlikely : violations.filter isLikely = violations :=
    List.filter_eq_self.2 fun r hr => (hviolations r hr).2
  have hall : violations.filter (!·.isIssue) = violations :=
    List.filter_eq_self.2 fun r hr => by rw [(hviolations r hr).1]; rfl
  have hnone : violations.filter isDefiniteIssue = [] := by
    rw [List.filter_eq_nil_iff]
    intro r hr
    cases r with
    | located => exact Bool.false_ne_true
    | issue => cases (hviolations _ hr).1
  have hrest : issues.filter (!·.isIssue) = [] := by
    rw [List.filter_eq_nil_iff]
    intro r hr
    simp [hissues r hr]
  have hdefinite : issues.filter isLikely = issues.filter isDefiniteIssue := by
    refine List.filter_congr fun r hr => ?_
    cases r with
    | located => cases hissues _ hr
    | issue => rfl
  rw [List.filter_append, List.filter_append, List.filter_append, hlikely, hall, hnone, hrest,
    hdefinite, List.append_nil, List.nil_append]

/-- Every violation has its finding, followed by those on the issues of definite wording. -/
theorem detect_keeps_violations (h : u.records = .ok records) :
    (∀ r ∈ records, r.isIssue = false → isConfident r.toJson = .ok true) ∧
      (u.IsMapped → ∀ log, ∃ log', detect u log =
        .ok ((records.filter (!·.isIssue)).map (finding u) ++
          (records.filter isDefiniteIssue).map (finding u)) log') := by
  constructor
  · intro r hr hissue
    obtain ⟨violations, issues, rfl, hviolations, hissues⟩ := u.records_split h
    rcases List.mem_append.1 hr with hr | hr
    · rw [isConfident_toJson, (hviolations r hr).2]
    · rw [hissues r hr] at hissue
      cases hissue
  · intro hmapped log
    rw [detect, confidentResults_ok h, filter_isLikely h, ← List.map_append]
    exact gather_findings hmapped _ log

end NumericAnomaly

/-- A fee beyond its limit, named like an overflow of checked arithmetic, and a zero divisor. -/
def strayFee : Function :=
  .ofNodes [] [.ofInstrs [
    .assign (.var (.ofType "SafeMath溢出fee" "uint256")) (.literal (.int 2000000000000000000)),
    .binary .div (.var (.ofType "x" "uint256")) (.literal (.int 1)) (.literal (.int 0))] []]

/-- A unit in which looking for a contract fails. -/
def sealedPool : CompilationUnit :=
  { poolWith [strayFee] with lookupMode := .failing }

/-- Both violations have their findings, and so have three of the six issues. -/
theorem sealedPool_keeps_violations :
    ∃ records log', sealedPool.records = .ok records ∧ records.length = 8 ∧
      (records.filter (!·.isIssue)).length = 2 ∧
      (records.filter NumericAnomaly.isDefiniteIssue).length = 3 ∧
      (∀ r ∈ records, r.isIssue = false → NumericAnomaly.isConfident r.toJson = .ok true) ∧
      NumericAnomaly.detect sealedPool .empty =
        .ok ((records.filter (!·.isIssue)).map (NumericAnomaly.finding sealedPool) ++
          (records.filter NumericAnomaly.isDefiniteIssue).map
            (NumericAnomaly.finding sealedPool)) log' := by
  have hcounts : sealedPool.records.toOption.any fun records : List Record =>
      records.length = 8 ∧ (records.filter (!·.isIssue)).length = 2 ∧
        (records.filter NumericAnomaly.isDefiniteIssue).length = 3 := by
    decide +kernel
  cases h : sealedPool.records with
  | error f =>
    rw [h] at hcounts
    cases hcounts
  | ok records =>
    rw [h] at hcounts
    obtain ⟨hlength, hviolations, hissues⟩ := of_decide_eq_true hcounts
    obtain ⟨hconfident, hdetect⟩ := NumericAnomaly.detect_keeps_violations h
    obtain ⟨log', hdetect⟩ := hdetect (by decide +kernel) .empty
    exact ⟨records, log', rfl, hlength, hviolations, hissues, hconfident, hdetect⟩

end RangeAudit
