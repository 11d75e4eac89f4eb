import Mathlib.Data.List.Basic
import Mathlib.Data.List.TakeWhile
import RangeAudit.Analysis.Worklist

namespace RangeAudit

namespace Text

theorem digit_bounds {c : Char} (h : c.isDigit) : 48 ≤ c.toNat ∧ c.toNat ≤ 57 := by
  simp only [Char.isDigit, Bool.and_eq_true, decide_eq_true_eq] at h
  exact h

theorem decimalValue?_digit {c : Char} (h : c.isDigit) :
    decimalValue? c = some (c.toNat - 48) := by
  obtain ⟨hlo, hhi⟩ := digit_bounds h
  simp [decimalValue?, decimalZeros, hlo, hhi]

theorem isDecimal_digit {c : Char} (h : c.isDigit) : isDecimal c := by
  simp [isDecimal, decimalValue?_digit h]

theorem decimalNumber_digits {l : List Char} (h : ∀ c ∈ l, c.isDigit) :
    decimalNumber l = Nat.ofDigitChars 10 l 0 := by
  rw [decimalNumber, Nat.ofDigitChars_eq_foldl]
  refine List.foldl_ext _ _ 0 fun n c hc => ?_
  rw [decimalValue?_digit (h c hc), Nat.mul_comm]
  rfl

theorem lowerChar_digit {c : Char} (h : c.isDigit) : c ≠ 'Σ' ∧ lowerChar c = [c] := by
  have hdigits : ∀ n ∈ List.range' 48 10,
      Char.ofNat n ≠ 'Σ' ∧ lowerChar (Char.ofNat n) = [Char.ofNat n] := by
    decide
  obtain ⟨hlo, hhi⟩ := digit_bounds h
  have hc := hdigits c.toNat (List.mem_range'_1.2 ⟨hlo, by omega⟩)
  rwa [Char.ofNat_toNat] at hc

def isLower (l : List Char) : Bool :=
  l.all fun c => c != 'Σ' && lowerChar c == [c]

theorem isLower_append (l m : List Char) : isLower (l ++ m) = (isLower l && isLower m) :=
  List.all_append

theorem isLower_digits {l : List Char} (h : ∀ c ∈ l, c.isDigit) : isLower l := by
  rw [isLower, List.all_eq_true]
  intro c hc
  obtain ⟨hsigma, hlower⟩ := lowerChar_digit (h c hc)
  simp [hsigma, hlower]

theorem lowerAfter_self {l : List Char} (h : isLower l) (before : List Char) :
    lowerAfter before l = l := by
  induction l generalizing before with
  | nil => rfl
  | cons c l ih =>
    rw [isLower, List.all_cons, Bool.and_eq_true, Bool.and_eq_true, bne_iff_ne, beq_iff_eq] at h
    obtain ⟨⟨hsigma, hlower⟩, hl⟩ := h
    rw [lowerAfter, if_neg hsigma, hlower, ih hl]
    rfl

theorem digitsBehind?_append {stem digits : List Char} (hstem : stem ≠ [])
    (hne : digits ≠ []) (h : ∀ c ∈ digits, isDecimal c) :
    digitsBehind? stem (stem ++ digits) = some digits := by
  have hall : digits.takeWhile isDecimal = digits := List.takeWhile_eq_self_iff.2 h
  cases stem with
  | nil => exact absurd rfl hstem
  | cons c stem =>
    rw [List.cons_append, digitsBehind?, ← List.cons_append, if_pos, List.drop_left, hall]
    · cases digits with
      | nil => exact absurd rfl hne
      | cons d digits => rfl
    · exact List.isPrefixOf_iff_prefix.2 (List.prefix_append _ _)

end Text

theorem toDigits_digits (n : Nat) : ∀ c ∈ Nat.toDigits 10 n, c.isDigit :=
  fun _ hc => Nat.isDigit_of_mem_toDigits (by decide) (by decide) hc

section Stem

variable {stem : String} {bits : Nat}

theorem lower_stem (h : Text.isLower stem.toList) (bits : Nat) :
    (Text.lower (stem ++ toString bits)).toList = stem.toList ++ Nat.toDigits 10 bits := by
  have htext : (stem ++ toString bits).toList = stem.toList ++ Nat.toDigits 10 bits := by
    simp [Nat.toString_eq_repr, Nat.toList_repr]
  have hlower : Text.isLower (stem.toList ++ Nat.toDigits 10 bits) := by
    rw [Text.isLower_append, h, Text.isLower_digits (toDigits_digits bits)]
    rfl
  rw [Text.lower, String.toList_ofList, htext]
  exact Text.lowerAfter_self hlower []

theorem contains_stem (h : Text.isLower stem.toList) (bits : Nat) :
    Text.contains (Text.lower (stem ++ toString bits)) stem := by
  rw [Text.contains, lower_stem h, Text.occurs_iff]
  exact ⟨[], Nat.toDigits 10 bits, rfl⟩

theorem not_contains_stem {word : String} (letter : Char) (h : Text.isLower stem.toList)
    (hword : letter ∈ word.toList) (hstem : letter ∉ stem.toList) (hdigit : ¬ letter.isDigit)
    (bits : Nat) : ¬ Text.contains (Text.lower (stem ++ toString bits)) word := by
  intro hoccurs
  rw [Text.contains, lower_stem h, Text.occurs_iff] at hoccurs
  obtain ⟨before, after, heq⟩ := hoccurs
  have hmem : letter ∈ stem.toList ++ Nat.toDigits 10 bits := by
    rw [heq]
    simp [hword]
  rcases List.mem_append.1 hmem with hletter | hletter
  · exact hstem hletter
  · exact hdigit (toDigits_digits bits letter hletter)

/-- A width is read back from behind the word that it was written after. -/
theorem widthAfter_stem (hne : stem.toList ≠ []) (h : Text.isLower stem.toList)
    (hbits : bits ≤ 256) :
    widthAfter stem (Text.lower (stem ++ toString bits)) = .ok bits := by
  have hlength : (Nat.toDigits 10 bits).length ≤ Text.digitLimit := by
    refine Nat.le_trans ((Nat.length_toDigits_le_iff (by decide) (by decide)).2 ?_)
      (show 3 ≤ Text.digitLimit by decide)
    omega
  have hbehind : Text.digitsBehind? stem.toList (Text.lower (stem ++ toString bits)).toList =
      some (Nat.toDigits 10 bits) := by
    rw [lower_stem h]
    exact Text.digitsBehind?_append hne Nat.toDigits_ne_nil
      fun c hc => Text.isDecimal_digit (toDigits_digits bits c hc)
  rw [widthAfter, hbehind]
  simp only [hlength, if_true, Text.decimalNumber_digits (toDigits_digits bits),
    Nat.ofDigitChars_ten_toDigits]

end Stem

def unsignedText (bits : Nat) : String :=
  "uint" ++ toString bits

def signedText (bits : Nat) : String :=
  "int" ++ toString bits

theorem contains_unsignedText (bits : Nat) :
    Text.contains (Text.lower (unsignedText bits)) "uint" :=
  contains_stem (by decide) bits

theorem contains_signedText (bits : Nat) : Text.contains (Text.lower (signedText bits)) "int" :=
  contains_stem (by decide) bits

theorem not_contains_signedText (bits : Nat) :
    ¬ Text.contains (Text.lower (signedText bits)) "uint" :=
  not_contains_stem 'u' (by decide) (by decide) (by decide) (by decide) bits

/-- The width written into the text of an unsigned type is read back from it. -/
theorem TypeClass.ofText_unsigned {bits : Nat} (h : bits ≤ 256) :
    TypeClass.ofText (Text.lower (unsignedText bits)) = .ok (.unsigned bits) := by
  rw [TypeClass.ofText, if_pos (contains_unsignedText bits), unsignedText,
    widthAfter_stem (by decide) (by decide) h]
  rfl

theorem TypeClass.ofText_signed {bits : Nat} (h : bits ≤ 256) :
    TypeClass.ofText (Text.lower (signedText bits)) = .ok (.signed bits) := by
  rw [TypeClass.ofText, if_neg (not_contains_signedText bits), if_pos (contains_signedText bits),
    signedText, widthAfter_stem (by decide) (by decide) h]
  rfl

end RangeAudit
