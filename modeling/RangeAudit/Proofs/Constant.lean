import RangeAudit.Proofs.Stores
import RangeAudit.Proofs.TypeText
import RangeAudit.Proofs.Unknown

namespace RangeAudit

variable {word : String} {n : Int} {c : Char} {l : List Char} {k m : Nat}

namespace Text

/-- Characters of a numeral that are none of its digits: a sign, an underscore, a blank. -/
def isFiller (c : Char) : Bool :=
  ['+', '-', '_'].contains c || isBlank c

def fillerRanges : List (Nat × Nat) := [
  (9, 13), (28, 32), (43, 43), (45, 45), (95, 95), (133, 133), (160, 160), (5760, 5760),
  (8192, 8202), (8232, 8233), (8239, 8239), (8287, 8287), (12288, 12288)]

theorem exists_fillerRange (h : isFiller c) :
    ∃ r ∈ fillerRanges, r.1 ≤ c.toNat ∧ c.toNat ≤ r.2 := by
  simp only [isFiller, isBlank, isAsciiBlank, List.contains_iff_mem, List.mem_cons,
    List.not_mem_nil, List.any_cons, List.any_nil, Bool.or_eq_true, Bool.and_eq_true,
    decide_eq_true_eq, beq_iff_eq, Bool.false_eq_true, or_false, ← Char.toNat_inj,
    Char.reduceToNat] at h
  simp only [fillerRanges, List.mem_cons, List.not_mem_nil, or_false, exists_eq_or_imp,
    exists_eq_left]
  omega

theorem isDigit_iff : isDigit c ↔ (∃ z ∈ decimalZeros, z ≤ c.toNat ∧ c.toNat ≤ z + 9) ∨
    ∃ r ∈ otherDigitRanges, r.1 ≤ c.toNat ∧ c.toNat ≤ r.2 := by
  simp only [isDigit, isDecimal, decimalValue?, Option.isSome_map, List.find?_isSome,
    Bool.or_eq_true, List.any_eq_true, Bool.and_eq_true, decide_eq_true_eq]

theorem not_isDigit_of_isFiller (h : isFiller c) : ¬ isDigit c := by
  have hdecimal : ∀ r ∈ fillerRanges, ∀ z ∈ decimalZeros, r.2 < z ∨ z + 9 < r.1 := by decide
  have hother : ∀ r ∈ fillerRanges, ∀ d ∈ otherDigitRanges, r.2 < d.1 ∨ d.2 < r.1 := by decide
  obtain ⟨r, hr, hlo, hhi⟩ := exists_fillerRange h
  rw [isDigit_iff]
  rintro (⟨z, hz, hzlo, hzhi⟩ | ⟨d, hd, hdlo, hdhi⟩)
  · have := hdecimal r hr z hz
    omega
  · have := hother r hr d hd
    omega

theorem isDecimal_of_digitValue? (h : digitValue? 10 c = some k) : isDecimal c := by
  by_cases hdigit : '0' ≤ c ∧ c ≤ '9'
  · apply isDecimal_digit
    simp only [Char.isDigit, Bool.and_eq_true, decide_eq_true_eq]
    exact hdigit
  · exfalso
    simp only [digitValue?, if_neg hdigit] at h
    split_ifs at h with hlower hsmall hupper hsmall hsmall
    · have : 97 ≤ c.toNat := hlower.1
      omega
    · have : 65 ≤ c.toNat := hupper.1
      omega
    · omega

theorem mem_trim {p : Char → Bool} (h : c ∈ l) : p c ∨ c ∈ trim p l := by
  have hdrop : ∀ l : List Char, c ∈ l → p c ∨ c ∈ l.dropWhile p := by
    intro l hc
    rw [← List.takeWhile_append_dropWhile (p := p) (l := l), List.mem_append] at hc
    exact hc.imp List.mem_takeWhile_imp id
  rcases hdrop l h with hp | hc
  · exact .inl hp
  · rw [trim, List.mem_reverse]
    exact hdrop _ (List.mem_reverse.2 hc)

theorem mem_of_digitsAfter? (h : digitsAfter? 10 m l = some k) (hc : c ∈ l) :
    isDecimal c ∨ c = '_' := by
  fun_induction digitsAfter? 10 m l with
  | case1 => cases hc
  | case2 m d rest ih =>
    obtain ⟨v, hv, hrest⟩ := Option.bind_eq_some_iff.1 h
    rcases List.mem_cons.1 hc with rfl | hc
    · exact .inr rfl
    · rcases List.mem_cons.1 hc with rfl | hc
      · exact .inl (isDecimal_of_digitValue? hv)
      · exact ih v hrest hc
  | case3 m d rest hne ih =>
    obtain ⟨v, hv, hrest⟩ := Option.bind_eq_some_iff.1 h
    rcases List.mem_cons.1 hc with rfl | hc
    · exact .inl (isDecimal_of_digitValue? hv)
    · exact ih v hrest hc

theorem mem_of_magnitude? (h : magnitude? 10 l = some k) (hc : c ∈ l) : isDecimal c ∨ c = '_' := by
  cases l with
  | nil => cases hc
  | cons d rest =>
    obtain ⟨v, hv, hrest⟩ := Option.bind_eq_some_iff.1 h
    rcases List.mem_cons.1 hc with rfl | hc
    · exact .inl (isDecimal_of_digitValue? hv)
    · exact mem_of_digitsAfter? hrest hc

theorem mem_unsigned (h : c ∈ l) : c ∈ ['+', '-', '_'] ∨ c ∈ unsigned l := by
  unfold unsigned
  split
  · rcases List.mem_cons.1 h with rfl | h
    · exact .inl (by decide)
    · exact .inr h
  · rcases List.mem_cons.1 h with rfl | h
    · exact .inl (by decide)
    · exact .inr h
  · exact .inr h

theorem magnitude?_of_integer? (h : integer? 10 word = some n) :
    ∃ k, magnitude? 10 (unsigned (trim isAsciiBlank (word.toList.map numeralChar))) = some k := by
  unfold integer? at h
  unfold unsigned
  split at h <;> obtain ⟨k, hk, -⟩ := Option.map_eq_some_iff.1 h <;> exact ⟨k, hk⟩

theorem mem_of_integer? (h : integer? 10 word = some n) (hc : c ∈ word.toList.map numeralChar) :
    isDecimal c ∨ c ∈ ['+', '-', '_'] ∨ isAsciiBlank c := by
  obtain ⟨k, hk⟩ := magnitude?_of_integer? h
  rcases mem_trim (p := isAsciiBlank) hc with hblank | hc
  · exact .inr (.inr hblank)
  · rcases mem_unsigned hc with hsign | hc
    · exact .inr (.inl hsign)
    · rcases mem_of_magnitude? hk hc with hdecimal | rfl
      · exact .inl hdecimal
      · exact .inr (.inl (by decide))

theorem isDecimal_or_isFiller (h : isDecimal (numeralChar c) ∨ numeralChar c ∈ ['+', '-', '_'] ∨
    isAsciiBlank (numeralChar c)) : isDecimal c ∨ isFiller c := by
  unfold numeralChar at h
  split at h
  · rw [isFiller, isBlank, Bool.or_eq_true, Bool.or_eq_true, List.contains_iff_mem]
    tauto
  · split at h
    · rename_i hblank
      exact .inr (by rw [isFiller, hblank, Bool.or_true])
    · split at h
      · rename_i d hvalue
        exact .inl (by rw [isDecimal, hvalue]; rfl)
      · exfalso
        revert h
        decide

theorem isDigits_iff_of_decimalInteger? (h : decimalInteger? word = some n) :
    isDigits word ↔ ∀ c ∈ word.toList, ¬ isFiller c := by
  rw [decimalInteger?] at h
  split at h
  · have hchars : ∀ c ∈ word.toList, isDecimal c ∨ isFiller c := fun c hc =>
      isDecimal_or_isFiller (mem_of_integer? h (List.mem_map_of_mem hc))
    have hne : word ≠ "" := by
      rintro rfl
      cases h
    rw [isDigits, Bool.and_eq_true, List.all_eq_true]
    constructor
    · rintro ⟨-, hdigits⟩ c hc hfiller
      exact not_isDigit_of_isFiller hfiller (hdigits c hc)
    · intro hnone
      refine ⟨by simp [hne], fun c hc => ?_⟩
      rw [isDigit, (hchars c hc).resolve_right (hnone c hc), Bool.true_or]
  · cases h

end Text

namespace Literal

/-- The texts whose operands are read: hexadecimal, or without a sign, an underscore, a blank. -/
def IsPlain (word : String) : Prop :=
  Text.startsWith word "0x" ∨ ∀ c ∈ word.toList, ¬ Text.isFiller c

instance : DecidablePred IsPlain := fun word =>
  decidable_of_iff (Text.startsWith word "0x" || word.toList.all (!Text.isFiller ·))
    (by simp [IsPlain])

theorem assigned_text_cases (h : assigned (.text word) = .ok (some (.int n))) :
    Text.isDigits word ∧ Number.readInteger word = .ok n ∨
      ¬ Text.isDigits word ∧ numeral? word = some n := by
  rw [assigned] at h
  split at h
  · rename_i hdigits
    cases hn : Number.readInteger word with
    | error e =>
      rw [hn] at h
      cases h
    | ok m =>
      rw [hn] at h
      cases h
      exact .inl ⟨hdigits, rfl⟩
  · rename_i hdigits
    obtain ⟨m, hm, heq⟩ := Option.map_eq_some_iff.1 (Except.ok.inj h)
    cases heq
    exact .inr ⟨hdigits, hm⟩

theorem interval_of_assigned (h : assigned (.text word) = .ok (some (.int n))) :
    (IsPlain word → interval (.text word) = .ok (.point (.int n))) ∧
      (¬ IsPlain word → interval (.text word) = .ok .bottom) := by
  rw [interval]
  obtain ⟨hdigits, hn⟩ | ⟨hdigits, hn⟩ := assigned_text_cases h
  · have hplain : IsPlain word :=
      .inr ((Text.isDigits_iff_of_decimalInteger? (readInteger_ok hn)).1 hdigits)
    rw [if_pos hdigits, hn]
    exact ⟨fun _ => rfl, absurd hplain⟩
  · rw [if_neg hdigits]
    unfold numeral? at hn
    split at hn
    · rename_i hmark
      rw [if_pos hmark, hn]
      exact ⟨fun _ => rfl, absurd (.inl hmark)⟩
    · rename_i hmark
      have hplain : ¬ IsPlain word := by
        rw [IsPlain, or_iff_right hmark, ← Text.isDigits_iff_of_decimalInteger? hn]
        exact hdigits
      rw [if_neg hmark]
      exact ⟨fun h => absurd h hplain, fun _ => rfl⟩

end Literal

namespace Effect

variable {s : State} {op : Operator} {p : Place} {left left' right right' : Operand}
  {a b : Interval} {k : Literal} {x : Number}

theorem assigned_of_assign (h : assign s p (.literal k) = store p (.point x)) :
    k.assigned = .ok (some x) := by
  unfold assign at h
  dsimp only at h
  split at h
  · cases h
  · rename_i y hy
    cases h
    exact hy
  · cases h

theorem binary_store_congr (hleft : left.interval s.ranges = left'.interval s.ranges)
    (hright : right.interval s.ranges = right'.interval s.ranges) :
    (binary s op p left right).store? = (binary s op p left' right').store? := by
  rw [binary, binary, hleft, hright]
  split
  · rfl
  · split
    · rfl
    · rw [binaryOn_store, binaryOn_store]

theorem binary_store_bottom (ha : left.interval s.ranges = .ok a)
    (hb : right.interval s.ranges = .ok b) (h : a = .bottom ∨ b = .bottom) :
    (binary s op p left right).store? = some (p, .bottom) := by
  rw [binary, hb, ha]
  dsimp only
  rw [binaryOn_store, ofOperation_bottom h]
  rfl

end Effect

namespace Instr

variable {s : State} {p : Place}

/-- An assigned text is the same integer as an operand exactly if it is plain. -/
theorem text_operand_agrees_iff
    (h : (assign p (.literal (.text word))).effect s = .store p (.point (.int n))) :
    ((∀ r, (Operand.literal (.text word)).interval r = .ok (.point (.int n))) ↔
      Literal.IsPlain word) ∧
    (Literal.IsPlain word → ∀ t op q o,
      ((binary op q (.literal (.text word)) o).effect t).store? =
        ((binary op q (.literal (.int n)) o).effect t).store? ∧
      ((binary op q o (.literal (.text word))).effect t).store? =
        ((binary op q o (.literal (.int n))).effect t).store?) ∧
    (¬ Literal.IsPlain word → ∀ t op q o a, Operand.interval t.ranges o = .ok a →
      ((binary op q (.literal (.text word)) o).effect t).store? = some (q, .bottom) ∧
      ((binary op q o (.literal (.text word))).effect t).store? = some (q, .bottom)) := by
  obtain ⟨hplain, hother⟩ := Literal.interval_of_assigned (Effect.assigned_of_assign (s := s) h)
  refine ⟨⟨fun hread => ?_, fun hword r => hplain hword⟩, fun hword t op q o => ?_,
    fun hword t op q o a ha => ?_⟩
  · by_contra hword
    cases (hother hword).symm.trans (hread .empty)
  · exact ⟨Effect.binary_store_congr (hplain hword) rfl,
      Effect.binary_store_congr rfl (hplain hword)⟩
  · exact ⟨Effect.binary_store_bottom (hother hword) ha (.inl rfl),
      Effect.binary_store_bottom ha (hother hword) (.inr rfl)⟩

theorem text_operand_agrees_arabic :
    (assign (Variable.octet "x").place (.literal (.text "٤٢"))).effect .initial =
      .store (Variable.octet "x").place (.point (.int 42)) ∧
    ∀ r, (Operand.literal (.text "٤٢")).interval r = .ok (.point (.int 42)) := by
  have h : (assign (Variable.octet "x").place (.literal (.text "٤٢"))).effect .initial =
      .store (Variable.octet "x").place (.point (.int 42)) := by decide
  exact ⟨h, (text_operand_agrees_iff h).1.2 (by decide)⟩

/-- The text of a negative number is assigned, and lost as an operand. -/
theorem negative_text_operand_lost :
    (assign (Variable.octet "x").place (.literal (.text "-5"))).effect .initial =
      .store (Variable.octet "x").place (.point (.int (-5))) ∧
    ((binary .add (Variable.octet "z").place (.literal (.text "-5")) (.literal (.int 7))).effect
      .initial).store? = some ((Variable.octet "z").place, .bottom) ∧
    ((binary .add (Variable.octet "z").place (.literal (.int (-5))) (.literal (.int 7))).effect
      .initial).store? = some ((Variable.octet "z").place, .point (.int 2)) := by
  decide

end Instr

end RangeAudit
