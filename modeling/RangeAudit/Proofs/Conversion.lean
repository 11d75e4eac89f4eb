import RangeAudit.Proofs.Unknown

open RangeAudit.Interval (between)
open Set (Icc MapsTo)

namespace RangeAudit

variable {g : Int → Int} {a b lo hi x : Int} {bits : Nat} {c : TypeClass} {v : Variable} {p : Place}
  {s : State}

/-- A function that takes the integers into a range and repeats itself after its length. -/
structure WrapsInto (g : Int → Int) (lo hi : Int) : Prop where
  mem (x : Int) : g x ∈ Icc lo hi
  self (x : Int) (h : x ∈ Icc lo hi) : g x = x
  periodic (x : Int) : g (x + (hi + 1 - lo)) = g x

namespace WrapsInto

theorem lo_le_hi (h : WrapsInto g lo hi) : lo ≤ hi :=
  (h.mem 0).1.trans (h.mem 0).2

theorem above_hi (h : WrapsInto g lo hi) : g (hi + 1) = lo := by
  have hnext : hi + 1 = lo + (hi + 1 - lo) := by omega
  rw [hnext, h.periodic]
  exact h.self lo ⟨le_rfl, h.lo_le_hi⟩

theorem below_lo (h : WrapsInto g lo hi) : g (lo - 1) = hi := by
  have hlast : lo - 1 + (hi + 1 - lo) = hi := by omega
  rw [← h.periodic, hlast]
  exact h.self hi ⟨h.lo_le_hi, le_rfl⟩

/-- An interval that keeps what turns around in it lies inside the range or has all of it. -/
theorem mapsTo_iff (h : WrapsInto g lo hi) :
    MapsTo g (Icc a b) (Icc a b) ↔ Icc a b ⊆ Icc lo hi ∨ Icc lo hi ⊆ Icc a b := by
  constructor
  · intro hmaps
    rw [or_iff_not_imp_left, Set.not_subset]
    rintro ⟨x, hx, hout⟩ y hy
    obtain ⟨hlo, hhi⟩ := h.mem x
    obtain ⟨hax, hxb⟩ := hx
    obtain ⟨hag, hgb⟩ := hmaps ⟨hax, hxb⟩
    obtain ⟨hly, hyh⟩ := hy
    -- an end of the range lies between `x` and `g x`, and what follows it goes to the other end
    rcases le_or_gt lo x with hle | hlt
    · have hhx : hi < x := not_le.1 fun hxh => hout ⟨hle, hxh⟩
      obtain ⟨hal, -⟩ : g (hi + 1) ∈ Icc a b := hmaps ⟨by omega, by omega⟩
      rw [h.above_hi] at hal
      exact ⟨hal.trans hly, by omega⟩
    · obtain ⟨-, hhb⟩ : g (lo - 1) ∈ Icc a b := hmaps ⟨by omega, by omega⟩
      rw [h.below_lo] at hhb
      exact ⟨by omega, hyh.trans hhb⟩
  · rintro (hinside | haround) x hx
    · rwa [h.self x (hinside hx)]
    · exact haround (h.mem x)

end WrapsInto

namespace TypeClass

/-- What the bits of a type hold of an integer, or whether it differs from zero. -/
def wrap (c : TypeClass) (x : Int) : Int :=
  match c with
  | .unsigned bits => x % Nat.pow 2 bits
  | .signed bits => (BitVec.ofInt bits x).toInt
  | .address => x % Nat.pow 2 160
  | .truth => if x = 0 then 0 else 1
  | .other => x

structure HasEnds (c : TypeClass) (lo hi : Int) : Prop where
  admits (x : Int) : c.Admits x ↔ x ∈ Icc lo hi
  wraps : WrapsInto c.wrap lo hi
  converted (i : Interval) : c.converted? i = some (clip (.int lo) (.int hi) i)

theorem hasEnds_unsigned (bits : Nat) :
    (TypeClass.unsigned bits).HasEnds 0 (Nat.pow 2 bits - 1) where
  admits := (isIntegers_unsigned bits).admits
  converted _ := rfl
  wraps := by
    have hpos : (0 : Int) < Nat.pow 2 bits := Int.natCast_pos.2 (Nat.pow_pos (by decide))
    refine ⟨fun x => ⟨Int.emod_nonneg x hpos.ne', ?_⟩, fun x hx => ?_, fun x => ?_⟩
    · exact Int.le_sub_one_of_lt (Int.emod_lt_of_pos x hpos)
    · exact Int.emod_eq_of_lt hx.1 (Int.lt_of_le_sub_one hx.2)
    · rw [sub_add_cancel, sub_zero]
      exact Int.add_emod_right x _

theorem hasEnds_signed (h : 0 < bits) :
    (TypeClass.signed bits).HasEnds (-(Nat.pow 2 (bits - 1))) (Nat.pow 2 (bits - 1) - 1) where
  admits := (isIntegers_signed h).admits
  converted _ := by rw [converted?, signedRange_eq h]
  wraps := by
    have hcast : ((Nat.pow 2 (bits - 1) : Nat) : Int) = 2 ^ (bits - 1) := by
      rw [Nat.pow_eq]
      push_cast
      rfl
    have hwidth : (2 : Int) ^ (bits - 1) + 2 ^ (bits - 1) = (2 ^ bits : Nat) := by
      rw [← mul_two, ← pow_succ, Nat.sub_add_cancel h]
      push_cast
      rfl
    rw [hcast]
    refine ⟨fun x => ⟨BitVec.le_toInt _, Int.le_sub_one_of_lt BitVec.toInt_lt⟩, fun x hx => ?_,
      fun x => ?_⟩
    · exact BitVec.toInt_ofInt_eq_self h hx.1 (Int.lt_of_le_sub_one hx.2)
    · rw [sub_add_cancel, sub_neg_eq_add, hwidth, wrap, wrap, BitVec.toInt_ofInt,
        BitVec.toInt_ofInt]
      exact Int.add_bmod_right x _

theorem clip_between (lo hi a b : Int) :
    clip (.int lo) (.int hi) (between (.int a) (.int b)) =
      between (.int (max lo a)) (.int (min hi b)) := by
  simp [clip, between, Number.greatest_int, Number.least_int]

theorem HasEnds.contains_converted_iff (h : c.HasEnds lo hi) :
    (between (.int (max lo a)) (.int (min hi b))).contains x ↔ c.Admits x ∧ x ∈ Icc a b := by
  rw [Interval.contains_between, h.admits, max_le_iff, le_min_iff]
  exact and_and_and_comm

end TypeClass

theorem Variable.HasIntegerType.hasEnds (h : v.HasIntegerType c) : ∃ lo hi, c.HasEnds lo hi := by
  obtain ⟨bits, hpos, -, ⟨-, rfl⟩ | ⟨-, rfl⟩⟩ := h
  · exact ⟨_, _, TypeClass.hasEnds_unsigned bits⟩
  · exact ⟨_, _, TypeClass.hasEnds_signed hpos⟩

theorem Effect.convert_eq (hv : v.HasIntegerType c) (hends : c.HasEnds lo hi) {i : Interval}
    (hp : s.ranges.get? p = some i) :
    Effect.convert s v.place (.place p) =
      .store v.place (TypeClass.clip (.int lo) (.int hi) i) := by
  obtain ⟨type, htype, -⟩ := hv.lowerType
  have hclass : TypeClass.ofText type = .ok c := by
    have htypeClass := hv.typeClass
    rwa [Variable.typeClass, htype, Option.elim_some] at htypeClass
  simp only [convert, Operand.place?, Option.bind_some, hp, htype, hclass, hends.converted,
    Option.elim_some]

namespace Instr

/-- A converted value is stored exactly if the source has it too. -/
theorem convert_contains_iff (hv : v.HasIntegerType c)
    (hp : s.ranges.get? p = some (between (.int a) (.int b))) :
    ∃ i, (convert v.place (.place p)).process s =
        .ok () { s with ranges := s.ranges.set v.place i } ∧
      (∀ x, i.contains x ↔ c.Admits x ∧ x ∈ Icc a b) ∧
      (∀ x, i.contains (c.wrap x) ↔ c.wrap x ∈ Icc a b) ∧
      ((∀ x ∈ Icc a b, i.contains (c.wrap x)) ↔
        (∀ x ∈ Icc a b, c.Admits x) ∨ ∀ x, c.Admits x → x ∈ Icc a b) := by
  obtain ⟨lo, hi, hends⟩ := hv.hasEnds
  have hwrap (x : Int) : (between (.int (max lo a)) (.int (min hi b))).contains (c.wrap x) ↔
      c.wrap x ∈ Icc a b := by
    rw [hends.contains_converted_iff, hends.admits]
    exact and_iff_right (hends.wraps.mem x)
  refine ⟨between (.int (max lo a)) (.int (min hi b)), ?_, fun x => hends.contains_converted_iff,
    hwrap, ?_⟩
  · have heffect := Effect.convert_eq hv hends hp
    rw [TypeClass.clip_between] at heffect
    rw [process, effect, heffect]
    simp [State.apply, Effect.store, Effect.nothing]
  · simp only [hwrap, hends.admits]
    exact hends.wraps.mapsTo_iff

theorem wideSource_contains_wrapped :
    ∃ i, (convert (Variable.ofType "v" "int8").place (.place (.named "x"))).process
        (.ofEntries [(.named "x", between (.int (-200)) (.int 200))]) =
        .ok () (.ofEntries [(.named "x", between (.int (-200)) (.int 200)),
          ((Variable.ofType "v" "int8").place, i)]) ∧
      (TypeClass.signed 8).wrap 200 = -56 ∧ i.contains (-56) ∧ ¬ i.contains 200 := by
  have htype : (Variable.ofType "v" "int8").HasIntegerType (.signed 8) :=
    ⟨8, by decide, by decide, .inr ⟨show some "int8" = some (signedText 8) by decide, rfl⟩⟩
  obtain ⟨i, hprocess, hcontains, -, hall⟩ := convert_contains_iff
    (s := .ofEntries [(.named "x", between (.int (-200)) (.int 200))]) (p := .named "x") htype rfl
  have haround : ∀ x, (TypeClass.signed 8).Admits x → x ∈ Icc (-200) 200 := by
    rintro x ⟨-, hlo, hhi⟩
    exact ⟨(show (-200 : Int) ≤ -(Nat.pow 2 (8 - 1)) by decide).trans hlo,
      hhi.le.trans (show ((Nat.pow 2 (8 - 1) : Nat) : Int) ≤ 200 by decide)⟩
  have hwrap : (TypeClass.signed 8).wrap 200 = -56 := by decide
  refine ⟨i, hprocess, hwrap, ?_, fun h => ?_⟩
  · rw [← hwrap]
    exact hall.2 (.inr haround) 200 (by decide)
  · obtain ⟨⟨-, -, hlt⟩, -⟩ := (hcontains 200).1 h
    exact absurd hlt (by decide)

/-- Minus one is the octet 255, but nothing lies between the bounds that are left of it. -/
theorem minusOne_misses_wrapped :
    ((Step.carry (convert (Variable.octet "y").place (.place (.named "x")))).ends
        (.tracking (.named "x") (-1))).ranges.get? (Variable.octet "y").place =
        some (between 0 (.int (-1))) ∧
      (TypeClass.unsigned 8).wrap (-1) = 255 ∧
      (between 0 (.int (-1))).contains 255 = false := by
  decide

end Instr

end RangeAudit
