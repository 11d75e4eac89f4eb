import RangeAudit.Operator.Transfer
import RangeAudit.Proofs.Lattice

namespace RangeAudit

namespace Binary64

/-- Rounding a fraction gives a finite double or an infinity of its sign. -/
theorem ofRatio_cases (negative : Bool) (n d : Nat) :
    (∃ m e, ofRatio negative n d = .finite negative m e) ∨
      ofRatio negative n d = .inf negative := by
  unfold ofRatio
  split
  · exact .inl ⟨_, _, rfl⟩
  · dsimp only
    split
    · split
      · exact .inl ⟨_, _, rfl⟩
      · exact .inr rfl
    · split
      · exact .inl ⟨_, _, rfl⟩
      · exact .inr rfl

theorem exponentFor_le (n : Nat) : exponentFor n 1 ≤ max ((n.log2 : Int) - 52) leastExponent := by
  unfold exponentFor
  dsimp only
  have hone : Nat.log2 1 = 0 := by decide
  rw [hone]
  apply max_le_max
  · split
    · omega
    · omega
  · exact le_rfl

/-- Integers of up to 1023 bits are within the reach of doubles. -/
theorem ofInt_finite {n : Int} {bits : Nat} (hbits : bits ≤ 1023) (h : n.natAbs < Nat.pow 2 bits) :
    ∃ s m e, ofInt n = .finite s m e := by
  unfold ofInt ofRatio
  split
  · exact ⟨_, _, _, rfl⟩
  · rename_i hn
    have hlog : n.natAbs.log2 < bits := (Nat.log2_lt hn).2 h
    have he := exponentFor_le n.natAbs
    have hexponent : exponentFor n.natAbs 1 + 1 ≤ greatestExponent := by
      unfold leastExponent at he
      unfold greatestExponent
      omega
    dsimp only
    split
    · rw [if_pos (show exponentFor n.natAbs 1 ≤ greatestExponent by omega)]
      exact ⟨_, _, _, rfl⟩
    · exact ⟨_, _, _, rfl⟩

end Binary64

namespace Number

variable {x y z : Number} {n : Int} {d : Binary64}

theorem toDouble_finite (hx : x.toInt? = some n) (h : x.toDouble = .ok d) :
    ∃ s m e, d = .finite s m e := by
  cases x with
  | int k =>
    rcases Binary64.ofRatio_cases (k < 0) k.natAbs 1 with ⟨m, e, hd⟩ | hd
    · simp only [toDouble, Binary64.ofInt, hd] at h
      cases h
      exact ⟨_, m, e, rfl⟩
    · simp only [toDouble, Binary64.ofInt, hd] at h
      cases h
  | truth b =>
    cases h
    cases b
    · exact ⟨_, _, _, rfl⟩
    · exact ⟨_, _, _, rfl⟩
  | double d => cases hx

section Arith

variable {f : Int → Int → Int} {g : Binary64 → Binary64 → Binary64} {s s' s'' : Bool} {m : Int}

theorem arith_int (hx : x.toInt? = some m) (hy : y.toInt? = some n) :
    arith f g x y = .ok (.int (f m n)) := by
  simp only [arith, hx, hy]

theorem arith_inf_left (y : Number) :
    arith f g (.double (.inf s)) y = (fun d => .double (g (.inf s) d)) <$> y.toDouble := by
  have hint : (double (.inf s)).toInt? = none := rfl
  have hdouble : (double (.inf s)).toDouble = .ok (.inf s) := rfl
  rw [arith, hint, hdouble]
  cases y.toDouble with
  | error e => rfl
  | ok d => rfl

theorem arith_inf_right (x : Number) :
    arith f g x (.double (.inf s)) = (fun d => .double (g d (.inf s))) <$> x.toDouble := by
  have hint : (double (.inf s)).toInt? = none := rfl
  have hdouble : (double (.inf s)).toDouble = .ok (.inf s) := rfl
  have hpair : arith f g x (.double (.inf s)) = (do
      let a ← x.toDouble
      let b ← (double (.inf s)).toDouble
      return .double (g a b)) := by
    rw [arith, hint]
    cases x.toInt? <;> rfl
  rw [hpair, hdouble]
  cases x.toDouble with
  | error e => rfl
  | ok d => rfl

/-- Where an infinity decides, integers and infinities give an integer or an infinity. -/
theorem arith_integer_or_inf (hx : x.toInt?.isSome ∨ x = .double (.inf s))
    (hy : y.toInt?.isSome ∨ y = .double (.inf s'))
    (hleft : ∀ t m e, g (.inf s) (.finite t m e) = .inf s'')
    (hright : ∀ t m e, g (.finite t m e) (.inf s') = .inf s'')
    (hboth : g (.inf s) (.inf s') = .inf s'')
    (h : arith f g x y = .ok z) : z.toInt?.isSome ∨ z = .double (.inf s'') := by
  rcases hx with hx | rfl
  · obtain ⟨m, hm⟩ := Option.isSome_iff_exists.1 hx
    rcases hy with hy | rfl
    · obtain ⟨n, hn⟩ := Option.isSome_iff_exists.1 hy
      cases (arith_int hm hn).symm.trans h
      exact .inl rfl
    · rw [arith_inf_right] at h
      cases hd : x.toDouble with
      | error e =>
        rw [hd] at h
        cases h
      | ok d =>
        rw [hd] at h
        cases h
        obtain ⟨t, k, e, rfl⟩ := toDouble_finite hm hd
        exact .inr (congrArg Number.double (hright t k e))
  · rw [arith_inf_left] at h
    cases hd : y.toDouble with
    | error e =>
      rw [hd] at h
      cases h
    | ok d =>
      rw [hd] at h
      cases h
      rcases hy with hy | rfl
      · obtain ⟨n, hn⟩ := Option.isSome_iff_exists.1 hy
        obtain ⟨t, k, e, rfl⟩ := toDouble_finite hn hd
        exact .inr (congrArg Number.double (hleft t k e))
      · cases hd
        exact .inr (congrArg Number.double hboth)

end Arith

theorem IsLower.add (hx : x.IsLower) (hy : y.IsLower) (h : x.add y = .ok z) : z.IsLower :=
  arith_integer_or_inf hx hy (fun _ _ _ => rfl) (fun _ _ _ => rfl) rfl h

theorem IsUpper.add (hx : x.IsUpper) (hy : y.IsUpper) (h : x.add y = .ok z) : z.IsUpper :=
  arith_integer_or_inf hx hy (fun _ _ _ => rfl) (fun _ _ _ => rfl) rfl h

theorem IsLower.sub (hx : x.IsLower) (hy : y.IsUpper) (h : x.sub y = .ok z) : z.IsLower :=
  arith_integer_or_inf hx hy (fun _ _ _ => rfl) (fun _ _ _ => rfl) rfl h

theorem IsUpper.sub (hx : x.IsUpper) (hy : y.IsLower) (h : x.sub y = .ok z) : z.IsUpper :=
  arith_integer_or_inf hx hy (fun _ _ _ => rfl) (fun _ _ _ => rfl) rfl h

theorem lt_of_toInt? {m : Int} (hx : x.toInt? = some m) (hy : y.toInt? = some n) :
    x.lt y ↔ m < n := by
  have hx' : x.IsExtended := .inl (by simp [hx])
  have hy' : y.IsExtended := .inl (by simp [hy])
  rw [lt_iff_extended hx' hy', extended_of_toInt? hx, extended_of_toInt? hy, WithBot.coe_lt_coe,
    WithTop.coe_lt_coe]

theorem le_of_toInt? {m : Int} (hx : x.toInt? = some m) (hy : y.toInt? = some n) :
    x.le y ↔ m ≤ n := by
  have hx' : x.IsExtended := .inl (by simp [hx])
  have hy' : y.IsExtended := .inl (by simp [hy])
  rw [le_iff_extended hx' hy', extended_of_toInt? hx, extended_of_toInt? hy, WithBot.coe_le_coe,
    WithTop.coe_le_coe]

theorem same_zero_of_toInt? (h : y.toInt? = some n) : y.same 0 ↔ n = 0 := by
  have hy : y.IsExtended := .inl (by simp [h])
  rw [same_iff_extended hy (.inl rfl), extended_of_toInt? h, extended_of_toInt? (n := 0) rfl,
    WithBot.coe_inj, WithTop.coe_inj]

theorem eq_of_toInt? (h : y.toInt? = some n) :
    y = .int n ∨ ∃ b : Bool, y = .truth b ∧ n = if b then 1 else 0 := by
  cases y with
  | int m =>
    cases h
    exact .inl rfl
  | truth b =>
    cases h
    exact .inr ⟨b, rfl, rfl⟩
  | double d => cases h

theorem pred_of_toInt? (h : y.toInt? = some n) : y.pred = .int (n - 1) := by
  rcases eq_of_toInt? h with rfl | ⟨b, rfl, rfl⟩ <;> rfl

theorem succ_of_toInt? (h : y.toInt? = some n) : y.succ = .int (n + 1) := by
  rcases eq_of_toInt? h with rfl | ⟨b, rfl, rfl⟩ <;> rfl

theorem neg_of_toInt? (h : y.toInt? = some n) : y.neg = .int (-n) := by
  rcases eq_of_toInt? h with rfl | ⟨b, rfl, rfl⟩ <;> rfl

theorem abs_of_toInt? (h : y.toInt? = some n) : y.abs = .int n.natAbs := by
  rcases eq_of_toInt? h with rfl | ⟨b, rfl, rfl⟩ <;> rfl

end Number

end RangeAudit
