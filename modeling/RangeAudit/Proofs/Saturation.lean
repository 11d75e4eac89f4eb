import RangeAudit.Proofs.Independence
import RangeAudit.Proofs.Stores

open RangeAudit.Interval (leastWord greatestWord between)

namespace RangeAudit

variable {x y z : Number} {n : Int} {a b : Interval} {c : Corners}
  {memory? : Option Nat}

namespace Number

def IsInteger (x : Number) : Prop :=
  x.toInt?.isSome

/-- An integer no greater than the largest machine word. -/
def IsSaturated (x : Number) : Prop :=
  ∃ n, x.toInt? = some n ∧ n ≤ greatestWord

def IsGrounded (x : Number) : Prop :=
  ∃ n, x.toInt? = some n ∧ leastWord ≤ n

def IsCapped (x : Number) : Prop :=
  x.IsSaturated ∨ x = posInf

theorem isInteger_int (n : Int) : IsInteger (.int n) := rfl

theorem isSaturated_int (h : n ≤ greatestWord) : IsSaturated (.int n) :=
  ⟨n, rfl, h⟩

theorem IsSaturated.isInteger (h : x.IsSaturated) : x.IsInteger := by
  obtain ⟨n, hn, -⟩ := h
  simp [IsInteger, hn]

theorem IsGrounded.isInteger (h : x.IsGrounded) : x.IsInteger := by
  obtain ⟨n, hn, -⟩ := h
  simp [IsInteger, hn]

theorem IsCapped.isUpper (h : x.IsCapped) : x.IsUpper :=
  h.imp_left IsSaturated.isInteger

theorem IsLower.isInteger (h : x.IsLower) (hx : x.same negInf = false) : x.IsInteger := by
  rcases h with h | rfl
  · exact h
  · cases hx

theorem IsCapped.isSaturated (h : x.IsCapped) (hx : x.same posInf = false) : x.IsSaturated := by
  rcases h with h | rfl
  · exact h
  · cases hx

theorem IsInteger.same_negInf (h : x.IsInteger) : x.same negInf = false := by
  obtain ⟨n, hn⟩ := Option.isSome_iff_exists.1 h
  rw [Bool.eq_false_iff, ne_eq, same_iff_extended (.inl h) (.inr (.inl rfl)), extended_of_toInt? hn]
  exact WithBot.coe_ne_bot

end Number

open Number (IsInteger IsGrounded IsSaturated)

theorem Number.IsSaturated.pred (h : x.IsSaturated) : x.pred.IsSaturated := by
  obtain ⟨n, hn, hle⟩ := h
  rw [pred_of_toInt? hn]
  exact isSaturated_int (by omega)

theorem allowsWords_saturated : AllowsWords IsInteger IsSaturated where
  word h _ hhi := ⟨Option.isSome_iff_exists.2 ⟨_, h⟩, _, h, hhi⟩
  succ h := by
    obtain ⟨n, hn⟩ := Option.isSome_iff_exists.1 h
    rw [Number.succ_of_toInt? hn]
    exact Number.isInteger_int _
  pred h := h.pred

theorem allowsWords_grounded : AllowsWords IsGrounded IsSaturated where
  word h hlo hhi := ⟨⟨_, h, hlo⟩, _, h, hhi⟩
  succ h := by
    obtain ⟨n, hn, hle⟩ := h
    rw [Number.succ_of_toInt? hn]
    exact ⟨n + 1, rfl, by omega⟩
  pred h := h.pred

theorem Interval.Within.of_grounded (h : a.Within IsGrounded IsSaturated) :
    a.Within IsInteger IsSaturated :=
  h.mono (fun _ => IsGrounded.isInteger) fun _ hx => hx

namespace Corners

/-- The corners of two intervals with saturated upper bounds. -/
structure IsCapped (c : Corners) : Prop where
  leftLo : c.leftLo.IsLower
  leftHi : c.leftHi.IsCapped
  rightLo : c.rightLo.IsLower
  rightHi : c.rightHi.IsCapped

theorem isCapped_ofIntervals (ha : a.Within Number.IsLower Number.IsCapped)
    (hb : b.Within Number.IsLower Number.IsCapped) : (ofIntervals a b).IsCapped := by
  have hlo {i : Interval} (hi : i.Within Number.IsLower Number.IsCapped) :
      (i.lo.getD .negInf).IsLower := by
    cases h : i.lo with
    | none => exact .inr rfl
    | some x => exact hi.lo x h
  have hhi {i : Interval} (hi : i.Within Number.IsLower Number.IsCapped) :
      (i.hi.getD .posInf).IsCapped := by
    cases h : i.hi with
    | none => exact .inr rfl
    | some x => exact hi.hi x h
  exact ⟨hlo ha, hhi ha, hlo hb, hhi hb⟩

theorem bounded_within {L : Number → Prop} (hword : L (.int leastWord))
    (hx : x.same .negInf = false → L x) (hy : y.IsCapped) :
    (bounded x y).Within L IsSaturated := by
  apply Interval.within_between
  · split
    · exact hword
    · rename_i h
      exact hx (Bool.eq_false_iff.2 h)
  · split
    · exact Number.isSaturated_int le_rfl
    · rename_i h
      exact hy.isSaturated (Bool.eq_false_iff.2 h)

theorem bounded_saturated (hx : x.IsLower) (hy : y.IsCapped) :
    (bounded x y).Within IsInteger IsSaturated :=
  bounded_within (Number.isInteger_int _) hx.isInteger hy

theorem clampHi_isCapped (h : x.IsUpper) : (clampHi x).IsCapped := by
  have hlimit : ((Nat.pow 2 256 : Nat) : Int) = greatestWord + 1 := by decide
  unfold clampHi
  split
  · exact .inl (Number.isSaturated_int le_rfl)
  · rename_i hle
    rcases h with h | rfl
    · obtain ⟨n, hn⟩ := Option.isSome_iff_exists.1 h
      rw [Number.le_of_toInt? rfl hn] at hle
      exact .inl ⟨n, hn, by omega⟩
    · exact .inr rfl

theorem clampLo_isGrounded (h : x.IsLower) : (clampLo x).IsGrounded := by
  unfold clampLo
  split
  · exact ⟨leastWord, rfl, le_rfl⟩
  · rename_i hlt
    rcases h with h | rfl
    · obtain ⟨n, hn⟩ := Option.isSome_iff_exists.1 h
      rw [Number.lt_of_toInt? hn rfl] at hlt
      exact ⟨n, hn, by omega⟩
    · exact absurd rfl hlt

theorem clamped_grounded (hx : x.IsLower) (hy : y.IsUpper) :
    (clamped x y).Within IsGrounded IsSaturated :=
  bounded_within ⟨leastWord, rfl, le_rfl⟩ (fun _ => clampLo_isGrounded hx) (clampHi_isCapped hy)

theorem greatest_isGrounded (h : x.IsInteger) :
    (Number.greatest (.int leastWord) x).IsGrounded := by
  obtain ⟨n, hn⟩ := Option.isSome_iff_exists.1 h
  unfold Number.greatest
  split
  · rename_i hlt
    rw [Number.lt_of_toInt? rfl hn] at hlt
    exact ⟨n, hn, hlt.le⟩
  · exact ⟨leastWord, rfl, le_rfl⟩

theorem least_isSaturated (h : x.IsInteger) : (Number.least (.int greatestWord) x).IsSaturated := by
  obtain ⟨n, hn⟩ := Option.isSome_iff_exists.1 h
  unfold Number.least
  split
  · rename_i hlt
    rw [Number.lt_of_toInt? hn rfl] at hlt
    exact ⟨n, hn, hlt.le⟩
  · exact Number.isSaturated_int le_rfl

theorem hull_grounded (hx : x.IsInteger) (hy : y.IsInteger) :
    (bounded (Number.greatest (.int leastWord) x)
      (Number.least (.int greatestWord) y)).Within IsGrounded IsSaturated :=
  bounded_within ⟨leastWord, rfl, le_rfl⟩ (fun _ => greatest_isGrounded hx)
    (.inl (least_isSaturated hy))

theorem leastOf_isInteger {l : List Number} (hx : x.IsInteger) (hl : ∀ y ∈ l, y.IsInteger) :
    (Number.leastOf x l).IsInteger :=
  List.foldlRecOn (motive := IsInteger) l _ hx fun _ hm y hy => Number.least_of hm (hl y hy)

theorem greatestOf_isInteger {l : List Number} (hx : x.IsInteger) (hl : ∀ y ∈ l, y.IsInteger) :
    (Number.greatestOf x l).IsInteger :=
  List.foldlRecOn (motive := IsInteger) l _ hx fun _ hm y hy => Number.greatest_of hm (hl y hy)

theorem word_saturated : Interval.word.Within IsInteger IsSaturated :=
  allowsWords_saturated.wholeWord

theorem add_grounded {z : Interval} (hc : c.IsCapped) (h : c.add = .ok z) :
    z.Within IsGrounded IsSaturated := by
  obtain ⟨lo, hlo, h⟩ := ok_of_bind h
  obtain ⟨hi, hhi, h⟩ := ok_of_bind h
  cases h
  exact clamped_grounded (hc.leftLo.add hc.rightLo hlo)
    (hc.leftHi.isUpper.add hc.rightHi.isUpper hhi)

theorem sub_grounded {z : Interval} (hc : c.IsCapped) (h : c.sub = .ok z) :
    z.Within IsGrounded IsSaturated := by
  obtain ⟨lo, hlo, h⟩ := ok_of_bind h
  obtain ⟨hi, hhi, h⟩ := ok_of_bind h
  cases h
  exact clamped_grounded (hc.leftLo.sub hc.rightHi.isUpper hlo)
    (hc.leftHi.isUpper.sub hc.rightLo hhi)

theorem IsCapped.isInteger (hc : c.IsCapped) (h : c.isUnbounded = false) :
    c.leftLo.IsInteger ∧ c.leftHi.IsInteger ∧ c.rightLo.IsInteger ∧ c.rightHi.IsInteger := by
  simp only [isUnbounded, Bool.or_eq_false_iff] at h
  obtain ⟨⟨⟨h₁, h₂⟩, h₃⟩, h₄⟩ := h
  exact ⟨hc.leftLo.isInteger h₁, (hc.leftHi.isSaturated h₃).isInteger, hc.rightLo.isInteger h₂,
    (hc.rightHi.isSaturated h₄).isInteger⟩

theorem mul_isInteger (hx : x.IsInteger) (hy : y.IsInteger) (h : x.mul y = .ok z) :
    z.IsInteger := by
  obtain ⟨m, hm⟩ := Option.isSome_iff_exists.1 hx
  obtain ⟨n, hn⟩ := Option.isSome_iff_exists.1 hy
  cases (Number.arith_int hm hn).symm.trans h
  exact Number.isInteger_int _

theorem mul_grounded {z : Interval} (hc : c.IsCapped) (h : c.mul = .ok z) :
    z.Within IsGrounded IsSaturated := by
  unfold mul at h
  split at h
  · cases h
    exact allowsWords_grounded.wholeWord
  · rename_i hb
    obtain ⟨hll, hlh, hrl, hrh⟩ := hc.isInteger (Bool.eq_false_iff.2 hb)
    obtain ⟨p, hp, h⟩ := ok_of_bind h
    obtain ⟨q, hq, h⟩ := ok_of_bind h
    obtain ⟨r, hr, h⟩ := ok_of_bind h
    obtain ⟨s, hs, h⟩ := ok_of_bind h
    cases h
    have hp := mul_isInteger hll hrl hp
    have hrest : ∀ y ∈ [q, r, s], y.IsInteger := by
      simp only [List.forall_mem_cons]
      exact ⟨mul_isInteger hll hrh hq, mul_isInteger hlh hrl hr, mul_isInteger hlh hrh hs,
        List.forall_mem_nil _⟩
    exact clamped_grounded (.inl (leastOf_isInteger hp hrest))
      (.inl (greatestOf_isInteger hp hrest))

theorem floorDiv_isInteger (hx : x.IsInteger) (hy : y.IsInteger) (h : x.floorDiv y = .ok z) :
    z.IsInteger := by
  obtain ⟨m, hm⟩ := Option.isSome_iff_exists.1 hx
  obtain ⟨n, hn⟩ := Option.isSome_iff_exists.1 hy
  simp only [Number.floorDiv, hm, hn] at h
  split at h
  · cases h
  · cases h
    exact Number.isInteger_int _

theorem quotients_eq (c : Corners) : ∃ near far : Number,
    (near = c.rightLo ∨ near = c.rightHi) ∧ (far = c.rightLo ∨ far = c.rightHi) ∧
      c.quotients = (do
        let p ← c.leftLo.floorDiv near
        let q ← c.leftLo.floorDiv far
        let r ← c.leftHi.floorDiv near
        let s ← c.leftHi.floorDiv far
        return [p, q, r, s]) := by
  unfold quotients
  split
  rename_i near far heq
  split at heq
  · cases heq
    exact ⟨_, _, .inl rfl, .inr rfl, rfl⟩
  · cases heq
    exact ⟨_, _, .inr rfl, .inl rfl, rfl⟩

theorem quotients_isInteger {l : List Number} (hc : c.IsCapped) (hb : c.isUnbounded = false)
    (h : c.quotients = .ok l) : ∀ y ∈ l, y.IsInteger := by
  obtain ⟨hll, hlh, hrl, hrh⟩ := hc.isInteger hb
  have hside {y : Number} (hy : y = c.rightLo ∨ y = c.rightHi) : y.IsInteger := by
    rcases hy with rfl | rfl
    · exact hrl
    · exact hrh
  obtain ⟨near, far, hnear, hfar, hq⟩ := c.quotients_eq
  rw [hq] at h
  obtain ⟨p, hp, h⟩ := ok_of_bind h
  obtain ⟨q, hq, h⟩ := ok_of_bind h
  obtain ⟨r, hr, h⟩ := ok_of_bind h
  obtain ⟨s, hs, h⟩ := ok_of_bind h
  cases h
  simp only [List.forall_mem_cons]
  exact ⟨floorDiv_isInteger hll (hside hnear) hp, floorDiv_isInteger hll (hside hfar) hq,
    floorDiv_isInteger hlh (hside hnear) hr, floorDiv_isInteger hlh (hside hfar) hs,
    List.forall_mem_nil _⟩

theorem extremeQuotients_isInteger (c : Corners) : ∀ y ∈ c.extremeQuotients, y.IsInteger := by
  intro y hy
  unfold extremeQuotients at hy
  split at hy
  · rcases List.mem_append.1 hy with hy | hy
    · split at hy
      · obtain rfl := List.mem_singleton.1 hy
        exact Number.isInteger_int _
      · cases hy
    · split at hy
      · obtain rfl := List.mem_singleton.1 hy
        exact Number.isInteger_int _
      · cases hy
  · cases hy

theorem divUnbounded_grounded (c : Corners) : c.divUnbounded.Within IsGrounded IsSaturated := by
  have hw := allowsWords_grounded
  unfold divUnbounded
  dsimp only
  split
  · exact hw.unsignedWord
  split
  · exact hw.between (by decide) (by decide) (by decide) (by decide)
  · exact hw.wholeWord

theorem div_grounded {z : Interval} (hc : c.IsCapped) (h : c.div = .ok z) :
    z.Within IsGrounded IsSaturated := by
  unfold div at h
  split at h
  · cases h
    exact allowsWords_grounded.wholeWord
  split at h
  · cases h
    exact c.divUnbounded_grounded
  rename_i hb
  split at h
  · cases h
    exact allowsWords_grounded.wholeWord
  obtain ⟨l, hl, h⟩ := ok_of_bind h
  have hall : ∀ y ∈ l ++ c.extremeQuotients, y.IsInteger := by
    intro y hy
    rcases List.mem_append.1 hy with hy | hy
    · exact quotients_isInteger hc (Bool.eq_false_iff.2 hb) hl y hy
    · exact c.extremeQuotients_isInteger y hy
  split at h
  · cases h
    exact allowsWords_grounded.wholeWord
  · rename_i q qs hq
    rw [hq] at hall
    cases h
    obtain ⟨hq, hqs⟩ := List.forall_mem_cons.1 hall
    exact hull_grounded (leastOf_isInteger hq hqs) (greatestOf_isInteger hq hqs)

theorem powers_saturated (c : Corners) : c.powers.Within IsInteger IsSaturated := by
  unfold powers
  dsimp only
  split
  · exact word_saturated
  · rename_i p ps hp
    have hall : ∀ y ∈ p :: ps, y.IsInteger := by
      intro y hy
      rw [← hp] at hy
      obtain ⟨e, -, he⟩ := List.mem_filterMap.1 hy
      obtain ⟨n, -, rfl⟩ := Option.map_eq_some_iff.1 he
      exact Number.isInteger_int n
    obtain ⟨hp, hps⟩ := List.forall_mem_cons.1 hall
    exact (hull_grounded (leastOf_isInteger hp hps) (greatestOf_isInteger hp hps)).of_grounded

theorem pow_saturated (c : Corners) (ha : a.Within IsInteger IsSaturated) :
    (c.pow a).Within IsInteger IsSaturated := by
  have hw := allowsWords_saturated
  have hone : (Interval.point 1).Within IsInteger IsSaturated :=
    hw.between (by decide) (by decide) (by decide) (by decide)
  unfold pow
  split
  · split
    · exact hw.between (by decide) (by decide) (by decide) (by decide)
    split
    · exact hone
    · exact hw.unsignedWord
  split
  · exact hone
  split
  · exact hone
  split
  · exact ha
  · exact c.powers_saturated

theorem shift_ok {symbol : String} {g : Int → Int → Except Failure Int}
    (h : Number.shift symbol g x y = .ok z) :
    ∃ m n k, x.toInt? = some m ∧ y.toInt? = some n ∧ g m n = .ok k ∧ z = .int k := by
  unfold Number.shift at h
  split at h
  · rename_i m n hm hn
    obtain ⟨k, hk, h⟩ := ok_of_bind h
    cases h
    exact ⟨m, n, k, hm, hn, hk, rfl⟩
  · cases h

theorem shift_isInteger {symbol : String} {g : Int → Int → Except Failure Int}
    (h : Number.shift symbol g x y = .ok z) : z.IsInteger := by
  obtain ⟨m, n, k, -, -, -, rfl⟩ := shift_ok h
  exact Number.isInteger_int k

theorem shiftRightInt_le {m k : Int} (hm : m ≤ greatestWord)
    (h : Number.shiftRightInt m n = .ok k) : k ≤ greatestWord := by
  have hword : 0 ≤ greatestWord := by decide
  unfold Number.shiftRightInt at h
  split at h
  · cases h
  split at h
  · cases h
    split
    · omega
    · omega
  · cases h
    have hpos : (0 : Int) < (Nat.pow 2 n.toNat : Nat) :=
      Int.natCast_pos.2 (Nat.pow_pos (by decide))
    rw [Int.fdiv_eq_ediv_of_nonneg _ hpos.le]
    rcases le_or_gt 0 m with h0 | h0
    · exact (Int.ediv_le_self _ h0).trans hm
    · exact (Int.ediv_neg_of_neg_of_pos h0 hpos).le.trans hword

theorem shiftRight_isSaturated (hx : x.IsSaturated) (h : x.shiftRight y = .ok z) :
    z.IsSaturated := by
  obtain ⟨m, n, k, hm, -, hk, rfl⟩ := shift_ok h
  obtain ⟨m', hm', hle⟩ := hx
  cases hm.symm.trans hm'
  exact Number.isSaturated_int (shiftRightInt_le hle hk)

theorem shiftedLo_isInteger (h : c.shiftedLo memory? = .ok z) : z.IsInteger := by
  have hshift (h : (do c.leftLo.shiftLeft memory? (← c.leastCount)) = .ok z) : z.IsInteger := by
    obtain ⟨count, -, h⟩ := ok_of_bind h
    exact shift_isInteger h
  unfold shiftedLo at h
  split at h
  · cases h
    exact Number.isInteger_int _
  dsimp only at h
  split at h
  · obtain ⟨room, -, h⟩ := ok_of_bind h
    split at h
    · cases h
      exact Number.isInteger_int _
    · exact hshift h
  · exact hshift h

theorem shiftedHi_isInteger (h : c.shiftedHi memory? = .ok z) : z.IsInteger := by
  have hshift (h : (do c.leftHi.shiftLeft memory? (← c.leastCount)) = .ok z) : z.IsInteger := by
    obtain ⟨count, -, h⟩ := ok_of_bind h
    exact shift_isInteger h
  unfold shiftedHi at h
  split at h
  · cases h
    exact Number.isInteger_int _
  dsimp only at h
  split at h
  · obtain ⟨limit, -, h⟩ := ok_of_bind h
    split at h
    · cases h
      exact Number.isInteger_int _
    · exact hshift h
  · exact hshift h

theorem shl_saturated {z : Interval} (hc : c.IsCapped) (h : c.shl memory? = .ok z) :
    z.Within IsInteger IsSaturated := by
  have hzero : Number.IsSaturated 0 := Number.isSaturated_int (by decide)
  unfold shl at h
  split at h
  · dsimp only at h
    have hbounded {lo : Number} (hlo : lo.IsInteger)
        (h : (if c.leftHi.same .posInf then do
            let hi ← pure 0
            pure (bounded lo hi)
          else do
            let hi ← c.leftHi.shiftRight c.rightLo.abs
            pure (bounded lo hi)) = Except.ok z) : z.Within IsInteger IsSaturated := by
      split at h
      · cases h
        exact bounded_saturated (.inl hlo) (.inl hzero)
      · rename_i hb
        obtain ⟨hi, hhi, h⟩ := ok_of_bind h
        cases h
        have hsat := hc.leftHi.isSaturated (Bool.eq_false_iff.2 hb)
        exact bounded_saturated (.inl hlo) (.inl (shiftRight_isSaturated hsat hhi))
    split at h
    · exact hbounded hzero.isInteger h
    · obtain ⟨lo, hlo, h⟩ := ok_of_bind h
      exact hbounded (shift_isInteger hlo) h
  · obtain ⟨lo, hlo, h⟩ := ok_of_bind h
    obtain ⟨hi, hhi, h⟩ := ok_of_bind h
    cases h
    exact (clamped_grounded (.inl (shiftedLo_isInteger hlo))
      (.inl (shiftedHi_isInteger hhi))).of_grounded

theorem shrNegative_saturated {z : Interval} (h : c.shrNegative memory? = .ok z) :
    z.Within IsInteger IsSaturated := by
  unfold shrNegative at h
  dsimp only at h
  generalize (if c.rightLo.same .negInf then (256 : Number) else
    Number.least c.rightLo.abs 256) = reach at h
  split at h
  · cases h
    exact word_saturated
  have hclamped {lo : Number} (hlo : lo.IsInteger)
      (h : (if c.leftHi.same .posInf then do
          let hi ← pure (.int greatestWord)
          pure (clamped lo hi)
        else do
          let hi ← c.leftHi.shiftLeft memory? c.rightLo.abs
          pure (clamped lo hi)) = Except.ok z) : z.Within IsInteger IsSaturated := by
    split at h
    · cases h
      exact (clamped_grounded (.inl hlo) (.inl (Number.isInteger_int _))).of_grounded
    · obtain ⟨hi, hhi, h⟩ := ok_of_bind h
      cases h
      exact (clamped_grounded (.inl hlo) (.inl (shift_isInteger hhi))).of_grounded
  split at h
  · exact hclamped (Number.isInteger_int _) h
  · obtain ⟨lo, hlo, h⟩ := ok_of_bind h
    exact hclamped (shift_isInteger hlo) h

theorem shr_saturated {z : Interval} (hc : c.IsCapped) (h : c.shr memory? = .ok z) :
    z.Within IsInteger IsSaturated := by
  unfold shr at h
  split at h
  · exact shrNegative_saturated h
  dsimp only at h
  have hbounded {lo : Number} (hlo : lo.IsInteger)
      (h : (if c.leftHi.same .posInf then do
          let hi ← pure (.int greatestWord)
          pure (bounded lo hi)
        else do
          let hi ← c.leftHi.shiftRight (← c.leastCount)
          pure (bounded lo hi)) = Except.ok z) : z.Within IsInteger IsSaturated := by
    split at h
    · cases h
      exact bounded_saturated (.inl hlo) (.inl (Number.isSaturated_int le_rfl))
    · rename_i hb
      obtain ⟨count, -, h⟩ := ok_of_bind h
      obtain ⟨hi, hhi, h⟩ := ok_of_bind h
      cases h
      have hsat := hc.leftHi.isSaturated (Bool.eq_false_iff.2 hb)
      exact bounded_saturated (.inl hlo) (.inl (shiftRight_isSaturated hsat hhi))
  split at h
  · exact hbounded (Number.isInteger_int _) h
  split at h
  · obtain ⟨count, -, h⟩ := ok_of_bind h
    obtain ⟨lo, hlo, h⟩ := ok_of_bind h
    exact hbounded (shift_isInteger hlo) h
  · obtain ⟨places, -, h⟩ := ok_of_bind h
    obtain ⟨count, -, h⟩ := ok_of_bind h
    obtain ⟨lo, hlo, h⟩ := ok_of_bind h
    exact hbounded (shift_isInteger hlo) h

end Corners

/-- Every operator but the remainder keeps upper bounds within the largest machine word. -/
theorem Operator.keeps_saturated {op : Operator} (hop : op ≠ .mod) :
    op.Keeps IsInteger IsSaturated := by
  intro a b z ha hb h
  have hw := allowsWords_saturated
  have hc := Corners.isCapped_ofIntervals (ha.mono (fun _ => .inl) fun _ => .inl)
    (hb.mono (fun _ => .inl) fun _ => .inl)
  have htop {i : Interval} (hi : i.Within IsInteger IsSaturated) : i.isTop = false := by
    rw [Interval.isTop, Bool.and_eq_false_iff]
    refine .inl ?_
    cases hlo : i.lo with
    | none => rfl
    | some x => exact (hi.lo x hlo).same_negInf
  unfold apply at h
  split at h
  · cases h
    exact Interval.within_bottom
  rw [htop ha, htop hb] at h
  simp only [Bool.or_self, Bool.false_eq_true, if_false] at h
  cases op with
  | add => exact (Corners.add_grounded hc h).of_grounded
  | sub => exact (Corners.sub_grounded hc h).of_grounded
  | mul => exact (Corners.mul_grounded hc h).of_grounded
  | div => exact (Corners.div_grounded hc h).of_grounded
  | mod => exact absurd rfl hop
  | pow =>
    cases h
    exact Corners.pow_saturated _ ha
  | shl => exact Corners.shl_saturated hc h
  | shr => exact Corners.shr_saturated hc h
  | compare c =>
    cases h
    exact hw.bit
  | logic =>
    cases h
    exact hw.bit
  | unknown text =>
    cases h
    exact hw.wholeWord

namespace Function

variable {f : Function} {s : State} {seen : Ranges → Prop}

theorem IsUnstable.step_isUnstable {step : Step} (hf : f.IsUnstable)
    (hstep : f.Allows seen step) (hs : s.ranges.IsUnstable) : (step.ends s).ranges.IsUnstable := by
  cases step with
  | param v =>
    rw [Step.ends_param]
    split
    · rename_i r hr
      obtain ⟨-, x, -, rfl⟩ | ⟨-, rfl⟩ := Ranges.addParam_ok hr
      · exact hs.set (p := v.place) (hf.params v hstep) x
      · exact hs
    · exact hs
  | source i =>
    rw [Step.ranges_source]
    unfold Ranges.addSource
    split
    · rename_i v hv
      split
      · exact hs.setSome (p := v.place) (hf.sources i hstep v hv) _
      · exact hs
    · exact hs
  | result v =>
    obtain ⟨i, hi, hv⟩ := hstep
    rw [Step.ranges_result]
    unfold Ranges.addLocal
    split
    · exact hs.set (hf.results i hi v.place hv) _
    · exact hs
  | assume e =>
    rw [Step.ends_assume]
    split
    · exact hs.refine _ _ _
    · exact hs
  | carry i =>
    rw [Step.ends_carry]
    exact Instr.IsUnstable.apply (hf.results i hstep) hs
  | compare earlier => rwa [Step.ends_compare]
  | widen earlier =>
    rw [Step.ranges_widen]
    exact hs.map _
  | narrow earlier =>
    rw [Step.ranges_narrow]
    exact hs.map _

/-- Saturated upper bounds stay, as long as widening has nothing to compare with. -/
theorem FitsWords.step_saturated {step : Step} (hf : f.FitsWords) (hvars : f.IsUnstable)
    (hmod : ∀ i ∈ f.instrs, ¬ i.Applies .mod)
    (hstep : f.Allows (fun r => r.Within IsInteger IsSaturated ∧ r.IsUnstable) step)
    (hs : s.ranges.Within IsInteger IsSaturated ∧ s.ranges.IsUnstable) :
    (step.ends s).ranges.Within IsInteger IsSaturated ∧ (step.ends s).ranges.IsUnstable := by
  have hkeeps : ∀ i ∈ f.instrs, ∀ op, i.Applies op → op.Keeps IsInteger IsSaturated := by
    intro i hi op hop
    refine Operator.keeps_saturated fun h => ?_
    subst h
    exact hmod i hi hop
  have hwiden : ∀ earlier, step = .widen earlier →
      (s.ranges.widenFrom earlier).Within IsInteger IsSaturated := by
    rintro earlier rfl
    obtain ⟨r, hr, rfl⟩ := hstep
    rw [hr.2.snapshot, Ranges.widenFrom_empty]
    exact hs.1
  have hseen : f.Allows (Ranges.Within IsInteger IsSaturated) step := hstep.mono fun r hr => hr.1
  have hcarry : ∀ i ∈ f.instrs, ∀ p z, step = .carry i → (i.effect s).store? = some (p, z) →
      z.Within IsInteger IsSaturated := by
    intro i hi p z _ hz
    exact Instr.effect_within allowsWords_saturated hs.1 (hf.constants i hi) (hf.results i hi)
      (hkeeps i hi) hz
  exact ⟨hf.step_within allowsWords_saturated hcarry hwiden hseen hs.1,
    hvars.step_isUnstable hstep hs.2⟩

end Function

theorem Limit.violation?_ne_overflow (l : Limit) (i : Interval) :
    l.violation? i ≠ some .overflow := by
  unfold Limit.violation?
  split
  · exact fun h => by cases h
  · exact fun h => by cases h
  · exact fun h => by cases h

theorem Place.violation?_ne_overflow (p : Place) {i : Interval} (h : ∀ x ∈ i.hi, x.IsSaturated) :
    p.violation? i ≠ some .overflow := by
  have hany : i.hi.any (Number.le (.int (Nat.pow 2 256)) ·) = false := by
    rw [Bool.eq_false_iff]
    intro hany
    obtain ⟨x, hx, hle⟩ := Option.any_eq_true _ _ |>.1 hany
    obtain ⟨n, hn, hword⟩ := h x hx
    have hpow := (Number.le_of_toInt? rfl hn).1 hle
    exact absurd (hpow.trans hword) (by decide)
  unfold Place.violation?
  rw [hany]
  split
  · exact fun h => by cases h
  · simp only [Bool.false_eq_true, if_false]
    split
    · exact fun h => by cases h
    · intro hfind
      obtain ⟨l, -, hl⟩ := List.exists_of_findSome?_eq_some hfind
      exact l.violation?_ne_overflow i hl

theorem Violation.eq_overflow_of_text {v : Violation} {p : Place}
    (h : v.text p = p.text ++ " 可能溢出 (> 2^256)") : v = .overflow := by
  cases v with
  | overflow => rfl
  | underflow => simp [Violation.text] at h
  | belowLeast x least =>
    simp only [Violation.text, String.append_assoc, String.append_right_inj] at h
    have hchar := congrArg (·.toList[1]?) h
    simp at hchar
  | aboveGreatest x greatest =>
    simp only [Violation.text, String.append_assoc, String.append_right_inj] at h
    have hchar := congrArg (·.toList[1]?) h
    simp at hchar

/-- Without remainders upper bounds never pass the largest machine word. -/
theorem Function.analyze_saturates {f : Function} (hf : f.FitsWords)
    (hvars : f.IsUnstable) (hmod : ∀ i ∈ f.instrs, ¬ i.Applies .mod) (cfg : Config)
    (s : State) :
    (∀ u ∈ f.passes cfg s, ∀ e ∈ u.ranges.entries, ∀ x ∈ e.2.hi,
        ∃ n, x.toInt? = some n ∧ n ≤ Nat.pow 2 256 - 1) ∧
      ∀ contract records t, f.report cfg contract s = .ok records t →
        ∀ subject interval, .located contract f.name subject
          (subject ++ " 可能溢出 (> 2^256)") interval ∉ records := by
  have hpasses : ∀ u ∈ f.passes cfg s,
      u.ranges.Within IsInteger IsSaturated ∧ u.ranges.IsUnstable := by
    apply f.passes_keep (I := fun r => r.Within IsInteger IsSaturated ∧ r.IsUnstable)
    · exact ⟨Ranges.within_empty, fun e he => by cases he⟩
    · intro step s hstep hs
      exact hf.step_saturated hvars hmod hstep hs
  constructor
  · intro u hu e he x hx
    exact ((hpasses u hu).1 e he).hi x hx
  · intro contract records t h subject interval hrecord
    obtain ⟨u, hu, hrecords, -⟩ := report_ok.1 h
    obtain ⟨p, i, v, hp, hv, heq⟩ := Ranges.mem_violations hrecords hrecord
    have hi := ((hpasses u (f.mem_passes_of_ok hu)).1 (p, i) hp).hi
    injection heq with _ _ hsubject htext _
    subst hsubject
    obtain rfl := Violation.eq_overflow_of_text htext.symm
    exact p.violation?_ne_overflow hi hv

/-- A loop that multiplies, raises to a power and shifts to the left. -/
def growing : Function :=
  .ofNodes [.ofType "x" "uint256"] [
    .ofComparison .gt (.var (.ofType "x" "uint256")) 1000 [1],
    .ofInstrs [
      .binary .mul (.named "y") (.place (.var (.ofType "x" "uint256")))
        (.place (.var (.ofType "x" "uint256"))),
      .binary .pow (.named "z") (.place (.named "y")) (.literal (.int 2)),
      .binary (.shl none) (.var (.ofType "x" "uint256")) (.place (.named "z"))
        (.literal (.int 200))] [0]]

theorem growing_saturates :
    growing.FitsWords ∧ growing.IsUnstable ∧ (∀ i ∈ growing.instrs, ¬ i.Applies .mod) ∧
      (∀ u ∈ growing.passes {} .initial, ∀ e ∈ u.ranges.entries, ∀ x ∈ e.2.hi,
        ∃ n, x.toInt? = some n ∧ n ≤ Nat.pow 2 256 - 1) ∧
      ∃ records t, growing.report {} "Pool" .initial = .ok records t ∧
        ∀ subject interval, .located "Pool" "f" subject
          (subject ++ " 可能溢出 (> 2^256)") interval ∉ records := by
  have hf : growing.FitsWords := by decide +kernel
  have hbinary : ∀ i ∈ growing.instrs,
      ∃ op p left right, i = .binary op p left right ∧ op ≠ .mod := by
    intro i hi
    simp only [growing, Function.instrs, Function.ofNodes, Node.ofInstrs, Node.ofComparison,
      List.flatMap_cons, List.flatMap_nil, List.nil_append, List.append_nil, List.mem_cons,
      List.not_mem_nil, or_false] at hi
    rcases hi with rfl | rfl | rfl
    · exact ⟨_, _, _, _, rfl, by decide⟩
    · exact ⟨_, _, _, _, rfl, by decide⟩
    · exact ⟨_, _, _, _, rfl, by decide⟩
  have hvars : growing.IsUnstable := by decide
  have hmod : ∀ i ∈ growing.instrs, ¬ i.Applies .mod := by
    intro i hi h
    obtain ⟨op, p, left, right, rfl, hop⟩ := hbinary i hi
    cases h
    exact hop rfl
  obtain ⟨hpasses, hreport⟩ := Function.analyze_saturates hf hvars hmod {} .initial
  have hends : (growing.report {} "Pool").completes .initial := by decide +kernel
  obtain ⟨records, t, h⟩ := Analysis.completes_iff.1 hends
  exact ⟨hf, hvars, hmod, hpasses, records, t, h, hreport "Pool" records t h⟩

end RangeAudit
