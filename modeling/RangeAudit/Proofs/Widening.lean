import RangeAudit.Proofs.HalfBounded
import RangeAudit.Proofs.Membership

namespace RangeAudit

variable {a : Interval} {l h l' h' : Number} {p q : Option Number}

namespace Interval

def widenChain (a : Interval) (b : ℕ → Interval) : ℕ → Interval
  | 0 => a
  | n + 1 => (widenChain a b n).widen (b n)

section Rank

def loRank : Option Number → ℕ
  | some x => if x.same .negInf then 0 else 1
  | none => 0

def hiRank : Option Number → ℕ
  | some x => if x.same .posInf then 0 else 1
  | none => 0

/-- How often widening can still change an interval; bottom ranks above all others. -/
def rank (a : Interval) : ℕ :=
  if a.isBottom then 3 else loRank a.lo + hiRank a.hi

theorem widenLo_eq_or_rank_lt (hp : ∀ x ∈ p, x.IsExtended) (hq : ∀ x ∈ q, x.IsExtended) :
    widenLo p q = p ∨ loRank (widenLo p q) < loRank p := by
  cases p with
  | none => exact .inl rfl
  | some x =>
    cases q with
    | none => exact .inl rfl
    | some y =>
      by_cases hlt : y.lt x
      · have hfinite : ¬ x.same .negInf := by
          intro hsame
          rw [Number.lt_iff_extended (hq y rfl) (hp x rfl)] at hlt
          rw [Number.same_iff_extended (hp x rfl) (.inr (.inl rfl))] at hsame
          exact not_lt_bot (hsame ▸ hlt)
        have hfalls : widenLo (some x) (some y) = some .negInf := if_pos hlt
        have hrank : loRank (some x) = 1 := if_neg hfinite
        rw [hfalls, hrank]
        exact .inr (by decide)
      · exact .inl (if_neg hlt)

theorem widenHi_eq_or_rank_lt (hp : ∀ x ∈ p, x.IsExtended) (hq : ∀ x ∈ q, x.IsExtended) :
    widenHi p q = p ∨ hiRank (widenHi p q) < hiRank p := by
  cases p with
  | none => exact .inl rfl
  | some x =>
    cases q with
    | none => exact .inl rfl
    | some y =>
      by_cases hlt : x.lt y
      · have hfinite : ¬ x.same .posInf := by
          intro hsame
          rw [Number.lt_iff_extended (hp x rfl) (hq y rfl)] at hlt
          rw [Number.same_iff_extended (hp x rfl) (.inr (.inr rfl))] at hsame
          exact not_top_lt (hsame ▸ hlt)
        have hrises : widenHi (some x) (some y) = some .posInf := if_pos hlt
        have hrank : hiRank (some x) = 1 := if_neg hfinite
        rw [hrises, hrank]
        exact .inr (by decide)
      · exact .inl (if_neg hlt)

theorem rank_of_isBottom (h : a.isBottom) : a.rank = 3 :=
  if_pos h

theorem rank_of_not_isBottom (h : a.isBottom = false) : a.rank = loRank a.lo + hiRank a.hi := by
  rw [rank, h, if_neg Bool.false_ne_true]

theorem loRank_le (p : Option Number) : loRank p ≤ 1 := by
  unfold loRank
  split
  · split <;> decide
  · decide

theorem hiRank_le (p : Option Number) : hiRank p ≤ 1 := by
  unfold hiRank
  split
  · split <;> decide
  · decide

theorem rank_lt_of_not_isBottom (h : a.isBottom = false) : a.rank < 3 := by
  have hlo := loRank_le a.lo
  have hhi := hiRank_le a.hi
  rw [rank_of_not_isBottom h]
  omega

theorem rank_le (a : Interval) : a.rank ≤ 3 := by
  cases h : a.isBottom with
  | true => exact (rank_of_isBottom h).le
  | false => exact (rank_lt_of_not_isBottom h).le

/-- Each widening leaves an interval as it is or lowers its rank. -/
theorem widen_eq_or_rank_lt {b : Interval} (ha : a.HasExtendedBounds) (hb : b.HasExtendedBounds) :
    a.widen b = a ∨ (a.widen b).rank < a.rank := by
  cases hbottom : a.isBottom with
  | true =>
    rw [widen, if_pos hbottom]
    cases hbottom' : b.isBottom with
    | true =>
      rw [isBottom_iff] at hbottom hbottom'
      exact .inl (hbottom'.trans hbottom.symm)
    | false =>
      rw [rank_of_isBottom hbottom]
      exact .inr (rank_lt_of_not_isBottom hbottom')
  | false =>
    have hwidened := isBottom_widen hbottom b
    rw [rank_of_not_isBottom hwidened, rank_of_not_isBottom hbottom, widen, hbottom,
      if_neg Bool.false_ne_true]
    split
    · exact .inl rfl
    · have hlo := widenLo_eq_or_rank_lt ha.lo hb.lo
      have hhi := widenHi_eq_or_rank_lt ha.hi hb.hi
      rcases hlo with hlo | hlo
      · rcases hhi with hhi | hhi
        · exact .inl (by rw [hlo, hhi])
        · exact .inr (by rw [hlo]; exact Nat.add_lt_add_left hhi _)
      · rcases hhi with hhi | hhi
        · exact .inr (by rw [hhi]; exact Nat.add_lt_add_right hlo _)
        · exact .inr (Nat.add_lt_add hlo hhi)

end Rank

section Chain

variable {b : ℕ → Interval}

theorem widenChain_hasExtendedBounds (ha : a.HasExtendedBounds) (hb : ∀ n, (b n).HasExtendedBounds)
    (n : ℕ) : (widenChain a b n).HasExtendedBounds := by
  induction n with
  | zero => exact ha
  | succ n ih => exact ih.widen (hb n) (.inr (.inl rfl)) (.inr (.inr rfl))

theorem same_self (ha : a.HasExtendedBounds) : a.same a := by
  have hbound {p : Option Number} (hp : ∀ x ∈ p, x.IsExtended) : sameBound p p := by
    cases p with
    | none => rfl
    | some x => exact (Number.same_iff_extended (hp x rfl) (hp x rfl)).2 rfl
  simp [same, hbound ha.lo, hbound ha.hi]

def changes (a : Interval) (b : ℕ → Interval) : Set ℕ :=
  {n | ¬ (widenChain a b (n + 1)).same (widenChain a b n)}

theorem encard_changes_le (ha : a.HasExtendedBounds) (hb : ∀ n, (b n).HasExtendedBounds) :
    (changes a b).encard ≤ 3 := by
  have hstep (n : ℕ) : widenChain a b (n + 1) = widenChain a b n ∨
      (widenChain a b (n + 1)).rank < (widenChain a b n).rank :=
    widen_eq_or_rank_lt (widenChain_hasExtendedBounds ha hb n) (hb n)
  have hanti : Antitone fun n => (widenChain a b n).rank := by
    apply antitone_nat_of_succ_le
    intro n
    rcases hstep n with heq | hlt
    · rw [heq]
    · exact hlt.le
  have hdrop : ∀ n ∈ changes a b, (widenChain a b (n + 1)).rank < (widenChain a b n).rank := by
    intro n hn
    rcases hstep n with heq | hlt
    · apply absurd _ hn
      rw [heq]
      exact same_self (widenChain_hasExtendedBounds ha hb n)
    · exact hlt
  have hstrict : StrictAntiOn (fun n => (widenChain a b n).rank) (changes a b) := by
    intro m hm n _ hlt
    exact (hanti hlt).trans_lt (hdrop m hm)
  have hmaps : Set.MapsTo (fun n => (widenChain a b n).rank) (changes a b) (Set.Icc 1 3) := by
    intro n hn
    exact ⟨(Nat.zero_le _).trans_lt (hdrop n hn), rank_le _⟩
  calc (changes a b).encard ≤ (Set.Icc 1 3 : Set ℕ).encard :=
        Set.encard_le_encard_of_injOn hmaps hstrict.injOn
    _ = 3 := by
        rw [← Finset.coe_Icc, Set.encard_coe_eq_coe_finsetCard]
        rfl

end Chain

theorem widenLo_below (hl : l.IsLower) (hl' : l'.IsLower) :
    ∃ lo, widenLo (some l) (some l') = some lo ∧ lo.IsLower ∧
      lo.extended ≤ l.extended ∧ lo.extended ≤ l'.extended := by
  by_cases hlt : l'.lt l
  · exact ⟨.negInf, if_pos hlt, .inr rfl, bot_le, bot_le⟩
  · have hle := not_lt.1 (mt (Number.lt_iff_extended hl'.isExtended hl.isExtended).2 hlt)
    exact ⟨l, if_neg hlt, hl, le_rfl, hle⟩

theorem widenHi_above (hh : h.IsUpper) (hh' : h'.IsUpper) :
    ∃ hi, widenHi (some h) (some h') = some hi ∧ hi.IsUpper ∧
      h.extended ≤ hi.extended ∧ h'.extended ≤ hi.extended := by
  by_cases hlt : h.lt h'
  · exact ⟨.posInf, if_pos hlt, .inr rfl, le_top, le_top⟩
  · have hle := not_lt.1 (mt (Number.lt_iff_extended hh.isExtended hh'.isExtended).2 hlt)
    exact ⟨h, if_neg hlt, hh, le_rfl, hle⟩

theorem subset_widen {b : Interval} (ha : a.IsProper) (hb : b.IsProper) :
    a.isSubset (a.widen b) ∧ b.isSubset (a.widen b) := by
  have hrefl {c : Interval} (hc : c.IsProper) : c.isSubset c := (isSubset_iff hc hc).2 le_rfl
  cases ha with
  | bottom => exact ⟨rfl, hrefl hb⟩
  | @between l h hl hh hle =>
    cases hb with
    | bottom => exact ⟨hrefl (.between hl hh hle), rfl⟩
    | @between l' h' hl' hh' hle' =>
      obtain ⟨lo, hlo, hlower, hlol, hlol'⟩ := widenLo_below hl hl'
      obtain ⟨hi, hhi, hupper, hhih, hhih'⟩ := widenHi_above hh hh'
      have hwiden : (between l h).widen (between l' h') = between lo hi := by
        change Interval.mk (widenLo (some l) (some l')) (widenHi (some h) (some h')) = _
        rw [hlo, hhi]
        rfl
      rw [hwiden, isSubset_between hl hh hlower hupper, isSubset_between hl' hh' hlower hupper]
      exact ⟨⟨hlol, hhih⟩, hlol', hhih'⟩

/-- Along every chain of widenings the interval changes at most three times. -/
theorem widening_settles :
    (∀ (a : Interval) (b : ℕ → Interval), a.HasExtendedBounds →
        (∀ n, (b n).HasExtendedBounds) → (changes a b).encard ≤ 3) ∧
      ∀ a b : Interval, a.IsProper → b.IsProper →
        a.isSubset (a.widen b) ∧ b.isSubset (a.widen b) :=
  ⟨fun _ _ => encard_changes_le, fun _ _ => subset_widen⟩

def growth : ℕ → Interval
  | 0 => ofInts (some 0) (some 0)
  | 1 => ofInts (some (-1)) (some 0)
  | _ => ofInts (some 0) (some 1)

/-- From bottom on, the three changes that there can be all come. -/
theorem growth_settles :
    {0, 1, 2} ⊆ changes bottom growth ∧ (changes bottom growth).encard ≤ 3 ∧
      (growth 0).isSubset ((growth 0).widen (growth 1)) ∧
      (growth 1).isSubset ((growth 0).widen (growth 1)) := by
  have hbounds (lo hi : Int) : (ofInts (some lo) (some hi)).HasExtendedBounds :=
    within_between (.inl rfl) (.inl rfl)
  have hgrowth (n : ℕ) : (growth n).HasExtendedBounds := by
    unfold growth
    split
    · exact hbounds 0 0
    · exact hbounds (-1) 0
    · exact hbounds 0 1
  refine ⟨?_, widening_settles.1 bottom growth within_bottom hgrowth,
    widening_settles.2 (growth 0) (growth 1) (.between (.inl rfl) (.inl rfl) rfl)
      (.between (.inl rfl) (.inl rfl) rfl)⟩
  rintro n (rfl | rfl | rfl)
  all_goals
    show ¬ _
    decide

end Interval

end RangeAudit
