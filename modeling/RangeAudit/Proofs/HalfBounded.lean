import RangeAudit.Proofs.Parameter

namespace RangeAudit

variable {x : Int} {lo hi lo' hi' : Option Int}

namespace Interval

def ofInts (lo hi : Option Int) : Interval :=
  ⟨lo.map .int, hi.map .int⟩

theorem isBottom_ofInts : (ofInts lo hi).isBottom ↔ lo = none ∧ hi = none := by
  simp [isBottom, ofInts]

theorem isTop_ofInts (lo hi : Option Int) : (ofInts lo hi).isTop = false := by
  cases lo with
  | none => rfl
  | some m => simp [isTop, ofInts, boundIs, Number.same_negInf]

theorem contains_ofInts : (ofInts lo hi).contains x ↔
    ¬ (lo = none ∧ hi = none) ∧ (∀ m ∈ lo, m ≤ x) ∧ ∀ n ∈ hi, x ≤ n := by
  rw [contains_iff, ← isBottom_ofInts, Bool.not_eq_true]
  simp [ofInts]

theorem both_least_ints (p q : Option Int) :
    both .least (p.map .int) (q.map .int) = (Option.map₂ min p q).map .int := by
  cases p with
  | none => rfl
  | some m =>
    cases q with
    | none => rfl
    | some n => exact congrArg some (Number.least_int m n)

theorem both_greatest_ints (p q : Option Int) :
    both .greatest (p.map .int) (q.map .int) = (Option.map₂ max p q).map .int := by
  cases p with
  | none => rfl
  | some m =>
    cases q with
    | none => rfl
    | some n => exact congrArg some (Number.greatest_int m n)

theorem join_ofInts (h : ¬ (lo = none ∧ hi = none)) (h' : ¬ (lo' = none ∧ hi' = none)) :
    (ofInts lo hi).join (ofInts lo' hi') =
      ofInts (Option.map₂ min lo lo') (Option.map₂ max hi hi') := by
  rw [join, if_neg (mt isBottom_ofInts.1 h), if_neg (mt isBottom_ofInts.1 h'), isTop_ofInts,
    isTop_ofInts, if_neg (by decide)]
  simp only [ofInts, both_least_ints, both_greatest_ints]

/-- Every value of either interval lies in this one. -/
def Covers (i a b : Interval) : Prop :=
  ∀ x, a.contains x ∨ b.contains x → i.contains x

theorem join_covers (h : ¬ (lo = none ∧ hi = none)) (h' : ¬ (lo' = none ∧ hi' = none))
    (hlo : ¬ (lo = none ∧ hi' = none)) (hhi : ¬ (hi = none ∧ lo' = none)) :
    ((ofInts lo hi).join (ofInts lo' hi')).Covers (ofInts lo hi) (ofInts lo' hi') := by
  intro x hx
  rw [contains_ofInts, contains_ofInts] at hx
  rw [join_ofInts h h', contains_ofInts]
  constructor
  · rw [Option.map₂_eq_none_iff, Option.map₂_eq_none_iff]
    tauto
  constructor
  · intro m hm
    obtain ⟨l, l', hl, hl', rfl⟩ := Option.mem_map₂_iff.1 hm
    rcases hx with ⟨-, hx, -⟩ | ⟨-, hx, -⟩
    · exact min_le_of_left_le (hx l hl)
    · exact min_le_of_right_le (hx l' hl')
  · intro n hn
    obtain ⟨u, u', hu, hu', rfl⟩ := Option.mem_map₂_iff.1 hn
    rcases hx with ⟨-, -, hx⟩ | ⟨-, -, hx⟩
    · exact le_max_of_le_left (hx u hu)
    · exact le_max_of_le_right (hx u' hu')

theorem join_covers_iff (h : ¬ (lo = none ∧ hi = none)) (h' : ¬ (lo' = none ∧ hi' = none)) :
    ((ofInts lo hi).join (ofInts lo' hi')).Covers (ofInts lo hi) (ofInts lo' hi') ↔
      ¬ (lo = none ∧ hi' = none) ∧ ¬ (hi = none ∧ lo' = none) := by
  constructor
  · intro hcovers
    rw [join_ofInts h h'] at hcovers
    constructor
    · rintro ⟨rfl, rfl⟩
      obtain ⟨n, rfl⟩ := Option.ne_none_iff_exists'.1 fun hn => h ⟨rfl, hn⟩
      have hn : (ofInts none (some n)).contains n := by simp [contains_ofInts]
      exact (contains_ofInts.1 (hcovers n (.inl hn))).1 ⟨rfl, rfl⟩
    · rintro ⟨rfl, rfl⟩
      obtain ⟨m, rfl⟩ := Option.ne_none_iff_exists'.1 fun hm => h ⟨hm, rfl⟩
      have hm : (ofInts (some m) none).contains m := by simp [contains_ofInts]
      exact (contains_ofInts.1 (hcovers m (.inl hm))).1 ⟨rfl, rfl⟩
  · rintro ⟨hlo, hhi⟩
    exact join_covers h h' hlo hhi

theorem le_widenLo_iff : (∀ y ∈ widenLo (lo.map .int) (lo'.map .int), y.le (.int x)) ↔
    ∀ m ∈ lo, (∃ m' ∈ lo', m' < m) ∨ m ≤ x := by
  cases lo with
  | none => simp [widenLo]
  | some m =>
    cases lo' with
    | none => simp [widenLo]
    | some m' =>
      have hneg : Number.negInf.le (.int x) := rfl
      by_cases hlt : m' < m
      · simp [widenLo, hlt, hneg]
      · simp [widenLo, hlt]

theorem widenHi_le_iff : (∀ y ∈ widenHi (hi.map .int) (hi'.map .int), Number.le (.int x) y) ↔
    ∀ n ∈ hi, (∃ n' ∈ hi', n < n') ∨ x ≤ n := by
  cases hi with
  | none => simp [widenHi]
  | some n =>
    cases hi' with
    | none => simp [widenHi]
    | some n' =>
      have hpos : Number.le (.int x) .posInf := rfl
      by_cases hlt : n < n'
      · simp [widenHi, hlt, hpos]
      · simp [widenHi, hlt]

theorem isBottom_widen {a : Interval} (h : a.isBottom = false) (b : Interval) :
    (a.widen b).isBottom = false := by
  rw [widen, h, if_neg Bool.false_ne_true]
  split
  · exact h
  · simp only [isBottom, Bool.and_eq_false_iff, Option.isNone_eq_false_iff] at h ⊢
    exact h.imp (isSome_widenLo · b.lo) (isSome_widenHi · b.hi)

theorem contains_widen_ofInts (h : ¬ (lo = none ∧ hi = none)) (h' : ¬ (lo' = none ∧ hi' = none)) :
    ((ofInts lo hi).widen (ofInts lo' hi')).contains x ↔
      (∀ m ∈ lo, (∃ m' ∈ lo', m' < m) ∨ m ≤ x) ∧ ∀ n ∈ hi, (∃ n' ∈ hi', n < n') ∨ x ≤ n := by
  have hbottom : ((ofInts lo hi).widen (ofInts lo' hi')).isBottom = false :=
    isBottom_widen (Bool.eq_false_iff.2 (mt isBottom_ofInts.1 h)) _
  rw [contains_iff, hbottom, ← le_widenLo_iff, ← widenHi_le_iff, widen,
    if_neg (mt isBottom_ofInts.1 h), if_neg (mt isBottom_ofInts.1 h')]
  simp [ofInts]

theorem widen_covers_iff (h : ¬ (lo = none ∧ hi = none)) (h' : ¬ (lo' = none ∧ hi' = none)) :
    ((ofInts lo hi).widen (ofInts lo' hi')).Covers (ofInts lo hi) (ofInts lo' hi') ↔
      (lo' = none → lo = none) ∧ (hi' = none → hi = none) := by
  constructor
  · intro hcovers
    constructor
    · rintro rfl
      obtain ⟨n, rfl⟩ := Option.ne_none_iff_exists'.1 fun hn => h' ⟨rfl, hn⟩
      apply Option.eq_none_iff_forall_not_mem.2
      intro m hm
      have hmem : (ofInts none (some n)).contains (min n (m - 1)) := by simp [contains_ofInts]
      have hwiden := ((contains_widen_ofInts h h').1 (hcovers _ (.inr hmem))).1 m hm
      simp at hwiden
    · rintro rfl
      obtain ⟨m, rfl⟩ := Option.ne_none_iff_exists'.1 fun hm => h' ⟨hm, rfl⟩
      apply Option.eq_none_iff_forall_not_mem.2
      intro n hn
      have hmem : (ofInts (some m) none).contains (max m (n + 1)) := by simp [contains_ofInts]
      have hwiden := ((contains_widen_ofInts h h').1 (hcovers _ (.inr hmem))).2 n hn
      simp at hwiden
  · rintro ⟨hlo, hhi⟩ x hx
    rw [contains_ofInts, contains_ofInts] at hx
    rw [contains_widen_ofInts h h']
    constructor
    · intro m hm
      rcases hx with ⟨-, hx, -⟩ | ⟨-, hx, -⟩
      · exact .inr (hx m hm)
      · obtain ⟨m', hm'⟩ := Option.ne_none_iff_exists'.1 fun hn => by simp [hlo hn] at hm
        rcases lt_or_ge m' m with hlt | hle
        · exact .inl ⟨m', hm', hlt⟩
        · exact .inr (hle.trans (hx m' hm'))
    · intro n hn
      rcases hx with ⟨-, -, hx⟩ | ⟨-, -, hx⟩
      · exact .inr (hx n hn)
      · obtain ⟨n', hn'⟩ := Option.ne_none_iff_exists'.1 fun hn' => by simp [hhi hn'] at hn
        rcases lt_or_ge n n' with hlt | hle
        · exact .inl ⟨n', hn', hlt⟩
        · exact .inr ((hx n' hn').trans hle)

/-- The join has all values unless one interval is open below and the other one above. -/
theorem join_widen_cover_iff (h : (ofInts lo hi).isBottom = false)
    (h' : (ofInts lo' hi').isBottom = false) :
    (((ofInts lo hi).join (ofInts lo' hi')).Covers (ofInts lo hi) (ofInts lo' hi') ↔
        ¬ (lo = none ∧ hi' = none) ∧ ¬ (hi = none ∧ lo' = none)) ∧
      (((ofInts lo hi).widen (ofInts lo' hi')).Covers (ofInts lo hi) (ofInts lo' hi') ↔
        (lo' = none → lo = none) ∧ (hi' = none → hi = none)) := by
  have hbounds := mt isBottom_ofInts.2 (Bool.eq_false_iff.1 h)
  have hbounds' := mt isBottom_ofInts.2 (Bool.eq_false_iff.1 h')
  exact ⟨join_covers_iff hbounds hbounds', widen_covers_iff hbounds hbounds'⟩

theorem join_widen_cover_closed :
    ((ofInts none (some 5)).join (ofInts (some 3) (some 9))).Covers
        (ofInts none (some 5)) (ofInts (some 3) (some 9)) ∧
      ((ofInts none (some 5)).widen (ofInts (some 3) (some 9))).Covers
        (ofInts none (some 5)) (ofInts (some 3) (some 9)) := by
  obtain ⟨hjoin, hwiden⟩ := join_widen_cover_iff
    (show (ofInts none (some 5)).isBottom = false from rfl)
    (show (ofInts (some 3) (some 9)).isBottom = false from rfl)
  exact ⟨hjoin.2 (by decide), hwiden.2 (by decide)⟩

/-- The values up to five and those from three on are lost by joining. -/
theorem join_widen_lose_values :
    (ofInts none (some 5)).isBottom = false ∧ (ofInts (some 3) none).isBottom = false ∧
      ¬ ((ofInts none (some 5)).join (ofInts (some 3) none)).Covers
        (ofInts none (some 5)) (ofInts (some 3) none) ∧
      ¬ ((ofInts none (some 5)).widen (ofInts (some 3) none)).Covers
        (ofInts none (some 5)) (ofInts (some 3) none) := by
  refine ⟨rfl, rfl, fun h => ?_, fun h => ?_⟩
  · exact absurd (h 4 (by decide)) (by decide)
  · exact absurd (h 6 (by decide)) (by decide)

end Interval

end RangeAudit
