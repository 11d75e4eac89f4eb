import RangeAudit.Proofs.HalfBounded

open RangeAudit.Interval (between ofInts bottom)
open Set (Icc)

namespace RangeAudit

variable {lo hi lo' hi' : Option Int} {a b x : Int} {p : Place} {upper : Bool}

namespace Interval

theorem meet_ofInts (h : ¬ (lo = none ∧ hi = none)) (h' : ¬ (lo' = none ∧ hi' = none)) :
    (ofInts lo hi).meet (ofInts lo' hi') =
      if (ofInts (Option.map₂ max lo lo') (Option.map₂ min hi hi')).isCrossed then bottom
      else ofInts (Option.map₂ max lo lo') (Option.map₂ min hi hi') := by
  have hbottom : ¬ ((ofInts lo hi).isBottom || (ofInts lo' hi').isBottom) := by
    simp only [Bool.or_eq_true, isBottom_ofInts, not_or]
    exact ⟨h, h'⟩
  rw [meet, if_neg hbottom, isTop_ofInts, isTop_ofInts, if_neg Bool.false_ne_true,
    if_neg Bool.false_ne_true]
  simp only [ofInts, both_least_ints, both_greatest_ints]
  rfl

theorem eq_of_same_ofInts (h : (ofInts lo hi).same (ofInts lo' hi')) :
    ofInts lo hi = ofInts lo' hi' := by
  have hbound {p q : Option Int} (h : sameBound (p.map .int) (q.map .int)) : p = q := by
    cases p with
    | none =>
      cases q with
      | none => rfl
      | some n => cases h
    | some m =>
      cases q with
      | none => cases h
      | some n => simpa [sameBound] using h
  simp only [same, isTop_ofInts, Bool.and_self, Bool.or_false, Bool.or_eq_true, Bool.and_eq_true,
    isBottom_ofInts] at h
  rcases h with ⟨⟨rfl, rfl⟩, rfl, rfl⟩ | ⟨hlo, hhi⟩
  · rfl
  · rw [hbound hlo, hbound hhi]

end Interval

/-- A comparison of a place with an integer constant, other than that they differ. -/
structure Test where
  comparison : Comparison
  constant : Literal
  limit : Int
  comparison_ne : comparison ≠ .ne
  threshold : constant.threshold? = some (.int limit)

namespace Test

variable {tests : List Test} {s : State}

def condition (t : Test) (p : Place) : Expression :=
  .binary (.compare t.comparison) (.place p) (.literal t.constant)

def passes (t : Test) (x : Int) : Bool :=
  t.comparison.holds x t.limit

def refine (i : Interval) (t : Test) : Interval :=
  t.comparison.refineBy i (.int t.limit)

theorem refine_bottom (t : Test) : refine bottom t = bottom := by
  unfold refine
  cases h : t.comparison with
  | lt | le | gt | ge | eq => rfl
  | ne => exact absurd h t.comparison_ne

theorem refine_ofInts (t : Test) (lo hi : Option Int) (h : ¬ (lo = none ∧ hi = none)) :
    (t.comparison.keeps true ∧ ¬ t.comparison.keeps false ∧
        ∃ n, refine (ofInts lo hi) t = ofInts none (hi.map (min · n))) ∨
      (t.comparison.keeps false ∧ ¬ t.comparison.keeps true ∧
        ∃ n, refine (ofInts lo hi) t = ofInts (lo.map (max · n)) none) ∨
      (t.comparison = .eq ∧
        refine (ofInts lo hi) t = (ofInts lo hi).meet (ofInts (some t.limit) (some t.limit))) := by
  have hatMost (n : Int) :
      (ofInts lo hi).meet (ofInts none (some n)) = ofInts none (hi.map (min · n)) := by
    rw [Interval.meet_ofInts h (by simp)]
    simp [Interval.isCrossed, ofInts]
  have hatLeast (n : Int) :
      (ofInts lo hi).meet (ofInts (some n) none) = ofInts (lo.map (max · n)) none := by
    rw [Interval.meet_ofInts h (by simp)]
    simp [Interval.isCrossed, ofInts]
  unfold refine
  cases hc : t.comparison with
  | lt => exact .inl ⟨rfl, by decide, _, hatMost (t.limit - 1)⟩
  | le => exact .inl ⟨rfl, by decide, _, hatMost t.limit⟩
  | gt => exact .inr (.inl ⟨rfl, by decide, _, hatLeast (t.limit + 1)⟩)
  | ge => exact .inr (.inl ⟨rfl, by decide, _, hatLeast t.limit⟩)
  | eq => exact .inr (.inr ⟨rfl, rfl⟩)
  | ne => exact absurd hc t.comparison_ne

theorem exists_refine_ofInts (t : Test) (lo hi : Option Int) :
    ∃ lo' hi', refine (ofInts lo hi) t = ofInts lo' hi' := by
  by_cases h : lo = none ∧ hi = none
  · obtain ⟨rfl, rfl⟩ := h
    exact ⟨none, none, refine_bottom t⟩
  rcases refine_ofInts t lo hi h with ⟨-, -, n, hn⟩ | ⟨-, -, n, hn⟩ | ⟨-, heq⟩
  · exact ⟨_, _, hn⟩
  · exact ⟨_, _, hn⟩
  · rw [heq, Interval.meet_ofInts h (by simp)]
    split
    · exact ⟨none, none, rfl⟩
    · exact ⟨_, _, rfl⟩

def half (upper : Bool) (n : Int) : Interval :=
  if upper then ofInts none (some n) else ofInts (some n) none

/-- Of an interval with one bound, a test leaves one with a bound on the same side, or nothing. -/
theorem refine_half (t : Test) (upper : Bool) (n : Int) :
    (t.comparison.keeps upper → ∃ m, refine (half upper n) t = half upper m) ∧
      (¬ t.comparison.keeps upper → refine (half upper n) t = bottom) := by
  cases upper with
  | false =>
    rcases refine_ofInts t (some n) none (by simp) with
      ⟨-, hkeeps, m, hm⟩ | ⟨hkeeps, -, m, hm⟩ | ⟨hc, heq⟩
    · exact ⟨fun h => absurd h hkeeps, fun _ => hm⟩
    · exact ⟨fun _ => ⟨_, hm⟩, fun h => absurd hkeeps h⟩
    · refine ⟨fun _ => ⟨max n t.limit, ?_⟩, fun h => absurd (by rw [hc]; rfl) h⟩
      exact heq.trans (Interval.meet_ofInts (by simp) (by simp))
  | true =>
    rcases refine_ofInts t none (some n) (by simp) with
      ⟨hkeeps, -, m, hm⟩ | ⟨-, hkeeps, m, hm⟩ | ⟨hc, heq⟩
    · exact ⟨fun _ => ⟨_, hm⟩, fun h => absurd hkeeps h⟩
    · exact ⟨fun h => absurd h hkeeps, fun _ => hm⟩
    · refine ⟨fun _ => ⟨min n t.limit, ?_⟩, fun h => absurd (by rw [hc]; rfl) h⟩
      exact heq.trans (Interval.meet_ofInts (by simp) (by simp))

theorem refine_between (t : Test) (h : a ≤ b) :
    (∃ upper n, t.comparison.keeps upper ∧ ¬ t.comparison.keeps (!upper) ∧
        refine (ofInts (some a) (some b)) t = half upper n) ∨
      (t.comparison = .eq ∧ refine (ofInts (some a) (some b)) t =
        if t.limit ∈ Icc a b then ofInts (some t.limit) (some t.limit) else bottom) := by
  rcases refine_ofInts t (some a) (some b) (by simp) with
    ⟨hkeeps, hgives, n, hn⟩ | ⟨hkeeps, hgives, n, hn⟩ | ⟨hc, heq⟩
  · exact .inl ⟨true, _, hkeeps, hgives, hn⟩
  · exact .inl ⟨false, _, hkeeps, hgives, hn⟩
  · refine .inr ⟨hc, ?_⟩
    have hcrossed : (ofInts (some (max a t.limit)) (some (min b t.limit))).isCrossed ↔
        t.limit ∉ Icc a b := by
      simp only [Interval.isCrossed, ofInts, Option.map_some, Number.lt_int, decide_eq_true_eq,
        Set.mem_Icc]
      omega
    rw [heq, Interval.meet_ofInts (by simp) (by simp), Option.map₂_some_some,
      Option.map₂_some_some]
    split
    · rename_i hout
      rw [if_neg (hcrossed.1 hout)]
    · rename_i hin
      obtain ⟨hle, hle'⟩ := not_not.1 (mt hcrossed.2 hin)
      rw [if_pos ⟨hle, hle'⟩, max_eq_right hle, min_eq_right hle']

theorem foldl_refine_bottom (tests : List Test) : tests.foldl refine bottom = bottom := by
  induction tests with
  | nil => rfl
  | cons t tests ih => rw [List.foldl_cons, refine_bottom, ih]

theorem foldl_refine_half (upper : Bool) (n : Int) (tests : List Test) :
    (tests.foldl refine (half upper n)).isBottom ↔ ∃ t ∈ tests, ¬ t.comparison.keeps upper := by
  induction tests generalizing n with
  | nil =>
    cases upper with
    | false | true => simp [half, Interval.isBottom_ofInts]
  | cons t tests ih =>
    rw [List.foldl_cons, List.exists_mem_cons_iff]
    by_cases hkeeps : t.comparison.keeps upper
    · obtain ⟨m, hm⟩ := (refine_half t upper n).1 hkeeps
      rw [hm, ih m, or_iff_right (not_not.2 hkeeps)]
    · rw [(refine_half t upper n).2 hkeeps, foldl_refine_bottom]
      exact iff_of_true rfl (.inl hkeeps)

/-- Bottom is reached by inequalities from both sides, or by equalities before the first one. -/
theorem foldl_refine_between (h : a ≤ b) (tests : List Test) :
    (tests.foldl refine (ofInts (some a) (some b))).isBottom ↔
      (∀ upper, ∃ t ∈ tests, ¬ t.comparison.keeps upper) ∨
        ∀ x ∈ Icc a b, ∃ t ∈ tests.takeWhile (·.comparison == .eq), ¬ t.passes x := by
  induction tests generalizing a b with
  | nil => simpa [Interval.isBottom_ofInts] using ⟨a, le_rfl, h⟩
  | cons t tests ih =>
    simp only [List.foldl_cons, List.exists_mem_cons_iff]
    rcases refine_between t h with ⟨upper, n, hkeeps, hgives, hn⟩ | ⟨hc, heq⟩
    · have hne : t.comparison ≠ .eq := by
        intro heq
        exact hgives (by rw [heq]; rfl)
      have hfirst : ¬ ∀ x ∈ Icc a b,
          ∃ u ∈ (t :: tests).takeWhile (·.comparison == .eq), ¬ u.passes x := by
        intro hfails
        obtain ⟨u, hu, -⟩ := hfails a ⟨le_rfl, h⟩
        rw [List.takeWhile_cons_of_neg (by simpa using hne)] at hu
        cases hu
      rw [hn, foldl_refine_half, or_iff_left hfirst]
      constructor
      · intro hlater upper'
        by_cases hside : upper' = upper
        · rw [hside]
          exact .inr hlater
        · rw [Bool.eq_not_of_ne hside]
          exact .inl hgives
      · intro hboth
        exact (hboth upper).resolve_left (not_not.2 hkeeps)
    · have hkeeps (upper : Bool) : t.comparison.keeps upper := by
        rw [hc]
        rfl
      have hpasses (x : Int) : t.passes x ↔ x = t.limit := by
        simp [passes, hc, Comparison.holds]
      rw [List.takeWhile_cons_of_pos (by simp [hc]), heq]
      simp only [List.exists_mem_cons_iff, hkeeps, not_true_eq_false, false_or, hpasses]
      split
      · rename_i hin
        rw [ih le_rfl]
        refine or_congr_right ⟨fun hfails x _ => ?_, fun hfails x hx => ?_⟩
        · by_cases hx : x = t.limit
          · exact .inr (hfails x (by simp [hx]))
          · exact .inl hx
        · obtain rfl : x = t.limit := by simpa using hx
          exact (hfails _ hin).resolve_left (not_not.2 rfl)
      · rename_i hout
        rw [foldl_refine_bottom]
        refine iff_of_true rfl (.inr fun x hx => .inl ?_)
        rintro rfl
        exact hout hx

theorem foldl_refine_retains {i : Interval} (hi : i.Retains upper x)
    (hkeeps : ∀ t ∈ tests, t.comparison.keeps upper) (hpasses : ∀ t ∈ tests, t.passes x) :
    (tests.foldl refine i).Retains upper x := by
  induction tests generalizing i with
  | nil => exact hi
  | cons t tests ih =>
    obtain ⟨hkeep, hkeeps⟩ := List.forall_mem_cons.1 hkeeps
    obtain ⟨hpass, hpasses⟩ := List.forall_mem_cons.1 hpasses
    have hholds : t.comparison.passes x t.limit := Bool.or_eq_true_iff.2 (.inr hpass)
    exact ih (Comparison.refineBy_retains hi rfl hkeep hholds) hkeeps hpasses

theorem get?_assume (t : Test) (h : s.ranges.get? p = some (ofInts lo hi)) :
    ∃ u, (t.condition p).assume s = .ok () u ∧
      u.ranges.get? p = some (refine (ofInts lo hi) t) := by
  refine ⟨_, rfl, ?_⟩
  simp only [Ranges.refine, t.threshold, Option.elim_some, Ranges.refineByNumber, h]
  split
  · rename_i hsame
    obtain ⟨lo', hi', heq⟩ := exists_refine_ofInts t lo hi
    change (refine (ofInts lo hi) t).same _ at hsame
    rw [heq] at hsame
    rw [h, heq, Interval.eq_of_same_ofInts hsame]
  · exact Ranges.get?_set_self _ p _

theorem get?_forM_assume (tests : List Test) (h : s.ranges.get? p = some (ofInts lo hi)) :
    ∃ u, tests.forM (fun t => (t.condition p).assume) s = .ok () u ∧
      u.ranges.get? p = some (tests.foldl refine (ofInts lo hi)) := by
  induction tests generalizing s lo hi with
  | nil => exact ⟨s, rfl, h⟩
  | cons t tests ih =>
    obtain ⟨u, hu, hget⟩ := get?_assume t h
    obtain ⟨lo', hi', heq⟩ := exists_refine_ofInts t lo hi
    rw [heq] at hget
    obtain ⟨v, hv, hend⟩ := ih hget
    refine ⟨v, ?_, ?_⟩
    · rw [Analysis.forM_cons, Analysis.bind_eq_ok]
      exact ⟨(), u, hu, hv⟩
    · rw [hend, List.foldl_cons, heq]

/-- Tests leave bottom on inequalities from both sides, or on equalities that no value passes. -/
theorem assume_isBottom_iff (h : a ≤ b)
    (hs : s.ranges.get? p = some (between (.int a) (.int b))) (tests : List Test) :
    ∃ u i, tests.forM (fun t => (t.condition p).assume) s = .ok () u ∧
      u.ranges.get? p = some i ∧
      (i.isBottom ↔ (∀ upper, ∃ t ∈ tests, ¬ t.comparison.keeps upper) ∨
        ∀ x ∈ Icc a b, ∃ t ∈ tests.takeWhile (·.comparison == .eq), ¬ t.passes x) ∧
      ∀ upper, (∀ t ∈ tests, t.comparison.keeps upper) →
        ∀ x ∈ Icc a b, (∀ t ∈ tests, t.passes x) → i.contains x := by
  obtain ⟨u, hu, hget⟩ := @get?_forM_assume (some a) (some b) p s tests hs
  refine ⟨u, _, hu, hget, foldl_refine_between h tests, fun upper hkeeps x hx hpasses => ?_⟩
  have hretains : (between (.int a) (.int b)).Retains upper x :=
    .between (Number.isBelow_of_toInt? rfl hx.1) (Number.isAbove_of_toInt? rfl hx.2)
  exact (foldl_refine_retains hretains hkeeps hpasses).contains

def ofInt (c : Comparison) (n : Int) (hc : c ≠ .ne) : Test :=
  ⟨c, .int n, n, hc, rfl⟩

/-- A place between zero and ten. -/
def upToTen : State :=
  .ofEntries [(.named "x", between 0 10)]

theorem upToTen_keeps_solution :
    ∃ u i, [ofInt .ge 2 (by decide), ofInt .eq 7 (by decide), ofInt .gt 3 (by decide)].forM
        (fun t => (t.condition (.named "x")).assume) upToTen = .ok () u ∧
      u.ranges.get? (.named "x") = some i ∧ i.isBottom = false ∧ i.contains 7 := by
  obtain ⟨u, i, hu, hget, -, hkeeps⟩ := assume_isBottom_iff (a := 0) (b := 10) (by decide)
    (show upToTen.ranges.get? (.named "x") = some (between 0 10) by decide)
    [ofInt .ge 2 (by decide), ofInt .eq 7 (by decide), ofInt .gt 3 (by decide)]
  have hseven : i.contains 7 := hkeeps false (by decide) 7 (by decide) (by decide)
  exact ⟨u, i, hu, hget, (Interval.contains_iff.1 hseven).1, hseven⟩

/-- Three is below five and above two, but nothing is left once both have been tested. -/
theorem upToTen_loses_solution :
    (∃ u, [ofInt .lt 5 (by decide), ofInt .gt 2 (by decide)].forM
        (fun t => (t.condition (.named "x")).assume) upToTen = .ok () u ∧
      u.ranges.get? (.named "x") = some bottom) ∧
    upToTen.ranges.get? (.named "x") = some (between 0 10) ∧ (between 0 10).contains 3 ∧
      ∀ t ∈ [ofInt .lt 5 (by decide), ofInt .gt 2 (by decide)], t.passes 3 := by
  exact ⟨⟨_, rfl, by decide⟩, by decide, by decide, by decide⟩

end Test

end RangeAudit
