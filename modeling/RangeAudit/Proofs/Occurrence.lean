import Mathlib.Algebra.BigOperators.Group.List.Lemmas
import Mathlib.Algebra.GroupWithZero.Nat
import Mathlib.Data.List.Induction

namespace RangeAudit

variable {α : Type} [DecidableEq α]

theorem eraseDups_concat (l : List α) (a : α) :
    (l ++ [a]).eraseDups = if a ∈ l then l.eraseDups else l.eraseDups ++ [a] := by
  rw [List.eraseDups_append, List.removeAll]
  split
  · rename_i h
    rw [List.filter_cons_of_neg (by simpa using h), List.filter_nil, List.eraseDups_nil,
      List.append_nil]
  · rename_i h
    rw [List.filter_cons_of_pos (by simpa using h), List.filter_nil, List.eraseDups_cons]
    rfl

theorem nodup_eraseDups (l : List α) : l.eraseDups.Nodup := by
  induction l using List.reverseRecOn with
  | nil => exact List.nodup_nil
  | append_singleton l a ih =>
    rw [eraseDups_concat]
    split
    · exact ih
    · rename_i h
      exact List.nodup_append'.2 ⟨ih, List.nodup_singleton a, by simpa using h⟩

/-- How often each item occurs, in the order of the first occurrences. -/
def multiplicities (l : List α) : List (α × Nat) :=
  l.eraseDups.map fun a => (a, l.count a)

theorem multiplicities_concat (l : List α) (a : α) :
    multiplicities (l ++ [a]) =
      if a ∈ l then l.eraseDups.map fun b => (b, if b = a then l.count b + 1 else l.count b)
      else multiplicities l ++ [(a, 1)] := by
  have hself : (l ++ [a]).count a = l.count a + 1 := by
    rw [List.count_append, List.count_singleton_self]
  have hother : ∀ b, b ≠ a → (l ++ [a]).count b = l.count b := by
    intro b hb
    rw [List.count_append, List.count_singleton, if_neg (by simpa using hb.symm), Nat.add_zero]
  rw [multiplicities, eraseDups_concat]
  split
  · refine List.map_congr_left fun b _ => ?_
    split
    · rename_i hb
      rw [hb, hself]
    · rename_i hb
      rw [hother b hb]
  · rename_i ha
    have hl : ∀ b ∈ l.eraseDups, b ≠ a := fun b hb h => ha (h ▸ List.mem_eraseDups.1 hb)
    rw [List.map_append, List.map_singleton, hself, List.count_eq_zero.2 ha]
    congr 1
    exact List.map_congr_left fun b hb => by rw [hother b (hl b hb)]

theorem sum_multiplicities (l : List α) : ((multiplicities l).map (·.2)).sum = l.length := by
  have hperm : l.eraseDups.Perm l.dedup :=
    (List.perm_ext_iff_of_nodup (nodup_eraseDups l) l.nodup_dedup).2 fun a => by
      rw [List.mem_eraseDups, List.mem_dedup]
  rw [multiplicities, List.map_map, ← List.sum_map_count_dedup_eq_length l]
  exact (hperm.map _).sum_eq

end RangeAudit
