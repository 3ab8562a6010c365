import Mathlib.Data.List.Nodup
import Mathlib.Data.List.Perm.Basic
/-! Lists in which things are kept under numbers that are given to each of them in turn. -/
namespace Rfcomm.Memory

variable {α : Type} {ps : List (Nat × α)} {p : Nat × α} {n : Nat}

theorem nodup_snoc (h : (ps.map (·.1)).Nodup) (hlt : ∀ q ∈ ps, q.1 < n) (x : α) :
    ((ps ++ [(n, x)]).map (·.1)).Nodup := by
  rw [List.map_append, List.nodup_append']
  refine ⟨h, by simp, ?_⟩
  rw [List.map_singleton, List.disjoint_singleton]
  intro hm
  obtain ⟨q, hq, he⟩ := List.mem_map.mp hm
  exact Nat.lt_irrefl _ (he ▸ hlt q hq)

theorem lt_snoc (hlt : ∀ q ∈ ps, q.1 < n) (x : α) : ∀ q ∈ ps ++ [(n, x)], q.1 < n + 1 := by
  intro q hq
  rcases List.mem_append.mp hq with hq | hq
  · exact Nat.lt_succ_of_lt (hlt q hq)
  · obtain rfl := List.mem_singleton.mp hq
    exact Nat.lt_succ_self _

theorem filter_of_not_mem (h : n ∉ ps.map (·.1)) : ps.filter (·.1 ≠ n) = ps := by
  rw [List.filter_eq_self]
  intro q hq
  rw [decide_eq_true_eq]
  rintro rfl
  exact h (List.mem_map_of_mem hq)

/-- Where numbers are given once, only the thing itself goes with its number. -/
theorem perm_cons_filter (hn : (ps.map (·.1)).Nodup) (hp : p ∈ ps) :
    ps.Perm (p :: ps.filter (·.1 ≠ p.1)) := by
  induction ps with
  | nil => cases hp
  | cons q ps ih =>
    obtain ⟨hq, hn⟩ := List.nodup_cons.mp hn
    rcases List.mem_cons.mp hp with rfl | hp
    · rw [List.filter_cons_of_neg (by simp), filter_of_not_mem hq]
    · have hne : q.1 ≠ p.1 := fun he => hq (List.mem_map.mpr ⟨p, hp, he.symm⟩)
      rw [List.filter_cons_of_pos (by simpa using hne)]
      exact ((ih hn hp).cons q).trans (.swap p q _)

end Rfcomm.Memory
