import Mathlib.Data.List.Nodup
import Mathlib.Logic.Function.Basic
/-!
Tables of tasks. Each task has a number of its own, so a table is a function from numbers to what the
task with that number is at.
-/
namespace Rfcomm.Tasks

variable {τ σ : Type} {num : τ → Nat} {stage : τ → σ} {ts : List τ} {n m next : Nat}

/-- What the task with a number is at. -/
def stageOf (num : τ → Nat) (stage : τ → σ) (ts : List τ) (n : Nat) : Option σ :=
  (ts.find? (num · = n)).map stage

/-- The numbers in a table differ, and are below the next one. -/
structure Tidy (num : τ → Nat) (ts : List τ) (next : Nat) : Prop where
  nodup : (ts.map num).Nodup
  lt : ∀ t ∈ ts, num t < next

theorem stageOf_eq_some (h : (ts.map num).Nodup) {x : σ} :
    stageOf num stage ts n = some x ↔ ∃ t ∈ ts, num t = n ∧ stage t = x := by
  induction ts with
  | nil => simp [stageOf]
  | cons t ts ih =>
      obtain ⟨hn, ht⟩ := List.nodup_cons.mp h
      by_cases he : num t = n
      · have : ∀ u ∈ ts, num u ≠ n := by
          intro u hu hun
          exact hn (List.mem_map.mpr ⟨u, hu, hun.trans he.symm⟩)
        constructor
        · intro hs
          exact ⟨t, by simp, he, by simpa [stageOf, he] using hs⟩
        · rintro ⟨u, hu, hun, hs⟩
          rcases List.mem_cons.mp hu with rfl | hu
          · simp [stageOf, he, hs]
          · exact absurd hun (this u hu)
      · have hs : stageOf num stage (t :: ts) n = stageOf num stage ts n := by simp [stageOf, he]
        rw [hs, ih ht]
        constructor
        · rintro ⟨u, hu, hx⟩
          exact ⟨u, by simp [hu], hx⟩
        · rintro ⟨u, hu, hun, hx⟩
          rcases List.mem_cons.mp hu with rfl | hu
          · exact absurd hun he
          · exact ⟨u, hu, hun, hx⟩

theorem Tidy.fresh (h : Tidy num ts next) (hn : next ≤ n) : stageOf num stage ts n = none := by
  simp only [stageOf, Option.map_eq_none_iff, List.find?_eq_none, decide_eq_true_eq]
  intro t ht he
  have := h.lt t ht
  omega

theorem Tidy.nil : Tidy num ([] : List τ) next := ⟨by simp, by simp⟩

/-! ## A task goes on -/

theorem stageOf_map (f : τ → τ) (hf : ∀ t, num (f t) = num t) {x : σ} (hx : ∀ t, stage (f t) = x) :
    stageOf num stage (ts.map fun t => if num t = n then f t else t) =
      Function.update (stageOf num stage ts) n ((stageOf num stage ts n).map fun _ => x) := by
  funext m
  induction ts with
  | nil => by_cases hm : m = n <;> simp [stageOf, hm]
  | cons t ts ih =>
      by_cases ht : num t = n <;> by_cases hm : m = n <;> by_cases htm : num t = m <;>
        simp_all [stageOf]

theorem Tidy.map (h : Tidy num ts next) (f : τ → τ) (hf : ∀ t, num (f t) = num t) :
    Tidy num (ts.map fun t => if num t = n then f t else t) next := by
  have he : ∀ t, num (if num t = n then f t else t) = num t := by
    intro t
    split <;> simp [hf]
  refine ⟨?_, ?_⟩
  · have : num ∘ (fun t => if num t = n then f t else t) = num := funext he
    rw [List.map_map, this]
    exact h.nodup
  · intro t ht
    obtain ⟨u, hu, rfl⟩ := List.mem_map.mp ht
    rw [he]
    exact h.lt u hu

/-! ## A task is done -/

theorem stageOf_filter : stageOf num stage (ts.filter (num · ≠ n)) =
    Function.update (stageOf num stage ts) n none := by
  funext m
  induction ts with
  | nil => by_cases hm : m = n <;> simp [stageOf, hm]
  | cons t ts ih =>
      by_cases ht : num t = n <;> by_cases hm : m = n <;> by_cases htm : num t = m <;>
        simp_all [stageOf]

theorem Tidy.filter (h : Tidy num ts next) (p : τ → Bool) : Tidy num (ts.filter p) next :=
  ⟨h.nodup.sublist (List.filter_sublist.map num), fun t ht => h.lt t (List.mem_filter.mp ht).1⟩

/-! ## A task begins -/

theorem stageOf_append {t : τ} (h : stageOf num stage ts (num t) = none) :
    stageOf num stage (ts ++ [t]) =
      Function.update (stageOf num stage ts) (num t) (some (stage t)) := by
  funext m
  induction ts with
  | nil => by_cases hm : m = num t <;> simp [stageOf, hm, Ne.symm, eq_comm]
  | cons u ts ih =>
      by_cases hu : num u = num t
      · simp [stageOf, hu] at h
      · by_cases hm : m = num t <;> by_cases hum : num u = m <;> simp_all [stageOf]

theorem Tidy.append {t : τ} (h : Tidy num ts next) (ht : num t = next) :
    Tidy num (ts ++ [t]) (next + 1) := by
  refine ⟨?_, ?_⟩
  · rw [List.map_append, List.nodup_append']
    refine ⟨h.nodup, by simp, ?_⟩
    simp only [List.map_cons, List.map_nil, List.disjoint_singleton, ht]
    intro hm
    obtain ⟨u, hu, he⟩ := List.mem_map.mp hm
    have := h.lt u hu
    omega
  · intro u hu
    rcases List.mem_append.mp hu with hu | hu
    · have := h.lt u hu
      omega
    · obtain rfl := List.mem_singleton.mp hu
      omega

end Rfcomm.Tasks
