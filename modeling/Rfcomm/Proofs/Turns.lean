import Mathlib.Data.List.Nodup
import Mathlib.Logic.Function.Basic
import Rfcomm.Job
import Rfcomm.Lock
/-!
Lock discipline: a lock together with what everybody is at with respect to it. In line stand exactly
those who wait for the lock or have it, each once, and only the first in line has it.
-/
namespace Rfcomm

/-- What somebody is at with respect to a lock. -/
inductive Lock.Role
  /-- Neither waits for it nor has it. -/
  | out
  /-- Stands in line; may go on once first. -/
  | waiting
  /-- Has it, and does something with it. -/
  | holding
deriving DecidableEq

namespace Lock

variable {α : Type} [DecidableEq α] {l : Lock α} {role : α → Role} {a b : α}

/-- The line of a lock is as everybody's role says. -/
structure Keeps (l : Lock α) (role : α → Role) : Prop where
  nodup : l.line.Nodup
  mem_iff : ∀ a, a ∈ l.line ↔ role a ≠ .out
  first : ∀ a, role a = .holding → l.isHeldBy a = true

theorem Keeps.empty : (⟨[]⟩ : Lock α).Keeps fun _ => .out :=
  ⟨List.nodup_nil, by simp, by simp⟩

theorem eq_of_isHeldBy (ha : l.isHeldBy a = true) (hb : l.isHeldBy b = true) : a = b := by
  simp only [isHeldBy, decide_eq_true_eq] at ha hb
  rw [ha] at hb
  cases hb; rfl

theorem isHeldBy_join (h : l.isHeldBy a = true) : (l.join b).isHeldBy a = true := by
  obtain ⟨rest, hl⟩ := isHeldBy_iff.mp h
  simp [isHeldBy, hl]

theorem Keeps.join (h : l.Keeps role) (ha : role a = .out) :
    (l.join a).Keeps (Function.update role a .waiting) where
  nodup := by
    have hn : a ∉ l.line := by rw [h.mem_iff]; simp [ha]
    simpa using List.nodup_append'.mpr ⟨h.nodup, by simp, by simpa using hn⟩
  mem_iff b := by
    by_cases hb : b = a
    · subst hb; simp
    · simp [hb, h.mem_iff]
  first b hb := by
    by_cases hba : b = a
    · subst hba; simp at hb
    · exact isHeldBy_join (h.first b (by simpa [hba] using hb))

/-- The first in line takes the lock. -/
theorem Keeps.hold (h : l.Keeps role) (ha : l.isHeldBy a = true) :
    l.Keeps (Function.update role a .holding) where
  nodup := h.nodup
  mem_iff b := by
    by_cases hb : b = a
    · subst hb
      obtain ⟨rest, hl⟩ := isHeldBy_iff.mp ha
      simp [hl]
    · simp [hb, h.mem_iff]
  first b hb := by
    by_cases hba : b = a
    · exact hba ▸ ha
    · exact h.first b (by simpa [hba] using hb)

/-- The first in line leaves. Nobody has the lock then. -/
theorem Keeps.leave (h : l.Keeps role) (ha : l.isHeldBy a = true) :
    l.leave.Keeps (Function.update role a .out) where
  nodup := h.nodup.tail
  mem_iff b := by
    obtain ⟨rest, hl⟩ := isHeldBy_iff.mp ha
    have hn := h.nodup
    rw [hl] at hn
    have ha' : a ∉ rest := (List.nodup_cons.mp hn).1
    by_cases hb : b = a
    · subst hb; simpa [hl] using ha'
    · have := h.mem_iff b
      simp only [hl, List.mem_cons, hb, false_or] at this
      simpa [hl, hb] using this
  first b hb := by
    by_cases hba : b = a
    · subst hba; simp at hb
    · have hb' := h.first b (by simpa [hba] using hb)
      exact absurd (eq_of_isHeldBy hb' ha) hba

/-- Whose role stays the same changes nothing. -/
theorem Keeps.stay {r : Role} (h : l.Keeps role) (ha : role a = r) :
    l.Keeps (Function.update role a r) := by
  rwa [← ha, Function.update_eq_self]

theorem Keeps.unique (h : l.Keeps role) (ha : role a = .holding) (hb : l.isHeldBy b = true) :
    a = b :=
  eq_of_isHeldBy (h.first a ha) hb

theorem Keeps.exists_first (h : l.Keeps role) (ha : role a ≠ .out) :
    ∃ b, l.isHeldBy b = true ∧ role b ≠ .out := by
  have hm := (h.mem_iff a).mpr ha
  cases hl : l.line with
  | nil => simp [hl] at hm
  | cons b rest => exact ⟨b, by simp [isHeldBy, hl], (h.mem_iff b).mp (by simp [hl])⟩

end Lock

end Rfcomm
