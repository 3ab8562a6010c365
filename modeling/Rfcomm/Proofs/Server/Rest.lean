import Rfcomm.Proofs.Link.Rest
import Rfcomm.Proofs.Server.Served
/-!
Servers at rest. Where nobody can go on by itself, the lock on the advertisement is free and the link
is at rest, too.
-/
namespace Rfcomm.Server

/-- Nobody can go on by itself, and calls are waited for only if they are among some. -/
def Rests (s : Server) (calls : Call → Prop) : Prop :=
  ∀ w, s.ask w = .blocked ∨ ∃ c, s.ask w = .call c ∧ calls c

/-- Neither registers a record nor takes a registration back. -/
def Elsewhere : Call → Prop
  | .register _ | .withdraw _ => False
  | _ => True

variable {s : Server} {calls : Call → Prop} {n : Nat} {stage : Stage} {act : Link.Activity}

theorem ask_task (hs : s.stage? n = some stage) : s.ask (.task n) = s.askStage n stage := by
  obtain ⟨t, ht, rfl⟩ := Option.map_eq_some_iff.mp hs
  simp [ask, ht]

theorem Rests.not_ready (h : s.Rests calls) (w : Worker) : s.ask w ≠ .ready := by
  rcases h w with hw | ⟨c, hw, -⟩ <;> simp [hw]

theorem Rests.call (h : s.Rests calls) {w : Worker} {c : Call} (hw : s.ask w = .call c) :
    calls c := by
  rcases h w with hw' | ⟨c', hw', hc⟩
  · rw [hw] at hw'; cases hw'
  · rw [hw] at hw'; cases hw'; exact hc

theorem rests_of_workers
    (h : ∀ w ∈ s.workers, s.ask w = .blocked ∨ ∃ c, s.ask w = .call c ∧ calls c) :
    s.Rests calls := by
  intro w
  by_cases hw : w ∈ s.workers
  · exact h w hw
  · left
    cases w with
    | task n =>
        have hn : s.tasks.find? (·.id = n) = none := by
          rw [List.find?_eq_none]
          intro u hu hn
          exact hw (List.mem_append_left _ (List.mem_map.mpr ⟨u, hu, by simpa using hn⟩))
        simp [ask, hn]
    | write n =>
        have hn : s.link.queue.stage? n = none := by
          rw [WriteQueue.stage?, Option.map_eq_none_iff, List.find?_eq_none]
          intro u hu hn
          exact hw (List.mem_append_right _ (List.mem_map.mpr ⟨u, hu, by simpa using hn⟩))
        simp [ask, Link.askWrite, WriteQueue.ask, hn]

theorem askStage_activity (s : Server) (n : Nat) (h : stage.activity = some act) :
    s.askStage n stage = act.ask s.link (.task n) := by
  cases stage with
  | losing k | releasing k =>
      cases k with
      | closing address final k => cases h; rfl
      | waiting | registering record => cases h
  | attaching address k | refusing k | reading generation g | closing k => cases h; rfl
  | _ => cases h

theorem Rests.link (h : s.Rests calls) : s.link.Resting (activities s.stage?) where
  task {n act} ha := by
    obtain ⟨stage, hs, hact⟩ := Option.bind_eq_some_iff.mp ha
    rw [← askStage_activity s n hact, ← ask_task hs]
    exact h.not_ready _
  write id := h.not_ready (.write id)

/-- While no record is registered and no registration is taken back, nobody is in line for the
advertisement. -/
theorem Rests.no_lock (h : s.Rests calls) (hS : s.Sound) (hc : ∀ c, calls c → Elsewhere c)
    (hs : s.stage? n = some stage) : stage.atLock = .out := by
  by_contra hl
  obtain ⟨w, hw, hrole⟩ := hS.lock.exists_first (a := .task n) (by simpa [lockRole, hs] using hl)
  cases w with
  | write id => exact hrole rfl
  | task m =>
      cases hm : s.stage? m with
      | none => simp [lockRole, hm] at hrole
      | some st =>
          have ha := ask_task hm
          have ready : s.askStage m st ≠ .ready := ha ▸ h.not_ready _
          have call : ∀ c, s.askStage m st = .call c → Elsewhere c := fun c he =>
            hc c (h.call (ha.trans he))
          have withdraws : ∀ k : Withdrawing, s.askStage m st = s.askWithdrawing m k → False := by
            intro k hk
            cases k with
            | waiting => exact ready (hk.trans (Link.turn_held hw))
            | calling session => exact call _ hk
          have releases : ∀ k : Releasing, k.atLock ≠ .out →
              s.askStage m st = s.askReleasing m k → False := by
            intro k hk he
            cases k with
            | closing address final k => exact hk rfl
            | waiting => exact ready (he.trans (Link.turn_held hw))
            | registering record => exact call _ he
          cases st with
          | noting record session => exact ready (Link.turn_held hw)
          | undoing k | welcoming _ _ k | retiring k => exact withdraws k rfl
          | losing k | releasing k =>
              exact releases k (by simpa [lockRole, hm, Stage.atLock] using hrole) rfl
          | _ => simp [lockRole, hm, Stage.atLock] at hrole

end Rfcomm.Server
