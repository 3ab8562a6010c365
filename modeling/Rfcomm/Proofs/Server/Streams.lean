import Rfcomm.Proofs.Link.Closing
import Rfcomm.Proofs.Server.Sound
/-!
The streams that servers hold. Each was handed over by the surroundings, and a stream that is held no
more is never held again.
-/
namespace Rfcomm.Server

variable {s s' s₁ : Server} {id n : Nat} {stage : Stage} {next : Option Stage} {r : Reply}
  {out : Report} {a : Act} {e : Effect} {y : StreamId}

/-- A stream is held by the link or by a task. -/
inductive Holds (s : Server) (y : StreamId) : Prop
  | reader : s.link.stream = some y → Holds s y
  | writer : s.link.queue.stream = some y → Holds s y
  | task {n st} : s.stage? n = some st → st.stream? = some y → Holds s y

theorem stream?_eq (h : ∀ x address k, stage ≠ .welcoming x address k) :
    stage.stream? = Link.held stage.activity := by
  cases stage with
  | welcoming x address k => exact absurd rfl (h x address k)
  | losing k | releasing k => cases k <;> rfl
  | _ => rfl

theorem stream?_of_held (h : Link.held stage.activity = some y) : stage.stream? = some y := by
  by_cases hw : ∃ x address k, stage = .welcoming x address k
  · obtain ⟨x, address, k, rfl⟩ := hw
    cases h
  · rw [stream?_eq fun x address k he => hw ⟨x, address, k, he⟩]
    exact h

theorem releasing_not_attaching (k : Releasing) (b : Link.Attach) :
    k.activity ≠ some (.attaching b) := by
  cases k <;> simp [Releasing.activity]

/-- A step of a task brings no stream but one that is handed over. -/
theorem Turn.holds (h : Turn s id stage r s₁ next out)
    (hy : s₁.link.stream = some y ∨ s₁.link.queue.stream = some y ∨
      next.bind Stage.stream? = some y) :
    (s.link.stream = some y ∨ s.link.queue.stream = some y ∨ stage.stream? = some y) ∨
      (Act.step (.task id) r).stream? = some y := by
  have hl := h.link
  have other : (∀ x address k, stage ≠ .welcoming x address k) →
      (∀ x address k, next ≠ some (.welcoming x address k)) →
      (∀ x, stage.activity = none → next.bind Stage.activity ≠ some (.attaching (.reader x))) →
      s.link.stream = some y ∨ s.link.queue.stream = some y ∨ stage.stream? = some y := by
    intro hs hn ha
    have hn' : next.bind Stage.stream? = Link.held (next.bind Stage.activity) := by
      cases next with
      | none => rfl
      | some st => exact stream?_eq fun x address k he => hn x address k (congrArg some he)
    rw [hn'] at hy
    rw [stream?_eq hs]
    rcases hl.holds hy with h | ⟨h₁, h₂⟩
    · exact h
    · exact absurd h₂ (ha y h₁)
  cases h with
  | accept =>
      rcases hy with hy | hy | hy
      · exact .inl (.inl hy)
      · exact .inl (.inr (.inl hy))
      · exact .inr hy
  | withdraw hw | beginAttach hw =>
      obtain ⟨_, _, rfl⟩ := hw.frame
      exact .inl hy
  | look hlook =>
      refine .inl (other ?_ ?_ ?_)
      · cases hlook <;> simp
      · cases s.listener <;> simp
      · cases s.listener <;> simp [Stage.activity]
  | attach => exact .inl (other (by simp) (by simp) (by simp [Stage.activity]))
  | _ =>
      exact .inl (other (by simp) (by simp) (by simp [Stage.activity, releasing_not_attaching]))

theorem Holds.congr (h : s'.Holds y) (h₁ : s'.link.stream = s.link.stream)
    (h₂ : s'.link.queue.stream = s.link.queue.stream) (h₃ : s'.stage? = s.stage?) : s.Holds y := by
  cases h with
  | reader h => exact .reader (h₁ ▸ h)
  | writer h => exact .writer (h₂ ▸ h)
  | task hs hy => exact .task (h₃ ▸ hs) hy

theorem Holds.of_spawn (hS : s.Sound) (hst : stage.stream? = none)
    (h : (s.spawn stage).2.Holds y) : s.Holds y := by
  cases h with
  | reader h => exact .reader h
  | writer h => exact .writer h
  | @task m st hs hy =>
      rw [stage?_spawn hS.tidy] at hs
      by_cases hm : m = s.nextTask
      · subst hm
        obtain rfl : stage = st := by simpa using hs
        rw [hst] at hy
        cases hy
      · exact .task (by simpa [hm] using hs) hy

theorem Does.holds (hS : s.Sound) (h : Does s a s' e) (hy : s'.Holds y) :
    s.Holds y ∨ a.stream? = some y := by
  cases h with
  | listen =>
      have h' : ({ s with phase := .listening } : Server).Sound := hS.congr rfl rfl rfl hS.link
      exact .inl ((hy.of_spawn h' rfl).congr rfl rfl rfl)
  | read => exact .inl (hy.of_spawn hS rfl)
  | write => exact .inl (hy.congr rfl (by simp [Link.write]) rfl)
  | disconnect =>
      have h' : ({ s with link := s.link.markClosed.signal .disconnect } : Server).Sound :=
        hS.congr rfl rfl rfl (hS.link.signals _ _)
      exact .inl ((hy.of_spawn h' rfl).congr rfl rfl rfl)
  | @close _ background _ _ hp =>
      have h' : s.shut.Sound := hS.congr rfl rfl rfl (hS.link.signals _ _)
      have hc : (s.close background).Holds y := hy.congr rfl rfl rfl
      rw [close_eq hp] at hc
      cases background with
      | true => exact .inl ((hc.of_spawn h' rfl).congr rfl rfl rfl)
      | false => exact .inl (hc.congr rfl rfl rfl)
  | aside => exact .inl (hy.congr rfl rfl rfl)
  | send hr =>
      obtain ⟨⟨q, result⟩, hq, he⟩ := Option.map_eq_some_iff.mp hr
      cases he
      refine .inl (hy.congr rfl ?_ rfl)
      cases WriteQueue.move_of_resume hq <;> simp
  | @turn n st r s₁ next out hs ht =>
      have old : (s.link.stream = some y ∨ s.link.queue.stream = some y ∨ st.stream? = some y) ∨
          (Act.step (.task n) r).stream? = some y →
          s.Holds y ∨ (Act.step (.task n) r).stream? = some y := by
        rintro ((h | h | h) | h)
        · exact .inl (.reader h)
        · exact .inl (.writer h)
        · exact .inl (.task hs h)
        · exact .inr h
      cases hy with
      | reader h => exact old (ht.holds (.inl (by rwa [place_link] at h)))
      | writer h => exact old (ht.holds (.inr (.inl (by rwa [place_link] at h))))
      | @task m st' hm hy =>
          by_cases hn : m = n
          · subst hn
            have hnext : next = some st' := (ht.mine hS hs).symm.trans hm
            exact old (ht.holds (.inr (.inr (by simpa [hnext] using hy))))
          · refine .inl (.task (ht.old hS hs hn hm ?_) hy)
            rintro rfl
            cases hy

variable {t : Config.Tuning} {ms ns : List Moment}

@[simp] theorem handed_append : handed (ms ++ ns) = handed ms ++ handed ns := by simp [handed]

/-- What a server holds was handed over. -/
theorem handed_of_holds (h : (machine t).Run ms s) (hy : s.Holds y) : y ∈ handed ms := by
  induction h with
  | start =>
      cases hy with
      | reader h | writer h | task h => cases h
  | @next ms s a s' e hr _ hp ih =>
      rw [handed_append, List.mem_append]
      rcases (does_of_perform hp).holds (sound_of_run hr) hy with h | h
      · exact .inl (ih h)
      · exact .inr (by simp [handed, h])

/-- A stream that is held no more is never held again. -/
theorem not_holds_since (h : (machine t).Run (ms ++ ns) s) (hy : y ∈ handed ms)
    (h₀ : ∀ {s₀}, (machine t).Run ms s₀ → ¬ s₀.Holds y) : ¬ s.Holds y := by
  refine h.since (P := fun _ s => ¬ s.Holds y) h₀ ?_
  intro ns s a s' e hr ha hp hn hy'
  rcases (does_of_perform hp).holds (sound_of_run hr) hy' with h | h
  · exact hn h
  · have : a.stream?.all (!(handed (ms ++ ns)).contains ·) = true := ha
    simp [h, hy] at this

/-! ## The list of the streams that are held -/

theorem mem_tasks (hS : s.Sound) : s.stage? n = some stage ↔ ⟨n, stage⟩ ∈ s.tasks := by
  constructor
  · intro h
    obtain ⟨⟨m, st⟩, ht, rfl, rfl⟩ := (Tasks.stageOf_eq_some hS.tidy.nodup).mp h
    exact ht
  · intro h
    exact (Tasks.stageOf_eq_some hS.tidy.nodup).mpr ⟨_, h, rfl, rfl⟩

theorem holds_of_mem (hS : s.Sound) (hy : y ∈ s.streams) : s.Holds y := by
  simp only [streams, List.mem_append, List.mem_filterMap] at hy
  rcases hy with (hy | hy) | ⟨⟨m, st⟩, ht, hy⟩
  · split at hy
    · exact .reader (by simpa using hy)
    · cases hy
  · split at hy
    · exact .writer (by simpa using hy)
    · cases hy
  · exact .task ((mem_tasks hS).mpr ht) hy

theorem inUse_of_stage (hS : s.Sound) (hs : s.stage? n = some stage) : s.inUse = true := by
  have := (mem_tasks hS).mp hs
  cases hl : s.tasks with
  | nil => simp [hl] at this
  | cons u us => simp [inUse, hl]

theorem mem_of_inUse (hS : s.Sound) (hu : s.inUse = true) (hy : s.Holds y) : y ∈ s.streams := by
  simp only [streams, List.mem_append, List.mem_filterMap, hu, Bool.true_or, if_true]
  cases hy with
  | reader h => exact .inl (.inl (by simp [h]))
  | writer h => exact .inl (.inr (by simp [h]))
  | @task m st hm hy => exact .inr ⟨⟨m, st⟩, (mem_tasks hS).mp hm, hy⟩

theorem mem_of_holds (hS : s.Sound) (hs : s.stage? n = some stage) (hy : s.Holds y) :
    y ∈ s.streams := mem_of_inUse hS (inUse_of_stage hS hs) hy

end Rfcomm.Server
