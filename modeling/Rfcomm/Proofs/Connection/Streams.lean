import Rfcomm.Proofs.Connection.Lifecycle
/-!
The stream that a connection holds. It was handed over by the surroundings, once it is held no more it
is never held again, and whoever asks for something of a stream holds it.
-/
namespace Rfcomm.Connection

/-- A stream is held by the link or by a task. -/
inductive Holds (c : Connection) (x : StreamId) : Prop
  | reader : c.link.stream = some x → Holds c x
  | writer : c.link.queue.stream = some x → Holds c x
  | task {n st} : c.stage? n = some st → st.stream? = some x → Holds c x

variable {c c' c₁ : Connection} {id n : Nat} {stage st : Stage} {next : Option Stage} {r : Reply}
  {out : Option Outcome} {a : Act} {e : Effect} {ms ns : List Moment} {w : Worker}
  {t : Config.Tuning} {x : StreamId} {k : Call}

/-! ## Where it comes from -/

/-- A step of a task brings no stream but one that is handed over. -/
theorem Turn.holds (h : Turn c id stage r c₁ next out)
    (hx : c₁.link.stream = some x ∨ c₁.link.queue.stream = some x ∨
      next.bind Stage.stream? = some x) :
    (c.link.stream = some x ∨ c.link.queue.stream = some x ∨ stage.stream? = some x) ∨
      (Act.step (.task id) r).stream? = some x := by
  have hn : next.bind Stage.stream? = Link.held (next.bind Stage.activity) := by
    cases next with
    | none => rfl
    | some st => exact stream?_eq st
  rw [hn] at hx
  rw [stream?_eq]
  refine (h.link.holds hx).imp (fun h => h) fun ⟨hst, hact⟩ => ?_
  cases h with
  | beginAttach => cases hact; rfl
  | attach | abandon | opened | read | report | lose => cases hst
  | close hc | closed hc => cases hc <;> cases hst
  | fail | leave => cases hact

theorem Asks.holds (h : Asks c a c' e) (hS : c.Sound) (hx : c'.Holds x) : c.Holds x := by
  cases hx with
  | reader hx => exact .reader ((h.link hS).stream ▸ hx)
  | writer hx => exact .writer ((h.link hS).sink ▸ hx)
  | task hs hx =>
      rcases h.fresh hS hs with hs | ⟨-, ⟨⟨_, rfl⟩, -⟩ | ⟨rfl, -⟩ | ⟨rfl, -⟩⟩
      · exact .task hs hx
      · cases hx
      · cases hx
      · cases hx

theorem Does.holds (h : Does c a c' e) (hS : c.Sound) (hx : c'.Holds x) :
    c.Holds x ∨ a.stream? = some x := by
  cases h with
  | ask h => exact .inl (h.holds hS hx)
  | @turn n st r c₁ next out hs ht =>
      have old : (c.link.stream = some x ∨ c.link.queue.stream = some x ∨ st.stream? = some x) ∨
          (Act.step (.task n) r).stream? = some x →
          c.Holds x ∨ (Act.step (.task n) r).stream? = some x := by
        rintro ((h | h | h) | h)
        · exact .inl (.reader h)
        · exact .inl (.writer h)
        · exact .inl (.task hs h)
        · exact .inr h
      cases hx with
      | reader h => exact old (ht.holds (.inl (by rwa [place_link] at h)))
      | writer h => exact old (ht.holds (.inr (.inl (by rwa [place_link] at h))))
      | @task m st' hm hx =>
          by_cases hn : m = n
          · subst hn
            have hnext : next = some st' := (ht.mine hs).symm.trans hm
            exact old (ht.holds (.inr (.inr (by simpa [hnext] using hx))))
          · exact .inl (.task ((ht.other hs hn).symm.trans hm) hx)

/-- What a connection holds was handed over. -/
theorem handed_of_holds (h : (machine t).Run ms c) (hx : c.Holds x) : x ∈ handed ms := by
  induction h with
  | start =>
      cases hx with
      | reader h | writer h | task h => cases h
  | @next ms c a c' e hr _ hp ih =>
      rw [handed_append, List.mem_append]
      rcases (does_of_perform hp).holds (sound_of_run hr) hx with h | h
      · exact .inl (ih h)
      · exact .inr (by simp [handed, h])

/-- Once a stream was handed over, none is waited for. -/
theorem settled_of_handed (h : (machine t).Run ms c) (hx : x ∈ handed ms) :
    c.phase ≠ .idle ∧ ∀ n target, c.stage? n ≠ some (.connecting target) := by
  induction h with
  | start => cases hx
  | @next ms c a c' e hr _ hp ih =>
      rw [handed_append, List.mem_append] at hx
      cases does_of_perform hp with
      | ask ha =>
          obtain ⟨hi, hn⟩ := ih (hx.resolve_right fun hx => by simp [handed, ha.brings] at hx)
          refine ⟨fun h => hi (ha.phase.2 h), fun n target hs => ?_⟩
          rcases ha.fresh (sound_of_run hr) hs with hs | ⟨-, ⟨-, h, -⟩ | ⟨h, -⟩ | ⟨h, -⟩⟩
          · exact hn n target hs
          · exact hi h
          · cases h
          · cases h
      | @turn n st r c₁ next out hs ht =>
          have not_next : ∀ target, next ≠ some (.connecting target) := by
            intro target hn
            cases ht with
            | close hc => cases hc <;> cases hn
            | _ => cases hn
          rw [place_phase]
          have other : (∀ m target, m ≠ n → c.stage? m ≠ some (.connecting target)) →
              ∀ m target, (c₁.place n next).stage? m ≠ some (.connecting target) := by
            intro ho m target hm
            by_cases hne : m = n
            · subst hne
              exact not_next target ((ht.mine hs).symm.trans hm)
            · exact ho m target hne ((ht.other hs hne).symm.trans hm)
          rcases hx with hx | hx
          · obtain ⟨hi, hn⟩ := ih hx
            exact ⟨fun h => hi (ht.phase.2 h), other fun m target _ => hn m target⟩
          · -- The task that waited for the stream was the only one to do so.
            have hx : (Act.step (.task n) r).stream? = some x := by simpa [handed] using hx
            obtain ⟨target, rfl⟩ := (ht.brings hx).1
            have hO := once_of_run hr
            refine ⟨fun h => ?_, other fun m target hne hm => hne (hO.unique hm hs rfl rfl)⟩
            cases hO.idle (ht.phase.2 h) n _ hs

/-- A stream that is held no more is never held again. -/
theorem not_holds_since (h : (machine t).Run (ms ++ ns) c) (hx : x ∈ handed ms)
    (h₀ : ∀ {c₀}, (machine t).Run ms c₀ → ¬ c₀.Holds x) : ¬ c.Holds x := by
  refine h.since (P := fun _ c => ¬ c.Holds x) h₀ ?_
  intro ns c a c' e hr ha hp hn hx'
  have hd := does_of_perform hp
  refine (hd.holds (sound_of_run hr) hx').elim hn fun hax => ?_
  obtain ⟨-, hnone⟩ := settled_of_handed hr (x := x) (by simp [handed_append, hx])
  cases hd with
  | ask ha => cases ha.brings.symm.trans hax
  | @turn n st r c₁ next out hs ht =>
      obtain ⟨target, rfl⟩ := (ht.brings hax).1
      exact hnone n target hs

/-! ## The list of the streams that are held -/

theorem mem_tasks (hS : c.Sound) : c.stage? n = some stage ↔ ⟨n, stage⟩ ∈ c.tasks := by
  constructor
  · intro h
    obtain ⟨⟨m, st⟩, ht, rfl, rfl⟩ := (Tasks.stageOf_eq_some hS.tidy.nodup).mp h
    exact ht
  · intro h
    exact (Tasks.stageOf_eq_some hS.tidy.nodup).mpr ⟨_, h, rfl, rfl⟩

theorem holds_of_mem (hS : c.Sound) (hx : x ∈ c.streams) : c.Holds x := by
  simp only [streams, List.mem_append, List.mem_filterMap] at hx
  rcases hx with (hx | hx) | ⟨⟨m, st⟩, ht, hx⟩
  · split at hx
    · exact .reader (by simpa using hx)
    · cases hx
  · split at hx
    · exact .writer (by simpa using hx)
    · cases hx
  · exact .task ((mem_tasks hS).mpr ht) hx

theorem mem_of_inUse (hS : c.Sound) (hu : c.inUse = true) (hx : c.Holds x) : x ∈ c.streams := by
  simp only [streams, List.mem_append, List.mem_filterMap, hu, Bool.true_or, if_true]
  cases hx with
  | reader h => exact .inl (.inl (by simp [h]))
  | writer h => exact .inl (.inr (by simp [h]))
  | @task m st hm hx => exact .inr ⟨⟨m, st⟩, (mem_tasks hS).mp hm, hx⟩

/-! ## What is asked of it -/

/-- Whoever asks for something of a stream does so at the link. -/
theorem calls_of_ask (h : c.ask w = .call k) (hk : k.stream? = some x) :
    c.link.Calls (activities c.stage?) w k := by
  cases w with
  | write n => exact Link.calls_of_askWrite h
  | task n =>
      obtain ⟨st, hs⟩ := stage_of_ask h
      rw [ask_task hs] at h
      cases hst : st.activity with
      | some act =>
          rw [askStage_activity c n hst] at h
          exact Link.calls_of_activity ((activities_of_stage hs).trans hst) h
      | none =>
          cases st with
          | connecting target => cases h; cases hk
          | leaving => cases h
          | _ => cases hst

theorem shutdown_iff : c.ask (.task n) = .call (.shutdown x) ↔
    activities c.stage? n = some (.closing (.stream x)) := by
  constructor
  · intro h
    cases calls_of_ask h rfl with
    | shutdown hn => exact hn
  · exact fun h => ask_of_activity h

end Rfcomm.Connection
