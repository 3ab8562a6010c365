import Mathlib.Data.List.Induction
/-!
Machines that are driven from outside, and their runs. What may be done next can depend on all that
was done before, so a run is kept as the list of its moments.
-/
namespace Rfcomm

/-- One moment of a run: what was done in which state, and what came of it. -/
structure Moment (σ α ε : Type) where
  before : σ
  act : α
  after : σ
  effect : ε

/-- A machine: where it starts, what each act does, and which acts are to be expected. -/
structure Machine (σ α ε : Type) where
  start : σ
  perform : σ → α → Option (σ × ε)
  allows : List (Moment σ α ε) → α → Bool := fun _ _ => true

namespace Machine

variable {σ α ε : Type} {M : Machine σ α ε} {ms ns : List (Moment σ α ε)} {s s' : σ}

/-- The moments of a run from the start, and where the run got to. -/
inductive Run (M : Machine σ α ε) : List (Moment σ α ε) → σ → Prop
  | start : Run M [] M.start
  | next {ms s a s' e} : Run M ms s → M.allows ms a → M.perform s a = some (s', e) →
      Run M (ms ++ [⟨s, a, s', e⟩]) s'

/-- What holds at the start and is kept by every act holds wherever a run gets to. -/
theorem Run.invariant {P : σ → Prop} (h : M.Run ms s) (start : P M.start)
    (next : ∀ {s a s' e}, M.perform s a = some (s', e) → P s → P s') : P s := by
  induction h with
  | start => exact start
  | next _ _ hp ih => exact next hp ih

theorem Run.unsnoc {m : Moment σ α ε} (h : M.Run (ms ++ [m]) s) :
    M.Run ms m.before ∧ M.allows ms m.act ∧ M.perform m.before m.act = some (s, m.effect) ∧
      m.after = s := by
  generalize hl : ms ++ [m] = l at h
  cases h with
  | start => simp at hl
  | next hr ha hp =>
    obtain ⟨rfl, hm⟩ := List.append_inj' hl rfl
    cases hm
    exact ⟨hr, ha, hp, rfl⟩

theorem Run.take (h : M.Run (ms ++ ns) s) : ∃ s₀, M.Run ms s₀ := by
  induction ns using List.reverseRecOn generalizing s with
  | nil => exact ⟨s, by simpa using h⟩
  | append_singleton ns m ih =>
    rw [← List.append_assoc] at h
    exact ih h.unsnoc.1

/-- What holds after the first part of a run and is kept from then on holds at its end. -/
theorem Run.since {P : List (Moment σ α ε) → σ → Prop} (h : M.Run (ms ++ ns) s)
    (start : ∀ {s₀}, M.Run ms s₀ → P [] s₀)
    (next : ∀ {ns s a s' e}, M.Run (ms ++ ns) s → M.allows (ms ++ ns) a →
      M.perform s a = some (s', e) → P ns s → P (ns ++ [⟨s, a, s', e⟩]) s') : P ns s := by
  induction ns using List.reverseRecOn generalizing s with
  | nil => exact start (by simpa using h)
  | append_singleton ns m ih =>
    rw [← List.append_assoc] at h
    obtain ⟨hr, ha, hp, rfl⟩ := h.unsnoc
    exact next hr ha hp (ih hr)

/-- Each moment of a run is an act of the machine in the state that the run had got to. -/
theorem Run.moment {m : Moment σ α ε} (h : M.Run (ms ++ m :: ns) s) :
    M.Run ms m.before ∧ M.allows ms m.act ∧
      M.perform m.before m.act = some (m.after, m.effect) ∧ M.Run (ms ++ [m]) m.after := by
  obtain ⟨s₀, h₀⟩ := (show M.Run ((ms ++ [m]) ++ ns) s by simpa using h).take
  obtain ⟨hr, ha, hp, rfl⟩ := h₀.unsnoc
  exact ⟨hr, ha, hp, h₀⟩

/-- What is found of the effect of an act is so of a moment of it. -/
theorem Run.effect {a : α} (h : M.Run (ms ++ m :: ns) s) (ha : m.act = a) (P : ε → Bool)
    (hP : (M.perform m.before a).any (fun p => P p.2) = true) : P m.effect = true := by
  obtain ⟨-, -, hp, -⟩ := h.moment
  rw [← ha, hp] at hP
  exact hP

/-- What holds at a moment and is kept by every act unless something happens holds later, or that
happened. -/
theorem Run.unless {P : σ → Prop} {R : Moment σ α ε → Prop} {m : Moment σ α ε}
    (h : M.Run (ms ++ m :: ns) s) (start : P m.before)
    (next : ∀ {ms s a s' e}, M.Run ms s → M.perform s a = some (s', e) → P s →
      P s' ∨ R ⟨s, a, s', e⟩) : P s ∨ ∃ k ∈ m :: ns, R k := by
  obtain ⟨hr, -, hp, -⟩ := h.moment
  have hrun : M.Run ((ms ++ [m]) ++ ns) s := by simpa using h
  refine hrun.since (P := fun ns s => P s ∨ ∃ k ∈ m :: ns, R k) ?_ ?_
  · intro s₀ h₀
    obtain ⟨-, -, -, rfl⟩ := h₀.unsnoc
    exact (next hr hp start).imp_right fun hR => ⟨m, List.mem_singleton_self _, hR⟩
  · intro ns s a s' e hr' _ hp' ih
    rw [← List.cons_append]
    rcases ih with hP | ⟨k, hk, hR⟩
    · exact (next hr' hp' hP).imp_right fun hR =>
        ⟨_, List.mem_append_right _ (List.mem_singleton_self _), hR⟩
    · exact .inr ⟨k, List.mem_append_left _ hk, hR⟩

/-! ## Playing a list of acts -/

/-- The run that goes on from a run with these acts; none if one of them cannot be done. -/
def playFrom (M : Machine σ α ε) (ms : List (Moment σ α ε)) (s : σ) :
    List α → Option (List (Moment σ α ε) × σ)
  | [] => some (ms, s)
  | a :: acts =>
    match M.allows ms a, M.perform s a with
    | true, some (s', e) => M.playFrom (ms ++ [⟨s, a, s', e⟩]) s' acts
    | _, _ => none

/-- The run with these acts. -/
def play (M : Machine σ α ε) (acts : List α) : Option (List (Moment σ α ε) × σ) :=
  M.playFrom [] M.start acts

theorem run_of_playFrom {acts : List α} {ms' : List (Moment σ α ε)} (h : M.Run ms s)
    (hp : M.playFrom ms s acts = some (ms', s')) : M.Run ms' s' := by
  induction acts generalizing ms s with
  | nil => cases hp; exact h
  | cons a acts ih =>
      simp only [playFrom] at hp
      split at hp
      · exact ih (h.next ‹_› ‹_›) hp
      · cases hp

theorem run_of_play {acts : List α} (hp : M.play acts = some (ms, s)) : M.Run ms s :=
  run_of_playFrom .start hp

theorem playFrom_append (as bs : List α) :
    M.playFrom ms s (as ++ bs) = (M.playFrom ms s as).bind fun p => M.playFrom p.1 p.2 bs := by
  induction as generalizing ms s with
  | nil => rfl
  | cons a as ih =>
      simp only [List.cons_append, playFrom]
      split
      · exact ih
      · rfl

theorem prefix_of_playFrom {acts : List α} {ms' : List (Moment σ α ε)}
    (h : M.playFrom ms s acts = some (ms', s')) : ∃ ns, ms' = ms ++ ns := by
  induction acts generalizing ms s with
  | nil => cases h; exact ⟨[], by simp⟩
  | cons a acts ih =>
      simp only [playFrom] at h
      split at h
      · obtain ⟨ns, hn⟩ := ih h
        exact ⟨_ :: ns, by rw [hn, List.append_assoc]; rfl⟩
      · cases h

theorem moment_of_play {as bs : List α} {a : α} {l : List (Moment σ α ε)}
    (h : M.play (as ++ a :: bs) = some (l, s)) :
    ∃ ms m ns, l = ms ++ m :: ns ∧ m.act = a ∧ M.play as = some (ms, m.before) := by
  rw [play, playFrom_append] at h
  obtain ⟨⟨ms, s₀⟩, has, h⟩ := Option.bind_eq_some_iff.mp h
  simp only [playFrom] at h
  split at h
  · obtain ⟨ns, hn⟩ := prefix_of_playFrom h
    exact ⟨ms, ⟨s₀, a, _, _⟩, ns, by rw [hn, List.append_assoc]; rfl, rfl, has⟩
  · cases h

/-- What is found of the end of what was played is so. -/
theorem exists_of_play (M : Machine σ α ε) (acts : List α) (P : List (Moment σ α ε) → σ → Bool)
    (h : (M.play acts).any (fun p => P p.1 p.2) = true) :
    ∃ ms s, M.play acts = some (ms, s) ∧ P ms s = true := by
  obtain ⟨⟨ms, s⟩, hp, h⟩ := (Option.any_eq_true _ _).mp h
  exact ⟨ms, s, hp, h⟩

/-- So it is for the state before one of the acts, and for the end. -/
theorem exists_moment_of_play (M : Machine σ α ε) (as : List α) (a : α) (bs : List α)
    (P Q : σ → Bool) (hP : (M.play as).any (fun p => P p.2) = true)
    (hQ : (M.play (as ++ a :: bs)).any (fun p => Q p.2) = true) :
    ∃ ms m ns s, M.Run (ms ++ m :: ns) s ∧ m.act = a ∧ P m.before = true ∧ Q s = true := by
  obtain ⟨ms, s₀, hp₀, h₀⟩ := M.exists_of_play as (fun _ s => P s) hP
  obtain ⟨l, s, hp, hs⟩ := M.exists_of_play (as ++ a :: bs) (fun _ s => Q s) hQ
  obtain ⟨_, m, ns, rfl, hact, hm⟩ := moment_of_play hp
  cases hp₀.symm.trans hm
  exact ⟨ms, m, ns, s, run_of_play hp, hact, h₀, hs⟩

/-- So it is for the states before two of the acts, and for the end. -/
theorem exists_moments_of_play (M : Machine σ α ε) (as : List α) (a : α) (bs : List α) (b : α)
    (cs : List α) (P Q R : σ → Bool) (hP : (M.play as).any (fun p => P p.2) = true)
    (hQ : (M.play (as ++ a :: bs)).any (fun p => Q p.2) = true)
    (hR : (M.play (as ++ a :: (bs ++ b :: cs))).any (fun p => R p.2) = true) :
    ∃ ms k ns m ls s, M.Run (ms ++ k :: (ns ++ m :: ls)) s ∧ k.act = a ∧ m.act = b ∧
      P k.before = true ∧ Q m.before = true ∧ R s = true := by
  obtain ⟨ms, s₀, hp₀, h₀⟩ := M.exists_of_play as (fun _ s => P s) hP
  obtain ⟨l₁, s₁, hp₁, h₁⟩ := M.exists_of_play (as ++ a :: bs) (fun _ s => Q s) hQ
  rw [← List.cons_append, ← List.append_assoc] at hR
  obtain ⟨l, s, hp, hs⟩ := M.exists_of_play ((as ++ a :: bs) ++ b :: cs) (fun _ s => R s) hR
  obtain ⟨_, m, ls, rfl, hb, hm⟩ := moment_of_play hp
  obtain ⟨_, k, ns, rfl, ha, hk⟩ := moment_of_play hm
  cases hp₁.symm.trans hm
  cases hp₀.symm.trans hk
  exact ⟨ms, k, ns, m, ls, s, by simpa using run_of_play hp, ha, hb, h₀, h₁, hs⟩

end Machine

end Rfcomm
