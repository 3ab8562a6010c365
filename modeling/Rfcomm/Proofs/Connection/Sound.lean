import Rfcomm.Proofs.Connection.Turn
import Rfcomm.Proofs.Link.Closing
/-!
Connections are sound: the tasks have numbers of their own, and the link is as they say. A stream is
attached once at most, at a link without one, while nothing was read.
-/
namespace Rfcomm.Connection

/-- What a task at a stage does at the link. -/
def Stage.activity : Stage → Option Link.Activity
  | .attaching _ k => some (.attaching k)
  | .abandoning k | .ending _ k | .closing k => some (.closing k)
  | .reading g => some (.reading g)
  | .connecting _ | .leaving => none

/-- What the tasks do at the link. -/
def activities (stages : Nat → Option Stage) (n : Nat) : Option Link.Activity :=
  (stages n).bind Stage.activity

variable {c c' c₁ : Connection} {id n m : Nat} {stage st st' : Stage} {next : Option Stage}
  {r : Reply} {out : Option Outcome} {stages : Nat → Option Stage} {a : Act} {e : Effect}
  {ms : List Moment} {t : Config.Tuning}

@[simp] theorem activities_update : activities (Function.update stages n next) =
    Function.update (activities stages) n (next.bind Stage.activity) := by
  funext m
  by_cases hm : m = n <;> simp [activities, hm]

theorem activities_of_stage (hs : c.stage? n = some stage) :
    activities c.stage? n = stage.activity := by
  simp [activities, hs]

theorem stage_of_reading {g : Link.Reading} (h : activities c.stage? n = some (.reading g)) :
    c.stage? n = some (.reading g) := by
  obtain ⟨st, hs, hst⟩ := Option.bind_eq_some_iff.mp h
  cases st <;> cases hst
  exact hs

theorem attaching_of_activity {k : Link.Attach} (h : stage.activity = some (.attaching k)) :
    ∃ target, stage = .attaching target k := by
  cases stage <;> cases h
  exact ⟨_, rfl⟩

/-- A connection that is as its tasks say. -/
structure Sound (c : Connection) : Prop where
  tidy : Tasks.Tidy Task.id c.tasks c.nextTask
  link : c.link.Sound (activities c.stage?)

/-! ## The table of tasks -/

theorem place_link (c : Connection) : (c.place id next).link = c.link := by cases next <;> rfl

theorem place_phase (c : Connection) : (c.place id next).phase = c.phase := by cases next <;> rfl

theorem stage?_spawn (h : c.Sound) (st : Stage) :
    (c.spawn st).2.stage? = Function.update c.stage? c.nextTask (some st) := by
  have hf : Tasks.stageOf Task.id Task.stage c.tasks (Task.id ⟨c.nextTask, st⟩) = none :=
    h.tidy.fresh (Nat.le_refl _)
  exact Tasks.stageOf_append hf

theorem Sound.fresh (h : c.Sound) : c.stage? c.nextTask = none := h.tidy.fresh (Nat.le_refl _)

theorem Sound.lt (h : c.Sound) (hs : c.stage? n = some stage) : n < c.nextTask := by
  by_contra hn
  rw [show c.stage? n = none from h.tidy.fresh (Nat.le_of_not_lt hn)] at hs
  cases hs

theorem Turn.table (h : Turn c id stage r c₁ next out) :
    c₁.tasks = c.tasks ∧ c₁.nextTask = c.nextTask := by
  cases h <;> exact ⟨rfl, rfl⟩

/-- When a task goes on, nothing changes in the table but its own place. -/
theorem Turn.stage_place (h : Turn c id stage r c₁ next out) (hs : c.stage? id = some stage) :
    (c₁.place id next).stage? = Function.update c.stage? id next := by
  have he : c₁.stage? = c.stage? := by funext i; rw [stage?, h.table.1]; rfl
  rw [← he] at hs ⊢
  cases next with
  | none => exact Tasks.stageOf_filter
  | some st =>
      refine (Tasks.stageOf_map (fun t : Task => { t with stage := st }) (fun _ => rfl)
        fun _ => rfl).trans ?_
      change Function.update c₁.stage? id ((c₁.stage? id).map fun _ => st) = _
      rw [hs, Option.map_some]

theorem Turn.mine (h : Turn c id stage r c₁ next out) (hs : c.stage? id = some stage) :
    (c₁.place id next).stage? id = next := by
  rw [h.stage_place hs, Function.update_self]

theorem Turn.other (h : Turn c id stage r c₁ next out) (hs : c.stage? id = some stage)
    (hn : n ≠ id) : (c₁.place id next).stage? n = c.stage? n := by
  rw [h.stage_place hs, Function.update_of_ne hn]

theorem Turn.tidy (h : Turn c id stage r c₁ next out) (hS : c.Sound) :
    Tasks.Tidy Task.id (c₁.place id next).tasks (c₁.place id next).nextTask := by
  have ht : Tasks.Tidy Task.id c₁.tasks c₁.nextTask := by
    rw [h.table.1, h.table.2]
    exact hS.tidy
  cases next with
  | none => exact ht.filter _
  | some st => exact ht.map _ fun _ => rfl

/-! ## Every turn keeps a connection sound -/

theorem Turn.link (h : Turn c id stage r c₁ next out) :
    Link.Moves c.link id stage.activity c₁.link (next.bind Stage.activity) := by
  cases h with
  | beginAttach => exact .move .beginAttach
  | fail => exact .none
  | attach h | opened h => exact .move (Link.move_of_resumeAttach h)
  | abandon h => exact .close (Link.move_of_resumeAttach h)
  | read h | report h => exact .move (Link.move_of_resumeReading h)
  | lose h => exact .close (Link.move_of_resumeReading h)
  | leave => exact .move .beginClosing
  | close hc h | closed hc h => cases hc <;> exact .move (Link.move_of_resumeClosing h)

theorem Turn.roles (h : Turn c id stage r c₁ next out) (hs : c.stage? id = some stage) :
    activities (c₁.place id next).stage? =
      Function.update (activities c.stage?) id (next.bind Stage.activity) := by
  rw [h.stage_place hs, activities_update]

theorem Turn.sound (h : Turn c id stage r c₁ next out) (hS : c.Sound)
    (hs : c.stage? id = some stage) : (c₁.place id next).Sound := by
  refine ⟨h.tidy hS, ?_⟩
  rw [place_link, h.roles hs]
  exact h.link.sound hS.link (activities_of_stage hs)

/-! ## What is asked for -/

/-- A connection that was just closed. -/
def shut (c : Connection) : Connection :=
  { c with phase := .closed, link := c.link.markClosed.signal .close }

theorem close_eq (hp : c.phase ≠ .closed) (background : Bool) :
    c.close background = if background then (c.shut.spawn .leaving).2 else c.shut := by
  rw [Connection.close, if_neg hp]
  rfl

theorem close_phase (c : Connection) (background : Bool) : (c.close background).phase = .closed := by
  by_cases hp : c.phase = .closed
  · rw [Connection.close, if_pos hp, hp]
  · rw [close_eq hp]
    cases background <;> rfl

theorem close_link (hp : c.phase ≠ .closed) (background : Bool) :
    (c.close background).link = c.link.markClosed.signal .close := by
  rw [close_eq hp]
  cases background <;> rfl

theorem Sound.congr (h : c.Sound) (ht : c'.tasks = c.tasks) (hn : c'.nextTask = c.nextTask)
    (hl : c'.link.Sound (activities c.stage?)) : c'.Sound := by
  have he : c'.stage? = c.stage? := by funext i; rw [stage?, ht]; rfl
  refine ⟨?_, ?_⟩
  · rw [ht, hn]
    exact h.tidy
  · rw [he]
    exact hl

theorem Sound.shut (h : c.Sound) : c.shut.Sound := h.congr rfl rfl (h.link.signals _ _)

theorem Sound.spawn (h : c.Sound)
    (hm : Link.Moves c.link c.nextTask none c.link st.activity) : (c.spawn st).2.Sound := by
  refine ⟨h.tidy.append rfl, ?_⟩
  rw [stage?_spawn h, activities_update]
  exact hm.sound h.link (by simp [activities, h.fresh])

theorem Asks.sound (h : Asks c a c' e) (hS : c.Sound) : c'.Sound := by
  cases h with
  | connect =>
      have hS' : ({ c with phase := .connecting } : Connection).Sound := hS.congr rfl rfl hS.link
      exact hS'.spawn .none
  | read => exact hS.spawn (.move .beginReading)
  | write => exact hS.congr rfl rfl (hS.link.write _)
  | @close _ background _ _ hp =>
      have hc : (c.close background).Sound := by
        rw [close_eq hp]
        cases background with
        | true => exact hS.shut.spawn .none
        | false => exact hS.shut
      exact hc.congr rfl rfl hc.link
  | aside => exact hS.congr rfl rfl hS.link
  | send hr => exact hS.congr rfl rfl (hS.link.resumeWrite hr)

theorem sound_create (t : Config.Tuning) : (create t).Sound := ⟨.nil, Link.sound_create t⟩

/-- A connection is sound wherever a run gets to. -/
theorem sound_of_run (h : (machine t).Run ms c) : c.Sound := by
  refine h.invariant (sound_create t) fun hp hS => ?_
  cases does_of_perform hp with
  | ask h => exact h.sound hS
  | turn hs ht => exact ht.sound hS hs

/-- What is asked for lets one task begin at most: to connect, to read or to close. -/
theorem Asks.table (h : Asks c a c' e) (hS : c.Sound) :
    c'.stage? = c.stage? ∨ ∃ st, c'.stage? = Function.update c.stage? c.nextTask (some st) ∧
      ((∃ target, st = .connecting target) ∧ c.phase = .idle ∧ c'.phase = .connecting ∨
        st = .reading .start ∧ c.isOpen = true ∧ a = .read ∧
          e.started = some (.task c.nextTask) ∨
        st = .leaving ∧ c'.phase = .closed) := by
  cases h with
  | @connect _ _ target _ hp =>
      have hS' : ({ c with phase := .connecting } : Connection).Sound := hS.congr rfl rfl hS.link
      exact .inr ⟨_, stage?_spawn hS' _, .inl ⟨⟨target, rfl⟩, hp, rfl⟩⟩
  | read ho => exact .inr ⟨_, stage?_spawn hS _, .inr (.inl ⟨rfl, ho, rfl, rfl⟩)⟩
  | write | aside | send => exact .inl rfl
  | @close _ background owned _ hp =>
      have he : ({ c.close background with owned } : Connection).stage? =
          (c.close background).stage? := rfl
      have hc : ({ c.close background with owned } : Connection).phase = .closed :=
        close_phase c background
      rw [he, hc, close_eq hp]
      cases background with
      | false => exact .inl rfl
      | true => exact .inr ⟨_, stage?_spawn hS.shut _, .inr (.inr ⟨rfl, rfl⟩)⟩

theorem Asks.keep (h : Asks c a c' e) (hS : c.Sound) (hs : c.stage? n = some stage) :
    c'.stage? n = some stage := by
  have hn := Nat.ne_of_lt (hS.lt hs)
  rcases h.table hS with he | ⟨st, he, -⟩ <;> rw [he]
  · exact hs
  · rwa [Function.update_of_ne hn]

theorem Asks.link (h : Asks c a c' e) (hS : c.Sound) :
    Link.Aside c.link (activities c.stage?) c'.link (activities c'.stage?) := by
  have hacts : activities c'.stage? = activities c.stage? ∨ ∃ n, activities c.stage? n = none ∧
      activities c'.stage? = Function.update (activities c.stage?) n (some (.reading .start)) := by
    have hnone : activities c.stage? c.nextTask = none := by simp [activities, hS.fresh]
    rcases h.table hS with he | ⟨st, he, ⟨⟨target, rfl⟩, -⟩ | ⟨rfl, -⟩ | ⟨rfl, -⟩⟩ <;> rw [he]
    · exact .inl rfl
    · rw [activities_update]
      exact .inl (Function.update_eq_self_iff.mpr hnone.symm)
    · exact .inr ⟨_, hnone, activities_update⟩
    · rw [activities_update]
      exact .inl (Function.update_eq_self_iff.mpr hnone.symm)
  cases h with
  | connect | read | aside => exact ⟨rfl, rfl, rfl, fun h => h, fun h => h, hacts⟩
  | write => exact ⟨rfl, rfl, by simp [Link.write], fun h => h, fun h => h, hacts⟩
  | @close _ background owned _ hp =>
      have hlink : ({ c.close background with owned } : Connection).link =
          c.link.markClosed.signal .close := close_link hp background
      rw [hlink]
      refine ⟨rfl, rfl, rfl, fun ho => (by cases ho), fun _ => ?_, hacts⟩
      change (c.link.wake.signal .close).pending.isSome = true
      simp
  | send hr => exact Link.aside_of_resumeWrite hr

/-! ## One stream at most -/

/-- Whether a task at a stage brings a stream. -/
def Stage.calls : Stage → Bool
  | .connecting _ | .attaching _ _ => true
  | _ => false

/-- Whether a task at a stage is there because the connection was closed. -/
def Stage.closes : Stage → Bool
  | .abandoning _ | .ending _ _ | .leaving | .closing _ => true
  | _ => false

/-- A connection that has no stream yet, and no reads. -/
structure Unused (c : Connection) : Prop where
  link : c.link.Bare
  unread : ∀ n g, c.stage? n ≠ some (.reading g)

/-- One task at most brings a stream, to a connection that has none. -/
structure Once (c : Connection) : Prop where
  unique : ∀ {n m st st'}, c.stage? n = some st → c.stage? m = some st' → st.calls = true →
    st'.calls = true → n = m
  idle : c.phase = .idle → ∀ n st, c.stage? n = some st → st.calls = false
  unused : c.phase = .idle ∨ (∃ n st, c.stage? n = some st ∧ st.calls = true) → c.Unused
  closes : ∀ {n st}, c.stage? n = some st → st.closes = true → c.phase = .closed
  shut : c.phase = .closed → c.link.isOpen = false

theorem Turn.of_attaching {target : Target} {k : Link.Attach}
    (h : Turn c id (.attaching target k) r c₁ next out) :
    (∃ x, k = .reader x ∧ next = some (.attaching target (.writer x))) ∨
      (next = some (.abandoning .reader) ∧ c.phase = .closed) ∨ next = none ∧ c.phase ≠ .closed := by
  cases h with
  | attach h =>
      cases Link.move_of_resumeAttach h with
      | haveReader => exact .inl ⟨_, rfl, rfl⟩
  | abandon _ hp => exact .inr (.inl ⟨rfl, hp⟩)
  | opened _ hp => exact .inr (.inr ⟨rfl, hp⟩)
  | close hc | closed hc => cases hc

theorem Turn.to_calls (h : Turn c id stage r c₁ next out) (hn : next = some st)
    (hst : st.calls = true) : stage.calls = true := by
  cases h with
  | close hc => cases hc <;> cases hn <;> cases hst
  | _ => first | rfl | (cases hn <;> cases hst)

theorem Turn.to_reading {g : Link.Reading} (h : Turn c id stage r c₁ next out)
    (hn : next = some (.reading g)) : ∃ g', stage = .reading g' := by
  cases h with
  | read => exact ⟨_, rfl⟩
  | close hc => cases hc <;> cases hn
  | _ => cases hn

theorem Turn.to_closes (h : Turn c id stage r c₁ next out) (hn : next = some st)
    (hst : st.closes = true) : stage.closes = true ∨ c₁.phase = .closed := by
  cases h with
  | abandon _ hp => exact .inr hp
  | lose => exact .inr rfl
  | leave => exact .inl rfl
  | close hc => cases hc <;> exact .inl rfl
  | _ => cases hn <;> cases hst

/-- Closing is for good, and no connection becomes idle. -/
theorem Turn.phase (h : Turn c id stage r c₁ next out) :
    (c.phase = .closed → c₁.phase = .closed) ∧ (c₁.phase = .idle → c.phase = .idle) := by
  cases h with
  | fail | lose => exact ⟨fun _ => rfl, fun h => (by cases h)⟩
  | opened _ hp => exact ⟨fun h => absurd h hp, fun h => (by cases h)⟩
  | _ => exact ⟨fun h => h, fun h => h⟩

/-- A step closes a connection if no stream came, or a read saw the end of it. -/
theorem Turn.ends (h : Turn c id stage r c₁ next out) (hc : c.phase ≠ .closed)
    (hc₁ : c₁.phase = .closed) :
    ((∃ target, stage = .connecting target) ∧ c₁.link = c.link ∧ next = none) ∨
      (∃ x result, stage = .reading (.reading x) ∧ r = .read result) ∧
        c₁.link.isOpen = false ∧ ∃ o, next = some (.ending o .reader) := by
  cases h with
  | @fail target => exact .inl ⟨⟨target, rfl⟩, rfl, rfl⟩
  | @lose g r link ev hr he =>
      refine .inr ⟨?_, rfl, _, rfl⟩
      rcases Link.seen_of_resumeReading hr with (rfl | rfl) | ⟨x, rfl, ⟨s, -, -, rfl⟩ | ⟨result, -, rfl, -⟩⟩
      · cases he
      · cases he
      · cases he
      · exact ⟨x, result, rfl, rfl⟩
  | opened => cases hc₁
  | _ => exact absurd hc₁ hc

theorem Turn.callers (h : Turn c id stage r c₁ next out) (hs : c.stage? id = some stage)
    (hn : (c₁.place id next).stage? n = some st) (hst : st.calls = true) :
    ∃ st', c.stage? n = some st' ∧ st'.calls = true := by
  by_cases hne : n = id
  · subst hne
    exact ⟨stage, hs, h.to_calls ((h.mine hs).symm.trans hn) hst⟩
  · exact ⟨st, (h.other hs hne).symm.trans hn, hst⟩

/-- A stream is brought to an unused connection until it is attached. -/
theorem Once.unused_turn (h : c.Once) (hs : c.stage? id = some stage)
    (ht : Turn c id stage r c₁ next out)
    (hu : c₁.phase = .idle ∨ ∃ n st, (c₁.place id next).stage? n = some st ∧ st.calls = true) :
    (c₁.place id next).Unused := by
  have hu' : c.Unused := by
    refine h.unused (hu.imp ht.phase.2 ?_)
    rintro ⟨i, st, hi, hst⟩
    obtain ⟨st', hi, hst'⟩ := ht.callers hs hi hst
    exact ⟨i, st', hi, hst'⟩
  refine ⟨?_, ?_⟩
  · rw [place_link]
    refine ht.link.bare hu'.link fun x hact => ?_
    -- Whoever attaches a stream is the only one to bring one, and is done with it.
    obtain ⟨target, rfl⟩ := attaching_of_activity hact
    rcases hu with hp | ⟨i, st, hi, hst⟩
    · cases h.idle (ht.phase.2 hp) id _ hs
    · obtain ⟨st', hi', hst'⟩ := ht.callers hs hi hst
      obtain rfl := h.unique hi' hs hst' rfl
      rw [ht.mine hs] at hi
      rcases ht.of_attaching with ⟨_, hk, -⟩ | ⟨he, -⟩ | ⟨he, -⟩
      · cases hk
      · rw [he] at hi; cases hi; cases hst
      · rw [he] at hi; cases hi
  · intro i g hi
    by_cases hne : i = id
    · subst hne
      obtain ⟨g', rfl⟩ := ht.to_reading ((ht.mine hs).symm.trans hi)
      exact hu'.unread i g' hs
    · exact hu'.unread i g ((ht.other hs hne).symm.trans hi)

/-- A closed connection has a closed link, after the step of a task too. -/
theorem Once.shut_turn (h : c.Once) (hs : c.stage? id = some stage)
    (ht : Turn c id stage r c₁ next out) (hc : c₁.phase = .closed) : c₁.link.isOpen = false := by
  by_cases hc₀ : c.phase = .closed
  · rcases ht.link.isOpen (h.shut hc₀) with ho | ⟨⟨k, hk⟩, hn⟩
    · exact ho
    · obtain ⟨target, rfl⟩ := attaching_of_activity hk
      rcases ht.of_attaching with ⟨_, -, rfl⟩ | ⟨rfl, -⟩ | ⟨-, hp⟩
      · cases hn
      · cases hn
      · exact absurd hc₀ hp
  · rcases ht.ends hc₀ hc with ⟨⟨target, rfl⟩, he, -⟩ | ⟨-, ho, -⟩
    · rw [he]
      exact (h.unused (.inr ⟨id, _, hs, rfl⟩)).link.isOpen
    · exact ho

theorem Once.turn (h : c.Once) (hs : c.stage? id = some stage)
    (ht : Turn c id stage r c₁ next out) : (c₁.place id next).Once where
  unique hi hj hst hst' := by
    obtain ⟨_, hi, hst⟩ := ht.callers hs hi hst
    obtain ⟨_, hj, hst'⟩ := ht.callers hs hj hst'
    exact h.unique hi hj hst hst'
  idle hp i st hi := by
    rw [place_phase] at hp
    by_contra hst
    obtain ⟨st', hi, hst'⟩ := ht.callers hs hi (by simpa using hst)
    rw [h.idle (ht.phase.2 hp) i st' hi] at hst'
    cases hst'
  unused hu := h.unused_turn hs ht (by rwa [place_phase] at hu)
  closes {i st} hi hst := by
    rw [place_phase]
    by_cases hne : i = id
    · subst hne
      rcases ht.to_closes ((ht.mine hs).symm.trans hi) hst with h' | h'
      · exact ht.phase.1 (h.closes hs h')
      · exact h'
    · exact ht.phase.1 (h.closes ((ht.other hs hne).symm.trans hi) hst)
  shut hc := by
    rw [place_phase] at hc
    rw [place_link]
    exact h.shut_turn hs ht hc

theorem Asks.phase (h : Asks c a c' e) :
    (c.phase = .closed → c'.phase = .closed) ∧ (c'.phase = .idle → c.phase = .idle) := by
  cases h with
  | connect _ hp => exact ⟨fun h => (by rw [hp] at h; cases h), fun h => (by cases h)⟩
  | @close _ background owned _ hp =>
      have he : ({ c.close background with owned } : Connection).phase = .closed :=
        close_phase c background
      rw [he]
      exact ⟨fun _ => rfl, fun h => (by cases h)⟩
  | _ => exact ⟨fun h => h, fun h => h⟩

theorem Asks.fresh (h : Asks c a c' e) (hS : c.Sound) (hn : c'.stage? n = some st) :
    c.stage? n = some st ∨ n = c.nextTask ∧
      ((∃ target, st = .connecting target) ∧ c.phase = .idle ∧ c'.phase = .connecting ∨
        st = .reading .start ∧ c.isOpen = true ∧ a = .read ∧
          e.started = some (.task c.nextTask) ∨
        st = .leaving ∧ c'.phase = .closed) := by
  rcases h.table hS with he | ⟨st', he, hst'⟩ <;> rw [he] at hn
  · exact .inl hn
  · by_cases hne : n = c.nextTask
    · subst hne
      obtain rfl : st' = st := by simpa using hn
      exact .inr ⟨rfl, hst'⟩
    · exact .inl (by rwa [Function.update_of_ne hne] at hn)

theorem Asks.callers (h : Asks c a c' e) (hS : c.Sound) (hn : c'.stage? n = some st)
    (hst : st.calls = true) :
    c.stage? n = some st ∨ n = c.nextTask ∧ c.phase = .idle ∧ c'.phase = .connecting := by
  rcases h.fresh hS hn with hn | ⟨rfl, ⟨-, hp⟩ | ⟨rfl, -⟩ | ⟨rfl, -⟩⟩
  · exact .inl hn
  · exact .inr ⟨rfl, hp⟩
  · cases hst
  · cases hst

theorem Once.unused_ask (h : c.Once) (hS : c.Sound) (ha : Asks c a c' e)
    (hu : c'.phase = .idle ∨ ∃ n st, c'.stage? n = some st ∧ st.calls = true) : c'.Unused := by
  have hu' : c.Unused := by
    rcases hu with hp | ⟨i, st, hi, hst⟩
    · exact h.unused (.inl (ha.phase.2 hp))
    · rcases ha.callers hS hi hst with hi | ⟨-, hp, -⟩
      · exact h.unused (.inr ⟨i, st, hi, hst⟩)
      · exact h.unused (.inl hp)
  refine ⟨(ha.link hS).bare hu'.link, ?_⟩
  intro i g hi
  rcases ha.fresh hS hi with hi | ⟨-, ⟨⟨_, hg⟩, -⟩ | ⟨-, ho, -⟩ | ⟨hg, -⟩⟩
  · exact hu'.unread i g hi
  · cases hg
  · rw [isOpen, hu'.link.isOpen, Bool.and_false] at ho
    cases ho
  · cases hg

theorem Once.shut_ask (h : c.Once) (hS : c.Sound) (ha : Asks c a c' e) (hc : c'.phase = .closed) :
    c'.link.isOpen = false := by
  by_cases hc₀ : c.phase = .closed
  · by_contra ho
    have := (ha.link hS).isOpen (by simpa using ho)
    rw [h.shut hc₀] at this
    cases this
  · cases ha with
    | connect => cases hc
    | @close _ background _ _ hp =>
        change (c.close background).link.isOpen = false
        rw [close_link hp]
        rfl
    | _ => exact absurd hc hc₀

theorem Once.ask (h : c.Once) (hS : c.Sound) (ha : Asks c a c' e) : c'.Once where
  unique hi hj hst hst' := by
    have idle : ∀ {i st}, c.phase = .idle → c.stage? i = some st → st.calls = true → False := by
      intro i st hp hi hst
      rw [h.idle hp i st hi] at hst
      cases hst
    rcases ha.callers hS hi hst with hi | ⟨rfl, hp, -⟩ <;>
      rcases ha.callers hS hj hst' with hj | ⟨rfl, hp', -⟩
    · exact h.unique hi hj hst hst'
    · exact (idle hp' hi hst).elim
    · exact (idle hp hj hst').elim
    · rfl
  idle hp i st hi := by
    by_contra hst
    have hst : st.calls = true := by simpa using hst
    rcases ha.callers hS hi hst with hi | ⟨-, -, hp'⟩
    · rw [h.idle (ha.phase.2 hp) i st hi] at hst
      cases hst
    · rw [hp] at hp'
      cases hp'
  unused := h.unused_ask hS ha
  closes hi hst := by
    rcases ha.fresh hS hi with hi | ⟨-, ⟨⟨_, rfl⟩, -⟩ | ⟨rfl, -⟩ | ⟨-, hp⟩⟩
    · exact ha.phase.1 (h.closes hi hst)
    · cases hst
    · cases hst
    · exact hp
  shut := h.shut_ask hS ha

/-- A stream is attached once at most, wherever a run gets to. -/
theorem once_of_run (h : (machine t).Run ms c) : c.Once := by
  induction h with
  | start =>
      refine ⟨fun hn => (by cases hn), fun _ _ _ hn => (by cases hn), fun _ => ?_,
        fun hn => (by cases hn), fun _ => rfl⟩
      exact ⟨⟨rfl, rfl, rfl⟩, fun n g hn => (by cases hn)⟩
  | @next ms c a c' e hr _ hp ih =>
      cases does_of_perform hp with
      | ask ha => exact ih.ask (sound_of_run hr) ha
      | turn hs ht => exact ih.turn hs ht

end Rfcomm.Connection
