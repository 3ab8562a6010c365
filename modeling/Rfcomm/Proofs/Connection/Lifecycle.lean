import Rfcomm.Proofs.Connection.Closing
import Rfcomm.Proofs.Link.Calls
/-!
The life of a connection. It goes one way, from idle over connecting and open to closed, and asks its
surroundings for a stream at most once. Its link is open just while it is open, its connect job reports
success just when it opens, and its peer is from then on the target of that job.
-/
namespace Rfcomm.Connection

/-- How far a phase is on the way. -/
def Phase.rank : Phase → Nat
  | idle => 0
  | connecting => 1
  | connected => 2
  | closed => 3

/-- The worker that goes on. -/
def Act.worker? : Act → Option Worker
  | step w _ => some w
  | _ => none

/-- The call for a stream that a worker begins at a moment. One that it waits for already is not begun
again as long as the worker does not go on. -/
def dial? (m : Moment) (w : Worker) : Option Target :=
  match m.after.ask w with
  | .call (.connect target) =>
    if m.before.ask w = m.after.ask w ∧ m.act.worker? ≠ some w then none else some target
  | _ => none

/-- The calls for a stream. -/
def dials (ms : List Moment) : List Target := ms.flatMap fun m => m.after.workers.filterMap (dial? m)

/-- A connect job was started for a target. -/
def Dialled (ms : List Moment) (w : Worker) (target : Target) : Prop :=
  ∃ m ∈ ms, ∃ address channel, m.act = .connect address channel ∧ m.effect.started = some w ∧
    Target.parse address channel = .ok target

/-- A connection goes one way, and its link, its connect job and its peer go along. -/
structure OneWay (ms : List Moment) (c : Connection) : Prop where
  forward : ∀ as m bs, ms = as ++ m :: bs →
    m.before.phase.rank ≤ m.after.phase.rank ∧ m.after.phase.rank ≤ c.phase.rank
  dials : (dials ms).length ≤ 1
  link : c.link.isOpen = true ↔ c.phase = .connected
  job : ∀ m ∈ ms, m.effect.outcome = some .connected ↔
    m.before.phase ≠ .connected ∧ m.after.phase = .connected
  alone : (∀ m ∈ ms, m.effect.outcome ≠ some .connected) → c.peer = none
  peer : ∀ as m bs, ms = as ++ m :: bs → m.effect.outcome = some .connected →
    ∃ w r target, m.act = .step w r ∧ Dialled as w target ∧ c.peer = some target
  refused : ∀ m ∈ ms, ∀ address channel, m.act = .connect address channel →
    (m.effect.refused.isSome = true ↔
      (∃ e, Target.parse address channel = .error e) ∨ m.before.phase ≠ .idle) ∧
    (m.effect.refused.isSome = true → m.after = m.before)

variable {c c' c₁ : Connection} {id n : Nat} {stage st : Stage} {next : Option Stage} {r : Reply}
  {out : Option Outcome} {a : Act} {e : Effect} {ms ns as bs : List Moment} {m : Moment}
  {w : Worker} {t : Config.Tuning} {target : Target}

/-! ## One way -/

theorem Phase.rank_le (p : Phase) : p.rank ≤ 3 := by cases p <;> decide

theorem Phase.rank_le_of_open {p : Phase} (h : p ≠ .closed) : p.rank ≤ 2 := by
  cases p <;> first | decide | exact absurd rfl h

theorem Asks.rank (h : Asks c a c' e) : c.phase.rank ≤ c'.phase.rank := by
  cases h with
  | connect _ hp => rw [hp]; exact Nat.zero_le _
  | @close _ background owned _ hp =>
      change c.phase.rank ≤ (c.close background).phase.rank
      rw [close_phase]
      exact c.phase.rank_le
  | _ => exact Nat.le_refl _

theorem Turn.rank (h : Turn c id stage r c₁ next out) : c.phase.rank ≤ c₁.phase.rank := by
  cases h with
  | fail | lose => exact c.phase.rank_le
  | opened _ hp => exact Phase.rank_le_of_open hp
  | _ => exact Nat.le_refl _

theorem rank_of_perform (h : c.perform a = some (c', e)) : c.phase.rank ≤ c'.phase.rank := by
  cases does_of_perform h with
  | ask h => exact h.rank
  | turn _ ht => rw [place_phase]; exact ht.rank

theorem rank_of_run (h : (machine t).Run (ms ++ m :: ns) c) :
    m.before.phase.rank ≤ m.after.phase.rank ∧ m.after.phase.rank ≤ c.phase.rank := by
  obtain ⟨-, -, hp, -⟩ := h.moment
  refine ⟨rank_of_perform hp, ?_⟩
  have hrun : (machine t).Run ((ms ++ [m]) ++ ns) c := by simpa using h
  refine hrun.since (P := fun _ c => m.after.phase.rank ≤ c.phase.rank) ?_ ?_
  · intro c₀ h₀
    exact Nat.le_of_eq (congrArg (·.phase.rank) h₀.unsnoc.2.2.2)
  · intro _ c a c' e _ _ hp ih
    exact Nat.le_trans ih (rank_of_perform hp)

/-! ## The link -/

/-- An open link stays open until somebody closes it. -/
theorem stays_open {l l' : Link} {b b' : Option Link.Activity} (h : Link.Moves l n b l' b')
    (ho : l.isOpen = true) : l'.isOpen = true ∨ b' = some (.closing .reader) := by
  cases h with
  | none => exact .inl ho
  | close => exact .inr rfl
  | move h =>
      cases h with
      | attach => exact .inl rfl
      | beginClosing => exact .inr rfl
      | _ => exact .inl ho

theorem closes_of_activity {k : Link.Closing} (h : stage.activity = some (.closing k)) :
    stage.closes = true := by
  cases stage <;> first | rfl | cases h

/-- When a task goes on, the link is open just if the connection is. -/
theorem Turn.isOpen_iff (h : Turn c id stage r c₁ next out)
    (hO₁ : (c₁.place id next).Once) (hs : c.stage? id = some stage)
    (ih : c.link.isOpen = true ↔ c.phase = .connected) :
    c₁.link.isOpen = true ↔ c₁.phase = .connected := by
  have closed : c₁.phase = .closed → c₁.link.isOpen = false := fun hc => by
    have := hO₁.shut (by rw [place_phase]; exact hc)
    rwa [place_link] at this
  constructor
  · intro ho
    by_cases hl : c.link.isOpen = true
    · have hp := ih.mp hl
      have hr := h.rank
      rw [hp] at hr
      cases hp₁ : c₁.phase with
      | connected => rfl
      | closed => rw [closed hp₁] at ho; cases ho
      | idle | connecting => rw [hp₁] at hr; simp [Phase.rank] at hr
    · -- A link is opened by the task that attaches a stream.
      rcases h.link.isOpen (by simpa using hl) with h' | ⟨⟨k, hk⟩, hn⟩
      · rw [ho] at h'; cases h'
      · obtain ⟨target, rfl⟩ := attaching_of_activity hk
        cases h with
        | opened => rfl
        | attach | abandon => cases hn
        | close hc | closed hc => cases hc
  · intro hp₁
    have notClosing : next.bind Stage.activity ≠ some (.closing .reader) := by
      intro hn
      obtain ⟨st, rfl, hst⟩ := Option.bind_eq_some_iff.mp hn
      have := hO₁.closes (n := id) (h.mine hs) (closes_of_activity hst)
      rw [place_phase, hp₁] at this
      cases this
    by_cases hl : c.link.isOpen = true
    · exact (stays_open h.link hl).resolve_right notClosing
    · cases h with
      | @opened target k r link u hr =>
          cases Link.move_of_resumeAttach hr with
          | attach => rfl
      | fail | lose => cases hp₁
      | _ => exact absurd (ih.mpr hp₁) hl

theorem isOpen_iff (h : (machine t).Run ms c) : c.link.isOpen = true ↔ c.phase = .connected := by
  induction h with
  | start => exact ⟨fun h => (by cases h), fun h => (by cases h)⟩
  | @next ms c a c' e hr ha hp ih =>
      have hO' := once_of_run (hr.next ha hp)
      cases does_of_perform hp with
      | ask ha =>
          cases ha with
          | connect _ hi =>
              refine ⟨fun ho => ?_, fun h => (by cases h)⟩
              cases ((once_of_run hr).unused (.inl hi)).link.isOpen.symm.trans ho
          | read | write | aside => exact ih
          | @close _ background owned _ hopen =>
              have hc : ({ c.close background with owned } : Connection).phase = .closed :=
                close_phase c background
              rw [hO'.shut hc, hc]
              exact ⟨fun h => (by cases h), fun h => (by cases h)⟩
          | send hr' =>
              obtain ⟨⟨q, result⟩, -, he⟩ := Option.map_eq_some_iff.mp hr'
              cases he
              exact ih
      | turn hs ht =>
          rw [place_phase, place_link]
          exact ht.isOpen_iff hO' hs ih

/-! ## The connect job -/

/-- What ends a connection is never reported as its opening. -/
theorem ending_of_run {o : Outcome} {k : Link.Closing} (h : (machine t).Run ms c)
    (hs : c.stage? n = some (.ending o k)) : o ≠ .connected := by
  induction h generalizing n o k with
  | start => cases hs
  | @next ms c a c' e hr _ hp ih =>
      cases does_of_perform hp with
      | ask ha =>
          rcases ha.fresh (sound_of_run hr) hs with hs | ⟨-, ⟨⟨_, he⟩, -⟩ | ⟨he, -⟩ | ⟨he, -⟩⟩
          · exact ih hs
          · cases he
          · cases he
          · cases he
      | @turn id _ _ _ _ _ hid ht =>
          by_cases hn : n = id
          · subst hn
            have hnext := (ht.mine hid).symm.trans hs
            cases ht with
            | @lose _ _ _ ev _ hev =>
                cases hnext
                cases ev <;> first | (cases hev; done) | simp [outcome]
            | close hc =>
                cases hc <;> cases hnext
                exact ih hid
            | _ => cases hnext
          · exact ih ((ht.other hid hn).symm.trans hs)

/-- The task that attaches the stream reports the opening, and nobody else. -/
theorem Turn.connected_iff (h : Turn c id stage r c₁ next out) (hO : c.Once)
    (hl : c.link.isOpen = true ↔ c.phase = .connected) (hs : c.stage? id = some stage)
    (he : ∀ o k, stage = .ending o k → o ≠ .connected) :
    out = some .connected ↔ c.phase ≠ .connected ∧ c₁.phase = .connected := by
  have same : c₁.phase = c.phase → out ≠ some .connected →
      (out = some .connected ↔ c.phase ≠ .connected ∧ c₁.phase = .connected) := by
    intro hp ho
    rw [hp]
    exact ⟨fun h => absurd h ho, fun h => absurd h.2 h.1⟩
  cases h with
  | opened =>
      refine ⟨fun _ => ⟨fun hc => ?_, rfl⟩, fun _ => rfl⟩
      cases (hO.unused (.inr ⟨id, _, hs, rfl⟩)).link.isOpen.symm.trans (hl.mpr hc)
  | fail | lose => exact ⟨fun h => (by cases h), fun h => (by cases h.2)⟩
  | @report _ _ _ ev _ hev =>
      refine same rfl ?_
      cases ev <;> simp [outcome]
  | closed hc =>
      refine same rfl ?_
      cases hc with
      | ending => exact fun ho => he _ _ rfl (Option.some.inj ho)
      | abandoning | closing => simp
  | _ => exact same rfl (by simp)

theorem Asks.not_connected (h : Asks c a c' e) :
    e.outcome ≠ some .connected ∧ (c'.phase = .connected → c.phase = .connected) := by
  cases h with
  | connect => exact ⟨by simp, fun h => (by cases h)⟩
  | @close _ background owned _ hp =>
      have hc : ({ c.close background with owned } : Connection).phase = .closed :=
        close_phase c background
      rw [hc]
      exact ⟨by simp, fun h => (by cases h)⟩
  | read | write | aside => exact ⟨by simp, id⟩
  | @send _ _ _ result =>
      refine ⟨?_, id⟩
      cases result with
      | none => simp
      | some result => cases result <;> simp [Outcome.ofExcept, Except.mapError]

theorem connected_iff (h : (machine t).Run (ms ++ m :: ns) c) :
    m.effect.outcome = some .connected ↔
      m.before.phase ≠ .connected ∧ m.after.phase = .connected := by
  obtain ⟨hr, -, hp, -⟩ := h.moment
  generalize m.after = c₁ at hp ⊢
  generalize m.effect = e at hp ⊢
  generalize m.act = a at hp
  cases does_of_perform hp with
  | ask ha =>
      obtain ⟨ho, hphase⟩ := ha.not_connected
      exact ⟨fun h => absurd h ho, fun h => absurd (hphase h.2) h.1⟩
  | turn hs ht =>
      rw [place_phase]
      refine ht.connected_iff (once_of_run hr) (isOpen_iff hr) hs ?_
      rintro o k rfl
      exact ending_of_run hr hs

/-! ## Calls for a stream -/

theorem stage_of_ask {k : Call} (h : c.ask (.task n) = .call k) : ∃ st, c.stage? n = some st := by
  cases hs : c.stage? n with
  | some st => exact ⟨st, rfl⟩
  | none =>
      have hn : c.tasks.find? (·.id = n) = none := by simpa [stage?, Tasks.stageOf] using hs
      simp [ask, hn] at h

theorem connecting_of_ask (h : c.ask w = .call (.connect target)) :
    ∃ n, w = .task n ∧ c.stage? n = some (.connecting target) := by
  cases w with
  | write n =>
      obtain ⟨x, send, -, he | he⟩ := Link.sending_of_askWrite h <;> cases he
  | task n =>
      obtain ⟨st, hs⟩ := stage_of_ask h
      refine ⟨n, rfl, ?_⟩
      rw [ask_task hs] at h
      cases hst : st.activity with
      | some act =>
          rw [askStage_activity c n hst] at h
          obtain ⟨x, -, he, -⟩ | ⟨x, -, he⟩ := act.of_call h <;> cases he
      | none =>
          cases st with
          | connecting target' => cases h; exact hs
          | leaving => cases h
          | _ => cases hst

/-- Only a connection that was idle asks for a stream, and does so by one task. -/
theorem dial_of_perform (hS : c.Sound) (h : c.perform a = some (c', e))
    (hd : dial? ⟨c, a, c', e⟩ w = some target) :
    c.phase = .idle ∧ c'.phase = .connecting ∧ w = .task c.nextTask := by
  unfold dial? at hd
  split at hd
  · rename_i target' hask
    obtain ⟨hne, -⟩ := Option.ite_none_left_eq_some.mp hd
    obtain ⟨n, rfl, hs⟩ := connecting_of_ask hask
    have new : a.worker? ≠ some (.task n) → c.stage? n ≠ some (.connecting target') := by
      intro hw hs₀
      rw [hask, ask_task hs₀] at hne
      exact hne ⟨rfl, hw⟩
    cases does_of_perform h with
    | ask ha =>
        have hw : a.worker? ≠ some (.task n) := by
          intro hw
          cases a with
          | step w r => cases hw; exact ha.not_task rfl
          | _ => cases hw
        rcases ha.fresh hS hs with hs₀ | ⟨rfl, ⟨-, hp⟩ | ⟨he, -⟩ | ⟨he, -⟩⟩
        · exact absurd hs₀ (new hw)
        · exact ⟨hp.1, hp.2, rfl⟩
        · cases he
        · cases he
    | @turn id _ _ _ next _ hid ht =>
        by_cases hn : n = id
        · subst hn
          rw [ht.mine hid] at hs
          cases ht with
          | close hc => cases hc <;> cases hs
          | _ => cases hs
        · refine absurd ((ht.other hid hn).symm.trans hs) (new fun hw => ?_)
          cases hw
          exact hn rfl
  · cases hd

theorem workers_nodup (hS : c.Sound) : c.workers.Nodup := by
  have hq : (c.link.queue.tasks.map (·.id)).Nodup := by
    cases hS.link.fifo with
    | idle _ ht => simp [ht]
    | serving _ _ _ _ ht => simp [ht]
  have ht : (c.tasks.map (.task ·.id : Task → Worker)).Nodup := by
    rw [show (.task ·.id : Task → Worker) = Worker.task ∘ Task.id from rfl, ← List.map_map]
    exact hS.tidy.nodup.map fun _ _ h => Worker.task.inj h
  have hw : (c.link.queue.tasks.map (.write ·.id : WriteQueue.Task → Worker)).Nodup := by
    rw [show (.write ·.id : WriteQueue.Task → Worker) = Worker.write ∘ WriteQueue.Task.id from rfl,
      ← List.map_map]
    exact hq.map fun _ _ h => Worker.write.inj h
  refine List.nodup_append'.mpr ⟨ht, hw, ?_⟩
  intro w hw₁ hw₂
  obtain ⟨_, -, rfl⟩ := List.mem_map.mp hw₁
  obtain ⟨_, -, he⟩ := List.mem_map.mp hw₂
  cases he

theorem length_filterMap_le_one {α β : Type} {f : α → Option β} {l : List α} {x : α} (hl : l.Nodup)
    (h : ∀ y ∈ l, ∀ z, f y = some z → y = x) : (l.filterMap f).length ≤ 1 := by
  induction l with
  | nil => exact Nat.zero_le _
  | cons y l ih =>
      obtain ⟨hy, hl⟩ := List.nodup_cons.mp hl
      have tail := ih hl fun z hz => h z (List.mem_cons_of_mem _ hz)
      cases hf : f y with
      | none => simpa [hf] using tail
      | some b =>
          obtain rfl := h y (List.mem_cons_self) b hf
          have : l.filterMap f = [] := by
            rw [List.filterMap_eq_nil_iff]
            intro z hz
            by_contra hne
            obtain ⟨b', hb⟩ := Option.ne_none_iff_exists'.mp hne
            exact hy (h z (List.mem_cons_of_mem _ hz) b' hb ▸ hz)
          simp [hf, this]

theorem dials_of_run (h : (machine t).Run ms c) :
    (dials ms).length ≤ 1 ∧ (c.phase = .idle → dials ms = []) := by
  induction h with
  | start => exact ⟨Nat.zero_le _, fun _ => rfl⟩
  | @next ms c a c' e hr ha hp ih =>
      have hnew : ∀ w target, dial? ⟨c, a, c', e⟩ w = some target →
          c.phase = .idle ∧ c'.phase = .connecting ∧ w = .task c.nextTask :=
        fun w target => dial_of_perform (sound_of_run hr) hp
      have hd : dials (ms ++ [⟨c, a, c', e⟩]) =
          dials ms ++ c'.workers.filterMap (dial? ⟨c, a, c', e⟩) := by simp [dials]
      rw [hd]
      by_cases hnone : c'.workers.filterMap (dial? ⟨c, a, c', e⟩) = []
      · rw [hnone, List.append_nil]
        refine ⟨ih.1, fun hp' => ih.2 ?_⟩
        have := rank_of_perform hp
        rw [hp'] at this
        cases hc : c.phase <;> first | rfl | (rw [hc] at this; simp [Phase.rank] at this)
      · obtain ⟨target, hmem⟩ := List.exists_mem_of_ne_nil _ hnone
        obtain ⟨w, -, hw⟩ := List.mem_filterMap.mp hmem
        obtain ⟨hidle, hphase, -⟩ := hnew w target hw
        rw [ih.2 hidle, List.nil_append]
        refine ⟨length_filterMap_le_one (workers_nodup (sound_of_run (hr.next ha hp)))
          fun w _ target hw => (hnew w target hw).2.2, fun hi => ?_⟩
        rw [hphase] at hi
        cases hi

/-! ## The peer -/

/-- The target of the connect job that a task at a stage is. -/
def Stage.target? : Stage → Option Target
  | .connecting target | .attaching target _ => some target
  | _ => none

theorem place_peer (c : Connection) : (c.place id next).peer = c.peer := by cases next <;> rfl

theorem close_peer (c : Connection) (background : Bool) : (c.close background).peer = c.peer := by
  by_cases hp : c.phase = .closed
  · rw [Connection.close, if_pos hp]
  · rw [close_eq hp]
    cases background <;> rfl

theorem Asks.peer (h : Asks c a c' e) : c'.peer = c.peer := by
  cases h with
  | @close _ background => exact close_peer c background
  | _ => rfl

/-- The peer comes with the report that the connection is open. -/
theorem Turn.peer (h : Turn c id stage r c₁ next out) :
    c₁.peer = c.peer ∧ (out = some .connected → ∃ o k, stage = .ending o k) ∨
      out = some .connected ∧ c₁.peer = stage.target? ∧ stage.target?.isSome = true := by
  cases h with
  | opened => exact .inr ⟨rfl, rfl, rfl⟩
  | @report _ _ _ ev _ hev =>
      refine .inl ⟨rfl, fun ho => ?_⟩
      cases ev <;> cases ho
  | closed hc =>
      refine .inl ⟨rfl, fun ho => ?_⟩
      cases hc with
      | ending => exact ⟨_, _, rfl⟩
      | abandoning | closing => cases ho
  | _ => exact .inl ⟨rfl, fun ho => (by cases ho)⟩

theorem dialled_append (h : Dialled ms w target) : Dialled (ms ++ ns) w target := by
  obtain ⟨m, hm, h⟩ := h
  exact ⟨m, List.mem_append_left _ hm, h⟩

theorem Turn.to_target (h : Turn c id stage r c₁ next out) (hn : next = some st)
    (ht : st.target? = some target) : stage.target? = some target := by
  cases h with
  | beginAttach | attach => cases hn; exact ht
  | close hc => cases hc <;> cases hn <;> cases ht
  | _ => cases hn <;> cases ht

/-- A task that brings a stream is the connect job that was started for its target. -/
theorem dialled_of_run (h : (machine t).Run ms c) (hs : c.stage? n = some stage)
    (ht : stage.target? = some target) : Dialled ms (.task n) target := by
  induction h generalizing n stage with
  | start => cases hs
  | @next ms c a c' e hr _ hp ih =>
      have hS := sound_of_run hr
      cases does_of_perform hp with
      | ask ha =>
          rcases ha.fresh hS hs with hs | ⟨rfl, ⟨⟨target', rfl⟩, hi, -⟩ | ⟨rfl, -⟩ | ⟨rfl, -⟩⟩
          · exact dialled_append (ih hs ht)
          · -- The job is started right now.
            cases ht
            refine ⟨_, List.mem_append_right _ (List.mem_singleton_self _), ?_⟩
            cases ha with
            | @connect address channel _ hparse =>
                rw [stage?_spawn (c := { c with phase := .connecting }) (hS.congr rfl rfl hS.link),
                  Function.update_self] at hs
                cases hs
                exact ⟨address, channel, rfl, rfl, hparse⟩
            | read =>
                rw [stage?_spawn hS, Function.update_self] at hs
                cases hs
            | @close _ background _ _ hopen =>
                have hs : (c.close background).stage? c.nextTask = some (.connecting target) := hs
                rw [close_eq hopen] at hs
                cases background with
                | false => cases hS.fresh.symm.trans hs
                | true =>
                    rw [if_pos rfl, stage?_spawn hS.shut] at hs
                    cases (Function.update_self ..).symm.trans hs
            | write | aside | send => cases hS.fresh.symm.trans hs
          · cases ht
          · cases ht
      | @turn id _ _ _ _ _ hid hturn =>
          refine dialled_append ?_
          by_cases hn : n = id
          · subst hn
            exact ih hid (hturn.to_target ((hturn.mine hid).symm.trans hs) ht)
          · exact ih ((hturn.other hid hn).symm.trans hs) ht

/-- A connection that was not opened has no peer. -/
theorem alone_of_run (h : (machine t).Run ms c)
    (hn : ∀ m ∈ ms, m.effect.outcome ≠ some .connected) : c.peer = none := by
  induction h with
  | start => rfl
  | @next ms c a c' e _ _ hp ih =>
      have old := ih fun m hm => hn m (List.mem_append_left _ hm)
      have new : e.outcome ≠ some .connected :=
        hn _ (List.mem_append_right _ (List.mem_singleton_self _))
      cases does_of_perform hp with
      | ask ha => exact ha.peer.trans old
      | turn _ ht =>
          rw [place_peer]
          rcases ht.peer with ⟨he, -⟩ | ⟨ho, -⟩
          · exact he.trans old
          · exact absurd ho new

/-- The peer of a connection that was opened stays. -/
theorem peer_since (h : (machine t).Run (ms ++ m :: ns) c)
    (ho : m.effect.outcome = some .connected) : c.peer = m.after.peer := by
  obtain ⟨-, hphase⟩ := (connected_iff h).mp ho
  have hrun : (machine t).Run ((ms ++ [m]) ++ ns) c := by simpa using h
  refine (hrun.since (P := fun _ c => 2 ≤ c.phase.rank ∧ c.peer = m.after.peer) ?_ ?_).2
  · intro c₀ h₀
    obtain ⟨-, -, -, rfl⟩ := h₀.unsnoc
    rw [hphase]
    exact ⟨Nat.le_refl _, rfl⟩
  · rintro ns c a c' e hr ha hp ⟨hrank, hpeer⟩
    have hrank' := rank_of_perform hp
    refine ⟨Nat.le_trans hrank hrank', ?_⟩
    have hnot : e.outcome ≠ some .connected := by
      intro he
      obtain ⟨hne, he'⟩ := (connected_iff (hr.next ha hp)).mp he
      have he' : c'.phase = .connected := he'
      rw [he'] at hrank'
      cases hc : c.phase <;> simp_all [Phase.rank]
    cases does_of_perform hp with
    | ask ha => exact ha.peer.trans hpeer
    | turn _ ht =>
        rw [place_peer]
        rcases ht.peer with ⟨he, -⟩ | ⟨ho, -⟩
        · exact he.trans hpeer
        · exact absurd ho hnot

theorem peer_of_run (h : (machine t).Run (as ++ m :: bs) c)
    (ho : m.effect.outcome = some .connected) :
    ∃ w r target, m.act = .step w r ∧ Dialled as w target ∧ c.peer = some target := by
  obtain ⟨hr, -, hp, -⟩ := h.moment
  rw [peer_since h ho]
  generalize m.after = c₁ at hp ⊢
  generalize m.effect = e at hp ho
  generalize m.act = a at hp ⊢
  cases does_of_perform hp with
  | ask ha => exact absurd ho ha.not_connected.1
  | turn hs ht =>
      rw [place_peer]
      rcases ht.peer with ⟨-, he⟩ | ⟨-, he, hsome⟩
      · obtain ⟨o, k, rfl⟩ := he ho
        cases ht with
        | closed hc =>
            cases hc with
            | ending => exact absurd (Option.some.inj ho) (ending_of_run hr hs)
        | close => cases ho
      · obtain ⟨target, ht⟩ := Option.isSome_iff_exists.mp hsome
        exact ⟨_, _, target, rfl, dialled_of_run hr hs ht, he.trans ht⟩

/-! ## All together -/

/-- A connect that is refused changes nothing, whenever it is asked for. -/
theorem refused_iff {address : String} {channel : UInt8}
    (h : c.perform (.connect address channel) = some (c', e)) :
    (e.refused.isSome = true ↔
      (∃ f, Target.parse address channel = .error f) ∨ c.phase ≠ .idle) ∧
    (e.refused.isSome = true → c' = c) := by
  cases ht : Target.parse address channel with
  | error f =>
      simp only [perform, connect, ht] at h
      cases h
      exact ⟨⟨fun _ => .inl ⟨f, rfl⟩, fun _ => rfl⟩, fun _ => rfl⟩
  | ok target =>
      by_cases hp : c.phase = .idle <;>
        simp only [perform, connect, ht, bind, Except.bind, hp, if_true, if_false] at h <;> cases h
      · exact ⟨by simp [hp], fun h => (by cases h)⟩
      · exact ⟨⟨fun _ => .inr hp, fun _ => rfl⟩, fun _ => rfl⟩

/-- Wherever a run gets to, a connection went one way. -/
theorem one_way (h : (machine t).Run ms c) : OneWay ms c where
  forward as m bs hms := rank_of_run (hms ▸ h)
  dials := (dials_of_run h).1
  link := isOpen_iff h
  job m hm := by
    obtain ⟨as, bs, rfl⟩ := List.append_of_mem hm
    exact connected_iff h
  alone := alone_of_run h
  peer as m bs hms := peer_of_run (hms ▸ h)
  refused m hm address channel ha := by
    obtain ⟨as, bs, rfl⟩ := List.append_of_mem hm
    obtain ⟨-, -, hp, -⟩ := h.moment
    rw [ha] at hp
    exact refused_iff hp

/-- A connection that is opened, asked to connect once more and closed; and one that is closed before
its stream is attached. -/
theorem one_way_of_two :
    (∃ ms c, (machine {}).Run ms c ∧ (dials ms).length = 1 ∧ c.phase = .closed ∧
      c.peer.isSome = true ∧ OneWay ms c) ∧
    ∃ ms c, (machine {}).Run ms c ∧ (dials ms).length = 1 ∧ c.phase = .closed ∧
      c.link.stream = some 7 ∧ c.peer = none ∧ OneWay ms c := by
  constructor
  · obtain ⟨ms, c, hp, hc⟩ := (machine {}).exists_of_play
      [.connect "00:11:22:33:44:01" 3, .step (.task 0) (.connected (.ok 7)), .step (.task 0) .go,
        .step (.task 0) .go, .connect "00:11:22:33:44:02" 4, .close true]
      (fun ms c => (dials ms).length = 1 ∧ c.phase = .closed ∧ c.peer.isSome = true)
      (by decide +kernel)
    obtain ⟨hdials, hphase, hpeer⟩ := of_decide_eq_true hc
    exact ⟨ms, c, Machine.run_of_play hp, hdials, hphase, hpeer, one_way (Machine.run_of_play hp)⟩
  · obtain ⟨ms, c, hp, hc⟩ := (machine {}).exists_of_play
      [.connect "00:11:22:33:44:01" 3, .step (.task 0) (.connected (.ok 7)), .close false,
        .step (.task 0) .go, .step (.task 0) .go]
      (fun ms c => (dials ms).length = 1 ∧ c.phase = .closed ∧ c.link.stream = some 7 ∧
        c.peer = none) (by decide +kernel)
    obtain ⟨hdials, hphase, hstream, hpeer⟩ := of_decide_eq_true hc
    exact ⟨ms, c, Machine.run_of_play hp, hdials, hphase, hstream, hpeer,
      one_way (Machine.run_of_play hp)⟩

end Rfcomm.Connection
