import Rfcomm.Proofs.Server.Machine
import Rfcomm.Proofs.Server.Turn
/-!
Servers are sound: the tasks have numbers of their own, the link is as they say, and the lock on the
advertisement is kept. What is done with a server is one of a few things, and none of them breaks
this.
-/
namespace Rfcomm.Server

/-- What a worker that gives a client up does at the link. -/
def Releasing.activity : Releasing → Option Link.Activity
  | .closing _ _ k => some (.closing k)
  | _ => none

/-- What a task at a stage does at the link. -/
def Stage.activity : Stage → Option Link.Activity
  | .attaching _ k => some (.attaching k)
  | .refusing k | .closing k => some (.closing k)
  | .losing k | .releasing k => k.activity
  | .reading _ g => some (.reading g)
  | _ => none

/-- What a worker that takes the advertisement back is at with respect to its lock. -/
def Withdrawing.atLock : Withdrawing → Lock.Role
  | .waiting => .waiting
  | .calling _ => .holding

/-- What a worker that gives a client up is at with respect to the lock on the advertisement. -/
def Releasing.atLock : Releasing → Lock.Role
  | .closing _ _ _ => .out
  | .waiting => .waiting
  | .registering _ => .holding

/-- What a task is at with respect to the lock on the advertisement. -/
def Stage.atLock : Stage → Lock.Role
  | .noting _ _ => .waiting
  | .undoing k | .welcoming _ _ k | .retiring k => k.atLock
  | .losing k | .releasing k => k.atLock
  | _ => .out

/-- What the tasks do at the link. -/
def activities (stages : Nat → Option Stage) (n : Nat) : Option Link.Activity :=
  (stages n).bind Stage.activity

/-- What everybody is at with respect to the lock on the advertisement. -/
def lockRole (stages : Nat → Option Stage) : Worker → Lock.Role
  | .task n => ((stages n).map Stage.atLock).getD .out
  | .write _ => .out

variable {s s' s₁ : Server} {id n : Nat} {stage : Stage} {next : Option Stage} {r : Reply}
  {out : Report} {stages : Nat → Option Stage} {a : Act} {e : Effect}

@[simp] theorem activities_update : activities (Function.update stages n next) =
    Function.update (activities stages) n (next.bind Stage.activity) := by
  funext m
  by_cases hm : m = n <;> simp [activities, hm]

@[simp] theorem lockRole_update : lockRole (Function.update stages n next) =
    Function.update (lockRole stages) (.task n) ((next.map Stage.atLock).getD .out) := by
  funext w
  cases w with
  | task m => by_cases hm : m = n <;> simp [lockRole, hm]
  | write m => simp [lockRole]

theorem activities_of_stage (hs : s.stage? n = some stage) :
    activities s.stage? n = stage.activity := by
  simp [activities, hs]

theorem attaching_of_activity {k : Link.Attach} (h : stage.activity = some (.attaching k)) :
    ∃ address, stage = .attaching address k := by
  cases stage with
  | attaching address k' => cases h; exact ⟨address, rfl⟩
  | losing k | releasing k => cases k <;> cases h
  | refusing k | closing k | reading generation g => cases h
  | _ => cases h

theorem stage_of_reading {g : Link.Reading} (h : activities s.stage? n = some (.reading g)) :
    ∃ generation, s.stage? n = some (.reading generation g) := by
  obtain ⟨stage, hs, ha⟩ := Option.bind_eq_some_iff.mp h
  cases stage with
  | reading generation g' => cases ha; exact ⟨generation, hs⟩
  | losing k | releasing k => cases k <;> cases ha
  | attaching address k | refusing k | closing k => cases ha
  | _ => cases ha

/-- A server that is as its tasks say. -/
structure Sound (s : Server) : Prop where
  tidy : Tasks.Tidy Task.id s.tasks s.nextTask
  link : s.link.Sound (activities s.stage?)
  lock : s.lock.Keeps (lockRole s.stage?)

/-! ## The table of tasks -/

theorem stage?_place (h : s.stage? id = some stage) :
    (s.place id next).stage? = Function.update s.stage? id next := by
  cases next with
  | none => exact Tasks.stageOf_filter
  | some st =>
      refine (Tasks.stageOf_map (fun t : Task => { t with stage := st }) (fun _ => rfl)
        fun _ => rfl).trans ?_
      change Function.update s.stage? id ((s.stage? id).map fun _ => st) = _
      rw [h, Option.map_some]

theorem tidy_place (h : Tasks.Tidy Task.id s.tasks s.nextTask) :
    Tasks.Tidy Task.id (s.place id next).tasks (s.place id next).nextTask := by
  cases next with
  | none => exact h.filter _
  | some st => exact h.map _ fun _ => rfl

theorem stage?_spawn (h : Tasks.Tidy Task.id s.tasks s.nextTask) (st : Stage) :
    (s.spawn st).2.stage? = Function.update s.stage? s.nextTask (some st) := by
  have hf : Tasks.stageOf Task.id Task.stage s.tasks (Task.id ⟨s.nextTask, st⟩) = none :=
    h.fresh (Nat.le_refl _)
  exact Tasks.stageOf_append hf

theorem tidy_spawn (h : Tasks.Tidy Task.id s.tasks s.nextTask) (st : Stage) :
    Tasks.Tidy Task.id (s.spawn st).2.tasks (s.spawn st).2.nextTask :=
  h.append rfl

theorem Sound.fresh (h : s.Sound) : s.stage? s.nextTask = none := h.tidy.fresh (Nat.le_refl _)

/-! ## What steps leave alone -/

theorem emit_fst (s : Server) (v : Event) :
    (s.emit v).1 = { s with feed := if s.feed.sending then s.feed.push v else s.feed } := by
  by_cases h : s.feed.sending = true <;> simp [emit, h]

theorem emit_snd (s : Server) (v : Event) :
    (s.emit v).2 = { events := if s.feed.sending then [v] else [] } := by
  by_cases h : s.feed.sending = true <;> simp [emit, h]

theorem rearmed_cases (s : Server) (phase : Phase) :
    s.phase = .closed ∧ s.rearmed phase = s ∨
      s.phase ≠ .closed ∧ s.rearmed phase = ({ s with phase } : Server).startAccepting := by
  by_cases h : s.phase = .closed <;> simp [rearmed, h]

/-- A table is as it was, or has a new task of the accept loop. -/
def Table (s s₁ : Server) : Prop :=
  s₁.tasks = s.tasks ∧ s₁.nextTask = s.nextTask ∨
    s₁.tasks = s.tasks ++ [⟨s.nextTask, .watching⟩] ∧ s₁.nextTask = s.nextTask + 1

theorem Withdraws.frame {k : Withdrawing} {k' : Option Withdrawing} (h : Withdraws s id k r s₁ k') :
    ∃ advertisement lock, s₁ = { s with advertisement, lock } := by
  cases h <;> exact ⟨_, _, rfl⟩

theorem rearmed_table (s : Server) (phase : Phase) : Table s (s.rearmed phase) := by
  rcases rearmed_cases s phase with ⟨-, h⟩ | ⟨-, h⟩ <;> rw [h]
  · exact .inl ⟨rfl, rfl⟩
  · exact .inr ⟨rfl, rfl⟩

theorem Releases.table {k : Releasing} {k' : Option Releasing} (h : Releases s id k r s₁ k' out) :
    Table s s₁ := by
  cases h with
  | close | late | register => exact .inl ⟨rfl, rfl⟩
  | last | line => rw [emit_fst]; exact .inl ⟨rfl, rfl⟩
  | skip | hold => exact rearmed_table _ _
  | fail => rw [emit_fst]; exact rearmed_table _ _

theorem Turn.table (h : Turn s id stage r s₁ next out) : Table s s₁ := by
  cases h with
  | bind | register | die | late | look | accept | attach | refuse | refusing | refused | read
  | report | lose | dismiss | dismissed | leave | closing | closed => exact .inl ⟨rfl, rfl⟩
  | notBound | notRegistered => unfold resetListening; split <;> exact .inl ⟨rfl, rfl⟩
  | note => exact .inr ⟨rfl, rfl⟩
  | undo h | undone h | withdraw h | beginAttach h | retire h | retired h =>
      obtain ⟨_, _, rfl⟩ := h.frame
      exact .inl ⟨rfl, rfl⟩
  | stumble | welcome => rw [emit_fst]; exact .inl ⟨rfl, rfl⟩
  | losing h | lost h | releasing h | released h => exact h.table

/-- What becomes of the table when a task goes on. -/
theorem Turn.table_place (h : Turn s id stage r s₁ next out)
    (ht : Tasks.Tidy Task.id s.tasks s.nextTask) (hs : s.stage? id = some stage) :
    Tasks.Tidy Task.id (s₁.place id next).tasks (s₁.place id next).nextTask ∧
      (s₁.nextTask = s.nextTask ∧
          (s₁.place id next).stage? = Function.update s.stage? id next ∨
        s₁.nextTask = s.nextTask + 1 ∧ (s₁.place id next).stage? =
          Function.update (Function.update s.stage? s.nextTask (some .watching)) id next) := by
  rcases h.table with ⟨ht', hn'⟩ | ⟨ht', hn'⟩
  · have he : s₁.stage? = s.stage? := by funext m; rw [stage?, ht']; rfl
    rw [stage?_place (he ▸ hs), he]
    exact ⟨tidy_place (by rw [ht', hn']; exact ht), .inl ⟨hn', rfl⟩⟩
  · have he : s₁.stage? = Function.update s.stage? s.nextTask (some .watching) := by
      rw [← stage?_spawn ht]
      funext m
      rw [stage?, ht']
      rfl
    have hn : id ≠ s.nextTask := by
      rintro rfl
      simp [stage?, ht.fresh (Nat.le_refl _)] at hs
    rw [stage?_place (show s₁.stage? id = some stage by simpa [he, hn] using hs), he]
    exact ⟨tidy_place (by rw [ht', hn']; exact tidy_spawn ht .watching), .inr ⟨hn', rfl⟩⟩

theorem Sound.lt (hS : s.Sound) (hs : s.stage? n = some stage) : n < s.nextTask := by
  by_contra hn
  rw [show s.stage? n = none from hS.tidy.fresh (Nat.le_of_not_lt hn)] at hs
  cases hs

theorem Turn.mine (h : Turn s id stage r s₁ next out) (hS : s.Sound)
    (hs : s.stage? id = some stage) : (s₁.place id next).stage? id = next := by
  obtain ⟨-, htab⟩ := h.table_place hS.tidy hs
  rcases htab with ⟨-, he⟩ | ⟨-, he⟩ <;> rw [he, Function.update_self]

/-- Of the other tasks, none changes, and at most one is new. -/
theorem Turn.other (h : Turn s id stage r s₁ next out) (hS : s.Sound)
    (hs : s.stage? id = some stage) (hn : n ≠ id) (hlt : n < s.nextTask) :
    (s₁.place id next).stage? n = s.stage? n := by
  obtain ⟨-, htab⟩ := h.table_place hS.tidy hs
  rcases htab with ⟨-, he⟩ | ⟨-, he⟩ <;> rw [he, Function.update_of_ne hn]
  rw [Function.update_of_ne (Nat.ne_of_lt hlt)]

theorem Turn.keep {st : Stage} (h : Turn s id stage r s₁ next out) (hS : s.Sound)
    (hs : s.stage? id = some stage) (hn : n ≠ id) (hst : s.stage? n = some st) :
    (s₁.place id next).stage? n = some st :=
  (h.other hS hs hn (hS.lt hst)).trans hst

theorem Turn.old {st : Stage} (h : Turn s id stage r s₁ next out) (hS : s.Sound)
    (hs : s.stage? id = some stage) (hn : n ≠ id) (hst : (s₁.place id next).stage? n = some st)
    (hw : st ≠ .watching) : s.stage? n = some st := by
  obtain ⟨-, htab⟩ := h.table_place hS.tidy hs
  rcases htab with ⟨-, he⟩ | ⟨-, he⟩ <;> rw [he, Function.update_of_ne hn] at hst
  · exact hst
  · by_cases hf : n = s.nextTask
    · subst hf
      rw [Function.update_self] at hst
      exact absurd (Option.some.inj hst).symm hw
    · rwa [Function.update_of_ne hf] at hst

theorem Turn.table_of_same (h : Turn s id stage r s₁ next out) (hS : s.Sound)
    (hs : s.stage? id = some stage) (hn : s₁.nextTask = s.nextTask) :
    (s₁.place id next).stage? = Function.update s.stage? id next := by
  rcases (h.table_place hS.tidy hs).2 with ⟨-, he⟩ | ⟨hn', -⟩
  · exact he
  · omega

/-- A task of the accept loop is begun. -/
theorem Turn.table_of_begun (h : Turn s id stage r s₁ next out) (hS : s.Sound)
    (hs : s.stage? id = some stage) (hn : s₁.nextTask = s.nextTask + 1) :
    (s₁.place id next).stage? =
      Function.update (Function.update s.stage? s.nextTask (some .watching)) id next := by
  rcases (h.table_place hS.tidy hs).2 with ⟨hn', -⟩ | ⟨-, he⟩
  · omega
  · exact he

theorem Turn.begun (h : Turn s id stage r s₁ next out) (hS : s.Sound)
    (hs : s.stage? id = some stage) (hn : s₁.nextTask = s.nextTask + 1) :
    (s₁.place id next).stage? s.nextTask = some .watching := by
  rw [h.table_of_begun hS hs hn, Function.update_of_ne (Nat.ne_of_gt (hS.lt hs)),
    Function.update_self]

/-! ## Every turn keeps a server sound -/

theorem Releases.link {k : Releasing} {k' : Option Releasing} (h : Releases s id k r s₁ k' out) :
    Link.Moves s.link id k.activity s₁.link (k'.bind Releasing.activity) := by
  cases h with
  | close h => exact .move (Link.move_of_resumeClosing h)
  | last h | line h => rw [emit_fst]; exact .move (Link.move_of_resumeClosing h)
  | late | register => exact .none
  | skip | hold =>
      rcases rearmed_cases _ _ with ⟨-, h⟩ | ⟨-, h⟩ <;> rw [h] <;> exact .none
  | fail =>
      rcases rearmed_cases _ _ with ⟨-, h⟩ | ⟨-, h⟩ <;> rw [h, emit_fst] <;> exact .none

theorem Turn.link (h : Turn s id stage r s₁ next out) :
    Link.Moves s.link id stage.activity s₁.link (next.bind Stage.activity) := by
  cases h with
  | bind | register | die | late | note | accept | dismissed | leave => exact .none
  | look h => cases h <;> cases s.listener <;> exact .none
  | notBound | notRegistered => unfold resetListening; split <;> exact .none
  | undo h | undone h | withdraw h | retire h => obtain ⟨_, _, rfl⟩ := h.frame; exact .none
  | beginAttach h => obtain ⟨_, _, rfl⟩ := h.frame; exact .move .beginAttach
  | retired h => obtain ⟨_, _, rfl⟩ := h.frame; exact .move .beginClosing
  | stumble => rw [emit_fst]; exact .none
  | attach h => exact .move (Link.move_of_resumeAttach h)
  | refuse h => exact .close (Link.move_of_resumeAttach h)
  | welcome h => rw [emit_fst]; exact .move (Link.move_of_resumeAttach h)
  | refusing h | refused h | closing h | closed h => exact .move (Link.move_of_resumeClosing h)
  | read h | report h => exact .move (Link.move_of_resumeReading h)
  | lose h => exact .close (Link.move_of_resumeReading h)
  | dismiss => exact .move .beginClosing
  | losing h | lost h | releasing h | released h => exact h.link

theorem Withdraws.lock {k : Withdrawing} {k' : Option Withdrawing} {role : Worker → Lock.Role}
    (h : Withdraws s id k r s₁ k') (hk : s.lock.Keeps role) (hr : role (.task id) = k.atLock) :
    s₁.lock.Keeps (Function.update role (.task id) ((k'.map Withdrawing.atLock).getD .out)) := by
  cases h with
  | take hl => exact hk.hold hl
  | skip hl => exact hk.leave hl
  | withdrawn => exact hk.leave (hk.first _ hr)

theorem Releases.lock {k : Releasing} {k' : Option Releasing} {role : Worker → Lock.Role}
    (h : Releases s id k r s₁ k' out) (hk : s.lock.Keeps role) (hr : role (.task id) = k.atLock) :
    s₁.lock.Keeps (Function.update role (.task id) ((k'.map Releasing.atLock).getD .out)) := by
  cases h with
  | close => exact hk.stay hr
  | last => rw [emit_fst]; exact hk.stay hr
  | line => rw [emit_fst]; exact hk.join hr
  | late hl => exact hk.leave hl
  | skip hl =>
      rcases rearmed_cases _ _ with ⟨-, h⟩ | ⟨-, h⟩ <;> rw [h] <;> exact hk.leave hl
  | register hl => exact hk.hold hl
  | hold =>
      rcases rearmed_cases _ _ with ⟨-, h⟩ | ⟨-, h⟩ <;> rw [h] <;> exact hk.leave (hk.first _ hr)
  | fail =>
      rcases rearmed_cases _ _ with ⟨-, h⟩ | ⟨-, h⟩ <;> rw [h, emit_fst] <;>
        exact hk.leave (hk.first _ hr)

theorem Turn.lock {role : Worker → Lock.Role} (h : Turn s id stage r s₁ next out)
    (hk : s.lock.Keeps role) (hr : role (.task id) = stage.atLock) :
    s₁.lock.Keeps (Function.update role (.task id) ((next.map Stage.atLock).getD .out)) := by
  cases h with
  | bind | dismissed | attach | refuse | refusing | refused | read | report | lose | dismiss
  | closing | closed => exact hk.stay hr
  | register | accept | leave => exact hk.join hr
  | die hl | note hl => exact hk.leave hl
  | late hl =>
      have := (hk.leave hl).join (Function.update_self (.task id) .out role)
      rwa [Function.update_idem] at this
  | look h => cases h <;> cases s.listener <;> exact hk.stay hr
  | notBound | notRegistered => unfold resetListening; split <;> exact hk.stay hr
  | undo h | undone h | withdraw h | retire h => exact h.lock hk hr
  | beginAttach h | retired h => exact h.lock hk hr
  | stumble | welcome => rw [emit_fst]; exact hk.stay hr
  | losing h | lost h | releasing h | released h => exact h.lock hk hr

theorem place_link (s : Server) : (s.place id next).link = s.link := by cases next <;> rfl

theorem place_lock (s : Server) : (s.place id next).lock = s.lock := by cases next <;> rfl

theorem place_client (s : Server) : (s.place id next).client = s.client := by cases next <;> rfl

theorem place_generation (s : Server) : (s.place id next).generation = s.generation := by
  cases next <;> rfl

/-- A new task that neither is at the link nor at the lock changes nothing there. -/
theorem views_update (h : stages n = none) (st : Stage) (ha : st.activity = none)
    (hl : st.atLock = .out) :
    activities (Function.update stages n (some st)) = activities stages ∧
      lockRole (Function.update stages n (some st)) = lockRole stages := by
  constructor
  · rw [activities_update, Function.update_eq_self_iff]
    simp [activities, h, ha]
  · rw [lockRole_update, Function.update_eq_self_iff]
    simp [lockRole, h, hl]

/-- What becomes of what the tasks are at when a task goes on. -/
theorem Turn.roles (h : s.Sound) (hs : s.stage? id = some stage)
    (ht : Turn s id stage r s₁ next out) :
    activities (s₁.place id next).stage? =
        Function.update (activities s.stage?) id (next.bind Stage.activity) ∧
      lockRole (s₁.place id next).stage? =
        Function.update (lockRole s.stage?) (.task id) ((next.map Stage.atLock).getD .out) := by
  obtain ⟨-, hst⟩ := ht.table_place h.tidy hs
  rcases hst with ⟨-, hst⟩ | ⟨-, hst⟩
  · rw [hst, activities_update, lockRole_update]
    exact ⟨rfl, rfl⟩
  · obtain ⟨ha, hl⟩ := views_update h.fresh .watching rfl rfl
    rw [hst, activities_update, lockRole_update, ha, hl]
    exact ⟨rfl, rfl⟩

/-- When a task goes on, its server stays sound. -/
theorem Turn.sound (h : s.Sound) (hs : s.stage? id = some stage)
    (ht : Turn s id stage r s₁ next out) : (s₁.place id next).Sound := by
  obtain ⟨ha, hl⟩ := ht.roles h hs
  refine ⟨(ht.table_place h.tidy hs).1, ?_, ?_⟩
  · rw [place_link, ha]
    exact ht.link.sound h.link (by simp [activities, hs])
  · rw [place_lock, hl]
    exact ht.lock h.lock (by simp [lockRole, hs])

/-! ## What can be done -/

/-- What the acts of a server do. -/
inductive Does (s : Server) : Act → Server → Effect → Prop
  | listen {o record} : o.record = .ok record → s.phase = .idle →
      Does s (.listen o) ({ s with phase := .listening }.spawn (.binding record)).2
        { started := some (.task s.nextTask) }
  | read {c} : s.client = some c → s.link.isOpen = true →
      Does s .read (s.spawn (.reading c.generation .start)).2
        { started := some (.task s.nextTask) }
  | write {bytes} :
      Does s (.write bytes) { s with link := (s.link.write bytes).2 }
        { started := some (.write s.link.queue.nextId) }
  | disconnect {c} : s.client = some c →
      Does s .disconnectClient
        ({ s with link := s.link.markClosed.signal .disconnect }.spawn
          (.dismissing c.generation)).2 {}
  | close {act background owned} : act = .close background ∨ act = .drop background →
      s.phase ≠ .closed → Does s act { s.close background with owned } {}
  /-- Nothing happens, but that an event is taken or the owner lets go. -/
  | aside {act refused received feed owned} : (∀ w r, act ≠ .step w r) → (∀ bytes, act ≠ .write bytes) →
      (act = .disconnectClient → s.client = none) → feed.sending = s.feed.sending →
      Does s act { s with feed, owned } { refused, received }
  | send {n r link result} : s.link.resumeWrite n r = some (link, result) →
      Does s (.step (.write n) r) { s with link }
        { report := { outcome := result.map fun x => .ofExcept .sent (x.mapError .write) } }
  | turn {n st r s₁ next out} : s.stage? n = some st → Turn s n st r s₁ next out →
      Does s (.step (.task n) r) (s₁.place n next) { report := out }

theorem does_of_perform (h : s.perform a = some (s', e)) : Does s a s' e := by
  cases a with
  | listen o =>
      cases hr : o.record with
      | error f =>
          simp only [perform, listen, hr] at h
          cases h
          exact .aside (by simp) (by simp) (by simp) rfl
      | ok record =>
          by_cases hp : s.phase = .idle <;>
            simp only [perform, listen, hr, bind, Except.bind, hp, if_true, if_false] at h <;> cases h
          · exact .listen hr hp
          · exact .aside (by simp) (by simp) (by simp) rfl
  | read =>
      simp only [perform, read] at h
      split at h
      · split at h <;> cases h
        · exact .read ‹_› ‹_›
        · exact .aside (by simp) (by simp) (by simp) rfl
      · cases h
        exact .aside (by simp) (by simp) (by simp) rfl
  | write bytes => cases h; exact .write
  | disconnectClient =>
      simp only [perform, disconnectClient] at h
      split at h <;> cases h
      · exact .disconnect ‹_›
      · exact .aside (by simp) (by simp) (fun _ => ‹_›) rfl
  | close background =>
      cases h
      by_cases hp : s.phase = .closed
      · rw [Server.close, if_pos hp]
        exact .aside (by simp) (by simp) (by simp) rfl
      · exact .close (.inl rfl) hp
  | drop background =>
      cases h
      by_cases hp : s.phase = .closed
      · rw [Server.drop, Server.close, if_pos hp]
        exact .aside (by simp) (by simp) (by simp) rfl
      · exact .close (.inr rfl) hp
  | takeEvent =>
      simp only [perform] at h
      split at h <;> cases h
      · exact .aside (by simp) (by simp) (by simp) rfl
      · obtain ⟨rest, -, rfl⟩ := Feed.take_eq_some_iff.mp ‹_›
        exact .aside (by simp) (by simp) (by simp) rfl
  | dismissEvents => cases h; exact .aside (by simp) (by simp) (by simp) rfl
  | step w r =>
      obtain ⟨⟨s₁, out⟩, hr, he⟩ := Option.map_eq_some_iff.mp h
      cases he
      cases w with
      | write n =>
          obtain ⟨⟨link, result⟩, hw, he⟩ := Option.map_eq_some_iff.mp hr
          cases he
          exact .send hw
      | task n =>
          obtain ⟨t, ht, hr⟩ := Option.bind_eq_some_iff.mp hr
          obtain ⟨s₁, next, hturn, rfl⟩ := turn_of_resumeStage hr
          exact .turn (by simp [stage?, Tasks.stageOf, ht]) hturn

/-- Either a task takes a turn, or no task goes on. -/
theorem Does.turn_or_aside (h : Does s a s' e) :
    (∃ n r st s₁ next out, a = .step (.task n) r ∧ s' = s₁.place n next ∧ e = { report := out } ∧
      s.stage? n = some st ∧ Turn s n st r s₁ next out) ∨ ∀ n r, a ≠ .step (.task n) r := by
  cases h with
  | turn hs ht => exact .inl ⟨_, _, _, _, _, _, rfl, rfl, rfl, hs, ht⟩
  | close h => rcases h with rfl | rfl <;> exact .inr (by simp)
  | aside h => exact .inr fun n r => h _ r
  | _ => exact .inr (by simp)

/-- A task that goes on takes a turn. -/
theorem turn_of_perform (h : s.perform (.step (.task n) r) = some (s', e)) :
    ∃ st s₁ next out, s.stage? n = some st ∧ Turn s n st r s₁ next out ∧ s' = s₁.place n next ∧
      e = { report := out } := by
  rcases (does_of_perform h).turn_or_aside with
    ⟨_, _, st, s₁, next, out, ⟨⟩, hs', he, hs, ht⟩ | hne
  · exact ⟨st, s₁, next, out, hs, ht, hs', he⟩
  · exact absurd rfl (hne n r)

/-! ## Whatever is done keeps a server sound -/

theorem Sound.congr (h : s.Sound) (ht : s'.tasks = s.tasks) (hn : s'.nextTask = s.nextTask)
    (hl : s'.lock = s.lock) (hk : s'.link.Sound (activities s.stage?)) : s'.Sound := by
  have he : s'.stage? = s.stage? := by funext m; rw [stage?, ht]; rfl
  refine ⟨?_, ?_, ?_⟩
  · rw [ht, hn]; exact h.tidy
  · rw [he]; exact hk
  · rw [he, hl]; exact h.lock

theorem Sound.spawn {st : Stage} (h : s.Sound)
    (hm : Link.Moves s.link s.nextTask none s.link st.activity) (hl : st.atLock = .out) :
    (s.spawn st).2.Sound := by
  refine ⟨tidy_spawn h.tidy st, ?_, ?_⟩
  · rw [stage?_spawn h.tidy, activities_update]
    exact hm.sound h.link (by simp [activities, h.fresh])
  · rw [stage?_spawn h.tidy, lockRole_update, Option.map_some, Option.getD_some, hl]
    exact h.lock.stay (by simp [lockRole, h.fresh])

/-- A server that was just closed. -/
def shut (s : Server) : Server :=
  { s with
    phase := .closed
    client := none
    feed := s.feed.stop
    listener := none
    link := s.link.markClosed.signal .close }

theorem close_eq (hp : s.phase ≠ .closed) (background : Bool) :
    s.close background = if background then (s.shut.spawn .leaving).2 else s.shut := by
  rw [Server.close, if_neg hp]
  rfl

theorem close_phase (s : Server) (background : Bool) : (s.close background).phase = .closed := by
  by_cases hp : s.phase = .closed
  · rw [Server.close, if_pos hp, hp]
  · rw [close_eq hp]
    cases background <;> rfl

theorem close_link (hp : s.phase ≠ .closed) (background : Bool) :
    (s.close background).link = s.link.markClosed.signal .close := by
  rw [close_eq hp]
  cases background <;> rfl

theorem Does.sound (h : s.Sound) (hd : Does s a s' e) : s'.Sound := by
  cases hd with
  | listen =>
      have h' : ({ s with phase := .listening } : Server).Sound := h.congr rfl rfl rfl h.link
      exact h'.spawn .none rfl
  | read => exact h.spawn (.move .beginReading) rfl
  | write => exact h.congr rfl rfl rfl (h.link.write _)
  | disconnect =>
      have h' : ({ s with link := s.link.markClosed.signal .disconnect } : Server).Sound :=
        h.congr rfl rfl rfl (h.link.signals _ _)
      exact h'.spawn .none rfl
  | @close _ background _ _ hp =>
      have hc : (s.close background).Sound := by
        have hs : s.shut.Sound := h.congr rfl rfl rfl (h.link.signals _ _)
        rw [close_eq hp]
        cases background with
        | true => exact hs.spawn .none rfl
        | false => exact hs
      exact hc.congr rfl rfl rfl hc.link
  | aside => exact h.congr rfl rfl rfl h.link
  | send hr => exact h.congr rfl rfl rfl (h.link.resumeWrite hr)
  | turn hs ht => exact ht.sound h hs

theorem sound_perform (h : s.Sound) (hp : s.perform a = some (s', e)) : s'.Sound :=
  (does_of_perform hp).sound h

theorem sound_create (t : Config.Tuning) : (create t).Sound where
  tidy := .nil
  link := Link.sound_create t
  lock := by
    have he : lockRole (create t).stage? = fun _ => .out := by funext w; cases w <;> rfl
    rw [he]
    exact .empty

/-- A server is sound wherever a run gets to. -/
theorem sound_of_run {t : Config.Tuning} {ms : List Moment} (h : (machine t).Run ms s) : s.Sound :=
  h.invariant (sound_create t) fun hp hs => sound_perform hs hp

/-! ## Closing is for good -/

theorem place_phase (s : Server) : (s.place id next).phase = s.phase := by cases next <;> rfl

theorem rearmed_phase {phase : Phase} (hp : phase ≠ .closed) :
    (s.rearmed phase).phase = .closed ↔ s.phase = .closed := by
  rcases rearmed_cases s phase with ⟨h, he⟩ | ⟨h, he⟩
  · rw [he]
  · rw [he]
    exact ⟨fun hc => absurd hc hp, fun hc => absurd hc h⟩

theorem Releases.phase {k : Releasing} {k' : Option Releasing} (h : Releases s id k r s₁ k' out) :
    s₁.phase = .closed ↔ s.phase = .closed := by
  cases h with
  | close | late | register => exact Iff.rfl
  | last => rw [emit_fst]
  | line => rw [emit_fst]; exact Iff.rfl
  | skip | hold => exact rearmed_phase (by simp)
  | fail => rw [rearmed_phase (by simp), emit_fst]; exact Iff.rfl

theorem Turn.phase (h : Turn s id stage r s₁ next out) :
    s₁.phase = .closed ↔ s.phase = .closed := by
  cases h with
  | bind | register | die | late | look | accept | attach | refuse | refusing | refused | read
  | report | lose | dismiss | dismissed | leave | closing | closed => exact Iff.rfl
  | notBound | notRegistered =>
      unfold resetListening
      split
      · exact Iff.rfl
      · rename_i hp
        exact ⟨fun hc => (by cases hc), fun hc => absurd hc hp⟩
  | note _ hp => exact ⟨fun hc => (by cases hc), fun hc => absurd hc hp⟩
  | welcome _ hp =>
      rw [emit_fst]
      exact ⟨fun hc => (by cases hc), fun hc => absurd hc hp⟩
  | undo h | undone h | withdraw h | beginAttach h | retire h | retired h =>
      obtain ⟨_, _, rfl⟩ := h.frame
      exact Iff.rfl
  | stumble => rw [emit_fst]
  | losing h | lost h | releasing h | released h => exact h.phase

theorem Does.phase (h : Does s a s' e) (hc : s.phase = .closed) : s'.phase = .closed := by
  cases h with
  | listen _ hp => rw [hc] at hp; cases hp
  | read | write | disconnect | aside | send => exact hc
  | close _ hp => exact absurd hc hp
  | turn _ ht => rw [place_phase]; exact ht.phase.mpr hc

/-- A server without a client whose link is closed. -/
structure Shut (s : Server) : Prop where
  client : s.client = none
  isOpen : s.link.isOpen = false

theorem Releases.client {k : Releasing} {k' : Option Releasing} (h : Releases s id k r s₁ k' out) :
    s₁.client = s.client := by
  have hr : ∀ (s : Server) (phase : Phase), (s.rearmed phase).client = s.client := by
    intro s phase
    rcases rearmed_cases s phase with ⟨-, h⟩ | ⟨-, h⟩
    · rw [h]
    · rw [h]; rfl
  cases h with
  | close | late | register => rfl
  | last => rw [emit_fst]
  | line => rw [emit_fst]; rfl
  | skip | hold => exact hr _ _
  | fail => rw [hr, emit_fst]; rfl

/-- In a closed server no client comes and the link stays closed. -/
theorem Turn.shut (h : Turn s id stage r s₁ next out) (hp : s.phase = .closed) (hs : s.Shut) :
    s₁.Shut := by
  have hl : ((∃ k, stage.activity = some (.attaching k)) → next.bind Stage.activity ≠ none) →
      s₁.link.isOpen = false := by
    intro hn
    rcases h.link.isOpen hs.isOpen with h | ⟨h₁, h₂⟩
    · exact h
    · exact absurd h₂ (hn h₁)
  have hn : (∀ address k, stage ≠ .attaching address k) →
      ∀ k, stage.activity ≠ some (.attaching k) := by
    intro hst k he
    obtain ⟨address, rfl⟩ := attaching_of_activity he
    exact hst address k rfl
  have other : (∀ address k, stage ≠ .attaching address k) → s₁.link.isOpen = false := fun hst =>
    hl fun ⟨k, hk⟩ => absurd hk (hn hst k)
  cases h with
  | note _ hp' | welcome _ hp' => exact absurd hp hp'
  | attach | refuse => exact ⟨hs.client, hl fun _ => by simp [Stage.activity]⟩
  | notBound | notRegistered => exact ⟨by rw [resetListening, if_pos hp]; exact hs.client, other (by simp)⟩
  | undo h | undone h | withdraw h | beginAttach h | retire h | retired h =>
      refine ⟨?_, other (by simp)⟩
      obtain ⟨_, _, rfl⟩ := h.frame
      exact hs.client
  | look h => exact ⟨hs.client, other (by cases h <;> simp)⟩
  | stumble => exact ⟨by rw [emit_fst]; exact hs.client, other (by simp)⟩
  | losing h | lost h | releasing h | released h =>
      exact ⟨h.client.trans hs.client, other (by simp)⟩
  | lose | dismiss => exact ⟨rfl, other (by simp)⟩
  | _ => exact ⟨hs.client, other (by simp)⟩

theorem shut_of_run {t : Config.Tuning} {ms : List Moment} (h : (machine t).Run ms s)
    (hp : s.phase = .closed) : s.Shut := by
  refine h.invariant (P := fun s => s.phase = .closed → s.Shut) ?_ ?_ hp
  · intro hp
    cases hp
  · intro s a s' e hp ih hc
    cases does_of_perform hp with
    | listen => cases hc
    | read hcl =>
        rw [(ih hc).client] at hcl
        cases hcl
    | disconnect hcl =>
        rw [(ih hc).client] at hcl
        cases hcl
    | write | aside => exact ⟨(ih hc).client, (ih hc).isOpen⟩
    | send hr =>
        obtain ⟨⟨q, result⟩, -, he⟩ := Option.map_eq_some_iff.mp hr
        cases he
        exact ⟨(ih hc).client, (ih hc).isOpen⟩
    | @close _ background _ _ hopen =>
        rw [close_eq hopen]
        cases background <;> exact ⟨rfl, rfl⟩
    | @turn n _ _ s₁ next _ _ ht =>
        rw [place_phase, ht.phase] at hc
        have hs := ht.shut hc (ih hc)
        exact ⟨by cases next <;> exact hs.client, by rw [place_link]; exact hs.isOpen⟩

end Rfcomm.Server
