import Rfcomm.Proofs.Link.Activity
import Rfcomm.Proofs.Tasks
import Rfcomm.Server.Work
/-!
What one step of a task of a server can do: a relation with a rule for each way that a step can go,
and the proof that every step follows one of them.
-/
namespace Rfcomm.Server

variable {s s' s₁ : Server} {id : Nat} {stage : Stage} {next : Option Stage} {r : Reply}
  {out : Report}

/-- What the task with a number is at. -/
def stage? (s : Server) (n : Nat) : Option Stage := Tasks.stageOf Task.id Task.stage s.tasks n

/-- A task goes on at a stage, or is done. -/
def place (s : Server) (id : Nat) : Option Stage → Server
  | some stage => s.keep id stage
  | none => s.finish id

/-! ## Rules -/

/-- What a step of taking the advertisement back can do. -/
inductive Withdraws (s : Server) (id : Nat) : Withdrawing → Reply → Server → Option Withdrawing → Prop
  | take {a session} : s.lock.isHeldBy (.task id) = true → s.advertisement = some a →
      a.session = some session →
      Withdraws s id .waiting .go { s with advertisement := some { a with session := none } }
        (some (.calling session))
  | skip : s.lock.isHeldBy (.task id) = true →
      (∀ a, s.advertisement = some a → a.session = none) →
      Withdraws s id .waiting .go s.leaveAdvertisement none
  | withdrawn {session} : Withdraws s id (.calling session) .withdrawn s.leaveAdvertisement none

/-- What a step of giving a client up can do. -/
inductive Releases (s : Server) (id : Nat) :
    Releasing → Reply → Server → Option Releasing → Report → Prop
  | close {address final k r link k'} :
      s.link.resumeClosing (.task id) k r = some (link, .more k') →
      Releases s id (.closing address final k) r { s with link }
        (some (.closing address final k')) {}
  /-- The stream is gone. The server was closed before. -/
  | last {address k r link u} : s.link.resumeClosing (.task id) k r = some (link, .done u) →
      Releases s id (.closing address true k) r ({ s with link }.emit (.disconnected address)).1
        none ({ s with link }.emit (.disconnected address)).2
  /-- The stream is gone. -/
  | line {address k r link u} : s.link.resumeClosing (.task id) k r = some (link, .done u) →
      Releases s id (.closing address false k) r
        (({ s with link }.emit (.disconnected address)).1.joinAdvertisement id)
        (some .waiting) ({ s with link }.emit (.disconnected address)).2
  /-- The server was closed meanwhile. -/
  | late : s.lock.isHeldBy (.task id) = true → s.phase = .closed →
      Releases s id .waiting .go s.leaveAdvertisement none {}
  /-- There is nothing to register. -/
  | skip : s.lock.isHeldBy (.task id) = true → s.phase ≠ .closed →
      (∀ a, s.advertisement = some a → a.isActive = true) →
      Releases s id .waiting .go (s.leaveAdvertisement.rearmed .advertising) none {}
  | register {a} : s.lock.isHeldBy (.task id) = true → s.phase ≠ .closed →
      s.advertisement = some a → a.isActive = false →
      Releases s id .waiting .go s (some (.registering a.record)) {}
  | hold {record session} :
      Releases s id (.registering record) (.registered (.ok session))
        (({ s with advertisement := s.advertisement.map (·.hold session) } :
          Server).leaveAdvertisement.rearmed .advertising) none {}
  | fail {record reason} :
      Releases s id (.registering record) (.registered (.error reason))
        ((s.leaveAdvertisement.emit (.failure (Error.advertise reason).message)).1.rearmed
          .listening)
        none (s.leaveAdvertisement.emit (.failure (Error.advertise reason).message)).2

/-- Where a task of the accept loop looks for the listener. -/
inductive Looks : Stage → Reply → Prop
  | watching : Looks .watching .go
  | accepting {l} : Looks (.accepting l) .elapsed
  | pausing : Looks .pausing .elapsed

/-- Whether what a read saw is the end of its client. -/
def ends : Link.Seen → Bool
  | .eof | .woken .disconnect => true
  | .failed f => (Error.read f).isDisconnect
  | _ => false

/-- What a read reports of what it saw. -/
def outcome : Link.Seen → Outcome
  | .data bytes => .data bytes
  | .failed f => if (Error.read f).isDisconnect then .closed else .failed (.read f)
  | .died => .failed .workerGone
  | _ => .closed

/-- A client is given up: closing its stream begins. -/
def giveUp (s : Server) (id : Nat) : Server :=
  { s with client := none, link := (s.link.beginClosing (.task id)).1 }

/-- A caller becomes the client. -/
def welcome (s : Server) (address : Address) : Server :=
  { s with
    generation := s.generation + 1
    client := some ⟨s.generation + 1, address⟩
    lastClient := some address
    phase := .accepted }

/-- What a step of a task can do, its own place in the table apart. -/
inductive Turn (s : Server) (id : Nat) :
    Stage → Reply → Server → Option Stage → Report → Prop
  | bind {record l} :
      Turn s id (.binding record) (.bound (.ok l)) s (some (.registering record l)) {}
  | notBound {record f} :
      Turn s id (.binding record) (.bound (.error f)) s.resetListening none
        { outcome := some (.failed (.listen record.channel f)) }
  | register {record l session} :
      Turn s id (.registering record l) (.registered (.ok session))
        ({ s with listener := some l }.joinAdvertisement id) (some (.noting record session)) {}
  | notRegistered {record l reason} :
      Turn s id (.registering record l) (.registered (.error reason)) s.resetListening none
        { outcome := some (.failed (.advertise reason)) }
  /-- No feed of the asked capacity can be had. -/
  | die {record session} : s.lock.isHeldBy (.task id) = true →
      Feed.maxCapacity < s.tuning.eventCapacity →
      Turn s id (.noting record session) .go
        { s with advertisement := some ⟨record, some session⟩ }.leaveAdvertisement none
        { outcome := some (.failed .workerGone) }
  /-- The server was closed meanwhile. -/
  | late {record session} : s.lock.isHeldBy (.task id) = true → s.phase = .closed →
      Turn s id (.noting record session) .go
        ({ { s with advertisement := some ⟨record, some session⟩ }.leaveAdvertisement with
          listener := none }.joinAdvertisement id)
        (some (.undoing .waiting)) {}
  | note {record session} : s.lock.isHeldBy (.task id) = true → s.phase ≠ .closed →
      Turn s id (.noting record session) .go
        ({ { s with advertisement := some ⟨record, some session⟩ }.leaveAdvertisement with
          phase := .advertising, feed := .start s.tuning.eventCapacity } : Server).startAccepting
        none { outcome := some .listening }
  | undo {k r s' k'} : Withdraws s id k r s' (some k') →
      Turn s id (.undoing k) r s' (some (.undoing k')) {}
  | undone {k r s'} : Withdraws s id k r s' none →
      Turn s id (.undoing k) r s' none { outcome := some (.failed .connectionClosed) }
  | look {st r} : Looks st r → Turn s id st r s (s.listener.map .accepting) {}
  | accept {l stream address} :
      Turn s id (.accepting l) (.accepted (.ok (stream, address))) (s.joinAdvertisement id)
        (some (.welcoming stream address .waiting)) {}
  | stumble {l f} :
      Turn s id (.accepting l) (.accepted (.error f))
        (s.emit (.failure ("Accept error: " ++ f.text))).1 (some .pausing)
        (s.emit (.failure ("Accept error: " ++ f.text))).2
  | withdraw {stream address k r s' k'} : Withdraws s id k r s' (some k') →
      Turn s id (.welcoming stream address k) r s' (some (.welcoming stream address k')) {}
  | beginAttach {stream address k r s'} : Withdraws s id k r s' none →
      Turn s id (.welcoming stream address k) r
        { s' with link := (s'.link.beginAttach (.task id) stream).1 }
        (some (.attaching address (.reader stream))) {}
  | attach {address k r link k'} : s.link.resumeAttach (.task id) k r = some (link, .more k') →
      Turn s id (.attaching address k) r { s with link } (some (.attaching address k')) {}
  /-- The server was closed meanwhile. -/
  | refuse {address k r link u} : s.link.resumeAttach (.task id) k r = some (link, .done u) →
      s.phase = .closed →
      Turn s id (.attaching address k) r { s with link := (link.beginClosing (.task id)).1 }
        (some (.refusing .reader)) {}
  | welcome {address k r link u} : s.link.resumeAttach (.task id) k r = some (link, .done u) →
      s.phase ≠ .closed →
      Turn s id (.attaching address k) r
        ((({ s with link } : Server).welcome address).emit (.connected address)).1 none
        ((({ s with link } : Server).welcome address).emit (.connected address)).2
  | refusing {k r link k'} : s.link.resumeClosing (.task id) k r = some (link, .more k') →
      Turn s id (.refusing k) r { s with link } (some (.refusing k')) {}
  | refused {k r link u} : s.link.resumeClosing (.task id) k r = some (link, .done u) →
      Turn s id (.refusing k) r { s with link } none {}
  | read {generation g r link g'} :
      s.link.resumeReading (.task id) g r = some (link, .more g') →
      Turn s id (.reading generation g) r { s with link } (some (.reading generation g')) {}
  | report {generation g r link e} :
      s.link.resumeReading (.task id) g r = some (link, .done e) →
      (ends e = true → ∀ c, s.client = some c → c.generation ≠ generation) →
      Turn s id (.reading generation g) r { s with link } none { outcome := some (outcome e) }
  | lose {g r link e c} : s.link.resumeReading (.task id) g r = some (link, .done e) →
      ends e = true → s.client = some c →
      Turn s id (.reading c.generation g) r (({ s with link } : Server).giveUp id)
        (some (.losing (.closing c.address (s.phase = .closed) .reader))) {}
  | losing {k r s' k' out} : Releases s id k r s' (some k') out →
      Turn s id (.losing k) r s' (some (.losing k')) out
  | lost {k r s' out} : Releases s id k r s' none out →
      Turn s id (.losing k) r s' none { out with outcome := some .closed }
  | dismiss {c} : s.client = some c →
      Turn s id (.dismissing c.generation) .go (s.giveUp id)
        (some (.releasing (.closing c.address (s.phase = .closed) .reader))) {}
  | dismissed {generation} : (∀ c, s.client = some c → c.generation ≠ generation) →
      Turn s id (.dismissing generation) .go s none {}
  | releasing {k r s' k' out} : Releases s id k r s' (some k') out →
      Turn s id (.releasing k) r s' (some (.releasing k')) out
  | released {k r s' out} : Releases s id k r s' none out →
      Turn s id (.releasing k) r s' none out
  | leave : Turn s id .leaving .go (s.joinAdvertisement id) (some (.retiring .waiting)) {}
  | retire {k r s' k'} : Withdraws s id k r s' (some k') →
      Turn s id (.retiring k) r s' (some (.retiring k')) {}
  | retired {k r s'} : Withdraws s id k r s' none →
      Turn s id (.retiring k) r { s' with link := (s'.link.beginClosing (.task id)).1 }
        (some (.closing .reader)) {}
  | closing {k r link k'} : s.link.resumeClosing (.task id) k r = some (link, .more k') →
      Turn s id (.closing k) r { s with link } (some (.closing k')) {}
  | closed {k r link u} : s.link.resumeClosing (.task id) k r = some (link, .done u) →
      Turn s id (.closing k) r { s with link } none {}

/-! ## Every step follows a rule -/

/-- What is left of a piece of work. -/
def rest {σ α : Type} : Progress σ α → Option σ
  | .more k => some k
  | .done _ => none

theorem withdraws_of_resume {k : Withdrawing} {p : Progress Withdrawing Unit}
    (h : s.resumeWithdrawing id k r = some (s', p)) : Withdraws s id k r s' (rest p) := by
  unfold resumeWithdrawing at h
  split at h
  · split at h
    · rename_i hl
      split at h
      · rename_i session a ha
        cases h
        obtain ⟨a', ha', hr⟩ := Option.map_eq_some_iff.mp ha
        obtain ⟨hs, rfl⟩ := Prod.mk.inj hr
        exact .take hl ha' hs
      · rename_i hn
        cases h
        refine .skip hl fun a ha => ?_
        by_contra hs
        obtain ⟨session, hs⟩ := Option.ne_none_iff_exists'.mp hs
        exact hn session { a with session := none } (by simp [ha, Advertisement.release, hs])
    · cases h
  · cases h
    exact .withdrawn
  · cases h

theorem releases_of_resume {k : Releasing} {p : Progress Releasing Unit}
    (h : s.resumeReleasing id k r = some (s', p, out)) : Releases s id k r s' (rest p) out := by
  unfold resumeReleasing at h
  split at h
  · rename_i address final k
    split at h
    · cases h
      exact .close ‹_›
    · cases final with
      | true => cases h; exact .last ‹_›
      | false => cases h; exact .line ‹_›
    · cases h
  · split at h
    · rename_i hl
      split at h
      · cases h
        exact .late hl ‹_›
      · rename_i hp
        split at h
        · rename_i a ha
          split at h
          · rename_i hs
            cases h
            refine .skip hl hp fun a' ha' => ?_
            rw [ha] at ha'
            cases ha'
            exact hs
          · rename_i hs
            cases h
            exact .register hl hp ha (by simpa using hs)
        · rename_i ha
          cases h
          exact .skip hl hp (by simp [ha])
    · cases h
  · cases h
    exact .hold
  · cases h
    exact .fail
  · cases h

theorem seen_eq (s : Server) (id generation : Nat) (e : Link.Seen) :
    s.seen id generation e =
      if ends e then s.lose id generation else (s.finish id, { outcome := some (outcome e) }) := by
  cases e with
  | woken signal => cases signal <;> rfl
  | failed f =>
      by_cases hf : (Error.read f).isDisconnect = true
      · simp [seen, ends, hf]
      · simp [seen, ends, outcome, hf]
  | _ => rfl

theorem outcome_of_ends {e : Link.Seen} (h : ends e = true) : outcome e = .closed := by
  cases e with
  | woken signal => cases signal <;> rfl
  | failed f => simpa [outcome, ends] using h
  | eof => rfl
  | data bytes | refused | died => cases h

theorem watch_eq (s : Server) (id : Nat) : s.watch id = s.place id (s.listener.map .accepting) := by
  unfold watch
  split <;> simp [*, place]

theorem emit_place (s : Server) (id : Nat) (next : Option Stage) (e : Event) :
    (s.place id next).emit e = ((s.emit e).1.place id next, (s.emit e).2) := by
  by_cases hs : s.feed.sending = true <;> cases next <;> simp [place, keep, finish, emit, hs]

theorem beginReleasing_of_client {c : Client} (h : s.client = some c) :
    s.beginReleasing id c.generation =
      (s.giveUp id, some (.closing c.address (s.phase = .closed) .reader)) := by
  simp [beginReleasing, h, giveUp, Link.beginClosing]

theorem beginReleasing_of_none {generation : Nat}
    (h : ∀ c, s.client = some c → c.generation ≠ generation) :
    s.beginReleasing id generation = (s, none) := by
  cases hc : s.client with
  | none => simp [beginReleasing, hc]
  | some c => simp [beginReleasing, hc, h c hc]

theorem client_cases (s : Server) (generation : Nat) :
    (∃ c, s.client = some c ∧ c.generation = generation) ∨
      ∀ c, s.client = some c → c.generation ≠ generation := by
  by_cases h : ∃ c, s.client = some c ∧ c.generation = generation
  · exact .inl h
  · exact .inr fun c hc hg => h ⟨c, hc, hg⟩

theorem turn_of_noted {record : Record} {session : SessionId} (hl : s.lock.isHeldBy (.task id) = true)
    (h : { s with advertisement := some ⟨record, some session⟩ }.leaveAdvertisement.noted id = (s', out)) :
    ∃ s₁ next, Turn s id (.noting record session) .go s₁ next out ∧ s' = s₁.place id next := by
  simp only [noted] at h
  split at h
  · cases h
    exact ⟨_, none, .die hl ‹_›, rfl⟩
  · split at h <;> cases h
    · exact ⟨_, _, .late hl ‹_›, rfl⟩
    · exact ⟨_, none, .note hl ‹_›, rfl⟩

theorem turn_of_attached {address : Address} {k : Link.Attach} {link : Link} {u : Unit}
    (hr : s.link.resumeAttach (.task id) k r = some (link, .done u))
    (h : ({ s with link } : Server).attached id address = (s', out)) :
    ∃ s₁ next, Turn s id (.attaching address k) r s₁ next out ∧ s' = s₁.place id next := by
  simp only [attached] at h
  split at h
  · cases h
    exact ⟨_, _, .refuse hr ‹_›, rfl⟩
  · change ((({ s with link } : Server).welcome address).place id none).emit (.connected address) = _ at h
    rw [emit_place] at h
    cases h
    exact ⟨_, _, .welcome hr ‹_›, rfl⟩

/-- A read that ends gives up the client that it is for, if that is still there. -/
theorem turn_of_seen {generation : Nat} {g : Link.Reading} {link : Link} {e : Link.Seen}
    (hr : s.link.resumeReading (.task id) g r = some (link, .done e))
    (h : ({ s with link } : Server).seen id generation e = (s', out)) :
    ∃ s₁ next, Turn s id (.reading generation g) r s₁ next out ∧ s' = s₁.place id next := by
  rw [seen_eq] at h
  split at h
  · rename_i he
    simp only [lose] at h
    rcases client_cases s generation with ⟨c, hc, rfl⟩ | hn
    · have hc' : ({ s with link } : Server).client = some c := hc
      rw [beginReleasing_of_client hc'] at h
      cases h
      exact ⟨_, _, .lose hr he hc, rfl⟩
    · rw [beginReleasing_of_none (s := { s with link }) hn] at h
      cases h
      exact ⟨_, none, outcome_of_ends he ▸ .report hr fun _ => hn, rfl⟩
  · rename_i he
    cases h
    exact ⟨_, none, .report hr fun he' => absurd he' he, rfl⟩

/-- Every step of a task follows one of the rules. -/
theorem turn_of_resumeStage (h : s.resumeStage id stage r = some (s', out)) :
    ∃ s₁ next, Turn s id stage r s₁ next out ∧ s' = s₁.place id next := by
  cases stage with
  | binding record =>
      simp only [resumeStage] at h
      split at h <;> cases h
      · exact ⟨_, _, .bind, rfl⟩
      · exact ⟨_, _, .notBound, rfl⟩
  | registering record l =>
      simp only [resumeStage] at h
      split at h <;> cases h
      · exact ⟨_, _, .register, rfl⟩
      · exact ⟨_, _, .notRegistered, rfl⟩
  | noting record session =>
      simp only [resumeStage] at h
      split at h
      · split at h
        · exact turn_of_noted ‹_› (Option.some.inj h)
        · cases h
      · cases h
  | undoing k =>
      simp only [resumeStage] at h
      split at h <;> cases h
      · exact ⟨_, _, .undo (withdraws_of_resume ‹_›), rfl⟩
      · exact ⟨_, _, .undone (withdraws_of_resume ‹_›), rfl⟩
  | watching =>
      simp only [resumeStage] at h
      split at h <;> cases h
      exact ⟨_, _, .look .watching, watch_eq s id⟩
  | accepting l =>
      simp only [resumeStage] at h
      split at h
      · cases h
        exact ⟨_, _, .accept, rfl⟩
      · rw [show s.keep id .pausing = s.place id (some .pausing) from rfl, emit_place] at h
        cases h
        exact ⟨_, _, .stumble, rfl⟩
      · cases h
        exact ⟨_, _, .look .accepting, watch_eq s id⟩
      · cases h
  | pausing =>
      simp only [resumeStage] at h
      split at h <;> cases h
      exact ⟨_, _, .look .pausing, watch_eq s id⟩
  | welcoming stream address k =>
      simp only [resumeStage] at h
      split at h <;> cases h
      · exact ⟨_, _, .withdraw (withdraws_of_resume ‹_›), rfl⟩
      · exact ⟨_, _, .beginAttach (withdraws_of_resume ‹_›), rfl⟩
  | attaching address k =>
      simp only [resumeStage] at h
      split at h
      · cases h
        exact ⟨_, _, .attach ‹_›, rfl⟩
      · exact turn_of_attached ‹_› (Option.some.inj h)
      · cases h
  | refusing k =>
      simp only [resumeStage, resumeClosing] at h
      split at h <;> cases h
      · exact ⟨_, _, .refusing ‹_›, rfl⟩
      · exact ⟨_, _, .refused ‹_›, rfl⟩
  | reading generation g =>
      simp only [resumeStage] at h
      split at h
      · cases h
        exact ⟨_, _, .read ‹_›, rfl⟩
      · exact turn_of_seen ‹_› (Option.some.inj h)
      · cases h
  | losing k =>
      simp only [resumeStage] at h
      split at h <;> cases h
      · exact ⟨_, _, .losing (releases_of_resume ‹_›), rfl⟩
      · exact ⟨_, _, .lost (releases_of_resume ‹_›), rfl⟩
  | dismissing generation =>
      simp only [resumeStage] at h
      split at h
      · rcases client_cases s generation with ⟨c, hc, rfl⟩ | hn
        · rw [beginReleasing_of_client hc] at h
          cases h
          exact ⟨_, _, .dismiss hc, rfl⟩
        · rw [beginReleasing_of_none hn] at h
          cases h
          exact ⟨_, none, .dismissed hn, rfl⟩
      · cases h
  | releasing k =>
      simp only [resumeStage] at h
      split at h <;> cases h
      · exact ⟨_, _, .releasing (releases_of_resume ‹_›), rfl⟩
      · exact ⟨_, _, .released (releases_of_resume ‹_›), rfl⟩
  | leaving =>
      simp only [resumeStage] at h
      split at h <;> cases h
      exact ⟨_, _, .leave, rfl⟩
  | retiring k =>
      simp only [resumeStage] at h
      split at h <;> cases h
      · exact ⟨_, _, .retire (withdraws_of_resume ‹_›), rfl⟩
      · exact ⟨_, _, .retired (withdraws_of_resume ‹_›), rfl⟩
  | closing k =>
      simp only [resumeStage, resumeClosing] at h
      split at h <;> cases h
      · exact ⟨_, _, .closing ‹_›, rfl⟩
      · exact ⟨_, _, .closed ‹_›, rfl⟩

end Rfcomm.Server
