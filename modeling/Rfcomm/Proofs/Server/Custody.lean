import Rfcomm.Proofs.Server.Party
import Rfcomm.Proofs.Server.Closing
/-!
Who has the registration of a server's record. It comes from a registering task and lies with the
advertisement until a task takes it back; whoever deals with it has the lock, so there is one place at
a time where it can be.
-/
namespace Rfcomm.Server

/-- Whether a task at a stage is about to bring the first advertisement. -/
def Stage.listens : Stage → Bool
  | .binding _ | .registering _ _ | .noting _ _ => true
  | _ => false

/-- How far a task got that takes the advertisement back. -/
def Stage.withdrawing? : Stage → Option Withdrawing
  | .undoing k | .welcoming _ _ k | .retiring k => some k
  | _ => none

/-- The record that a task at a stage registers. -/
def Stage.registers? : Stage → Option Record
  | .registering record _ | .losing (.registering record) | .releasing (.registering record) =>
    some record
  | _ => none

/-- Whether a task at a stage neither has the registration nor waits for the answer to a call that the
lock is kept for. -/
def Stage.plain : Stage → Bool
  | .noting _ _ | .undoing (.calling _) | .welcoming _ _ (.calling _) | .retiring (.calling _)
  | .losing (.registering _) | .releasing (.registering _) => false
  | _ => true

/-- How the registration is passed on when a task goes on. -/
inductive Passes (s : Server) (id : Nat) (stage : Stage) (r : Reply) (s₁ : Server)
    (next : Option Stage) : Prop
  | aside : s₁.advertisement = s.advertisement → (∀ record session, stage ≠ .noting record session) →
      (∀ record, stage.registers? = some record → ∀ session, r ≠ .registered (.ok session)) →
      (∀ st, next = some st → st.plain = true ∧ (st.listens = true → stage.listens = true)) →
      Passes s id stage r s₁ next
  | receive {record l session} : stage = .registering record l → r = .registered (.ok session) →
      next = some (.noting record session) → s₁.advertisement = s.advertisement →
      Passes s id stage r s₁ next
  | note {record session} : stage = .noting record session → r = .go →
      s₁.advertisement = some ⟨record, some session⟩ →
      next = none ∨ next = some (.undoing .waiting) → Passes s id stage r s₁ next
  | take {record session} : stage.withdrawing? = some .waiting → r = .go →
      s.lock.isHeldBy (.task id) = true → s.advertisement = some ⟨record, some session⟩ →
      s₁.advertisement = some ⟨record, none⟩ →
      next.bind Stage.withdrawing? = some (.calling session) → Passes s id stage r s₁ next
  | register {record} : stage.releasing? = some .waiting → r = .go →
      s.lock.isHeldBy (.task id) = true → s.phase ≠ .closed → s.advertisement = some ⟨record, none⟩ →
      s₁.advertisement = s.advertisement →
      next.bind Stage.releasing? = some (.registering record) → Passes s id stage r s₁ next
  | hold {record session} : stage.releasing? = some (.registering record) →
      r = .registered (.ok session) → next = none →
      s₁.advertisement = s.advertisement.map (·.hold session) → Passes s id stage r s₁ next

variable {s s' s₁ : Server} {id n m : Nat} {stage st st' : Stage} {next : Option Stage} {r : Reply}
  {out : Report} {a : Act} {e : Effect} {ms : List Moment} {t : Config.Tuning} {record : Record}
  {session : SessionId}

/-! ## Stages -/

theorem of_calling (h : st.withdrawing? = some (.calling session)) :
    st.atLock = .holding ∧ st.plain = false := by
  cases st <;> cases h <;> exact ⟨rfl, rfl⟩

theorem of_registering (h : st.releasing? = some (.registering record)) :
    st.atLock = .holding ∧ st.plain = false ∧ st.registers? = some record := by
  cases st <;> cases h <;> exact ⟨rfl, rfl, rfl⟩

theorem of_withdrawing {k : Withdrawing} (h : st.withdrawing? = some k) :
    st.releasing? = none ∧ st.listens = false ∧ st.registers? = none := by
  cases st <;> first | exact ⟨rfl, rfl, rfl⟩ | cases h

theorem of_releasing {k : Releasing} (h : st.releasing? = some k) :
    st.withdrawing? = none ∧ st.listens = false := by
  cases st <;> first | exact ⟨rfl, rfl⟩ | cases h

/-! ## Every turn passes the registration on -/

theorem rearmed_advertisement (s : Server) (phase : Phase) :
    (s.rearmed phase).advertisement = s.advertisement := by
  rcases rearmed_cases s phase with ⟨-, h⟩ | ⟨-, h⟩ <;> rw [h]
  rfl

theorem Passes.quiet (ha : s₁.advertisement = s.advertisement) (hst : stage.registers? = none)
    (hn : ∀ record session, stage ≠ .noting record session)
    (hnext : ∀ st, next = some st → st.plain = true ∧ st.listens = false) :
    Passes s id stage r s₁ next := by
  refine .aside ha hn (by simp [hst]) fun st hs => ?_
  obtain ⟨h₁, h₂⟩ := hnext st hs
  exact ⟨h₁, by simp [h₂]⟩

theorem Withdraws.passes {k : Withdrawing} {k' : Option Withdrawing} (h : Withdraws s id k r s₁ k')
    (ha : s'.advertisement = s₁.advertisement) (hst : stage.withdrawing? = some k)
    (hsome : ∀ w, k' = some w → next.bind Stage.withdrawing? = some w)
    (hnone : k' = none → ∀ st, next = some st → st.plain = true ∧ st.listens = false) :
    Passes s id stage r s' next := by
  have quiet : s₁.advertisement = s.advertisement → k' = none → Passes s id stage r s' next := by
    intro hadv hk
    refine .quiet (ha.trans hadv) (of_withdrawing hst).2.2 ?_ (hnone hk)
    rintro record session rfl
    cases hst
  cases h with
  | @take a session hl hadv hs =>
      obtain ⟨record, _⟩ := a
      obtain rfl := hs
      exact .take hst rfl hl hadv ha (hsome _ rfl)
  | skip => exact quiet rfl rfl
  | withdrawn => exact quiet rfl rfl

theorem Releases.passes {k : Releasing} {k' : Option Releasing} (h : Releases s id k r s₁ k' out)
    (hst : stage.releasing? = some k) (hnext : next.bind Stage.releasing? = k')
    (hnone : k' = none → next = none) : Passes s id stage r s₁ next := by
  have aside : s₁.advertisement = s.advertisement → (∀ record, k' ≠ some (.registering record)) →
      (∀ session, r ≠ .registered (.ok session)) → Passes s id stage r s₁ next := by
    intro ha hk hr
    refine .aside ha ?_ (fun _ _ => hr) ?_
    · rintro record session rfl
      cases hst
    · rintro st rfl
      cases k' with
      | none => cases hnone rfl
      | some k₁ =>
          have hst' : st.releasing? = some k₁ := hnext
          refine ⟨?_, by simp [(of_releasing hst').2]⟩
          cases st with
          | losing k | releasing k =>
              obtain rfl : k = k₁ := Option.some.inj hst'
              cases k with
              | registering record => exact absurd rfl (hk record)
              | closing | waiting => rfl
          | _ => cases hst'
  have hclose : ∀ {k p}, s.link.resumeClosing (.task id) k r = some p →
      ∀ session, r ≠ .registered (.ok session) := by
    rintro k p h session rfl
    rcases Link.reply_of_resumeClosing h with h | h <;> cases h
  cases h with
  | close h => exact aside rfl (by simp) (hclose h)
  | last h => exact aside (by rw [emit_fst]) (by simp) (hclose h)
  | line h => exact aside (by rw [emit_fst]; rfl) (by simp) (hclose h)
  | late => exact aside rfl (by simp) (by simp)
  | skip => exact aside (rearmed_advertisement _ _) (by simp) (by simp)
  | @register a hl hp ha hs =>
      obtain ⟨record, session⟩ := a
      obtain rfl : session = none := by simpa [Advertisement.isActive] using hs
      exact .register hst rfl hl hp ha rfl hnext
  | hold => exact .hold hst rfl (hnone rfl) (rearmed_advertisement _ _)
  | fail => exact aside (by rw [rearmed_advertisement, emit_fst]; rfl) (by simp) (by simp)

theorem Turn.passes (h : Turn s id stage r s₁ next out) : Passes s id stage r s₁ next := by
  have reset : s.resetListening.advertisement = s.advertisement := by
    unfold resetListening
    split <;> rfl
  cases h with
  | bind => exact .aside rfl nofun nofun (by rintro _ ⟨⟩; exact ⟨rfl, fun _ => rfl⟩)
  | notBound => exact .aside reset nofun nofun nofun
  | notRegistered => exact .aside reset nofun (by simp) nofun
  | register => exact .receive rfl rfl rfl rfl
  | die => exact .note rfl rfl rfl (.inl rfl)
  | late => exact .note rfl rfl rfl (.inr rfl)
  | note => exact .note rfl rfl rfl (.inl rfl)
  | undo h | withdraw h | retire h => exact h.passes rfl rfl (by rintro _ ⟨⟩; rfl) nofun
  | undone h => exact h.passes rfl rfl nofun nofun
  | beginAttach h | retired h =>
      exact h.passes rfl rfl nofun (by rintro - _ ⟨⟩; exact ⟨rfl, rfl⟩)
  | losing h | releasing h => exact h.passes rfl rfl nofun
  | lost h | released h => exact h.passes rfl rfl fun _ => rfl
  | look hl =>
      refine .quiet rfl (by cases hl <;> rfl) (by cases hl <;> nofun) ?_
      intro st hst
      obtain ⟨l, -, rfl⟩ := Option.map_eq_some_iff.mp hst
      exact ⟨rfl, rfl⟩
  | stumble =>
      refine .quiet (by rw [emit_fst]) rfl nofun ?_
      rintro _ ⟨⟩
      exact ⟨rfl, rfl⟩
  | welcome => exact .quiet (by rw [emit_fst]; rfl) rfl nofun nofun
  | refused | report | dismissed | closed => exact .quiet rfl rfl nofun nofun
  | accept | attach | refuse | refusing | read | lose | dismiss | leave | closing =>
      refine .quiet rfl rfl nofun ?_
      rintro _ ⟨⟩
      exact ⟨rfl, rfl⟩

/-! ## The lock goes with the registration -/

/-- Whoever deals with the registration knows what there is of it. -/
structure Custody (s : Server) : Prop where
  /-- The first advertisement is still to come while a task listens. -/
  fresh : ∀ {n st}, s.stage? n = some st → st.listens = true →
    s.advertisement = none ∧ s.phase ≠ .idle
  unique : ∀ {n m st st'}, s.stage? n = some st → s.stage? m = some st' → st.listens = true →
    st'.listens = true → n = m
  idle : s.phase = .idle → s.advertisement = none
  calling : ∀ {n st session}, s.stage? n = some st → st.withdrawing? = some (.calling session) →
    ∃ record, s.advertisement = some ⟨record, none⟩
  registering : ∀ {n st record}, s.stage? n = some st → st.releasing? = some (.registering record) →
    s.advertisement = some ⟨record, none⟩

theorem Sound.holder (hS : s.Sound) (hn : s.stage? n = some st) (hst : st.atLock = .holding)
    (hm : s.lock.isHeldBy (.task m) = true) : n = m := by
  have := hS.lock.unique (a := .task n) (by simp [lockRole, hn, hst]) hm
  cases this
  rfl

theorem Sound.holds_lock (hS : s.Sound) (hn : s.stage? n = some st) (hst : st.atLock = .holding) :
    s.lock.isHeldBy (.task n) = true :=
  hS.lock.first (.task n) (by simp [lockRole, hn, hst])

theorem Turn.origin (h : Turn s id stage r s₁ next out) (hS : s.Sound)
    (hs : s.stage? id = some stage) (hn : (s₁.place id next).stage? n = some st)
    (hw : st ≠ .watching) : n = id ∧ next = some st ∨ n ≠ id ∧ s.stage? n = some st := by
  by_cases hne : n = id
  · subst hne
    exact .inl ⟨rfl, (h.mine hS hs).symm.trans hn⟩
  · exact .inr ⟨hne, h.old hS hs hne hn hw⟩

theorem place_advertisement (s : Server) : (s.place id next).advertisement = s.advertisement := by
  cases next <;> rfl

theorem place_listener (s : Server) : (s.place id next).listener = s.listener := by
  cases next <;> rfl

theorem place_feed (s : Server) : (s.place id next).feed = s.feed := by cases next <;> rfl

theorem Releases.to_idle {k : Releasing} {k' : Option Releasing} (h : Releases s id k r s₁ k' out)
    (hp : s₁.phase = .idle) : s.phase = .idle := by
  have rearmed : ∀ {s : Server} {phase : Phase}, phase ≠ .idle → (s.rearmed phase).phase = .idle →
      s.phase = .idle := by
    intro s phase hne hp
    rcases rearmed_cases s phase with ⟨-, h⟩ | ⟨-, h⟩ <;> rw [h] at hp
    · exact hp
    · exact absurd hp hne
  cases h with
  | close | late | register => exact hp
  | last => rw [emit_fst] at hp; exact hp
  | line => rw [emit_fst] at hp; exact hp
  | skip | hold =>
      have := rearmed (by simp) hp
      exact this
  | fail =>
      have := rearmed (by simp) hp
      rw [emit_fst] at this
      exact this

/-- A server becomes idle again by a listen job that fails before it brings an advertisement. -/
theorem Turn.to_idle (h : Turn s id stage r s₁ next out) (hp : s₁.phase = .idle) :
    s.phase = .idle ∨ stage.listens = true ∧ next = none ∧ s₁.advertisement = s.advertisement := by
  have reset : s.resetListening.advertisement = s.advertisement := by
    unfold resetListening
    split <;> rfl
  cases h with
  | notBound | notRegistered => exact .inr ⟨rfl, rfl, reset⟩
  | undo h | undone h | withdraw h | beginAttach h | retire h | retired h =>
      obtain ⟨_, _, rfl⟩ := h.frame
      exact .inl hp
  | stumble => rw [emit_fst] at hp; exact .inl hp
  | note => cases hp
  | welcome => rw [emit_fst] at hp; cases hp
  | losing h | lost h | releasing h | released h => exact .inl (h.to_idle hp)
  | _ => exact .inl hp

theorem Passes.listens (h : Passes s id stage r s₁ next) (hn : next = some st)
    (hst : st.listens = true) : stage.listens = true ∧ s₁.advertisement = s.advertisement := by
  subst hn
  cases h with
  | aside ha _ _ hp => exact ⟨(hp st rfl).2 hst, ha⟩
  | receive hs _ _ ha => exact ⟨by rw [hs]; rfl, ha⟩
  | note _ _ _ hn =>
      rcases hn with hn | hn
      · cases hn
      · cases hn
        cases hst
  | take _ _ _ _ _ hn =>
      rw [(of_withdrawing (show st.withdrawing? = _ from hn)).2.1] at hst
      cases hst
  | register _ _ _ _ _ _ hn =>
      rw [(of_releasing (show st.releasing? = _ from hn)).2] at hst
      cases hst
  | hold _ _ hn => cases hn

theorem Passes.calling {session : SessionId} (h : Passes s id stage r s₁ next) (hn : next = some st)
    (hst : st.withdrawing? = some (.calling session)) :
    ∃ record, s₁.advertisement = some ⟨record, none⟩ := by
  subst hn
  cases h with
  | aside _ _ _ hp => cases (of_calling hst).2.symm.trans (hp st rfl).1
  | receive _ _ hn => cases hn; cases hst
  | note _ _ _ hn => rcases hn with hn | hn <;> cases hn; cases hst
  | take _ _ _ _ ha => exact ⟨_, ha⟩
  | register _ _ _ _ _ _ hn =>
      cases (of_releasing (show st.releasing? = _ from hn)).1.symm.trans hst
  | hold _ _ hn => cases hn

theorem Passes.registering {record : Record} (h : Passes s id stage r s₁ next) (hn : next = some st)
    (hst : st.releasing? = some (.registering record)) : s₁.advertisement = some ⟨record, none⟩ := by
  subst hn
  cases h with
  | aside _ _ _ hp => cases (of_registering hst).2.1.symm.trans (hp st rfl).1
  | receive _ _ hn => cases hn; cases hst
  | note _ _ _ hn => rcases hn with hn | hn <;> cases hn; cases hst
  | take _ _ _ _ _ hn => cases (of_withdrawing (show st.withdrawing? = _ from hn)).1.symm.trans hst
  | register _ _ _ _ ha ha' hn =>
      obtain rfl : _ = record := by simpa using hn.symm.trans hst
      exact ha'.trans ha
  | hold _ _ hn => cases hn

/-- While a task has the lock and no registration is there, the others leave it at that. -/
theorem Custody.withdrawn_passes {record : Record} (h : s.Custody) (hS : s.Sound)
    (hs : s.stage? id = some stage) (hp : Passes s id stage r s₁ next) (hn : s.stage? n = some st)
    (hne : n ≠ id) (hl : st.atLock = .holding) (ha : s.advertisement = some ⟨record, none⟩) :
    s₁.advertisement = some ⟨record, none⟩ := by
  cases hp with
  | aside ha' | receive _ _ _ ha' | register _ _ _ _ _ ha' => exact ha'.trans ha
  | note hst => cases ha.symm.trans (h.fresh hs (by rw [hst]; rfl)).1
  | take _ _ _ ha' => cases ha.symm.trans ha'
  | hold hk => exact absurd (hS.holder hn hl (hS.holds_lock hs (of_registering hk).1)) hne

theorem Custody.turn (h : s.Custody) (hS : s.Sound) (hs : s.stage? id = some stage)
    (ht : Turn s id stage r s₁ next out) : (s₁.place id next).Custody := by
  have hp := ht.passes
  have listened : ∀ {n st}, (s₁.place id next).stage? n = some st → st.listens = true →
      ∃ st', s.stage? n = some st' ∧ st'.listens = true ∧ (n = id → next ≠ none ∧
        s₁.advertisement = s.advertisement) := by
    intro n st hn hst
    rcases ht.origin hS hs hn (by rintro rfl; cases hst) with ⟨rfl, hnext⟩ | ⟨hne, hn⟩
    · obtain ⟨hl, ha⟩ := hp.listens hnext hst
      exact ⟨stage, hs, hl, fun _ => ⟨by simp [hnext], ha⟩⟩
    · exact ⟨st, hn, hst, fun he => absurd he hne⟩
  -- While a task listens, the advertisement is none, so only a listening task can change it.
  have same : ∀ {n st}, s.stage? n = some st → st.listens = true →
      (n = id → s₁.advertisement = s.advertisement) → s₁.advertisement = s.advertisement := by
    intro n st hn hst hid
    have hnone := (h.fresh hn hst).1
    cases hp with
    | aside ha | receive _ _ _ ha | register _ _ _ _ _ ha => exact ha
    | note hst' => exact hid (h.unique hn hs hst (by rw [hst']; rfl))
    | take _ _ _ ha => rw [hnone] at ha; cases ha
    | hold hk =>
        have := h.registering hs hk
        rw [hnone] at this
        cases this
  refine ⟨?_, ?_, ?_, ?_, ?_⟩
  · intro n st hn hst
    obtain ⟨st', hn', hst', hid⟩ := listened hn hst
    have ha := same hn' hst' fun he => (hid he).2
    rw [place_advertisement, place_phase, ha]
    refine ⟨(h.fresh hn' hst').1, fun hi => ?_⟩
    rcases ht.to_idle hi with hi | ⟨hl, hnone, -⟩
    · exact (h.fresh hn' hst').2 hi
    · exact (hid (h.unique hn' hs hst' hl)).1 hnone
  · intro n m st st' hn hm hst hst'
    obtain ⟨_, hn, hst, -⟩ := listened hn hst
    obtain ⟨_, hm, hst', -⟩ := listened hm hst'
    exact h.unique hn hm hst hst'
  · rw [place_advertisement, place_phase]
    intro hi
    rcases ht.to_idle hi with hi' | ⟨hl, -, ha⟩
    · have hnone := h.idle hi'
      cases hp with
      | aside ha | receive _ _ _ ha => rw [ha, hnone]
      | note hst => exact absurd hi' (h.fresh hs (by rw [hst]; rfl)).2
      | take _ _ _ ha | register _ _ _ _ ha => rw [hnone] at ha; cases ha
      | hold hk => rw [h.registering hs hk] at hnone; cases hnone
    · rw [ha]
      exact (h.fresh hs hl).1
  · intro n st session hn hst
    rw [place_advertisement]
    rcases ht.origin hS hs hn (by rintro rfl; cases hst) with ⟨rfl, rfl⟩ | ⟨hne, hn⟩
    · exact hp.calling rfl hst
    · obtain ⟨record, ha⟩ := h.calling hn hst
      exact ⟨record, h.withdrawn_passes hS hs hp hn hne (of_calling hst).1 ha⟩
  · intro n st record hn hst
    rw [place_advertisement]
    rcases ht.origin hS hs hn (by rintro rfl; cases hst) with ⟨rfl, rfl⟩ | ⟨hne, hn⟩
    · exact hp.registering rfl hst
    · exact h.withdrawn_passes hS hs hp hn hne (of_registering hst).1 (h.registering hn hst)

/-- What is new when no task goes on: a task that only begins, and one that listens only if the server
was idle. -/
theorem Does.news (hS : s.Sound) (h : Does s a s' e) (ha : ∀ n r, a ≠ .step (.task n) r) :
    s'.advertisement = s.advertisement ∧ (s'.phase = .idle → s.phase = .idle) ∧
      ∀ n st, s'.stage? n = some st → s.stage? n = some st ∨ n = s.nextTask ∧ st.begins = true ∧
        (st.listens = true → s.phase = .idle ∧ s'.phase = .listening) := by
  have spawned : ∀ {n st} (s : Server) (hS : s.Sound) st', (s.spawn st').2.stage? n = some st →
      s.stage? n = some st ∨ n = s.nextTask ∧ st = st' := by
    intro n st s hS st' hn
    rw [stage?_spawn hS.tidy] at hn
    by_cases hne : n = s.nextTask
    · subst hne
      exact .inr ⟨rfl, by simpa using hn.symm⟩
    · exact .inl (by rwa [Function.update_of_ne hne] at hn)
  cases h with
  | listen _ hp =>
      refine ⟨rfl, fun h => (by cases h), fun n st hn => ?_⟩
      have hS' : ({ s with phase := .listening } : Server).Sound := hS.congr rfl rfl rfl hS.link
      exact (spawned _ hS' _ hn).imp_right fun ⟨h, hst⟩ => ⟨h, hst ▸ rfl, fun _ => ⟨hp, rfl⟩⟩
  | read =>
      refine ⟨rfl, id, fun n st hn => ?_⟩
      refine (spawned s hS _ hn).imp_right ?_
      rintro ⟨h, rfl⟩
      exact ⟨h, rfl, nofun⟩
  | write | aside | send => exact ⟨rfl, id, fun _ _ => .inl⟩
  | disconnect =>
      refine ⟨rfl, id, fun n st hn => ?_⟩
      have hS' : ({ s with link := s.link.markClosed.signal .disconnect } : Server).Sound :=
        hS.congr rfl rfl rfl (hS.link.signals _ _)
      refine (spawned _ hS' _ hn).imp_right ?_
      rintro ⟨h, rfl⟩
      exact ⟨h, rfl, nofun⟩
  | @close _ background _ _ hp =>
      have hS' : s.shut.Sound := hS.congr rfl rfl rfl (hS.link.signals _ _)
      rw [close_eq hp]
      cases background with
      | false => exact ⟨rfl, fun h => (by cases h), fun _ _ => .inl⟩
      | true =>
          refine ⟨rfl, fun h => (by cases h), fun n st hn => ?_⟩
          refine (spawned _ hS' _ hn).imp_right ?_
          rintro ⟨h, rfl⟩
          exact ⟨h, rfl, nofun⟩
  | turn => exact absurd rfl (ha _ _)

theorem of_begins (h : st.begins = true) : st.plain = true ∧ st.withdrawing? = none ∧
    st.releasing? = none ∧ st.registers? = none := by
  cases st <;> first | exact ⟨rfl, rfl, rfl, rfl⟩ | cases h

theorem Custody.aside (h : s.Custody) (hS : s.Sound) (hd : Does s a s' e)
    (ha : ∀ n r, a ≠ .step (.task n) r) : s'.Custody := by
  obtain ⟨hadv, hidle, hold⟩ := hd.news hS ha
  have keep := (hd.quiet hS ha).2.2.2
  -- Nobody listens at an idle server, so whoever begins to is the only one.
  have alone : ∀ {n st}, s.stage? n = some st → st.listens = true → s.phase ≠ .idle :=
    fun hn hst => (h.fresh hn hst).2
  refine ⟨?_, ?_, fun hp => ?_, ?_, ?_⟩
  · intro n st hn hst
    rw [hadv]
    rcases hold n st hn with hn | ⟨rfl, -, hp⟩
    · exact ⟨(h.fresh hn hst).1, fun hp => (h.fresh hn hst).2 (hidle hp)⟩
    · exact ⟨h.idle (hp hst).1, by simp [(hp hst).2]⟩
  · intro n m st st' hn hm hst hst'
    rcases hold n st hn with hn | ⟨rfl, -, hp⟩ <;> rcases hold m st' hm with hm | ⟨rfl, -, hp'⟩
    · exact h.unique hn hm hst hst'
    · exact absurd (hp' hst').1 (alone hn hst)
    · exact absurd (hp hst).1 (alone hm hst')
    · rfl
  · rw [hadv]
    exact h.idle (hidle hp)
  · intro n st session hn hst
    rw [hadv]
    rcases hold n st hn with hn | ⟨-, hb, -⟩
    · exact h.calling hn hst
    · rw [(of_begins hb).2.1] at hst; cases hst
  · intro n st record hn hst
    rw [hadv]
    rcases hold n st hn with hn | ⟨-, hb, -⟩
    · exact h.registering hn hst
    · rw [(of_begins hb).2.2.1] at hst; cases hst

theorem custody_of_run (h : (machine t).Run ms s) : s.Custody := by
  induction h with
  | start => exact ⟨nofun, nofun, fun _ => rfl, nofun, nofun⟩
  | @next ms s a s' e hr _ hp ih =>
      have hS := sound_of_run hr
      have hd := does_of_perform hp
      rcases hd.turn_or_aside with ⟨n, r, st, s₁, next, out, rfl, rfl, rfl, hs, ht⟩ | hne
      · exact ih.turn hS hs ht
      · exact ih.aside hS hd hne

/-! ## One place -/

/-- Whether a task at a stage deals with the registration. -/
def Stage.deals (st : Stage) : Bool := st.listens || !st.plain

theorem of_deals (h : st.deals = true) : st.listens = true ∨
    st.atLock = .holding ∧ ((∃ session, st.withdrawing? = some (.calling session)) ∨
      ∃ record, st.releasing? = some (.registering record)) := by
  cases st with
  | binding | registering | noting => exact .inl rfl
  | undoing k | welcoming _ _ k | retiring k =>
      cases k with
      | waiting => cases h
      | calling session => exact .inr ⟨rfl, .inl ⟨session, rfl⟩⟩
  | losing k | releasing k =>
      cases k with
      | registering record => exact .inr ⟨rfl, .inr ⟨record, rfl⟩⟩
      | closing | waiting => cases h
  | _ => cases h

theorem Custody.inactive (h : s.Custody) (hn : s.stage? n = some st) (hst : st.deals = true)
    {record : Record} {session : SessionId} : s.advertisement ≠ some ⟨record, some session⟩ := by
  rcases of_deals hst with hl | ⟨-, ⟨_, hk⟩ | ⟨_, hk⟩⟩
  · simp [(h.fresh hn hl).1]
  · obtain ⟨_, ha⟩ := h.calling hn hk
    simp [ha]
  · simp [h.registering hn hk]

/-- At most one task deals with the registration. -/
theorem Custody.sole (h : s.Custody) (hS : s.Sound) (hn : s.stage? n = some st)
    (hm : s.stage? m = some st') (hst : st.deals = true) (hst' : st'.deals = true) : n = m := by
  have noted : ∀ {n st}, s.stage? n = some st → ((∃ session, st.withdrawing? = some (.calling session)) ∨
      ∃ record, st.releasing? = some (.registering record)) → s.advertisement ≠ none := by
    rintro n st hn (⟨_, hk⟩ | ⟨_, hk⟩)
    · obtain ⟨_, ha⟩ := h.calling hn hk
      simp [ha]
    · simp [h.registering hn hk]
  rcases of_deals hst with hl | ⟨hl, hk⟩ <;> rcases of_deals hst' with hl' | ⟨hl', hk'⟩
  · exact h.unique hn hm hl hl'
  · exact absurd (h.fresh hn hl).1 (noted hm hk')
  · exact absurd (h.fresh hm hl').1 (noted hn hk)
  · exact hS.holder hn hl (hS.holds_lock hm hl')

end Rfcomm.Server
