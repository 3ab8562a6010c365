import Rfcomm.Proofs.Server.Ledger
/-!
How a server ends. Once it is closed it tells of nothing more, and whatever was under way goes back on
its own: at rest no record is left in the directory, no listener is held, and no caller is waited for.
-/
namespace Rfcomm

namespace Server

/-- Reads of a stream. -/
def OfRead : Call → Prop
  | .read _ _ => True
  | _ => False

/-- Whether a task at a stage is still to take the advertisement back for good. -/
def Stage.retires : Stage → Bool
  | .leaving | .retiring .waiting | .undoing .waiting => true
  | _ => false

/-- The record is registered, or a task is about to register it again. -/
def Owes (s : Server) : Prop :=
  (∃ record session, s.advertisement = some ⟨record, some session⟩) ∨
    ∃ n st record, s.stage? n = some st ∧ st.releasing? = some (.registering record)

/-- A server is closed, in a runtime (`background`) or outside. -/
def EndsAt (m : Moment) (background : Bool) : Prop :=
  m.before.phase ≠ .closed ∧ (m.act = .close background ∨ m.act = .drop background)

/-- A closed server. If there is a background, the advertisement is not left to itself. -/
structure Ending (s : Server) (background : Bool) : Prop where
  phase : s.phase = .closed
  sending : s.feed.sending = false
  retires : background = true → s.Owes → ∃ n st, s.stage? n = some st ∧ st.retires = true
  listener : s.listener.isSome = true → ∃ n record session, s.stage? n = some (.noting record session)

/-- A caller was on its way to a server (`s₀`), or came later. -/
def Came (s₀ : Server) (ns : List Moment) (x : StreamId) : Prop :=
  (∃ n st, s₀.stage? n = some st ∧ st.caller? = some x) ∨ x ∈ handed ns

/-- No read is in line, or no caller is being sent away yet. -/
def Spared (s : Server) (callers : StreamId → Prop) : Prop :=
  (∀ n, Link.Activity.reads (activities s.stage? n) = false) ∨
    (∀ n k, s.stage? n ≠ some (.refusing k)) ∧
      ∀ x, callers x → ∃ n st, s.stage? n = some st ∧ st.caller? = some x

variable {s s' s₀ s₁ : Server} {id n : Nat} {stage st : Stage} {next : Option Stage} {r : Reply}
  {out : Report} {a : Act} {e : Effect} {ms ns : List Moment} {m : Moment} {x : StreamId}
  {t : Config.Tuning} {calls calls' : Call → Prop} {background : Bool}

/-! ## Nothing is told -/

theorem emit_silent (h : s.feed.sending = false) (v : Event) : s.emit v = (s, {}) := by
  simp [emit, h]

theorem Releases.silent {k : Releasing} {k' : Option Releasing} (h : Releases s id k r s₁ k' out)
    (hf : s.feed.sending = false) : s₁.feed = s.feed ∧ out.events = [] := by
  cases h with
  | close | late | register => exact ⟨rfl, rfl⟩
  | @last address _ _ link | @line address _ _ link =>
      rw [emit_silent (s := { s with link }) hf]
      exact ⟨rfl, rfl⟩
  | skip | hold =>
      rcases rearmed_cases _ _ with ⟨-, h⟩ | ⟨-, h⟩ <;> rw [h] <;> exact ⟨rfl, rfl⟩
  | fail =>
      rw [emit_silent (s := s.leaveAdvertisement) hf]
      rcases rearmed_cases _ _ with ⟨-, h⟩ | ⟨-, h⟩ <;> rw [h] <;> exact ⟨rfl, rfl⟩

theorem Turn.silent (h : Turn s id stage r s₁ next out) (hc : s.phase = .closed)
    (hf : s.feed.sending = false) : s₁.feed = s.feed ∧ out.events = [] := by
  cases h with
  | notBound | notRegistered => rw [resetListening, if_pos hc]; exact ⟨rfl, rfl⟩
  | note _ hp | welcome _ hp => exact absurd hc hp
  | undo h | undone h | withdraw h | beginAttach h | retire h | retired h =>
      obtain ⟨_, _, rfl⟩ := h.frame
      exact ⟨rfl, rfl⟩
  | stumble => rw [emit_silent hf]; exact ⟨rfl, rfl⟩
  | losing h | releasing h | released h => exact h.silent hf
  | lost h => exact ⟨(h.silent hf).1, (h.silent hf).2⟩
  | _ => exact ⟨rfl, rfl⟩

/-- Nothing is told of by a closed server, and what is received of it waited in the feed. -/
theorem silent_of_perform (h : s.perform a = some (s', e)) (hc : s.phase = .closed)
    (hf : s.feed.sending = false) :
    e.report.events = [] ∧ e.received.toList ++ s'.feed.queue <+: s.feed.queue := by
  cases a with
  | listen o =>
      simp only [perform, listen, hc] at h
      cases ho : o.record <;> (rw [ho] at h; cases h; exact ⟨rfl, List.prefix_rfl⟩)
  | read =>
      simp only [perform, read] at h
      split at h
      · split at h <;> (cases h; exact ⟨rfl, List.prefix_rfl⟩)
      · cases h
        exact ⟨rfl, List.prefix_rfl⟩
  | write bytes => cases h; exact ⟨rfl, List.prefix_rfl⟩
  | disconnectClient =>
      simp only [perform, disconnectClient] at h
      split at h <;> (cases h; exact ⟨rfl, List.prefix_rfl⟩)
  | close background => cases h; rw [Server.close, if_pos hc]; exact ⟨rfl, List.prefix_rfl⟩
  | drop background => cases h; rw [Server.drop, Server.close, if_pos hc]; exact ⟨rfl, List.prefix_rfl⟩
  | takeEvent =>
      simp only [perform] at h
      split at h <;> cases h
      · exact ⟨rfl, List.prefix_rfl⟩
      · obtain ⟨rest, hq, rfl⟩ := Feed.take_eq_some_iff.mp ‹_›
        exact ⟨rfl, hq ▸ List.prefix_rfl⟩
  | dismissEvents => cases h; exact ⟨rfl, List.nil_prefix⟩
  | step w r =>
      cases does_of_perform h with
      | send => exact ⟨rfl, List.prefix_rfl⟩
      | turn _ ht =>
          obtain ⟨h₁, h₂⟩ := ht.silent hc hf
          refine ⟨h₂, ?_⟩
          rw [place_feed, h₁]
          exact List.prefix_rfl
      | aside hne => exact absurd rfl (hne _ _)
      | close hact => rcases hact with hact | hact <;> cases hact

/-! ## What a closed server still does -/

/-- A task that is to take the advertisement back goes on to, or finds that there is nothing more. -/
theorem Turn.of_retires (h : Turn s id stage r s₁ next out) (hst : stage.retires = true) :
    (∃ st, next = some st ∧ st.retires = true) ∨
      s.lock.isHeldBy (.task id) = true ∧ next.bind Stage.releasing? = none ∧
        ∀ record session, s₁.advertisement ≠ some ⟨record, some session⟩ := by
  have withdraws : ∀ {k s' k'}, Withdraws s id k r s' k' → k = .waiting →
      s.lock.isHeldBy (.task id) = true ∧
        ∀ record session, s'.advertisement ≠ some ⟨record, some session⟩ := by
    rintro k s' k' h rfl
    cases h with
    | take hl => exact ⟨hl, by simp⟩
    | skip hl hn => exact ⟨hl, fun record session ha => by cases hn _ ha⟩
  cases h with
  | leave => exact .inl ⟨_, rfl, rfl⟩
  | @undo k _ _ _ h | @undone k _ _ h | @retire k _ _ _ h | @retired k _ _ h =>
      cases k with
      | waiting => exact .inr ⟨(withdraws h rfl).1, rfl, (withdraws h rfl).2⟩
      | calling session => cases hst
  | look h => cases h <;> cases hst
  | _ => cases hst

theorem Turn.of_noting {record : Record} {session : SessionId}
    (h : Turn s id (.noting record session) r s₁ next out) (hc : s.phase = .closed)
    (hcap : s.tuning.eventCapacity ≤ Feed.maxCapacity) :
    next = some (.undoing .waiting) ∧ s₁.listener = none := by
  cases h with
  | die _ hd => omega
  | late => exact ⟨rfl, rfl⟩
  | note _ hp => exact absurd hc hp
  | look h => cases h

/-- Nothing gets registered anew in a closed server. -/
theorem Turn.owes (h : Turn s id stage r s₁ next out) (hS : s.Sound) (hs : s.stage? id = some stage)
    (hc : s.phase = .closed) (hcap : s.tuning.eventCapacity ≤ Feed.maxCapacity)
    (ho : (s₁.place id next).Owes) : s.Owes ∨ ∃ st, next = some st ∧ st.retires = true := by
  have hp := h.passes
  rcases ho with ⟨record, session, ha⟩ | ⟨n, st, record, hn, hst⟩
  · rw [place_advertisement] at ha
    cases hp with
    | aside ha' | receive _ _ _ ha' => exact .inl (.inl ⟨_, _, ha'.symm.trans ha⟩)
    | note hst =>
        subst hst
        exact .inr ⟨_, (h.of_noting hc hcap).1, rfl⟩
    | take _ _ _ _ ha' => cases ha'.symm.trans ha
    | register _ _ _ hp => exact absurd hc hp
    | hold hk => exact .inl (.inr ⟨_, _, _, hs, hk⟩)
  · rcases h.origin hS hs hn (by rintro rfl; cases hst) with ⟨rfl, rfl⟩ | ⟨-, hn⟩
    · exfalso
      cases hp with
      | aside _ _ _ hn => cases (hn _ rfl).1.symm.trans (of_registering hst).2.1
      | receive _ _ hn => cases hn; cases hst
      | note _ _ _ hn => rcases hn with hn | hn <;> cases hn; cases hst
      | take _ _ _ _ _ hn => cases (of_withdrawing (show st.withdrawing? = _ from hn)).1.symm.trans hst
      | register _ _ _ hp => exact absurd hc hp
      | hold _ _ hn => cases hn
    · exact .inl (.inr ⟨n, st, record, hn, hst⟩)

theorem Turn.listener (h : Turn s id stage r s₁ next out) (hc : s.phase = .closed) :
    s₁.listener = s.listener ∨ s₁.listener = none ∨
      ∃ record session, next = some (.noting record session) := by
  have releases : ∀ {k k' out}, Releases s id k r s₁ k' out → s₁.listener = s.listener := by
    intro k k' out h
    cases h with
    | close | late | register => rfl
    | last | line => rw [emit_fst]; try rfl
    | skip _ hp => exact absurd hc hp
    | hold =>
        rcases rearmed_cases _ _ with ⟨-, h⟩ | ⟨-, h⟩ <;> rw [h] <;> rfl
    | fail =>
        rcases rearmed_cases _ _ with ⟨-, h⟩ | ⟨-, h⟩ <;> rw [h, emit_fst] <;> rfl
  cases h with
  | register => exact .inr (.inr ⟨_, _, rfl⟩)
  | notBound | notRegistered => rw [resetListening, if_pos hc]; exact .inl rfl
  | late => exact .inr (.inl rfl)
  | undo h | undone h | withdraw h | beginAttach h | retire h | retired h =>
      obtain ⟨_, _, rfl⟩ := h.frame
      exact .inl rfl
  | stumble => rw [emit_fst]; exact .inl rfl
  | welcome => rw [emit_fst]; exact .inl rfl
  | losing h | lost h | releasing h | released h => exact .inl (releases h)
  | _ => exact .inl rfl

theorem Ending.turn (h : s.Ending background) (hS : s.Sound) (hs : s.stage? id = some stage)
    (ht : Turn s id stage r s₁ next out) (hcap : s.tuning.eventCapacity ≤ Feed.maxCapacity) :
    (s₁.place id next).Ending background := by
  have mine := ht.mine hS hs
  refine ⟨?_, ?_, fun hb ho => ?_, fun hl => ?_⟩
  · rw [place_phase]
    exact ht.phase.mpr h.phase
  · rw [place_feed, (ht.silent h.phase h.sending).1]
    exact h.sending
  · rcases ht.owes hS hs h.phase hcap ho with hold | ⟨st, hn, hst⟩
    · obtain ⟨n, st, hn, hst⟩ := h.retires hb hold
      by_cases hne : n = id
      · subst hne
        cases hs.symm.trans hn
        rcases ht.of_retires hst with ⟨st', hn', hst'⟩ | ⟨hl, hrel, hadv⟩
        · exact ⟨n, st', mine.trans hn', hst'⟩
        · -- It has the advertisement to itself, so nobody else registers.
          exfalso
          rcases ho with ⟨record, session, ha⟩ | ⟨i, st', record, hi, hst'⟩
          · exact hadv record session (by rwa [place_advertisement] at ha)
          · rcases ht.origin hS hs hi (by rintro rfl; cases hst') with ⟨rfl, rfl⟩ | ⟨hne, hi⟩
            · cases hrel.symm.trans hst'
            · exact hne (hS.holder hi (of_registering hst').1 hl)
      · exact ⟨n, st, ht.keep hS hs hne hn, hst⟩
    · exact ⟨id, st, mine.trans hn, hst⟩
  · rw [place_listener] at hl
    rcases ht.listener h.phase with he | he | ⟨record, session, hn⟩
    · rw [he] at hl
      obtain ⟨n, record, session, hn⟩ := h.listener hl
      have hne : n ≠ id := by
        rintro rfl
        cases hs.symm.trans hn
        rw [← he, (ht.of_noting h.phase hcap).2] at hl
        cases hl
      exact ⟨n, record, session, ht.keep hS hs hne hn⟩
    · rw [he] at hl
      cases hl
    · exact ⟨id, record, session, mine.trans hn⟩

theorem Ending.aside (h : s.Ending background) (hS : s.Sound) (hd : Does s a s' e)
    (ha : ∀ n r, a ≠ .step (.task n) r) : s'.Ending background := by
  obtain ⟨hadv, -, hnew⟩ := hd.news hS ha
  have keep := (hd.quiet hS ha).2.2.2
  have same : s'.feed.sending = s.feed.sending ∧ s'.listener = s.listener := by
    cases hd with
    | listen | read | write | disconnect | send => exact ⟨rfl, rfl⟩
    | close _ hp => exact absurd h.phase hp
    | aside _ _ _ hf => exact ⟨hf, rfl⟩
    | turn => exact absurd rfl (ha _ _)
  refine ⟨hd.phase h.phase, same.1.trans h.sending, fun hb ho => ?_, fun hl => ?_⟩
  · obtain ⟨n, st, hn, hst⟩ := h.retires hb <| by
      rcases ho with ⟨record, session, ha⟩ | ⟨n, st, record, hn, hst⟩
      · exact .inl ⟨record, session, hadv.symm.trans ha⟩
      · rcases hnew n st hn with hn | ⟨-, hb, -⟩
        · exact .inr ⟨n, st, record, hn, hst⟩
        · cases (of_begins hb).2.2.1.symm.trans hst
    exact ⟨n, st, keep _ _ hn, hst⟩
  · rw [same.2] at hl
    obtain ⟨n, record, session, hn⟩ := h.listener hl
    exact ⟨n, record, session, keep _ _ hn⟩

/-- The server right after it was closed. At most a task that leaves is new. -/
theorem shut_of_endsAt (h : (machine t).Run (ms ++ [m]) s) (hm : EndsAt m background) :
    s.phase = .closed ∧ s.feed = m.before.feed.stop ∧ s.listener = none ∧
      (background = true → ∃ n, s.stage? n = some .leaving) ∧
      ∀ n st, st ≠ .leaving → (s.stage? n = some st ↔ m.before.stage? n = some st) := by
  obtain ⟨hopen, hact⟩ := hm
  obtain ⟨hr, -, hp, -⟩ := h.unsnoc
  have hS := sound_of_run hr
  have hs : s = { m.before.close background with owned := s.owned } := by
    rcases hact with hact | hact <;> rw [hact] at hp
    all_goals rw [← (Prod.mk.inj (Option.some.inj hp)).1]; try rfl
  have he : s.stage? = (m.before.close background).stage? := by rw [hs]; rfl
  rw [he, hs, close_eq hopen]
  cases background with
  | false => exact ⟨rfl, rfl, rfl, by simp, fun _ _ _ => .rfl⟩
  | true =>
      rw [if_pos rfl, stage?_spawn (s := m.before.shut) hS.tidy]
      refine ⟨rfl, rfl, rfl, fun _ => ⟨m.before.nextTask, Function.update_self ..⟩, fun n st hst => ?_⟩
      by_cases hn : n = m.before.nextTask
      · subst hn
        rw [hS.fresh]
        simp [shut, Ne.symm hst]
      · exact iff_of_eq (congrArg (· = some st) (Function.update_of_ne hn ..))

theorem ending_of_run (h : (machine t).Run (ms ++ m :: ns) s) (hm : EndsAt m background)
    (hcap : t.eventCapacity ≤ Feed.maxCapacity) : s.Ending background := by
  have hrun : (machine t).Run ((ms ++ [m]) ++ ns) s := by simpa using h
  refine hrun.since (P := fun _ s => s.Ending background) ?_ ?_
  · intro s₀ h₀
    obtain ⟨hp, hf, hl, hleave, -⟩ := shut_of_endsAt h₀ hm
    refine ⟨hp, by rw [hf]; rfl, fun hb _ => ?_, by simp [hl]⟩
    obtain ⟨n, hn⟩ := hleave hb
    exact ⟨n, _, hn, rfl⟩
  · intro ns s a s' e hr _ hp hE
    have hS := sound_of_run hr
    have hd := does_of_perform hp
    rcases hd.turn_or_aside with ⟨n, r, st, s₁, next, out, rfl, rfl, rfl, hs, ht⟩ | hne
    · exact hE.turn hS hs ht ((tuning_of_run hr).symm ▸ hcap)
    · exact hE.aside hS hd hne

/-- Nothing is told of after a server was closed. -/
theorem silent_since (h : (machine t).Run (ms ++ m :: ns) s) (hm : EndsAt m background)
    (hcap : t.eventCapacity ≤ Feed.maxCapacity) :
    (∀ k ∈ ns, k.effect.report.events = []) ∧
      taken ns ++ s.feed.queue <+: m.before.feed.queue := by
  have hrun : (machine t).Run ((ms ++ [m]) ++ ns) s := by simpa using h
  refine hrun.since (P := fun ns s => (∀ k ∈ ns, k.effect.report.events = []) ∧
    taken ns ++ s.feed.queue <+: m.before.feed.queue) ?_ ?_
  · intro s₀ h₀
    obtain ⟨-, hf, -⟩ := shut_of_endsAt h₀ hm
    exact ⟨by simp, by rw [hf]; exact List.prefix_rfl⟩
  · rintro ns s a s' e hr - hp ⟨hevents, hqueue⟩
    have hr' : (machine t).Run (ms ++ m :: ns) s := by simpa using hr
    have hE := ending_of_run hr' hm hcap
    obtain ⟨he, hq⟩ := silent_of_perform hp hE.phase hE.sending
    refine ⟨fun k hk => ?_, ?_⟩
    · rcases List.mem_append.mp hk with hk | hk
      · exact hevents k hk
      · rw [List.mem_singleton.mp hk]
        exact he
    · rw [taken_snoc, List.append_assoc]
      exact ((List.prefix_append_right_inj _).mpr hq).trans hqueue

/-! ## Callers who are sent away -/

theorem reads_turn (hS : s.Sound) (hs : s.stage? id = some stage)
    (ht : Turn s id stage r s₁ next out) (ho : s.link.isOpen = false)
    (hr : ∀ n, Link.Activity.reads (activities s.stage? n) = false) (n : Nat) :
    Link.Activity.reads (activities (s₁.place id next).stage? n) = false := by
  rw [(ht.roles hS hs).1]
  by_cases hn : n = id
  · subst hn
    rw [Function.update_self]
    have hstage := hr n
    rw [activities_of_stage hs] at hstage
    exact ht.link.not_reads ho hstage
  · rw [Function.update_of_ne hn]
    exact hr n

theorem caller_holds (h : st.caller? = some x) : st.stream? = some x := by
  cases st <;> cases h <;> rfl

theorem Turn.of_caller (h : Turn s id stage r s₁ next out) (hx : stage.caller? = some x)
    (hc : s.phase = .closed) : (∃ st, next = some st ∧ st.caller? = some x) ∨
      stage.activity = some (.attaching (.writer x)) := by
  cases h with
  | withdraw | beginAttach => exact .inl ⟨_, rfl, hx⟩
  | @attach address k _ _ _ h =>
      cases Link.move_of_resumeAttach h with
      | haveReader => exact .inl ⟨_, rfl, hx⟩
  | @refuse address k _ _ _ h =>
      cases Link.move_of_resumeAttach h with
      | attach => cases hx; exact .inr rfl
  | welcome _ hp => exact absurd hc hp
  | look h => cases h <;> cases hx
  | _ => cases hx

/-- Whoever begins to send a caller away has both halves of the link. -/
theorem Turn.to_refusing {k : Link.Closing} (h : Turn s id stage r s₁ (some (.refusing k)) out) :
    (∃ k', stage = .refusing k') ∨ ∃ x, stage.activity = some (.attaching (.writer x)) := by
  generalize hn : some (Stage.refusing k) = next at h
  cases h with
  | refusing => exact .inl ⟨_, rfl⟩
  | @refuse address k _ _ _ h =>
      cases Link.move_of_resumeAttach h with
      | attach => exact .inr ⟨_, rfl⟩
  | look =>
      obtain ⟨l, -, he⟩ := Option.map_eq_some_iff.mp hn.symm
      cases he
  | _ => cases hn

theorem Spared.turn {callers : StreamId → Prop} (h : s.Spared callers) (hS : s.Sound)
    (hord : s.link.Ordered (activities s.stage?)) (hs : s.stage? id = some stage)
    (ht : Turn s id stage r s₁ next out) (hc : s.phase = .closed) (ho : s.link.isOpen = false) :
    (s₁.place id next).Spared fun x => callers x ∨ (Act.step (.task id) r).stream? = some x := by
  have mine := ht.mine hS hs
  by_cases hw : ∃ x, stage.activity = some (.attaching (.writer x))
  · -- Whoever has both halves finds no read in line.
    obtain ⟨x, hw⟩ := hw
    exact .inl (reads_turn hS hs ht ho (hord.alone hS.link ((activities_of_stage hs).trans hw)))
  · rcases h with h | ⟨hnone, hcallers⟩
    · exact .inl (reads_turn hS hs ht ho h)
    · refine .inr ⟨fun n k hn => ?_, ?_⟩
      · rcases ht.origin hS hs hn (by simp) with ⟨rfl, rfl⟩ | ⟨-, hn⟩
        · rcases ht.to_refusing with ⟨k', rfl⟩ | h
          · exact hnone _ _ hs
          · exact hw h
        · exact hnone _ _ hn
      · rintro x (hx | hx)
        · obtain ⟨n, st, hn, hst⟩ := hcallers x hx
          by_cases hne : n = id
          · subst hne
            cases hs.symm.trans hn
            rcases ht.of_caller hst hc with ⟨st', rfl, hst'⟩ | h
            · exact ⟨n, st', mine, hst'⟩
            · exact absurd ⟨x, h⟩ hw
          · exact ⟨n, st, ht.keep hS hs hne hn, hst⟩
        · obtain ⟨address, rfl⟩ := ht.brings hx
          exact ⟨id, _, mine, rfl⟩

theorem Spared.aside {callers : StreamId → Prop} (h : s.Spared callers) (hS : s.Sound)
    (hd : Does s a s' e) (ha : ∀ n r, a ≠ .step (.task n) r) : s'.Spared callers := by
  have keep := (hd.quiet hS ha).2.2.2
  refine h.imp (fun h n => ?_) fun ⟨hnone, hcallers⟩ => ⟨fun n k hn => ?_, fun x hx => ?_⟩
  · rcases hd.roles hS ha with he | he <;> rw [he]
    · exact h n
    · by_cases hn : n = s.nextTask
      · subst hn
        rw [Function.update_self]
        rfl
      · rw [Function.update_of_ne hn]
        exact h n
  · rcases (hd.news hS ha).2.2 n _ hn with hn | ⟨-, hb, -⟩
    · exact hnone n k hn
    · cases hb
  · obtain ⟨n, st, hn, hst⟩ := hcallers x hx
    exact ⟨n, st, keep _ _ hn, hst⟩

theorem Spared.mono {callers callers' : StreamId → Prop} (h : s.Spared callers)
    (hc : ∀ x, callers' x → callers x) : s.Spared callers' :=
  h.imp_right fun ⟨h₁, h₂⟩ => ⟨h₁, fun x hx => h₂ x (hc x hx)⟩

theorem spared_of_run (h : (machine t).Run (ms ++ m :: ns) s) (hm : EndsAt m background) :
    s.Spared (Came m.before ns) := by
  have hrun : (machine t).Run ((ms ++ [m]) ++ ns) s := by simpa using h
  suffices h : s.phase = .closed ∧ s.Spared (Came m.before ns) from h.2
  refine hrun.since (P := fun ns s => s.phase = .closed ∧ s.Spared (Came m.before ns)) ?_ ?_
  · intro s₀ h₀
    obtain ⟨hp, -, -, -, hst⟩ := shut_of_endsAt h₀ hm
    obtain ⟨o, ⟨hopen, -⟩, -⟩ := serves_of_run h₀.unsnoc.1 hm.1
    refine ⟨hp, .inr ⟨fun n k hn => ?_, ?_⟩⟩
    · cases hopen.not_closes ((hst _ _ (by simp)).mp hn)
    · rintro x (⟨n, st, hn, hx⟩ | hx)
      · exact ⟨n, st, (hst _ _ (by rintro rfl; cases hx)).mpr hn, hx⟩
      · cases hx
  · rintro ns s a s' e hr - hp ⟨hc, hsp⟩
    have hS := sound_of_run hr
    have hd := does_of_perform hp
    refine ⟨hd.phase hc, ?_⟩
    have came : ∀ x, Came m.before (ns ++ [⟨s, a, s', e⟩]) x →
        Came m.before ns x ∨ a.stream? = some x := by
      rintro x (hx | hx)
      · exact .inl (.inl hx)
      · rw [handed_append] at hx
        rcases List.mem_append.mp hx with hx | hx
        · exact .inl (.inr hx)
        · exact .inr (by simpa [handed] using hx)
    rcases hd.turn_or_aside with ⟨n, r, st, s₁, next, out, rfl, rfl, rfl, hs, ht⟩ | hne
    · exact (hsp.turn hS (link_ordered_of_run hr) hs ht hc (shut_of_run hr hc).isOpen).mono came
    · refine (hsp.aside hS hd hne).mono fun x hx => (came x hx).resolve_right ?_
      rw [hd.brings hne]
      simp

/-! ## At rest -/

theorem Rests.mono (h : s.Rests calls) (hc : ∀ c, calls c → calls' c) : s.Rests calls' :=
  fun w => (h w).imp_right fun ⟨c, hw, hcall⟩ => ⟨c, hw, hc c hcall⟩

theorem passive_of_read {c : Call} (h : OfRead c) : Link.Passive c := by
  cases c <;> first | exact h.elim | trivial

section AtRest

variable (hr : s.Rests OfRead)

include hr

theorem Rests.not_shutting (n : Nat) (x : StreamId) :
    activities s.stage? n ≠ some (.closing (.stream x)) := by
  intro hn
  obtain ⟨st, hs, hst⟩ := Option.bind_eq_some_iff.mp hn
  exact hr.call (w := .task n) ((ask_task hs).trans ((askStage_activity s n hst).trans rfl))

/-- Neither is a caller waited for nor is one on its way or sent away. -/
theorem Rests.no_accepting {callers : StreamId → Prop} (hS : s.Sound) (hcall : s.Callers)
    (ho : s.link.isOpen = false) (hsp : s.Spared callers) (hs : s.stage? n = some st) :
    st.party? ≠ some .accepting := by
  have hlock := (hr.mono fun _ => passive_of_read).lock_free hS hs
  have hask := ask_task hs
  have ready : s.askStage n st ≠ .ready := hask ▸ hr.not_ready _
  have call : ∀ {c}, s.askStage n st = .call c → OfRead c := fun h => hr.call (hask.trans h)
  have reading : ∀ {act}, st.activity = some act →
      ∃ i x, activities s.stage? i = some (.reading (.reading x)) := fun hact =>
    hr.link.exists_reading_of_closed hS.link ho hr.not_shutting ((activities_of_stage hs).trans hact)
  intro hp
  cases st with
  | watching => exact ready rfl
  | accepting l => exact call rfl
  | pausing => exact call rfl
  | welcoming x address k => cases k <;> cases hlock
  | attaching address k =>
      -- A read can have the reading half only of a stream that is there.
      obtain ⟨i, x, hi⟩ := reading rfl
      have hx := hS.link.reads i x hi
      rw [(hcall.bare hs rfl).stream] at hx
      cases hx
  | refusing k =>
      rcases hsp with h | ⟨h, -⟩
      · obtain ⟨i, x, hi⟩ := reading rfl
        have := h i
        rw [hi] at this
        cases this
      · exact h n k hs
  | _ => cases hp

theorem Rests.no_listeners (hS : s.Sound) (hE : s.Ending background)
    (hacc : ∀ {n st}, s.stage? n = some st → st.party? ≠ some .accepting) : s.listeners = [] := by
  have hl : s.listener = none := by
    by_contra h
    obtain ⟨n, record, session, hn⟩ := hE.listener (Option.isSome_iff_ne_none.mpr h)
    cases (hr.mono fun _ => passive_of_read).lock_free hS hn
  have ht : s.tasks.filterMap (·.stage.listener?) = [] := by
    rw [List.filterMap_eq_nil_iff]
    rintro ⟨n, st⟩ hmem
    have hn := (mem_tasks hS).mpr hmem
    cases st with
    | registering record l => exact (hr.call (w := .task n) ((ask_task hn).trans rfl)).elim
    | accepting l => exact absurd rfl (hacc hn)
    | _ => rfl
  simp [listeners, hl, ht]

theorem Rests.not_owes (hS : s.Sound) (hE : s.Ending true) : ¬ s.Owes := by
  intro ho
  obtain ⟨n, st, hn, hst⟩ := hE.retires rfl ho
  have hlock := (hr.mono fun _ => passive_of_read).lock_free hS hn
  cases st with
  | leaving => exact hr.not_ready (.task n) ((ask_task hn).trans rfl)
  | undoing k | retiring k => cases k <;> cases hlock
  | _ => cases hst

theorem Rests.came_shutDown (h : (machine t).Run (ms ++ m :: ns) s) (hm : EndsAt m true)
    (hx : Came m.before ns x) : ShutDown (ms ++ m :: ns) x ∧ x ∉ s.streams := by
  have hS := sound_of_run h
  have hopen := (shut_of_run h (guarded_of_run h hm).1).isOpen
  rcases spared_of_run h hm with hreads | ⟨-, hcallers⟩
  · have hl : ¬ s.Listens := by
      rintro ⟨-, n, y, hn⟩
      have := hreads n
      rw [hn] at this
      cases this
    have hw := (wound_up_iff h hm (hr.mono fun _ => passive_of_read)).mpr hl
    have hmem : x ∈ handed (ms ++ m :: ns) := by
      rw [handed_append, List.mem_append]
      rcases hx with ⟨n, st, hn, hst⟩ | hx
      · exact .inl (handed_of_holds h.moment.1 (.task hn (caller_holds hst)))
      · right
        rw [show m :: ns = [m] ++ ns from rfl, handed_append]
        exact List.mem_append_right _ hx
    exact ⟨hw.shut x hmem, by simp [hw.released]⟩
  · obtain ⟨n, st, hn, hst⟩ := hcallers x hx
    refine absurd ?_ (hr.no_accepting hS (callers_of_run h) hopen (spared_of_run h hm) hn)
    cases st <;> cases hst <;> rfl

end AtRest

end Server

namespace Site

/-- The server of a site is closed, in a runtime or outside. -/
def EndsAt (m : Moment) (background : Bool) : Prop :=
  m.before.server.phase ≠ .closed ∧
    (m.act = .server (.close background) ∨ m.act = .server (.drop background))

variable {s : Site} {ms ns : List Moment} {m : Moment} {t : Config.Tuning} {session : SessionId}
  {record : Record} {p : Option Nat} {n : Nat} {st : Server.Stage} {background : Bool}

theorem ask_of_asks {s : Server} (hs : s.stage? n = some st) (h : asks st = true) :
    ∃ c, s.ask (.task n) = .call c ∧ ¬ Server.OfRead c := by
  rw [Server.ask_task hs]
  cases st with
  | registering record l => exact ⟨_, rfl, id⟩
  | undoing k | welcoming _ _ k | retiring k =>
      cases k with
      | waiting => cases h
      | calling session => exact ⟨_, rfl, id⟩
  | losing k | releasing k =>
      cases k with
      | closing | waiting => cases h
      | registering record => exact ⟨_, rfl, id⟩
  | _ => cases h

theorem Has.not_ended (hp : s.Has session record p) (hS : s.server.Sound) (hE : s.server.Ending true)
    (hr : s.server.Rests Server.OfRead) : False := by
  have waits : ∀ {n st}, s.server.stage? n = some st → asks st = true → False := by
    intro n st hs hst
    obtain ⟨c, hc, hn⟩ := ask_of_asks hs hst
    exact hn (hr.call hc)
  cases hp with
  | advertisement ha => exact hr.not_owes hS hE (.inl ⟨_, _, ha⟩)
  | answered hs hreg => exact waits hs (asks_of_registers hreg)
  | noting hs => cases (hr.mono fun _ => Server.passive_of_read).lock_free hS hs
  | withdrawing hs hw => exact waits hs (asks_of_calling hw)

theorem serverMoments_of_endsAt (h : (machine t).Run (ms ++ m :: ns) s) (hm : EndsAt m background) :
    ∃ k : Server.Moment, k.before = m.before.server ∧ Server.EndsAt k background ∧ k.effect = {} ∧
      serverMoments (m :: ns) = k :: serverMoments ns := by
  obtain ⟨-, -, hp, -⟩ := h.moment
  have closes : ∀ act : Server.Act, act = .close background ∨ act = .drop background →
      m.act = .server act → ∃ k : Server.Moment, k.before = m.before.server ∧
        Server.EndsAt k background ∧ k.effect = {} ∧
        serverMoments (m :: ns) = k :: serverMoments ns := by
    intro act hclose hact
    have hp : m.before.perform (.server act) = some (m.after, m.effect) := hact ▸ hp
    have he : m.effect = { server := some (act, {}) } := by
      rcases hclose with rfl | rfl <;> exact (Prod.mk.inj (Option.some.inj hp)).2.symm
    refine ⟨⟨m.before.server, act, m.after.server, {}⟩, rfl, ⟨hm.1, hclose⟩, rfl, ?_⟩
    simp [serverMoments, he]
  rcases hm.2 with hact | hact
  · exact closes _ (.inl rfl) hact
  · exact closes _ (.inr rfl) hact

/-- Closing a server is for good and complete, at whatever moment it happens. The server stays closed
and without a client, tells of nothing more, and is not affected by being closed again; what is still
received waited in the feed. At rest, reads apart, its listener is given back and no caller is waited
for. In a runtime, moreover, no record of it is registered then, and whoever still came was sent away. -/
theorem closed_for_good (h : (machine t).Run (ms ++ m :: ns) s)
    (hcap : t.eventCapacity ≤ Server.Feed.maxCapacity) (hm : EndsAt m background) :
    s.server.phase = .closed ∧ s.server.client = none ∧
    (∀ k ∈ serverMoments (m :: ns), k.effect.report.events = []) ∧ s.server.feed.sending = false ∧
    Server.taken (serverMoments ns) ++ s.server.feed.queue <+: m.before.server.feed.queue ∧
    (∀ b, s.perform (.server (.close b)) = some (s, { server := some (.close b, {}) })) ∧
    (s.server.Rests Server.OfRead →
      s.server.listeners = [] ∧ (∀ task ∈ s.server.tasks, task.stage.party? ≠ some .accepting) ∧
      (background = true → s.listed (ms ++ m :: ns) = [] ∧
        ∀ x, Server.Came m.before.server (serverMoments ns) x →
          Server.ShutDown (serverMoments (ms ++ m :: ns)) x ∧ x ∉ s.server.streams)) := by
  obtain ⟨k, hbefore, hk, heffect, hns⟩ := serverMoments_of_endsAt h hm
  obtain ⟨hrun, -⟩ := ledger_of_run h
  have hall : serverMoments (ms ++ m :: ns) = serverMoments ms ++ k :: serverMoments ns := by
    rw [serverMoments_append, hns]
  have hS := Server.sound_of_run hrun
  have hcallers := Server.callers_of_run hrun
  rw [hall] at hrun
  have hE := Server.ending_of_run hrun hk hcap
  have hshut := Server.shut_of_run hrun hE.phase
  obtain ⟨hevents, hqueue⟩ := Server.silent_since hrun hk hcap
  refine ⟨hE.phase, hshut.client, ?_, hE.sending, hbefore ▸ hqueue, fun b => ?_, fun hr => ?_⟩
  · rw [hns]
    rintro i (_ | ⟨_, hi⟩)
    · rw [heffect]
    · exact hevents i hi
  · have hclose : s.server.close b = s.server := by rw [Server.close, if_pos hE.phase]
    change some (({ s with server := s.server.close b } : Site), _) = _
    rw [hclose]
  · have hacc : ∀ {n st}, s.server.stage? n = some st → st.party? ≠ some .accepting := fun hn =>
      hr.no_accepting hS hcallers hshut.isOpen (Server.spared_of_run hrun hk) hn
    refine ⟨hr.no_listeners hS hE hacc, ?_, ?_⟩
    · rintro ⟨n, st⟩ hmem
      exact hacc ((Server.mem_tasks hS).mpr hmem)
    · rintro rfl
      refine ⟨listed_eq_nil h fun _ _ _ hp => hp.not_ended hS hE hr, fun x hx => ?_⟩
      rw [hall]
      exact hr.came_shutDown hrun hk (hbefore ▸ hx)

/-- A server is closed while the advertisement is taken back for a caller. Whoever attaches the caller
and whoever closes the server both close the stream. -/
theorem closed_with_a_caller : ∃ ms m ns s x, (machine {}).Run (ms ++ m :: ns) s ∧
    ({} : Config.Tuning).eventCapacity ≤ Server.Feed.maxCapacity ∧ EndsAt m true ∧
    s.server.Rests Server.OfRead ∧ Server.Came m.before.server (serverMoments ns) x ∧
    s.listed (ms ++ m :: ns) = [] ∧ Server.ShutDown (serverMoments (ms ++ m :: ns)) x := by
  let as : List Act := [.server (.listen ⟨"1101", 3, ""⟩),
    .server (.step (.task 0) (.bound (.ok 0))), .carryOut 0, .answer 0,
    .server (.step (.task 0) .go), .server (.step (.task 1) .go),
    .server (.step (.task 1) (.accepted (.ok (7, .any)))), .server (.step (.task 1) .go)]
  let bs : List Act := [.server (.step (.task 2) .go), .carryOut 1, .answer 1,
    .server (.step (.task 1) .go), .server (.step (.task 2) .go), .server (.step (.task 1) .go),
    .server (.step (.task 2) .go), .server (.step (.task 1) .go), .server (.step (.task 2) .go),
    .server (.step (.task 2) .shutDown), .server (.step (.task 1) .go)]
  obtain ⟨ms, m, ns, s, hrun, hact, h₀, hs⟩ := (machine {}).exists_moment_of_play as
    (.server (.close true)) bs
    (fun s => s.server.phase = .advertising ∧
      s.server.stage? 1 = some (.welcoming 7 .any (.calling 0)) ∧ s.directory.records.length = 1)
    (fun s => s.server.workers = []) (by decide +kernel) (by decide +kernel)
  obtain ⟨hphase, hstage, -⟩ := of_decide_eq_true h₀
  have hw := of_decide_eq_true hs
  have hcap : ({} : Config.Tuning).eventCapacity ≤ Server.Feed.maxCapacity := by decide
  have hclosed : EndsAt m true := ⟨by simp [hphase], .inl hact⟩
  have hrest : s.server.Rests Server.OfRead :=
    Server.rests_of_workers fun w h => by simp [hw] at h
  have hcame : Server.Came m.before.server (serverMoments ns) 7 := .inl ⟨1, _, hstage, rfl⟩
  obtain ⟨-, -, -, -, -, -, hend⟩ := closed_for_good hrun hcap hclosed
  obtain ⟨hlisted, hcallers⟩ := (hend hrest).2.2 rfl
  exact ⟨ms, m, ns, s, 7, hrun, hcap, hclosed, hrest, hcame, hlisted, (hcallers 7 hcame).1⟩

end Site

end Rfcomm
