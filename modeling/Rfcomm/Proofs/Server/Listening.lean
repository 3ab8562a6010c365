import Rfcomm.Proofs.Server.Advertised
import Rfcomm.Proofs.Server.Ending
/-!
How a listen job ends. Either the server is advertised and accepts callers, or nothing is left of the
job. The exception is a feed that is asked to keep more events than can be kept: the job dies after the
channel was bound and the record was registered, and both stay.
-/
namespace Rfcomm

namespace Server

/-- A listen job was started. -/
def Starts (m : Moment) (n : Nat) (o : Options) : Prop :=
  m.act = .listen o ∧ m.effect.started = some (.task n)

/-- The stages of a listen job. -/
inductive Stage.Founds (record : Record) : Stage → Prop
  | binding : Founds record (.binding record)
  | registering {l} : Founds record (.registering record l)
  | noting {session} : Founds record (.noting record session)
  | undoing {k} : Founds record (.undoing k)

/-- A listen job is under way, and no other task has to do with callers or clients. -/
structure Founding (s : Server) (n : Nat) (record : Record) : Prop where
  stage : ∃ st, s.stage? n = some st ∧ st.Founds record
  others : ∀ {m st}, s.stage? m = some st → m ≠ n → st.party? = none
  phase : s.phase = .listening ∨ s.phase = .closed
  client : s.client = none
  undoing : ∀ {k}, s.stage? n = some (.undoing k) → s.phase = .closed ∧ s.listener = none

variable {s s' s₁ : Server} {id n m : Nat} {stage st : Stage} {next : Option Stage} {r : Reply}
  {out : Report} {a : Act} {e : Effect} {ms ns : List Moment} {k : Moment} {t : Config.Tuning}
  {record : Record} {o : Options}

/-! ## The listener -/

/-- A listener is kept for an advertisement, or for one that is about to be noted. -/
def Bound (s : Server) : Prop :=
  s.listener.isSome = true →
    s.advertisement.isSome = true ∨ ∃ n record session, s.stage? n = some (.noting record session)

theorem Turn.advertised (h : Turn s id stage r s₁ next out) :
    (s.advertisement.isSome = true → s₁.advertisement.isSome = true) ∧
      ((∃ record session, stage = .noting record session) → s₁.advertisement.isSome = true) := by
  cases h.passes with
  | aside ha hn => exact ⟨fun h => ha ▸ h, fun ⟨record, session, he⟩ => absurd he (hn record session)⟩
  | receive hst _ _ ha => subst hst; exact ⟨fun h => ha ▸ h, fun ⟨_, _, he⟩ => by cases he⟩
  | note _ _ ha => rw [ha]; exact ⟨fun _ => rfl, fun _ => rfl⟩
  | take _ _ _ _ ha => rw [ha]; exact ⟨fun _ => rfl, fun _ => rfl⟩
  | register hst _ _ _ _ ha =>
      refine ⟨fun h => ha ▸ h, ?_⟩
      rintro ⟨_, _, rfl⟩
      cases hst
  | hold hst _ _ ha =>
      refine ⟨fun h => by rw [ha]; simpa using h, ?_⟩
      rintro ⟨_, _, rfl⟩
      cases hst

theorem Turn.listener_or_noting (h : Turn s id stage r s₁ next out) :
    s₁.listener = s.listener ∨ s₁.listener = none ∨
      ∃ record session, next = some (.noting record session) := by
  by_cases hst : stage.listens = true
  · cases h with
    | register => exact .inr (.inr ⟨_, _, rfl⟩)
    | notBound | notRegistered => unfold resetListening; split <;> exact .inl rfl
    | late => exact .inr (.inl rfl)
    | bind | die | note => exact .inl rfl
    | look hl => cases hl <;> cases hst
    | _ => cases hst
  · exact .inl (h.source (by simpa using hst)).1.1

theorem bound_of_run (h : (machine t).Run ms s) : s.Bound := by
  induction h with
  | start => exact nofun
  | @next ms s a s' e hr _ hp ih =>
      have hS := sound_of_run hr
      have hd := does_of_perform hp
      intro hl
      rcases hd.turn_or_aside with ⟨n, r, st, s₁, next, out, rfl, rfl, rfl, hs, ht⟩ | hne
      · rw [place_listener] at hl
        rw [place_advertisement]
        rcases ht.listener_or_noting with he | he | ⟨record, session, rfl⟩
        · rcases ih (he ▸ hl) with ha | ⟨m, record, session, hm⟩
          · exact .inl (ht.advertised.1 ha)
          · by_cases hmn : m = n
            · subst hmn
              exact .inl (ht.advertised.2 ⟨record, session, Option.some.inj (hs.symm.trans hm)⟩)
            · exact .inr ⟨m, record, session, ht.keep hS hs hmn hm⟩
        · rw [he] at hl
          cases hl
        · exact .inr ⟨n, record, session, ht.mine hS hs⟩
      · have keep := (hd.quiet hS hne).2.2.2
        rw [(hd.news hS hne).1]
        have same : s'.listener = s.listener → s.advertisement.isSome = true ∨
            ∃ n record session, s'.stage? n = some (.noting record session) := by
          intro he
          refine (ih (he ▸ hl)).imp_right ?_
          rintro ⟨m, record, session, hm⟩
          exact ⟨m, record, session, keep _ _ hm⟩
        cases hd with
        | listen | read | write | disconnect | aside | send => exact same rfl
        | @close _ background _ _ hc =>
            rw [close_eq hc] at hl
            cases background <;> cases hl
        | turn => exact absurd rfl (hne _ _)

/-- A listen job that did not note its registration yet has no listener but its own. -/
theorem no_listener (h : (machine t).Run ms s) (hs : s.stage? n = some st)
    (hst : st.listens = true) (hn : ∀ record session, st ≠ .noting record session) :
    s.listener = none := by
  have hC := custody_of_run h
  by_contra hl
  rcases bound_of_run h (Option.isSome_iff_ne_none.mpr hl) with ha | ⟨m, record, session, hm⟩
  · rw [(hC.fresh hs hst).1] at ha
    cases ha
  · obtain rfl := hC.unique hs hm hst rfl
    exact hn record session (Option.some.inj (hs.symm.trans hm))

theorem no_listener_of_idle (h : (machine t).Run ms s) (hp : s.phase = .idle) :
    s.listener = none := by
  have hC := custody_of_run h
  by_contra hl
  rcases bound_of_run h (Option.isSome_iff_ne_none.mpr hl) with ha | ⟨m, record, session, hm⟩
  · rw [hC.idle hp] at ha
    cases ha
  · exact (hC.fresh hm rfl).2 hp

theorem listener?_of_no_party (h : st.party? = none) : st.listener? = none := by
  cases st <;> first | rfl | cases h

theorem listeners_eq_nil (hS : s.Sound) (hl : s.listener = none)
    (ht : ∀ {n st}, s.stage? n = some st → st.party? = none) : s.listeners = [] := by
  have : s.tasks.filterMap (·.stage.listener?) = [] := by
    rw [List.filterMap_eq_nil_iff]
    rintro ⟨n, st⟩ hm
    exact listener?_of_no_party (ht ((mem_tasks hS).mpr hm))
  simp [listeners, hl, this]

/-- At an idle server no task has to do with callers or clients. -/
theorem no_party_of_idle (h : (machine t).Run ms s) (hp : s.phase = .idle)
    (hs : s.stage? n = some st) : st.party? = none := by
  obtain ⟨o, ⟨ho, hf⟩, -⟩ := serves_of_run h (by simp [hp])
  obtain ⟨rfl, -⟩ := hf.of_idle hp
  cases ho with
  | nobody hn => exact no_party (hn n st hs).1 (hn n st hs).2

/-! ## While a listen job is under way -/

theorem founding_of_starts (h : (machine t).Run ms s) (hp : s.perform a = some (s', e))
    (ha : a = .listen o) (he : e.started = some (.task n)) :
    s.phase = .idle ∧ ∃ record, o.record = .ok record ∧ s'.Founding n record := by
  have hS := sound_of_run h
  cases does_of_perform hp with
  | @listen _ record hrec hi =>
      cases ha
      cases he
      obtain ⟨o', ⟨-, hf⟩, -⟩ := serves_of_run h (by simp [hi])
      have hstage := stage?_spawn (s := { s with phase := .listening }) hS.tidy (.binding record)
      refine ⟨hi, record, hrec, ⟨_, ?_, .binding⟩, ?_, .inl rfl, (hf.of_idle hi).2.bare.client, ?_⟩
      · rw [hstage]
        exact Function.update_self ..
      · intro m st hm hne
        rw [hstage, Function.update_of_ne hne] at hm
        exact no_party_of_idle h hi hm
      · intro k hk
        rw [hstage] at hk
        cases (Function.update_self ..).symm.trans hk
  | aside => cases ha; cases he
  | close hact => rcases hact with hact | hact <;> cases ha.symm.trans hact
  | _ => cases ha

/-- A listen job stays one, or its task ends with an outcome. -/
theorem Turn.of_founds (h : Turn s id stage r s₁ next out) (hst : stage.Founds record)
    (hu : ∀ k, stage = .undoing k → s.phase = .closed ∧ s.listener = none) :
    out.outcome.isSome = true ∨ s₁.nextTask = s.nextTask ∧ s₁.phase = s.phase ∧
      s₁.client = s.client ∧ ∃ st, next = some st ∧ st.Founds record ∧
        ∀ k, st = .undoing k → s₁.phase = .closed ∧ s₁.listener = none := by
  cases h with
  | notBound | notRegistered | die | note | undone => exact .inl rfl
  | bind => cases hst; exact .inr ⟨rfl, rfl, rfl, _, rfl, .registering, nofun⟩
  | register => cases hst; exact .inr ⟨rfl, rfl, rfl, _, rfl, .noting, nofun⟩
  | late _ hc => exact .inr ⟨rfl, rfl, rfl, _, rfl, .undoing, fun _ _ => ⟨hc, rfl⟩⟩
  | undo h =>
      have hc := hu _ rfl
      obtain ⟨_, _, rfl⟩ := h.frame
      exact .inr ⟨rfl, rfl, rfl, _, rfl, .undoing, fun _ _ => hc⟩
  | look hl => cases hl <;> cases hst
  | _ => cases hst

/-- Without a client, a task that has to do with neither callers nor clients keeps it so. -/
theorem Turn.of_no_party (h : Turn s id stage r s₁ next out) (hst : stage.party? = none)
    (hc : s.client = none) : s₁.nextTask = s.nextTask ∧ s₁.phase = s.phase ∧ s₁.client = none ∧
      s₁.listener = s.listener ∧ ∀ st, next = some st → st.party? = none := by
  cases h with
  | read | leave | closing => exact ⟨rfl, rfl, hc, rfl, by rintro _ ⟨⟩; rfl⟩
  | report | dismissed | closed => exact ⟨rfl, rfl, hc, rfl, nofun⟩
  | retire h | retired h =>
      obtain ⟨_, _, rfl⟩ := h.frame
      exact ⟨rfl, rfl, hc, rfl, by rintro _ ⟨⟩; rfl⟩
  | lose _ _ hcl | dismiss hcl => cases hc.symm.trans hcl
  | look hl => cases hl <;> cases hst
  | _ => cases hst

theorem Founding.turn (h : s.Founding n record) (hS : s.Sound) (hs : s.stage? id = some stage)
    (ht : Turn s id stage r s₁ next out) :
    (s₁.place id next).Founding n record ∨ id = n ∧ out.outcome.isSome = true := by
  by_cases hid : id = n
  · subst hid
    obtain ⟨st, hst, hfounds⟩ := h.stage
    cases hs.symm.trans hst
    refine (ht.of_founds hfounds fun k hk => h.undoing (hk ▸ hs)).symm.imp ?_ fun ho => ⟨rfl, ho⟩
    rintro ⟨hn, hp, hc, st', rfl, hst', hu⟩
    have mine := ht.mine hS hs
    refine ⟨⟨st', mine, hst'⟩, fun {m st} hm hne => ?_, ?_, ?_, fun {k} hk => ?_⟩
    · rw [ht.table_of_same hS hs hn, Function.update_of_ne hne] at hm
      exact h.others hm hne
    · rw [place_phase, hp]
      exact h.phase
    · rw [place_client, hc]
      exact h.client
    · rw [place_phase, place_listener]
      exact hu k (Option.some.inj (mine.symm.trans hk))
  · obtain ⟨hn, hp, hc, hl, hnext⟩ := ht.of_no_party (h.others hs hid) h.client
    have hstages := ht.table_of_same hS hs hn
    have hsame : (s₁.place id next).stage? n = s.stage? n := by
      rw [hstages, Function.update_of_ne (Ne.symm hid)]
    refine .inl ⟨?_, fun {m st} hm hne => ?_, ?_, ?_, fun {k} hk => ?_⟩
    · rw [hsame]
      exact h.stage
    · rw [hstages] at hm
      by_cases hmid : m = id
      · subst hmid
        rw [Function.update_self] at hm
        exact hnext st hm
      · rw [Function.update_of_ne hmid] at hm
        exact h.others hm hne
    · rw [place_phase, hp]
      exact h.phase
    · rw [place_client, hc]
    · rw [place_phase, place_listener, hp, hl]
      exact h.undoing (hsame.symm.trans hk)

theorem Founding.aside (h : s.Founding n record) (hS : s.Sound) (hd : Does s a s' e)
    (ha : ∀ n r, a ≠ .step (.task n) r) : s'.Founding n record := by
  obtain ⟨st, hs, hst⟩ := h.stage
  obtain ⟨-, -, hnew⟩ := hd.news hS ha
  have keep := (hd.quiet hS ha).2.2.2
  have undoes : ∀ {k}, s'.stage? n = some (.undoing k) → s.phase = .closed ∧ s.listener = none := by
    intro k hk
    cases (keep _ _ hs).symm.trans hk
    exact h.undoing hs
  have idle : s.phase ≠ .idle := by rcases h.phase with hp | hp <;> simp [hp]
  have others : ∀ {m st}, s'.stage? m = some st → m ≠ n → st.party? = none := by
    intro m st hm hne
    rcases hnew m st hm with hm | ⟨-, hb, hl⟩
    · exact h.others hm hne
    · cases st <;> first | rfl | exact absurd (hl rfl).1 idle | cases hb
  cases hd with
  | listen _ hi => exact absurd hi idle
  | read hc => cases h.client.symm.trans hc
  | disconnect hc => cases h.client.symm.trans hc
  | write | aside | send =>
      exact ⟨⟨st, keep _ _ hs, hst⟩, others, h.phase, h.client, undoes⟩
  | @close _ background _ _ hp =>
      have hshut : (s.close background).phase = .closed ∧ (s.close background).client = none ∧
          (s.close background).listener = none := by
        rw [close_eq hp]
        cases background <;> exact ⟨rfl, rfl, rfl⟩
      exact ⟨⟨st, keep _ _ hs, hst⟩, others, .inr hshut.1, hshut.2.1,
        fun _ => ⟨hshut.1, hshut.2.2⟩⟩
  | turn => exact absurd rfl (ha _ _)

/-- A listen job that was started is under way until it reports. -/
theorem founding_of_run (h : (machine t).Run (ms ++ k :: ns) s) (hk : Starts k n o) :
    k.before.phase = .idle ∧ ∃ record, o.record = .ok record ∧
      (s.Founding n record ∨ Resolved ns (.task n)) := by
  obtain ⟨hr, -, hp, -⟩ := h.moment
  obtain ⟨hi, record, hrec, hf⟩ := founding_of_starts hr hp hk.1 hk.2
  refine ⟨hi, record, hrec, ?_⟩
  have hrun : (machine t).Run ((ms ++ [k]) ++ ns) s := by simpa using h
  refine hrun.since (P := fun ns s => s.Founding n record ∨ Resolved ns (.task n)) ?_ ?_
  · intro s₀ h₀
    obtain ⟨-, -, -, rfl⟩ := h₀.unsnoc
    exact .inl hf
  · rintro ns s a s' e hr - hp (hf | hres)
    · have hS := sound_of_run hr
      have hd := does_of_perform hp
      rcases hd.turn_or_aside with ⟨i, r, st, s₁, next, out, rfl, rfl, rfl, hs, ht⟩ | hne
      · refine (hf.turn hS hs ht).imp_right ?_
        rintro ⟨rfl, ho⟩
        exact resolved_append.mpr (.inr (resolved_singleton.mpr ⟨r, rfl, ho⟩))
      · exact .inl (hf.aside hS hd hne)
    · exact .inr (resolved_append.mpr (.inl hres))

/-- At rest no listen job is under way. -/
theorem Rests.not_founding (hr : s.Rests OfRead) (hS : s.Sound) : ¬ s.Founding n record := by
  intro h
  obtain ⟨st, hs, hst⟩ := h.stage
  have hlock := (hr.mono fun _ => passive_of_read).lock_free hS hs
  have call : ∀ {c}, s.askStage n st = .call c → OfRead c := fun hc =>
    hr.call (w := .task n) ((ask_task hs).trans hc)
  cases hst with
  | binding | registering => exact call rfl
  | noting => cases hlock
  | @undoing k => cases k <;> cases hlock

/-! ## The end of a listen job -/

theorem record_refused {error : Error} (h : o.record = .error error) :
    error = .invalidUuid o.uuid ∨ error = .invalidChannel o.channel := by
  simp only [Options.record, Uuid.parse, checkChannel, bind, Except.bind] at h
  split at h
  · rename_i hu
    split at hu <;> cases hu
    cases h
    exact .inl rfl
  · split at h
    · rename_i hc
      split at hc <;> cases hc
      cases h
      exact .inr rfl
    · cases h

/-- What a call to listen is refused with. -/
theorem listen_refused {error : Error} (h : s.listen o = .error error) :
    error = .invalidUuid o.uuid ∨ error = .invalidChannel o.channel ∨
      s.phase ≠ .idle ∧ error = .invalidState s.phase.name := by
  cases hrec : o.record with
  | error f =>
      simp only [listen, hrec, bind, Except.bind] at h
      cases h
      exact (record_refused hrec).imp_right .inl
  | ok record =>
      simp only [listen, hrec, bind, Except.bind] at h
      split at h <;> cases h
      exact .inr (.inr ⟨‹_›, rfl⟩)

theorem noted_of_large (s : Server) (n : Nat) (h : Feed.maxCapacity < s.tuning.eventCapacity) :
    (s.noted n).2.outcome = some (.failed .workerGone) := by rw [noted, if_pos h]

/-- A task that is to note its registration dies if the feed is to keep too many events. -/
theorem outcome_of_noting {session : SessionId} (hs : s.stage? n = some (.noting record session))
    (hcap : Feed.maxCapacity < s.tuning.eventCapacity)
    (hp : s.perform (.step (.task n) r) = some (s', e)) :
    e.report.outcome = some (.failed .workerGone) := by
  obtain ⟨⟨s₁, out⟩, hr, he⟩ := Option.map_eq_some_iff.mp hp
  obtain ⟨task, htask, hr⟩ := Option.bind_eq_some_iff.mp hr
  obtain ⟨task', htask', hst⟩ := Option.map_eq_some_iff.mp hs
  cases htask.symm.trans htask'
  rw [hst] at hr
  cases he
  simp only [resumeStage] at hr
  split at hr
  · split at hr
    · change out.outcome = _
      rw [← (Prod.mk.inj (Option.some.inj hr)).2]
      exact noted_of_large _ n hcap
    · cases hr
  · cases hr

theorem Turn.of_dying {session : SessionId} (h : Turn s n (.noting record session) r s₁ next out)
    (ho : out.outcome = some (.failed .workerGone)) : s₁.phase = s.phase ∧
      s₁.listener = s.listener ∧ s₁.advertisement = some ⟨record, some session⟩ := by
  cases h with
  | die => exact ⟨rfl, rfl, rfl⟩
  | late | note => cases ho
  | look hl => cases hl

/-- Whoever is done with taking the advertisement back had it to itself, and leaves no registration. -/
theorem Withdraws.of_done {w : Withdrawing} (h : Withdraws s n w r s₁ none) (hS : s.Sound)
    (hC : s.Custody) (hs : s.stage? n = some stage) (hst : stage.withdrawing? = some w) :
    s.lock.isHeldBy (.task n) = true ∧
      ∀ record session, s₁.advertisement ≠ some ⟨record, some session⟩ := by
  cases h with
  | skip hl hn => exact ⟨hl, fun record session ha => by cases hn _ ha⟩
  | withdrawn =>
      obtain ⟨record', ha⟩ := hC.calling hs hst
      refine ⟨hS.holds_lock hs (of_calling hst).1, fun record session ha' => ?_⟩
      cases ha.symm.trans ha'

theorem resetListening_phase (s : Server) :
    s.resetListening.phase = .idle ∨ s.resetListening.phase = .closed ∧ s.phase = .closed := by
  unfold resetListening
  split
  · exact .inr ⟨‹_›, ‹_›⟩
  · exact .inl rfl

theorem resetListening_rest (s : Server) : s.resetListening.listener = s.listener ∧
    s.resetListening.nextTask = s.nextTask := by
  unfold resetListening
  split <;> exact ⟨rfl, rfl⟩

/-- A server is closed by its owner only. -/
theorem Does.closes (h : Does s a s' e) (hp : s.phase ≠ .closed) (hc : s'.phase = .closed) :
    ∃ background, a = .close background ∨ a = .drop background := by
  cases h with
  | close hact => exact ⟨_, hact⟩
  | listen => cases hc
  | turn _ ht =>
      rw [place_phase] at hc
      exact absurd (ht.phase.mp hc) hp
  | read | write | disconnect | aside | send => exact absurd hc hp

theorem deals_of_no_party (hp : st.party? = none) (hd : st.deals = true) : st.atLock = .holding := by
  cases st with
  | retiring w => cases w <;> first | rfl | cases hd
  | reading | dismissing | leaving | closing => cases hd
  | _ => cases hp

end Server

namespace Site

/-- What the job of a task reports at a moment. -/
def report? (m : Moment) (n : Nat) : Option Outcome :=
  match m.effect.server with
  | some (.step (.task i) _, e) => if i = n then e.report.outcome else none
  | _ => none

/-- Nothing of the server is bound or registered. -/
structure Vacant (s : Site) (ms : List Moment) : Prop where
  listener : s.server.listener = none
  listeners : s.server.listeners = []
  listed : s.listed ms = []

/-- Callers are waited for on the channel that a job bound, with its record registered. -/
structure Founded (s : Site) (ms : List Moment) (n : Nat) (record : Record) : Prop where
  phase : s.server.phase = .advertising
  feed : s.server.feed = .start s.server.tuning.eventCapacity
  accepts : ∃ i, s.server.stage? i = some .watching
  listener : ∃ l, Server.Binds (serverMoments ms) n record l ∧ s.server.listener = some l ∧
    l ∈ s.server.listeners
  listed : ∃ session, s.listed ms = [(session, record)]

/-- What a listen job fails with. -/
inductive Fails (record : Record) : Error → Prop
  | listen {f} : Fails record (.listen record.channel f)
  | advertise {reason} : Fails record (.advertise reason)
  | connectionClosed : Fails record .connectionClosed

/-- A listen job ends with all that it is for, or with nothing. Then the server is idle as before, or it
was closed meanwhile. -/
inductive Settles (s : Site) (ms as : List Moment) (n : Nat) (record : Record) : Outcome → Prop
  | listening : s.Founded ms n record → Settles s ms as n record .listening
  | failed {error} : Fails record error → s.Vacant ms →
      (s.server.phase = .idle ∨ s.server.phase = .closed ∧ ∃ m ∈ as, ∃ b, EndsAt m b) →
      Settles s ms as n record (.failed error)

/-- The registration is there, and a feed is asked for that keeps more events than can be kept. -/
def Dies (t : Config.Tuning) (m : Moment) (n : Nat) (record : Record) : Prop :=
  Server.Feed.maxCapacity < t.eventCapacity ∧
    ∃ session, m.before.server.stage? n = some (.noting record session)

variable {s : Site} {ms ns as bs : List Moment} {k m : Moment} {t : Config.Tuning} {n : Nat}
  {record : Record} {o : Server.Options} {out : Outcome}

theorem serverMoments_cons {a : Server.Act} {e : Server.Effect} (h : m.effect.server = some (a, e)) :
    serverMoments (m :: ns) = ⟨m.before.server, a, m.after.server, e⟩ :: serverMoments ns := by
  simp [serverMoments, h]

theorem report?_eq_some : report? m n = some out ↔
    ∃ r e, m.effect.server = some (.step (.task n) r, e) ∧ e.report.outcome = some out := by
  unfold report?
  constructor
  · intro h
    split at h
    · split at h
      · rename_i hm hi
        subst hi
        exact ⟨_, _, hm, h⟩
      · cases h
    · cases h
  · rintro ⟨r, e, hm, ho⟩
    rw [hm]
    exact (if_pos rfl).trans ho

theorem exists_report (h : Server.Resolved (serverMoments ns) (.task n)) :
    ∃ m ∈ ns, ∃ out, report? m n = some out := by
  obtain ⟨q, hq, r, hact, ho⟩ := h
  obtain ⟨m, hm, he⟩ := List.mem_filterMap.mp hq
  obtain ⟨⟨a, e⟩, hs, rfl⟩ := Option.map_eq_some_iff.mp he
  obtain ⟨out, ho⟩ := Option.isSome_iff_exists.mp ho
  cases hact
  exact ⟨m, hm, out, report?_eq_some.mpr ⟨r, e, hs, ho⟩⟩

/-- At an idle server there is nothing yet. -/
theorem vacant_of_idle (h : (machine t).Run ms s) (hi : s.server.phase = .idle) : s.Vacant ms := by
  obtain ⟨hrun, -⟩ := ledger_of_run h
  have hS := Server.sound_of_run hrun
  have hC := Server.custody_of_run hrun
  have hl := Server.no_listener_of_idle hrun hi
  refine ⟨hl, Server.listeners_eq_nil hS hl fun hs => Server.no_party_of_idle hrun hi hs,
    listed_eq_nil h fun session record p hp => ?_⟩
  have hnone := hC.idle hi
  cases p with
  | none =>
      obtain ⟨ha⟩ := hp
      cases hnone.symm.trans ha
  | some i =>
      obtain ⟨st, hs, hst⟩ := hp.deals
      rcases Server.of_deals hst with hst | ⟨-, ⟨_, hk⟩ | ⟨_, hk⟩⟩
      · exact (hC.fresh hs hst).2 hi
      · obtain ⟨_, ha⟩ := hC.calling hs hk
        cases hnone.symm.trans ha
      · cases hnone.symm.trans (hC.registering hs hk)

/-- A listen job that fails leaves nothing if no other task deals with the registration. -/
theorem vacant_of_failed {s' : Site} {stage : Server.Stage} {r : Reply} {s₁ : Server}
    {report : Server.Report} (h : (machine t).Run ms s') (hs' : s'.server = s₁.place n none)
    (hS : s.server.Sound) (hf : s.server.Founding n record) (hs : s.server.stage? n = some stage)
    (ht : Server.Turn s.server n stage r s₁ none report) (hn : s₁.nextTask = s.server.nextTask)
    (hl : s₁.listener = none) (ha : ∀ record session, s₁.advertisement ≠ some ⟨record, some session⟩)
    (hd : ∀ {i st}, s.server.stage? i = some st → st.deals = true → i = n) : s'.Vacant ms := by
  have hstages : s'.server.stage? = Function.update s.server.stage? n none := by
    rw [hs', ht.table_of_same hS hs hn]
  have old : ∀ {i st}, s'.server.stage? i = some st → i ≠ n ∧ s.server.stage? i = some st := by
    intro i st hi
    rw [hstages] at hi
    by_cases hin : i = n
    · subst hin
      rw [Function.update_self] at hi
      cases hi
    · exact ⟨hin, by rwa [Function.update_of_ne hin] at hi⟩
  have hl' : s'.server.listener = none := by rw [hs', Server.place_listener, hl]
  refine ⟨hl', Server.listeners_eq_nil (Server.sound_of_run (ledger_of_run h).1) hl' ?_, ?_⟩
  · intro i st hi
    exact hf.others (old hi).2 (old hi).1
  · refine listed_eq_nil h fun session record p hp => ?_
    cases p with
    | none =>
        obtain ⟨hadv⟩ := hp
        rw [hs', Server.place_advertisement] at hadv
        exact ha _ _ hadv
    | some i =>
        obtain ⟨st, hi, hst⟩ := hp.deals
        exact (old hi).1 (hd (old hi).2 hst)

theorem turn_of_report (h : (machine t).Run (ms ++ [m]) s) (hrep : report? m n = some out) :
    ∃ stage r s₁ next report, (Server.machine t).Run (serverMoments ms) m.before.server ∧
      m.before.server.stage? n = some stage ∧ Server.Turn m.before.server n stage r s₁ next report ∧
      s.server = s₁.place n next ∧ report.outcome = some out ∧
      (Server.Feed.maxCapacity < t.eventCapacity → ∀ record session,
        stage = .noting record session → out = .failed .workerGone) := by
  obtain ⟨r, e, he, ho⟩ := report?_eq_some.mp hrep
  obtain ⟨-, -, -, rfl⟩ := h.unsnoc
  have hrun := (ledger_of_run h).1
  rw [serverMoments_append, serverMoments_cons he] at hrun
  obtain ⟨hr, -, hp, -⟩ := hrun.moment
  have hp : m.before.server.perform (.step (.task n) r) = some (m.after.server, e) := hp
  obtain ⟨stage, s₁, next, report, hs, ht, hs', rfl⟩ := Server.turn_of_perform hp
  refine ⟨stage, r, s₁, next, report, hr, hs, ht, hs', ho, ?_⟩
  rintro hcap record session rfl
  have := Server.outcome_of_noting hs ((Server.tuning_of_run hr).symm ▸ hcap) hp
  exact Option.some.inj (ho.symm.trans this)

theorem settles_of_report (h : (machine t).Run (ms ++ [m]) s)
    (hf : m.before.server.Founding n record) (hrep : report? m n = some out) (hd : ¬ Dies t m n record)
    (hclosed : m.before.server.phase = .closed → ∃ q ∈ as, ∃ b, EndsAt q b) :
    Settles s (ms ++ [m]) as n record out := by
  obtain ⟨stage, r, s₁, next, report, hr, hs, ht, hs', ho, hdie⟩ := turn_of_report h hrep
  obtain ⟨st, hst, hfounds⟩ := hf.stage
  cases hs.symm.trans hst
  have hS := Server.sound_of_run hr
  have hC := Server.custody_of_run hr
  -- A job that fails before its registration is noted is the only one that deals with one.
  have unbound : ∀ {error}, stage.listens = true →
      (∀ record session, stage ≠ .noting record session) → Fails record error →
      s₁ = m.before.server.resetListening → next = none →
      Settles s (ms ++ [m]) as n record (.failed error) := by
    rintro error hl hn hfails rfl rfl
    obtain ⟨hlis, htask⟩ := Server.resetListening_rest m.before.server
    refine .failed hfails ?_ ?_
    · refine vacant_of_failed h hs' hS hf hs ht htask (hlis.trans (Server.no_listener hr hs hl hn)) ?_ ?_
      · rw [(Server.resetListening_frame _).2, (hC.fresh hs hl).1]
        exact nofun
      · intro i st hi hdeals
        exact hC.sole hS hi hs hdeals (by simp [Server.Stage.deals, hl])
    · rw [hs', Server.place_phase]
      exact (Server.resetListening_phase _).imp_right fun ⟨h₁, h₂⟩ => ⟨h₁, hclosed h₂⟩
  have hbegins := ht.begun hS hs
  cases ht with
  | notBound => cases hfounds; cases ho; exact unbound rfl nofun .listen rfl rfl
  | notRegistered => cases ho; exact unbound rfl nofun .advertise rfl rfl
  | die hl hcap => cases hfounds; exact absurd ⟨Server.tuning_of_run hr ▸ hcap, _, hs⟩ hd
  | late => cases ho
  | @note _ session _ hp =>
      cases hfounds
      cases ho
      have hrun := (ledger_of_run h).1
      obtain ⟨l, hb, hlis⟩ := (Server.sourced_of_run hr).noting hs
      have hphase : s.server.phase = .advertising := by rw [hs']; rfl
      have hl : s.server.listener = some l := by rw [hs']; exact hlis hp
      refine .listening ⟨hphase, by rw [hs']; rfl, ⟨m.before.server.nextTask, ?_⟩,
        ⟨l, ?_, hl, ?_⟩, ⟨session, ?_⟩⟩
      · rw [hs']
        exact hbegins rfl
      · rw [serverMoments_append]
        exact hb.append _
      · exact Server.listener_mem hrun hphase hl
      · exact listed_eq h (.advertisement (by rw [hs']; rfl))
  | @undone w _ _ hw =>
      cases ho
      obtain ⟨hc, hlis⟩ := hf.undoing hs
      obtain ⟨hl, ha⟩ := hw.of_done hS hC hs rfl
      refine .failed .connectionClosed ?_ (.inr ⟨?_, hclosed hc⟩)
      · refine vacant_of_failed h hs' hS hf hs (.undone hw) ?_ ?_ ha fun {i st} hi hdeals => ?_
        · obtain ⟨_, _, rfl⟩ := hw.frame
          rfl
        · rw [hw.source.1, hlis]
        · by_contra hne
          exact hne (hS.holder hi (Server.deals_of_no_party (hf.others hi hne) hdeals) hl)
      · rw [hs', Server.place_phase]
        exact (Server.Turn.undone hw).phase.mpr hc
  | look hl => cases hl <;> cases hfounds
  | bind | register | undo => cases ho
  | _ => cases hfounds

/-- A listen job that dies leaves its channel bound and its record registered. -/
theorem left_of_dying (h : (machine t).Run (ms ++ [m]) s) (hf : m.before.server.Founding n record)
    (hrep : report? m n = some out) (hd : Dies t m n record) :
    out = .failed .workerGone ∧ (∃ session, s.listed (ms ++ [m]) = [(session, record)]) ∧
      (s.server.phase = .closed ∨ s.server.phase = .listening ∧
        ∃ l, Server.Binds (serverMoments ms) n record l ∧ s.server.listener = some l) := by
  obtain ⟨stage, r, s₁, next, report, hr, hs, ht, hs', ho, hdie⟩ := turn_of_report h hrep
  obtain ⟨hcap, session, hst⟩ := hd
  cases hs.symm.trans hst
  obtain rfl := hdie hcap _ _ rfl
  obtain ⟨hp, hl, ha⟩ := ht.of_dying ho
  refine ⟨rfl, ⟨session, listed_eq h (.advertisement ?_)⟩, ?_⟩
  · rw [hs', Server.place_advertisement, ha]
  · rw [hs', Server.place_phase, Server.place_listener, hp, hl]
    refine hf.phase.symm.imp_right fun hopen => ⟨hopen, ?_⟩
    obtain ⟨l, hb, hlis⟩ := (Server.sourced_of_run hr).noting hs
    exact ⟨l, hb, hlis (by simp [hopen])⟩

/-- A call to listen is refused and changes nothing, or starts a job. -/
theorem listen_of_perform {s' : Site} {e : Effect}
    (h : s.perform (.server (.listen o)) = some (s', e)) :
    (∃ error, e = { server := some (.listen o, { refused := some error }) } ∧ s' = s ∧
      s.server.listen o = .error error) ∨
    ∃ n, e = { server := some (.listen o, { started := some (.task n) }) } := by
  have h : some (({ s with server := (s.server.begun (s.server.listen o)).1 } : Site),
      ({ server := some (.listen o, (s.server.begun (s.server.listen o)).2) } : Effect)) =
      some (s', e) := h
  obtain ⟨rfl, rfl⟩ := Prod.mk.inj (Option.some.inj h)
  cases hl : s.server.listen o with
  | error error => exact .inl ⟨error, rfl, rfl, rfl⟩
  | ok started =>
      simp only [Server.listen, bind, Except.bind] at hl
      split at hl
      · cases hl
      · split at hl <;> cases hl
        exact .inr ⟨_, rfl⟩

/-- Whatever closed the server happened in between. -/
theorem ends_of_closed (h : (machine t).Run (ms ++ k :: ns) s)
    (hopen : k.before.server.phase ≠ .closed) (hc : s.server.phase = .closed) :
    ∃ q ∈ k :: ns, ∃ b, EndsAt q b := by
  refine (h.unless (P := fun s => s.server.phase ≠ .closed) (R := fun q => ∃ b, EndsAt q b) hopen
    fun {_ s a s' e} _ hp hopen => ?_).resolve_left fun hn => hn hc
  by_cases hc : s'.server.phase = .closed
  · right
    cases does_of_perform hp with
    | server _ hserver =>
        obtain ⟨b, hb⟩ := (Server.does_of_perform hserver).closes hopen hc
        exact ⟨b, hopen, by simpa using hb⟩
    | answer _ hserver =>
        obtain ⟨b, hb⟩ := (Server.does_of_perform hserver).closes hopen hc
        rcases hb with hb | hb <;> cases hb
    | _ => exact absurd hc hopen
  · exact .inl hc

/-- A call to listen at an idle server brings all that it is for or leaves nothing, whatever fails and
whenever the server is closed, unless the feed is to keep more events than can be kept. In that case the
job dies as soon as its registration is there, and leaves the channel bound and the record registered.
Any other call is refused and changes nothing. -/
theorem listen_settles_iff (h : (machine t).Run (ms ++ k :: ns) s)
    (hk : k.act = .server (.listen o)) :
    (∃ error, k.effect.server = some (.listen o, { refused := some error }) ∧ k.after = k.before ∧
      (error = .invalidUuid o.uuid ∨ error = .invalidChannel o.channel ∨
        k.before.server.phase ≠ .idle ∧ error = .invalidState k.before.server.phase.name)) ∨
    ∃ n record, k.effect.server = some (.listen o, { started := some (.task n) }) ∧
      o.record = .ok record ∧ k.before.server.phase = .idle ∧ k.before.Vacant ms ∧
      (s.server.Rests Server.OfRead → ∃ m ∈ ns, ∃ out, report? m n = some out) ∧
      ∀ as m bs out, ns = as ++ m :: bs → report? m n = some out →
        (m.after.Settles (ms ++ k :: as ++ [m]) as n record out ↔ ¬ Dies t m n record) ∧
        (Dies t m n record → out = .failed .workerGone ∧
          (∃ session, m.after.listed (ms ++ k :: as ++ [m]) = [(session, record)]) ∧
          (m.after.server.phase = .closed ∨ m.after.server.phase = .listening ∧
            ∃ l, Server.Binds (serverMoments (ms ++ k :: as)) n record l ∧
              m.after.server.listener = some l)) := by
  have started : ∀ {n}, k.effect.server = some (.listen o, { started := some (.task n) }) →
      ∀ {as s}, (machine t).Run (ms ++ k :: as) s → k.before.server.phase = .idle ∧
        ∃ record, o.record = .ok record ∧
          (s.server.Founding n record ∨ Server.Resolved (serverMoments as) (.task n)) := by
    intro n he as s h
    have hrun := (ledger_of_run h).1
    rw [serverMoments_append, serverMoments_cons he] at hrun
    exact Server.founding_of_run hrun ⟨rfl, rfl⟩
  obtain ⟨hr, -, hp, -⟩ := h.moment
  have hp : k.before.perform (.server (.listen o)) = some (k.after, k.effect) := hk ▸ hp
  rcases listen_of_perform hp with ⟨error, he, hsame, herr⟩ | ⟨n, he⟩
  · exact .inl ⟨error, by rw [he], hsame, Server.listen_refused herr⟩
  have he : k.effect.server = some (.listen o, { started := some (.task n) }) := by rw [he]
  obtain ⟨hi, record, hrec, hend⟩ := started he h
  refine .inr ⟨n, record, he, hrec, hi, vacant_of_idle hr hi, fun hrest => ?_, ?_⟩
  · exact exists_report (hend.resolve_left
      (hrest.not_founding (Server.sound_of_run (ledger_of_run h).1)))
  · rintro as m bs out rfl hrep
    have h' : (machine t).Run ((ms ++ k :: as) ++ m :: bs) s := by simpa using h
    obtain ⟨hr', -, -, hm⟩ := h'.moment
    -- The job did not report before, since its task is still there.
    obtain ⟨-, record', hrec', hf⟩ := started he hr'
    cases hrec.symm.trans hrec'
    obtain ⟨stage, _, _, _, _, hsr, hs, -⟩ := turn_of_report hm hrep
    have hf := hf.resolve_right fun hres => by
      have hacc := (Server.accounts_of_run hsr).done (n := n) ?_
      · cases hacc.1.symm.trans hs
      · rw [serverMoments_append, serverMoments_cons he, ← List.singleton_append, ← List.append_assoc]
        exact Server.resolved_append.mpr (.inr hres)
    have hclosed : m.before.server.phase = .closed → ∃ q ∈ as, ∃ b, EndsAt q b := by
      intro hc
      obtain ⟨q, hq, b, hb⟩ := ends_of_closed hr' (by simp [hi]) hc
      rcases List.mem_cons.mp hq with rfl | hq
      · rcases hb.2 with hact | hact <;> cases hk.symm.trans hact
      · exact ⟨q, hq, b, hb⟩
    refine ⟨⟨fun hset hd => ?_, fun hd => settles_of_report hm hf hrep hd hclosed⟩,
      left_of_dying hm hf hrep⟩
    obtain ⟨rfl, -⟩ := left_of_dying hm hf hrep hd
    cases hset with
    | failed hfails => cases hfails

/-- A server is closed while its record is being registered. -/
theorem listen_settles_after_closing : ∃ k as m bs s record,
    (machine {}).Run (k :: (as ++ m :: bs)) s ∧ k.act = .server (.listen ⟨"1101", 3, ""⟩) ∧
    report? m 0 = some (.failed .connectionClosed) ∧
    m.after.Settles (k :: as ++ [m]) as 0 record (.failed .connectionClosed) := by
  obtain ⟨l, s, hp, hs⟩ := (machine {}).exists_of_play
    ([] ++ .server (.listen ⟨"1101", 3, ""⟩) :: [.server (.step (.task 0) (.bound (.ok 0))),
      .server (.close true), .carryOut 0, .answer 0, .server (.step (.task 0) .go),
      .server (.step (.task 0) .go), .carryOut 0, .answer 0])
    (fun l _ => (l.head?.bind (·.effect.server)).bind (·.2.started) = some (.task 0) ∧
      l.tail.filterMap (report? · 0) = [.failed .connectionClosed]) (by decide +kernel)
  obtain ⟨hfirst, hreports⟩ := of_decide_eq_true hs
  obtain ⟨ms, k, ns, rfl, hact, hbegin⟩ := Machine.moment_of_play hp
  obtain rfl : [] = ms := (Prod.mk.inj (Option.some.inj hbegin)).1
  have hrun := Machine.run_of_play hp
  rcases listen_settles_iff hrun hact with ⟨error, he, -⟩ | ⟨n, record, he, -, -, -, -, hend⟩
  · simp [he] at hfirst
  · obtain rfl : n = 0 := by simpa [he] using hfirst
    obtain ⟨m, hm, hrep⟩ : ∃ m ∈ ns, report? m 0 = some (.failed .connectionClosed) :=
      List.mem_filterMap.mp (hreports ▸ List.mem_singleton_self _)
    obtain ⟨as, bs, rfl⟩ := List.append_of_mem hm
    have hlives : ¬ Dies {} m 0 record := fun hd => absurd hd.1 (by decide)
    exact ⟨k, as, m, bs, s, record, hrun, hact, hrep, (hend as m bs _ rfl hrep).1.mpr hlives⟩

/-- The feed is to keep `2 ^ 64 - 1` events. The channel is bound, the record is registered, nobody closes
the server, and the job dies. -/
theorem listen_dies_of_large_feed : ∃ k ns s,
    (machine { eventBuffer := 18446744073709551615 }).Run (k :: ns) s ∧
    k.act = .server (.listen ⟨"1101", 3, ""⟩) ∧ k.before.server.phase = .idle ∧
    (∃ m ∈ ns, report? m 0 = some (.failed .workerGone)) ∧
    (∀ m ∈ ns, ∀ b, ¬ EndsAt m b) ∧ s.server.phase = .listening ∧ s.server.listeners = [0] ∧
    (s.listed (k :: ns)).map (·.1) = [0] ∧
    ∀ ms as n record, ¬ s.Settles ms as n record (.failed .workerGone) := by
  obtain ⟨l, s, hp, hs⟩ := (machine { eventBuffer := 18446744073709551615 }).exists_of_play
    ([] ++ .server (.listen ⟨"1101", 3, ""⟩) :: [.server (.step (.task 0) (.bound (.ok 0))),
      .carryOut 0, .answer 0, .server (.step (.task 0) .go)])
    (fun l s => l.tail.filterMap (report? · 0) = [.failed .workerGone] ∧
      (∀ m ∈ l.tail, ¬ (m.act matches .server (.close _) | .server (.drop _))) ∧
      s.server.phase = .listening ∧ s.server.listeners = [0] ∧ (s.listed l).map (·.1) = [0])
    (by decide +kernel)
  obtain ⟨hreports, hkept, hphase, hlisteners, hlisted⟩ := of_decide_eq_true hs
  obtain ⟨ms, k, ns, rfl, hact, hbegin⟩ := Machine.moment_of_play hp
  obtain ⟨rfl, hk⟩ := Prod.mk.inj (Option.some.inj hbegin)
  refine ⟨k, ns, s, Machine.run_of_play hp, hact, by rw [← hk]; rfl, ?_, ?_, hphase, hlisteners,
    hlisted, ?_⟩
  · exact List.mem_filterMap.mp (hreports ▸ List.mem_singleton_self _)
  · rintro m hm b ⟨-, hclose | hclose⟩ <;> exact hkept m hm (by rw [hclose])
  · rintro ms as n record (_ | ⟨⟨⟩, -⟩)

end Site

end Rfcomm
