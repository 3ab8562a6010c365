import Rfcomm.Proofs.Server.Ledger
/-!
What a server is advertised with. While it waits for callers its record is registered, and it is the
record of the only listen job that succeeded; while a client is attached no record is.
-/
namespace Rfcomm

namespace Server

/-- The listen job that succeeded at a moment. -/
def listens? (m : Moment) : Option Nat :=
  match m.act, m.effect.report.outcome with
  | .step (.task n) _, some .listening => some n
  | _, _ => none

/-- The listen jobs that succeeded. -/
def listened (ms : List Moment) : List Nat := ms.filterMap listens?

/-- A task was started to listen with options that make a record. -/
def Seeks (ms : List Moment) (n : Nat) (record : Record) : Prop :=
  ∃ m ∈ ms, ∃ o, m.act = .listen o ∧ o.record = .ok record ∧ m.effect.started = some (.task n)

/-- Such a task bound the channel of the record. -/
def Binds (ms : List Moment) (n : Nat) (record : Record) (l : ListenerId) : Prop :=
  Seeks ms n record ∧ ∃ m ∈ ms, m.before.ask (.task n) = .call (.bind record.channel) ∧
    m.act = .step (.task n) (.bound (.ok l))

/-- Whether a task at a stage has a caller and has taken the advertisement back. -/
def Stage.welcomes : Stage → Bool
  | .welcoming _ _ (.calling _) | .attaching _ _ => true
  | _ => false

/-- The record is registered, or a task has a caller and has taken it back. -/
def Armed (s : Server) : Prop :=
  (∃ record session, s.advertisement = some ⟨record, some session⟩) ∨
    ∃ n st, s.stage? n = some st ∧ st.welcomes = true

variable {s s' s₁ : Server} {id n m : Nat} {stage st st' : Stage} {next : Option Stage} {r : Reply}
  {out : Report} {a : Act} {e : Effect} {ms ns : List Moment} {t : Config.Tuning} {record : Record}
  {session : SessionId} {l : ListenerId} {o : Option Stage}

/-! ## Where the record comes from -/

theorem Seeks.append (h : Seeks ms n record) (ns : List Moment) : Seeks (ms ++ ns) n record := by
  obtain ⟨m, hm, h⟩ := h
  exact ⟨m, List.mem_append_left _ hm, h⟩

theorem Binds.append (h : Binds ms n record l) (ns : List Moment) : Binds (ms ++ ns) n record l := by
  obtain ⟨hs, m, hm, h⟩ := h
  exact ⟨hs.append ns, m, List.mem_append_left _ hm, h⟩

/-- What is known of the record and the listener at each time. -/
structure Sourced (s : Server) (ms : List Moment) : Prop where
  binding : ∀ {n record}, s.stage? n = some (.binding record) → Seeks ms n record
  registering : ∀ {n record l}, s.stage? n = some (.registering record l) → Binds ms n record l
  noting : ∀ {n record session}, s.stage? n = some (.noting record session) →
    ∃ l, Binds ms n record l ∧ (s.phase ≠ .closed → s.listener = some l)
  /-- No listen job succeeded before there is an advertisement. -/
  fresh : s.advertisement = none → listened ms = []
  sending : s.feed.sending = true → ∃ n record l session, listened ms = [n] ∧ Binds ms n record l ∧
    s.advertisement = some ⟨record, session⟩ ∧ s.listener = some l

theorem emit_sending (s : Server) (v : Event) : (s.emit v).1.feed.sending = s.feed.sending :=
  congrArg View.sending (emit_view s v)

theorem rearmed_frame (s : Server) (phase : Phase) : (s.rearmed phase).listener = s.listener ∧
    (s.rearmed phase).feed = s.feed := by
  rcases rearmed_cases s phase with ⟨-, h⟩ | ⟨-, h⟩ <;> rw [h]
  · exact ⟨rfl, rfl⟩
  · exact ⟨rfl, rfl⟩

theorem Releases.source {k : Releasing} {k' : Option Releasing} (h : Releases s id k r s₁ k' out) :
    s₁.listener = s.listener ∧ s₁.feed.sending = s.feed.sending ∧
      s₁.advertisement.map (·.record) = s.advertisement.map (·.record) := by
  cases h with
  | close | late | register => exact ⟨rfl, rfl, rfl⟩
  | @last address _ _ link =>
      exact ⟨by rw [emit_fst], emit_sending { s with link } _, by rw [emit_fst]⟩
  | @line address _ _ link =>
      exact ⟨by rw [emit_fst]; rfl, emit_sending { s with link } _, by rw [emit_fst]; rfl⟩
  | skip =>
      obtain ⟨h₁, h₂⟩ := rearmed_frame s.leaveAdvertisement .advertising
      exact ⟨h₁, by rw [h₂]; rfl, by rw [rearmed_advertisement]; rfl⟩
  | @hold _ session =>
      refine ⟨(rearmed_frame _ _).1, by rw [(rearmed_frame _ _).2]; rfl, ?_⟩
      rw [rearmed_advertisement]
      change (s.advertisement.map (·.hold session)).map (·.record) = _
      rw [Option.map_map]
      rfl
  | fail =>
      refine ⟨(rearmed_frame _ _).1.trans (by rw [emit_fst]; rfl), ?_, ?_⟩
      · rw [(rearmed_frame _ _).2, emit_sending]
        rfl
      · rw [rearmed_advertisement, emit_fst]
        rfl

theorem Withdraws.source {k : Withdrawing} {k' : Option Withdrawing} (h : Withdraws s id k r s₁ k') :
    s₁.listener = s.listener ∧ s₁.feed.sending = s.feed.sending ∧
      s₁.advertisement.map (·.record) = s.advertisement.map (·.record) := by
  cases h with
  | take _ ha => exact ⟨rfl, rfl, by rw [ha]; rfl⟩
  | skip | withdrawn => exact ⟨rfl, rfl, rfl⟩

theorem outcome_ne_listening (e : Link.Seen) : outcome e ≠ .listening := by
  cases e with
  | failed f => simp only [outcome]; split <;> simp
  | _ => simp [outcome]

theorem Turn.source (h : Turn s id stage r s₁ next out) (hst : stage.listens = false) :
    (s₁.listener = s.listener ∧ s₁.feed.sending = s.feed.sending ∧
      s₁.advertisement.map (·.record) = s.advertisement.map (·.record)) ∧
      out.outcome ≠ some .listening := by
  cases h with
  | bind | notBound | register | notRegistered | die | late | note => cases hst
  | undo h | withdraw h | retire h => exact ⟨h.source, nofun⟩
  | undone h => exact ⟨h.source, by simp⟩
  | beginAttach h | retired h => exact ⟨h.source, nofun⟩
  | stumble => exact ⟨⟨by rw [emit_fst], emit_sending _ _, by rw [emit_fst]⟩, by simp [emit_outcome]⟩
  | @welcome address _ _ link =>
      refine ⟨⟨by rw [emit_fst]; rfl, ?_, by rw [emit_fst]; rfl⟩, by simp [emit_outcome]⟩
      exact emit_sending (({ s with link } : Server).welcome address) _
  | report => exact ⟨⟨rfl, rfl, rfl⟩, by simp [outcome_ne_listening]⟩
  | losing h | releasing h | released h => exact ⟨h.source, by simp [h.outcome]⟩
  | lost h => exact ⟨h.source, by simp⟩
  | _ => exact ⟨⟨rfl, rfl, rfl⟩, nofun⟩

theorem listened_append (ms : List Moment) (m : Moment) :
    listened (ms ++ [m]) = listened ms ++ (listens? m).toList := by
  cases hm : listens? m <;> simp [listened, hm]

theorem listens?_eq_none {m : Moment} (h : m.effect.report.outcome ≠ some .listening) :
    listens? m = none := by
  unfold listens?
  split
  · exact absurd ‹_› h
  · rfl

theorem resetListening_frame (s : Server) : s.resetListening.feed = s.feed ∧
    s.resetListening.advertisement = s.advertisement := by
  unfold resetListening
  split <;> exact ⟨rfl, rfl⟩

theorem Sourced.turn_of_not_listens (h : s.Sourced ms) (hS : s.Sound) (hs : s.stage? id = some stage)
    (ht : Turn s id stage r s₁ next out) (hst : stage.listens = false) :
    (s₁.place id next).Sourced
      (ms ++ [⟨s, .step (.task id) r, s₁.place id next, { report := out }⟩]) := by
  obtain ⟨⟨hl, hf, ha⟩, hout⟩ := ht.source hst
  have old : ∀ {n st}, (s₁.place id next).stage? n = some st → st.listens = true →
      s.stage? n = some st := by
    intro n st hn hl
    rcases ht.origin hS hs hn (by rintro rfl; cases hl) with ⟨rfl, hnext⟩ | ⟨-, hn⟩
    · cases hst.symm.trans (ht.passes.listens hnext hl).1
    · exact hn
  have same : listened (ms ++ [⟨s, .step (.task id) r, s₁.place id next, { report := out }⟩]) =
      listened ms := by
    rw [listened_append, listens?_eq_none (by exact hout), Option.toList_none, List.append_nil]
  refine ⟨fun hn => (h.binding (old hn rfl)).append _, fun hn => (h.registering (old hn rfl)).append _,
    fun hn => ?_, fun hnone => ?_, fun hsend => ?_⟩
  · obtain ⟨l, hb, hl'⟩ := h.noting (old hn rfl)
    refine ⟨l, hb.append _, fun hp => ?_⟩
    rw [place_listener, hl]
    exact hl' fun hc => hp (by rw [place_phase]; exact ht.phase.mpr hc)
  · rw [same]
    rw [place_advertisement] at hnone
    rw [hnone] at ha
    exact h.fresh (Option.map_eq_none_iff.mp ha.symm)
  · rw [place_feed, hf] at hsend
    obtain ⟨n, record, l, session, hn, hb, hadv, hlis⟩ := h.sending hsend
    rw [hadv] at ha
    obtain ⟨⟨_, session'⟩, hadv', rfl⟩ := Option.map_eq_some_iff.mp ha
    exact ⟨n, _, l, session', same.trans hn, hb.append _, by rw [place_advertisement, hadv'],
      by rw [place_listener, hl, hlis]⟩

/-- A turn of a task that listens. There is no other one, and nothing is advertised yet. -/
theorem Sourced.turn_of_listens (h : s.Sourced ms) (hS : s.Sound) (hC : s.Custody)
    (hs : s.stage? id = some stage) (ht : Turn s id stage r s₁ next out)
    (hst : stage.listens = true) :
    (s₁.place id next).Sourced
      (ms ++ [⟨s, .step (.task id) r, s₁.place id next, { report := out }⟩]) := by
  have hadv := (hC.fresh hs hst).1
  have hnone := h.fresh hadv
  have hsend : s.feed.sending = false := by
    by_contra hsend
    obtain ⟨_, _, _, _, -, -, ha, -⟩ := h.sending (by simpa using hsend)
    cases hadv.symm.trans ha
  have mine : ∀ {n st}, (s₁.place id next).stage? n = some st → st.listens = true →
      n = id ∧ next = some st := by
    intro n st hn hl
    refine (ht.origin hS hs hn (by rintro rfl; cases hl)).resolve_right ?_
    rintro ⟨hne, hn⟩
    exact hne (hC.unique hn hs hl hst)
  have quiet : out.outcome ≠ some .listening →
      listened (ms ++ [⟨s, .step (.task id) r, s₁.place id next, { report := out }⟩]) = [] := by
    intro hout
    rw [listened_append, listens?_eq_none (by exact hout), hnone]
    rfl
  cases ht with
  | @bind record l =>
      refine ⟨fun hn => ?_, fun hn => ?_, fun hn => ?_, fun _ => quiet nofun, fun hs => ?_⟩
      · cases (mine hn rfl).2
      · obtain ⟨rfl, ⟨⟩⟩ := mine hn rfl
        exact ⟨(h.binding hs).append _, _, List.mem_append_right _ (List.mem_singleton_self _),
          (ask_task hs).trans rfl, rfl⟩
      · cases (mine hn rfl).2
      · cases hsend.symm.trans hs
  | notBound | notRegistered =>
      refine ⟨fun hn => ?_, fun hn => ?_, fun hn => ?_, fun _ => quiet (by simp), fun hs => ?_⟩
      · cases (mine hn rfl).2
      · cases (mine hn rfl).2
      · cases (mine hn rfl).2
      · rw [place_feed, (resetListening_frame s).1] at hs
        cases hsend.symm.trans hs
  | @register record l session =>
      refine ⟨fun hn => ?_, fun hn => ?_, fun hn => ?_, fun _ => quiet nofun, fun hs => ?_⟩
      · cases (mine hn rfl).2
      · cases (mine hn rfl).2
      · obtain ⟨rfl, ⟨⟩⟩ := mine hn rfl
        exact ⟨l, (h.registering hs).append _, fun _ => rfl⟩
      · cases hsend.symm.trans hs
  | die | late =>
      refine ⟨fun hn => ?_, fun hn => ?_, fun hn => ?_, fun hn => (by cases hn), fun hs => ?_⟩
      · cases (mine hn rfl).2
      · cases (mine hn rfl).2
      · cases (mine hn rfl).2
      · cases hsend.symm.trans hs
  | note _ hp =>
      refine ⟨fun hn => ?_, fun hn => ?_, fun hn => ?_, fun hn => (by cases hn), fun _ => ?_⟩
      · cases (mine hn rfl).2
      · cases (mine hn rfl).2
      · cases (mine hn rfl).2
      · obtain ⟨l, hb, hl⟩ := h.noting hs
        refine ⟨id, _, l, _, ?_, hb.append _, rfl, hl hp⟩
        rw [listened_append, hnone]
        rfl
  | look hl => cases hl <;> cases hst
  | _ => cases hst

theorem Sourced.news (h : s.Sourced ms) (hS : s.Sound) (hd : Does s a s' e)
    (ha : ∀ n r, a ≠ .step (.task n) r) : s'.Sourced (ms ++ [⟨s, a, s', e⟩]) := by
  have same : listened (ms ++ [⟨s, a, s', e⟩]) = listened ms := by
    rw [listened_append, show listens? (⟨s, a, s', e⟩ : Moment) = none from ?_, Option.toList_none,
      List.append_nil]
    unfold listens?
    split
    · exact absurd ‹_› (ha _ _)
    · rfl
  obtain ⟨hadv, -, hnew⟩ := hd.news hS ha
  have old : ∀ {n st}, s'.stage? n = some st → st.begins = false → s.stage? n = some st := by
    intro n st hn hb
    refine (hnew n st hn).resolve_right ?_
    rintro ⟨-, hb', -⟩
    cases hb.symm.trans hb'
  have hfresh : s'.advertisement = none → listened (ms ++ [⟨s, a, s', e⟩]) = [] := by
    intro hn
    rw [same]
    exact h.fresh (hadv.symm.trans hn)
  have hreg : ∀ {n record l}, s'.stage? n = some (.registering record l) →
      Binds (ms ++ [⟨s, a, s', e⟩]) n record l := fun hn => (h.registering (old hn rfl)).append _
  have keep : s'.listener = s.listener → (s.phase = .closed → s'.phase = .closed) →
      s'.feed.sending = s.feed.sending → (∀ {n record}, s'.stage? n = some (.binding record) →
        Seeks (ms ++ [⟨s, a, s', e⟩]) n record) → s'.Sourced (ms ++ [⟨s, a, s', e⟩]) := by
    intro hl hp hf hb
    refine ⟨hb, hreg, fun hn => ?_, hfresh, fun hsend => ?_⟩
    · obtain ⟨l, hb, hl'⟩ := h.noting (old hn rfl)
      exact ⟨l, hb.append _, fun hp' => hl.trans (hl' fun hc => hp' (hp hc))⟩
    · obtain ⟨n, record, l, session, hn, hb, ha, hl'⟩ := h.sending (hf ▸ hsend)
      exact ⟨n, record, l, session, same.trans hn, hb.append _, hadv.trans ha, hl.trans hl'⟩
  have binding : (s'.phase = .listening → s.phase ≠ .idle) → ∀ {n record},
      s'.stage? n = some (.binding record) → Seeks (ms ++ [⟨s, a, s', e⟩]) n record := by
    intro hne n record hn
    rcases hnew n _ hn with hn | ⟨-, -, hp⟩
    · exact (h.binding hn).append _
    · exact absurd (hp rfl).1 (hne (hp rfl).2)
  cases hd with
  | @listen o record hrec hidle =>
      refine keep rfl (fun hc => by cases hidle.symm.trans hc) rfl fun {n record'} hn => ?_
      rcases hnew n _ hn with hold | ⟨rfl, -⟩
      · exact (h.binding hold).append _
      · have hS' : ({ s with phase := .listening } : Server).Sound := hS.congr rfl rfl rfl hS.link
        rw [stage?_spawn hS'.tidy] at hn
        cases (Function.update_self ..).symm.trans hn
        exact ⟨_, List.mem_append_right _ (List.mem_singleton_self _), o, rfl, hrec, rfl⟩
  | read | write | disconnect | send =>
      exact keep rfl id rfl (binding fun hp hi => by cases hi.symm.trans hp)
  | aside _ _ _ hf => exact keep rfl id hf (binding fun hp hi => by cases hi.symm.trans hp)
  | @close _ background _ _ hp =>
      have hshut : (s.close background).phase = .closed ∧ (s.close background).feed.sending = false := by
        rw [close_eq hp]
        cases background <;> exact ⟨rfl, rfl⟩
      refine ⟨binding fun hl => ?_, hreg, fun hn => ?_, hfresh, fun hsend => ?_⟩
      · cases hshut.1.symm.trans hl
      · obtain ⟨l, hb, -⟩ := h.noting (old hn rfl)
        exact ⟨l, hb.append _, fun hc => absurd hshut.1 hc⟩
      · cases hshut.2.symm.trans hsend
  | turn => exact absurd rfl (ha _ _)

theorem sourced_of_run (h : (machine t).Run ms s) : s.Sourced ms := by
  induction h with
  | start => exact ⟨nofun, nofun, nofun, fun _ => rfl, nofun⟩
  | @next ms s a s' e hr _ hp ih =>
      have hS := sound_of_run hr
      have hd := does_of_perform hp
      rcases hd.turn_or_aside with ⟨n, r, st, s₁, next, out, rfl, rfl, rfl, hs, ht⟩ | hne
      · cases hst : st.listens with
        | true => exact ih.turn_of_listens hS (custody_of_run hr) hs ht hst
        | false => exact ih.turn_of_not_listens hS hs ht hst
      · exact ih.news hS hd hne

/-! ## While callers are waited for -/

/-- A turn that leaves a server advertised leaves it armed, unless it has nothing to do with that. -/
theorem Turn.armed (h : Turn s id stage r s₁ next out) (hC : s.Custody)
    (hs : s.stage? id = some stage) (hcl : stage.closes = false)
    (hf : stage.serves = true → s.view.Fits (some stage)) (hp : s₁.phase = .advertising) :
    ((∃ record session, s₁.advertisement = some ⟨record, some session⟩) ∨
        ∃ st, next = some st ∧ st.welcomes = true) ∨
      s.phase = .advertising ∧ s₁.advertisement = s.advertisement ∧ stage.welcomes = false := by
  have releases : ∀ {k k' out}, Releases s id k r s₁ k' out → stage.releasing? = some k →
      s.view.Losing k → ∃ record session, s₁.advertisement = some ⟨record, some session⟩ := by
    intro k k' out h hst hl
    have accepted : s.phase ≠ .advertising := fun ha => by cases hl.phase.symm.trans ha
    cases h with
    | close | late | register => exact absurd hp accepted
    | last => rw [emit_fst] at hp; exact absurd hp accepted
    | line => rw [emit_fst] at hp; exact absurd hp accepted
    | skip _ _ hactive =>
        obtain ⟨record, ha⟩ := hl.withdrawn
        cases hactive _ ha
    | @hold record session =>
        refine ⟨record, session, ?_⟩
        rw [rearmed_advertisement]
        change s.advertisement.map (·.hold session) = _
        rw [hC.registering hs hst]
        rfl
    | fail =>
        exfalso
        rcases rearmed_cases (s.leaveAdvertisement.emit _).1 .listening with ⟨hc, he⟩ | ⟨-, he⟩ <;>
          rw [he] at hp
        · cases hc.symm.trans hp
        · cases hp
  cases h with
  | die | note => exact .inl (.inl ⟨_, _, rfl⟩)
  | late _ hc => cases hc.symm.trans hp
  | notBound | notRegistered =>
      exfalso
      revert hp
      unfold resetListening
      split <;> simp [*]
  | withdraw h => cases h; exact .inl (.inr ⟨_, rfl, rfl⟩)
  | beginAttach | attach => exact .inl (.inr ⟨_, rfl, rfl⟩)
  | refuse _ hc => cases hc.symm.trans hp
  | welcome => rw [emit_fst] at hp; cases hp
  | stumble => rw [emit_fst] at hp ⊢; exact .inr ⟨hp, rfl, rfl⟩
  | losing h | lost h | releasing h | released h => exact .inl (.inl (releases h rfl (hf rfl)))
  | look hl => cases hl <;> exact .inr ⟨hp, rfl, rfl⟩
  | undo | undone | retire | retired | refusing | refused | leave | closing | closed => cases hcl
  | _ => exact .inr ⟨hp, rfl, rfl⟩

theorem armed_of_run (h : (machine t).Run ms s) (hp : s.phase = .advertising) : s.Armed := by
  induction h with
  | start => cases hp
  | @next ms s a s' e hr _ hd ih =>
      have hS := sound_of_run hr
      have hd := does_of_perform hd
      rcases hd.turn_or_aside with ⟨n, r, st, s₁, next, out, rfl, rfl, rfl, hs, ht⟩ | hne
      · rw [place_phase] at hp
        have hopen : s.phase ≠ .closed := fun hc => by cases (ht.phase.mpr hc).symm.trans hp
        obtain ⟨o, ⟨ho, hf⟩, -⟩ := serves_of_run hr hopen
        have hfit : st.serves = true → s.view.Fits (some st) := fun hst => (ho.others hs hst).1 ▸ hf
        rw [Armed, place_advertisement]
        rcases ht.armed (custody_of_run hr) hs (ho.not_closes hs) hfit hp with
          (ha | ⟨st', hn, hst'⟩) | ⟨hp', ha, hw⟩
        · exact .inl ha
        · exact .inr ⟨n, st', (ht.mine hS hs).trans hn, hst'⟩
        · rw [ha]
          refine (ih hp').imp_right ?_
          rintro ⟨m, st', hm, hst'⟩
          have hne : m ≠ n := by
            rintro rfl
            cases hs.symm.trans hm
            cases hw.symm.trans hst'
          exact ⟨m, st', ht.keep hS hs hne hm, hst'⟩
      · have keep := (hd.quiet hS hne).2.2.2
        have same : s.phase = .advertising := by
          cases hd with
          | listen => cases hp
          | @close _ background _ _ hc =>
              rw [close_eq hc] at hp
              cases background <;> cases hp
          | turn => exact absurd rfl (hne _ _)
          | _ => exact hp
        refine (ih same).imp ?_ ?_
        · rw [(hd.news hS hne).1]
          exact id
        · rintro ⟨m, st', hm, hst'⟩
          exact ⟨m, st', keep _ _ hm, hst'⟩

/-- An advertised server at rest has the registration of its record. -/
theorem Rests.active (hr : s.Rests Elsewhere) (h : (machine t).Run ms s)
    (hp : s.phase = .advertising) :
    ∃ record session, s.advertisement = some ⟨record, some session⟩ := by
  have hS := sound_of_run h
  refine (armed_of_run h hp).resolve_right ?_
  rintro ⟨n, st, hn, hst⟩
  obtain ⟨o, hsv, -⟩ := serves_of_run h (by simp [hp])
  cases st with
  | welcoming x address k =>
      cases k with
      | waiting => cases hst
      | calling => cases hr.no_lock hS (fun _ hc => hc) hn
  | attaching address k =>
      have hact := activities_of_stage hn
      cases k with
      | writer y => exact hr.not_attaching hS hsv n y hact
      | reader y =>
          -- No read has the reading half, since no stream is there yet.
          obtain ⟨m, x, hm | hm⟩ := hr.link.first_reader (n := n) hS.link
            (by rw [hact]; simp [Stage.activity, Link.Activity.atReader])
          · have hx := hS.link.reads m x hm
            rw [((callers_of_run h).bare hn rfl).stream] at hx
            cases hx
          · exact hr.not_attaching hS hsv m x hm
  | _ => cases hst

theorem View.Fits.of_advertising {v : View} (h : v.Fits o) (hp : v.phase = .advertising) :
    v.Ready ∧ ∃ st, o = some st := by
  cases o with
  | none =>
      rcases h with h | ⟨c, x, h⟩
      · rcases h.phase with hp' | hp' <;> cases hp.symm.trans hp'
      · cases hp.symm.trans h.phase
  | some st =>
      refine ⟨?_, st, rfl⟩
      unfold View.Fits at h
      split at h
      all_goals first
        | exact View.Accepting.ready h
        | exact View.Accepting.ready h.1
        | exact View.Losing.ready h
        | contradiction
        | cases hp.symm.trans h.2
        | cases hp.symm.trans h.2.1

theorem serves_or_closes_of_deals (h : st.deals = true) : st.serves = true ∨ st.closes = true := by
  cases st <;> first | exact .inl rfl | exact .inr rfl | cases h

theorem listener_mem (h : (machine t).Run ms s) (hp : s.phase = .advertising)
    (hl : s.listener = some l) : l ∈ s.listeners := by
  obtain ⟨o, ⟨ho, hf⟩, -⟩ := serves_of_run h (by simp [hp])
  obtain ⟨-, st, rfl⟩ := hf.of_advertising hp
  cases ho with
  | somebody hn =>
      have hmem := (mem_tasks (sound_of_run h)).mp hn
      have hu : s.inUse = true := by
        cases ht : s.tasks with
        | nil => simp [ht] at hmem
        | cons u us => simp [inUse, ht]
      simp [listeners, hu, hl]

end Server

namespace Site

variable {s : Site} {ms : List Moment} {t : Config.Tuning} {session : SessionId} {record : Record}
  {p : Option Nat}

theorem Has.no_client (hp : s.Has session record p) (h : (machine t).Run ms s) :
    s.server.client = none := by
  obtain ⟨hrun, -⟩ := ledger_of_run h
  by_contra hc
  obtain ⟨c, hc⟩ := Option.ne_none_iff_exists'.mp hc
  have hopen : s.server.phase ≠ .closed := fun hcl => by
    cases (Server.shut_of_run hrun hcl).client.symm.trans hc
  obtain ⟨o, ⟨ho, hf⟩, -⟩ := Server.serves_of_run hrun hopen
  obtain ⟨rfl, x, hv⟩ := hf.of_client hc
  cases p with
  | none =>
      obtain ⟨ha⟩ := hp
      obtain ⟨record', ha'⟩ := hv.withdrawn
      cases ha.symm.trans ha'
  | some n =>
      obtain ⟨st, hn, hst⟩ := hp.deals
      cases ho with
      | nobody ho =>
          obtain ⟨h₁, h₂⟩ := ho n st hn
          rcases Server.serves_or_closes_of_deals hst with h | h
          · cases h₁.symm.trans h
          · cases h₂.symm.trans h

/-- Wherever a run gets to, at most one record of the server is registered, and none while a client is
attached. Once it is at rest and advertised, the record is that of the only listen job that succeeded,
and the listener that this job got is held. -/
theorem advertised_unless_attached (h : (machine t).Run ms s) :
    (s.listed ms).length ≤ 1 ∧
    (s.server.client.isSome = true → s.listed ms = []) ∧
    (s.server.phase = .advertising → s.server.Rests Server.Elsewhere →
      ∃ n record l session, Server.listened (serverMoments ms) = [n] ∧
        Server.Binds (serverMoments ms) n record l ∧ s.listed ms = [(session, record)] ∧
        s.server.listener = some l ∧ l ∈ s.server.listeners) := by
  refine ⟨listed_length h, fun hc => ?_, fun hp hr => ?_⟩
  · refine listed_eq_nil h fun session record p hs => ?_
    simp [hs.no_client h] at hc
  · obtain ⟨hrun, -⟩ := ledger_of_run h
    obtain ⟨o, ⟨-, hf⟩, -⟩ := Server.serves_of_run hrun (by simp [hp])
    obtain ⟨n, record, l, session, hn, hb, ha, hl⟩ :=
      (Server.sourced_of_run hrun).sending (hf.of_advertising hp).1.sending
    obtain ⟨record', session', ha'⟩ := hr.active hrun hp
    cases ha.symm.trans ha'
    exact ⟨n, record, l, session', hn, hb, listed_eq h (.advertisement ha'), hl,
      Server.listener_mem hrun hp hl⟩

/-- A client came and was given up, while somebody else was registered, too. -/
theorem advertised_after_a_client : ∃ ms s, (machine {}).Run ms s ∧
    s.server.phase = .advertising ∧ s.server.Rests Server.Elsewhere ∧ s.server.generation = 1 ∧
    s.directory.records.map (·.1) = [0, 2] ∧ ∃ record, s.listed ms = [(2, record)] := by
  obtain ⟨ms, s, hp, hs⟩ := (machine {}).exists_of_play
    [.register (.create default 9 "printer"), .server (.listen ⟨"1101", 3, ""⟩),
      .server (.step (.task 0) (.bound (.ok 0))), .carryOut 0, .answer 0,
      .server (.step (.task 0) .go), .server (.step (.task 1) .go),
      .server (.step (.task 1) (.accepted (.ok (7, .any)))), .server (.step (.task 1) .go),
      .carryOut 1, .answer 1, .server (.step (.task 1) .go), .server (.step (.task 1) .go),
      .server .disconnectClient, .server (.step (.task 2) .go), .server (.step (.task 2) .go),
      .server (.step (.task 2) .go), .server (.step (.task 2) .shutDown),
      .server (.step (.task 2) .go), .carryOut 2, .answer 2, .server (.step (.task 3) .go)]
    (fun ms s => s.server.phase = .advertising ∧ s.server.workers = [.task 3] ∧
      s.server.ask (.task 3) = .call (.accept 0 1) ∧ s.server.generation = 1 ∧
      s.directory.records.map (·.1) = [0, 2] ∧ (s.listed ms).map (·.1) = [2])
    (by decide +kernel)
  obtain ⟨hphase, hw, hask, hgen, hrec, hlist⟩ := of_decide_eq_true hs
  have hrest : s.server.Rests Server.Elsewhere := by
    refine Server.rests_of_workers fun w h => ?_
    obtain rfl : w = .task 3 := by simpa [hw] using h
    exact .inr ⟨_, hask, trivial⟩
  obtain ⟨-, -, hadv⟩ := advertised_unless_attached (Machine.run_of_play hp)
  obtain ⟨n, record, l, session, -, -, he, -⟩ := hadv hphase hrest
  rw [he] at hlist
  cases hlist
  exact ⟨ms, s, Machine.run_of_play hp, hphase, hrest, hgen, hrec, record, he⟩

end Site

end Rfcomm
