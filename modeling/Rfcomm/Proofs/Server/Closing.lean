import Rfcomm.Proofs.Link.Closing
import Rfcomm.Proofs.Server.Crossing
/-!
How a server is closed. Its reads end and its streams are shut down and released, unless a read that
is left over finds no signal and waits for its peer.
-/
namespace Rfcomm.Server

/-- A server is closed, with a background to take care of the rest. -/
def ClosedAt (m : Moment) : Prop :=
  m.before.phase ≠ .closed ∧ (m.act = .close true ∨ m.act = .drop true)

/-- After the server was closed, a read took the signal. -/
def Took (ms : List Moment) : Prop :=
  ∃ m ∈ ms, m.before.phase = .closed ∧
    ∃ n g y, m.before.stage? n = some (.reading g (.reading y)) ∧ m.act = .step (.task n) .go

/-- The shutdown of a stream is over. -/
def ShutDown (ms : List Moment) (x : StreamId) : Prop :=
  ∃ m ∈ ms, ∃ n r, m.act = .step (.task n) r ∧ m.before.ask (.task n) = .call (.shutdown x)

/-- Nothing is left to do for a server that was closed. -/
structure WoundUp (ms : List Moment) (s : Server) : Prop where
  reads : ∀ g w, ReadOf ms g w → Resolved ms w
  released : s.streams = []
  shut : ∀ x ∈ handed ms, ShutDown ms x

/-- A read waits for bytes, and no signal is there to end it. -/
def Listens (s : Server) : Prop := s.link.Listens (activities s.stage?)

/-- A read can get data. -/
def Hears (s : Server) : Prop :=
  ∃ a s' e bytes, s.perform a = some (s', e) ∧ e.report.outcome = some (.data bytes)

variable {s s' s₁ : Server} {id n : Nat} {stage st : Stage} {next : Option Stage} {r : Reply}
  {out : Report} {a : Act} {e : Effect} {ms ns : List Moment} {m : Moment} {x y : StreamId}
  {t : Config.Tuning} {stages : Nat → Option Stage}

/-! ## Reads get in line -/

theorem Turn.of_attaching {address : Address} {k : Link.Attach}
    (h : Turn s id (.attaching address k) r s₁ next out) :
    (∃ x, k = .reader x ∧ next = some (.attaching address (.writer x))) ∨
      (next = some (.refusing .reader) ∧ s.phase = .closed) ∨ next = none ∧ s.phase ≠ .closed := by
  cases h with
  | look h => cases h
  | attach h =>
      cases Link.move_of_resumeAttach h with
      | haveReader => exact .inl ⟨_, rfl, rfl⟩
  | refuse _ hp => exact .inr (.inl ⟨rfl, hp⟩)
  | welcome _ hp => exact .inr (.inr ⟨rfl, hp⟩)

/-- Whoever lets no read get in line serves, or is there because the server was closed. -/
theorem serves_of_bars (h : Link.Activity.bars stage.activity = true) :
    stage.serves = true ∨ stage.closes = true := by
  cases stage <;> first | exact .inl rfl | exact .inr rfl | cases h

theorem Turn.begins_attaching (h : Turn s id stage r s₁ next out) (ha : stage.activity = none)
    (hx : next.bind Stage.activity = some (.attaching (.reader x))) :
    ∃ y address k, stage = .welcoming y address k := by
  have lock : ∀ k : Releasing, k.activity ≠ some (.attaching (.reader x)) := by
    intro k hk
    cases k <;> cases hk
  cases h with
  | beginAttach => exact ⟨_, _, _, rfl⟩
  | look =>
      obtain ⟨st, hl, hx⟩ := Option.bind_eq_some_iff.mp hx
      obtain ⟨l, -, rfl⟩ := Option.map_eq_some_iff.mp hl
      cases hx
  | attach | refuse | welcome => cases ha
  | losing | releasing => exact absurd hx (lock _)
  | _ => cases hx

/-- What the tasks do at the link stays the same when the owner asks for something, but that a read
can begin. -/
theorem Does.roles (hS : s.Sound) (h : Does s a s' e) (ha : ∀ n r, a ≠ .step (.task n) r) :
    activities s'.stage? = activities s.stage? ∨ activities s'.stage? =
      Function.update (activities s.stage?) s.nextTask (some (.reading .start)) := by
  rcases (h.table hS).resolve_left fun ⟨n, r, he⟩ => ha n r he with he | ⟨st, he, hb, -⟩
  · exact .inl (by rw [he])
  · cases st with
    | binding | dismissing | leaving =>
        rw [he]
        exact .inl (views_update hS.fresh _ rfl rfl).1
    | reading g k =>
        cases k with
        | start => rw [he, activities_update]; exact .inr rfl
        | waiting | reading => cases hb
    | _ => cases hb

theorem Does.link_aside (hS : s.Sound) (h : Does s a s' e) (ha : ∀ n r, a ≠ .step (.task n) r) :
    Link.Aside s.link (activities s.stage?) s'.link (activities s'.stage?) := by
  have hacts := (h.roles hS ha).imp_right fun he =>
    (⟨_, by simp [activities, hS.fresh], he⟩ :
      ∃ n, activities s.stage? n = none ∧ activities s'.stage? =
        Function.update (activities s.stage?) n (some (.reading .start)))
  cases h with
  | listen | read | aside => exact ⟨rfl, rfl, rfl, id, id, hacts⟩
  | write => exact ⟨rfl, rfl, by simp [Link.write], id, id, hacts⟩
  | disconnect =>
      refine ⟨rfl, rfl, rfl, fun ho => (by cases ho), fun _ => ?_, hacts⟩
      change (s.link.wake.signal .disconnect).pending.isSome = true
      simp [Wake.pending_signal_disconnect]
  | @close _ background _ _ hp =>
      have hlink : ∀ owned, ({ s.close background with owned } : Server).link =
          s.link.markClosed.signal .close := fun _ => close_link hp background
      rw [hlink]
      refine ⟨rfl, rfl, rfl, fun ho => (by cases ho), fun _ => ?_, hacts⟩
      change (s.link.wake.signal .close).pending.isSome = true
      simp
  | send hr => exact Link.aside_of_resumeWrite hr
  | turn => exact absurd rfl (ha _ _)

theorem link_ordered_of_run (h : (machine t).Run ms s) : s.link.Ordered (activities s.stage?) := by
  induction h with
  | start => exact Link.ordered_create t
  | @next ms s a s' e hr _ hp ih =>
      have hS := sound_of_run hr
      have hd := does_of_perform hp
      rcases hd.turn_or_aside with ⟨n, r, st, s₁, next, out, rfl, rfl, rfl, hs, ht⟩ | hne
      · rw [place_link, (ht.roles hS hs).1]
        refine ht.link.ordered ih hS.link (activities_of_stage hs) ?_ ?_
        · intro x hst hx
          obtain ⟨y, address, k, rfl⟩ := ht.begins_attaching hst hx
          by_cases hcl : s.phase = .closed
          · exact (shut_of_run hr hcl).isOpen
          · obtain ⟨o, ⟨ho, hf⟩, -⟩ := serves_of_run hr hcl
            obtain ⟨rfl, -⟩ := ho.others hs rfl
            exact View.Fits.isOpen hf
        · intro x hst hx m hm
          obtain ⟨address, rfl⟩ := attaching_of_activity hst
          rcases ht.of_attaching with ⟨_, -, rfl⟩ | ⟨rfl, -⟩ | ⟨rfl, hcl⟩
          · cases hx
          · cases hx
          · -- While a caller is attached, nobody else serves, and nobody closes.
            obtain ⟨o, ⟨ho, -⟩, -⟩ := serves_of_run hr hcl
            cases hsm : s.stage? m with
            | none => simp [activities, hsm, Link.Activity.bars]
            | some stm =>
                rw [activities_of_stage hsm]
                obtain ⟨h₁, h₂⟩ := (ho.others hs rfl).2 m stm hsm hm
                by_contra hb
                rcases serves_of_bars (by simpa using hb) with h | h
                · rw [h₁] at h; cases h
                · rw [h₂] at h; cases h
      · exact (hd.link_aside hS hne).ordered ih hS.link

/-! ## Reads after the server was closed -/

theorem took_append (h : Took ms) : Took (ms ++ ns) := by
  obtain ⟨m, hm, h⟩ := h
  exact ⟨m, List.mem_append_left _ hm, h⟩

theorem Turn.took {g : Nat} (h : Turn s id (.reading g (.reading x)) r s₁ next out)
    (hp : s.link.wake.pending.isSome = true) : r = .go := by
  cases h with
  | look h => cases h
  | read h | report h | lose h => exact Link.go_of_resumeReading h hp

/-- A closed server is deaf to its peer until a read takes the signal. -/
theorem deaf_of_run (h : (machine t).Run ms s) (hc : s.phase = .closed) :
    s.link.Deaf (activities s.stage?) ∨ Took ms := by
  induction h with
  | start => cases hc
  | @next ms s a s' e hr _ hp ih =>
      have hS := sound_of_run hr
      have hd := does_of_perform hp
      rcases hd.turn_or_aside with ⟨n, r, st, s₁, next, out, rfl, rfl, rfl, hs, ht⟩ | hne
      · rw [place_phase, ht.phase] at hc
        rcases ih hc with hdeaf | htook
        · rw [place_link, (ht.roles hS hs).1]
          rcases ht.link.deaf (link_ordered_of_run hr) hS.link (activities_of_stage hs)
            (shut_of_run hr hc).isOpen hdeaf with h | ⟨x, hact, hpend⟩
          · exact .inl h
          · obtain ⟨g, hg⟩ := stage_of_reading ((activities_of_stage hs).trans hact)
            obtain rfl := Option.some.inj (hs.symm.trans hg)
            obtain rfl := ht.took hpend
            exact .inr ⟨_, List.mem_append_right _ (List.mem_singleton_self _), hc, n, g, x, hs, rfl⟩
        · exact .inr (took_append htook)
      · by_cases hcl : s.phase = .closed
        · exact (ih hcl).imp (hd.link_aside hS hne).deaf took_append
        · -- The server is closed right now.
          left; left
          cases hd with
          | @close _ background _ _ hopen =>
              rw [close_eq hopen]
              cases background <;>
                (change (s.link.wake.signal .close).pending.isSome = true; simp)
          | listen => cases hc
          | read | write | disconnect | aside | send => exact absurd hc hcl
          | turn => exact absurd rfl (hne _ _)

theorem took_of_listens (h : (machine t).Run ms s) (hc : s.phase = .closed) (hl : s.Listens) :
    Took ms :=
  (deaf_of_run h hc).resolve_left fun hd => hd.not_listens hl

theorem Turn.data {bytes : Bytes} (h : Turn s id stage r s₁ next out)
    (ho : out.outcome = some (.data bytes)) :
    (∃ g x, stage = .reading g (.reading x)) ∧ r = .read (.ok bytes) ∧ bytes ≠ [] ∧
      s.link.wake.pending = none ∧ bytes.length ≤ s.link.readSize := by
  cases h with
  | @report g k r link ev hr =>
      obtain rfl : ev = .data bytes := by
        cases ev with
        | data bytes' => cases ho; rfl
        | failed f =>
            simp only [outcome] at ho
            split at ho <;> cases ho
        | eof | woken | refused | died => cases ho
      obtain ⟨⟨x, rfl⟩, h⟩ := Link.data_of_resumeReading hr
      exact ⟨⟨g, x, rfl⟩, h⟩
  | losing h | releasing h | released h => rw [h.outcome] at ho; cases ho
  | stumble => rw [emit_outcome] at ho; cases ho
  | welcome => rw [emit_outcome] at ho; cases ho
  | _ => cases ho

/-- Data is reported by a read that gets it as the answer. -/
theorem data_of_perform {bytes : Bytes} (hp : s.perform a = some (s', e))
    (ho : e.report.outcome = some (.data bytes)) : ∃ n g x, a = .step (.task n) (.read (.ok bytes)) ∧
      s.stage? n = some (.reading g (.reading x)) ∧ bytes ≠ [] ∧ s.link.wake.pending = none ∧
      bytes.length ≤ s.link.readSize := by
  cases does_of_perform hp with
  | turn hs ht =>
      obtain ⟨⟨g, x, rfl⟩, rfl, h⟩ := ht.data ho
      exact ⟨_, g, x, rfl, hs, h⟩
  | @send _ _ _ result =>
      cases result with
      | none => cases ho
      | some result => cases result <;> cases ho
  | listen | read | write | disconnect | close | aside => cases ho

/-- A read that gets what it asked for is over. -/
theorem perform_of_read {g : Nat} {bytes : Bytes} (hs : s.stage? n = some (.reading g (.reading x)))
    (hp : s.link.wake.pending = none) (hlen : bytes.length ≤ s.link.readSize) :
    ∃ s', s.perform (.step (.task n) (.read (.ok bytes))) =
      some (s', { report :=
        ({ s with link := s.link.leaveReader }.seen n g (.ofRead (.ok bytes))).2 }) := by
  obtain ⟨u, hu, hst⟩ := Option.map_eq_some_iff.mp hs
  simp only [perform, resume, hu, hst, resumeStage, Link.resumeReading_answer hp hlen,
    Option.bind_some, Option.map_some]
  exact ⟨_, rfl⟩

/-- Whoever listens can get data, and nobody else. -/
theorem hears_iff : s.Hears ↔ s.Listens ∧ 0 < s.link.readSize := by
  constructor
  · rintro ⟨a, s', e, bytes, hp, ho⟩
    obtain ⟨n, g, x, -, hs, hb, hpend, hlen⟩ := data_of_perform hp ho
    exact ⟨⟨hpend, n, x, activities_of_stage hs⟩,
      Nat.lt_of_lt_of_le (List.length_pos_iff.mpr hb) hlen⟩
  · rintro ⟨⟨hpend, n, x, hact⟩, hsize⟩
    obtain ⟨g, hs⟩ := stage_of_reading hact
    have hlen : ([0] : Bytes).length ≤ _ := hsize
    obtain ⟨s', hp⟩ := perform_of_read hs hpend hlen
    exact ⟨_, s', _, [0], hp, rfl⟩

/-! ## Callers of a closed server -/

/-- At most one task gets the next client, and none while a stream is held. -/
structure Callers (s : Server) : Prop where
  unique : ∀ {n m st st'}, s.stage? n = some st → s.stage? m = some st' → st.accepts = true →
    st'.accepts = true → n = m
  bare : ∀ {n st}, s.stage? n = some st → st.accepts = true → s.link.Bare

theorem Serves.callers {o : Option Stage} (h : s.Serves o) : s.Callers := by
  refine ⟨?_, ?_⟩
  · intro n m st st' hn hm hst hst'
    by_contra hne
    have := ((h.1.others hn (serves_of_accepts hst)).2 m st' hm (Ne.symm hne)).1
    rw [serves_of_accepts hst'] at this
    cases this
  · intro n st hn hst
    obtain ⟨rfl, -⟩ := h.1.others hn (serves_of_accepts hst)
    have hb : s.view.Bare := by
      have hf := h.2
      cases st <;> cases hst
      case welcoming k => exact hf.welcoming.1.bare
      case attaching => exact hf.1.bare
      all_goals exact View.Accepting.bare hf
    exact ⟨hb.stream, hb.sink, hb.isOpen⟩

/-- No task of the accept loop is started by a closed server. -/
theorem Turn.closed_table (h : Turn s id stage r s₁ next out) (hp : s.phase = .closed) :
    s₁.nextTask = s.nextTask := by
  have rearmed : ∀ (s : Server) phase, s.phase = .closed →
      (s.rearmed phase).nextTask = s.nextTask := by
    intro s phase hp
    rw [Server.rearmed, if_pos hp]
  have releases : ∀ {k k' out}, Releases s id k r s₁ k' out → s₁.nextTask = s.nextTask := by
    intro k k' out h
    cases h with
    | close | late | register => rfl
    | last => rw [emit_fst]
    | line => rw [emit_fst]; rfl
    | skip _ hn => exact absurd hp hn
    | hold => exact rearmed _ _ hp
    | fail => exact (rearmed _ _ (by rw [emit_fst]; exact hp)).trans (by rw [emit_fst]; rfl)
  cases h with
  | note _ hn => exact absurd hp hn
  | notBound | notRegistered => rw [resetListening, if_pos hp]
  | undo h | undone h | withdraw h | beginAttach h | retire h | retired h =>
      obtain ⟨_, _, rfl⟩ := h.frame
      rfl
  | stumble => rw [emit_fst]
  | welcome => rw [emit_fst]; rfl
  | losing h | lost h | releasing h | released h => exact releases h
  | _ => rfl

theorem Turn.to_accepts (h : Turn s id stage r s₁ next out) (hn : next = some st)
    (hst : st.accepts = true) : stage.accepts = true := by
  cases h with
  | look h => cases h <;> rfl
  | _ => first | rfl | (cases hn <;> cases hst)

theorem Turn.closed_stages (hS : s.Sound) (h : Turn s id stage r s₁ next out)
    (hs : s.stage? id = some stage) (hp : s.phase = .closed) :
    (s₁.place id next).stage? = Function.update s.stage? id next :=
  h.table_of_same hS hs (h.closed_table hp)

theorem Callers.turn (hS : s.Sound) (h : s.Callers) (hs : s.stage? id = some stage)
    (ht : Turn s id stage r s₁ next out) (hp : s.phase = .closed) :
    (s₁.place id next).Callers := by
  have htab := ht.closed_stages hS hs hp
  have old : ∀ {n st}, (s₁.place id next).stage? n = some st → st.accepts = true →
      ∃ st', s.stage? n = some st' ∧ st'.accepts = true := by
    intro n st hn hst
    rw [htab] at hn
    by_cases hne : n = id
    · subst hne
      rw [Function.update_self] at hn
      exact ⟨stage, hs, ht.to_accepts hn hst⟩
    · rw [Function.update_of_ne hne] at hn
      exact ⟨st, hn, hst⟩
  refine ⟨?_, ?_⟩
  · intro n m st st' hn hm hst hst'
    obtain ⟨_, hn, hst⟩ := old hn hst
    obtain ⟨_, hm, hst'⟩ := old hm hst'
    exact h.unique hn hm hst hst'
  · intro n st hn hst
    obtain ⟨st', hn', hst'⟩ := old hn hst
    -- The only one who could attach a stream goes on as one who accepts.
    have quiet : ∀ x, stage.activity ≠ some (.attaching (.writer x)) := by
      intro x hact
      obtain ⟨address, rfl⟩ := attaching_of_activity hact
      obtain rfl := h.unique hn' hs hst' rfl
      rw [htab, Function.update_self] at hn
      rcases ht.of_attaching with ⟨_, h, -⟩ | ⟨h, -⟩ | ⟨h, -⟩
      · cases h
      · rw [h] at hn; cases hn; cases hst
      · rw [h] at hn; cases hn
    rw [place_link]
    exact ht.link.bare (h.bare hn' hst') quiet

theorem accepts_of_caller (h : st.caller? = some x) : st.accepts = true := by
  cases st <;> first | rfl | cases h

theorem accepts_of_begins (h : st.begins = true) : st.accepts = false := by
  cases st <;> first | rfl | cases h

theorem Callers.aside (hS : s.Sound) (h : s.Callers) (hd : Does s a s' e)
    (ha : ∀ n r, a ≠ .step (.task n) r) : s'.Callers := by
  have old : ∀ {n st}, s'.stage? n = some st → st.accepts = true → s.stage? n = some st := by
    intro n st hn hst
    rcases (hd.table hS).resolve_left fun ⟨n, r, he⟩ => ha n r he with he | ⟨st', he, hb, -⟩ <;>
      rw [he] at hn
    · exact hn
    · by_cases hne : n = s.nextTask
      · subst hne
        obtain rfl : st' = st := by simpa using hn
        rw [accepts_of_begins hb] at hst
        cases hst
      · rwa [Function.update_of_ne hne] at hn
  refine ⟨?_, ?_⟩
  · intro n m st st' hn hm hst hst'
    exact h.unique (old hn hst) (old hm hst') hst hst'
  · intro n st hn hst
    exact (hd.link_aside hS ha).bare (h.bare (old hn hst) hst)

theorem callers_of_run (h : (machine t).Run ms s) : s.Callers := by
  induction h with
  | start => exact ⟨fun hn => (by cases hn), fun hn => (by cases hn)⟩
  | @next ms s a s' e hr _ hp ih =>
      have hS := sound_of_run hr
      have hd := does_of_perform hp
      rcases hd.turn_or_aside with ⟨n, r, st, s₁, next, out, rfl, rfl, rfl, hs, ht⟩ | hne
      · by_cases hc : s.phase = .closed
        · exact ih.turn hS hs ht hc
        · obtain ⟨o, hsv, -⟩ := serves_of_run hr hc
          have hc' : (s₁.place n next).phase ≠ .closed := by
            rw [place_phase, ne_eq, ht.phase]
            exact hc
          obtain ⟨o', hsv', -⟩ := hd.serves hS hsv hc'
          exact hsv'.callers
      · exact ih.aside hS hd hne

/-! ## Streams are shut down -/

theorem shutDown_append (h : ShutDown ms x) : ShutDown (ms ++ ns) x := by
  obtain ⟨m, hm, h⟩ := h
  exact ⟨m, List.mem_append_left _ hm, h⟩

/-- Whoever holds the writing half of a stream goes on to hold it until it is shut down. -/
theorem Turn.keeps (hcall : s.Callers) (h : Turn s id stage r s₁ next out)
    (hs : s.stage? id = some stage)
    (hx : s.link.queue.stream = some x ∨ stage.stream? = some x) :
    (s₁.link.queue.stream = some x ∨ next.bind Stage.stream? = some x) ∨
      s.ask (.task id) = .call (.shutdown x) := by
  by_cases hw : ∃ y address k, stage = .welcoming y address k
  · obtain ⟨y, address, k, rfl⟩ := hw
    left
    cases h with
    | look h => cases h
    | withdraw hw | beginAttach hw =>
        obtain ⟨_, _, rfl⟩ := hw.frame
        exact hx
  · rw [stream?_eq fun y address k he => hw ⟨y, address, k, he⟩] at hx
    have bare : ∀ y, stage.activity = some (.attaching (.writer y)) →
        s.link.queue.stream = none := by
      intro y hact
      obtain ⟨address, rfl⟩ := attaching_of_activity hact
      exact (hcall.bare hs rfl).sink
    rcases h.link.keeps bare hx with (h' | h') | h'
    · exact .inl (.inl h')
    · left; right
      cases next with
      | none => cases h'
      | some st => exact stream?_of_held h'
    · right
      rw [ask_task hs, askStage_activity s id h']
      rfl

theorem accepted_of_stream? {w : Worker} (hx : (Act.step w r).stream? = some x) :
    ∃ address, r = .accepted (.ok (x, address)) := by
  unfold Act.stream? at hx
  split at hx
  · rename_i he
    cases he
    cases hx
    exact ⟨_, rfl⟩
  · cases hx

theorem Turn.brings (h : Turn s id stage r s₁ next out)
    (hx : (Act.step (.task id) r).stream? = some x) :
    ∃ address, next = some (.welcoming x address .waiting) := by
  obtain ⟨address, rfl⟩ := accepted_of_stream? hx
  have closing : ∀ {k p}, s.link.resumeClosing (.task id) k (.accepted (.ok (x, address))) ≠
      some p := by
    intro k p h
    rcases Link.reply_of_resumeClosing h with h | h <;> cases h
  have withdraws : ∀ {k s' k'}, ¬ Withdraws s id k (.accepted (.ok (x, address))) s' k' := by
    intro k s' k' h
    cases h
  have releases : ∀ {k s' k' out}, ¬ Releases s id k (.accepted (.ok (x, address))) s' k' out := by
    intro k s' k' out h
    cases h with
    | close h | last h | line h => exact closing h
  cases h with
  | accept => exact ⟨address, rfl⟩
  | look h => cases h
  | undo h | undone h | withdraw h | beginAttach h | retire h | retired h => exact absurd h withdraws
  | attach h | refuse h | welcome h => cases Link.reply_of_resumeAttach h
  | refusing h | refused h | closing h | closed h => exact absurd h closing
  | read h | report h | lose h => rcases Link.reply_of_resumeReading h with h | ⟨_, h⟩ <;> cases h
  | losing h | lost h | releasing h | released h => exact absurd h releases

theorem Does.brings (h : Does s a s' e) (ha : ∀ n r, a ≠ .step (.task n) r) :
    a.stream? = none := by
  cases h with
  | listen | read | write | disconnect => rfl
  | close h => rcases h with rfl | rfl <;> rfl
  | @aside a _ _ _ _ h =>
      cases a with
      | step w r => exact absurd rfl (h w r)
      | _ => rfl
  | @send n r link result hr =>
      by_contra hx
      obtain ⟨x, hx⟩ := Option.ne_none_iff_exists'.mp hx
      obtain ⟨address, rfl⟩ := accepted_of_stream? hx
      rcases Link.reply_of_resumeWrite hr with h | ⟨_, h⟩ | ⟨_, h⟩ <;> cases h
  | turn => exact absurd rfl (ha _ _)

/-- A stream that was handed over is held until it is shut down. -/
theorem kept_of_run (h : (machine t).Run ms s) (hx : x ∈ handed ms) :
    (s.link.queue.stream = some x ∨ ∃ n st, s.stage? n = some st ∧ st.stream? = some x) ∨
      ShutDown ms x := by
  induction h with
  | start => cases hx
  | @next ms s a s' e hr _ hp ih =>
      have hS := sound_of_run hr
      have hd := does_of_perform hp
      rw [handed_append, List.mem_append] at hx
      rcases hd.turn_or_aside with ⟨n, r, st, s₁, next, out, rfl, rfl, rfl, hs, ht⟩ | hne
      · have mine : (s₁.link.queue.stream = some x ∨ next.bind Stage.stream? = some x) →
            ((s₁.place n next).link.queue.stream = some x ∨
              ∃ i st, (s₁.place n next).stage? i = some st ∧ st.stream? = some x) := by
          rintro (h | h)
          · exact .inl (by rw [place_link]; exact h)
          · obtain ⟨st', rfl, hst'⟩ := Option.bind_eq_some_iff.mp h
            exact .inr ⟨n, st', ht.mine hS hs, hst'⟩
        have goes := fun h => (ht.keeps (callers_of_run hr) hs (x := x) h).imp mine
          fun hask => (⟨_, List.mem_append_right _ (List.mem_singleton_self _), n, r, rfl, hask⟩ :
            ShutDown (ms ++ [⟨s, .step (.task n) r, s₁.place n next, { report := out }⟩]) x)
        rcases hx with hx | hx
        · rcases ih hx with (h | ⟨i, st', hi, hst'⟩) | h
          · exact goes (.inl h)
          · by_cases hin : i = n
            · subst hin
              obtain rfl := Option.some.inj (hi.symm.trans hs)
              exact goes (.inr hst')
            · exact .inl (.inr ⟨i, st', ht.keep hS hs hin hi, hst'⟩)
          · exact .inr (shutDown_append h)
        · -- The stream comes with a caller.
          have hx : (Act.step (.task n) r).stream? = some x := by simpa [handed] using hx
          obtain ⟨address, rfl⟩ := ht.brings hx
          exact .inl (mine (.inr rfl))
      · obtain ⟨-, h₂, -, keep⟩ := hd.quiet hS hne
        have hx : x ∈ handed ms := by
          refine hx.resolve_right fun hx => ?_
          simp [handed, hd.brings hne] at hx
        rcases ih hx with (h | ⟨i, st', hi, hst'⟩) | h
        · exact .inl (.inl (h₂.trans h))
        · exact .inl (.inr ⟨i, st', keep _ _ hi, hst'⟩)
        · exact .inr (shutDown_append h)

/-! ## What is held is released -/

/-- Whether a task at a stage is still to begin to close the link. -/
def Stage.late : Stage → Bool
  | .leaving | .retiring _ => true
  | _ => false

/-- A task is still to begin to close the link. -/
def Late (s : Server) : Prop := ∃ n st, s.stage? n = some st ∧ st.late = true

theorem Turn.of_late (h : Turn s id stage r s₁ next out) (hl : stage.late = true) :
    ∃ st, next = some st ∧ (st.late = true ∨ st.activity = some (.closing .reader)) := by
  cases h with
  | leave | retire => exact ⟨_, rfl, .inl rfl⟩
  | retired => exact ⟨_, rfl, .inr rfl⟩
  | look h => cases h <;> cases hl
  | _ => cases hl

theorem guarded_turn (hS : s.Sound) (hg : s.link.Guarded (activities s.stage?) s.Late)
    (hs : s.stage? id = some stage) (ht : Turn s id stage r s₁ next out) (hp : s.phase = .closed) :
    (s₁.place id next).link.Guarded (activities (s₁.place id next).stage?)
      (s₁.place id next).Late := by
  have hroles := (ht.roles hS hs).1
  rw [place_link, hroles]
  by_cases hc : next.bind Stage.activity = some (.closing .reader)
  · exact .of_closing (n := id) (by rw [Function.update_self, hc])
  · have hg' := ht.link.guarded hg (activities_of_stage hs) ?_
    · refine hg'.mono ?_
      rintro ⟨n, st, hn, hst⟩
      by_cases hne : n = id
      · subst hne
        obtain rfl := Option.some.inj (hn.symm.trans hs)
        obtain ⟨st', rfl, hl | hl⟩ := ht.of_late hst
        · exact ⟨n, st', ht.mine hS hs, hl⟩
        · exact absurd hl hc
      · exact ⟨n, st, ht.keep hS hs hne hn, hst⟩
    · intro x hact
      obtain ⟨address, rfl⟩ := attaching_of_activity hact
      rcases ht.of_attaching with ⟨_, h, -⟩ | ⟨rfl, -⟩ | ⟨-, h⟩
      · cases h
      · rfl
      · exact absurd hp h

/-- Whatever a closed server holds is going to be released. -/
theorem guarded_of_run (h : (machine t).Run (ms ++ m :: ns) s) (hm : ClosedAt m) :
    s.phase = .closed ∧ s.link.Guarded (activities s.stage?) s.Late := by
  obtain ⟨hopen, hact⟩ := hm
  have hrun : (machine t).Run ((ms ++ [m]) ++ ns) s := by simpa using h
  refine hrun.since (P := fun _ s => s.phase = .closed ∧
    s.link.Guarded (activities s.stage?) s.Late) ?_ ?_
  · intro s₀ h₀
    obtain ⟨hr, -, hp, -⟩ := h₀.unsnoc
    have hS := sound_of_run hr
    have hs₀ : s₀ = { m.before.close true with owned := s₀.owned } := by
      rcases hact with hact | hact <;> rw [hact] at hp
      all_goals rw [← (Prod.mk.inj (Option.some.inj hp)).1]; try rfl
    have hshut := close_eq hopen true
    have hstage : s₀.stage? m.before.nextTask = some .leaving := by
      have he : s₀.stage? = (m.before.close true).stage? := by rw [hs₀]; rfl
      rw [he, hshut, if_pos rfl, stage?_spawn (s := m.before.shut) hS.tidy]
      exact Function.update_self ..
    refine ⟨?_, (Link.Guarded.of_late _ _).mono fun _ => ⟨_, _, hstage, rfl⟩⟩
    rw [hs₀]
    change (m.before.close true).phase = .closed
    rw [hshut]
    rfl
  · rintro ns s a s' e hr - hp ⟨hc, hg⟩
    have hS := sound_of_run hr
    have hd := does_of_perform hp
    refine ⟨hd.phase hc, ?_⟩
    rcases hd.turn_or_aside with ⟨n, r, st, s₁, next, out, rfl, rfl, rfl, hs, ht⟩ | hne
    · exact guarded_turn hS hg hs ht hc
    · refine (hd.link_aside hS hne).guarded hg ?_
      rintro ⟨n, st, hn, hst⟩
      exact ⟨n, st, (hd.quiet hS hne).2.2.2 n st hn, hst⟩

/-! ## At rest -/

theorem elsewhere_of_passive {c : Call} (h : Link.Passive c) : Elsewhere c := by
  cases c <;> first | exact h.elim | trivial

theorem Rests.lock_free (hr : s.Rests Link.Passive) (hS : s.Sound) (hs : s.stage? n = some stage) :
    stage.atLock = .out :=
  hr.no_lock hS (fun _ => elsewhere_of_passive) hs

theorem Rests.idle (hr : s.Rests Link.Passive) (hS : s.Sound) (ho : s.link.isOpen = false)
    (hl : ¬ s.Listens) (n : Nat) : activities s.stage? n = none := by
  refine hr.link.idle hS.link ho (fun m x hm => ?_) hl n
  obtain ⟨st, hs, hst⟩ := Option.bind_eq_some_iff.mp hm
  have hask : s.ask (.task m) = .call (.shutdown x) := by
    rw [ask_task hs, askStage_activity s m hst]
    rfl
  exact hr.call hask

theorem Rests.holds_nothing (hr : s.Rests Link.Passive) (hS : s.Sound)
    (hg : s.link.Guarded (activities s.stage?) s.Late)
    (hidle : ∀ n, activities s.stage? n = none) : ¬ s.Holds x := by
  have late : ¬ s.Late := by
    rintro ⟨n, st, hn, hst⟩
    have hlock := hr.lock_free hS hn
    cases st with
    | leaving => exact hr.not_ready (.task n) ((ask_task hn).trans rfl)
    | retiring k => cases k <;> cases hlock
    | _ => cases hst
  intro hx
  cases hx with
  | reader hx =>
      obtain ⟨n, hn⟩ := (hg.reader x hx).resolve_left late
      cases (hidle n).symm.trans hn
  | writer hx =>
      obtain ⟨n, hn | hn⟩ := (hg.writer x hx).resolve_left late <;> cases (hidle n).symm.trans hn
  | @task n st hn hx =>
      have hlock := hr.lock_free hS hn
      have hst : st.activity = none := (activities_of_stage hn).symm.trans (hidle n)
      by_cases hw : ∃ y address k, st = .welcoming y address k
      · obtain ⟨y, address, k, rfl⟩ := hw
        cases k <;> cases hlock
      · rw [stream?_eq fun y address k he => hw ⟨y, address, k, he⟩, hst] at hx
        cases hx

/-- A server that was closed is wound up, once it is at rest, just if it does not listen. -/
theorem wound_up_iff (h : (machine t).Run (ms ++ m :: ns) s) (hm : ClosedAt m)
    (hr : s.Rests Link.Passive) : WoundUp (ms ++ m :: ns) s ↔ ¬ s.Listens := by
  have hS := sound_of_run h
  have hacc := accounts_of_run h
  constructor
  · rintro hw ⟨-, n, x, hact⟩
    obtain ⟨g, hn⟩ := stage_of_reading hact
    have hover := (hacc.done (hw.reads g _ (hacc.reads hn))).1
    rw [hn] at hover
    cases hover
  · intro hn
    obtain ⟨hc, hg⟩ := guarded_of_run h hm
    have hidle := hr.idle hS (shut_of_run h hc).isOpen hn
    have hnone : ∀ x, ¬ s.Holds x := fun x => hr.holds_nothing hS hg hidle
    refine ⟨?_, ?_, ?_⟩
    · intro g w hw
      obtain ⟨i, rfl, hi | ⟨st, hi, hst⟩⟩ := hacc.pending hw
      · exact hi
      · exfalso
        have hact := (activities_of_stage hi).symm.trans (hidle i)
        have hlock := hr.lock_free hS hi
        cases hst with
        | reading => cases hact
        | @losing k =>
            cases k with
            | closing => cases hact
            | waiting | registering => cases hlock
    · rw [List.eq_nil_iff_forall_not_mem]
      exact fun x hx => hnone x (holds_of_mem hS hx)
    · intro x hx
      refine (kept_of_run h hx).resolve_left ?_
      rintro (h | ⟨n, st, hs, hst⟩)
      · exact hnone x (.writer h)
      · exact hnone x (.task hs hst)

end Rfcomm.Server
