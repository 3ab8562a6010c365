import Rfcomm.Proofs.Connection.Sound
/-!
How a connection is closed. Its reads end and its stream is shut down and released, unless a read that
is left over finds no signal and waits for its peer.
-/
namespace Rfcomm.Connection

/-- The job of a worker has resolved. -/
def Resolved (ms : List Moment) (w : Worker) : Prop :=
  ∃ m ∈ ms, ∃ r, m.act = .step w r ∧ m.effect.outcome.isSome = true

/-- A read was accepted. -/
def Reads (ms : List Moment) (w : Worker) : Prop :=
  ∃ m ∈ ms, m.act = .read ∧ m.effect.started = some w

/-- A connection is closed: by its owner, with a background to take care of the rest, or because its
stream did not come, ended or failed. -/
def ClosedAt (m : Moment) : Prop :=
  m.before.phase ≠ .closed ∧ m.after.phase = .closed ∧ m.act ≠ .close false ∧ m.act ≠ .drop false

/-- After the connection was closed, a read took the signal. -/
def Took (ms : List Moment) : Prop :=
  ∃ m ∈ ms, m.before.phase = .closed ∧
    ∃ n x, m.before.stage? n = some (.reading (.reading x)) ∧ m.act = .step (.task n) .go

/-- The connection was closed by a read that saw the end of the stream, or its failure. -/
def Ended (ms : List Moment) : Prop :=
  ∃ m ∈ ms, m.before.phase ≠ .closed ∧ m.after.phase = .closed ∧
    ∃ n x result, m.before.stage? n = some (.reading (.reading x)) ∧
      m.act = .step (.task n) (.read result)

/-- The shutdown of a stream is over. -/
def ShutDown (ms : List Moment) (x : StreamId) : Prop :=
  ∃ m ∈ ms, ∃ n r, m.act = .step (.task n) r ∧ m.before.ask (.task n) = .call (.shutdown x)

/-- Nothing is left to do for a connection that was closed. -/
structure WoundUp (ms : List Moment) (c : Connection) : Prop where
  reads : ∀ w, Reads ms w → Resolved ms w
  released : c.streams = []
  shut : ∀ x ∈ handed ms, ShutDown ms x

/-- A read waits for bytes, and no signal is there to end it. -/
def Listens (c : Connection) : Prop := c.link.Listens (activities c.stage?)

/-- A read can get data. -/
def Hears (c : Connection) : Prop :=
  ∃ a c' e bytes, c.perform a = some (c', e) ∧ e.outcome = some (.data bytes)

/-- Nobody can go on by itself, and calls are waited for only if they are among some. -/
def Rests (c : Connection) (calls : Call → Prop) : Prop :=
  ∀ w, c.ask w = .blocked ∨ ∃ k, c.ask w = .call k ∧ calls k

variable {c c' c₁ : Connection} {id n : Nat} {stage st : Stage} {next : Option Stage}
  {r : Reply} {out : Option Outcome} {a : Act} {e : Effect} {ms ns : List Moment} {m : Moment}
  {w : Worker} {x : StreamId} {t : Config.Tuning} {calls : Call → Prop} {act : Link.Activity}

/-! ## The read jobs -/

/-- Whether a task at a stage is a read whose outcome is still to come. -/
def Stage.isRead : Stage → Bool
  | .reading _ | .ending _ _ => true
  | _ => false

/-- The reads that were accepted, and the tasks that are at them. -/
structure Accounts (ms : List Moment) (c : Connection) : Prop where
  pending : ∀ {w}, Reads ms w → ∃ n, w = .task n ∧
    (Resolved ms w ∨ ∃ st, c.stage? n = some st ∧ st.isRead = true)
  done : ∀ {n}, Resolved ms (.task n) → c.stage? n = none ∧ n < c.nextTask
  reads : ∀ {n g}, c.stage? n = some (.reading g) → Reads ms (.task n)
  /-- What ended the connection is no data. -/
  ending : ∀ {n o k}, c.stage? n = some (.ending o k) → ∀ bytes, o ≠ .data bytes

theorem resolved_append : Resolved (ms ++ ns) w ↔ Resolved ms w ∨ Resolved ns w := by
  simp only [Resolved, List.mem_append, or_and_right, exists_or]

theorem reads_append : Reads (ms ++ ns) w ↔ Reads ms w ∨ Reads ns w := by
  simp only [Reads, List.mem_append, or_and_right, exists_or]

theorem resolved_singleton :
    Resolved [m] w ↔ ∃ r, m.act = .step w r ∧ m.effect.outcome.isSome = true := by
  simp [Resolved]

theorem reads_singleton : Reads [m] w ↔ m.act = .read ∧ m.effect.started = some w := by
  simp [Reads]

theorem Turn.done_of_outcome (h : Turn c id stage r c₁ next out) (ho : out.isSome = true) :
    next = none := by
  cases h with
  | fail | opened | report | closed => rfl
  | _ => cases ho

theorem Turn.of_isRead (h : Turn c id stage r c₁ next out) (hst : stage.isRead = true) :
    (∃ st, next = some st ∧ st.isRead = true) ∨ next = none ∧ out.isSome = true := by
  cases h with
  | read | lose => exact .inl ⟨_, rfl, rfl⟩
  | report => exact .inr ⟨rfl, rfl⟩
  | close hc =>
      cases hc with
      | ending => exact .inl ⟨_, rfl, rfl⟩
      | abandoning | closing => cases hst
  | closed hc =>
      cases hc with
      | ending => exact .inr ⟨rfl, rfl⟩
      | abandoning | closing => cases hst
  | _ => cases hst

theorem Turn.to_ending {o : Outcome} {k : Link.Closing} (h : Turn c id stage r c₁ next out)
    (hn : next = some (.ending o k)) :
    (∃ k', stage = .ending o k') ∨ ∀ bytes, o ≠ .data bytes := by
  cases h with
  | @lose _ _ _ e _ he =>
      cases hn
      right
      cases e with
      | eof | failed => simp [outcome]
      | _ => cases he
  | close hc =>
      cases hc <;> cases hn
      exact .inl ⟨_, rfl⟩
  | _ => cases hn

theorem Asks.nextTask (h : Asks c a c' e) : c.nextTask ≤ c'.nextTask := by
  cases h with
  | connect | read => exact Nat.le_succ _
  | write | aside | send => exact Nat.le_refl _
  | @close _ background _ _ hp =>
      change c.nextTask ≤ (c.close background).nextTask
      rw [close_eq hp]
      cases background
      · exact Nat.le_refl _
      · exact Nat.le_succ _

theorem Asks.not_task (h : Asks c a c' e) : a ≠ .step (.task n) r := by
  rintro rfl
  cases h with
  | close h => rcases h with h | h <;> cases h
  | aside h => exact h _ _ rfl

theorem Accounts.ask (h : Accounts ms c) (hS : c.Sound) (ha : Asks c a c' e) :
    Accounts (ms ++ [⟨c, a, c', e⟩]) c' := by
  have old : ∀ {n}, Resolved (ms ++ [⟨c, a, c', e⟩]) (.task n) ↔ Resolved ms (.task n) := by
    intro n
    rw [resolved_append, resolved_singleton]
    exact ⟨fun h => h.elim (fun h => h) fun ⟨r, hr, _⟩ => absurd hr ha.not_task, .inl⟩
  refine ⟨?_, ?_, ?_, ?_⟩
  · intro w hw
    rcases reads_append.mp hw with hw | hw
    · obtain ⟨n, rfl, hn⟩ := h.pending hw
      refine ⟨n, rfl, hn.imp old.mpr ?_⟩
      rintro ⟨st, hs, hst⟩
      exact ⟨st, ha.keep hS hs, hst⟩
    · obtain ⟨rfl, hw⟩ := reads_singleton.mp hw
      cases ha with
      | read =>
          cases hw
          exact ⟨_, rfl, .inr ⟨_, by rw [stage?_spawn hS, Function.update_self], rfl⟩⟩
      | close h => rcases h with h | h <;> cases h
      | aside => cases hw
  · intro n hn
    obtain ⟨hs, hlt⟩ := h.done (old.mp hn)
    refine ⟨?_, Nat.lt_of_lt_of_le hlt ha.nextTask⟩
    rcases ha.table hS with he | ⟨st, he, -⟩ <;> rw [he]
    · exact hs
    · rwa [Function.update_of_ne (Nat.ne_of_lt hlt)]
  · intro n g hs
    rw [reads_append]
    rcases ha.fresh hS hs with hs | ⟨rfl, ⟨⟨_, h⟩, -⟩ | ⟨-, -, rfl, hw⟩ | ⟨h, -⟩⟩
    · exact .inl (h.reads hs)
    · cases h
    · exact .inr (reads_singleton.mpr ⟨rfl, hw⟩)
    · cases h
  · intro n o k hs
    rcases ha.fresh hS hs with hs | ⟨-, ⟨⟨_, h⟩, -⟩ | ⟨h, -⟩ | ⟨h, -⟩⟩
    · exact h.ending hs
    · cases h
    · cases h
    · cases h

theorem resolved_turn : Resolved [⟨c, .step (.task id) r, c', { outcome := out }⟩] (.task n) ↔
    n = id ∧ out.isSome = true := by
  rw [resolved_singleton]
  constructor
  · rintro ⟨r', he, ho⟩
    cases he
    exact ⟨rfl, ho⟩
  · rintro ⟨rfl, ho⟩
    exact ⟨r, rfl, ho⟩

theorem not_reads_turn : ¬ Reads [⟨c, .step (.task id) r, c', { outcome := out }⟩] w := by
  intro hw
  cases (reads_singleton.mp hw).1

theorem Accounts.turn (h : Accounts ms c) (hS : c.Sound) (hs : c.stage? id = some stage)
    (ht : Turn c id stage r c₁ next out) :
    Accounts (ms ++ [⟨c, .step (.task id) r, c₁.place id next, { outcome := out }⟩])
      (c₁.place id next) := by
  have mine := ht.mine hs
  have hnext : (c₁.place id next).nextTask = c.nextTask := by
    rw [← ht.table.2]
    cases next <;> rfl
  refine ⟨?_, ?_, ?_, ?_⟩
  · intro w hw
    obtain ⟨i, rfl, hi⟩ := h.pending ((reads_append.mp hw).resolve_right not_reads_turn)
    refine ⟨i, rfl, ?_⟩
    rw [resolved_append, resolved_turn]
    rcases hi with hi | ⟨st, hst, hread⟩
    · exact .inl (.inl hi)
    · by_cases hin : i = id
      · subst hin
        obtain rfl : st = stage := Option.some.inj (hst.symm.trans hs)
        rcases ht.of_isRead hread with ⟨st', rfl, hst'⟩ | ⟨-, ho⟩
        · exact .inr ⟨st', mine, hst'⟩
        · exact .inl (.inr ⟨rfl, ho⟩)
      · exact .inr ⟨st, (ht.other hs hin).trans hst, hread⟩
  · intro i hi
    rw [resolved_append, resolved_turn] at hi
    rw [hnext]
    rcases hi with hi | ⟨rfl, ho⟩
    · obtain ⟨hnone, hlt⟩ := h.done hi
      have hin : i ≠ id := by
        rintro rfl
        cases hs.symm.trans hnone
      exact ⟨(ht.other hs hin).trans hnone, hlt⟩
    · exact ⟨mine.trans (ht.done_of_outcome ho), hS.lt hs⟩
  · intro i g hi
    rw [reads_append]
    by_cases hin : i = id
    · subst hin
      obtain ⟨g', rfl⟩ := ht.to_reading (mine.symm.trans hi)
      exact .inl (h.reads hs)
    · exact .inl (h.reads ((ht.other hs hin).symm.trans hi))
  · intro i o k hi
    by_cases hin : i = id
    · subst hin
      rcases ht.to_ending (mine.symm.trans hi) with ⟨k', rfl⟩ | ho
      · exact h.ending hs
      · exact ho
    · exact h.ending ((ht.other hs hin).symm.trans hi)

/-- The accounts are kept wherever a run gets to. -/
theorem accounts_of_run (h : (machine t).Run ms c) : Accounts ms c := by
  induction h with
  | start =>
      refine ⟨?_, ?_, fun hs => (by cases hs), fun hs => (by cases hs)⟩
      · rintro w ⟨m, hm, -⟩
        cases hm
      · rintro n ⟨m, hm, -⟩
        cases hm
  | @next ms c a c' e hr _ hp ih =>
      have hS := sound_of_run hr
      cases does_of_perform hp with
      | ask ha => exact ih.ask hS ha
      | turn hs ht => exact ih.turn hS hs ht

/-! ## Reads get in line -/

/-- Whoever lets no read get in line brings a stream, or is there because the connection was
closed. -/
theorem calls_of_bars (h : Link.Activity.bars stage.activity = true) :
    stage.calls = true ∨ stage.closes = true := by
  cases stage <;> first | exact .inl rfl | exact .inr rfl | cases h

theorem link_ordered_of_run (h : (machine t).Run ms c) : c.link.Ordered (activities c.stage?) := by
  induction h with
  | start => exact Link.ordered_create t
  | @next ms c a c' e hr _ hp ih =>
      have hS := sound_of_run hr
      have hO := once_of_run hr
      cases does_of_perform hp with
      | ask ha => exact (ha.link hS).ordered ih hS.link
      | @turn n st r c₁ next out hs ht =>
          rw [place_link, ht.roles hs]
          refine ht.link.ordered ih hS.link (activities_of_stage hs) ?_ ?_
          · intro x _ hx
            obtain ⟨st', hn, hst'⟩ := Option.bind_eq_some_iff.mp hx
            obtain ⟨target, rfl⟩ := attaching_of_activity hst'
            exact (hO.unused (.inr ⟨n, st, hs, ht.to_calls hn rfl⟩)).link.isOpen
          · intro x hst hx m hm
            obtain ⟨target, rfl⟩ := attaching_of_activity hst
            rcases ht.of_attaching with ⟨_, -, rfl⟩ | ⟨rfl, -⟩ | ⟨rfl, hcl⟩
            · cases hx
            · cases hx
            · -- Nobody else brings a stream, and nobody closes before the connection is closed.
              cases hsm : c.stage? m with
              | none => simp [activities, hsm, Link.Activity.bars]
              | some stm =>
                  rw [activities_of_stage hsm]
                  by_contra hb
                  rcases calls_of_bars (by simpa using hb) with h | h
                  · exact hm (hO.unique hsm hs h rfl)
                  · exact hcl (hO.closes hsm h)

/-! ## Reads after the connection was closed -/

theorem took_append (h : Took ms) : Took (ms ++ ns) := by
  obtain ⟨m, hm, h⟩ := h
  exact ⟨m, List.mem_append_left _ hm, h⟩

theorem ended_append (h : Ended ms) : Ended (ms ++ ns) := by
  obtain ⟨m, hm, h⟩ := h
  exact ⟨m, List.mem_append_left _ hm, h⟩

theorem Turn.took (h : Turn c id (.reading (.reading x)) r c₁ next out)
    (hp : c.link.wake.pending.isSome = true) : r = .go := by
  cases h with
  | read h | report h | lose h => exact Link.go_of_resumeReading h hp
  | close hc | closed hc => cases hc

theorem Unused.reads (h : c.Unused) (n : Nat) :
    Link.Activity.reads (activities c.stage? n) = false := by
  cases ha : activities c.stage? n with
  | none => rfl
  | some b =>
      cases b with
      | reading g => exact absurd (stage_of_reading ha) (h.unread n g)
      | attaching | closing => rfl

/-- A closed connection is deaf to its peer, until a read takes the signal; if no read ended it. -/
theorem deaf_of_run (h : (machine t).Run ms c) (hc : c.phase = .closed) :
    c.link.Deaf (activities c.stage?) ∨ Took ms ∨ Ended ms := by
  induction h with
  | start => cases hc
  | @next ms c a c' e hr _ hp ih =>
      have hS := sound_of_run hr
      have hO := once_of_run hr
      have later : Took ms ∨ Ended ms → Took (ms ++ [⟨c, a, c', e⟩]) ∨
          Ended (ms ++ [⟨c, a, c', e⟩]) := Or.imp took_append ended_append
      cases does_of_perform hp with
      | ask ha =>
          by_cases hcl : c.phase = .closed
          · exact (ih hcl).imp (ha.link hS).deaf later
          · -- The connection is closed right now.
            left; left
            cases ha with
            | @close _ background _ _ hopen =>
                change (c.close background).link.wake.pending.isSome = true
                rw [close_link hopen]
                change (c.link.wake.signal .close).pending.isSome = true
                simp
            | connect => cases hc
            | read | write | aside | send => exact absurd hc hcl
      | @turn n st r c₁ next out hs ht =>
          rw [place_phase] at hc
          by_cases hcl : c.phase = .closed
          · rcases ih hcl with hdeaf | h
            · rw [place_link, ht.roles hs]
              rcases ht.link.deaf (link_ordered_of_run hr) hS.link (activities_of_stage hs)
                (hO.shut hcl) hdeaf with h | ⟨x, hact, hpend⟩
              · exact .inl h
              · have hg := stage_of_reading ((activities_of_stage hs).trans hact)
                obtain rfl := Option.some.inj (hs.symm.trans hg)
                obtain rfl := ht.took hpend
                exact .inr (.inl ⟨_, List.mem_append_right _ (List.mem_singleton_self _), hcl, n, x,
                  hs, rfl⟩)
            · exact .inr (later h)
          · rcases ht.ends hcl hc with ⟨⟨target, rfl⟩, hl, rfl⟩ | ⟨⟨x, result, rfl, rfl⟩, -⟩
            · have hu := hO.unused (.inr ⟨n, _, hs, rfl⟩)
              left; right
              intro i
              rw [ht.roles hs]
              by_cases hi : i = n
              · subst hi; simp [Link.Activity.reads]
              · rw [Function.update_of_ne hi]
                exact hu.reads i
            · exact .inr (.inr ⟨_, List.mem_append_right _ (List.mem_singleton_self _), hcl,
                by rw [place_phase]; exact hc, n, x, result, hs, rfl⟩)

theorem took_of_listens (h : (machine t).Run ms c) (hc : c.phase = .closed) (hl : c.Listens) :
    Took ms ∨ Ended ms :=
  (deaf_of_run h hc).resolve_left fun hd => hd.not_listens hl

theorem Turn.data {bytes : Bytes} (h : Turn c id stage r c₁ next out)
    (ho : out = some (.data bytes)) (hs : ∀ o k, stage = .ending o k → ∀ bytes, o ≠ .data bytes) :
    (∃ x, stage = .reading (.reading x)) ∧ r = .read (.ok bytes) ∧ bytes ≠ [] ∧
      c.link.wake.pending = none ∧ bytes.length ≤ c.link.readSize := by
  cases h with
  | @report g r link ev hr =>
      obtain rfl : ev = .data bytes := by
        cases ev <;> cases ho
        rfl
      obtain ⟨⟨x, rfl⟩, h⟩ := Link.data_of_resumeReading hr
      exact ⟨⟨x, rfl⟩, h⟩
  | closed hc =>
      cases hc with
      | ending =>
          cases ho
          exact absurd rfl (hs _ _ rfl bytes)
      | abandoning | closing => cases ho
  | _ => cases ho

/-- Data is reported by a read that gets it as the answer. -/
theorem data_of_perform {bytes : Bytes} (h : (machine t).Run ms c) (hp : c.perform a = some (c', e))
    (ho : e.outcome = some (.data bytes)) : ∃ n x, a = .step (.task n) (.read (.ok bytes)) ∧
      c.stage? n = some (.reading (.reading x)) ∧ bytes ≠ [] ∧ c.link.wake.pending = none ∧
      bytes.length ≤ c.link.readSize := by
  cases does_of_perform hp with
  | turn hs ht =>
      obtain ⟨⟨x, rfl⟩, rfl, h⟩ := ht.data ho fun o k he => (accounts_of_run h).ending (he ▸ hs)
      exact ⟨_, x, rfl, hs, h⟩
  | ask ha =>
      cases ha with
      | @send _ _ _ result =>
          cases result with
          | none => cases ho
          | some result => cases result <;> cases ho
      | connect | read | write | close | aside => cases ho

/-- A read that gets what it asked for is over. -/
theorem perform_of_read {bytes : Bytes} (hs : c.stage? n = some (.reading (.reading x)))
    (hp : c.link.wake.pending = none) (hlen : bytes.length ≤ c.link.readSize) :
    ∃ c', c.perform (.step (.task n) (.read (.ok bytes))) =
      some (c', { outcome :=
        ({ c with link := c.link.leaveReader }.seen n (.ofRead (.ok bytes))).2 }) := by
  obtain ⟨u, hu, hst⟩ := Option.map_eq_some_iff.mp hs
  simp only [perform, resume, hu, hst, resumeStage, Link.resumeReading_answer hp hlen,
    Option.bind_some, Option.map_some]
  exact ⟨_, rfl⟩

/-- Whoever listens can get data, and nobody else. -/
theorem hears_iff (h : (machine t).Run ms c) : c.Hears ↔ c.Listens ∧ 0 < c.link.readSize := by
  constructor
  · rintro ⟨a, c', e, bytes, hp, ho⟩
    obtain ⟨n, x, -, hs, hb, hpend, hlen⟩ := data_of_perform h hp ho
    exact ⟨⟨hpend, n, x, activities_of_stage hs⟩,
      Nat.lt_of_lt_of_le (List.length_pos_iff.mpr hb) hlen⟩
  · rintro ⟨⟨hpend, n, x, hact⟩, hsize⟩
    have hlen : ([0] : Bytes).length ≤ _ := hsize
    obtain ⟨c', hp⟩ := perform_of_read (stage_of_reading hact) hpend hlen
    exact ⟨_, c', _, [0], hp, rfl⟩

/-! ## Streams are shut down -/

theorem shutDown_append (h : ShutDown ms x) : ShutDown (ms ++ ns) x := by
  obtain ⟨m, hm, h⟩ := h
  exact ⟨m, List.mem_append_left _ hm, h⟩

theorem handed_append : handed (ms ++ ns) = handed ms ++ handed ns := by simp [handed]

theorem stream?_eq (st : Stage) : st.stream? = Link.held st.activity := by
  cases st <;> rfl

theorem ask_task (hs : c.stage? n = some stage) : c.ask (.task n) = c.askStage (.task n) stage := by
  obtain ⟨u, hu, rfl⟩ := Option.map_eq_some_iff.mp hs
  simp [ask, hu]

theorem askStage_activity (c : Connection) (n : Nat) (h : stage.activity = some act) :
    c.askStage (.task n) stage = act.ask c.link (.task n) := by
  cases stage <;> cases h <;> rfl

theorem ask_of_activity (hs : activities c.stage? n = some act) :
    c.ask (.task n) = act.ask c.link (.task n) := by
  obtain ⟨st, hs, hst⟩ := Option.bind_eq_some_iff.mp hs
  rw [ask_task hs, askStage_activity c n hst]

/-- Whoever holds the writing half of a stream goes on to hold it until it is shut down. -/
theorem Turn.keeps (hO : c.Once) (h : Turn c id stage r c₁ next out)
    (hs : c.stage? id = some stage)
    (hx : c.link.queue.stream = some x ∨ stage.stream? = some x) :
    (c₁.link.queue.stream = some x ∨ next.bind Stage.stream? = some x) ∨
      c.ask (.task id) = .call (.shutdown x) := by
  have bare : ∀ y, stage.activity = some (.attaching (.writer y)) →
      c.link.queue.stream = none := by
    intro y hact
    obtain ⟨target, rfl⟩ := attaching_of_activity hact
    exact (hO.unused (.inr ⟨id, _, hs, rfl⟩)).link.sink
  rw [stream?_eq] at hx
  rcases h.link.keeps bare hx with (h' | h') | h'
  · exact .inl (.inl h')
  · left; right
    cases next with
    | none => cases h'
    | some st => exact (stream?_eq st).trans h'
  · exact .inr (ask_of_activity ((activities_of_stage hs).trans h'))

theorem connected_of_stream? (hx : (Act.step w r).stream? = some x) : r = .connected (.ok x) := by
  unfold Act.stream? at hx
  split at hx
  · rename_i he
    cases he
    cases hx
    rfl
  · cases hx

/-- A stream is handed over to the task that waits for it. -/
theorem Turn.brings (h : Turn c id stage r c₁ next out)
    (hx : (Act.step (.task id) r).stream? = some x) :
    (∃ target, stage = .connecting target) ∧ next.bind Stage.stream? = some x := by
  obtain rfl := connected_of_stream? hx
  cases h with
  | beginAttach => exact ⟨⟨_, rfl⟩, rfl⟩
  | attach h | abandon h | opened h => cases Link.reply_of_resumeAttach h
  | read h | report h | lose h => rcases Link.reply_of_resumeReading h with h | ⟨_, h⟩ <;> cases h
  | close _ h | closed _ h => rcases Link.reply_of_resumeClosing h with h | h <;> cases h

theorem Asks.brings (h : Asks c a c' e) : a.stream? = none := by
  cases h with
  | connect | read | write => rfl
  | close h => rcases h with rfl | rfl <;> rfl
  | @aside a _ _ h =>
      cases a with
      | step w r => exact absurd rfl (h w r)
      | _ => rfl
  | send hr =>
      by_contra hx
      obtain ⟨x, hx⟩ := Option.ne_none_iff_exists'.mp hx
      obtain rfl := connected_of_stream? hx
      rcases Link.reply_of_resumeWrite hr with h | ⟨_, h⟩ | ⟨_, h⟩ <;> cases h

/-- A stream is held at the writing half, by the link or by a task. -/
def Keeps (c : Connection) (x : StreamId) : Prop :=
  c.link.queue.stream = some x ∨ ∃ n st, c.stage? n = some st ∧ st.stream? = some x

/-- A stream that was handed over is held until it is shut down. -/
theorem kept_of_run (h : (machine t).Run ms c) (hx : x ∈ handed ms) : c.Keeps x ∨ ShutDown ms x := by
  induction h with
  | start => cases hx
  | @next ms c a c' e hr _ hp ih =>
      have hS := sound_of_run hr
      rw [handed_append, List.mem_append] at hx
      cases does_of_perform hp with
      | ask ha =>
          have hx : x ∈ handed ms := by
            refine hx.resolve_right fun hx => ?_
            simp [handed, ha.brings] at hx
          rcases ih hx with (h | ⟨i, st, hi, hst⟩) | h
          · exact .inl (.inl ((ha.link hS).sink.trans h))
          · exact .inl (.inr ⟨i, st, ha.keep hS hi, hst⟩)
          · exact .inr (shutDown_append h)
      | @turn n st r c₁ next out hs ht =>
          have mine : (c₁.link.queue.stream = some x ∨ next.bind Stage.stream? = some x) →
              (c₁.place n next).Keeps x := by
            rintro (h | h)
            · exact .inl (by rw [place_link]; exact h)
            · obtain ⟨st', rfl, hst'⟩ := Option.bind_eq_some_iff.mp h
              exact .inr ⟨n, st', ht.mine hs, hst'⟩
          have goes := fun h => (ht.keeps (once_of_run hr) hs (x := x) h).imp mine
            fun hask => (⟨_, List.mem_append_right _ (List.mem_singleton_self _), n, r, rfl, hask⟩ :
              ShutDown (ms ++ [⟨c, .step (.task n) r, c₁.place n next, { outcome := out }⟩]) x)
          rcases hx with hx | hx
          · rcases ih hx with (h | ⟨i, st', hi, hst'⟩) | h
            · exact goes (.inl h)
            · by_cases hin : i = n
              · subst hin
                obtain rfl := Option.some.inj (hi.symm.trans hs)
                exact goes (.inr hst')
              · exact .inl (.inr ⟨i, st', (ht.other hs hin).trans hi, hst'⟩)
            · exact .inr (shutDown_append h)
          · -- The stream comes right now.
            have hx : (Act.step (.task n) r).stream? = some x := by simpa [handed] using hx
            exact .inl (mine (.inr (ht.brings hx).2))

/-! ## What is held is released -/

/-- A task is still to begin to close the link. -/
def Late (c : Connection) : Prop := ∃ n, c.stage? n = some .leaving

theorem Turn.of_leaving (h : Turn c id .leaving r c₁ next out) : next = some (.closing .reader) := by
  cases h with
  | leave => rfl
  | close hc | closed hc => cases hc

theorem guarded_turn (hg : c.link.Guarded (activities c.stage?) c.Late)
    (hs : c.stage? id = some stage) (ht : Turn c id stage r c₁ next out) (hp : c.phase = .closed) :
    (c₁.place id next).link.Guarded (activities (c₁.place id next).stage?)
      (c₁.place id next).Late := by
  rw [place_link, ht.roles hs]
  by_cases hc : next.bind Stage.activity = some (.closing .reader)
  · exact .of_closing (n := id) (by rw [Function.update_self, hc])
  · have hg' := ht.link.guarded hg (activities_of_stage hs) fun x hact => ?_
    · refine hg'.mono ?_
      rintro ⟨n, hn⟩
      by_cases hne : n = id
      · subst hne
        obtain rfl := Option.some.inj (hs.symm.trans hn)
        rw [ht.of_leaving] at hc
        exact absurd rfl hc
      · exact ⟨n, (ht.other hs hne).trans hn⟩
    · obtain ⟨target, rfl⟩ := attaching_of_activity hact
      rcases ht.of_attaching with ⟨_, h, -⟩ | ⟨rfl, -⟩ | ⟨-, h⟩
      · cases h
      · rfl
      · exact absurd hp h

/-- When a connection is closed, somebody is there to release what it holds. -/
theorem guarded_of_closed (h : (machine t).Run (ms ++ [m]) c) (hm : ClosedAt m) :
    c.link.Guarded (activities c.stage?) c.Late := by
  obtain ⟨hopen, hc, h₁, h₂⟩ := hm
  obtain ⟨hr, -, hp, rfl⟩ := h.unsnoc
  have hS := sound_of_run hr
  generalize m.after = c₁ at hc hp ⊢
  generalize m.effect = e at hp
  generalize m.act = a at h₁ h₂ hp
  cases does_of_perform hp with
  | ask ha =>
      have late : ∀ owned, ({ m.before.close true with owned } : Connection).Late := by
        intro owned
        refine ⟨m.before.nextTask, ?_⟩
        change (m.before.close true).stage? m.before.nextTask = some .leaving
        rw [close_eq hopen, if_pos rfl, stage?_spawn hS.shut]
        exact Function.update_self ..
      cases ha with
      | @close _ background owned hact =>
          cases background with
          | true => exact (Link.Guarded.of_late _ _).mono fun _ => late owned
          | false => rcases hact with rfl | rfl <;> contradiction
      | connect => cases hc
      | read | write | aside | send => exact absurd hc hopen
  | @turn n st r c₁ next out hs ht =>
      rw [place_phase] at hc
      rw [place_link, ht.roles hs]
      rcases ht.ends hopen hc with ⟨⟨target, rfl⟩, hl, -⟩ | ⟨-, -, o, rfl⟩
      · have hb := ((once_of_run hr).unused (.inr ⟨n, _, hs, rfl⟩)).link
        rw [hl]
        exact ⟨fun x hx => (by cases hb.stream.symm.trans hx),
          fun x hx => (by cases hb.sink.symm.trans hx)⟩
      · exact .of_closing (n := n) (Function.update_self ..)

theorem closedAt_of_close (h : (machine t).Run (ms ++ m :: ns) c) (hp : m.before.phase ≠ .closed)
    (ha : m.act = .close true) : ClosedAt m := by
  obtain ⟨-, -, hm, -⟩ := h.moment
  rw [ha] at hm
  refine ⟨hp, ?_, by simp [ha], by simp [ha]⟩
  rw [← (Prod.mk.inj (Option.some.inj hm)).1]
  exact close_phase _ true

/-- Whatever a closed connection holds is going to be released. -/
theorem guarded_of_run (h : (machine t).Run (ms ++ m :: ns) c) (hm : ClosedAt m) :
    c.phase = .closed ∧ c.link.Guarded (activities c.stage?) c.Late := by
  have hrun : (machine t).Run ((ms ++ [m]) ++ ns) c := by simpa using h
  refine hrun.since (P := fun _ c => c.phase = .closed ∧
    c.link.Guarded (activities c.stage?) c.Late) ?_ ?_
  · intro c₀ h₀
    exact ⟨h₀.unsnoc.2.2.2 ▸ hm.2.1, guarded_of_closed h₀ hm⟩
  · rintro ns c a c' e hr - hp ⟨hc, hg⟩
    have hS := sound_of_run hr
    cases does_of_perform hp with
    | ask ha =>
        refine ⟨ha.phase.1 hc, (ha.link hS).guarded hg ?_⟩
        rintro ⟨n, hn⟩
        exact ⟨n, ha.keep hS hn⟩
    | turn hs ht => exact ⟨by rw [place_phase]; exact ht.phase.1 hc, guarded_turn hg hs ht hc⟩

/-! ## At rest -/

theorem Rests.not_ready (h : c.Rests calls) (w : Worker) : c.ask w ≠ .ready := by
  rcases h w with hw | ⟨k, hw, -⟩ <;> simp [hw]

theorem Rests.call (h : c.Rests calls) {k : Call} (hw : c.ask w = .call k) : calls k := by
  rcases h w with hw' | ⟨k', hw', hk⟩
  · cases hw.symm.trans hw'
  · cases hw.symm.trans hw'
    exact hk

theorem Rests.link (h : c.Rests calls) : c.link.Resting (activities c.stage?) where
  task {n act} ha := by
    rw [← ask_of_activity ha]
    exact h.not_ready _
  write id := h.not_ready (.write id)

theorem rests_of_workers
    (h : ∀ w ∈ c.workers, c.ask w = .blocked ∨ ∃ k, c.ask w = .call k ∧ calls k) :
    c.Rests calls := by
  intro w
  by_cases hw : w ∈ c.workers
  · exact h w hw
  · left
    cases w with
    | task n =>
        have hn : c.tasks.find? (·.id = n) = none := by
          rw [List.find?_eq_none]
          intro u hu hn
          exact hw (List.mem_append_left _ (List.mem_map.mpr ⟨u, hu, by simpa using hn⟩))
        simp [ask, hn]
    | write n =>
        have hn : c.link.queue.stage? n = none := by
          rw [WriteQueue.stage?, Option.map_eq_none_iff, List.find?_eq_none]
          intro u hu hn
          exact hw (List.mem_append_right _ (List.mem_map.mpr ⟨u, hu, by simpa using hn⟩))
        simp [ask, Link.askWrite, WriteQueue.ask, hn]

/-- A closed connection at rest that does not listen has no task left. -/
theorem Rests.done (hr : c.Rests Link.Passive) (hS : c.Sound) (ho : c.link.isOpen = false)
    (hl : ¬ c.Listens) (n : Nat) : c.stage? n = none := by
  have hidle : activities c.stage? n = none := by
    refine hr.link.idle hS.link ho (fun m x hm => ?_) hl n
    exact hr.call (w := .task m) (k := .shutdown x) (ask_of_activity hm)
  by_contra hs
  obtain ⟨st, hs⟩ := Option.ne_none_iff_exists'.mp hs
  have hst := (activities_of_stage hs).symm.trans hidle
  cases st with
  | connecting target => exact hr.call ((ask_task hs).trans rfl)
  | leaving => exact hr.not_ready (.task n) ((ask_task hs).trans rfl)
  | _ => cases hst

theorem streams_eq_nil (h : ∀ n, c.stage? n = none) (h₁ : c.link.stream = none)
    (h₂ : c.link.queue.stream = none) : c.streams = [] := by
  have ht : c.tasks = [] := by
    by_contra ht
    obtain ⟨u, us, ht⟩ := List.exists_cons_of_ne_nil ht
    simpa [stage?, Tasks.stageOf, ht] using h u.id
  simp [streams, ht, h₁, h₂]

/-- A connection that was closed is wound up, once it is at rest, just if it does not listen. -/
theorem wound_up_iff (h : (machine t).Run (ms ++ m :: ns) c) (hm : ClosedAt m)
    (hr : c.Rests Link.Passive) : WoundUp (ms ++ m :: ns) c ↔ ¬ c.Listens := by
  have hS := sound_of_run h
  have hacc := accounts_of_run h
  constructor
  · rintro hw ⟨-, n, x, hact⟩
    have hs := stage_of_reading hact
    cases hs.symm.trans (hacc.done (hw.reads _ (hacc.reads hs))).1
  · intro hl
    obtain ⟨hc, hg⟩ := guarded_of_run h hm
    have hdone := hr.done hS ((once_of_run h).shut hc) hl
    have hidle : ∀ n, activities c.stage? n = none := by
      intro n
      rw [activities, hdone n]
      rfl
    have late : ¬ c.Late := by
      rintro ⟨n, hn⟩
      cases (hdone n).symm.trans hn
    have hstream : c.link.stream = none := by
      by_contra hx
      obtain ⟨x, hx⟩ := Option.ne_none_iff_exists'.mp hx
      obtain ⟨n, hn⟩ := (hg.reader x hx).resolve_left late
      cases (hidle n).symm.trans hn
    have hsink : c.link.queue.stream = none := by
      by_contra hx
      obtain ⟨x, hx⟩ := Option.ne_none_iff_exists'.mp hx
      obtain ⟨n, hn | hn⟩ := (hg.writer x hx).resolve_left late <;> cases (hidle n).symm.trans hn
    refine ⟨?_, streams_eq_nil hdone hstream hsink, ?_⟩
    · intro w hw
      obtain ⟨i, rfl, hi | ⟨st, hi, -⟩⟩ := hacc.pending hw
      · exact hi
      · cases (hdone i).symm.trans hi
    · intro x hx
      refine (kept_of_run h hx).resolve_left ?_
      rintro (h | ⟨n, st, hs, -⟩)
      · cases hsink.symm.trans h
      · cases (hdone n).symm.trans hs

end Rfcomm.Connection
