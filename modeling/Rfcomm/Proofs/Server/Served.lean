import Rfcomm.Proofs.Server.Sound
/-!
How a server that was not closed serves. At any time at most one task is about to get a client or to
give one up, and what the server holds is as the stage of that task says; without such a task the
server is idle or has a client. What it tells of its clients is in step with this.
-/
namespace Rfcomm.Server

/-- Whether a task at a stage is about to get a client or to give one up. -/
def Stage.serves : Stage → Bool
  | .binding _ | .registering _ _ | .noting _ _ | .watching | .accepting _ | .pausing
  | .welcoming _ _ _ | .attaching _ _ | .losing _ | .releasing _ => true
  | _ => false

/-- Whether a task at a stage is there because the server was closed. -/
def Stage.closes : Stage → Bool
  | .undoing _ | .refusing _ | .leaving | .retiring _ | .closing _ => true
  | _ => false

/-- Whether a task at a stage gets the next client. -/
def Stage.accepts : Stage → Bool
  | .watching | .accepting _ | .pausing | .welcoming _ _ _ | .attaching _ _ => true
  | _ => false

/-- What matters of a server for what it serves. -/
structure View where
  phase : Phase
  generation : Nat
  client : Option Client
  lastClient : Option Address
  stream : Handle
  sink : Handle
  isOpen : Bool
  listener : Option ListenerId
  advertisement : Option Advertisement
  sending : Bool

/-- What matters of a server for what it serves. -/
def view (s : Server) : View where
  phase := s.phase
  generation := s.generation
  client := s.client
  lastClient := s.lastClient
  stream := s.link.stream
  sink := s.link.queue.stream
  isOpen := s.link.isOpen
  listener := s.listener
  advertisement := s.advertisement
  sending := s.feed.sending

/-- Nobody is connected, and no stream is held. -/
structure View.Bare (v : View) : Prop where
  client : v.client = none
  stream : v.stream = none
  sink : v.sink = none
  isOpen : v.isOpen = false

/-- No client was there yet. -/
structure View.Early (v : View) : Prop where
  phase : v.phase = .idle ∨ v.phase = .listening
  generation : v.generation = 0
  bare : v.Bare

/-- The channel is bound and events are sent. -/
structure View.Ready (v : View) : Prop where
  listener : v.listener.isSome = true
  sending : v.sending = true

/-- The registration of the record is taken back. -/
def View.Withdrawn (v : View) : Prop := ∃ record, v.advertisement = some ⟨record, none⟩

/-- A caller is waited for. -/
structure View.Accepting (v : View) : Prop where
  phase : v.phase = .listening ∨ v.phase = .advertising
  bare : v.Bare
  ready : v.Ready
  advertisement : v.advertisement.isSome = true

/-- A client is there, with both halves of its stream. -/
structure View.Serving (v : View) (c : Client) (x : StreamId) : Prop where
  client : v.client = some c
  phase : v.phase = .accepted
  generation : c.generation = v.generation
  pos : 0 < v.generation
  lastClient : v.lastClient = some c.address
  stream : v.stream = some x
  sink : v.sink = some x
  ready : v.Ready
  withdrawn : v.Withdrawn

/-- What is still held of a stream that is being closed. -/
def View.Held (v : View) : Link.Closing → Prop
  | .reader => ∃ x, v.stream = some x ∧ v.sink = some x
  | .writer => v.stream = none ∧ ∃ x, v.sink = some x
  | .stream _ => v.stream = none ∧ v.sink = none

/-- How far giving a client up got. -/
def View.Left (v : View) : Releasing → Prop
  | .closing address final k => final = false ∧ v.lastClient = some address ∧ v.Held k
  | .waiting => v.stream = none ∧ v.sink = none
  | .registering record => v.stream = none ∧ v.sink = none ∧ v.advertisement = some ⟨record, none⟩

/-- A client is given up. -/
structure View.Losing (v : View) (k : Releasing) : Prop where
  client : v.client = none
  phase : v.phase = .accepted
  pos : 0 < v.generation
  isOpen : v.isOpen = false
  ready : v.Ready
  withdrawn : v.Withdrawn
  left : v.Left k

/-- What a server is like while a task that serves is at a stage, or while there is none. -/
def View.Fits (v : View) : Option Stage → Prop
  | none => v.Early ∨ ∃ c x, v.Serving c x
  | some (.binding _) | some (.registering _ _) => v.Early ∧ v.phase = .listening
  | some (.noting _ _) => v.Early ∧ v.phase = .listening ∧ v.listener.isSome = true
  | some .watching | some (.accepting _) | some .pausing | some (.welcoming _ _ .waiting) =>
    v.Accepting
  | some (.welcoming _ _ (.calling _)) | some (.attaching _ _) => v.Accepting ∧ v.Withdrawn
  | some (.losing k) | some (.releasing k) => v.Losing k
  | some _ => False

/-- The stage of the only task that serves, if there is one. No task is there that closes. -/
inductive Only (stages : Nat → Option Stage) : Option Stage → Prop
  | nobody : (∀ n st, stages n = some st → st.serves = false ∧ st.closes = false) →
      Only stages none
  | somebody {n st} : stages n = some st → st.serves = true →
      (∀ m st', stages m = some st' → m ≠ n → st'.serves = false ∧ st'.closes = false) →
      Only stages (some st)

/-! ## What is told of clients -/

/-- What is told of a client in the end. -/
def visit (c : Client) : List Event := [.connected c.address, .disconnected c.address]

/-- What a step tells of clients. -/
def Report.told (out : Report) : List Event :=
  out.events.filter fun v => match v with | .failure _ => false | _ => true

/-- The client that a step brought, if there is one that was not there before. -/
def fresh (before after : Option Client) : List Client :=
  if before.isNone then after.toList else []

/-- What is still to be told of the last client. -/
def owed (client : Option Client) : Option Stage → List Event
  | none => client.toList.map fun c => .disconnected c.address
  | some (.losing (.closing address _ _)) | some (.releasing (.closing address _ _)) =>
    [.disconnected address]
  | some _ => []

/-- Some task serves or none does, and the server is as its stage says. -/
def Serves (s : Server) (o : Option Stage) : Prop := Only s.stage? o ∧ s.view.Fits o

variable {s s' s₁ : Server} {id n : Nat} {stage st : Stage} {next : Option Stage} {r : Reply}
  {out : Report} {stages : Nat → Option Stage} {v v' : View} {a : Act} {e : Effect}

theorem closes_of_serves (h : st.serves = true) : st.closes = false := by
  cases st <;> first | rfl | cases h

theorem View.Accepting.busy (h : v.Accepting) :
    v.phase = .listening ∨ v.phase = .advertising ∨ v.phase = .accepted := by
  rcases h.phase with hp | hp
  · exact .inl hp
  · exact .inr (.inl hp)

theorem View.Fits.busy (h : v.Fits (some st)) :
    v.phase = .listening ∨ v.phase = .advertising ∨ v.phase = .accepted := by
  unfold View.Fits at h
  split at h
  all_goals first
    | exact .inl h.2
    | exact .inl h.2.1
    | exact View.Accepting.busy h
    | exact View.Accepting.busy h.1
    | exact .inr (.inr (View.Losing.phase h))
    | contradiction

theorem View.Fits.phase {o : Option Stage} (h : v.Fits o) : v.phase ≠ .closed := by
  intro hc
  cases o with
  | none =>
      rcases h with h | ⟨c, x, h⟩
      · rcases h.phase with hp | hp <;> rw [hc] at hp <;> cases hp
      · have := h.phase
        rw [hc] at this
        cases this
  | some st => rcases h.busy with hp | hp | hp <;> rw [hc] at hp <;> cases hp

/-! ## How the table changes -/

theorem Only.others {o : Option Stage} (h : Only stages o) (hs : stages n = some st)
    (hst : st.serves = true) : o = some st ∧
      ∀ m st', stages m = some st' → m ≠ n → st'.serves = false ∧ st'.closes = false := by
  cases h with
  | nobody hn => exact absurd hst (by simp [(hn n st hs).1])
  | @somebody m st' hm hst' ho =>
      by_cases he : n = m
      · subst he
        rw [hs] at hm
        cases hm
        exact ⟨rfl, ho⟩
      · exact absurd hst (by simp [(ho n st hs he).1])

theorem Only.not_closes {o : Option Stage} (h : Only stages o) (hs : stages n = some st) :
    st.closes = false := by
  cases hst : st.serves with
  | true => exact closes_of_serves hst
  | false =>
      cases h with
      | nobody hn => exact (hn n st hs).2
      | @somebody m st' hm hst' ho =>
          by_cases he : n = m
          · subst he
            rw [hs] at hm
            cases hm
            exact closes_of_serves hst'
          · exact (ho n st hs he).2

theorem Only.go {o : Option Stage} (h : Only stages o) (hs : stages n = some st)
    (hst : st.serves = true) {st' : Stage} (hst' : st'.serves = true) :
    Only (Function.update stages n (some st')) (some st') := by
  refine .somebody (n := n) (by simp) hst' ?_
  intro m st₁ hm hn
  exact (h.others hs hst).2 m st₁ (by simpa [hn] using hm) hn

theorem Only.stop {o : Option Stage} (h : Only stages o) (hs : stages n = some st)
    (hst : st.serves = true) : Only (Function.update stages n none) none := by
  refine .nobody ?_
  intro m st₁ hm
  by_cases hn : m = n
  · subst hn; simp at hm
  · exact (h.others hs hst).2 m st₁ (by simpa [hn] using hm) hn

/-- The task that serves is done, and another one waits for callers. -/
theorem Only.restart {o : Option Stage} (h : Only stages o) (hs : stages n = some st)
    (hst : st.serves = true) {m : Nat} (hm : stages m = none) :
    Only (Function.update (Function.update stages m (some .watching)) n none)
      (some .watching) := by
  have hmn : m ≠ n := by
    rintro rfl
    rw [hs] at hm
    cases hm
  refine .somebody (n := m) (by simp [hmn]) rfl ?_
  intro i st₁ hi hne
  by_cases hn : i = n
  · subst hn; simp at hi
  · exact (h.others hs hst).2 i st₁ (by simpa [hn, hne] using hi) hn

theorem Only.pass {o : Option Stage} (h : Only stages o)
    (hs : ∀ st, stages n = some st → st.serves = false)
    (hst : ∀ st, next = some st → st.serves = false ∧ st.closes = false) :
    Only (Function.update stages n next) o := by
  cases h with
  | nobody hn =>
      refine .nobody ?_
      intro m st₁ hm
      by_cases he : m = n
      · subst he; exact hst st₁ (by simpa using hm)
      · exact hn m st₁ (by simpa [he] using hm)
  | @somebody i st' hi hst' ho =>
      have hin : i ≠ n := by
        rintro rfl
        exact absurd hst' (by simp [hs st' hi])
      refine .somebody (n := i) (by simpa [hin] using hi) hst' ?_
      intro m st₁ hm hne
      by_cases he : m = n
      · subst he; exact hst st₁ (by simpa using hm)
      · exact ho m st₁ (by simpa [he] using hm) hne

theorem Only.begin (h : Only stages none) (hst : st.serves = true) :
    Only (Function.update stages n (some st)) (some st) := by
  cases h with
  | nobody hn =>
      refine .somebody (n := n) (by simp) hst ?_
      intro m st₁ hm hne
      exact hn m st₁ (by simpa [hne] using hm)

theorem View.Fits.client (h : v.Fits (some st)) : v.client = none := by
  unfold View.Fits at h
  split at h
  all_goals first
    | exact h.1.bare.client
    | exact h.bare.client
    | exact View.Losing.client h
    | contradiction

theorem View.Fits.of_client {o : Option Stage} {c : Client} (h : v.Fits o)
    (hc : v.client = some c) : o = none ∧ ∃ x, v.Serving c x := by
  cases o with
  | some st => rw [h.client] at hc; cases hc
  | none =>
      refine ⟨rfl, ?_⟩
      rcases h with h | ⟨c', x, h⟩
      · rw [h.bare.client] at hc; cases hc
      · obtain rfl : c' = c := by simpa [h.client] using hc
        exact ⟨x, h⟩

theorem View.Fits.of_idle {o : Option Stage} (h : v.Fits o) (hp : v.phase = .idle) :
    o = none ∧ v.Early := by
  cases o with
  | some st => rcases h.busy with h | h | h <;> rw [hp] at h <;> cases h
  | none =>
      refine ⟨rfl, ?_⟩
      rcases h with h | ⟨c, x, h⟩
      · exact h
      · have := h.phase
        rw [hp] at this
        cases this

/-! ## Every turn keeps what is served -/

theorem place_view (s : Server) : (s.place id next).view = s.view := by cases next <;> rfl

theorem emit_view (s : Server) (ev : Event) : (s.emit ev).1.view = s.view := by
  have hp : ∀ f : Feed, (f.push ev).sending = f.sending := by
    intro f
    unfold Feed.push
    split <;> rfl
  by_cases hs : s.feed.sending = true <;> simp [emit_fst, view, hs, hp]

theorem reading_frame {l l' : Link} {g : Link.Reading} {b : Option Link.Activity}
    (h : Link.Move l n (some (.reading g)) l' b) :
    l'.stream = l.stream ∧ l'.queue.stream = l.queue.stream ∧ l'.flag = l.flag := by
  cases h <;> exact ⟨rfl, rfl, rfl⟩

theorem held_of_closing {k : Link.Closing} {link : Link} {p : Progress Link.Closing Unit}
    (h : s.link.resumeClosing (.task id) k r = some (link, p)) (hk : s.view.Held k) :
    link.isOpen = s.link.isOpen ∧
      (∀ k', p = .more k' → ({ s with link } : Server).view.Held k') ∧
      (∀ u, p = .done u → link.stream = none ∧ link.queue.stream = none) := by
  have hm := Link.move_of_resumeClosing h
  cases p with
  | more k' =>
      refine ⟨?_, ?_, by simp⟩
      · cases hm <;> rfl
      · intro k₁ he
        cases he
        cases hm with
        | release =>
            obtain ⟨x, -, hx⟩ := hk
            exact ⟨rfl, x, hx⟩
        | takeOut => exact ⟨hk.1, rfl⟩
  | done u =>
      refine ⟨?_, by simp, ?_⟩
      · cases hm <;> rfl
      · intro _ _
        cases hm with
        | nothingThere _ hx => exact ⟨hk.1, hx⟩
        | shutDown => exact hk

theorem emit_told (hs : s.view.sending = true) (ev : Event) :
    (s.emit ev).2.told = Report.told { events := [ev] } := by
  rw [emit_snd, show s.feed.sending = true from hs]
  rfl

theorem emit_failure_told (s : Server) (text : String) : (s.emit (.failure text)).2.told = [] := by
  by_cases hs : s.feed.sending = true <;> simp [emit_snd, hs, Report.told]

/-- A client that is given up is still being released, and told of when its stream is gone. -/
theorem Releases.losing {k k' : Releasing} (h : Releases s id k r s₁ (some k') out)
    (hf : s.view.Losing k) : s₁.view.Losing k' ∧ s₁.nextTask = s.nextTask ∧
      out.told ++ owed none (some (.losing k')) = owed none (some (.losing k)) := by
  obtain ⟨hc, hp, hpos, ho, hr, hw, hl⟩ := hf
  cases h with
  | close h =>
      obtain ⟨ho', hk, -⟩ := held_of_closing h hl.2.2
      exact ⟨⟨hc, hp, hpos, ho'.trans ho, ⟨hr.1, hr.2⟩, hw, hl.1, hl.2.1, hk _ rfl⟩, rfl, rfl⟩
  | @line address _ _ link _ h =>
      obtain ⟨ho', -, hd⟩ := held_of_closing h hl.2.2
      have ht := emit_told (s := { s with link }) hr.2 (.disconnected address)
      refine ⟨?_, by rw [emit_fst]; rfl, by rw [ht]; rfl⟩
      change (({ s with link } : Server).emit (.disconnected address)).1.view.Losing .waiting
      rw [emit_view]
      exact ⟨hc, hp, hpos, ho'.trans ho, ⟨hr.1, hr.2⟩, hw, hd _ rfl⟩
  | @register a _ _ ha hs =>
      refine ⟨⟨hc, hp, hpos, ho, hr, hw, hl.1, hl.2, ?_⟩, rfl, rfl⟩
      obtain ⟨record, hrec⟩ := hw
      have he : a = ⟨record, none⟩ := Option.some.inj (ha.symm.trans hrec)
      rw [he]
      exact hrec

theorem rearmed_accepting {phase : Phase} (hp : phase = .listening ∨ phase = .advertising)
    (hc : s.phase ≠ .closed) (hb : s.view.Bare) (hr : s.view.Ready)
    (ha : s.view.advertisement.isSome = true) :
    (s.rearmed phase).view.Accepting ∧ (s.rearmed phase).nextTask = s.nextTask + 1 := by
  rcases rearmed_cases s phase with ⟨h, -⟩ | ⟨-, h⟩
  · exact absurd h hc
  · rw [h]
    exact ⟨⟨hp, ⟨hb.1, hb.2, hb.3, hb.4⟩, ⟨hr.1, hr.2⟩, ha⟩, rfl⟩

/-- Giving a client up ends with callers being waited for. -/
theorem Releases.gone {k : Releasing} (h : Releases s id k r s₁ none out)
    (hf : s.view.Losing k) : s₁.view.Accepting ∧ s₁.nextTask = s.nextTask + 1 ∧
      out.told = owed none (some (.losing k)) := by
  obtain ⟨hc, hp, hpos, ho, hr, ⟨record, hw⟩, hl⟩ := hf
  have hopen : s.phase ≠ .closed := by
    intro h
    have hp : s.phase = .accepted := hp
    rw [h] at hp
    cases hp
  cases h with
  | last => cases hl.1
  | late _ h => exact absurd h hopen
  | skip _ _ hs => cases hs _ hw
  | hold =>
      rw [← and_assoc]
      refine ⟨rearmed_accepting (.inr rfl) hopen ⟨hc, hl.1, hl.2.1, ho⟩ ⟨hr.1, hr.2⟩ ?_, rfl⟩
      change (s.advertisement.map _).isSome = true
      rw [show s.advertisement = some ⟨record, none⟩ from hw]
      rfl
  | @fail _ reason =>
      have hv : (s.leaveAdvertisement.emit (.failure (Error.advertise reason).message)).1.view =
          s.view := emit_view _ _
      have hb : s.view.Bare := ⟨hc, hl.1, hl.2.1, ho⟩
      have ha : s.view.advertisement.isSome = true := by rw [hw]; rfl
      obtain ⟨hacc, hn⟩ := rearmed_accepting
        (show Phase.listening = .listening ∨ Phase.listening = .advertising from .inl rfl)
        (fun h => hopen ((congrArg View.phase hv).symm.trans h)) (hv ▸ hb) (hv ▸ hr) (hv ▸ ha)
      exact ⟨hacc, hn.trans (by rw [emit_fst]; rfl), emit_failure_told _ _⟩

/-- Taking the advertisement back leaves the rest alone, and ends with it taken back. -/
theorem Withdraws.accepting {k : Withdrawing} {k' : Option Withdrawing}
    (h : Withdraws s id k r s₁ k') (hf : s.view.Accepting)
    (hw : ∀ session, k = .calling session → s.view.Withdrawn) :
    s₁.view.Accepting ∧ s₁.view.Withdrawn := by
  obtain ⟨hp, hb, hr, ha⟩ := hf
  cases h with
  | take => exact ⟨⟨hp, ⟨hb.1, hb.2, hb.3, hb.4⟩, ⟨hr.1, hr.2⟩, rfl⟩, _, rfl⟩
  | skip _ hs =>
      refine ⟨⟨hp, ⟨hb.1, hb.2, hb.3, hb.4⟩, ⟨hr.1, hr.2⟩, ha⟩, ?_⟩
      obtain ⟨⟨record, session⟩, had⟩ := Option.isSome_iff_exists.mp ha
      obtain rfl : session = none := hs _ had
      exact ⟨record, had⟩
  | withdrawn =>
      refine ⟨⟨hp, ⟨hb.1, hb.2, hb.3, hb.4⟩, ⟨hr.1, hr.2⟩, ha⟩, ?_⟩
      exact hw _ rfl

theorem View.Fits.welcoming {x : StreamId} {address : Address} {k : Withdrawing}
    (h : v.Fits (some (.welcoming x address k))) :
    v.Accepting ∧ ∀ session, k = .calling session → v.Withdrawn := by
  cases k with
  | waiting => exact ⟨h, by simp⟩
  | calling session => exact ⟨h.1, fun _ _ => h.2⟩

theorem reading_view {g : Link.Reading} {link : Link} {p : Progress Link.Reading Link.Seen}
    (h : s.link.resumeReading (.task id) g r = some (link, p)) :
    ({ s with link } : Server).view = s.view := by
  obtain ⟨h₁, h₂, h₃⟩ := reading_frame (Link.move_of_resumeReading h)
  simp [view, Link.isOpen, h₁, h₂, h₃]

theorem View.Serving.giveUp {c : Client} {x : StreamId} (h : s.view.Serving c x) :
    (s.giveUp id).view.Losing (.closing c.address (s.phase = .closed) .reader) := by
  have hp : s.phase = .accepted := h.phase
  exact ⟨rfl, h.phase, h.pos, rfl, ⟨h.ready.1, h.ready.2⟩, h.withdrawn, by simp [hp], h.lastClient,
    x, h.stream, h.sink⟩

theorem fresh_self (c : Option Client) : fresh c c = [] := by cases c <;> rfl

/-- A task gives its client up, whether its read failed or the client was sent away. -/
inductive Stage.GivesUp : Stage → Releasing → Prop
  | losing {k} : GivesUp (.losing k) k
  | releasing {k} : GivesUp (.releasing k) k

theorem Stage.GivesUp.fits_iff {k : Releasing} (h : st.GivesUp k) :
    v.Fits (some st) ↔ v.Losing k := by cases h <;> rfl

theorem Stage.GivesUp.owed {k : Releasing} (h : st.GivesUp k) (c : Option Client) :
    owed c (some st) = owed none (some (.losing k)) := by cases h <;> cases k <;> rfl

theorem Releases.keeps_up {k k' : Releasing} {st' : Stage} (h : Releases s id k r s₁ (some k') out)
    (hst : st.GivesUp k) (hst' : st'.GivesUp k') (hf : s.view.Fits (some st)) :
    s₁.nextTask = s.nextTask ∧ s₁.view.Fits (some st') ∧ out.told ++ owed s₁.client (some st') =
      owed s.client (some st) ++ (fresh s.client s₁.client).flatMap visit := by
  have hf := hst.fits_iff.mp hf
  obtain ⟨hl, hn, ht⟩ := h.losing hf
  refine ⟨hn, hst'.fits_iff.mpr hl, ?_⟩
  rw [hst'.owed, hst.owed, ht, show s.client = none from hf.client, show s₁.client = none from hl.client]
  simp [fresh]

theorem Releases.begins_anew {k : Releasing} (h : Releases s id k r s₁ none out)
    (hst : st.GivesUp k) (hf : s.view.Fits (some st)) :
    s₁.nextTask = s.nextTask + 1 ∧ s₁.view.Fits (some .watching) ∧
      out.told ++ owed s₁.client (some .watching) =
        owed s.client (some st) ++ (fresh s.client s₁.client).flatMap visit := by
  have hf := hst.fits_iff.mp hf
  obtain ⟨ha, hn, ht⟩ := h.gone hf
  refine ⟨hn, ha, ?_⟩
  rw [hst.owed, ht, show s.client = none from hf.client, show s₁.client = none from ha.bare.client]
  rfl

/-- Where nothing is told and the client stays, what is owed has to stay. -/
theorem quiet {told : List Event} {c c' : Option Client} {o o' : Option Stage} (ht : told = [])
    (hc : c' = c) (ho : owed c o' = owed c o) :
    told ++ owed c' o' = owed c o ++ (fresh c c').flatMap visit := by
  rw [ht, hc, fresh_self, ho]
  simp

/-- What comes after a server that serves: it serves again, and what was told of clients meanwhile
is in step with that. -/
def Serves.Next (s : Server) (o : Option Stage) (told : List Event) (s' : Server) : Prop :=
  ∃ o', s'.Serves o' ∧ told ++ owed s'.client o' =
    owed s.client o ++ (fresh s.client s'.client).flatMap visit

/-- When a task goes on, a server goes on to serve. -/
theorem Turn.serves {o : Option Stage} (hS : s.Sound) (h : s.Serves o)
    (hs : s.stage? id = some stage) (ht : Turn s id stage r s₁ next out) :
    Serves.Next s o out.told (s₁.place id next) := by
  have same := ht.table_of_same hS hs
  have more := ht.table_of_begun hS hs
  have hcl : (s₁.place id next).client = s₁.client := by cases next <;> rfl
  simp only [Serves.Next, Serves, place_view, hcl]
  obtain ⟨ho, hf⟩ := h
  have fits : stage.serves = true → o = some stage ∧ s.view.Fits (some stage) := by
    intro hst
    obtain ⟨rfl, -⟩ := ho.others hs hst
    exact ⟨rfl, hf⟩
  have closed : stage.closes = true → False := by
    intro hst
    rw [ho.not_closes hs] at hst
    cases hst
  cases ht with
  | bind =>
      obtain ⟨rfl, hf⟩ := fits rfl
      rw [same rfl]
      exact ⟨_, ⟨ho.go hs rfl rfl, hf⟩, quiet rfl rfl rfl⟩
  | notBound | notRegistered =>
      obtain ⟨rfl, ⟨-, hg, hb⟩, hp⟩ := fits rfl
      have hp : s.phase = .listening := hp
      have hn : s.resetListening = { s with phase := .idle } := by simp [resetListening, hp]
      rw [same (by rw [hn]), hn]
      refine ⟨none, ⟨ho.stop hs rfl, .inl ⟨.inl rfl, hg, ⟨hb.1, hb.2, hb.3, hb.4⟩⟩⟩, ?_⟩
      exact quiet rfl rfl (by rw [show s.client = none from hb.1]; rfl)
  | register =>
      obtain ⟨rfl, ⟨hi, hg, hb⟩, hp⟩ := fits rfl
      rw [same rfl]
      refine ⟨_, ⟨ho.go hs rfl rfl, ⟨hi, hg, ⟨hb.1, hb.2, hb.3, hb.4⟩⟩, hp, rfl⟩, ?_⟩
      exact quiet rfl rfl rfl
  | die =>
      obtain ⟨rfl, ⟨hi, hg, hb⟩, hp⟩ := fits rfl
      rw [same rfl]
      refine ⟨none, ⟨ho.stop hs rfl, .inl ⟨hi, hg, ⟨hb.1, hb.2, hb.3, hb.4⟩⟩⟩, ?_⟩
      exact quiet rfl rfl (by rw [show s.client = none from hb.1]; rfl)
  | late _ hc => exact absurd hc (fits rfl).2.phase
  | note =>
      obtain ⟨rfl, ⟨-, -, hb⟩, -, hl⟩ := fits rfl
      rw [more rfl]
      refine ⟨_, ⟨ho.restart hs rfl hS.fresh, .inr rfl, ⟨hb.1, hb.2, hb.3, hb.4⟩, ⟨hl, rfl⟩, rfl⟩, ?_⟩
      exact quiet rfl rfl rfl
  | undo | undone | refusing | refused | leave | retire | retired | closing | closed =>
      exact (closed rfl).elim
  | look hl =>
      rw [same rfl]
      cases hl
      all_goals
        obtain ⟨rfl, hf⟩ := fits rfl
        obtain ⟨l, hl⟩ := Option.isSome_iff_exists.mp (View.Accepting.ready hf).listener
        rw [show s.listener = some l from hl]
        exact ⟨_, ⟨ho.go hs rfl rfl, hf⟩, quiet rfl rfl rfl⟩
  | accept =>
      obtain ⟨rfl, hf⟩ := fits rfl
      rw [same rfl]
      exact ⟨_, ⟨ho.go hs rfl rfl, hf⟩, quiet rfl rfl rfl⟩
  | stumble =>
      obtain ⟨rfl, hf⟩ := fits rfl
      rw [same (by rw [emit_fst]), emit_view]
      refine ⟨_, ⟨ho.go hs rfl rfl, hf⟩, ?_⟩
      exact quiet (emit_failure_told _ _) (by rw [emit_fst]) rfl
  | @withdraw _ _ k _ _ k' hw =>
      obtain ⟨rfl, hf⟩ := fits rfl
      have hv := hw.accepting hf.welcoming.1 hf.welcoming.2
      have hfr := hw.frame
      rw [same (by obtain ⟨_, _, rfl⟩ := hfr; rfl)]
      refine ⟨_, ⟨ho.go hs rfl rfl, ?_⟩, quiet rfl (by obtain ⟨_, _, rfl⟩ := hfr; rfl) ?_⟩
      · cases k' with
        | waiting => exact hv.1
        | calling session => exact hv
      · cases k <;> cases k' <;> rfl
  | @beginAttach _ _ k _ _ hw =>
      obtain ⟨rfl, hf⟩ := fits rfl
      have hfr := hw.frame
      rw [same (by obtain ⟨_, _, rfl⟩ := hfr; rfl)]
      refine ⟨_, ⟨ho.go hs rfl rfl, hw.accepting hf.welcoming.1 hf.welcoming.2⟩, ?_⟩
      exact quiet rfl (by obtain ⟨_, _, rfl⟩ := hfr; rfl) rfl
  | attach ha =>
      obtain ⟨rfl, hf⟩ := fits rfl
      rw [same rfl]
      refine ⟨_, ⟨ho.go hs rfl rfl, ?_⟩, quiet rfl rfl rfl⟩
      cases Link.move_of_resumeAttach ha with
      | haveReader => exact hf
  | refuse _ hc => exact absurd hc (fits rfl).2.phase
  | @welcome address _ _ link _ ha =>
      obtain ⟨rfl, ⟨-, hb, hr, -⟩, hw⟩ := fits rfl
      have hs' : (({ s with link } : Server).welcome address).view.sending = true := hr.2
      rw [same (by rw [emit_fst]; rfl), emit_view, emit_told hs', emit_fst]
      refine ⟨none, ⟨ho.stop hs rfl, .inr ?_⟩, ?_⟩
      · cases Link.move_of_resumeAttach ha with
        | @attach x =>
            exact ⟨_, x, rfl, rfl, rfl, Nat.succ_pos _, rfl, rfl, rfl, ⟨hr.1, hr.2⟩, hw⟩
      · rw [show s.client = none from hb.1]
        rfl
  | read hr =>
      rw [same rfl, reading_view hr]
      refine ⟨o, ⟨ho.pass (by simp [hs, Stage.serves]) (by simp [Stage.serves, Stage.closes]), hf⟩, ?_⟩
      exact quiet rfl rfl rfl
  | report hr =>
      rw [same rfl, reading_view hr]
      exact ⟨o, ⟨ho.pass (by simp [hs, Stage.serves]) (by simp), hf⟩, quiet rfl rfl rfl⟩
  | lose hr he hc =>
      obtain ⟨rfl, x, hv⟩ := hf.of_client hc
      rw [same rfl]
      refine ⟨_, ⟨ho.begin rfl, ?_⟩, ?_⟩
      · rw [← reading_view hr] at hv
        exact hv.giveUp
      · rw [hc]
        rfl
  | losing hr =>
      obtain ⟨rfl, hf⟩ := fits rfl
      obtain ⟨hn, hf', ht⟩ := hr.keeps_up .losing .losing hf
      rw [same hn]
      exact ⟨_, ⟨ho.go hs rfl rfl, hf'⟩, ht⟩
  | releasing hr =>
      obtain ⟨rfl, hf⟩ := fits rfl
      obtain ⟨hn, hf', ht⟩ := hr.keeps_up .releasing .releasing hf
      rw [same hn]
      exact ⟨_, ⟨ho.go hs rfl rfl, hf'⟩, ht⟩
  | lost hr =>
      obtain ⟨rfl, hf⟩ := fits rfl
      obtain ⟨hn, hf', ht⟩ := hr.begins_anew .losing hf
      rw [more hn]
      exact ⟨_, ⟨ho.restart hs rfl hS.fresh, hf'⟩, ht⟩
  | released hr =>
      obtain ⟨rfl, hf⟩ := fits rfl
      obtain ⟨hn, hf', ht⟩ := hr.begins_anew .releasing hf
      rw [more hn]
      exact ⟨_, ⟨ho.restart hs rfl hS.fresh, hf'⟩, ht⟩
  | dismiss hc =>
      obtain ⟨rfl, x, hv⟩ := hf.of_client hc
      rw [same rfl]
      refine ⟨_, ⟨ho.begin rfl, hv.giveUp⟩, ?_⟩
      rw [hc]
      rfl
  | dismissed =>
      rw [same rfl]
      exact ⟨o, ⟨ho.pass (by simp [hs, Stage.serves]) (by simp), hf⟩, quiet rfl rfl rfl⟩

/-! ## Whatever is done keeps what is served -/

theorem resumeWrite_view {link : Link} {result : Option (Except WriteError Nat)}
    (h : s.link.resumeWrite n r = some (link, result)) :
    ({ s with link } : Server).view = s.view := by
  obtain ⟨⟨q, result⟩, hq, he⟩ := Option.map_eq_some_iff.mp h
  cases he
  have hstream : q.stream = s.link.queue.stream := by
    cases WriteQueue.move_of_resume hq <;> simp
  simp [view, Link.isOpen, hstream]

theorem Does.serves {o : Option Stage} (hS : s.Sound) (h : s.Serves o) (hd : Does s a s' e)
    (hp : s'.phase ≠ .closed) : Serves.Next s o e.report.told s' := by
  have fresh : ∀ st, s.stage? s.nextTask = some st → st.serves = false := by simp [hS.fresh]
  obtain ⟨ho, hf⟩ := h
  cases hd with
  | @listen _ record _ hi =>
      obtain ⟨rfl, -, hg, hb⟩ := hf.of_idle hi
      refine ⟨some (.binding record), ⟨?_, ⟨.inr rfl, hg, ⟨hb.1, hb.2, hb.3, hb.4⟩⟩, rfl⟩, ?_⟩
      · rw [stage?_spawn (s := { s with phase := .listening }) hS.tidy]
        exact ho.begin rfl
      · exact quiet rfl rfl (by rw [show s.client = none from hb.1]; rfl)
  | read =>
      refine ⟨o, ⟨?_, hf⟩, quiet rfl rfl rfl⟩
      rw [stage?_spawn hS.tidy]
      exact ho.pass fresh (by simp [Stage.serves, Stage.closes])
  | @write bytes =>
      have hv : ({ s with link := (s.link.write bytes).2 } : Server).view = s.view := by
        simp [view, Link.write, Link.isOpen]
      exact ⟨o, ⟨ho, hv ▸ hf⟩, quiet rfl rfl rfl⟩
  | @disconnect c hc =>
      obtain ⟨rfl, x, hv⟩ := hf.of_client hc
      refine ⟨none, ⟨?_, .inr ⟨c, x, ?_⟩⟩, quiet rfl rfl rfl⟩
      · rw [stage?_spawn (s := { s with link := s.link.markClosed.signal .disconnect }) hS.tidy]
        exact ho.pass fresh (by simp [Stage.serves, Stage.closes])
      · exact ⟨hc, hv.2, hv.3, hv.4, hv.5, hv.6, hv.7, ⟨hv.8.1, hv.8.2⟩, hv.9⟩
  | @close _ background _ _ hc =>
      rw [close_eq hc] at hp
      cases background <;> exact absurd rfl hp
  | @aside _ _ _ feed owned _ _ _ hs =>
      have hv : ({ s with feed, owned } : Server).view = s.view := by simp [view, hs]
      exact ⟨o, ⟨ho, hv ▸ hf⟩, quiet rfl rfl rfl⟩
  | send hr => exact ⟨o, ⟨ho, resumeWrite_view hr ▸ hf⟩, quiet rfl rfl rfl⟩
  | turn hs ht => exact ht.serves hS ⟨ho, hf⟩ hs

/-- The clients that came, the first first. -/
def visitors (ms : List Moment) : List Client :=
  ms.flatMap fun m => fresh m.before.client m.after.client

/-- What was told of clients. -/
def told (ms : List Moment) : List Event := ms.flatMap fun m => m.effect.report.told

/-- A server that was not closed serves, and told of all its clients but for what it still owes. -/
theorem serves_of_run {t : Config.Tuning} {ms : List Moment} (h : (machine t).Run ms s)
    (hp : s.phase ≠ .closed) : ∃ o, s.Serves o ∧
      told ms ++ owed s.client o = (visitors ms).flatMap visit := by
  induction h with
  | start =>
      refine ⟨none, ⟨.nobody ?_, .inl ⟨.inl rfl, rfl, rfl, rfl, rfl, rfl⟩⟩, rfl⟩
      intro n st hs
      cases hs
  | @next ms s a s' e hr _ hp' ih =>
      have hd := does_of_perform hp'
      obtain ⟨o, hs, ht⟩ := ih fun hc => hp (hd.phase hc)
      obtain ⟨o', hs', ht'⟩ := hd.serves (sound_of_run hr) hs hp
      refine ⟨o', hs', ?_⟩
      have h₁ : told (ms ++ [⟨s, a, s', e⟩]) = told ms ++ e.report.told := by simp [told]
      have h₂ : visitors (ms ++ [⟨s, a, s', e⟩]) = visitors ms ++ fresh s.client s'.client := by
        simp [visitors]
      rw [h₁, h₂, List.flatMap_append, List.append_assoc, ht', ← List.append_assoc, ht]

end Rfcomm.Server
