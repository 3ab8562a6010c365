import Rfcomm.Proofs.Connection.Single
import Rfcomm.Proofs.Server.Admission
import Rfcomm.Proofs.Server.Events
import Rfcomm.Proofs.Server.Party
/-!
How a server gets a client and loses it, with at most one task about it at a time. While there is none,
nobody reads, and no event says that a client connected; then the turn that attaches a caller makes it
the client and says so, if there is room for the event. It stays until its read sees its end, or until
it is given up.
-/
namespace Rfcomm.Server

/-- Whether a task at a stage is about a client that is there: it reads from it, or is about to give it
up. -/
def Stage.follows : Stage → Bool
  | .reading _ _ | .dismissing _ => true
  | _ => false

/-- No task is about a client that is there, except for one. -/
def Alone (s : Server) (o : Option Nat) : Prop :=
  ∀ m st, s.stage? m = some st → o ≠ some m → st.follows = false

/-- No event says that a client connected. -/
def NoNews (events : List Event) : Prop := ∀ e ∈ events, ∀ address, e ≠ .connected address

/-- As long as events are sent, somebody receives them, and there is room for as many as the settings
say. -/
def Posts (s : Server) : Prop :=
  s.feed.sending = true → s.feed.receiving = true ∧ s.feed.capacity = s.tuning.eventCapacity

/-- A client is there and can be read. -/
structure Seats (s : Server) (c : Client) (last : Option StreamId) : Prop where
  client : s.client = some c
  link : s.link.Ready
  stream : s.link.stream = last

variable {s s' s₁ : Server} {id n : Nat} {stage st : Stage} {next : Option Stage} {r : Reply}
  {out : Report} {v : Option Stage} {c : Client} {f : Feed} {e : Event} {last : Option StreamId}
  {o o' : Option Nat}

theorem follows_of_passive (hs : st.serves = false) (hc : st.closes = false) : st.follows = true := by
  cases st <;> first | rfl | (cases hs; done) | cases hc

/-- While a client is there, all tasks are about it. -/
theorem Serves.follows (h : s.Serves v) (hc : s.client = some c) (hs : s.stage? n = some st) :
    st.follows = true := by
  obtain ⟨h₁, h₂⟩ := h.none_serves hc hs
  exact follows_of_passive h₁ h₂

/-- While a client is there, there are no callers. -/
theorem Serves.callers_last (h : s.Serves v) (hc : s.client = some c) (last : Option StreamId) :
    ∀ m x, s.callers m = some x → last = some x := by
  intro m x hx
  obtain ⟨st, hs, hst⟩ := exists_of_callers hx
  have hn := (h.none_serves hc hs).1
  rw [serves_of_accepts (accepts_of_caller hst)] at hn
  cases hn

theorem Alone.spawn (h : s.Alone none) (hS : s.Sound) : (s.spawn st).2.Alone (some s.nextTask) := by
  intro m st' hs hm
  rw [stage?_spawn hS.tidy, Function.update_of_ne (fun he => hm (congrArg some he.symm))] at hs
  exact h m st' hs (by simp)

/-- A turn of a task leaves alone who was, if that task is not about a client now. -/
theorem Alone.turn (h : s.Alone o) (hS : s.Sound) (hs : s.stage? id = some stage)
    (ht : Turn s id stage r s₁ next out) (ho : ∀ m, m ≠ id → o = some m → o' = some m)
    (hn : ∀ st, next = some st → st.follows = true → o' = some id) :
    (s₁.place id next).Alone o' := by
  intro m st hst hm
  by_cases hid : m = id
  · subst hid
    exact Bool.eq_false_iff.mpr fun hf => hm (hn st ((ht.mine hS hs).symm.trans hst) hf)
  · by_cases hw : st = .watching
    · subst hw; rfl
    · exact h m st (ht.old hS hs hid hst hw) fun he => hm (ho m hid he)

theorem NoNews.push (h : NoNews f.queue) (he : ∀ address, e ≠ .connected address) :
    NoNews (f.push e).queue := by
  intro w hw
  rcases push_queue f e with hq | hq <;> rw [hq] at hw
  · exact h w hw
  · rcases List.mem_append.mp hw with hw | hw
    · exact h w hw
    · obtain rfl := List.mem_singleton.mp hw
      exact he

theorem NoNews.emit (h : NoNews s.feed.queue) (he : ∀ address, e ≠ .connected address) :
    NoNews (s.emit e).1.feed.queue := by
  rw [emit_fst]
  by_cases hs : s.feed.sending = true
  · simpa [hs] using h.push he
  · simpa [hs] using h

theorem NoNews.releases {k : Releasing} {k' : Option Releasing} (h : Releases s id k r s₁ k' out)
    (hq : NoNews s.feed.queue) : NoNews s₁.feed.queue := by
  cases h with
  | close | late | register => exact hq
  | @last _ _ _ link | @line _ _ _ link => exact NoNews.emit (s := { s with link }) hq (by simp)
  | skip | hold =>
      rw [(rearmed_frame _ _).2]
      exact hq
  | fail =>
      rw [(rearmed_frame _ _).2]
      exact NoNews.emit (s := s.leaveAdvertisement) hq (by simp)

/-- A caller that was attached becomes the client. -/
structure Begins (s s' : Server) (x : StreamId) (c : Client) : Prop where
  client : s'.client = some c
  generation : c.generation = s.generation + 1 ∧ s'.generation = s.generation + 1
  link : s'.link.Ready
  stream : s'.link.stream = some x
  feed : s'.feed = if s.feed.sending then s.feed.push (.connected c.address) else s.feed

theorem Begins.queue (h : Begins s s' x c) :
    s'.feed.queue = s.feed.queue ++ [.connected c.address] ∨ s'.feed.queue = s.feed.queue := by
  rw [h.feed]
  split
  · exact (push_queue _ _).symm
  · exact .inr rfl

/-- The event that says so is delivered if there is room for it. -/
theorem Begins.delivers_iff (h : Begins s s' x c) (hs : s.feed.sending = true) (hp : s.Posts) :
    s'.feed.queue = s.feed.queue ++ [.connected c.address] ↔
      s.feed.queue.length < s.tuning.eventCapacity := by
  obtain ⟨hr, hcap⟩ := hp hs
  rw [h.feed, if_pos hs, ← hcap]
  refine ⟨fun hq => ?_, push_queue_of_room _ hs hr⟩
  by_contra hl
  simp [Feed.push, hl] at hq

theorem begins_of_attach {k : Link.Attach} {link : Link} {u : Unit} (address : Address)
    (ha : s.link.resumeAttach (.task id) k r = some (link, .done u)) :
    Begins s ((({ s with link } : Server).welcome address).emit (.connected address)).1 k.stream
      ⟨s.generation + 1, address⟩ := by
  rw [emit_fst]
  refine ⟨rfl, ⟨rfl, rfl⟩, ?_, ?_, rfl⟩
  · cases Link.move_of_resumeAttach ha
    exact ⟨rfl, rfl, rfl⟩
  · cases Link.move_of_resumeAttach ha
    rfl

/-- A server without a client stays without, or a caller becomes its client. -/
theorem Turn.vacant (h : Turn s id stage r s₁ next out) (hc : s.client = none)
    (hf : stage.follows = false) (hq : NoNews s.feed.queue) :
    (∀ st, next = some st → st.follows = false) ∧
      (s₁.client = none ∧ s₁.generation = s.generation ∧ NoNews s₁.feed.queue ∨
        ∃ address k c, stage = .attaching address k ∧ r = .go ∧ next = none ∧ out.outcome = none ∧
          Begins s s₁ k.stream c) := by
  cases h with
  | notBound | notRegistered =>
      unfold resetListening
      split <;> exact ⟨by simp, .inl ⟨hc, rfl, hq⟩⟩
  | note => exact ⟨by simp, .inl ⟨hc, rfl, fun v hv => by cases hv⟩⟩
  | undo h | undone h | withdraw h | beginAttach h | retire h | retired h =>
      obtain ⟨_, _, rfl⟩ := h.frame
      exact ⟨by simp [Stage.follows], .inl ⟨hc, rfl, hq⟩⟩
  | look h =>
      cases h <;> cases s.listener <;> exact ⟨by simp [Stage.follows], .inl ⟨hc, rfl, hq⟩⟩
  | stumble => exact ⟨by simp [Stage.follows], .inl ⟨by rw [emit_fst]; exact hc, by rw [emit_fst],
      hq.emit (by simp)⟩⟩
  | @welcome address k _ link _ ha =>
      exact ⟨by simp, .inr ⟨address, k, _, rfl, Link.reply_of_resumeAttach ha, rfl, by rw [emit_snd],
        begins_of_attach address ha⟩⟩
  | losing h | lost h | releasing h | released h =>
      exact ⟨by simp [Stage.follows], .inl ⟨h.client.trans hc, h.generation, hq.releases h⟩⟩
  | read | report | lose | dismiss | dismissed => cases hf
  | _ => exact ⟨by simp [Stage.follows], .inl ⟨hc, rfl, hq⟩⟩

/-- A caller that becomes the client is announced if there is room for the event. -/
theorem Turn.announces_iff (h : Turn s id stage r s₁ next out) (hv : s.Serves v)
    (hs : s.stage? id = some stage) (hc : s.client = none) (hf : stage.follows = false)
    (hq : NoNews s.feed.queue) (hp : s.Posts) (hc' : s₁.client = some c) :
    s₁.feed.queue = s.feed.queue ++ [.connected c.address] ↔
      s.feed.queue.length < s.tuning.eventCapacity := by
  rcases (h.vacant hc hf hq).2 with ⟨hn, -⟩ | ⟨address, k, c', rfl, -, -, -, hb⟩
  · cases hn.symm.trans hc'
  · cases hb.client.symm.trans hc'
    obtain ⟨rfl, -⟩ := hv.1.others hs rfl
    exact hb.delivers_iff hv.2.1.ready.sending hp

/-- The callers at hand are the last that came, and stay so. -/
theorem Turn.callers_last (h : Turn s id stage r s₁ next out) (hS : s.Sound) (hv : s.Serves v)
    (hs : s.stage? id = some stage) (hl : ∀ m x, s.callers m = some x → last = some x) :
    ∀ m x, (s₁.place id next).callers m = some x →
      ((Act.step (.task id) r).stream?.or last) = some x := by
  intro m x hx
  rw [h.callers_place hS hs] at hx
  have still : (Act.step (.task id) r).stream? = none → s.callers m = some x →
      ((Act.step (.task id) r).stream?.or last) = some x := fun he hm => by rw [he, Option.none_or, hl m x hm]
  by_cases hm : m = id
  · subst hm
    rw [Function.update_self] at hx
    rcases h.of_callers with ⟨he, hc⟩ | ⟨_, y, -, he, hc, -⟩ | ⟨_, _, -, -, -, rfl, -⟩ |
      ⟨_, _, -, -, -, rfl, -⟩
    · exact still he ((callers_of_stage hs).trans (hc.symm.trans hx))
    · rw [he, ← hc, hx, Option.some_or]
    all_goals cases hx
  · rw [Function.update_of_ne hm] at hx
    cases he : (Act.step (.task id) r).stream? with
    | none => rw [Option.none_or, hl m x hx]
    | some y =>
        -- Who waits for a caller is the only one to serve.
        obtain ⟨l, rfl⟩ := h.of_stream? he
        obtain ⟨st, hst, hcall⟩ := exists_of_callers hx
        cases st <;> first | (cases ((hv.1.others hs rfl).2 m _ hst hm).1; done) | cases hcall

/-- What a turn of the task does that reads from the client. -/
inductive Attends (s : Server) (c : Client) (last : Option StreamId) :
    Reply → Option Stage → Option Outcome → Prop
  | goes {g} : s.Seats c last → Attends s c last .go (some (.reading c.generation g)) none
  | data {bytes} : bytes ≠ [] → s.Seats c last →
      Attends s c last (.read (.ok bytes)) none (some (.data bytes))
  | fails {reply x} : (∀ bytes, reply ≠ .read (.ok bytes)) → s.Seats c last →
      Attends s c last reply none (some (.failed x))
  | loses {reply k} : (∀ bytes, reply = .read (.ok bytes) → bytes = []) → s.client = none →
      Attends s c last reply (some (.losing k)) none

theorem Turn.attends {g : Link.Reading}
    (h : Turn s id (.reading c.generation g) r s₁ next out) (hs : s.Seats c last) :
    s₁.feed = s.feed ∧ s₁.generation = s.generation ∧ Attends s₁ c last r next out.outcome := by
  have seats : ∀ {link p}, s.link.resumeReading (.task id) g r = some (link, p) → link.Ready →
      Seats { s with link } c last := fun hread hl =>
    ⟨hs.client, hl, (reading_frame (Link.move_of_resumeReading hread)).1.trans hs.stream⟩
  generalize hg : c.generation = generation at h
  cases h with
  | look h => cases h
  | read hread =>
      subst hg
      obtain ⟨hl, -, ⟨g', hp, rfl⟩ | ⟨hp, -⟩ | ⟨_, -, hp⟩⟩ := hs.link.of_resumeReading hread <;> cases hp
      exact ⟨rfl, rfl, .goes (seats hread hl)⟩
  | report hread hn =>
      obtain ⟨hl, -, ⟨g', hp, -⟩ | ⟨hp, rfl⟩ | ⟨result, rfl, hp⟩⟩ := hs.link.of_resumeReading hread <;>
        cases hp
      · exact ⟨rfl, rfl, .fails (by simp) (seats hread hl)⟩
      · refine ⟨rfl, rfl, ?_⟩
        cases result with
        | error f =>
            have hf : ¬ (Error.read f).isDisconnect = true := fun hf => hn hf c hs.client hg
            have ho : outcome (.failed f) = .failed (.read f) := if_neg hf
            exact ho ▸ .fails (by simp) (seats hread hl)
        | ok bytes =>
            cases bytes with
            | nil => exact absurd hg (hn rfl c hs.client)
            | cons b bytes => exact .data (List.cons_ne_nil _ _) (seats hread hl)
  | lose hread he =>
      obtain ⟨-, -, ⟨g', hp, -⟩ | ⟨hp, rfl⟩ | ⟨result, rfl, hp⟩⟩ := hs.link.of_resumeReading hread <;>
        cases hp
      · cases he
      · refine ⟨rfl, rfl, .loses ?_ rfl⟩
        rintro bytes ⟨⟩
        cases bytes with
        | nil => rfl
        | cons => cases he

/-- A read that saw the end of its client reports once the client is given up. -/
theorem Turn.loses {k : Releasing} (h : Turn s id (.losing k) r s₁ next out) :
    (∃ k', next = some (.losing k') ∧ out.outcome = none) ∨
      next = none ∧ out.outcome = some .closed := by
  cases h with
  | look h => cases h
  | losing h => exact .inl ⟨_, rfl, h.outcome⟩
  | lost => exact .inr ⟨rfl, rfl⟩

theorem Turn.dismisses (h : Turn s id (.dismissing c.generation) r s₁ next out)
    (hc : s.client = some c) : r = .go ∧ (∃ k, next = some (.releasing k)) ∧ out.outcome = none ∧
      s₁.client = none ∧ s₁.feed = s.feed := by
  generalize hg : c.generation = generation at h
  cases h with
  | look h => cases h
  | dismiss => exact ⟨rfl, ⟨_, rfl⟩, rfl, rfl, rfl⟩
  | dismissed hn => exact absurd hg (hn c hc)

theorem serves_create (t : Config.Tuning) : (create t).Serves none := by
  refine ⟨.nobody fun n st hs => ?_, .inl ⟨.inl rfl, rfl, rfl, rfl, rfl, rfl⟩⟩
  cases hs

/-- A server that is asked to listen does nothing but that. -/
theorem of_listen {t : Config.Tuning} {options : Options} {k : Worker}
    (h : (create t).listen options = .ok (k, s)) : s.Sound ∧ (∃ v, s.Serves v) ∧
      ∃ record, s = ({ create t with phase := .listening }.spawn (.binding record)).2 ∧
        ∀ m st, s.stage? m = some st → st = .binding record := by
  have hp : (create t).perform (.listen options) = some (s, { started := some k }) := by
    rw [perform, h]
    rfl
  cases does_of_perform hp with
  | @listen _ record ho hi =>
      have hd : Does (create t) (.listen options) _ _ := .listen ho hi
      obtain ⟨v, hv, -⟩ := hd.serves (sound_create t) (serves_create t) (by simp [spawn])
      refine ⟨hd.sound (sound_create t), ⟨v, hv⟩, record, rfl, fun m st hm => ?_⟩
      simp only [stage?, Tasks.stageOf, spawn, create, List.nil_append, List.find?_cons,
        List.find?_nil] at hm
      split at hm <;> cases hm
      rfl

theorem Posts.place (h : s.Posts) : (s.place id next).Posts := by
  cases next <;> exact h

theorem Turn.posts (h : Turn s id stage r s₁ next out) (hp : s.Posts) : s₁.Posts := by
  have ht : s₁.tuning = s.tuning := congrArg Prod.fst h.settings
  rcases h.feeds with (⟨hf, -⟩ | ⟨e, -, hf, -⟩) | ⟨⟨_, _, rfl⟩, -, -, -⟩
  · rwa [Posts, hf, ht]
  · have hcap : (s.feed.push e).capacity = s.feed.capacity := by
      unfold Feed.push
      split <;> rfl
    rwa [Posts, hf, ht, (push_sending s.feed e).1, (push_sending s.feed e).2, hcap]
  · cases h with
    | look h => cases h
    | die | late => exact hp
    | note => exact fun _ => ⟨rfl, rfl⟩

theorem Turn.no_stream (h : Turn s id stage r s₁ next out) (hst : ∀ l, stage ≠ .accepting l) :
    (Act.step (.task id) r).stream? = none := by
  by_contra hx
  obtain ⟨x, hx⟩ := Option.ne_none_iff_exists'.mp hx
  obtain ⟨l, hl⟩ := h.of_stream? hx
  exact hst l hl

end Rfcomm.Server
