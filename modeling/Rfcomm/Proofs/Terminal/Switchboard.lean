import Rfcomm.Proofs.Delivery
import Rfcomm.Proofs.Server.Occupancy
import Rfcomm.Proofs.Terminal.Machine
import Rfcomm.Proofs.Terminal.Source
/-!
A terminal that is called, between the callers that it serves one after the other and a screen. A client
is read from the moment on at which the main loop hears of it; of one whose event found no room, it
never does.
-/
namespace Rfcomm

/-- A terminal that is called, and what goes in and out of it. -/
structure Switchboard where
  terminal : Terminal
  /-- What each caller sends. -/
  sources : StreamId → Source := fun _ => {}
  /-- The callers that were accepted, the first first. -/
  accepted : List StreamId := []
  /-- What was shown. -/
  screen : Bytes := []
  /-- How much was shown of what is being shown. -/
  shown : Nat := 0

namespace Switchboard

open Terminal (Actor)
open Server (NoNews)

/-- What can happen at a switchboard. -/
inductive Act
  | step (a : Actor) (r : Terminal.Reply)
  | interrupt
  | send (x : StreamId) (bytes : Bytes)
  /-- A caller sends no more. -/
  | finish (x : StreamId)
  /-- So much more is shown of what is being shown. -/
  | show (n : Nat)

/-- The surroundings after an actor was answered; none if they do not answer so. Each stream is handed
over once. -/
def answer (b : Switchboard) (a : Terminal.Ask) (r : Terminal.Reply) : Option Switchboard :=
  match r with
  | .link (.read (.ok bytes)) =>
    match a with
    | .link (.call (.read x _)) =>
      ((b.sources x).take bytes).map fun source =>
        { b with sources := Function.update b.sources x source }
    | _ => none
  | .link (.accepted (.ok (x, _))) =>
    if x ∈ b.accepted then none else some { b with accepted := b.accepted ++ [x] }
  | .displayed (.ok ()) =>
    match a with
    | .display bytes => if b.shown = bytes.length then some { b with shown := 0 } else none
    | _ => none
  | _ => some b

def perform (b : Switchboard) : Act → Option (Switchboard × Unit)
  | .step a r => do
    let b ← b.answer (b.terminal.ask a) r
    let (terminal, _) ← b.terminal.resume a r
    some ({ b with terminal }, ())
  | .interrupt => some ({ b with terminal := b.terminal.interrupt }, ())
  | .send x bytes => ((b.sources x).give bytes).map fun source =>
      ({ b with sources := Function.update b.sources x source }, ())
  | .finish x =>
    some ({ b with sources := Function.update b.sources x { b.sources x with ended := true } }, ())
  | .show n =>
    match b.terminal.ask .main with
    | .display bytes =>
      let part := (bytes.drop b.shown).take n
      some ({ b with screen := b.screen ++ part, shown := b.shown + part.length }, ())
    | _ => none

/-- A terminal with these settings. Callers do what they like. -/
def machine (config : Config) : Machine Switchboard Act Unit where
  start := { terminal := (Terminal.start (.ok config)).1 }
  perform := perform

/-- One moment of a switchboard. -/
abbrev Moment := Rfcomm.Moment Switchboard Act Unit

/-- A caller becomes the client, and the event that says so is delivered. -/
def Announces (s s' : Server) (c : Server.Client) : Prop :=
  s.client = none ∧ s'.client = some c ∧ s'.feed.queue = s.feed.queue ++ [.connected c.address]

/-! ## What a terminal is at -/

/-- The main loop waits for something else than the screen. -/
def Free (t : Terminal) : Prop :=
  t.stage = .selecting ∨ (∃ h, t.stage = .listening h) ∨ ∃ h, t.stage = .sending h

/-- The main loop has no read, or one of a client that is gone. -/
inductive Past (t : Terminal) (s : Server) : Prop
  | none : t.read = none → Past t s
  | closed : t.read = some (.settled .closed) → Past t s
  | losing {n k} : t.read = some (.waiting (.task n)) → s.stage? n = some (.losing k) → Past t s

/-- What waits for the main loop ends with the news of a client. -/
def Awaits (events : List Server.Event) (c : Server.Client) : Prop :=
  ∃ rest, events = rest ++ [.connected c.address] ∧ NoNews rest

/-- The main loop knows of the client, whose reads are its own. -/
structure Attended (s : Server) (last : Option StreamId) (told : Server.Client → Prop)
    (c : Server.Client) (o : Option Nat) : Prop where
  seats : s.Seats c last
  alone : s.Alone o
  news : NoNews s.feed.queue
  told : told c

/-- How the main loop stands to the client of the server, with the bytes that were read and are not
shown yet. The last caller that came is `last`, and the clients that were announced are those of
`told`. -/
inductive Standing (t : Terminal) (s : Server) (last : Option StreamId)
    (told : Server.Client → Prop) : Nat → Bytes → Prop
  | vacant : Free t → Past t s → s.client = none → s.Alone none → NoNews s.feed.queue →
      (∀ n x, s.callers n = some x → last = some x) → Standing t s last told 0 []
  | announced {c} : Free t → Past t s → s.Seats c last → s.Alone none → Awaits s.feed.queue c →
      told c → Standing t s last told 0 []
  | unnoticed {c} : Free t → Past t s → s.Seats c last → s.Alone none → NoNews s.feed.queue →
      ¬ told c → Standing t s last told 0 []
  | reading {c n g} : Free t → t.read = some (.waiting (.task n)) →
      s.stage? n = some (.reading c.generation g) → Attended s last told c (some n) →
      Standing t s last told 0 []
  | data {c bytes} : Free t → t.read = some (.settled (.data bytes)) →
      Attended s last told c none → Standing t s last told 0 bytes
  | failed {c e} : Free t → t.read = some (.settled (.failed e)) → Attended s last told c none →
      Standing t s last told 0 []
  | showing {c bytes shown} : t.stage = .showing bytes → t.read = none →
      Attended s last told c none → Standing t s last told shown (bytes.drop shown)
  | dismissing {c n} : Free t → t.read = none → s.client = some c →
      s.stage? n = some (.dismissing c.generation) → s.Alone (some n) → NoNews s.feed.queue →
      told c → Standing t s last told 0 []

variable {b b' : Switchboard} {t t' : Terminal} {s s' s₁ : Server} {last : Option StreamId}
  {told told' : Server.Client → Prop} {shown n : Nat} {u bytes : Bytes} {v next : Option Server.Stage}
  {st : Server.Stage} {r : Rfcomm.Reply} {out : Server.Report} {x : StreamId} {c : Server.Client}

/-- Two states of a server between which nobody can tell a difference who waits for its client. -/
structure Alike (s s' : Server) : Prop where
  client : s'.client = s.client
  stages : s'.stage? = s.stage?
  news : NoNews s.feed.queue → NoNews s'.feed.queue
  awaits : ∀ c, Awaits s.feed.queue c → Awaits s'.feed.queue c
  ready : s.link.Ready → s'.link.Ready
  stream : s'.link.stream = s.link.stream

theorem Alike.refl (s : Server) : Alike s s := ⟨rfl, rfl, id, fun _ => id, id, rfl⟩

theorem Standing.congr (h : Standing t s last told shown u) (hs : Alike s s')
    (hread : t'.read = t.read) (hfree : Free t → Free t')
    (hshow : ∀ bytes, t.stage = .showing bytes → t'.stage = t.stage) :
    Standing t' s' last told shown u := by
  have stage : ∀ n, s'.stage? n = s.stage? n := congrFun hs.stages
  have past : Past t s → Past t' s' := fun h => by
    cases h with
    | none h => exact .none (hread.trans h)
    | closed h => exact .closed (hread.trans h)
    | losing h hs => exact .losing (hread.trans h) ((stage _).trans hs)
  have alone : ∀ {o}, s.Alone o → s'.Alone o := fun h m st hs => h m st ((stage m).symm.trans hs)
  have seats : ∀ {c}, s.Seats c last → s'.Seats c last := fun h =>
    ⟨hs.client.trans h.client, hs.ready h.link, hs.stream.trans h.stream⟩
  have attended : ∀ {c o}, Attended s last told c o → Attended s' last told c o := fun h =>
    ⟨seats h.seats, alone h.alone, hs.news h.news, h.told⟩
  cases h with
  | vacant hf hp hc ha hq hl =>
      refine .vacant (hfree hf) (past hp) (hs.client.trans hc) (alone ha) (hs.news hq) fun n x hx => hl n x ?_
      rw [← hx, Server.callers, Server.callers, stage]
  | announced hf hp hc ha hq ht =>
      exact .announced (hfree hf) (past hp) (seats hc) (alone ha) (hs.awaits _ hq) ht
  | unnoticed hf hp hc ha hq ht =>
      exact .unnoticed (hfree hf) (past hp) (seats hc) (alone ha) (hs.news hq) ht
  | reading hf hr hn ha => exact .reading (hfree hf) (hread.trans hr) ((stage _).trans hn) (attended ha)
  | data hf hr ha => exact .data (hfree hf) (hread.trans hr) (attended ha)
  | failed hf hr ha => exact .failed (hfree hf) (hread.trans hr) (attended ha)
  | showing hst hr ha => exact .showing ((hshow _ hst).trans hst) (hread.trans hr) (attended ha)
  | dismissing hf hr hc hn ha hq ht =>
      exact .dismissing (hfree hf) (hread.trans hr) (hs.client.trans hc) ((stage _).trans hn) (alone ha)
        (hs.news hq) ht

/-! ## Steps of the workers -/

theorem Free.advance {k : Worker} {o : Option Outcome} {e : Endpoint} (h : Free t) :
    Free (t.advance e k o) := by
  cases o with
  | none => exact h
  | some o =>
      rcases h with h | ⟨x, h⟩ | ⟨x, h⟩
      · exact .inl (by simp [Terminal.advance, Terminal.settle, h])
      · exact .inr (.inl ⟨x.settle k o, by simp [Terminal.advance, Terminal.settle, h]⟩)
      · exact .inr (.inr ⟨x.settle k o, by simp [Terminal.advance, Terminal.settle, h]⟩)

/-- The worker of a write goes on. -/
theorem Standing.write {link : Link} {o : Option Outcome} {result : Option (Except WriteError Nat)}
    (h : Standing t s last told shown u) (hr : s.link.resumeWrite n r = some (link, result)) :
    Standing (t.advance (.server { s with link }) (.write n) o) { s with link } last told shown u := by
  obtain ⟨⟨q, result⟩, hq, he⟩ := Option.map_eq_some_iff.mp hr
  cases he
  refine h.congr ⟨rfl, rfl, id, fun _ => id, fun h => ⟨h.1, h.2, h.3⟩, rfl⟩ ?_ Free.advance fun bytes hs => ?_
  · cases h with
    | vacant _ hp | announced _ hp | unnoticed _ hp =>
        cases hp with
        | none h => exact (Terminal.advance_read_none h).trans h.symm
        | closed h => exact (Terminal.advance_read_settled h).trans h.symm
        | losing h => exact (Terminal.advance_read_other h (by simp)).trans h.symm
    | reading _ h => exact (Terminal.advance_read_other h (by simp)).trans h.symm
    | data _ h | failed _ h => exact (Terminal.advance_read_settled h).trans h.symm
    | showing _ h | dismissing _ h => exact (Terminal.advance_read_none h).trans h.symm
  · cases o <;> simp [Terminal.advance, Terminal.settle, hs]

/-- What was read of a stream. -/
def got : Rfcomm.Reply → Bytes
  | .read (.ok bytes) => bytes
  | _ => []

theorem got_of_ne (h : ∀ bytes, r = .read (.ok bytes) → bytes = []) : got r = [] := by
  unfold got
  split
  · exact h _ rfl
  · rfl

/-- What is read comes from the last caller. -/
theorem Standing.reader {g : Nat} {k : Link.Reading} (h : Standing t s last told shown u)
    (hs : s.stage? n = some (.reading g k)) : s.link.stream = last := by
  have nobody : s.Alone none → False := fun ha => by cases ha n _ hs (by simp)
  cases h with
  | vacant _ _ _ ha | announced _ _ _ ha | unnoticed _ _ _ ha => exact (nobody ha).elim
  | reading _ _ _ ha => exact ha.seats.stream
  | data _ _ ha | failed _ _ ha | showing _ _ ha => exact (nobody ha.alone).elim
  | @dismissing c m _ _ _ hm ha =>
      by_cases he : m = n
      · subst he
        cases hm.symm.trans hs
      · cases ha n _ hs (by simpa using he)

theorem seats_place (h : s₁.Seats c last) : (s₁.place n next).Seats c last :=
  ⟨(Server.place_client s₁).trans h.client, (Server.place_link s₁).symm ▸ h.link,
    (congrArg Link.stream (Server.place_link s₁)).trans h.stream⟩

theorem Past.turn (h : Past t s) (hS : s.Sound) (hs : s.stage? n = some st)
    (ht : Server.Turn s n st r s₁ next out) :
    Past (t.advance (.server (s₁.place n next)) (.task n) out.outcome) (s₁.place n next) := by
  cases h with
  | none h => exact .none (Terminal.advance_read_none h)
  | closed h => exact .closed (Terminal.advance_read_settled h)
  | @losing m k h hm =>
      by_cases he : m = n
      · subst he
        obtain rfl := Option.some.inj (hm.symm.trans hs)
        rcases ht.loses with ⟨k', hn, ho⟩ | ⟨-, ho⟩
        · exact .losing (by rw [ho]; exact h) ((ht.mine hS hs).trans hn)
        · exact .closed (by rw [ho]; exact Terminal.advance_read_waiting h)
      · exact .losing (Terminal.advance_read_other h (by simpa using he)) (ht.keep hS hs he hm)

/-- Without a client a task goes on, and may bring one. It is told of if there is room for its event. -/
theorem Standing.turn_vacant (hf : Free t) (hp : Past t s) (hc : s.client = none) (ha : s.Alone none)
    (hq : NoNews s.feed.queue) (hl : ∀ n x, s.callers n = some x → last = some x) (hS : s.Sound)
    (hv : s.Serves v) (hs : s.stage? n = some st) (ht : Server.Turn s n st r s₁ next out)
    (hold : ∀ c, told c → c.generation ≤ s.generation)
    (htold : ∀ c, told' c ↔ told c ∨ Announces s (s₁.place n next) c) :
    Standing (t.advance (.server (s₁.place n next)) (.task n) out.outcome) (s₁.place n next)
      ((Server.Act.step (.task n) r).stream?.or last) told' 0 [] := by
  obtain ⟨hn, hcase⟩ := ht.vacant hc (ha n st hs (by simp)) hq
  have halone : (s₁.place n next).Alone none := ha.turn hS hs ht (fun _ _ h => h) fun st he hf => by
    rw [hn st he] at hf; cases hf
  have hpast := hp.turn hS hs ht
  rcases hcase with ⟨hc₁, -, hq₁⟩ | ⟨address, k, c, rfl, rfl, rfl, ho, hb⟩
  · exact .vacant hf.advance hpast ((Server.place_client s₁).trans hc₁) halone
      ((Server.place_feed s₁).symm ▸ hq₁) (ht.callers_last hS hv hs hl)
  · have hlast : last = some k.stream := hl n _ (Server.callers_of_stage hs)
    have hseats : (s₁.place n none).Seats c last :=
      seats_place ⟨hb.client, hb.link, hb.stream.trans hlast.symm⟩
    have hfeed : (s₁.place n none).feed = s₁.feed := Server.place_feed s₁
    rcases hb.queue with hqueue | hqueue
    · exact .announced hf.advance hpast hseats halone ⟨_, by rw [hfeed, hqueue], hq⟩
        ((htold c).mpr (.inr ⟨hc, hseats.client, by rw [hfeed, hqueue]⟩))
    · refine .unnoticed hf.advance hpast hseats halone (by rw [hfeed, hqueue]; exact hq) fun hh => ?_
      rcases (htold c).mp hh with hh | ⟨-, -, hh⟩
      · have := hold c hh
        have := hb.generation.1
        omega
      · rw [hfeed, hqueue] at hh
        simp at hh

/-- The read of the main loop goes on, and ends with what it has for the screen. -/
theorem Standing.turn_reading {g : Link.Reading} (hf : Free t)
    (hr : t.read = some (.waiting (.task n))) (ha : Attended s last told c (some n)) (hS : s.Sound)
    (hv : s.Serves v) (hs : s.stage? n = some (.reading c.generation g))
    (ht : Server.Turn s n (.reading c.generation g) r s₁ next out) (htold : told' c) :
    Standing (t.advance (.server (s₁.place n next)) (.task n) out.outcome) (s₁.place n next)
      ((Server.Act.step (.task n) r).stream?.or last) told' 0 (got r) := by
  have hno : (Server.Act.step (.task n) r).stream? = none := ht.no_stream (by simp)
  obtain ⟨hfeed, -, hat⟩ := ht.attends ha.seats
  have hnews : NoNews (s₁.place n next).feed.queue := by
    rw [Server.place_feed, hfeed]; exact ha.news
  have hmine := ht.mine hS hs
  have hleft : ∀ k, k ≠ n → some n = some k → (none : Option Nat) = some k := fun k hk h =>
    absurd (Option.some.inj h).symm hk
  rw [hno, Option.none_or]
  generalize hout : out.outcome = outcome at hat ⊢
  cases hat with
  | goes hs₁ =>
      have halone := ha.alone.turn hS hs ht (fun _ _ h => h) fun _ _ _ => rfl
      exact .reading hf hr hmine ⟨seats_place hs₁, halone, hnews, htold⟩
  | data hne hs₁ =>
      have halone := ha.alone.turn hS hs ht hleft (by simp)
      exact .data hf.advance (Terminal.advance_read_waiting hr) ⟨seats_place hs₁, halone, hnews, htold⟩
  | fails hne hs₁ =>
      rw [got_of_ne fun bytes h => absurd h (hne bytes)]
      have halone := ha.alone.turn hS hs ht hleft (by simp)
      exact .failed hf.advance (Terminal.advance_read_waiting hr) ⟨seats_place hs₁, halone, hnews, htold⟩
  | loses hnil hc₁ =>
      rw [got_of_ne hnil]
      have hl := ht.callers_last hS hv hs (hv.callers_last ha.seats.client last)
      rw [hno, Option.none_or] at hl
      have halone := ha.alone.turn hS hs ht hleft fun st he hf => by cases he; cases hf
      exact .vacant hf (.losing hr hmine) ((Server.place_client s₁).trans hc₁) halone hnews hl

/-- A task goes on. Nothing is to be shown meanwhile but what it reads. -/
theorem Standing.turn (h : Standing t s last told shown u) (hS : s.Sound) (hv : s.Serves v)
    (hs : s.stage? n = some st) (ht : Server.Turn s n st r s₁ next out)
    (hread : ∀ bytes, r = .read (.ok bytes) → ∃ g k, st = .reading g k)
    (hold : ∀ c, told c → c.generation ≤ s.generation)
    (htold : ∀ c, told' c ↔ told c ∨ Announces s (s₁.place n next) c) :
    u = [] ∧ shown = 0 ∧ Standing (t.advance (.server (s₁.place n next)) (.task n) out.outcome)
      (s₁.place n next) ((Server.Act.step (.task n) r).stream?.or last) told' 0 (got r) := by
  -- All tasks are about a client that is there, so only the one that `Alone` leaves out can go on.
  have nobody : ∀ {c}, s.client = some c → s.Alone none → False := fun hc ha => by
    have := hv.follows hc hs
    rw [ha n st hs (by simp)] at this
    cases this
  have only : ∀ {c m}, s.client = some c → s.Alone (some m) → m = n := fun hc ha => by
    by_contra hm
    have := hv.follows hc hs
    rw [ha n st hs (by simpa using hm)] at this
    cases this
  cases h with
  | vacant hf hp hc ha hq hl =>
      have hst : st.follows = false := ha n st hs (by simp)
      have hgot : got r = [] := got_of_ne fun bytes hr => by
        obtain ⟨g, k, rfl⟩ := hread bytes hr
        cases hst
      refine ⟨rfl, rfl, ?_⟩
      rw [hgot]
      exact .turn_vacant hf hp hc ha hq hl hS hv hs ht hold htold
  | announced _ _ hseats ha | unnoticed _ _ hseats ha => exact (nobody hseats.client ha).elim
  | data _ _ ha | failed _ _ ha | showing _ _ ha => exact (nobody ha.seats.client ha.alone).elim
  | @reading c m g hf hr hm ha =>
      obtain rfl := only ha.seats.client ha.alone
      obtain rfl := Option.some.inj (hm.symm.trans hs)
      exact ⟨rfl, rfl, .turn_reading hf hr ha hS hv hs ht ((htold c).mpr (.inl ha.told))⟩
  | @dismissing c m hf hr hc hm ha hq htell =>
      obtain rfl := only hc ha
      obtain rfl := Option.some.inj (hm.symm.trans hs)
      obtain ⟨rfl, ⟨k, rfl⟩, ho, hc₁, hfeed⟩ := ht.dismisses hc
      refine ⟨rfl, rfl, ?_⟩
      have hl := ht.callers_last hS hv hs (hv.callers_last hc last)
      exact .vacant hf.advance (.none (Terminal.advance_read_none hr)) ((Server.place_client s₁).trans hc₁)
        (ha.turn hS hs ht (fun k hk h => absurd (Option.some.inj h).symm hk)
          fun st he hf => by cases he; cases hf)
        (by rw [Server.place_feed, hfeed]; exact hq) hl

end Switchboard

end Rfcomm
