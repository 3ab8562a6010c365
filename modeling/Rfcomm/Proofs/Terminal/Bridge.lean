import Rfcomm.Proofs.Config.Range
import Rfcomm.Proofs.Connection.Single
import Rfcomm.Proofs.Terminal.Machine
import Rfcomm.Proofs.Terminal.Source
/-!
A terminal that calls, between a peer and somebody who types. What is shown is what the peer sent, and
what the stream of the peer accepts is what was typed, without loss to the end.
-/
namespace Rfcomm

/-- A terminal and what goes in and out of it. -/
structure Bridge where
  terminal : Terminal
  /-- What the peer sends. -/
  peer : Source := {}
  /-- What is typed. -/
  keyboard : Source := {}
  /-- What the stream of the peer accepted. -/
  accepted : Bytes := []
  /-- What was shown. -/
  screen : Bytes := []
  /-- How much was shown of what is being shown. -/
  shown : Nat := 0
  log : List Terminal.Line := []

namespace Bridge

open Terminal (Actor Line Reader Proceeds Fetches Stops info stopLine)

/-- What can happen at a bridge. -/
inductive Act
  | step (a : Actor) (r : Terminal.Reply)
  | interrupt
  | send (bytes : Bytes)
  /-- The peer sends no more. -/
  | finish
  | type (bytes : Bytes)
  | endInput
  /-- So much more is shown of what is being shown. -/
  | show (n : Nat)

/-- What a stream takes when a worker goes on. -/
def taken (a : Terminal.Ask) (r : Rfcomm.Reply) : Bytes :=
  match a with
  | .link a => a.taken r
  | _ => []

/-- The surroundings after an actor was answered; none if they do not answer so. -/
def answer (b : Bridge) (a : Terminal.Ask) (r : Terminal.Reply) : Option Bridge :=
  match r with
  | .link (.read (.ok bytes)) => (b.peer.take bytes).map fun peer => { b with peer }
  | .link r => some { b with accepted := b.accepted ++ taken a r }
  | .input (.ok bytes) => (b.keyboard.take bytes).map fun keyboard => { b with keyboard }
  | .input (.error _) => some { b with keyboard := { b.keyboard with failed := true } }
  | .displayed (.ok ()) =>
    match a with
    | .display bytes => if b.shown = bytes.length then some { b with shown := 0 } else none
    | _ => none
  | _ => some b

def perform (b : Bridge) : Act → Option (Bridge × Unit)
  | .step a r => do
    let b ← b.answer (b.terminal.ask a) r
    let (terminal, lines) ← b.terminal.resume a r
    some ({ b with terminal, log := b.log ++ lines }, ())
  | .interrupt => some ({ b with terminal := b.terminal.interrupt }, ())
  | .send bytes => (b.peer.give bytes).map fun peer => ({ b with peer }, ())
  | .finish => some ({ b with peer := { b.peer with ended := true } }, ())
  | .type bytes => (b.keyboard.give bytes).map fun keyboard => ({ b with keyboard }, ())
  | .endInput => some ({ b with keyboard := { b.keyboard with ended := true } }, ())
  | .show n =>
    match b.terminal.ask .main with
    | .display bytes =>
      let part := (bytes.drop b.shown).take n
      some ({ b with screen := b.screen ++ part, shown := b.shown + part.length }, ())
    | _ => none

/-- A terminal with these settings. Peers and typists do what they like. -/
def machine (config : Config) : Machine Bridge Act Unit where
  start :=
    { terminal := (Terminal.start (.ok config)).1, log := (Terminal.start (.ok config)).2 }
  perform := perform

/-- Nothing is lost on the way through, and nothing is left when it ends by itself. -/
structure Faithful (b : Bridge) : Prop where
  screen : b.screen <+: b.peer.given
  accepted : b.accepted <+: b.keyboard.given
  /-- All that could be read was accepted, and that is all there was unless a read failed. -/
  endOfInput : info "End of input" ∈ b.log → b.accepted = b.keyboard.read ∧
    (b.keyboard.failed = false → b.keyboard.ended = true ∧ b.accepted = b.keyboard.given)
  closed : info "Connection closed" ∈ b.log → b.peer.ended = true ∧ b.screen = b.peer.given

/-! ## What a terminal is at -/

/-- The main loop waits for one of several things, or for a write. -/
def Free (t : Terminal) : Prop := t.stage = .selecting ∨ ∃ h, t.stage = .sending h

/-- What a read that ends the connection says of the peer. -/
structure Final (peer : Source) (o : Outcome) : Prop where
  data : ∀ bytes, o ≠ .data bytes
  closed : o = .closed → peer.Used

/-- What the connection does for the main loop apart from writes, with the bytes that were read and
are not shown yet. -/
inductive Attends (t : Terminal) (c : Connection) (peer : Source) : Nat → Bytes → Prop
  | calling {n} : t.stage = .connecting (.waiting (.task n)) → c.Calling n → t.read = none →
      t.reader = .off → t.config.link.readSize ≤ Link.maxBuffer → Attends t c peer 0 []
  | called {o} : t.stage = .connecting (.settled o) → (o = .connected → c.Ready) → c.tasks = [] →
      t.read = none → t.reader = .off → t.config.link.readSize ≤ Link.maxBuffer →
      Attends t c peer 0 []
  | showing {bytes shown} : t.stage = .showing bytes → t.read = none → c.tasks = [] → c.Ready →
      Attends t c peer shown (bytes.drop shown)
  | reading {n g} : Free t → t.read = some (.waiting (.task n)) → c.tasks = [⟨n, .reading g⟩] →
      c.Ready → Attends t c peer 0 []
  | ending {n last k} : Free t → t.read = some (.waiting (.task n)) →
      c.tasks = [⟨n, .ending last k⟩] → Final peer last → Attends t c peer 0 []
  | data {bytes} : Free t → t.read = some (.settled (.data bytes)) → c.tasks = [] → c.Ready →
      Attends t c peer 0 bytes
  | final {o} : Free t → t.read = some (.settled o) → c.tasks = [] → Final peer o →
      Attends t c peer 0 []

/-- What the connection writes for the main loop, with the bytes that are still to be accepted. -/
inductive Writes (t : Terminal) (q : WriteQueue) : Bytes → Prop
  | idle : (∀ h, t.stage ≠ .sending h) → q.Idle → Writes t q []
  | serving {n st} : t.stage = .sending (.waiting (.write n)) → q.Serves n st → Writes t q st.left
  | sent {o} : t.stage = .sending (.settled o) → (∀ e, o ≠ .failed e) → q.Idle → Writes t q []
  | failed {e left} : t.stage = .sending (.settled (.failed e)) → q.Idle → Writes t q left

/-- The chunk that the reader holds. -/
def held : Reader → Bytes
  | .offering chunk => chunk
  | _ => []

/-- No line says that the main loop stopped by itself. -/
structure Quiet (log : List Line) : Prop where
  endOfInput : info "End of input" ∉ log
  closed : info "Connection closed" ∉ log

/-- A bridge at work: what was read and is not shown yet, and what was taken of what was typed and is
not accepted yet. -/
structure Running (b : Bridge) (c : Connection) (unshown unsent : Bytes) : Prop where
  endpoint : b.terminal.endpoint = some (.connection c)
  attends : Attends b.terminal c b.peer b.shown unshown
  writes : Writes b.terminal c.link.queue unsent
  read : b.peer.read = b.screen ++ unshown
  typed : b.keyboard.read =
    b.accepted ++ (unsent ++ (b.terminal.chunks.flatten ++ held b.terminal.reader))
  done : b.terminal.reader = .done → b.keyboard.failed = true ∨ b.keyboard.Used
  quiet : Quiet b.log

/-- A bridge that is not used any more. -/
structure Over (b : Bridge) : Prop where
  isOver : b.terminal.isOver = true
  screen : b.screen <+: b.peer.read
  accepted : b.accepted <+: b.keyboard.read
  endOfInput : info "End of input" ∈ b.log → b.accepted = b.keyboard.read ∧
    (b.keyboard.failed = true ∨ b.keyboard.Used)
  closed : info "Connection closed" ∈ b.log → b.screen = b.peer.read ∧ b.peer.Used

/-- How far a bridge is. -/
inductive Course (b : Bridge) : Prop
  | running {c unshown unsent} : Running b c unshown unsent → Course b
  | ended : Over b → Course b

variable {b b' : Bridge} {t t' : Terminal} {c c' : Connection} {peer peer' : Source} {shown : Nat}
  {u unshown unsent : Bytes} {q q' : WriteQueue} {lines : List Line} {r : Terminal.Reply} {a : Act}

theorem Final.used (h : peer.Used) : Final peer .closed := ⟨nofun, fun _ => h⟩

theorem Final.failed (e : Error) : Final peer (.failed e) := ⟨nofun, nofun⟩

theorem Free.not_connecting {h : Terminal.Handle} (hf : Free t) (hs : t.stage = .connecting h) : False := by
  rcases hf with he | ⟨_, he⟩ <;> rw [hs] at he <;> cases he

theorem Free.not_showing {bytes : Bytes} (hf : Free t) (hs : t.stage = .showing bytes) : False := by
  rcases hf with he | ⟨_, he⟩ <;> rw [hs] at he <;> cases he

theorem Attends.congr (h : Attends t c peer shown u) (hs : t'.stage = t.stage)
    (hr : t'.read = t.read) (hoff : t.reader = .off → t'.reader = .off)
    (hc : t'.config = t.config) (hp : ∀ o, Final peer o → Final peer' o) :
    Attends t' c peer' shown u := by
  have free : Free t → Free t' := by rw [Free, Free, hs]; exact id
  cases h with
  | calling h hcall hread hre hsize =>
      exact .calling (hs.trans h) hcall (hr.trans hread) (hoff hre) (hc ▸ hsize)
  | called h hcon htasks hread hre hsize =>
      exact .called (hs.trans h) hcon htasks (hr.trans hread) (hoff hre) (hc ▸ hsize)
  | showing h hread htasks hready => exact .showing (hs.trans h) (hr.trans hread) htasks hready
  | reading hf hread htasks hready => exact .reading (free hf) (hr.trans hread) htasks hready
  | ending hf hread htasks hlast => exact .ending (free hf) (hr.trans hread) htasks (hp _ hlast)
  | data hf hread htasks hready => exact .data (free hf) (hr.trans hread) htasks hready
  | final hf hread htasks hlast => exact .final (free hf) (hr.trans hread) htasks (hp _ hlast)

/-- Reads go on while the main loop turns to a write or comes back from it. -/
theorem Attends.free (h : Attends t c peer shown u) (hf : Free t) (hf' : Free t')
    (hr : t'.read = t.read) (ht : c'.tasks = c.tasks) (hready : c.Ready → c'.Ready) :
    Attends t' c' peer shown u := by
  cases h with
  | calling h => exact (hf.not_connecting h).elim
  | called h => exact (hf.not_connecting h).elim
  | showing h => exact (hf.not_showing h).elim
  | reading _ hread htasks hc => exact .reading hf' (hr.trans hread) (ht.trans htasks) (hready hc)
  | ending _ hread htasks hlast => exact .ending hf' (hr.trans hread) (ht.trans htasks) hlast
  | data _ hread htasks hc => exact .data hf' (hr.trans hread) (ht.trans htasks) (hready hc)
  | final _ hread htasks hlast => exact .final hf' (hr.trans hread) (ht.trans htasks) hlast

/-! What follows from the place where the main loop is. -/

theorem Attends.places (h : Attends t c peer shown u) :
    (∃ h, t.stage = .connecting h) ∨ (∃ bytes, t.stage = .showing bytes) ∨ Free t := by
  cases h with
  | calling h => exact .inl ⟨_, h⟩
  | called h => exact .inl ⟨_, h⟩
  | showing h => exact .inr (.inl ⟨_, h⟩)
  | _ => exact .inr (.inr ‹_›)

theorem Attends.of_called {o : Outcome} (h : Attends t c peer shown u)
    (hs : t.stage = .connecting (.settled o)) : shown = 0 ∧ u = [] ∧ (o = .connected → c.Ready) ∧
      c.tasks = [] ∧ t.reader = .off ∧ t.config.link.readSize ≤ Link.maxBuffer := by
  cases h with
  | called h hcon htasks _ hoff hsize =>
      cases hs.symm.trans h
      exact ⟨rfl, rfl, hcon, htasks, hoff, hsize⟩
  | calling h => cases hs.symm.trans h
  | showing h => cases hs.symm.trans h
  | _ => exact (Free.not_connecting ‹_› hs).elim

theorem Attends.of_showing {bytes : Bytes} (h : Attends t c peer shown u)
    (hs : t.stage = .showing bytes) : u = bytes.drop shown ∧ c.Ready ∧ c.tasks = [] ∧ t.read = none := by
  cases h with
  | showing h hread htasks hready =>
      cases hs.symm.trans h
      exact ⟨rfl, hready, htasks, hread⟩
  | calling h => cases hs.symm.trans h
  | called h => cases hs.symm.trans h
  | _ => exact (Free.not_showing ‹_› hs).elim

theorem Attends.of_settled {o : Outcome} (h : Attends t c peer shown u)
    (hr : t.read = some (.settled o)) : shown = 0 ∧ c.tasks = [] ∧
      ((∃ bytes, o = .data bytes ∧ u = bytes ∧ c.Ready) ∨ (u = [] ∧ Final peer o)) := by
  cases h with
  | data _ h htasks hready =>
      cases hr.symm.trans h
      exact ⟨rfl, htasks, .inl ⟨_, rfl, rfl, hready⟩⟩
  | final _ h htasks hlast =>
      cases hr.symm.trans h
      exact ⟨rfl, htasks, .inr ⟨rfl, hlast⟩⟩
  | calling _ _ h | called _ _ _ h | showing _ h | reading _ h | ending _ h => cases hr.symm.trans h

/-- The main loop waits for no write with the worker of a read. -/
theorem Attends.read_settle {n : Nat} {o : Outcome} (h : Attends t c peer shown u) :
    t.read.map (·.settle (.write n) o) = t.read := by
  cases h <;> simp [*, Terminal.Handle.settle]

theorem Writes.congr (h : Writes t q u) (hs : t'.stage = t.stage) (hn : q'.nodes = q.nodes)
    (ht : q'.tasks = q.tasks) : Writes t' q' u := by
  cases h with
  | idle h hq => exact .idle (hs ▸ h) (hq.congr hn ht)
  | serving h hq => exact .serving (hs.trans h) (hq.congr hn ht)
  | sent h ho hq => exact .sent (hs.trans h) ho (hq.congr hn ht)
  | failed h hq => exact .failed (hs.trans h) (hq.congr hn ht)

theorem Writes.idle_of (h : Writes t q u) (hs : ∀ x, t.stage ≠ .sending x) : q.Idle ∧ u = [] := by
  cases h with
  | idle _ hq => exact ⟨hq, rfl⟩
  | serving h => exact absurd h (hs _)
  | sent h => exact absurd h (hs _)
  | failed h => exact absurd h (hs _)

/-! ## What comes from outside -/

theorem Course.later {keyboard : Source} (h : Course b) (hp : b.peer.Later peer)
    (hk : b.keyboard.Later keyboard) : Course { b with peer, keyboard } := by
  have spent : b.keyboard.failed = true ∨ b.keyboard.Used → keyboard.failed = true ∨ keyboard.Used :=
    Or.imp hk.failed.trans hk.used
  cases h with
  | running h =>
      exact .running {
        endpoint := h.endpoint
        attends := h.attends.congr rfl rfl id rfl fun o ho => ⟨ho.data, fun h => hp.used (ho.closed h)⟩
        writes := h.writes
        read := hp.read.trans h.read
        typed := hk.read.trans h.typed
        done := fun hr => spent (h.done hr)
        quiet := h.quiet }
  | ended h =>
      exact .ended {
        isOver := h.isOver
        screen := hp.read ▸ h.screen
        accepted := hk.read ▸ h.accepted
        endOfInput := fun hm => (h.endOfInput hm).imp (·.trans hk.read.symm) spent
        closed := fun hm => (h.closed hm).imp (·.trans hp.read.symm) hp.used }

theorem Course.interrupt (h : Course b) : Course { b with terminal := b.terminal.interrupt } := by
  rw [Terminal.interrupt_eq]
  cases h with
  | running h =>
      exact .running ⟨h.endpoint, h.attends.congr rfl rfl id rfl fun _ => id,
        h.writes.congr rfl rfl rfl, h.read, h.typed, h.done, h.quiet⟩
  | ended h => exact .ended ⟨h.isOver, h.screen, h.accepted, h.endOfInput, h.closed⟩

/-! ## Steps of the reader -/

theorem Quiet.append (h : Quiet b.log) (hl : ∀ l ∈ lines, l.level ≠ .info) :
    Quiet (b.log ++ lines) where
  endOfInput hm := (List.mem_append.mp hm).elim h.endOfInput fun hm => hl _ hm rfl
  closed hm := (List.mem_append.mp hm).elim h.closed fun hm => hl _ hm rfl

/-- The reader is on, so all stays as it is but what was typed. -/
theorem Running.fetch (h : Running b c unshown unsent) (hf : Fetches b.terminal r t' lines)
    (hb : b.answer (b.terminal.ask .reader) r = some b') :
    Running { b' with terminal := t', log := b.log ++ lines } c unshown unsent := by
  have attends : ∀ {t' : Terminal}, b.terminal.reader ≠ .off → t'.stage = b.terminal.stage →
      t'.read = b.terminal.read → t'.config = b.terminal.config →
      Attends t' c b.peer b.shown unshown := fun hn hs hr hc =>
    h.attends.congr hs hr (fun hoff => absurd hoff hn) hc fun _ => id
  have writes : ∀ {t' : Terminal}, t'.stage = b.terminal.stage → Writes t' c.link.queue unsent :=
    fun hs => h.writes.congr hs rfl rfl
  have typed := h.typed
  cases hf with
  | ended hr =>
      obtain ⟨keyboard, hk, rfl⟩ := Option.map_eq_some_iff.mp hb
      obtain ⟨hkr, -, hku⟩ := Source.read_of_take hk
      refine ⟨h.endpoint, attends (by simp [hr]) rfl rfl rfl, writes rfl, h.read, ?_,
        fun _ => .inr (hku rfl), h.quiet.append nofun⟩
      simpa [hkr, hr, held] using typed
  | failed hr =>
      cases hb
      refine ⟨h.endpoint, attends (by simp [hr]) rfl rfl rfl, writes rfl, h.read, ?_,
        fun _ => .inl rfl, h.quiet.append (by simp)⟩
      simpa [hr, held] using typed
  | kept hr =>
      obtain ⟨keyboard, hk, rfl⟩ := Option.map_eq_some_iff.mp hb
      obtain ⟨hkr, -, -⟩ := Source.read_of_take hk
      refine ⟨h.endpoint, attends (by simp [hr]) rfl rfl rfl, writes rfl, h.read, ?_,
        fun h => by simp [hr] at h, h.quiet.append nofun⟩
      simp [hkr, typed, hr, held]
  | held hr =>
      obtain ⟨keyboard, hk, rfl⟩ := Option.map_eq_some_iff.mp hb
      obtain ⟨hkr, -, -⟩ := Source.read_of_take hk
      refine ⟨h.endpoint, attends (by simp [hr]) rfl rfl rfl, writes rfl, h.read, ?_, nofun,
        h.quiet.append nofun⟩
      simp [hkr, typed, hr, Bridge.held]
  | offered hr =>
      cases hb
      refine ⟨h.endpoint, attends (by simp [hr]) rfl rfl rfl, writes rfl, h.read, ?_, nofun,
        h.quiet.append nofun⟩
      simpa [hr, held] using typed

/-! ## Steps of the workers -/

/-- A write goes on, and its stream takes what is no longer left. -/
theorem Writes.step {n : Nat} {o : Option Outcome} {r : Rfcomm.Reply} {unsent : Bytes}
    (ha : Attends t c peer shown u) (hw : Writes t c.link.queue unsent)
    (hr : c.resume (.write n) r = some (c', o)) (ht : t' = t.advance (.connection c') (.write n) o) :
    Attends t' c' peer shown u ∧ ∃ left, Writes t' c'.link.queue left ∧
      unsent = (c.ask (.write n)).taken r ++ left := by
  obtain ⟨⟨link, result⟩, hlink, he⟩ := Option.map_eq_some_iff.mp hr
  obtain ⟨⟨q, result'⟩, hq, hl⟩ := Option.map_eq_some_iff.mp hlink
  cases hl
  cases he
  have ready : c.Ready → Connection.Ready { c with link := { c.link with queue := q } } :=
    fun h => ⟨h.phase, h.link.isOpen, h.link.stream, h.link.calm⟩
  cases hw with
  | idle _ hidle => rw [hidle.resume] at hq; cases hq
  | sent _ _ hidle => rw [hidle.resume] at hq; cases hq
  | failed _ hidle => rw [hidle.resume] at hq; cases hq
  | @serving m st hs hserves =>
      have hfree : Free t := .inr ⟨_, hs⟩
      obtain ⟨rfl, ⟨st', rfl, hserves', hleft⟩ | ⟨k, rfl, hidle, hleft, htaken⟩ | ⟨e, rfl, hidle, left,
        hleft⟩⟩ := hserves.of_resume hq
      · subst ht
        exact ⟨ha.free hfree (.inr ⟨_, hs⟩) rfl rfl ready, _, .serving hs hserves', hleft⟩
      · have hs' : t'.stage = .sending (.settled (.sent k)) := by
          simp [ht, Terminal.advance, Terminal.settle, hs, Terminal.Handle.settle, Outcome.ofExcept,
            Except.mapError]
        refine ⟨ha.free hfree (.inr ⟨_, hs'⟩) (by rw [ht]; exact ha.read_settle) rfl ready, [],
          .sent hs' (by simp) hidle, ?_⟩
        rw [hleft]
        exact (congrArg (· ++ []) htaken).symm
      · have hs' : t'.stage = .sending (.settled (.failed (.write e))) := by
          simp [ht, Terminal.advance, Terminal.settle, hs, Terminal.Handle.settle, Outcome.ofExcept,
            Except.mapError]
        exact ⟨ha.free hfree (.inr ⟨_, hs'⟩) (by rw [ht]; exact ha.read_settle) rfl ready, left,
          .failed hs' hidle, hleft.symm⟩

theorem Writes.aside {n : Nat} {o : Option Outcome} {e : Endpoint} (hw : Writes t q u)
    (hn : q'.nodes = q.nodes) (ht : q'.tasks = q.tasks) :
    Writes (t.advance e (.task n) o) q' u := by
  cases o with
  | none => exact hw.congr rfl hn ht
  | some o =>
      cases hw with
      | idle hs hq =>
          refine .idle (fun x hx => ?_) (hq.congr hn ht)
          cases h : t.stage <;> simp [Terminal.advance, Terminal.settle, h] at hx
          exact hs _ h
      | serving hs hq =>
          exact .serving (by simp [Terminal.advance, Terminal.settle, hs, Terminal.Handle.settle])
            (hq.congr hn ht)
      | sent hs ho hq =>
          exact .sent (by simp [Terminal.advance, Terminal.settle, hs, Terminal.Handle.settle]) ho
            (hq.congr hn ht)
      | @failed e _ hs hq =>
          exact .failed (e := e)
            (by simp [Terminal.advance, Terminal.settle, hs, Terminal.Handle.settle]) (hq.congr hn ht)

theorem eq_of_answer {ask : Terminal.Ask} {r : Rfcomm.Reply} (hb : b.answer ask (.link r) = some b')
    (hw : ∀ k, r ≠ .wrote (.ok k)) (hr : ∀ bytes, r ≠ .read (.ok bytes)) : b' = b := by
  have ht : taken ask r = [] := by
    unfold taken
    split
    · exact Ask.taken_of_ne hw
    · rfl
  have he : b.answer ask (.link r) = some { b with accepted := b.accepted ++ taken ask r } := by
    cases r with
    | read got =>
        cases got with
        | ok bytes => exact absurd rfl (hr bytes)
        | error f => rfl
    | _ => rfl
  rw [he, ht, List.append_nil] at hb
  exact (Option.some.inj hb).symm

theorem Free.advance {n : Nat} {o : Option Outcome} {e : Endpoint} (hf : Free t) :
    Free (t.advance e (.task n) o) := by
  cases o with
  | none => exact hf
  | some o =>
      refine hf.imp (fun h => ?_) fun ⟨x, h⟩ => ⟨x.settle (.task n) o, ?_⟩ <;>
        simp [Terminal.advance, Terminal.settle, h]

theorem settled_connecting {n : Nat} {o : Outcome} {e : Endpoint}
    (hs : t.stage = .connecting (.waiting (.task n))) :
    (t.advance e (.task n) (some o)).stage = .connecting (.settled o) := by
  simp [Terminal.advance, Terminal.settle, hs, Terminal.Handle.settle]

/-- A task of the connection goes on. What it reads is there to be shown. -/
theorem Attends.step {n : Nat} {o : Option Outcome} {r : Rfcomm.Reply} {ask : Terminal.Ask}
    (ha : Attends b.terminal c b.peer shown u) (hr : c.resume (.task n) r = some (c', o))
    (ht : t' = b.terminal.advance (.connection c') (.task n) o) (hb : b.answer ask (.link r) = some b') :
    ∃ peer new, b' = { b with peer } ∧ peer.read = b.peer.read ++ new ∧
      Attends t' c' peer shown (u ++ new) ∧ c'.link.queue.nodes = c.link.queue.nodes ∧
      c'.link.queue.tasks = c.link.queue.tasks := by
  have still : b' = b → Attends t' c' b.peer shown u →
      c'.link.queue.nodes = c.link.queue.nodes ∧ c'.link.queue.tasks = c.link.queue.tasks →
      ∃ peer new, b' = { b with peer } ∧ peer.read = b.peer.read ++ new ∧
        Attends t' c' peer shown (u ++ new) ∧ c'.link.queue.nodes = c.link.queue.nodes ∧
        c'.link.queue.tasks = c.link.queue.tasks := fun he ha hq =>
    ⟨b.peer, [], he, by simp, by simpa using ha, hq⟩
  have none_of_nil : c.tasks = [] → c.resume (.task n) r = none := fun h => by
    simp [Connection.resume, h]
  cases ha with
  | @calling m hs hcall hread hoff hsize =>
      obtain ⟨rfl, hgo, hn, hq, ho⟩ := hcall.of_resume hr
      have hb' : b' = b := by
        rcases hgo with rfl | ⟨_, rfl⟩ <;> exact eq_of_answer hb nofun nofun
      refine still hb' ?_ ⟨hn, hq⟩
      rcases ho with ⟨rfl, hcall⟩ | ⟨e, rfl, htasks⟩ | ⟨rfl, hready, htasks⟩
      · exact ht ▸ .calling hs hcall hread hoff hsize
      · exact ht ▸ .called (settled_connecting hs) nofun htasks (Terminal.advance_read_none hread) hoff hsize
      · exact ht ▸ .called (settled_connecting hs) (fun _ => hready) htasks
          (Terminal.advance_read_none hread) hoff hsize
  | called _ _ htasks => rw [none_of_nil htasks] at hr; cases hr
  | showing _ _ htasks => rw [none_of_nil htasks] at hr; cases hr
  | @reading m g hf hread htasks hready =>
      obtain ⟨rfl, hq, ⟨g', rfl, rfl, htasks, hready⟩ | ⟨rfl, rfl, htasks⟩ |
        ⟨bytes, hne, rfl, rfl, htasks, hready⟩ | ⟨result, last, k, hlast, rfl, rfl, htasks⟩⟩ :=
        hready.of_reading htasks hr
      all_goals rw [hq] at still ⊢
      · exact still (eq_of_answer hb nofun nofun) (ht ▸ .reading hf hread htasks hready) ⟨rfl, rfl⟩
      · exact still (eq_of_answer hb nofun nofun)
          (ht ▸ .final hf.advance (Terminal.advance_read_waiting hread) htasks (.failed _)) ⟨rfl, rfl⟩
      · obtain ⟨peer, hp, rfl⟩ := Option.map_eq_some_iff.mp hb
        exact ⟨peer, bytes, rfl, (Source.read_of_take hp).1,
          ht ▸ .data hf.advance (Terminal.advance_read_waiting hread) htasks hready, rfl, rfl⟩
      · cases hlast with
        | ended =>
            obtain ⟨peer, hp, rfl⟩ := Option.map_eq_some_iff.mp hb
            obtain ⟨hpr, -, hused⟩ := Source.read_of_take hp
            exact ⟨peer, [], rfl, hpr, ht ▸ .ending hf hread htasks (.used (hused rfl)), rfl, rfl⟩
        | failed =>
            exact still (eq_of_answer hb nofun nofun) (ht ▸ .ending hf hread htasks (.failed _)) ⟨rfl, rfl⟩
  | @ending m last k hf hread htasks hlast =>
      obtain ⟨rfl, hgo, hn, hq, ho⟩ := Connection.of_ending htasks hr
      have hb' : b' = b := by
        rcases hgo with rfl | rfl <;> exact eq_of_answer hb nofun nofun
      refine still hb' ?_ ⟨hn, hq⟩
      rcases ho with ⟨k', rfl, htasks⟩ | ⟨rfl, htasks⟩
      · exact ht ▸ .ending hf hread htasks hlast
      · exact ht ▸ .final hf.advance (Terminal.advance_read_waiting hread) htasks hlast
  | data _ _ htasks => rw [none_of_nil htasks] at hr; cases hr
  | final _ _ htasks => rw [none_of_nil htasks] at hr; cases hr

theorem Running.work {k : Worker} {e e' : Endpoint} {r : Rfcomm.Reply} {o : Option Outcome}
    (h : Running b c unshown unsent) (ho : b.terminal.isOver = false)
    (he : b.terminal.endpoint = some e) (hr : e.resume k r = some (e', o))
    (hb : b.answer (b.terminal.ask (.worker k)) (.link r) = some b') :
    Course { b' with terminal := b.terminal.advance e' k o } := by
  obtain rfl := Option.some.inj (he.symm.trans h.endpoint)
  obtain ⟨⟨c', o⟩, hr, hp⟩ := Option.map_eq_some_iff.mp hr
  cases hp
  cases k with
  | write n =>
      obtain ⟨ha, left, hw, hleft⟩ := h.writes.step h.attends hr rfl
      have hnot : ∀ got, r ≠ .read got := fun got => by
        obtain ⟨_, hl, -⟩ := Option.map_eq_some_iff.mp hr
        obtain ⟨_, hq, -⟩ := Option.map_eq_some_iff.mp hl
        exact WriteQueue.not_read_of_resume hq
      have hb : some { b with accepted := b.accepted ++ (c.ask (.write n)).taken r } = some b' := by
        rw [← hb, Terminal.ask_worker ho h.endpoint]
        cases r with
        | read got => exact absurd rfl (hnot got)
        | _ => rfl
      cases hb
      refine .running ⟨Terminal.advance_endpoint .., ha, hw, h.read, ?_, fun hd => h.done ?_, h.quiet⟩
      · rw [h.typed, hleft]
        simp [Terminal.advance_input]
      · simpa [Terminal.advance_input] using hd
  | task n =>
      obtain ⟨peer, new, rfl, hpr, ha, hn, hq⟩ := h.attends.step hr rfl hb
      refine .running ⟨Terminal.advance_endpoint .., ha, h.writes.aside hn hq, ?_, ?_, fun hd => h.done ?_,
        h.quiet⟩
      · simp [hpr, h.read]
      · simpa [Terminal.advance_input] using h.typed
      · simpa [Terminal.advance_input] using hd

end Bridge

end Rfcomm
