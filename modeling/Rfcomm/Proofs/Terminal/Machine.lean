import Rfcomm.Proofs.Machine
import Rfcomm.Terminal.Work
/-!
Terminals as machines: what the main loop, the reader and the workers do next, in any order, with the
interruptions from outside. A relation has a rule for each way that a step of the main loop can go, and
every step follows one of them.
-/
namespace Rfcomm.Terminal

/-- What can happen to a terminal. -/
inductive Act
  | step (a : Actor) (r : Reply)
  | interrupt

/-- What an act does, with the lines that it logs. An actor goes on only with what it waits for. -/
def perform (t : Terminal) : Act → Option (Terminal × List Line)
  | .step a r => t.resume a r
  | .interrupt => some (t.interrupt, [])

/-- One moment of a terminal. -/
abbrev Moment := Rfcomm.Moment Terminal Act (List Line)

/-- Whether the main loop waits for the first of several things. -/
def isSelecting (t : Terminal) : Bool :=
  match t.stage with
  | .selecting => true
  | _ => false

/-- Whether the main loop waits until typed bytes went out. -/
def isSending (t : Terminal) : Bool :=
  match t.stage with
  | .sending _ => true
  | _ => false

/-- A terminal. An interruption is one for it only after the main loop has waited for one. -/
def machine (settings : Except Config.StoreError Config) : Machine Terminal Act (List Line) where
  start := (start settings).1
  perform := perform
  allows ms a := match a with
    | .interrupt => ms.any (·.after.isSelecting)
    | .step _ _ => true

/-! ## Steps of the main loop -/

/-- Waits again, with the first event taken. -/
def received (t : Terminal) (s : Server) (rest : List Server.Event) : Terminal :=
  { t.select with endpoint := some (.server { s with feed := { s.feed with queue := rest } }) }

/-- Why the main loop stops, and the line that says so. -/
inductive Stops (t : Terminal) : Branch → Line → Prop
  | closed {c} : t.endpoint = some (.connection c) → t.read = some (.settled .closed) →
      Stops t .read (info "Connection closed")
  | endOfInput {c} : t.endpoint = some (.connection c) → t.inputOpen = true → t.chunks = [] →
      t.reader = .done → Stops t .chunk (info "End of input")
  | interrupted : t.interrupted = true → Stops t .signal (info "Shutdown signal received")

/-- What a step of the main loop can do. -/
inductive Proceeds (t : Terminal) : Reply → Terminal → List Line → Prop
  | connected : t.stage = .connecting (.settled .connected) →
      Proceeds t .go t.startReader.startRead.select []
  | listening : t.stage = .listening (.settled .listening) →
      Proceeds t .go t.startReader.select []
  | prepare {r p lines} : t.stage = .opening ∨ (∃ q, t.stage = .preparing q) →
      Proceeds t r { t with stage := .preparing p } lines
  | prepared {r q lines} : t.stage = .preparing q → Proceeds t r t.startListening lines
  | clientConnected {s a rest} : t.stage = .selecting → t.endpoint = some (.server s) →
      s.feed.queue = .connected a :: rest →
      Proceeds t (.chosen .event) (t.received s rest).startRead
        [info ("Client connected: " ++ a.toText)]
  | noted {s e rest lines} : t.stage = .selecting → t.endpoint = some (.server s) →
      s.feed.queue = e :: rest → (∀ a, e ≠ .connected a) →
      Proceeds t (.chosen .event) (t.received s rest) lines
  | feedEnded {s} : t.stage = .selecting → t.endpoint = some (.server s) → s.feed.queue = [] →
      s.feed.sending = false →
      Proceeds t (.chosen .event) { t.shut with stage := .ended (.ok ()) } [stopLine]
  | data {bytes} : t.stage = .selecting → t.read = some (.settled (.data bytes)) →
      Proceeds t (.chosen .read) { t with read := none, stage := .showing bytes } []
  | clientEnded {s} : t.stage = .selecting → t.endpoint = some (.server s) →
      t.read = some (.settled .closed) → Proceeds t (.chosen .read) { t with read := none }.select []
  /-- A failed read of a server gives its client up. -/
  | readFailed {s e} : t.stage = .selecting → t.endpoint = some (.server s) →
      t.read = some (.settled (.failed e)) →
      Proceeds t (.chosen .read)
        { ({ t with read := none } : Terminal).select with
          endpoint := some (.server s.disconnectClient) }
        [⟨.warn, "Read failed: " ++ e.message⟩]
  | shown {bytes} : t.stage = .showing bytes →
      Proceeds t (.displayed (.ok ())) t.startRead.select []
  | write {e chunk chunks} : t.stage = .selecting → t.endpoint = some e →
      t.chunks = chunk :: chunks → (∀ s, e = .server s → s.isOpen = true) →
      Proceeds t (.chosen .chunk) ({ t with chunks }.startWrite chunk) []
  /-- There is no client to take the chunk. -/
  | discard {s chunk chunks} : t.stage = .selecting → t.endpoint = some (.server s) →
      t.chunks = chunk :: chunks → s.isOpen = false →
      Proceeds t (.chosen .chunk) { t with chunks }.select []
  | inputOver {s} : t.stage = .selecting → t.endpoint = some (.server s) → t.chunks = [] →
      Proceeds t (.chosen .chunk) { t with inputOpen := false }.select []
  | sent {o} : t.stage = .sending (.settled o) → (∀ e, o ≠ .failed e) → Proceeds t .go t.select []
  | writeFailed {e} : t.stage = .sending (.settled (.failed e)) →
      (∀ c, t.endpoint ≠ some (.connection c)) →
      Proceeds t .go t.select [⟨.warn, "Write failed: " ++ e.message⟩]
  | stop {b l} : t.stage = .selecting → Stops t b l →
      Proceeds t (.chosen b) (t.stop l).1 (t.stop l).2
  | fail {r f} : Proceeds t r (t.fail f).1 []

/-! ## Steps of the others -/

/-- What a step of the reader can do. -/
inductive Fetches (t : Terminal) : Reply → Terminal → List Line → Prop
  | ended : t.reader = .reading → Fetches t (.input (.ok [])) { t with reader := .done } []
  | failed {f} : t.reader = .reading →
      Fetches t (.input (.error f)) { t with reader := .done }
        [⟨.error, "Failed to read stdin: " ++ f.text⟩]
  | kept {chunk} : t.reader = .reading → chunk ≠ [] → chunk.length ≤ t.config.link.readSize →
      t.hasRoom = true →
      Fetches t (.input (.ok chunk)) { t with chunks := t.chunks ++ [chunk] } []
  | held {chunk} : t.reader = .reading → chunk ≠ [] → chunk.length ≤ t.config.link.readSize →
      t.hasRoom = false →
      Fetches t (.input (.ok chunk)) { t with reader := .offering chunk } []
  | offered {chunk} : t.reader = .offering chunk → t.hasRoom = true →
      Fetches t .go { t with chunks := t.chunks ++ [chunk], reader := .reading } []

/-- The endpoint went on, and a job of it may have ended. -/
def advance (t : Terminal) (e : Endpoint) (k : Worker) (o : Option Outcome) : Terminal :=
  o.elim { t with endpoint := some e } (({ t with endpoint := some e } : Terminal).settle k)

/-- What the acts of a terminal do. -/
inductive Does (t : Terminal) : Act → Terminal → List Line → Prop
  | main {r t' lines} : Proceeds t r t' lines → Does t (.step .main r) t' lines
  | reader {r t' lines} : Fetches t r t' lines → Does t (.step .reader r) t' lines
  | worker {k e r e' o} : t.endpoint = some e → e.resume k r = some (e', o) →
      Does t (.step (.worker k) (.link r)) (t.advance e' k o) []
  | interrupt : Does t .interrupt t.interrupt []

/-! ## Every act follows a rule -/

variable {t t' : Terminal} {r : Reply} {lines : List Line} {b : Branch} {a : Act}

theorem isSelecting_iff : t.isSelecting = true ↔ t.stage = .selecting := by
  cases h : t.stage <;> simp [isSelecting, h]

theorem isSending_iff : t.isSending = true ↔ ∃ h, t.stage = .sending h := by
  cases h : t.stage <;> simp [isSending, h]

theorem chunk_of_branch (h : Branch.chunk ∈ t.branches) :
    t.inputOpen = true ∧ (t.chunks ≠ [] ∨ t.reader = .done) := by
  simp only [branches, List.mem_append] at h
  grind

theorem signal_mem_branches : Branch.signal ∈ t.branches ↔ t.interrupted = true := by
  simp only [branches, List.mem_append]
  grind

theorem proceeds_of_takeEvent {s : Server} (hs : t.stage = .selecting)
    (he : t.endpoint = some (.server s)) (h : t.takeEvent s = some (t', lines)) :
    Proceeds t (.chosen .event) t' lines := by
  simp only [takeEvent] at h
  split at h
  · rename_i htake
    split at h <;> cases h
    exact .feedEnded hs he (Server.Feed.take_eq_none_iff.mp htake) (Bool.eq_false_iff.mpr ‹_›)
  · rename_i e feed htake
    obtain ⟨rest, hq, rfl⟩ := Server.Feed.take_eq_some_iff.mp htake
    cases e with
    | connected a => cases h; exact .clientConnected hs he hq
    | _ => cases h; exact .noted hs he hq (by simp)

theorem proceeds_of_takeRead {o : Outcome} (hs : t.stage = .selecting)
    (hr : t.read = some (.settled o)) (h : t.takeRead o = some (t', lines)) :
    Proceeds t (.chosen .read) t' lines := by
  unfold takeRead at h
  dsimp only at h
  split at h <;> cases h
  · exact .data hs hr
  · exact .stop hs (.closed ‹_› hr)
  · exact .fail
  · exact .clientEnded hs ‹_› hr
  · exact .readFailed hs ‹_› hr

theorem proceeds_of_takeChunk (hs : t.stage = .selecting) (hb : Branch.chunk ∈ t.branches)
    (h : t.takeChunk = some (t', lines)) : Proceeds t (.chosen .chunk) t' lines := by
  obtain ⟨hopen, hc⟩ := chunk_of_branch hb
  simp only [takeChunk] at h
  split at h
  · cases h
    exact .write hs ‹_› ‹_› fun s hs => by cases hs
  · rename_i s chunk chunks he hq
    split at h <;> cases h
    · exact .write hs he hq fun s' hs' => by cases hs'; assumption
    · exact .discard hs he hq (Bool.eq_false_iff.mpr ‹_›)
  · rename_i he hq
    cases h
    exact .stop hs (.endOfInput he hopen hq (hc.resolve_left (absurd hq)))
  · cases h
    exact .inputOver hs ‹_› ‹_›
  · cases h

/-- Every step of the main loop follows one of the rules. -/
theorem proceeds_of_resumeMain (h : t.resumeMain r = some (t', lines)) :
    Proceeds t r t' lines := by
  simp only [resumeMain] at h
  split at h
  · cases h; exact .connected ‹_›
  · cases h; exact .fail
  · cases h; exact .prepare (.inl ‹_›)
  · cases h; exact .fail
  · rename_i hs
    simp only [prepared] at h
    split at h
    · split at h <;> cases h
      · exact .prepare (.inr ⟨_, hs⟩)
      · exact .fail
    all_goals cases h
    any_goals exact .prepare (.inr ⟨_, hs⟩)
    exact .prepared hs
  · cases h; exact .fail
  · cases h; exact .listening ‹_›
  · cases h; exact .fail
  · rename_i b hs
    simp only [take] at h
    split at h
    · rename_i hb
      have hb : b ∈ t.branches := by simpa using hb
      split at h
      · split at h
        · exact proceeds_of_takeEvent hs ‹_› h
        · cases h
      · split at h
        · exact proceeds_of_takeRead hs ‹_› h
        · cases h
      · exact proceeds_of_takeChunk hs hb h
      · cases h; exact .stop hs (.interrupted (signal_mem_branches.mp hb))
    · cases h
  · cases h; exact .shown ‹_›
  · cases h; exact .fail
  · rename_i o hs
    simp only [sent] at h
    split at h <;> cases h
    · exact .fail
    · exact .writeFailed hs ‹_›
    · exact .sent hs ‹_›
  · cases h

theorem fetches_of_resumeReader (h : t.resumeReader r = some (t', lines)) :
    Fetches t r t' lines := by
  simp only [resumeReader] at h
  split at h
  · cases h; exact .ended ‹_›
  · rename_i hne hr
    split at h
    · split at h <;> cases h
      · exact .kept hr hne ‹_› ‹_›
      · exact .held hr hne ‹_› (Bool.eq_false_iff.mpr ‹_›)
    · cases h
  · cases h; exact .failed ‹_›
  · split at h <;> cases h
    exact .offered ‹_› ‹_›
  · cases h

/-- Every act follows one of the rules, and nobody takes a step after the main loop is over. -/
theorem does_of_perform (h : t.perform a = some (t', lines)) :
    Does t a t' lines ∧ (a ≠ .interrupt → t.isOver = false) := by
  cases a with
  | interrupt => cases h; exact ⟨.interrupt, fun hn => absurd rfl hn⟩
  | step actor r =>
      simp only [perform, resume] at h
      split at h
      · cases h
      · refine ⟨?_, fun _ => Bool.eq_false_iff.mpr ‹_›⟩
        split at h
        · exact .main (proceeds_of_resumeMain h)
        · exact .reader (fetches_of_resumeReader h)
        · split at h <;> cases h
          rename_i hr
          obtain ⟨e, he, hr⟩ := Option.bind_eq_some_iff.mp hr
          exact .worker he hr
        · cases h

/-! ## What an act leaves as it is -/

theorem interrupt_eq (t : Terminal) :
    t.interrupt = { t with interrupted := t.isSelecting || t.interrupted } := by
  obtain ⟨_, stage, _⟩ := t
  cases stage <;> rfl

/-- The main loop is answered neither by a link nor by a keyboard. -/
theorem own_of_resumeMain (h : t.resumeMain r = some (t', lines)) :
    (∀ x, r ≠ .link x) ∧ ∀ x, r ≠ .input x := by
  constructor <;> rintro x rfl <;> unfold resumeMain at h <;> split at h <;> simp_all

theorem showing_of_ask {bytes : Bytes} (h : t.ask .main = .display bytes) :
    t.stage = .showing bytes := by
  unfold Terminal.ask at h
  split at h
  · cases h
  · simp only [askMain] at h
    split at h
    any_goals cases h
    · split at h <;> cases h
    · assumption

theorem ask_worker {k : Worker} {e : Endpoint} (ho : t.isOver = false) (he : t.endpoint = some e) :
    t.ask (.worker k) = .link (e.ask k) := by
  simp [Terminal.ask, ho, he]

theorem advance_endpoint (t : Terminal) (e : Endpoint) (k : Worker) (o : Option Outcome) :
    (t.advance e k o).endpoint = some e := by
  cases o <;> rfl

theorem advance_input {e : Endpoint} {k : Worker} {o : Option Outcome} :
    (t.advance e k o).chunks = t.chunks ∧ (t.advance e k o).reader = t.reader := by
  cases o <;> exact ⟨rfl, rfl⟩

theorem advance_read {e : Endpoint} {k : Worker} {o : Option Outcome} :
    (t.advance e k o).read = o.elim t.read fun o => t.read.map (·.settle k o) := by
  cases o <;> rfl

theorem advance_read_none {e : Endpoint} {k : Worker} {o : Option Outcome} (h : t.read = none) :
    (t.advance e k o).read = none := by
  cases o <;> simp [advance_read, h]

theorem advance_read_settled {e : Endpoint} {k : Worker} {o : Option Outcome} {result : Outcome}
    (h : t.read = some (.settled result)) : (t.advance e k o).read = some (.settled result) := by
  cases o <;> simp [advance_read, h, Handle.settle]

/-- The read that ended is the one that the main loop waits for. -/
theorem advance_read_waiting {e : Endpoint} {k : Worker} {o : Outcome}
    (h : t.read = some (.waiting k)) : (t.advance e k (some o)).read = some (.settled o) := by
  simp [advance_read, h, Handle.settle]

theorem advance_read_other {e : Endpoint} {k k' : Worker} {o : Option Outcome}
    (h : t.read = some (.waiting k)) (hk : k ≠ k') : (t.advance e k' o).read = some (.waiting k) := by
  cases o <;> simp [advance_read, h, Handle.settle, hk]

end Rfcomm.Terminal
