import Rfcomm.Proofs.Server.Rest
import Rfcomm.Proofs.Terminal.Chunks
/-!
Whom a switchboard attends to. When all is at rest, the main loop reads from the client that is there
if and only if the event that announced the client was delivered. If the feed was full, the event was
dropped, and nobody reads from the client.
-/
namespace Rfcomm.Switchboard

open Server (NoNews)

/-- The main loop waits in vain, and no worker of its server can go on by itself. -/
structure Rests (t : Terminal) (s : Server) : Prop where
  selecting : t.isSelecting = true
  blocked : t.ask .main = .blocked
  endpoint : t.endpoint = some (.server s)
  workers : s.Rests fun _ => True

/-- The read of the main loop is one of this client, and goes on. -/
def Reads (t : Terminal) (s : Server) (c : Server.Client) : Prop :=
  ∃ n g, t.read = some (.waiting (.task n)) ∧ s.stage? n = some (.reading c.generation g)

variable {tuning : Config.Tuning} {b : Switchboard} {t : Terminal} {s : Server} {told : Server.Client → Prop}
  {last : Option StreamId} {shown : Nat} {u : Bytes} {c : Server.Client} {ms : List Moment}

/-! ## At rest -/

theorem blocked_iff (hs : t.isSelecting = true) : t.ask .main = .blocked ↔ t.branches = [] := by
  have hst := Terminal.isSelecting_iff.mp hs
  have ho : t.isOver = false := by rw [Terminal.isOver, hst]
  simp only [Terminal.ask, ho, Terminal.askMain, hst]
  cases t.branches <;> simp

theorem Rests.no_events (h : Rests t s) : s.feed.queue = [] := by
  have hb := (blocked_iff h.selecting).mp h.blocked
  simp only [Terminal.branches, List.append_eq_nil_iff] at hb
  by_contra hq
  simp [Terminal.feed?, h.endpoint, hq] at hb

theorem Rests.not_settled {o : Outcome} (h : Rests t s) : t.read ≠ some (.settled o) := by
  intro hr
  have hb := (blocked_iff h.selecting).mp h.blocked
  simp [Terminal.branches, hr] at hb

theorem rests_of_checks (hs : t.isSelecting = true) (hb : t.branches = [])
    (he : t.endpoint = some (.server s)) (hw : ∀ w ∈ s.workers, s.ask w ≠ .ready) : Rests t s := by
  refine ⟨hs, (blocked_iff hs).mpr hb, he, Server.rests_of_workers fun w hm => ?_⟩
  cases ha : s.ask w with
  | blocked => exact .inl rfl
  | ready => exact absurd ha (hw w hm)
  | call c => exact .inr ⟨c, rfl, trivial⟩

theorem Past.not_reads (h : Past t s) : ¬ Reads t s c := by
  rintro ⟨n, g, hr, hn⟩
  cases h with
  | none h | closed h => cases h.symm.trans hr
  | losing h hs =>
      cases h.symm.trans hr
      cases hs.symm.trans hn

/-- At rest, the main loop reads from the client if it was told of it, and only then. -/
theorem Standing.reads_iff (h : Standing t s last told shown u) (hr : Rests t s)
    (hc : s.client = some c) : Reads t s c ↔ told c := by
  have mine : ∀ {c' last}, s.Seats c' last → c' = c := fun h => Option.some.inj (h.client.symm.trans hc)
  cases h with
  | vacant _ _ hn => cases hn.symm.trans hc
  | announced _ _ _ _ hq =>
      obtain ⟨rest, hq, -⟩ := hq
      rw [hr.no_events] at hq
      simp at hq
  | unnoticed _ hp hs _ _ ht =>
      obtain rfl := mine hs
      exact iff_of_false hp.not_reads ht
  | reading _ hread hn ha =>
      obtain rfl := mine ha.seats
      exact iff_of_true ⟨_, _, hread, hn⟩ ha.told
  | data _ h | failed _ h => exact absurd h hr.not_settled
  | showing h => cases (Terminal.isSelecting_iff.mp hr.selecting).symm.trans h
  | dismissing _ _ _ hn =>
      exact absurd (by rw [Server.ask_task hn]; rfl) (hr.workers.not_ready (.task _))

theorem Course.reads_iff (h : Course tuning told b) (hr : Rests b.terminal s) (hc : s.client = some c) :
    Reads b.terminal s c ↔ told c := by
  cases h with
  | early h => cases h.endpoint.symm.trans hr.endpoint
  | hosting h =>
      cases h.endpoint.symm.trans hr.endpoint
      exact h.stands.reads_iff hr hc
  | ended ho =>
      rw [Terminal.isOver, Terminal.isSelecting_iff.mp hr.selecting] at ho
      cases ho

theorem Course.shows (h : Course tuning told b) : ∃ u, Shows b u := by
  cases h with
  | early h => exact ⟨_, h.shows⟩
  | hosting h => exact ⟨_, h.shows⟩
  | ended _ h => exact ⟨_, h⟩

/-- A client is announced if and only if fewer events wait than the feed has room for. -/
theorem heralds_iff_of_run {config : Config} {m : Moment} (hmode : config.bluetooth.mode = .server)
    (h : (machine config).Run ms b) (hm : m ∈ ms) :
    Heralds m c ↔ ∃ n < config.link.eventCapacity, Enters m c n := by
  obtain ⟨as, bs, rfl⟩ := List.append_of_mem hm
  obtain ⟨hr, -, hp, -⟩ := h.moment
  exact (course_of_run hmode hr).heralds_iff hp

/-- Whatever the callers do and whatever is typed, with whatever settings: at rest, the main loop reads
from a client if and only if the event that announced it was delivered, and that was so if and only if
there was room for it in the feed when the client came. What is shown is what was read of the callers one
after the other, and what is typed goes to one of them at most. -/
theorem attends_announced_clients {config : Config} (hmode : config.bluetooth.mode = .server) :
    ∀ ms b, (machine config).Run ms b →
      (∀ s c, Rests b.terminal s → s.client = some c →
        (Reads b.terminal s c ↔ ∃ m ∈ ms, Heralds m c)) ∧
      (∀ m ∈ ms, ∀ c, Heralds m c ↔ ∃ n < config.link.eventCapacity, Enters m c n) ∧
      (∃ parts : List Bytes,
        List.Forall₂ (fun part x => part <+: (b.sources x).given) parts b.accepted ∧
          b.screen = parts.flatten) ∧
      (sent ms).Sublist (typed ms) ∧ Dealt (states ms b) (sent ms) := by
  intro ms b h
  have hcourse := course_of_run hmode h
  obtain ⟨u, hshows⟩ := hcourse.shows
  exact ⟨fun s c hr hc => hcourse.reads_iff hr hc, fun m hm c => heralds_iff_of_run hmode h hm,
    hshows.parts,
    (List.sublist_append_left ..).trans (sent_sublist_typed hmode h), dealt_of_run hmode h⟩

/-! Two callers one after the other, with room for a single event. The first sends two bytes and gets the
one that is typed; it is gone before the second calls. -/

def narrow : Config := { bluetooth := { mode := .server }, link := { eventBuffer := 1 } }

def narrowText : String := "[bluetooth]\nmode = \"server\"\n\n[link]\nevent_buffer = 1\n"

def work (k : Worker) (r : Rfcomm.Reply) : Act := .step (.worker k) (.link r)

def take (branch : Terminal.Branch) : Act := .step .main (.chosen branch)

def prepare : List Act :=
  [.step .main (.opened (.ok ())), .step .main (.bus (.ok (.adapters ["hci0"]))),
    .step .main (.bus (.ok (.value (.flag true)))), .step .main (.bus (.ok .done)),
    .step .main (.bus (.ok .done)), .step .main (.bus (.ok (.value (.text "")))),
    work (.task 0) (.bound (.ok 0)), work (.task 0) (.registered (.ok 0)), work (.task 0) .go,
    .step .main .go]

/-- A task accepts a caller, who becomes the client. -/
def enter (n : Nat) (x : StreamId) : List Act :=
  [work (.task n) .go, work (.task n) (.accepted (.ok (x, .any))), work (.task n) .go,
    work (.task n) .withdrawn, work (.task n) .go, work (.task n) .go]

def converse : List Act :=
  [take .event, .send 7 [1, 2], work (.task 2) .go, work (.task 2) .go,
    work (.task 2) (.read (.ok [1, 2])), take .read, .show 2, .step .main (.displayed (.ok ())),
    .step .reader (.input (.ok [3])), take .chunk, work (.write 0) .go, work (.write 0) .go,
    work (.write 0) (.wrote (.ok 1)), work (.write 0) (.flushed (.ok ())), .step .main .go]

/-- The client ends its stream, and its read notices. -/
def leave : List Act :=
  [.finish 7, work (.task 3) .go, work (.task 3) .go, work (.task 3) (.read (.ok [])),
    work (.task 3) .go, work (.task 3) .go, work (.task 3) .shutDown, work (.task 3) .go,
    work (.task 3) (.registered (.ok 1))]

def firstVisit : List Act := prepare ++ enter 1 7 ++ converse ++ leave

/-- Checks something of a server, and that all is at rest. -/
def restsWith (t : Terminal) (P : Server → Bool) : Bool :=
  match t.endpoint with
  | some (.server s) => t.isSelecting && t.branches.isEmpty && s.workers.all (s.ask · ≠ .ready) && P s
  | _ => false

theorem rests_of_restsWith {P : Server → Bool} (h : restsWith t P = true) :
    ∃ s, Rests t s ∧ P s = true := by
  unfold restsWith at h
  split at h
  · rename_i s he
    simp only [Bool.and_eq_true, List.isEmpty_iff, List.all_eq_true, decide_eq_true_eq] at h
    obtain ⟨⟨⟨hs, hb⟩, hw⟩, hP⟩ := h
    exact ⟨s, rests_of_checks hs hb he hw, hP⟩
  · cases h

/-- The main loop hears that the first caller is gone before the second comes. -/
theorem attends_second_caller : narrow.bluetooth.mode = .server ∧
    ∃ ms b s c, (machine narrow).Run ms b ∧ Rests b.terminal s ∧ s.client = some c ∧
      Reads b.terminal s c ∧ (∃ m ∈ ms, Heralds m c) ∧ b.accepted = [7, 8] ∧ b.screen = [1, 2] ∧
      typed ms = [[3]] ∧ Dealt (states ms b) (sent ms) := by
  obtain ⟨ms, b, hp, hb⟩ := (machine narrow).exists_of_play
    (firstVisit ++ [take .event, take .read] ++ enter 4 8 ++
      [take .event, work (.task 5) .go, work (.task 5) .go])
    (fun ms b => restsWith b.terminal fun s => s.client = some ⟨2, .any⟩ ∧
      b.terminal.read = some (.waiting (.task 5)) ∧ s.stage? 5 = some (.reading 2 (.reading 8)) ∧
      b.accepted = [7, 8] ∧ b.screen = [1, 2] ∧ typed ms = [[3]])
    (by decide +kernel)
  obtain ⟨s, hr, hP⟩ := rests_of_restsWith hb
  obtain ⟨hc, hread, hs, ha, hscreen, htyped⟩ := of_decide_eq_true hP
  have h := Machine.run_of_play hp
  have hreads : Reads b.terminal s ⟨2, .any⟩ := ⟨5, _, hread, hs⟩
  obtain ⟨hattends, -, -, -, hdealt⟩ := attends_announced_clients rfl ms b h
  exact ⟨rfl, ms, b, s, _, h, hr, hc, hreads, (hattends s _ hr hc).mp hreads, ha, hscreen, htyped, hdealt⟩

/-- The second caller comes while the main loop has not yet taken the event that the first is gone: the
feed is full, nobody reads from the second, and nobody notices when it goes. -/
theorem unannounced_client_unread : Config.ofBytes "btserial.toml" narrowText.toUTF8 = .ok narrow ∧
    ∃ ms b s c, (machine narrow).Run ms b ∧ Rests b.terminal s ∧ b.terminal.reader = .reading ∧
      s.client = some c ∧ ¬ Reads b.terminal s c := by
  refine ⟨by decide +kernel, ?_⟩
  obtain ⟨ms, b, hp, hb⟩ := (machine narrow).exists_of_play
    (firstVisit ++ enter 4 8 ++ [take .event, take .read])
    (fun _ b => restsWith b.terminal fun s => s.client = some ⟨2, .any⟩ ∧ b.terminal.read = none ∧
      b.terminal.reader = .reading)
    (by decide +kernel)
  obtain ⟨s, hr, hP⟩ := rests_of_restsWith hb
  obtain ⟨hc, hread, hreader⟩ := of_decide_eq_true hP
  exact ⟨ms, b, s, _, Machine.run_of_play hp, hr, hreader, hc, (Past.none hread).not_reads⟩

end Rfcomm.Switchboard
