import Rfcomm.Proofs.Link.Wire
import Rfcomm.Proofs.Terminal.Interruption
import Rfcomm.Proofs.Terminal.Serving
/-!
What is typed at a switchboard. A chunk that the main loop takes becomes one write or is dropped, and a
write is offered to one stream, whoever is the client by then.
-/
namespace Rfcomm.Switchboard

open Terminal (Actor Line Proceeds Fetches)

/-- The states that a run went through, and the one it got to. -/
def states (ms : List Moment) (b : Switchboard) : List Switchboard := ms.map (·.before) ++ [b]

/-- A write has these bytes ready for a stream. -/
def Offers (b : Switchboard) (n : Nat) (x : StreamId) (bytes : Bytes) : Prop :=
  b.terminal.ask (.worker (.write n)) = .link (.call (.write x bytes))

/-- The chunks that were typed. -/
def typed (ms : List Moment) : List Bytes :=
  ms.flatMap fun m => match m.act with
    | .step .reader (.input (.ok (byte :: bytes))) => [byte :: bytes]
    | _ => []

/-- The chunk that a step of the main loop starts to write. -/
def begun (t : Terminal) (r : Terminal.Reply) (t' : Terminal) : List Bytes :=
  match r with
  | .chosen .chunk => if t'.isSending then t.chunks.take 1 else []
  | _ => []

/-- The chunk that a write starts with. -/
def started (m : Moment) : List Bytes :=
  match m.act with
  | .step .main r => begun m.before.terminal r m.after.terminal
  | _ => []

/-- The chunks that writes started with. Each write is named by its place here. -/
def sent (ms : List Moment) : List Bytes := ms.flatMap started

/-- What was offered of each write is the end of its chunk, and was offered to one stream. -/
structure Dealt (past : List Switchboard) (sent : List Bytes) : Prop where
  chunk : ∀ b ∈ past, ∀ n x bytes, Offers b n x bytes →
    ∃ chunk, sent[n]? = some chunk ∧ bytes <:+ chunk
  once : ∀ b ∈ past, ∀ b' ∈ past, ∀ n x x' bytes bytes', Offers b n x bytes →
    Offers b' n x' bytes' → x = x'

/-- What the queue has of each write, against what was offered of it. -/
structure Chunks (past : List Switchboard) (sent : List Bytes) (q : WriteQueue) : Prop where
  fifo : q.Fifo
  number : q.nextId = sent.length
  waits : ∀ n bytes, ⟨n, some bytes⟩ ∈ q.nodes → sent[n]? = some bytes
  serves : ∀ n stage, q.stage? n = some stage → sent[n]? = some stage.bytes
  dealt : Dealt past sent
  /-- A write that was offered to a stream neither waits nor goes to another. -/
  settled : ∀ b ∈ past, ∀ n x bytes, Offers b n x bytes → (∀ bytes', ⟨n, some bytes'⟩ ∉ q.nodes) ∧
    ∀ stage, q.stage? n = some stage → ∃ send, stage = .sending x send

/-- What an act does to the queue, with the chunk that a write starts with. -/
inductive Handles (q : WriteQueue) : List Bytes → WriteQueue → Prop
  | still {q'} : q' = { q with lock := q'.lock, stream := q'.stream } → Handles q [] q'
  | enqueue {chunk} : Handles q [chunk] (q.enqueue chunk).2
  | move {isOpen n r q' result} : WriteQueue.Move q isOpen n r q' result → Handles q [] q'

/-- The writes of a terminal. -/
def queue (t : Terminal) : WriteQueue :=
  match t.endpoint with
  | some (.server s) => s.link.queue
  | _ => {}

/-- The chunks that were typed and not taken yet. -/
def pending (t : Terminal) : List Bytes :=
  t.chunks ++ match t.reader with
    | .offering chunk => [chunk]
    | _ => []

variable {tuning : Config.Tuning} {b b' : Switchboard} {t t' : Terminal} {s s' : Server} {told : Server.Client → Prop}
  {past : List Switchboard} {chunks : List Bytes} {q q' : WriteQueue} {n m : Nat} {x : StreamId}
  {bytes chunk : Bytes} {r : Terminal.Reply} {lines : List Line} {a : Act} {ms : List Moment}
  {stage stage' : WriteQueue.Stage}

/-! ## The queue -/

/-- A write that goes on goes on to the same stream, and the next starts with its own bytes. -/
theorem serves_of_move {isOpen : Bool} {k : Nat} {r : Rfcomm.Reply}
    {result : Option (Except WriteError Nat)} (hf : q.Fifo)
    (hm : WriteQueue.Move q isOpen k r q' result) (hs : q'.stage? n = some stage') :
    (∃ stage, q.stage? n = some stage ∧ stage'.bytes = stage.bytes ∧
        ∀ x send, stage = .sending x send → ∃ send', stage' = .sending x send') ∨
      ∃ bytes, stage' = .start bytes ∧ ⟨n, some bytes⟩ ∈ q.nodes := by
  cases hm with
  | line h =>
      have hf' : WriteQueue.Fifo { q with lock := q.lock.join (.write k) } := hf.congr rfl rfl rfl
      rw [WriteQueue.stage?_setStage hf' h] at hs
      split at hs <;> cases hs
      rename_i hn
      subst hn
      exact .inl ⟨_, h, rfl, by simp⟩
  | take h =>
      rw [WriteQueue.stage?_setStage hf h] at hs
      split at hs <;> cases hs
      rename_i hn
      subst hn
      exact .inl ⟨_, h, rfl, by simp⟩
  | @send y send send' _ h hr =>
      rw [WriteQueue.stage?_setStage hf h] at hs
      split at hs <;> cases hs
      rename_i hn
      subst hn
      exact .inl ⟨_, h, Send.bytes_of_more hr, fun x send he => by cases he; exact ⟨_, rfl⟩⟩
  | refuse h => exact .inr ((WriteQueue.of_complete hf h).2.1 n _ hs)
  | miss h | finish h =>
      have hf' : WriteQueue.Fifo { q with lock := q.lock.leave } := hf.congr rfl rfl rfl
      exact .inr ((WriteQueue.of_complete hf' h).2.1 n _ hs)

theorem nodes_of_move {isOpen : Bool} {k : Nat} {r : Rfcomm.Reply}
    {result : Option (Except WriteError Nat)} (hf : q.Fifo)
    (hm : WriteQueue.Move q isOpen k r q' result) (hn : ⟨n, some bytes⟩ ∈ q'.nodes) :
    ⟨n, some bytes⟩ ∈ q.nodes := by
  cases hm with
  | line | take | send => exact hn
  | refuse h => exact (WriteQueue.of_complete hf h).1 n _ hn
  | miss h | finish h =>
      have hf' : WriteQueue.Fifo { q with lock := q.lock.leave } := hf.congr rfl rfl rfl
      exact (WriteQueue.of_complete hf' h).1 n _ hn

theorem Chunks.empty : Chunks [] [] {} where
  fifo := .idle rfl rfl
  number := rfl
  waits := by simp
  serves n stage hs := by cases hs
  dealt := ⟨by simp, by simp⟩
  settled := by simp

theorem Handles.fifo (h : Handles q chunks q') (hf : q.Fifo) :
    q'.Fifo ∧ q'.nextId = q.nextId + chunks.length := by
  cases h with
  | still h => exact ⟨hf.congr (by rw [h]) (by rw [h]) (by rw [h]), by rw [h]; rfl⟩
  | enqueue => exact ⟨hf.enqueue _, WriteQueue.enqueue_nextId _ _⟩
  | move hm =>
      obtain ⟨hf', hn, -⟩ := hm.fifo hf
      exact ⟨hf', hn⟩

theorem Dealt.more (h : Dealt past chunks) (more : List Bytes) : Dealt past (chunks ++ more) where
  chunk b hb n x bytes ho := by
    obtain ⟨chunk, hc, hs⟩ := h.chunk b hb n x bytes ho
    exact ⟨chunk, List.getElem?_append_left (List.getElem?_eq_some_iff.mp hc).1 ▸ hc, hs⟩
  once := h.once

theorem Chunks.step {more : List Bytes} (h : Chunks past chunks q) (hq : Handles q more q') :
    Chunks past (chunks ++ more) q' := by
  obtain ⟨hf, hn⟩ := hq.fifo h.fifo
  have old : ∀ {n : Nat} {bytes : Bytes}, chunks[n]? = some bytes → (chunks ++ more)[n]? = some bytes :=
    fun hb => List.getElem?_append_left (List.getElem?_eq_some_iff.mp hb).1 ▸ hb
  have new : ∀ {bytes}, more = [bytes] → (chunks ++ more)[q.nextId]? = some bytes := fun he => by
    simp [he, h.number]
  -- A write that is new has a number that was never offered.
  have offered : ∀ {b n x bytes}, b ∈ past → Offers b n x bytes → n ≠ q.nextId := fun hb ho he => by
    obtain ⟨chunk, hc, -⟩ := h.dealt.chunk _ hb _ _ _ ho
    have := (List.getElem?_eq_some_iff.mp hc).1
    have := h.number
    omega
  refine ⟨hf, by rw [hn, h.number, List.length_append], ?_, ?_, h.dealt.more more, ?_⟩
  · intro n bytes hb
    cases hq with
    | still he => rw [he] at hb; exact old (h.waits n bytes hb)
    | enqueue =>
        rcases WriteQueue.mem_nodes_enqueue hb with hb | ⟨rfl, rfl⟩
        · exact old (h.waits n bytes hb)
        · exact new rfl
    | move hm => exact old (h.waits n bytes (nodes_of_move h.fifo hm hb))
  · intro n stage hs
    cases hq with
    | still he => rw [he] at hs; exact old (h.serves n stage hs)
    | enqueue =>
        rcases WriteQueue.stage?_of_enqueue h.fifo hs with hs | ⟨rfl, rfl⟩
        · exact old (h.serves n stage hs)
        · exact new rfl
    | move hm =>
        rcases serves_of_move h.fifo hm hs with ⟨stage', hs', hb, -⟩ | ⟨bytes, rfl, hb⟩
        · exact old (hb ▸ h.serves n stage' hs')
        · exact old (h.waits n bytes hb)
  · intro b hb n x bytes ho
    obtain ⟨hnodes, hstage⟩ := h.settled b hb n x bytes ho
    cases hq with
    | still he => rw [he]; exact ⟨hnodes, hstage⟩
    | enqueue =>
        refine ⟨fun bytes' hb' => ?_, fun stage hs => ?_⟩
        · rcases WriteQueue.mem_nodes_enqueue hb' with hb' | ⟨he, -⟩
          · exact hnodes _ hb'
          · exact offered hb ho he
        · rcases WriteQueue.stage?_of_enqueue h.fifo hs with hs | ⟨he, -⟩
          · exact hstage _ hs
          · exact absurd he (offered hb ho)
    | move hm =>
        refine ⟨fun bytes' hb' => hnodes _ (nodes_of_move h.fifo hm hb'), fun stage hs => ?_⟩
        rcases serves_of_move h.fifo hm hs with ⟨stage', hs', -, hsame⟩ | ⟨bytes', -, hb'⟩
        · obtain ⟨send, rfl⟩ := hstage stage' hs'
          exact hsame x send rfl
        · exact absurd hb' (hnodes bytes')

/-- What is offered is what is left of the write that is served. -/
theorem serves_of_offers (hc : ∀ c, b.terminal.endpoint ≠ some (.connection c))
    (ho : Offers b n x bytes) : ∃ send, (queue b.terminal).stage? n = some (.sending x send) ∧
      bytes = send.rest := by
  simp only [Offers, Terminal.ask] at ho
  split at ho
  · cases ho
  · cases he : b.terminal.endpoint with
    | none => rw [he] at ho; cases ho
    | some e =>
        rw [he] at ho
        cases e with
        | connection c => exact absurd he (hc c)
        | server s =>
            have ho : s.link.queue.ask s.link.isOpen n = .call (.write x bytes) := by
              simpa [Endpoint.ask, Server.ask, Link.askWrite] using ho
            have hq : queue b.terminal = s.link.queue := by rw [queue, he]
            rw [hq]
            unfold WriteQueue.ask at ho
            split at ho
            · cases ho
            · cases ho
            · exact absurd ho Ask.turn_ne_call
            · rename_i y send hs
              unfold Send.ask at ho
              split at ho
              · split at ho <;> cases ho
                exact ⟨send, hs, rfl⟩
              · cases ho

/-- Where a run gets to, what it offers goes on with what was offered before. -/
theorem Chunks.visit (h : Chunks past chunks (queue b.terminal))
    (hc : ∀ c, b.terminal.endpoint ≠ some (.connection c)) :
    Chunks (past ++ [b]) chunks (queue b.terminal) := by
  have mine : ∀ {n x bytes}, Offers b n x bytes → ∃ send,
      (queue b.terminal).stage? n = some (.sending x send) ∧ bytes = send.rest := serves_of_offers hc
  have same : ∀ {b' n x x' bytes bytes'}, b' ∈ past → Offers b' n x bytes → Offers b n x' bytes' →
      x = x' := fun hb ho ho' => by
    obtain ⟨send, hs, -⟩ := mine ho'
    obtain ⟨send', he⟩ := (h.settled _ hb _ _ _ ho).2 _ hs
    cases he
    rfl
  have cases_of_mem : ∀ {b'}, b' ∈ past ++ [b] → b' ∈ past ∨ b' = b := fun hb => by simpa using hb
  refine ⟨h.fifo, h.number, h.waits, h.serves, ⟨?_, ?_⟩, ?_⟩
  · intro b' hb n x bytes ho
    rcases cases_of_mem hb with hb | rfl
    · exact h.dealt.chunk b' hb n x bytes ho
    · obtain ⟨send, hs, rfl⟩ := mine ho
      exact ⟨_, h.serves n _ hs, List.drop_suffix _ _⟩
  · intro b₁ hb₁ b₂ hb₂ n x₁ x₂ bytes₁ bytes₂ ho₁ ho₂
    rcases cases_of_mem hb₁ with h₁ | h₁ <;> rcases cases_of_mem hb₂ with h₂ | h₂
    · exact h.dealt.once b₁ h₁ b₂ h₂ n x₁ x₂ bytes₁ bytes₂ ho₁ ho₂
    · exact same h₁ ho₁ (h₂ ▸ ho₂)
    · exact (same h₂ ho₂ (h₁ ▸ ho₁)).symm
    · obtain ⟨send, hs, -⟩ := mine (h₁ ▸ ho₁)
      obtain ⟨send', hs', -⟩ := mine (h₂ ▸ ho₂)
      cases hs.symm.trans hs'
      rfl
  · intro b' hb n x bytes ho
    rcases cases_of_mem hb with hb | rfl
    · exact h.settled b' hb n x bytes ho
    · obtain ⟨send, hs, -⟩ := mine ho
      obtain ⟨rest, hn, -, hw, -⟩ := WriteQueue.stage?_eq_some h.fifo hs
      refine ⟨fun bytes' hb' => ?_, fun stage hs' => ⟨send, Option.some.inj (hs'.symm.trans hs)⟩⟩
      rw [hn] at hb'
      rcases List.mem_cons.mp hb' with he | hb'
      · cases he
      · have := hw.le hb'
        dsimp only at this
        omega

/-! ## Steps -/

theorem begun_of_not_sending (h : t'.isSending = false) : begun t r t' = [] := by
  unfold begun
  split
  · simp [h]
  · rfl

theorem queue_of_server (he : t.endpoint = some (.server s)) : queue t = s.link.queue := by
  rw [queue, he]

theorem startRead_queue (t : Terminal) : queue t.startRead = queue t := by
  rcases startRead_endpoint t with he | ⟨c, c', he, he'⟩ | ⟨s, st, he, he'⟩
  · rw [queue, queue, he]
  · rw [queue, queue, he, he']
  · rw [queue_of_server he, queue_of_server he']
    rfl

theorem startListening_queue (t : Terminal) : queue t.startListening = {} := by
  simp only [Terminal.startListening]
  split
  · rename_i hl
    obtain ⟨-, -, record, rfl, -⟩ := Server.of_listen hl
    rfl
  · rfl

theorem disconnectClient_queue (s : Server) : s.disconnectClient.link.queue = s.link.queue := by
  unfold Server.disconnectClient
  split <;> rfl

/-- A step of the main loop queues the chunk that it starts to write, and nothing else. -/
theorem handles_of_proceeds (h : Proceeds t r t' lines)
    (hc : ∀ c, t.endpoint ≠ some (.connection c))
    (hp : ∀ q, t.stage = .preparing q → t.endpoint = none) :
    t'.isOver = true ∨ Handles (queue t) (begun t r t') (queue t') := by
  have still : begun t r t' = [] → queue t' = queue t →
      t'.isOver = true ∨ Handles (queue t) (begun t r t') (queue t') := fun hb hq =>
    .inr (by rw [hb, hq]; exact .still rfl)
  cases h with
  | connected => exact still rfl (startRead_queue t.startReader)
  | listening | data | clientEnded | sent | writeFailed => exact still rfl rfl
  | noted _ he => exact still rfl (queue_of_server he).symm
  | prepare => exact still (begun_of_not_sending rfl) rfl
  | prepared hs =>
      have ht : queue t = {} := by rw [queue, hp _ hs]
      refine still (begun_of_not_sending ?_) ((startListening_queue t).trans ht.symm)
      obtain ⟨h, hl⟩ := Terminal.startListening_stage t
      rw [Terminal.isSending, hl]
  | clientConnected _ he =>
      exact still rfl ((startRead_queue _).trans (queue_of_server he).symm)
  | feedEnded | stop | fail => exact .inl rfl
  | readFailed _ he => exact still rfl ((disconnectClient_queue _).trans (queue_of_server he).symm)
  | shown => exact still rfl (startRead_queue t)
  | @write e chunk chunks hs he hq =>
      cases e with
      | connection c => exact absurd he (hc c)
      | server s =>
          rw [startWrite_of_server (t := { t with chunks }) he, queue_of_server he]
          refine .inr ?_
          simp only [begun, Terminal.isSending, hq, List.take_succ_cons, List.take_zero, if_true]
          exact .enqueue
  | discard => exact still (begun_of_not_sending rfl) rfl
  | inputOver => exact still (begun_of_not_sending rfl) rfl

theorem Course.endpoint (h : Course tuning told b) (ho : b.terminal.isOver = false) :
    (∀ c, b.terminal.endpoint ≠ some (.connection c)) ∧
      ∀ q, b.terminal.stage = .preparing q → b.terminal.endpoint = none := by
  cases h with
  | early h => exact ⟨by simp [h.endpoint], fun _ _ => h.endpoint⟩
  | hosting h => exact ⟨by simp [h.endpoint], fun q hq => absurd hq (h.stands.prepared.2.1 q)⟩
  | ended h => rw [h] at ho; cases ho

theorem handles_of_resume {k : Worker} {r : Rfcomm.Reply} {out : Server.Report} (hS : s.Sound)
    (hr : s.resume k r = some (s', out)) : Handles s.link.queue [] s'.link.queue := by
  cases k with
  | task n =>
      obtain ⟨st, s₁, next, out, hs, ht, rfl, -⟩ := Server.turn_of_perform (Server.perform_of_resume hr)
      have ha : Server.activities s.stage? n = st.activity := by simp [Server.activities, hs]
      rw [Server.place_link]
      exact .still (ht.link.spares hS.link ha).queue
  | write n =>
      obtain ⟨⟨link, result⟩, hw, he⟩ := Option.map_eq_some_iff.mp hr
      cases he
      obtain ⟨⟨q, result⟩, hq, he⟩ := Option.map_eq_some_iff.mp hw
      cases he
      exact .move (WriteQueue.move_of_resume hq)

theorem started_of_ne (h : ∀ actor r, a ≠ .step actor r) : started ⟨b, a, b', ()⟩ = [] := by
  unfold started
  split
  · rename_i r ha
    exact absurd ha (h .main r)
  · rfl

theorem Course.handles (h : Course tuning told b) (ho : b.terminal.isOver = false)
    (hp : b.perform a = some (b', ())) : b'.terminal.isOver = true ∨
      Handles (queue b.terminal) (started ⟨b, a, b', ()⟩) (queue b'.terminal) := by
  by_cases hs : ∃ actor r, a = .step actor r
  · obtain ⟨actor, r, rfl⟩ := hs
    cases actor with
    | main =>
        obtain ⟨b₁, t', lines, -, rfl, -, -, hd⟩ := does_of_step hp
        obtain ⟨hc, hprep⟩ := h.endpoint ho
        cases hd with
        | main hp => exact handles_of_proceeds hp hc hprep
    | reader =>
        obtain ⟨b₁, t', lines, -, rfl, -, -, hd⟩ := does_of_step hp
        cases hd with
        | reader hf =>
            have hq : queue t' = queue b.terminal := by cases hf <;> rfl
            exact .inr (hq ▸ .still rfl)
    | worker k =>
        obtain ⟨s, u, reply, s', out, b₁, h, rfl, hr, -, rfl⟩ := h.worker hp
        refine .inr ?_
        rw [queue_of_server h.endpoint, queue_of_server (Terminal.advance_endpoint ..)]
        exact handles_of_resume h.fit.sound hr
  · have ha : ∀ actor r, a ≠ .step actor r := fun actor r he => hs ⟨actor, r, he⟩
    rw [started_of_ne ha, terminal_of_perform hp ha]
    exact .inr (.still rfl)

theorem isOver_of_perform (ho : b.terminal.isOver = true) (hp : b.perform a = some (b', ())) :
    b'.terminal.isOver = true := by
  by_cases hs : ∃ actor r, a = .step actor r
  · obtain ⟨actor, r, rfl⟩ := hs
    obtain ⟨_, _, _, -, -, -, ho', -⟩ := does_of_step hp
    rw [ho] at ho'
    cases ho'
  · rw [terminal_of_perform hp fun actor r he => hs ⟨actor, r, he⟩]
    exact ho

/-! ## Runs -/

theorem not_offers (ho : b.terminal.isOver = true) : ¬ Offers b n x bytes := by
  simp [Offers, Terminal.ask, ho]

theorem Dealt.ended (h : Dealt past chunks) (ho : b.terminal.isOver = true) :
    Dealt (past ++ [b]) chunks := by
  have old : ∀ {b' n x bytes}, b' ∈ past ++ [b] → Offers b' n x bytes → b' ∈ past := fun hb hf => by
    rcases List.mem_append.mp hb with hb | hb
    · exact hb
    · obtain rfl := List.mem_singleton.mp hb
      exact absurd hf (not_offers ho)
  exact ⟨fun b hb n x bytes hf => h.chunk b (old hb hf) n x bytes hf,
    fun b hb b' hb' n x x' bytes bytes' hf hf' =>
      h.once b (old hb hf) b' (old hb' hf') n x x' bytes bytes' hf hf'⟩

theorem states_snoc : states (ms ++ [⟨b, a, b', ()⟩]) b' = states ms b ++ [b'] := by
  simp [states]

theorem sent_snoc {k : Moment} : sent (ms ++ [k]) = sent ms ++ started k := by
  simp [sent]

/-- Every write offers its own chunk, to one stream. -/
theorem dealt_of_run {config : Config} (hmode : config.bluetooth.mode = .server)
    (h : (machine config).Run ms b) : Dealt (states ms b) (sent ms) := by
  -- The queue is followed as long as the terminal runs; its end drops the queue with the server.
  have hall : Dealt (states ms b) (sent ms) ∧
      (b.terminal.isOver = false → Chunks (states ms b) (sent ms) (queue b.terminal)) := by
    induction h with
    | start =>
        have hstart : (machine config).start.terminal.endpoint = none := by rw [start_terminal hmode]
        have hq : queue (machine config).start.terminal = {} := by rw [queue, hstart]
        have hv := (hq ▸ Chunks.empty : Chunks [] [] (queue (machine config).start.terminal)).visit
          (by simp [hstart])
        exact ⟨hv.dealt, fun _ => hv⟩
    | @next ms b a b' e h _ hp ih =>
        obtain ⟨hdealt, hchunks⟩ := ih
        rw [states_snoc, sent_snoc]
        by_cases ho' : b'.terminal.isOver = true
        · exact ⟨(hdealt.more _).ended ho', fun hn => by rw [ho'] at hn; cases hn⟩
        · have ho : b.terminal.isOver = false := by
            by_contra ho
            exact ho' (isOver_of_perform (by simpa using ho) hp)
          have hh := ((course_of_run hmode h).handles ho hp).resolve_left ho'
          have hc := ((course_of_run hmode (h.next rfl hp)).endpoint (by simpa using ho')).1
          have hv := ((hchunks ho).step hh).visit hc
          exact ⟨hv.dealt, fun _ => hv⟩
  exact hall.1

/-! ## What is typed -/

theorem startRead_pending (t : Terminal) : pending t.startRead = pending t := by
  unfold Terminal.startRead
  split
  · split <;> rfl
  · split <;> rfl
  · rfl

theorem startListening_pending (t : Terminal) : pending t.startListening = pending t := by
  simp only [Terminal.startListening]
  split <;> rfl

theorem startWrite_pending (t : Terminal) (chunk : Bytes) : pending (t.startWrite chunk) = pending t := by
  unfold Terminal.startWrite
  split <;> rfl

theorem startReader_pending (t : Terminal) : (pending t.startReader).Sublist (pending t) := by
  have hp : pending t.startReader = t.chunks := by
    simp only [pending, Terminal.startReader]
    by_cases h : Link.maxBuffer < t.config.link.readSize <;> simp [h]
  rw [hp]
  exact List.sublist_append_left ..

theorem pending_of_chunks (hq : t.chunks = chunk :: chunks) :
    pending t = chunk :: pending { t with chunks } := by
  rw [pending, hq]
  rfl

/-- A step of the main loop writes the next chunk or drops it. -/
theorem pending_of_proceeds (h : Proceeds t r t' lines) :
    (begun t r t' ++ pending t').Sublist (pending t) := by
  have still : begun t r t' = [] → (pending t').Sublist (pending t) →
      (begun t r t' ++ pending t').Sublist (pending t) := fun hb hp => by rwa [hb, List.nil_append]
  cases h with
  | connected => exact still rfl ((startRead_pending t.startReader).symm ▸ startReader_pending t)
  | listening => exact still rfl (startReader_pending t)
  | noted | data | clientEnded | sent | writeFailed | feedEnded | readFailed => exact still rfl (.refl _)
  | prepare | stop | fail => exact still (begun_of_not_sending rfl) (.refl _)
  | prepared hs =>
      obtain ⟨h, hl⟩ := Terminal.startListening_stage t
      refine still (begun_of_not_sending ?_) (startListening_pending t ▸ .refl _)
      rw [Terminal.isSending, hl]
  | @clientConnected s a rest => exact still rfl ((startRead_pending (t.received s rest)).symm ▸ .refl _)
  | shown => exact still rfl ((startRead_pending t).symm ▸ .refl _)
  | @write e chunk chunks hs he hq =>
      obtain ⟨h, hw⟩ := Terminal.startWrite_stage (t := { t with chunks }) chunk he
      have hb : begun t (.chosen .chunk) (({ t with chunks } : Terminal).startWrite chunk) = [chunk] := by
        simp [begun, Terminal.isSending, hw, hq]
      rw [hb, startWrite_pending, pending_of_chunks hq]
      exact .refl _
  | discard _ _ hq =>
      refine still (begun_of_not_sending rfl) ?_
      rw [pending_of_chunks hq]
      exact List.sublist_cons_self ..
  | inputOver => exact still (begun_of_not_sending rfl) (.refl _)

theorem typed_snoc {k : Moment} : typed (ms ++ [k]) = typed ms ++ typed [k] := by
  simp [typed]

theorem pending_of_fetches (h : Fetches t r t' lines) :
    pending t' = pending t ++ typed [⟨b, .step .reader r, b', ()⟩] := by
  cases h with
  | ended h | failed h => simp [pending, typed, h]
  | @kept chunk h hne | @held chunk h hne =>
      cases chunk with
      | nil => exact absurd rfl hne
      | cons => simp [pending, typed, h]
  | offered h => simp [pending, typed, h]

theorem pending_of_perform (hp : b.perform a = some (b', ())) :
    (started ⟨b, a, b', ()⟩ ++ pending b'.terminal).Sublist
      (pending b.terminal ++ typed [⟨b, a, b', ()⟩]) := by
  by_cases hs : ∃ actor r, a = .step actor r
  · obtain ⟨actor, r, rfl⟩ := hs
    obtain ⟨b₁, t', lines, -, rfl, -, -, hd⟩ := does_of_step hp
    cases hd with
    | main hp => simpa [typed, started] using pending_of_proceeds hp
    | reader hf => exact pending_of_fetches hf ▸ .refl _
    | @worker k e r e' o =>
        obtain ⟨hc, hr⟩ := Terminal.advance_input (t := b.terminal) (e := e') (k := k) (o := o)
        simp [pending, typed, started, hc, hr]
  · have ha : ∀ actor r, a ≠ .step actor r := fun actor r he => hs ⟨actor, r, he⟩
    rw [started_of_ne ha, terminal_of_perform hp ha]
    exact List.sublist_append_left ..

/-- The chunks are written in the order in which they were typed, each at most once. -/
theorem sent_sublist_typed {config : Config} (hmode : config.bluetooth.mode = .server)
    (h : (machine config).Run ms b) : (sent ms ++ pending b.terminal).Sublist (typed ms) := by
  induction h with
  | start =>
      rw [start_terminal hmode]
      exact .refl _
  | @next ms b a b' e _ _ hp ih =>
      rw [sent_snoc, typed_snoc, List.append_assoc]
      refine ((List.Sublist.refl _).append (pending_of_perform hp)).trans ?_
      rw [← List.append_assoc]
      exact ih.append (.refl _)

end Rfcomm.Switchboard
