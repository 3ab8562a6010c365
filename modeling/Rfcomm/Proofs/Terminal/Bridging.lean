import Rfcomm.Proofs.Terminal.Bridge
/-!
The main loop of a bridge, and whole runs. What was read is shown before the next read starts, what was
typed is accepted before the next chunk is taken, and the main loop stops by itself only when nothing is
left in between.
-/
namespace Rfcomm.Bridge

open Terminal (Actor Line Stops info stopLine)

variable {b b' : Bridge} {t t' : Terminal} {c c' : Connection} {peer peer' : Source} {shown : Nat}
  {u unshown unsent : Bytes} {q q' : WriteQueue} {lines : List Line} {r : Terminal.Reply} {a : Act}

/-- Nothing goes in or out with a step of the main loop. -/
theorem answer_main {ask : Terminal.Ask} (hl : ∀ x, r ≠ .link x) (hi : ∀ x, r ≠ .input x)
    (hb : b.answer ask r = some b') : ∃ shown, b' = { b with shown } := by
  unfold answer at hb
  split at hb
  · exact absurd rfl (hl _)
  · exact absurd rfl (hl _)
  · exact absurd rfl (hi _)
  · exact absurd rfl (hi _)
  · split at hb
    · obtain ⟨-, hb⟩ := Option.ite_none_right_eq_some.mp hb
      exact ⟨0, (Option.some.inj hb).symm⟩
    · cases hb
  · exact ⟨b.shown, (Option.some.inj hb).symm⟩

/-- A read starts, and the main loop waits again. -/
theorem Attends.start_read (peer : Source) (he : t.endpoint = some (.connection c)) (hready : c.Ready)
    (htasks : c.tasks = []) :
    ∃ c', t.startRead.select.endpoint = some (.connection c') ∧ c'.link = c.link ∧
      Attends t.startRead.select c' peer 0 [] ∧ t.startRead.select.stage = .selecting ∧
      t.startRead.select.chunks = t.chunks ∧ t.startRead.select.reader = t.reader := by
  have ht : t.startRead = { t with
      endpoint := some (.connection (c.spawn (.reading .start)).2)
      read := some (.waiting (.task c.nextTask)) } := by
    simp [Terminal.startRead, he, Connection.read, hready.isOpen, Connection.spawn]
  rw [ht]
  refine ⟨_, rfl, rfl, .reading (g := .start) (.inl rfl) rfl ?_ ⟨hready.phase, hready.link⟩, rfl, rfl, rfl⟩
  simp [Connection.spawn, htasks]

/-- The first read starts, and the reader. -/
theorem Running.connected (h : Running b c unshown unsent)
    (hs : b.terminal.stage = .connecting (.settled .connected)) :
    ∃ c, Running { b with terminal := b.terminal.startReader.startRead.select } c unshown unsent := by
  obtain ⟨hshown, rfl, hready, htasks, hoff, hsize⟩ := h.attends.of_called hs
  obtain ⟨hidle, rfl⟩ := h.writes.idle_of (by simp [hs])
  obtain ⟨c', hc', hlink, ha, hsel, hchunks, hreader⟩ := Attends.start_read
    (t := b.terminal.startReader) b.peer h.endpoint (hready rfl) htasks
  have hreader : b.terminal.startReader.startRead.select.reader = .reading :=
    hreader.trans (if_neg (by omega))
  refine ⟨c', hc', hshown ▸ ha, .idle (by simp [hsel]) (hlink ▸ hidle), h.read, ?_,
    fun hd => by simp [hreader] at hd, h.quiet⟩
  have typed := h.typed
  rw [hoff] at typed
  rw [hreader, hchunks]
  exact typed

/-- What was read is to be shown. -/
theorem Running.data {bytes : Bytes} (h : Running b c unshown unsent)
    (hs : b.terminal.stage = .selecting) (hr : b.terminal.read = some (.settled (.data bytes))) :
    Running { b with terminal := { b.terminal with read := none, stage := .showing bytes } } c unshown
      unsent := by
  obtain ⟨hshown, htasks, ⟨_, heq, rfl, hready⟩ | ⟨-, hlast⟩⟩ := h.attends.of_settled hr
  · cases heq
    obtain ⟨hidle, rfl⟩ := h.writes.idle_of (by simp [hs])
    refine ⟨h.endpoint, ?_, .idle nofun hidle, h.read, h.typed, h.done, h.quiet⟩
    have ha : Attends { b.terminal with read := none, stage := .showing unshown } c b.peer 0
        (unshown.drop 0) :=
      .showing rfl rfl htasks hready
    exact hshown ▸ ha
  · exact absurd rfl (hlast.data bytes)

/-- All was shown, and the next read starts. -/
theorem Running.displayed {bytes : Bytes} (h : Running b c unshown unsent)
    (hs : b.terminal.stage = .showing bytes) (hall : b.shown = bytes.length) :
    ∃ c, Running { b with terminal := b.terminal.startRead.select, shown := 0 } c [] unsent := by
  obtain ⟨rfl, hready, htasks, -⟩ := h.attends.of_showing hs
  obtain ⟨hidle, rfl⟩ := h.writes.idle_of (by simp [hs])
  obtain ⟨c', hc', hlink, ha, hsel, hchunks, hreader⟩ := Attends.start_read b.peer h.endpoint
    hready htasks
  refine ⟨c', hc', ha, .idle (by simp [hsel]) (hlink ▸ hidle), ?_, ?_, fun hd => h.done ?_, h.quiet⟩
  · rw [h.read, hall, List.drop_length]
  · rw [hreader, hchunks]
    exact h.typed
  · exact hreader ▸ hd

/-- A chunk is to be accepted. -/
theorem Running.write {chunk : Bytes} {chunks : List Bytes} (h : Running b c unshown unsent)
    (hs : b.terminal.stage = .selecting) (hq : b.terminal.chunks = chunk :: chunks) :
    ∃ c unsent, Running { b with terminal := { b.terminal with chunks }.startWrite chunk } c unshown
      unsent := by
  obtain ⟨hidle, rfl⟩ := h.writes.idle_of (by simp [hs])
  have ht : ({ b.terminal with chunks } : Terminal).startWrite chunk = { b.terminal with
      chunks
      endpoint := some (.connection (c.write chunk).2)
      stage := .sending (.waiting (c.write chunk).1) } := by
    simp [Terminal.startWrite, h.endpoint]
  rw [ht]
  refine ⟨(c.write chunk).2, chunk, rfl, ?_, .serving rfl hidle.enqueue, h.read, ?_, h.done, h.quiet⟩
  · exact h.attends.free (.inl hs) (.inr ⟨_, rfl⟩) rfl rfl fun hr =>
      ⟨hr.phase, hr.link.isOpen, hr.link.stream, hr.link.calm⟩
  · rw [h.typed, hq]
    simp

/-- All of a chunk was accepted. -/
theorem Running.sent {o : Outcome} (h : Running b c unshown unsent)
    (hs : b.terminal.stage = .sending (.settled o)) (ho : ∀ e, o ≠ .failed e) :
    Running { b with terminal := b.terminal.select } c unshown [] := by
  have ⟨hidle, hu⟩ : c.link.queue.Idle ∧ unsent = [] := by
    cases h.writes with
    | idle hn => exact absurd hs (hn _)
    | serving hw => cases hs.symm.trans hw
    | sent _ _ hidle => exact ⟨hidle, rfl⟩
    | failed hw => cases hs.symm.trans hw; exact absurd rfl (ho _)
  refine ⟨h.endpoint, ?_, .idle nofun hidle, h.read, hu ▸ h.typed, h.done, h.quiet⟩
  exact h.attends.free (.inr ⟨_, hs⟩) (.inl rfl) rfl rfl id

/-- The main loop ends. What its lines say must be so. -/
theorem Running.ended {shown : Nat} (h : Running b c unshown unsent) (ho : t'.isOver = true)
    (hend : info "End of input" ∈ lines → b.accepted = b.keyboard.read ∧
      (b.keyboard.failed = true ∨ b.keyboard.Used))
    (hclosed : info "Connection closed" ∈ lines → b.screen = b.peer.read ∧ b.peer.Used) :
    Over { b with terminal := t', shown, log := b.log ++ lines } where
  isOver := ho
  screen := ⟨unshown, h.read.symm⟩
  accepted := ⟨_, h.typed.symm⟩
  endOfInput hm := hend ((List.mem_append.mp hm).resolve_left h.quiet.endOfInput)
  closed hm := hclosed ((List.mem_append.mp hm).resolve_left h.quiet.closed)

/-- The main loop stops for the reason that it gives. -/
theorem Running.stop {branch : Terminal.Branch} {l : Line} (h : Running b c unshown unsent)
    (hs : b.terminal.stage = .selecting) (hl : Stops b.terminal branch l) :
    Over { b with terminal := (b.terminal.stop l).1, log := b.log ++ (b.terminal.stop l).2 } := by
  cases hl with
  | closed _ hr =>
      have hend : info "End of input" ∉ [info "Connection closed", stopLine] := by decide
      refine h.ended rfl (fun hm => absurd hm hend) fun _ => ?_
      obtain ⟨-, -, ⟨_, heq, -⟩ | ⟨rfl, hlast⟩⟩ := h.attends.of_settled hr
      · cases heq
      · exact ⟨by rw [h.read, List.append_nil], hlast.closed rfl⟩
  | endOfInput _ _ hchunks hdone =>
      have hclosed : info "Connection closed" ∉ [info "End of input", stopLine] := by decide
      refine h.ended rfl (fun _ => ⟨?_, h.done hdone⟩) fun hm => absurd hm hclosed
      obtain ⟨-, rfl⟩ := h.writes.idle_of (by simp [hs])
      rw [h.typed, hchunks, hdone]
      simp [held]
  | interrupted =>
      have hlines : info "End of input" ∉ [info "Shutdown signal received", stopLine] ∧
          info "Connection closed" ∉ [info "Shutdown signal received", stopLine] := by decide
      exact h.ended rfl (fun hm => absurd hm hlines.1) fun hm => absurd hm hlines.2

theorem Running.proceed (h : Running b c unshown unsent) (ho : b.terminal.isOver = false)
    (hr : b.terminal.resumeMain r = some (t', lines))
    (hb : b.answer (b.terminal.ask .main) r = some b') :
    Course { b' with terminal := t', log := b.log ++ lines } := by
  have server : ∀ {s : Server}, b.terminal.endpoint ≠ some (.server s) := fun hs => by
    rw [h.endpoint] at hs
    cases hs
  obtain ⟨hl, hi⟩ := Terminal.own_of_resumeMain hr
  have places := h.attends.places
  cases Terminal.proceeds_of_resumeMain hr with
  | connected hs =>
      cases hb
      obtain ⟨c, h⟩ := h.connected hs
      exact .running (by simpa using h)
  | data hs hread =>
      cases hb
      exact .running (by simpa using h.data hs hread)
  | @shown bytes hs =>
      have hask : b.terminal.ask .main = .display bytes := by
        simp [Terminal.ask, ho, Terminal.askMain, hs]
      rw [hask] at hb
      obtain ⟨hall, hb⟩ := Option.ite_none_right_eq_some.mp hb
      cases hb
      obtain ⟨c, h⟩ := h.displayed hs hall
      exact .running (by simpa using h)
  | write hs _ hq =>
      cases hb
      obtain ⟨c, unsent, h⟩ := h.write hs hq
      exact .running (by simpa using h)
  | sent hs hsent =>
      cases hb
      exact .running (by simpa using h.sent hs hsent)
  | stop hs hstop =>
      cases hb
      exact .ended (h.stop hs hstop)
  | fail =>
      obtain ⟨shown, rfl⟩ := answer_main hl hi hb
      exact .ended (h.ended rfl (absurd · List.not_mem_nil) (absurd · List.not_mem_nil))
  | writeFailed _ hn => exact absurd h.endpoint (hn c)
  | listening hs => rcases places with ⟨_, h⟩ | ⟨_, h⟩ | h | ⟨_, h⟩ <;> cases hs.symm.trans h
  | prepared hs => rcases places with ⟨_, h⟩ | ⟨_, h⟩ | h | ⟨_, h⟩ <;> cases hs.symm.trans h
  | prepare hs =>
      rcases hs with hs | ⟨_, hs⟩ <;> rcases places with ⟨_, h⟩ | ⟨_, h⟩ | h | ⟨_, h⟩ <;>
        cases hs.symm.trans h
  | _ => exact absurd ‹b.terminal.endpoint = _› server

/-! ## Runs -/

/-- More is shown of what is being shown. -/
theorem Running.show {bytes part : Bytes} {n : Nat} (h : Running b c unshown unsent)
    (hs : b.terminal.stage = .showing bytes) (hp : part = (bytes.drop b.shown).take n) :
    Running { b with screen := b.screen ++ part, shown := b.shown + part.length } c
      (bytes.drop (b.shown + part.length)) unsent := by
  obtain ⟨rfl, hready, htasks, hread⟩ := h.attends.of_showing hs
  have hsplit : part ++ bytes.drop (b.shown + part.length) = bytes.drop b.shown := by
    rw [← List.drop_drop, hp, List.length_take]
    rcases Nat.le_total n (bytes.drop b.shown).length with hn | hn
    · rw [Nat.min_eq_left hn, List.take_append_drop]
    · rw [Nat.min_eq_right hn, List.take_of_length_le hn, List.drop_length, List.append_nil]
  refine ⟨h.endpoint, .showing hs hread htasks hready, h.writes, ?_, h.typed, h.done, h.quiet⟩
  rw [List.append_assoc, hsplit, h.read]

theorem answer_frame {ask : Terminal.Ask} (hb : b.answer ask r = some b') :
    b'.terminal = b.terminal ∧ b'.log = b.log := by
  unfold answer at hb
  split at hb
  · obtain ⟨_, -, rfl⟩ := Option.map_eq_some_iff.mp hb
    exact ⟨rfl, rfl⟩
  · cases hb; exact ⟨rfl, rfl⟩
  · obtain ⟨_, -, rfl⟩ := Option.map_eq_some_iff.mp hb
    exact ⟨rfl, rfl⟩
  · cases hb; exact ⟨rfl, rfl⟩
  · split at hb
    · obtain ⟨-, hb⟩ := Option.ite_none_right_eq_some.mp hb
      cases hb
      exact ⟨rfl, rfl⟩
    · cases hb
  · cases hb; exact ⟨rfl, rfl⟩

theorem Course.step {actor : Actor} (h : Course b) (hb : b.answer (b.terminal.ask actor) r = some b')
    (hr : b.terminal.resume actor r = some (t', lines)) :
    Course { b' with terminal := t', log := b.log ++ lines } := by
  obtain ⟨hd, hover⟩ := Terminal.does_of_perform (a := .step actor r) hr
  have ho := hover nofun
  cases h with
  | ended h => rw [h.isOver] at ho; cases ho
  | running h =>
      cases hd with
      | main => exact h.proceed ho (by simpa [Terminal.resume, ho] using hr) hb
      | reader hf => exact .running (h.fetch hf hb)
      | worker he hw =>
          have := h.work ho he hw hb
          rwa [List.append_nil, ← (answer_frame hb).2]

theorem Course.perform (h : Course b) (hp : b.perform a = some (b', ())) : Course b' := by
  cases a with
  | step actor r =>
      obtain ⟨b₁, hb, hp⟩ := Option.bind_eq_some_iff.mp hp
      obtain ⟨⟨t', lines⟩, hr, hp⟩ := Option.bind_eq_some_iff.mp hp
      cases hp
      obtain ⟨ht, hlog⟩ := answer_frame hb
      rw [ht] at hr
      rw [hlog]
      exact h.step hb hr
  | interrupt =>
      cases hp
      exact h.interrupt
  | send bytes =>
      obtain ⟨peer, hg, hp⟩ := Option.map_eq_some_iff.mp hp
      cases hp
      exact h.later (Source.later_of_give hg) (.refl _)
  | finish =>
      cases hp
      exact h.later (Source.later_ended _) (.refl _)
  | type bytes =>
      obtain ⟨keyboard, hg, hp⟩ := Option.map_eq_some_iff.mp hp
      cases hp
      exact h.later (.refl _) (Source.later_of_give hg)
  | endInput =>
      cases hp
      exact h.later (.refl _) (Source.later_ended _)
  | «show» n =>
      simp only [Bridge.perform] at hp
      split at hp
      · rename_i bytes hask
        cases hp
        have hs := Terminal.showing_of_ask hask
        cases h with
        | running h => exact .running (h.show hs rfl)
        | ended h =>
            have ho := h.isOver
            rw [Terminal.isOver, hs] at ho
            cases ho
      · cases hp

/-- Nothing was read or typed yet. -/
theorem Running.fresh (he : t.endpoint = some (.connection c)) (ha : Attends t c {} 0 [])
    (hs : ∀ x, t.stage ≠ .sending x) (hq : c.link.queue.Idle) (hchunks : t.chunks = [])
    (hoff : t.reader = .off) (hquiet : Quiet lines) : Running { terminal := t, log := lines } c [] [] where
  endpoint := he
  attends := ha
  writes := .idle hs hq
  read := rfl
  typed := by
    rw [hchunks, hoff]
    rfl
  done h := by
    rw [hoff] at h
    cases h
  quiet := hquiet

theorem Course.start {config : Config} (hmode : config.bluetooth.mode = .client)
    (hsize : config.link.readSize ≤ Link.maxBuffer) : Course (machine config).start := by
  have hlog : Quiet [Terminal.startLine, info "Configuration loaded"] := ⟨by decide, by decide⟩
  simp only [machine, Terminal.start, hmode]
  cases hc : (Connection.create config.link).connect config.client.address config.bluetooth.channel with
  | error e =>
      exact .running (.fresh rfl (.called rfl (by simp) rfl rfl rfl hsize) (by simp) ⟨rfl, rfl⟩ rfl rfl
        hlog)
  | ok p =>
      simp only [Connection.connect] at hc
      cases ht : Target.parse config.client.address config.bluetooth.channel with
      | error e => rw [ht] at hc; cases hc
      | ok target =>
          rw [ht] at hc
          cases hc
          exact .running (.fresh rfl (.calling rfl ⟨rfl, _, rfl, .inl ⟨target, rfl⟩⟩ rfl rfl hsize)
            (by simp) ⟨rfl, rfl⟩ rfl rfl hlog)

theorem Course.faithful (h : Course b) : Faithful b := by
  cases h with
  | running h =>
      exact {
        screen := (List.prefix_append _ _).trans (h.read ▸ b.peer.read_prefix_given)
        accepted := (List.prefix_append _ _).trans (h.typed ▸ b.keyboard.read_prefix_given)
        endOfInput := fun hm => absurd hm h.quiet.endOfInput
        closed := fun hm => absurd hm h.quiet.closed }
  | ended h =>
      refine ⟨h.screen.trans b.peer.read_prefix_given, h.accepted.trans b.keyboard.read_prefix_given,
        fun hm => ?_, fun hm => ?_⟩
      · obtain ⟨he, hk⟩ := h.endOfInput hm
        refine ⟨he, fun hf => ?_⟩
        have hused := hk.resolve_left (by simp [hf])
        exact ⟨hused.1, he.trans hused.given.symm⟩
      · obtain ⟨he, hused⟩ := h.closed hm
        exact ⟨hused.1, he.trans hused.given.symm⟩

/-- Whatever the peer sends and whatever is typed, in whatever pieces and with whatever settings that
can be loaded: a terminal that calls loses nothing on the way. -/
theorem bridges_faithfully {path : String} {content : ByteArray} {config : Config}
    (hload : Config.ofBytes path content = .ok config) (hmode : config.bluetooth.mode = .client) :
    ∀ ms b, (machine config).Run ms b → b.Faithful := by
  intro ms b h
  have hsize : config.link.readSize ≤ Link.maxBuffer := by
    have hn := Config.numbers_le hload config.link.readBufferSize (by simp [Config.Tuning.numbers])
    rw [Config.Tuning.readSize]
    exact Nat.max_le.mpr ⟨hn, by decide⟩
  exact (h.invariant (Course.start hmode hsize) fun hp h => Course.perform h hp).faithful

/-! A conversation in pieces of two bytes, to the end of what is typed and to the end of the peer. -/

def pairwise : Config :=
  { bluetooth := { mode := .client }
    client := { address := "00:11:22:33:44:55" }
    link := { readBufferSize := 2 } }

def pairwiseText : String :=
  "[bluetooth]\nmode = \"client\"\n\n[client]\naddress = \"00:11:22:33:44:55\"\n\n" ++
    "[link]\nread_buffer_size = 2\n"

def work (k : Worker) (r : Rfcomm.Reply) : Act := .step (.worker k) (.link r)

/-- The peer sends three bytes, of which two are read, and two of the three that are typed go out, one
at a time, while the next read starts. -/
def talk : List Act :=
  [work (.task 0) (.connected (.ok 7)), work (.task 0) .go, work (.task 0) .go, .step .main .go,
    .send [1, 2, 3], .type [4, 5, 6], work (.task 1) .go, work (.task 1) .go,
    work (.task 1) (.read (.ok [1, 2])), .step .main (.chosen .read), .show 1,
    .step .reader (.input (.ok [4, 5])), .show 1, .step .main (.displayed (.ok ())),
    .step .main (.chosen .chunk), work (.write 0) .go, work (.write 0) .go,
    work (.write 0) (.wrote (.ok 1)), work (.task 2) .go, work (.write 0) (.wrote (.ok 1)),
    work (.write 0) (.flushed (.ok ())), work (.task 2) .go, .step .main .go]

def hangUp : List Act :=
  [.step .reader (.input (.ok [6])), .endInput, .step .main (.chosen .chunk), work (.write 1) .go,
    work (.write 1) .go, work (.write 1) (.wrote (.ok 1)), work (.write 1) (.flushed (.ok ())),
    .step .reader (.input (.ok [])), .step .main .go, .step .main (.chosen .chunk)]

def peerHangsUp : List Act :=
  [work (.task 2) (.read (.ok [3])), .step .main (.chosen .read), .show 1,
    .step .main (.displayed (.ok ())), work (.task 3) .go, work (.task 3) .go, .finish,
    work (.task 3) (.read (.ok [])), work (.task 3) .go, work (.task 3) .go, work (.task 3) .shutDown,
    .step .main (.chosen .read)]

theorem bridges_faithfully_to_both_ends :
    Config.ofBytes "btserial.toml" pairwiseText.toUTF8 = .ok pairwise ∧
      pairwise.bluetooth.mode = .client ∧
      (∃ ms b, (machine pairwise).Run ms b ∧ info "End of input" ∈ b.log ∧
        b.keyboard.given = [4, 5, 6] ∧ b.keyboard.failed = false ∧ b.Faithful) ∧
      ∃ ms b, (machine pairwise).Run ms b ∧ info "Connection closed" ∈ b.log ∧
        b.peer.given = [1, 2, 3] ∧ b.Faithful := by
  have hload : Config.ofBytes "btserial.toml" pairwiseText.toUTF8 = .ok pairwise := by decide +kernel
  refine ⟨hload, rfl, ?_, ?_⟩
  · obtain ⟨ms, b, hp, hb⟩ := (machine pairwise).exists_of_play (talk ++ hangUp)
      (fun _ b => info "End of input" ∈ b.log ∧ b.keyboard.given = [4, 5, 6] ∧ b.keyboard.failed = false)
      (by decide +kernel)
    obtain ⟨hm, hg, hf⟩ := of_decide_eq_true hb
    have h := Machine.run_of_play hp
    exact ⟨ms, b, h, hm, hg, hf, bridges_faithfully hload rfl ms b h⟩
  · obtain ⟨ms, b, hp, hb⟩ := (machine pairwise).exists_of_play (talk ++ peerHangsUp)
      (fun _ b => info "Connection closed" ∈ b.log ∧ b.peer.given = [1, 2, 3]) (by decide +kernel)
    obtain ⟨hm, hg⟩ := of_decide_eq_true hb
    have h := Machine.run_of_play hp
    exact ⟨ms, b, h, hm, hg, bridges_faithfully hload rfl ms b h⟩

end Rfcomm.Bridge
