import Rfcomm.Proofs.Connection.Streams
import Rfcomm.Proofs.Memory.Holder
import Rfcomm.Proofs.Server.Belonging
import Rfcomm.Proofs.Server.Party
/-!
What the reads of a connection and of a server deliver. Their streams are ends of pipes, and every byte
that the peer wrote comes out once and in order.
-/
namespace Rfcomm

/-! ## Links -/

namespace Link

variable {l l' : Link} {n : Nat} {a a' : Option Activity} {w : Worker} {g : Reading} {r : Reply}
  {bytes : Bytes} {x : StreamId} {e : Seen} {acts : Nat → Option Activity} {size : Nat}

theorem Moves.readSize (h : Moves l n a l' a') : l'.readSize = l.readSize := by
  cases h with
  | none => rfl
  | move hm => cases hm <;> rfl
  | close hm => cases hm <;> rfl

theorem readSize_of_resumeWrite {result : Option (Except WriteError Nat)}
    (h : l.resumeWrite n r = some (l', result)) : l'.readSize = l.readSize := by
  obtain ⟨_, -, he⟩ := Option.map_eq_some_iff.mp h
  cases he
  rfl

/-- Whoever reads a stream asks for so many bytes as the link was made for, and has the reading half. -/
theorem Calls.of_read (h : l.Calls acts w (.read x size)) (hS : l.Sound acts) :
    size = l.readSize ∧ l.lock.isHeldBy w = true ∧ l.stream = some x ∧ l.wake.pending = none ∧
      ∃ n, w = .task n ∧ acts n = some (.reading (.reading x)) := by
  cases h with
  | @read n _ hn hp =>
      refine ⟨rfl, hS.reader.first _ ?_, hS.reads n x hn, hp, n, rfl, hn⟩
      rw [readerRole, hn]
      rfl

end Link

/-! ## Connections -/

namespace Connection

variable {c c' c₁ : Connection} {id n size : Nat} {stage st : Stage} {next : Option Stage} {r : Reply}
  {out : Option Outcome} {a : Act} {e : Effect} {ms ns : List Moment} {m : Moment} {w : Worker}
  {t : Config.Tuning} {x : StreamId} {bytes : Bytes}

def holder (t : Config.Tuning) : Holder Connection Act Effect where
  machine := machine t
  side := .caller
  ask := ask
  step := .step
  reply?
    | .step _ r => some r
    | _ => none
  streams := streams
  outcome := Effect.outcome
  link := link

theorem Asks.readSize (h : Asks c a c' e) : c'.link.readSize = c.link.readSize := by
  cases h with
  | @close _ background owned _ hp =>
      have hl : ({ c.close background with owned } : Connection).link =
          c.link.markClosed.signal .close := close_link hp background
      rw [hl]
      rfl
  | send hr => exact Link.readSize_of_resumeWrite hr
  | _ => rfl

theorem readSize_of_run (h : (machine t).Run ms c) : c.link.readSize = t.readSize := by
  refine h.invariant (P := fun c => c.link.readSize = t.readSize) rfl fun hp ih => ?_
  cases does_of_perform hp with
  | ask ha => exact ha.readSize.trans ih
  | turn _ ht => rw [place_link]; exact ht.link.readSize.trans ih

/-! ### Answers -/

theorem answers (h : (machine t).Run ms c) (hask : c.ask w = .call (.read x size))
    (hlen : bytes.length ≤ size) : ∃ c' e, c.perform (.step w (.read (.ok bytes))) = some (c', e) ∧
      (bytes ≠ [] → e.outcome = some (.data bytes)) := by
  obtain ⟨rfl, -, -, hpend, n, rfl, hn⟩ := (calls_of_ask hask rfl).of_read (sound_of_run h).link
  obtain ⟨c', hp⟩ := perform_of_read (stage_of_reading hn) hpend hlen
  refine ⟨c', _, hp, fun hb => ?_⟩
  cases bytes with
  | nil => exact absurd rfl hb
  | cons => rfl

/-! ### Streams that are gone -/

theorem Turn.owned (h : Turn c id stage r c₁ next out) : (c₁.place id next).owned = c.owned := by
  have hplace : (c₁.place id next).owned = c₁.owned := by cases next <;> rfl
  rw [hplace]
  cases h <;> rfl

theorem owned_of_perform (h : c.perform a = some (c', e)) (ha : ∀ b, a ≠ .drop b) :
    c'.owned = c.owned := by
  cases a with
  | connect address channel =>
      cases ht : Target.parse address channel with
      | error f =>
          simp only [perform, connect, ht] at h
          cases h
          rfl
      | ok target =>
          by_cases hp : c.phase = .idle <;>
            simp only [perform, connect, ht, bind, Except.bind, hp, if_true, if_false] at h <;>
            cases h <;> rfl
  | read =>
      simp only [perform, read] at h
      split at h <;> cases h <;> rfl
  | write bytes => cases h; rfl
  | close b =>
      cases h
      by_cases hp : c.phase = .closed
      · rw [Connection.close, if_pos hp]
      · rw [close_eq hp]
        cases b <;> rfl
  | drop b => exact absurd rfl (ha b)
  | step w r =>
      cases does_of_perform h with
      | ask hask =>
          cases hask with
          | close hact => rcases hact with h | h <;> cases h
          | aside hne => exact absurd rfl (hne w r)
          | send => rfl
      | turn _ ht => exact ht.owned

theorem owned_or_closed (h : (machine t).Run ms c) : c.owned = true ∨ c.phase = .closed := by
  refine h.invariant (P := fun c => c.owned = true ∨ c.phase = .closed) (.inl rfl) ?_
  intro c a c' e hp ih
  by_cases hdrop : ∃ b, a = .drop b
  · obtain ⟨b, rfl⟩ := hdrop
    cases hp
    exact .inr (close_phase c b)
  · rw [owned_of_perform hp fun b hb => hdrop ⟨b, hb⟩]
    refine ih.imp id fun hc => ?_
    cases does_of_perform hp with
    | ask ha => exact ha.phase.1 hc
    | turn _ ht => rw [place_phase]; exact ht.phase.1 hc

theorem unused (h : (machine t).Run ms c) (hu : ¬c.inUse = true) :
    c.phase = .closed ∧ ∀ n st, c.stage? n ≠ some st := by
  simp only [inUse, Bool.or_eq_true, not_or, Bool.not_eq_true, Bool.not_eq_false',
    List.isEmpty_iff] at hu
  obtain ⟨howned, htasks⟩ := hu
  refine ⟨(owned_or_closed h).resolve_left (by simp [howned]), fun n st hn => ?_⟩
  have hmem := (mem_tasks (sound_of_run h)).mp hn
  rw [htasks] at hmem
  cases hmem

theorem unread_since (h : (machine t).Run (ms ++ ns) c)
    (h₀ : ∀ {c₀}, (machine t).Run ms c₀ → c₀.phase = .closed ∧ ∀ n g, c₀.stage? n ≠ some (.reading g)) :
    ∀ n g, c.stage? n ≠ some (.reading g) := by
  refine (h.since (P := fun _ c => c.phase = .closed ∧ ∀ n g, c.stage? n ≠ some (.reading g)) h₀ ?_).2
  rintro ns c a c' e hr - hp ⟨hc, hn⟩
  have hS := sound_of_run hr
  cases does_of_perform hp with
  | ask ha =>
      refine ⟨ha.phase.1 hc, fun n g hs => ?_⟩
      rcases ha.fresh hS hs with hs | ⟨-, ⟨⟨_, h⟩, -⟩ | ⟨-, ho, -⟩ | ⟨h, -⟩⟩
      · exact hn n g hs
      · cases h
      · simp [isOpen, hc] at ho
      · cases h
  | @turn id st _ c₁ next _ hs ht =>
      refine ⟨by rw [place_phase]; exact ht.phase.1 hc, fun n g hg => ?_⟩
      by_cases hne : n = id
      · subst hne
        obtain ⟨g', rfl⟩ := ht.to_reading ((ht.mine hs).symm.trans hg)
        exact hn n g' hs
      · exact hn n g ((ht.other hs hne).symm.trans hg)

/-- A stream that is let go is never read again. -/
theorem not_read_of_left (h : (machine t).Run (ms ++ m :: ns) c) (hb : x ∈ m.before.streams)
    (ha : x ∉ m.after.streams) : c.ask w ≠ .call (.read x size) := by
  intro hask
  obtain ⟨-, -, hlink, -, n, -, hn⟩ := (calls_of_ask hask rfl).of_read (sound_of_run h).link
  obtain ⟨hr, -, -, hr'⟩ := h.moment
  have hrun : (machine t).Run ((ms ++ [m]) ++ ns) c := by simpa using h
  have same : ∀ {c₀}, (machine t).Run (ms ++ [m]) c₀ → m.after = c₀ := fun h₀ => h₀.unsnoc.2.2.2
  -- Either nothing holds the stream any more, or nobody is left who could read.
  by_cases hu : m.after.inUse = true
  · have hx : x ∈ handed (ms ++ [m]) := by
      rw [handed_append]
      exact List.mem_append_left _ (handed_of_holds hr (holds_of_mem (sound_of_run hr) hb))
    refine not_holds_since hrun hx (fun h₀ hh => ?_) (.reader hlink)
    rw [← same h₀] at hh
    exact ha (mem_of_inUse (sound_of_run hr') hu hh)
  · obtain ⟨hclosed, htasks⟩ := unused hr' hu
    refine unread_since hrun (fun h₀ => ?_) n _ (stage_of_reading hn)
    rw [← same h₀]
    exact ⟨hclosed, fun i g => htasks i _⟩

theorem lawful (t : Config.Tuning) : (holder t).Lawful t.readSize where
  positive := Nat.lt_of_lt_of_le Nat.zero_lt_one (Nat.le_max_right _ _)
  reply _ _ := rfl
  allows _ _ _ _ := rfl
  asks h hask := by
    obtain ⟨rfl, hlock, -⟩ := (calls_of_ask hask rfl).of_read (sound_of_run h).link
    exact ⟨readSize_of_run h, hlock⟩
  answers h hask hlen := answers h hask hlen
  data h hp ho := by
    obtain ⟨n, x, rfl, -, hb, -⟩ := data_of_perform h hp ho
    exact ⟨rfl, hb⟩
  gone h hb ha := not_read_of_left h hb ha

end Connection

/-! ## Servers -/

namespace Server

variable {s s' s₁ : Server} {id n size : Nat} {stage st : Stage} {next : Option Stage} {r : Reply}
  {out : Report} {a : Act} {e : Effect} {ms ns : List Moment} {m : Moment} {w : Worker}
  {t : Config.Tuning} {x : StreamId} {g : Nat} {bytes : Bytes}

def holder (t : Config.Tuning) : Holder Server Act Effect where
  machine := machine t
  side := .called
  ask := ask
  step := .step
  reply?
    | .step _ r => some r
    | _ => none
  streams := streams
  outcome e := e.report.outcome
  link := link

theorem Does.readSize (h : Does s a s' e) : s'.link.readSize = s.link.readSize := by
  cases h with
  | @close _ background owned _ hp =>
      have hl : ({ s.close background with owned } : Server).link =
          s.link.markClosed.signal .close := close_link hp background
      rw [hl]
      rfl
  | send hr => exact Link.readSize_of_resumeWrite hr
  | turn _ ht => rw [place_link]; exact ht.link.readSize
  | _ => rfl

theorem readSize_of_run (h : (machine t).Run ms s) : s.link.readSize = t.readSize :=
  h.invariant (P := fun s => s.link.readSize = t.readSize) rfl fun hp ih =>
    (does_of_perform hp).readSize.trans ih

/-! ### Answers -/

theorem answers (h : (machine t).Run ms s) (hask : s.ask w = .call (.read x size))
    (hlen : bytes.length ≤ size) : ∃ s' e, s.perform (.step w (.read (.ok bytes))) = some (s', e) ∧
      (bytes ≠ [] → e.report.outcome = some (.data bytes)) := by
  obtain ⟨rfl, -, -, hpend, n, rfl, hn⟩ := (calls_of_ask hask rfl).of_read (sound_of_run h).link
  obtain ⟨g, hg⟩ := stage_of_reading hn
  obtain ⟨s', hp⟩ := perform_of_read hg hpend hlen
  refine ⟨s', _, hp, fun hb => ?_⟩
  cases bytes with
  | nil => exact absurd rfl hb
  | cons => rfl

/-! ### Streams that are gone -/

theorem unread_since (h : (machine t).Run (ms ++ ns) s)
    (h₀ : ∀ {s₀}, (machine t).Run ms s₀ →
      s₀.phase = .closed ∧ ∀ n g k, s₀.stage? n ≠ some (.reading g k)) :
    ∀ n g k, s.stage? n ≠ some (.reading g k) := by
  refine (h.since (P := fun _ s => s.phase = .closed ∧ ∀ n g k, s.stage? n ≠ some (.reading g k))
    h₀ ?_).2
  rintro ns s a s' e hr - hp ⟨hc, hn⟩
  have hS := sound_of_run hr
  have hd := does_of_perform hp
  refine ⟨hd.phase hc, fun n g k hs => ?_⟩
  rcases hd.turn_or_aside with ⟨id, r, st, s₁, next, out, rfl, rfl, rfl, hid, ht⟩ | hne
  · by_cases hni : n = id
    · subst hni
      obtain ⟨k', rfl⟩ := ht.to_reading ((ht.mine hS hid).symm.trans hs)
      exact hn n g k' hid
    · refine hn n g k (ht.old hS hid hni hs ?_)
      nofun
  · rcases (hd.table hS).resolve_left fun ⟨n, r, he⟩ => hne n r he with he | ⟨st, he, -, hread⟩
    · exact hn n g k (he ▸ hs)
    · rw [he] at hs
      by_cases hf : n = s.nextTask
      · subst hf
        obtain rfl : st = .reading g k := by simpa using hs
        obtain ⟨-, -, hclient⟩ := hread g k rfl
        simp [(shut_of_run hr hc).client] at hclient
      · exact hn n g k (by simpa [hf] using hs)

/-- A stream that is let go is never read again. -/
theorem not_read_of_left (h : (machine t).Run (ms ++ m :: ns) s) (hb : x ∈ m.before.streams)
    (ha : x ∉ m.after.streams) : s.ask w ≠ .call (.read x size) := by
  intro hask
  obtain ⟨-, -, hlink, -, n, -, hn⟩ := (calls_of_ask hask rfl).of_read (sound_of_run h).link
  obtain ⟨hr, -, -, hr'⟩ := h.moment
  have hrun : (machine t).Run ((ms ++ [m]) ++ ns) s := by simpa using h
  have same : ∀ {s₀}, (machine t).Run (ms ++ [m]) s₀ → m.after = s₀ := fun h₀ => h₀.unsnoc.2.2.2
  -- Either nothing holds the stream any more, or nobody is left who could read.
  by_cases hu : m.after.inUse = true
  · have hx : x ∈ handed (ms ++ [m]) := by
      rw [handed_append]
      exact List.mem_append_left _ (handed_of_holds hr (holds_of_mem (sound_of_run hr) hb))
    refine not_holds_since hrun hx (fun h₀ hh => ?_) (.reader hlink)
    rw [← same h₀] at hh
    exact ha (mem_of_inUse (sound_of_run hr') hu hh)
  · obtain ⟨hclosed, htasks⟩ := unused hr' hu
    obtain ⟨g, hg⟩ := stage_of_reading hn
    refine unread_since hrun (fun h₀ => ?_) n g _ hg
    rw [← same h₀]
    exact ⟨hclosed, fun i g k => htasks i _⟩

theorem lawful (t : Config.Tuning) : (holder t).Lawful t.readSize where
  positive := Nat.lt_of_lt_of_le Nat.zero_lt_one (Nat.le_max_right _ _)
  reply _ _ := rfl
  allows ms w r hr := by
    cases r <;> first | rfl | cases hr
  asks h hask := by
    obtain ⟨rfl, hlock, -⟩ := (calls_of_ask hask rfl).of_read (sound_of_run h).link
    exact ⟨readSize_of_run h, hlock⟩
  answers h hask hlen := answers h hask hlen
  data _ hp ho := by
    obtain ⟨n, g, x, rfl, -, hb, -⟩ := data_of_perform hp ho
    exact ⟨rfl, hb⟩
  gone h hb ha := not_read_of_left h hb ha

end Server

/-! ## Both -/

/-- Wherever a connection or a server with its pipes gets to, whatever room the pipes have: its reads
deliver what the peers wrote. -/
theorem reads_deliver (t : Config.Tuning) (capacity : StreamId → Nat) :
    (∀ ms s, (Piped.machine (Connection.holder t) capacity).Run ms s →
      Piped.Delivers (Connection.holder t) (max t.readBufferSize.toNat 1) ms s) ∧
    ∀ ms s, (Piped.machine (Server.holder t) capacity).Run ms s →
      Piped.Delivers (Server.holder t) (max t.readBufferSize.toNat 1) ms s :=
  ⟨fun _ _ h => Piped.delivers_of_run (Connection.lawful t) h,
    fun _ _ h => Piped.delivers_of_run (Server.lawful t) h⟩

/-- Two reads of a connection take what the peer wrote, and a third sees the end. Of two reads of a
server the first takes as much as it can, and the second is woken and leaves the rest. -/
theorem reads_deliver_in_pieces :
    (∃ ms s, (Piped.machine (Connection.holder { readBufferSize := 3 }) fun _ => 64).Run ms s ∧
      Piped.written ms 7 = [1, 2, 3, 4, 5] ∧
      ms.filterMap (Piped.data? (Connection.holder { readBufferSize := 3 })) =
        [(7, [1, 2, 3]), (7, [4, 5])] ∧ s.holder.phase = .closed ∧
      Piped.Delivers (Connection.holder { readBufferSize := 3 }) 3 ms s) ∧
    ∃ ms s, (Piped.machine (Server.holder { readBufferSize := 3 }) fun _ => 4).Run ms s ∧
      Piped.written ms 7 = [1, 2, 3, 4] ∧
      ms.filterMap (Piped.data? (Server.holder { readBufferSize := 3 })) = [(7, [1, 2, 3])] ∧
      (Piped.incoming (Server.holder { readBufferSize := 3 }) s 7).buffer = [4] ∧
      Piped.Delivers (Server.holder { readBufferSize := 3 }) 3 ms s := by
  constructor
  · obtain ⟨ms, s, hp, hs⟩ :=
      (Piped.machine (Connection.holder { readBufferSize := 3 }) fun _ => 64).exists_of_play
        [.own (.connect "00:11:22:33:44:01" 3), .own (.step (.task 0) (.connected (.ok 7))),
          .own (.step (.task 0) .go), .own (.step (.task 0) .go), .send 7 [1, 2, 3, 4, 5],
          .own .read, .own (.step (.task 1) .go), .own (.step (.task 1) .go), .answer (.task 1),
          .own .read, .own (.step (.task 2) .go), .own (.step (.task 2) .go), .answer (.task 2),
          .finish 7, .own .read, .own (.step (.task 3) .go), .own (.step (.task 3) .go),
          .answer (.task 3)]
        (fun ms s => Piped.written ms 7 = [1, 2, 3, 4, 5] ∧
          ms.filterMap (Piped.data? (Connection.holder { readBufferSize := 3 })) =
            [(7, [1, 2, 3]), (7, [4, 5])] ∧ s.holder.phase = .closed) (by decide +kernel)
    obtain ⟨hwritten, hdata, hphase⟩ := of_decide_eq_true hs
    have hrun := Machine.run_of_play hp
    exact ⟨ms, s, hrun, hwritten, hdata, hphase, (reads_deliver _ _).1 ms s hrun⟩
  · obtain ⟨ms, s, hp, hs⟩ :=
      (Piped.machine (Server.holder { readBufferSize := 3 }) fun _ => 4).exists_of_play
        (Server.arrival.map .own ++ [.send 7 [1, 2, 3, 4, 5], .own .read, .own .read,
          .own (.step (.task 2) .go), .own (.step (.task 2) .go), .own (.step (.task 3) .go),
          .answer (.task 2), .own (.step (.task 3) .go), .own .disconnectClient,
          .own (.step (.task 3) .go)])
        (fun ms s => Piped.written ms 7 = [1, 2, 3, 4] ∧
          ms.filterMap (Piped.data? (Server.holder { readBufferSize := 3 })) = [(7, [1, 2, 3])] ∧
          (Piped.incoming (Server.holder { readBufferSize := 3 }) s 7).buffer = [4])
        (by decide +kernel)
    obtain ⟨hwritten, hdata, hbuffer⟩ := of_decide_eq_true hs
    have hrun := Machine.run_of_play hp
    exact ⟨ms, s, hrun, hwritten, hdata, hbuffer, (reads_deliver _ _).2 ms s hrun⟩

end Rfcomm
