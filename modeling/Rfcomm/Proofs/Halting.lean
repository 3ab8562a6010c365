import Rfcomm.Proofs.Wire
/-!
How closing stops the writes. A closed link takes no more bytes, and a send that it was closed under can
always go on, to its end: nobody opens the link again before. So at rest no write is left.
-/
namespace Rfcomm

namespace Link

/-- A write is being sent although the link was closed. -/
def Cut (l : Link) (i : Nat) : Prop :=
  l.isOpen = false ∧ ∃ x send, l.queue.stage? i = some (.sending x send)

/-- Each write came to an outcome. -/
def Settled (ms : List Moment) : Prop := ∀ n < (submitted ms).length, ∃ o, Resolves ms n o

/-- A write comes to an outcome at a moment. -/
def Ends (m : Moment) (n : Nat) : Prop := (∃ r, m.act = .step n r) ∧ m.effect.isSome = true

variable {l l' : Link} {acts : Nat → Option Activity} {a a' : Option Activity} {n i : Nat}
  {r : Reply} {result : Option (Except WriteError Nat)} {ms ns : List Moment} {m : Moment}
  {p : Portion} {o : Outcome}

/-! ## No more bytes -/

theorem portion?_of_shut (ho : m.before.isOpen = false) : portion? m = none := by
  unfold portion?
  split
  · rename_i n r _
    cases hx : (m.before.askWrite n).sink? with
    | none => rfl
    | some x => cases ho.symm.trans (WriteQueue.sending_of_sink hx).1
  · rfl

/-- While a link is closed, no stream takes bytes. -/
theorem accepted_of_shut (ho : ∀ m ∈ ns, m.before.isOpen = false) (x : StreamId) :
    accepted (ms ++ ns) x = accepted ms x := by
  have hn : portions ns = [] := List.filterMap_eq_nil_iff.mpr fun m hm => portion?_of_shut (ho m hm)
  have hp : portions (ms ++ ns) = portions ms ++ portions ns := List.filterMap_append
  rw [accepted, accepted, hp, hn, List.append_nil]

/-! ## No write is left -/

theorem resolves_append (h : Resolves ms n o) : Resolves (ms ++ ns) n o := by
  obtain ⟨m, hm, h⟩ := h
  exact ⟨m, List.mem_append_left _ hm, h⟩

theorem resolves_of_ends {κ : Type} {f : κ → Moment} {ks : List κ} (h : ∃ k ∈ ks, Ends (f k) n) :
    ∃ o, Resolves (ks.map f) n o := by
  obtain ⟨k, hk, hact, ho⟩ := h
  obtain ⟨o, ho⟩ := Option.isSome_iff_exists.mp ho
  exact ⟨o, _, List.mem_map.mpr ⟨k, hk, rfl⟩, hact, ho⟩

/-- A write is queued until it comes to an outcome. -/
theorem Trace.pending (h : Trace ms l) (hn : n < l.queue.nextId) :
    n ∈ l.queue.nodes.map (·.id) ∨ ∃ o, Resolves ms n o := by
  induction h with
  | start hq =>
      rw [hq] at hn
      cases hn
  | @write ms l acts bytes _ _ ih =>
      simp only [Link.write, WriteQueue.enqueue_nextId] at hn
      simp only [Link.write, WriteQueue.enqueue_ids, List.mem_append, List.mem_singleton]
      rcases Nat.lt_succ_iff_lt_or_eq.mp hn with hn | rfl
      · rcases ih hn with h | ⟨o, h⟩
        · exact .inl (.inl h)
        · exact .inr ⟨o, resolves_append h⟩
      · exact .inl (.inr rfl)
  | @step ms l l' acts i r result _ hS hr ih =>
      obtain ⟨⟨q, result⟩, hq, he⟩ := Option.map_eq_some_iff.mp hr
      cases he
      have hm := WriteQueue.move_of_resume hq
      rcases ih ((hm.fifo hS.fifo).2.1 ▸ hn) with h | ⟨o, h⟩
      · rw [hm.ids hS.fifo, List.mem_append] at h
        rcases h with h | h
        · obtain ⟨res, rfl⟩ : ∃ res, result = some res := by
            cases result with
            | none => cases h
            | some res => exact ⟨res, rfl⟩
          obtain rfl : n = i := by simpa using h
          exact .inr ⟨_, _, List.mem_append_right _ (List.mem_singleton_self _), ⟨r, rfl⟩, rfl⟩
        · exact .inl h
      · exact .inr ⟨o, resolves_append h⟩
  | other _ hs _ ih =>
      rw [hs.queue] at hn ⊢
      rcases ih hn with h | ⟨o, h⟩
      · exact .inl h
      · exact .inr ⟨o, resolves_append h⟩

theorem Trace.settled (h : Trace ms l) (hn : l.queue.nodes = []) : Settled ms := by
  intro n hlt
  rw [← h.accounts.number] at hlt
  refine (h.pending hlt).resolve_left ?_
  simp [hn]

/-! ## Sends that are cut off -/

theorem Cut.ask (h : Cut l i) : l.askWrite i = .ready := by
  obtain ⟨ho, x, send, hs⟩ := h
  simp [askWrite, WriteQueue.ask, hs, Send.ask, ho]

/-- No task opens the link under a send, since it would need the writing half for that. -/
theorem Moves.cut (h : Sound l acts) (ha : acts n = a) (hm : Moves l n a l' a') (hc : Cut l i) :
    Cut l' i := by
  obtain ⟨ho, x, send, hs⟩ := hc
  have move : ∀ {l' a'}, Move l n a l' a' → Cut l' i := by
    intro l' a' hm
    refine ⟨?_, x, send, ?_⟩
    · cases hm with
      | attach hl => exact absurd hs (h.not_sending hl i)
      | beginClosing => rfl
      | _ => exact ho
    · cases hm <;> exact hs
  cases hm with
  | none => exact ⟨ho, x, send, hs⟩
  | move hm => exact move hm
  | close hm =>
      obtain ⟨-, hs⟩ := move hm
      exact ⟨rfl, hs⟩

theorem Cut.write (h : Cut l i) (hf : l.queue.Fifo) (bytes : Bytes) : Cut (l.write bytes).2 i := by
  obtain ⟨ho, x, send, hs⟩ := h
  refine ⟨ho, x, send, ?_⟩
  rcases stage?_enqueue hf bytes i with he | ⟨hn, -⟩
  · exact he.trans hs
  · cases hn.symm.trans hs

/-- Whoever goes on with a write is the send that was cut off, and ends. -/
theorem Cut.ends (h : Cut l i) (hf : l.queue.Fifo) (hr : l.resumeWrite n r = some (l', result)) :
    n = i ∧ result.isSome = true := by
  obtain ⟨ho, x, send, hs⟩ := h
  obtain ⟨⟨q, result⟩, hq, he⟩ := Option.map_eq_some_iff.mp hr
  cases he
  obtain ⟨stage, hn⟩ := (WriteQueue.move_of_resume hq).stage
  obtain rfl : n = i := by
    rw [WriteQueue.stage?_of_some hf hs] at hn
    by_contra hne
    simp [hne] at hn
  refine ⟨rfl, ?_⟩
  rw [ho] at hq
  cases WriteQueue.move_of_resume hq with
  | line hs' | take hs' => cases hs.symm.trans hs'
  | refuse | miss | finish => rfl
  | send hs' hsend =>
      cases hs.symm.trans hs'
      cases r <;> simp [Send.resume] at hsend

theorem Cut.congr (h : Cut l i) (l' : Link) (hq : l'.queue = l.queue)
    (ho : l'.isOpen = true → l.isOpen = true) : Cut l' i := by
  refine ⟨?_, hq ▸ h.2⟩
  by_contra hopen
  cases h.1.symm.trans (ho (by simpa using hopen))

end Link

/-! ## Connections -/

namespace Connection

/-- The owner closes a connection, or lets go of it. -/
def Quits (m : Moment) : Prop := ∃ background, m.act = .close background ∨ m.act = .drop background

variable {c c' : Connection} {a : Act} {e : Effect} {ms ns : List Moment} {m : Moment}
  {t : Config.Tuning} {n : Nat}

theorem closed_since (h : (machine t).Run (ms ++ m :: ns) c) (hm : Quits m) : c.phase = .closed := by
  have hrun : (machine t).Run ((ms ++ [m]) ++ ns) c := by simpa using h
  refine hrun.since (P := fun _ c => c.phase = .closed) ?_ ?_
  · intro c₀ h₀
    obtain ⟨-, -, hp, -⟩ := h₀.unsnoc
    obtain ⟨background, hact | hact⟩ := hm <;> rw [hact] at hp <;>
      (rw [← (Prod.mk.inj (Option.some.inj hp)).1]; exact close_phase _ background)
  · intro ns c a c' e _ _ hp hc
    cases does_of_perform hp with
    | ask ha => exact ha.phase.1 hc
    | turn hs ht =>
        rw [place_phase]
        exact ht.phase.1 hc

theorem shut_since (h : (machine t).Run (ms ++ m :: ns) c) (hm : Quits m) :
    ∀ k ∈ ns, k.before.link.isOpen = false := by
  intro k hk
  obtain ⟨as, bs, rfl⟩ := List.append_of_mem hk
  have hrun : (machine t).Run ((ms ++ m :: as) ++ k :: bs) c := by simpa using h
  have hr := hrun.moment.1
  exact (once_of_run hr).shut (closed_since hr hm)

/-- After a connection was closed, no stream takes bytes. -/
theorem accepted_since (h : (machine t).Run (ms ++ m :: ns) c) (hm : Quits m) (x : StreamId) :
    Link.accepted (linkMoments (ms ++ m :: ns)) x = Link.accepted (linkMoments ms) x := by
  have hsplit : linkMoments (ms ++ m :: ns) = linkMoments (ms ++ [m]) ++ linkMoments ns := by
    simp [linkMoments]
  rw [hsplit, Link.accepted_of_shut ?_ x, linkMoments_snoc, Link.accepted_of_none]
  · obtain ⟨background, hact | hact⟩ := hm <;> simp [Link.portion?, linkMoment, hact, Act.link]
  · rintro _ hk
    obtain ⟨k, hk', rfl⟩ := List.mem_map.mp hk
    exact shut_since h hm k hk'

theorem Rests.no_writes (hr : c.Rests Server.Unshut) (hS : c.Sound) (ho : c.link.isOpen = false) :
    c.link.queue.nodes = [] := by
  refine hr.link.no_writes hS.link ho fun n x ha => ?_
  exact hr.call ((ask_of_activity ha).trans rfl)

theorem Asks.cut (h : Asks c a c' e) (hS : c.Sound) (hc : c.link.Cut n) :
    c'.link.Cut n ∨ (∃ r, a = .step (.write n) r) ∧ e.outcome.isSome = true := by
  cases h with
  | connect | read | aside => exact .inl hc
  | write => exact .inl (hc.write hS.link.fifo _)
  | @close _ background _ _ hp =>
      refine .inl (hc.congr (c.close background).link ?_ ?_) <;> rw [close_link hp]
      · rfl
      · exact nofun
  | send hr =>
      obtain ⟨rfl, ho⟩ := hc.ends hS.link.fifo hr
      exact .inr ⟨⟨_, rfl⟩, by simpa using ho⟩

/-- A send that is cut off stays so until it is over. -/
theorem cut_since (h : (machine t).Run (ms ++ m :: ns) c) (hc : m.before.link.Cut n) :
    c.link.Cut n ∨ ∃ o, Link.Resolves (linkMoments (m :: ns)) n o := by
  have := h.unless (P := fun c => c.link.Cut n) (R := fun k => Link.Ends (linkMoment k) n) hc ?_
  · exact this.imp_right Link.resolves_of_ends
  · intro ms c a c' e hr hp hc
    cases does_of_perform hp with
    | ask ha =>
        refine (ha.cut (sound_of_run hr) hc).imp_right ?_
        rintro ⟨⟨r, rfl⟩, ho⟩
        exact ⟨⟨r, rfl⟩, ho⟩
    | turn hs ht =>
        rw [place_link]
        exact .inl (ht.link.cut (sound_of_run hr).link (activities_of_stage hs) hc)

end Connection

/-! ## Servers -/

namespace Server

/-- The owner closes a server, or lets go of it. -/
def Quits (m : Moment) : Prop := ∃ background, m.act = .close background ∨ m.act = .drop background

variable {s s' : Server} {a : Act} {e : Effect} {ms ns : List Moment} {m : Moment}
  {t : Config.Tuning} {n : Nat}

theorem closed_since (h : (machine t).Run (ms ++ m :: ns) s) (hm : Quits m) : s.phase = .closed := by
  have hrun : (machine t).Run ((ms ++ [m]) ++ ns) s := by simpa using h
  refine hrun.since (P := fun _ s => s.phase = .closed) ?_ ?_
  · intro s₀ h₀
    obtain ⟨-, -, hp, -⟩ := h₀.unsnoc
    obtain ⟨background, hact | hact⟩ := hm <;> rw [hact] at hp <;>
      (rw [← (Prod.mk.inj (Option.some.inj hp)).1]; exact close_phase _ background)
  · intro ns s a s' e _ _ hp hc
    exact (does_of_perform hp).phase hc

theorem shut_since (h : (machine t).Run (ms ++ m :: ns) s) (hm : Quits m) :
    ∀ k ∈ ns, k.before.link.isOpen = false := by
  intro k hk
  obtain ⟨as, bs, rfl⟩ := List.append_of_mem hk
  have hrun : (machine t).Run ((ms ++ m :: as) ++ k :: bs) s := by simpa using h
  have hr := hrun.moment.1
  exact (shut_of_run hr (closed_since hr hm)).isOpen

/-- After a server was closed, no stream takes bytes. -/
theorem accepted_since (h : (machine t).Run (ms ++ m :: ns) s) (hm : Quits m) (x : StreamId) :
    Link.accepted (linkMoments (ms ++ m :: ns)) x = Link.accepted (linkMoments ms) x := by
  have hsplit : linkMoments (ms ++ m :: ns) = linkMoments (ms ++ [m]) ++ linkMoments ns := by
    simp [linkMoments]
  rw [hsplit, Link.accepted_of_shut ?_ x, linkMoments_snoc, Link.accepted_of_none]
  · obtain ⟨background, hact | hact⟩ := hm <;> simp [Link.portion?, linkMoment, hact, Act.link]
  · rintro _ hk
    obtain ⟨k, hk', rfl⟩ := List.mem_map.mp hk
    exact shut_since h hm k hk'

theorem Does.cut (h : Does s a s' e) (hS : s.Sound) (hc : s.link.Cut n) :
    s'.link.Cut n ∨ (∃ r, a = .step (.write n) r) ∧ e.report.outcome.isSome = true := by
  cases h with
  | listen | read | aside => exact .inl hc
  | write => exact .inl (hc.write hS.link.fifo _)
  | disconnect => exact .inl (hc.congr _ rfl nofun)
  | @close _ background _ _ hp =>
      refine .inl (hc.congr (s.close background).link ?_ ?_) <;> rw [close_link hp]
      · rfl
      · exact nofun
  | send hr =>
      obtain ⟨rfl, ho⟩ := hc.ends hS.link.fifo hr
      exact .inr ⟨⟨_, rfl⟩, by simpa using ho⟩
  | turn hs ht =>
      rw [place_link]
      exact .inl (ht.link.cut hS.link (activities_of_stage hs) hc)

/-- A send that is cut off stays so until it is over. -/
theorem cut_since (h : (machine t).Run (ms ++ m :: ns) s) (hc : m.before.link.Cut n) :
    s.link.Cut n ∨ ∃ o, Link.Resolves (linkMoments (m :: ns)) n o := by
  have := h.unless (P := fun s => s.link.Cut n) (R := fun k => Link.Ends (linkMoment k) n) hc ?_
  · exact this.imp_right Link.resolves_of_ends
  · intro ms s a s' e hr hp hc
    refine ((does_of_perform hp).cut (sound_of_run hr) hc).imp_right ?_
    rintro ⟨⟨r, rfl⟩, ho⟩
    exact ⟨⟨r, rfl⟩, ho⟩

end Server

/-! ## Both -/

/-- Closing a connection or a server stops its writes. Its streams take no byte from then on. Wherever a
run gets to with the link closed, at rest and with no stream being shut down, no write is queued and each
has come to an outcome. And a write that the link is closed under while it is sent can go on at any time
until it is over, and the link stays closed as long. -/
theorem closed_stops_writes (t : Config.Tuning) :
    (∀ (ms : List Connection.Moment) (c : Connection), (Connection.machine t).Run ms c →
      (∀ as m bs x, ms = as ++ m :: bs → Connection.Quits m →
        Link.accepted (Connection.linkMoments ms) x = Link.accepted (Connection.linkMoments as) x) ∧
      (c.link.isOpen = false → c.Rests Server.Unshut →
        c.pendingWrites = 0 ∧ Link.Settled (Connection.linkMoments ms)) ∧
      ∀ as m bs n, ms = as ++ m :: bs → m.before.link.Cut n →
        c.link.Cut n ∧ c.ask (.write n) = .ready ∨
          ∃ o, Link.Resolves (Connection.linkMoments (m :: bs)) n o) ∧
    ∀ (ms : List Server.Moment) (s : Server), (Server.machine t).Run ms s →
      (∀ as m bs x, ms = as ++ m :: bs → Server.Quits m →
        Link.accepted (Server.linkMoments ms) x = Link.accepted (Server.linkMoments as) x) ∧
      (s.link.isOpen = false → s.Rests Server.Unshut →
        s.pendingWrites = 0 ∧ Link.Settled (Server.linkMoments ms)) ∧
      ∀ as m bs n, ms = as ++ m :: bs → m.before.link.Cut n →
        s.link.Cut n ∧ s.ask (.write n) = .ready ∨
          ∃ o, Link.Resolves (Server.linkMoments (m :: bs)) n o := by
  constructor
  · intro ms c h
    refine ⟨?_, fun ho hr => ?_, ?_⟩
    · rintro as m bs x rfl hm
      exact Connection.accepted_since h hm x
    · have hn := hr.no_writes (Connection.sound_of_run h) ho
      exact ⟨congrArg List.length hn, (Connection.trace_of_run h).settled hn⟩
    · rintro as m bs n rfl hc
      exact (Connection.cut_since h hc).imp_left fun hc => ⟨hc, hc.ask⟩
  · intro ms s h
    refine ⟨?_, fun ho hr => ?_, ?_⟩
    · rintro as m bs x rfl hm
      exact Server.accepted_since h hm x
    · have hn := hr.no_writes (Server.sound_of_run h) ho
      exact ⟨congrArg List.length hn, (Server.trace_of_run h).settled hn⟩
    · rintro as m bs n rfl hc
      exact (Server.cut_since h hc).imp_left fun hc => ⟨hc, hc.ask⟩

/-- A connection and a server are closed while one write is half sent and another one waits. -/
theorem closed_stops_writes_of_two :
    (∃ ms m ns c, (Connection.machine {}).Run (ms ++ m :: ns) c ∧ Connection.Quits m ∧
      c.link.isOpen = false ∧ c.Rests Server.Unshut ∧
      Link.accepted (Connection.linkMoments (ms ++ m :: ns)) 7 =
        Link.accepted (Connection.linkMoments ms) 7 ∧
      c.pendingWrites = 0 ∧ Link.Settled (Connection.linkMoments (ms ++ m :: ns))) ∧
    (∃ ms m ns c, (Connection.machine {}).Run (ms ++ m :: ns) c ∧ m.before.link.Cut 0 ∧
      ∃ o, Link.Resolves (Connection.linkMoments (m :: ns)) 0 o) ∧
    ∃ ms m ns s, (Server.machine {}).Run (ms ++ m :: ns) s ∧ Server.Quits m ∧
      s.link.isOpen = false ∧ s.Rests Server.Unshut ∧
      Link.accepted (Server.linkMoments (ms ++ m :: ns)) 7 =
        Link.accepted (Server.linkMoments ms) 7 ∧
      s.pendingWrites = 0 ∧ Link.Settled (Server.linkMoments (ms ++ m :: ns)) := by
  let as : List Connection.Act := [.connect "00:11:22:33:44:01" 3,
    .step (.task 0) (.connected (.ok 7)), .step (.task 0) .go, .step (.task 0) .go,
    .write [1, 2], .write [3], .step (.write 0) .go, .step (.write 0) .go,
    .step (.write 0) (.wrote (.ok 1))]
  refine ⟨?_, ?_, ?_⟩
  · let bs : List Connection.Act := [.step (.write 0) .go, .step (.write 1) .go,
      .step (.task 1) .go, .step (.task 1) .go, .step (.task 1) .go, .step (.task 1) .shutDown]
    obtain ⟨ms, m, ns, c, hrun, hact, -, hc⟩ := (Connection.machine {}).exists_moment_of_play as
      (.close true) bs (fun _ => true) (fun c => c.workers = [] ∧ c.link.isOpen = false)
      (by decide +kernel) (by decide +kernel)
    obtain ⟨hw, ho⟩ := of_decide_eq_true hc
    have hquits : Connection.Quits m := ⟨true, .inl hact⟩
    have hrest : c.Rests Server.Unshut := Connection.rests_of_workers fun w h => by simp [hw] at h
    obtain ⟨hbytes, hsettled, -⟩ := (closed_stops_writes {}).1 _ _ hrun
    obtain ⟨hpending, hall⟩ := hsettled ho hrest
    exact ⟨ms, m, ns, c, hrun, hquits, ho, hrest, hbytes _ _ _ 7 rfl hquits, hpending, hall⟩
  · obtain ⟨ms, m, ns, c, hrun, -, hm, hc⟩ := (Connection.machine {}).exists_moment_of_play
      (as ++ [.close true]) (.step (.write 0) .go) []
      (fun c => c.link.isOpen = false ∧ c.link.queue.stage? 0 = some (.sending 7 ⟨[1, 2], 1⟩))
      (fun c => c.link.queue.stage? 0 = none) (by decide +kernel) (by decide +kernel)
    obtain ⟨ho, hstage⟩ := of_decide_eq_true hm
    have hcut : m.before.link.Cut 0 := ⟨ho, _, _, hstage⟩
    obtain ⟨-, -, hends⟩ := (closed_stops_writes {}).1 _ _ hrun
    refine ⟨ms, m, ns, c, hrun, hcut, (hends ms m ns 0 rfl hcut).resolve_left ?_⟩
    rintro ⟨⟨-, x, send, hs⟩, -⟩
    cases (of_decide_eq_true hc).symm.trans hs
  · let as : List Server.Act := Server.arrival ++ [.write [1, 2], .write [3],
      .step (.write 0) .go, .step (.write 0) .go, .step (.write 0) (.wrote (.ok 1))]
    let bs : List Server.Act := [.step (.write 0) .go, .step (.write 1) .go, .step (.task 2) .go,
      .step (.task 2) .go, .step (.task 2) .go, .step (.task 2) .go, .step (.task 2) .shutDown]
    obtain ⟨ms, m, ns, s, hrun, hact, -, hs⟩ := (Server.machine {}).exists_moment_of_play as
      (.close true) bs (fun _ => true) (fun s => s.workers = [] ∧ s.link.isOpen = false)
      (by decide +kernel) (by decide +kernel)
    obtain ⟨hw, ho⟩ := of_decide_eq_true hs
    have hquits : Server.Quits m := ⟨true, .inl hact⟩
    have hrest : s.Rests Server.Unshut := Server.rests_of_workers fun w h => by simp [hw] at h
    obtain ⟨hbytes, hsettled, -⟩ := (closed_stops_writes {}).2 _ _ hrun
    obtain ⟨hpending, hall⟩ := hsettled ho hrest
    exact ⟨ms, m, ns, s, hrun, hquits, ho, hrest, hbytes _ _ _ 7 rfl hquits, hpending, hall⟩

end Rfcomm
