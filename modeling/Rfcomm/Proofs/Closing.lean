import Rfcomm.Proofs.Connection.Closing
import Rfcomm.Proofs.Server.Closing
/-!
Whether the closing of a connection or of a server reaches every read. It does, unless a read is left
that listens: it can still get data, and whatever waits behind it goes on to wait.
-/
namespace Rfcomm

/-- Wherever a run gets to after a connection or a server was closed, a read can get data just if it
listens; at rest everything is done just if no read listens; and one listens only after another took
the signal, or ended the connection. -/
theorem closed_reads_iff (t : Config.Tuning) :
    (∀ (ms ns : List Connection.Moment) (m : Connection.Moment) (c : Connection),
      (Connection.machine t).Run (ms ++ m :: ns) c → Connection.ClosedAt m →
      (c.Hears ↔ c.Listens ∧ 0 < c.link.readSize) ∧
      (c.Rests Link.Passive → (Connection.WoundUp (ms ++ m :: ns) c ↔ ¬ c.Listens)) ∧
      (c.Listens → Connection.Took (ms ++ m :: ns) ∨ Connection.Ended (ms ++ m :: ns))) ∧
    ∀ (ms ns : List Server.Moment) (m : Server.Moment) (s : Server),
      (Server.machine t).Run (ms ++ m :: ns) s → Server.ClosedAt m →
      (s.Hears ↔ s.Listens ∧ 0 < s.link.readSize) ∧
      (s.Rests Link.Passive → (Server.WoundUp (ms ++ m :: ns) s ↔ ¬ s.Listens)) ∧
      (s.Listens → Server.Took (ms ++ m :: ns)) := by
  constructor
  · intro ms ns m c h hm
    exact ⟨Connection.hears_iff h, Connection.wound_up_iff h hm,
      Connection.took_of_listens h (Connection.guarded_of_run h hm).1⟩
  · intro ms ns m s h hm
    exact ⟨Server.hears_iff, Server.wound_up_iff h hm,
      Server.took_of_listens h (Server.guarded_of_run h hm).1⟩

/-- A connection and a server that one read waits at are closed. -/
theorem closed_reads_of_one :
    (∃ ms m ns c, (Connection.machine {}).Run (ms ++ m :: ns) c ∧ Connection.ClosedAt m ∧
      c.Rests Link.Passive ∧ Connection.Reads ms (.task 1) ∧
      ¬ c.Hears ∧ Connection.WoundUp (ms ++ m :: ns) c) ∧
    ∃ ms m ns s, (Server.machine {}).Run (ms ++ m :: ns) s ∧ Server.ClosedAt m ∧
      s.Rests Link.Passive ∧ Server.ReadOf ms 1 (.task 2) ∧
      ¬ s.Hears ∧ Server.WoundUp (ms ++ m :: ns) s := by
  constructor
  · let as : List Connection.Act := [.connect "00:11:22:33:44:01" 3,
      .step (.task 0) (.connected (.ok 7)), .step (.task 0) .go, .step (.task 0) .go, .read,
      .step (.task 1) .go, .step (.task 1) .go]
    let bs : List Connection.Act := [.step (.task 1) .go, .step (.task 2) .go,
      .step (.task 2) .go, .step (.task 2) .go, .step (.task 2) .shutDown]
    obtain ⟨ms, m, ns, c, hrun, hact, h₀, hc⟩ := (Connection.machine {}).exists_moment_of_play as
      (.close true) bs
      (fun c => c.stage? 1 = some (.reading (.reading 7)) ∧ c.phase = .connected)
      (fun c => c.workers = [] ∧ c.tasks = []) (by decide +kernel) (by decide +kernel)
    obtain ⟨hread, hphase⟩ := of_decide_eq_true h₀
    obtain ⟨hw, ht⟩ := of_decide_eq_true hc
    have hclosed := Connection.closedAt_of_close hrun (by simp [hphase]) hact
    have hrest : c.Rests Link.Passive :=
      Connection.rests_of_workers fun w h => by simp [hw] at h
    obtain ⟨hhears, hwound, -⟩ := (closed_reads_iff {}).1 _ _ _ _ hrun hclosed
    have hl : ¬ c.Listens := by
      rintro ⟨-, n, x, hn⟩
      simp [Connection.activities, Connection.stage?, Tasks.stageOf, ht] at hn
    exact ⟨ms, m, ns, c, hrun, hclosed, hrest,
      (Connection.accounts_of_run hrun.moment.1).reads hread,
      fun h => hl (hhears.mp h).1, (hwound hrest).mpr hl⟩
  · let as : List Server.Act := Server.arrival ++ [.read, .step (.task 2) .go, .step (.task 2) .go]
    let bs : List Server.Act := [.step (.task 2) .go, .step (.task 3) .go, .step (.task 3) .go,
      .step (.task 3) .go, .step (.task 3) .go, .step (.task 3) .shutDown]
    obtain ⟨ms, m, ns, s, hrun, hact, h₀, hs⟩ := (Server.machine {}).exists_moment_of_play as
      (.close true) bs
      (fun s => s.stage? 2 = some (.reading 1 (.reading 7)) ∧ s.phase = .accepted)
      (fun s => s.workers = [] ∧ s.tasks = []) (by decide +kernel) (by decide +kernel)
    obtain ⟨hread, hphase⟩ := of_decide_eq_true h₀
    obtain ⟨hw, ht⟩ := of_decide_eq_true hs
    have hclosed : Server.ClosedAt m := ⟨by simp [hphase], .inl hact⟩
    have hrest : s.Rests Link.Passive := Server.rests_of_workers fun w h => by simp [hw] at h
    obtain ⟨hhears, hwound, -⟩ := (closed_reads_iff {}).2 _ _ _ _ hrun hclosed
    have hl : ¬ s.Listens := by
      rintro ⟨-, n, x, hn⟩
      simp [Server.activities, Server.stage?, Tasks.stageOf, ht] at hn
    exact ⟨ms, m, ns, s, hrun, hclosed, hrest,
      (Server.accounts_of_run hrun.moment.1).reads hread,
      fun h => hl (hhears.mp h).1, (hwound hrest).mpr hl⟩

/-- A connection and a server that two reads wait at are closed. The second read takes hold of the
stream, can still get data, and holds everything up. -/
theorem closed_reads_of_two :
    (∃ ms m ns c, (Connection.machine {}).Run (ms ++ m :: ns) c ∧ Connection.ClosedAt m ∧
      c.Rests Link.Passive ∧ Connection.Reads ms (.task 2) ∧
      ¬ Connection.Resolved (ms ++ m :: ns) (.task 2) ∧ c.Hears ∧
      ¬ Connection.WoundUp (ms ++ m :: ns) c) ∧
    ∃ ms m ns s, (Server.machine {}).Run (ms ++ m :: ns) s ∧ Server.ClosedAt m ∧
      s.Rests Link.Passive ∧ Server.ReadOf ms 1 (.task 3) ∧
      ¬ Server.Resolved (ms ++ m :: ns) (.task 3) ∧ s.Hears ∧
      ¬ Server.WoundUp (ms ++ m :: ns) s := by
  constructor
  · let as : List Connection.Act := [.connect "00:11:22:33:44:01" 3,
      .step (.task 0) (.connected (.ok 7)), .step (.task 0) .go, .step (.task 0) .go, .read, .read,
      .step (.task 1) .go, .step (.task 2) .go, .step (.task 1) .go]
    let bs : List Connection.Act := [.step (.task 1) .go, .step (.task 2) .go, .step (.task 3) .go]
    obtain ⟨ms, m, ns, c, hrun, hact, h₀, hc⟩ := (Connection.machine {}).exists_moment_of_play as
      (.close true) bs (fun c => c.stage? 2 = some (.reading .waiting) ∧ c.phase = .connected)
      (fun c => c.workers = [.task 2, .task 3] ∧ c.ask (.task 2) = .call (.read 7 1024) ∧
        c.ask (.task 3) = .blocked ∧ c.stage? 2 = some (.reading (.reading 7)) ∧
        c.link.wake.pending = none ∧ c.link.readSize = 1024)
      (by decide +kernel) (by decide +kernel)
    obtain ⟨hread, hphase⟩ := of_decide_eq_true h₀
    obtain ⟨hw, h₂, h₃, hstage, hpend, hsize⟩ := of_decide_eq_true hc
    have hclosed := Connection.closedAt_of_close hrun (by simp [hphase]) hact
    have hrest : c.Rests Link.Passive := by
      refine Connection.rests_of_workers fun w h => ?_
      have h : w = .task 2 ∨ w = .task 3 := by simpa [hw] using h
      rcases h with rfl | rfl
      · exact .inr ⟨_, h₂, trivial⟩
      · exact .inl h₃
    have hl : c.Listens := ⟨hpend, 2, 7, Connection.activities_of_stage hstage⟩
    have hpending : ¬ Connection.Resolved (ms ++ m :: ns) (.task 2) := by
      intro h
      cases hstage.symm.trans ((Connection.accounts_of_run hrun).done h).1
    exact ⟨ms, m, ns, c, hrun, hclosed, hrest,
      (Connection.accounts_of_run hrun.moment.1).reads hread, hpending,
      (Connection.hears_iff hrun).mpr ⟨hl, by omega⟩,
      fun h => (Connection.wound_up_iff hrun hclosed hrest).mp h hl⟩
  · let as : List Server.Act := Server.arrival ++ [.read, .read, .step (.task 2) .go,
      .step (.task 3) .go, .step (.task 2) .go]
    let bs : List Server.Act := [.step (.task 2) .go, .step (.task 3) .go, .step (.task 4) .go,
      .step (.task 4) .go]
    obtain ⟨ms, m, ns, s, hrun, hact, h₀, hs⟩ := (Server.machine {}).exists_moment_of_play as
      (.close true) bs (fun s => s.stage? 3 = some (.reading 1 .waiting) ∧ s.phase = .accepted)
      (fun s => s.workers = [.task 3, .task 4] ∧ s.ask (.task 3) = .call (.read 7 1024) ∧
        s.ask (.task 4) = .blocked ∧ s.stage? 3 = some (.reading 1 (.reading 7)) ∧
        s.link.wake.pending = none ∧ s.link.readSize = 1024)
      (by decide +kernel) (by decide +kernel)
    obtain ⟨hread, hphase⟩ := of_decide_eq_true h₀
    obtain ⟨hw, h₃, h₄, hstage, hpend, hsize⟩ := of_decide_eq_true hs
    have hclosed : Server.ClosedAt m := ⟨by simp [hphase], .inl hact⟩
    have hrest : s.Rests Link.Passive := by
      refine Server.rests_of_workers fun w h => ?_
      have h : w = .task 3 ∨ w = .task 4 := by simpa [hw] using h
      rcases h with rfl | rfl
      · exact .inr ⟨_, h₃, trivial⟩
      · exact .inl h₄
    have hl : s.Listens := ⟨hpend, 3, 7, Server.activities_of_stage hstage⟩
    have hpending : ¬ Server.Resolved (ms ++ m :: ns) (.task 3) := by
      intro h
      cases hstage.symm.trans ((Server.accounts_of_run hrun).done h).1
    exact ⟨ms, m, ns, s, hrun, hclosed, hrest,
      (Server.accounts_of_run hrun.moment.1).reads hread, hpending,
      Server.hears_iff.mpr ⟨hl, by omega⟩,
      fun h => (Server.wound_up_iff hrun hclosed hrest).mp h hl⟩

end Rfcomm
