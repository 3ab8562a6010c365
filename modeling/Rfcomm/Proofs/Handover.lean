import Rfcomm.Proofs.Connection.Streams
import Rfcomm.Proofs.Link.Handover
import Rfcomm.Proofs.Wire
/-!
What a connection and a server do with the streams that they are handed. None is overwritten, lost or
shut down twice.
-/
namespace Rfcomm

/-! ## Connections -/

namespace Connection

/-- The steps of tasks at the link. -/
def deeds (ms : List Moment) : List Link.Deed :=
  ms.filterMap fun m => match m.act with
    | .step (.task n) _ => some ⟨activities m.before.stage? n, m.after.ask (.task n)⟩
    | _ => none

variable {c c' c₁ : Connection} {id n : Nat} {stage : Stage} {next : Option Stage} {r : Reply}
  {out : Option Outcome} {a : Act} {e : Effect} {ms : List Moment} {t : Config.Tuning} {x : StreamId}

theorem deeds_of_turn : deeds (ms ++ [⟨c, .step (.task n) r, c', e⟩]) =
    deeds ms ++ [⟨activities c.stage? n, c'.ask (.task n)⟩] := by
  simp [deeds]

theorem deeds_of_ask (h : Asks c a c' e) : deeds (ms ++ [⟨c, a, c', e⟩]) = deeds ms := by
  cases a with
  | step w r =>
      cases w with
      | task n => exact absurd rfl h.not_task
      | write n => simp [deeds]
  | _ => simp [deeds]

theorem turnover_of_run (h : (machine t).Run ms c) : c.link.Turnover (activities c.stage?) := by
  induction h with
  | start => exact Link.turnover_create t
  | @next ms c a c' e hr _ hp ih =>
      have hS := sound_of_run hr
      cases does_of_perform hp with
      | ask ha =>
          have hlink : c'.link.Turnover (activities c.stage?) := by
            cases ha with
            | connect | read | aside => exact ih
            | write => exact ih.write hS.link _
            | @close _ background owned _ hopen =>
                have hl : ({ c.close background with owned } : Connection).link =
                    c.link.markClosed.signal .close := close_link hopen background
                rw [hl]
                exact ih.shut _
            | send hr' => exact ih.resumeWrite hS.link hr'
          exact hlink.begin (ha.link hS).acts
      | turn hs ht =>
          rw [place_link, ht.roles hs]
          exact ht.link.turnover ih hS.link (link_ordered_of_run hr) (activities_of_stage hs)

theorem Turn.of_shutting (h : Turn c id stage r c₁ next out)
    (hs : stage.activity = some (.closing (.stream x))) : next.bind Stage.activity = none := by
  cases h with
  | beginAttach | fail | leave => cases hs
  | attach | abandon | opened | read | report | lose => cases hs
  | close hc hr =>
      have hm := Link.move_of_resumeClosing hr
      cases hc <;> cases hs <;> cases hm
  | closed => rfl

theorem passed_of_run (h : (machine t).Run ms c) :
    Link.Passed (deeds ms) (linkMoments ms) c.link := by
  induction h with
  | start => exact Link.passed_create t
  | @next ms c a c' e hr _ hp ih =>
      have hS := sound_of_run hr
      rw [linkMoments_snoc]
      cases does_of_perform hp with
      | ask ha =>
          rw [deeds_of_ask ha]
          exact ih.congr (ha.link hS).sink
      | @turn n st r c₁ next out hs ht =>
          have hm : Link.Moves c.link n (activities c.stage? n) (c₁.place n next).link
              (activities (c₁.place n next).stage? n) := by
            rw [place_link, ht.roles hs, activities_of_stage hs, Function.update_self]
            exact ht.link
          rw [deeds_of_turn]
          refine Link.Passed.moves (m := linkMoment ⟨c, .step (.task n) r, c₁.place n next, _⟩) ih hm
            (fun x => shutdown_iff) ?_ ?_
          · intro x hx
            rw [activities_of_stage hs] at hx
            obtain ⟨target, rfl⟩ := attaching_of_activity hx
            have hcall : ∃ m st, c.stage? m = some st ∧ st.calls = true := ⟨n, _, hs, rfl⟩
            refine ⟨?_, ((once_of_run hr).unused (.inr hcall)).link.sink, ?_⟩
            · rw [unattached_of_run hr (.inr hcall)]
              exact List.not_mem_nil
            · rw [ht.roles hs, Function.update_self]
              rcases ht.of_attaching with ⟨_, h, -⟩ | ⟨rfl, -⟩ | ⟨rfl, -⟩
              · cases h
              · nofun
              · nofun
          · intro x hx
            rw [ht.roles hs, Function.update_self]
            exact ht.of_shutting ((activities_of_stage hs).symm.trans hx)

theorem handed_of_attached (h : (machine t).Run ms c) (hx : x ∈ Link.attached (linkMoments ms)) :
    x ∈ handed ms := by
  obtain ⟨l, hl, hat⟩ := List.mem_filterMap.mp hx
  obtain ⟨m, hm, rfl⟩ := List.mem_map.mp hl
  obtain ⟨as, bs, rfl⟩ := List.append_of_mem hm
  obtain ⟨-, hsink⟩ := Option.ite_none_left_eq_some.mp hat
  obtain ⟨-, -, -, hr⟩ := h.moment
  have hmem := handed_of_holds hr (.writer hsink)
  rw [← List.singleton_append, ← List.append_assoc, handed_append]
  exact List.mem_append_left _ hmem

theorem link_custody_of_run (h : (machine t).Run ms c) :
    Link.Custody (handed ms) (deeds ms) c.link (activities c.stage?) c.ask := by
  refine (passed_of_run h).custody (turnover_of_run h) (sound_of_run h).link
    (fun x hx => handed_of_attached h hx) ?_ ?_
  · intro n k hn
    obtain ⟨st, hs, hst⟩ := Option.bind_eq_some_iff.mp hn
    obtain ⟨target, rfl⟩ := attaching_of_activity hst
    exact ((once_of_run h).unused (.inr ⟨n, _, hs, rfl⟩)).link
  · intro w x hw
    cases calls_of_ask hw rfl with
    | shutdown hn => exact ⟨_, hn⟩

end Connection

/-! ## Servers -/

namespace Server

/-- The steps of tasks at the link. -/
def deeds (ms : List Moment) : List Link.Deed :=
  ms.filterMap fun m => match m.act with
    | .step (.task n) _ => some ⟨activities m.before.stage? n, m.after.ask (.task n)⟩
    | _ => none

variable {s s' s₁ : Server} {id n : Nat} {stage : Stage} {next : Option Stage} {r : Reply}
  {out : Report} {a : Act} {e : Effect} {ms : List Moment} {t : Config.Tuning} {x : StreamId}

/-- A stream is held at the writing half, by the link or by a task. -/
def Keeps (s : Server) (x : StreamId) : Prop :=
  s.link.queue.stream = some x ∨ ∃ n st, s.stage? n = some st ∧ st.stream? = some x

theorem deeds_of_turn : deeds (ms ++ [⟨s, .step (.task n) r, s', e⟩]) =
    deeds ms ++ [⟨activities s.stage? n, s'.ask (.task n)⟩] := by
  simp [deeds]

theorem deeds_of_aside (h : ∀ n r, a ≠ .step (.task n) r) :
    deeds (ms ++ [⟨s, a, s', e⟩]) = deeds ms := by
  cases a with
  | step w r =>
      cases w with
      | task n => exact absurd rfl (h n r)
      | write n => simp [deeds]
  | _ => simp [deeds]

theorem shutdown_iff : s.ask (.task n) = .call (.shutdown x) ↔
    activities s.stage? n = some (.closing (.stream x)) := by
  constructor
  · intro h
    cases calls_of_ask h rfl with
    | shutdown hn => exact hn
  · intro h
    obtain ⟨st, hs, hst⟩ := Option.bind_eq_some_iff.mp h
    rw [ask_task hs, askStage_activity s n hst]
    rfl

theorem Does.turnover (h : Does s a s' e) (hn : ∀ n r, a ≠ .step (.task n) r) (hS : s.Sound)
    (hT : s.link.Turnover (activities s.stage?)) : s'.link.Turnover (activities s'.stage?) := by
  have hlink : s'.link.Turnover (activities s.stage?) := by
    cases h with
    | listen | read | aside => exact hT
    | write => exact hT.write hS.link _
    | disconnect => exact hT.shut _
    | @close _ background owned _ hopen =>
        have hl : ({ s.close background with owned } : Server).link =
            s.link.markClosed.signal .close := close_link hopen background
        rw [hl]
        exact hT.shut _
    | send hr => exact hT.resumeWrite hS.link hr
    | turn => exact absurd rfl (hn _ _)
  exact hlink.begin (h.link_aside hS hn).acts

theorem turnover_of_run (h : (machine t).Run ms s) : s.link.Turnover (activities s.stage?) := by
  induction h with
  | start => exact Link.turnover_create t
  | @next ms s a s' e hr _ hp ih =>
      have hS := sound_of_run hr
      have hd := does_of_perform hp
      rcases hd.turn_or_aside with ⟨n, r, st, s₁, next, out, rfl, rfl, rfl, hs, ht⟩ | hn
      · rw [place_link, (ht.roles hS hs).1]
        exact ht.link.turnover ih hS.link (link_ordered_of_run hr) (activities_of_stage hs)
      · exact hd.turnover hn hS ih

theorem Releases.of_shutting {k : Releasing} {k' : Option Releasing} (h : Releases s id k r s₁ k' out)
    (hk : k.activity = some (.closing (.stream x))) : k'.bind Releasing.activity = none := by
  cases h with
  | close hr =>
      have hm := Link.move_of_resumeClosing hr
      cases hk
      cases hm
  | last | line | late | skip | register | hold | fail => rfl

theorem Turn.of_shutting (h : Turn s id stage r s₁ next out)
    (hs : stage.activity = some (.closing (.stream x))) : next.bind Stage.activity = none := by
  cases h with
  | refusing hr | closing hr =>
      have hm := Link.move_of_resumeClosing hr
      cases hs
      cases hm
  | refused | closed => rfl
  | losing h | releasing h => exact h.of_shutting hs
  | lost | released => rfl
  | look h => cases h <;> cases hs
  | _ => cases hs

theorem passed_of_run (h : (machine t).Run ms s) :
    Link.Passed (deeds ms) (linkMoments ms) s.link := by
  induction h with
  | start => exact Link.passed_create t
  | @next ms s a s' e hr _ hp ih =>
      have hS := sound_of_run hr
      have hd := does_of_perform hp
      rw [linkMoments_snoc]
      rcases hd.turn_or_aside with ⟨n, r, st, s₁, next, out, rfl, rfl, rfl, hs, ht⟩ | hn
      · have hnext : activities (s₁.place n next).stage? n = next.bind Stage.activity := by
          rw [(ht.roles hS hs).1, Function.update_self]
        have hm : Link.Moves s.link n (activities s.stage? n) (s₁.place n next).link
            (activities (s₁.place n next).stage? n) := by
          rw [place_link, hnext, activities_of_stage hs]
          exact ht.link
        rw [deeds_of_turn]
        refine Link.Passed.moves (m := linkMoment ⟨s, .step (.task n) r, s₁.place n next, _⟩) ih hm
          (fun x => shutdown_iff) ?_ ?_
        · intro x hx
          rw [activities_of_stage hs] at hx
          refine ⟨unattached_of_caller hr hs (caller_of_activity hx), ?_, ?_⟩
          · obtain ⟨address, rfl⟩ := attaching_of_activity hx
            exact ((callers_of_run hr).bare hs rfl).sink
          · obtain ⟨address, rfl⟩ := attaching_of_activity hx
            rw [hnext]
            rcases ht.of_attaching with ⟨_, h, -⟩ | ⟨rfl, -⟩ | ⟨rfl, -⟩
            · cases h
            · nofun
            · nofun
        · intro x hx
          rw [hnext]
          exact ht.of_shutting ((activities_of_stage hs).symm.trans hx)
      · rw [deeds_of_aside hn]
        exact ih.congr (hd.link_aside hS hn).sink

theorem link_custody_of_run (h : (machine t).Run ms s) :
    Link.Custody (handed ms) (deeds ms) s.link (activities s.stage?) s.ask := by
  refine (passed_of_run h).custody (turnover_of_run h) (sound_of_run h).link
    (fun x hx => handed_of_attached h hx) ?_ ?_
  · intro n k hn
    obtain ⟨address, hs⟩ := stage_of_attaching hn
    exact (callers_of_run h).bare hs rfl
  · intro w x hw
    cases calls_of_ask hw rfl with
    | shutdown hn => exact ⟨_, hn⟩

end Server

/-! ## Both -/

/-- Wherever a run of a connection or of a server gets to, the streams that it was handed come and go
one after the other, and each is held until it was shut down. -/
theorem streams_handed_over (t : Config.Tuning) :
    (∀ ms c, (Connection.machine t).Run ms c →
      Link.Custody (Connection.handed ms) (Connection.deeds ms) c.link
        (Connection.activities c.stage?) c.ask ∧
      ∀ x ∈ Connection.handed ms, c.Keeps x ∨ Connection.ShutDown ms x) ∧
    ∀ ms s, (Server.machine t).Run ms s →
      Link.Custody (Server.handed ms) (Server.deeds ms) s.link (Server.activities s.stage?) s.ask ∧
      ∀ x ∈ Server.handed ms, s.Keeps x ∨ Server.ShutDown ms x :=
  ⟨fun _ _ h => ⟨Connection.link_custody_of_run h, fun _ hx => Connection.kept_of_run h hx⟩,
    fun _ _ h => ⟨Server.link_custody_of_run h, fun _ hx => Server.kept_of_run h hx⟩⟩

/-- A connection is opened and closed; the client of a server is given up, and the next one comes. -/
theorem streams_handed_over_one_by_one :
    (∃ ms c, (Connection.machine {}).Run ms c ∧ Connection.handed ms = [7] ∧
      Link.installed (Connection.deeds ms) = [7] ∧ Link.ended (Connection.deeds ms) = [7] ∧
      c.link.queue.stream = none ∧ Link.Custody (Connection.handed ms) (Connection.deeds ms) c.link
        (Connection.activities c.stage?) c.ask) ∧
    ∃ ms s, (Server.machine {}).Run ms s ∧ Server.handed ms = [7, 8] ∧
      Link.installed (Server.deeds ms) = [7, 8] ∧ Link.ended (Server.deeds ms) = [7] ∧
      s.link.queue.stream = some 8 ∧ Link.Custody (Server.handed ms) (Server.deeds ms) s.link
        (Server.activities s.stage?) s.ask := by
  constructor
  · obtain ⟨ms, c, hp, hc⟩ := (Connection.machine {}).exists_of_play
      [.connect "00:11:22:33:44:01" 3, .step (.task 0) (.connected (.ok 7)), .step (.task 0) .go,
        .step (.task 0) .go, .close true, .step (.task 1) .go, .step (.task 1) .go,
        .step (.task 1) .go, .step (.task 1) .shutDown]
      (fun ms c => Connection.handed ms = [7] ∧ Link.installed (Connection.deeds ms) = [7] ∧
        Link.ended (Connection.deeds ms) = [7] ∧ c.link.queue.stream = none) (by decide +kernel)
    obtain ⟨hhanded, hinstalled, hended, hsink⟩ := of_decide_eq_true hc
    have hrun := Machine.run_of_play hp
    exact ⟨ms, c, hrun, hhanded, hinstalled, hended, hsink,
      ((streams_handed_over {}).1 ms c hrun).1⟩
  · obtain ⟨ms, s, hp, hs⟩ := (Server.machine {}).exists_of_play
      (Server.arrival ++ [.disconnectClient, .step (.task 2) .go, .step (.task 2) .go,
        .step (.task 2) .go, .step (.task 2) .shutDown, .step (.task 2) .go,
        .step (.task 2) (.registered (.ok 1)), .step (.task 3) .go,
        .step (.task 3) (.accepted (.ok (8, .any))), .step (.task 3) .go, .step (.task 3) .withdrawn,
        .step (.task 3) .go, .step (.task 3) .go])
      (fun ms s => Server.handed ms = [7, 8] ∧ Link.installed (Server.deeds ms) = [7, 8] ∧
        Link.ended (Server.deeds ms) = [7] ∧ s.link.queue.stream = some 8) (by decide +kernel)
    obtain ⟨hhanded, hinstalled, hended, hsink⟩ := of_decide_eq_true hs
    have hrun := Machine.run_of_play hp
    exact ⟨ms, s, hrun, hhanded, hinstalled, hended, hsink,
      ((streams_handed_over {}).2 ms s hrun).1⟩

end Rfcomm
