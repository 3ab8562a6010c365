import Rfcomm.Proofs.Connection.Closing
import Rfcomm.Proofs.Link.Wire
import Rfcomm.Proofs.Server.Closing
/-!
The wire of a connection and of a server: the bytes that their streams take are those that the results
of the writes tell of.
-/
namespace Rfcomm

/-! ## Connections -/

namespace Connection

/-- What an act is to the link. -/
def Act.link : Act → Link.Act
  | .write bytes => .write bytes
  | .step (.write n) r => .step n r
  | _ => .other

/-- What a moment is to the link. -/
def linkMoment (m : Moment) : Link.Moment where
  before := m.before.link
  act := m.act.link
  after := m.after.link
  effect := match m.act with
    | .step (.write _) _ => m.effect.outcome
    | _ => none

def linkMoments (ms : List Moment) : List Link.Moment := ms.map linkMoment

variable {c c' : Connection} {a : Act} {e : Effect} {ms : List Moment} {m : Moment}
  {t : Config.Tuning} {x : StreamId}

theorem linkMoments_snoc : linkMoments (ms ++ [m]) = linkMoments ms ++ [linkMoment m] := by
  simp [linkMoments]

theorem linkMoment_of_other (ha : a.link = .other) :
    linkMoment ⟨c, a, c', e⟩ = ⟨c.link, .other, c'.link, none⟩ := by
  cases a with
  | step w r => cases w <;> first | rfl | cases ha
  | write bytes => cases ha
  | _ => rfl

/-- While a connection is idle, or a task brings a stream, none was attached. -/
theorem unattached_of_run (h : (machine t).Run ms c)
    (hu : c.phase = .idle ∨ ∃ n st, c.stage? n = some st ∧ st.calls = true) :
    Link.attached (linkMoments ms) = [] := by
  induction h with
  | start => rfl
  | @next ms c a c' e hr ha hp ih =>
      have hsink : c'.link.queue.stream = none :=
        ((once_of_run (hr.next ha hp)).unused hu).link.sink
      have hsame : Link.attached (linkMoments (ms ++ [⟨c, a, c', e⟩])) =
          Link.attached (linkMoments ms) := by
        simp [linkMoments_snoc, Link.attached, linkMoment, hsink]
      rw [hsame]
      apply ih
      cases does_of_perform hp with
      | ask ha =>
          rcases hu with hu | ⟨n, st, hn, hst⟩
          · exact .inl (ha.phase.2 hu)
          · rcases ha.callers (sound_of_run hr) hn hst with hn | ⟨-, hi, -⟩
            · exact .inr ⟨n, st, hn, hst⟩
            · exact .inl hi
      | turn hs ht =>
          refine hu.imp (fun hu => ht.phase.2 (by rwa [place_phase] at hu)) ?_
          rintro ⟨n, st, hn, hst⟩
          obtain ⟨st', hn, hst'⟩ := ht.callers hs hn hst
          exact ⟨n, st', hn, hst'⟩

theorem trace_of_run (h : (machine t).Run ms c) : Link.Trace (linkMoments ms) c.link := by
  induction h with
  | start => exact .start rfl
  | @next ms c a c' e hr _ hp ih =>
      have hS := sound_of_run hr
      rw [linkMoments_snoc]
      have quiet : a.link = .other → c'.link.queue = c.link.queue →
          Link.Trace (linkMoments ms ++ [linkMoment ⟨c, a, c', e⟩]) c'.link := by
        intro ha hq
        rw [linkMoment_of_other ha]
        exact .other ih (.refl hq) fun x hx => .inl (hq ▸ hx)
      by_cases hw : ∃ bytes, a = .write bytes
      · obtain ⟨bytes, rfl⟩ := hw
        cases hp
        exact .write ih hS.link
      · cases does_of_perform hp with
        | ask ha =>
            cases ha with
            | connect | read => exact quiet rfl rfl
            | write => exact absurd ⟨_, rfl⟩ hw
            | @close _ background owned hact hopen =>
                have hq : (c.close background).link.queue = c.link.queue := by
                  rw [close_link hopen]
                  rfl
                rcases hact with rfl | rfl <;> exact quiet rfl hq
            | aside hn =>
                refine quiet ?_ rfl
                cases a with
                | step w r => exact absurd rfl (hn w r)
                | write bytes => exact absurd ⟨_, rfl⟩ hw
                | _ => rfl
            | send hr' => exact .step ih hS.link hr'
        | @turn n st r c₁ next out hs ht =>
            rw [linkMoment_of_other rfl, place_link]
            refine .other ih (ht.link.spares hS.link (activities_of_stage hs)) fun x hx => ?_
            refine (ht.link.attached.2 hx).imp_right fun hact => ?_
            obtain ⟨target, rfl⟩ := attaching_of_activity hact
            rw [unattached_of_run hr (.inr ⟨n, _, hs, rfl⟩)]
            simp

end Connection

/-! ## Servers -/

namespace Server

/-- What an act is to the link. -/
def Act.link : Act → Link.Act
  | .write bytes => .write bytes
  | .step (.write n) r => .step n r
  | _ => .other

/-- What a moment is to the link. -/
def linkMoment (m : Moment) : Link.Moment where
  before := m.before.link
  act := m.act.link
  after := m.after.link
  effect := match m.act with
    | .step (.write _) _ => m.effect.report.outcome
    | _ => none

def linkMoments (ms : List Moment) : List Link.Moment := ms.map linkMoment

variable {s s' s₁ : Server} {id n : Nat} {stage st : Stage} {next : Option Stage} {r : Reply}
  {out : Report} {a : Act} {e : Effect} {ms : List Moment} {m : Moment} {t : Config.Tuning}
  {x : StreamId}

theorem linkMoments_snoc : linkMoments (ms ++ [m]) = linkMoments ms ++ [linkMoment m] := by
  simp [linkMoments]

theorem linkMoment_of_other (ha : a.link = .other) :
    linkMoment ⟨s, a, s', e⟩ = ⟨s.link, .other, s'.link, none⟩ := by
  cases a with
  | step w r => cases w <;> first | rfl | cases ha
  | write bytes => cases ha
  | _ => rfl

theorem attached_snoc (hx : x ∈ Link.attached (linkMoments (ms ++ [m]))) :
    x ∈ Link.attached (linkMoments ms) ∨ m.after.link.queue.stream = some x ∧
      m.before.link.queue.stream ≠ some x := by
  rw [linkMoments_snoc, Link.attached, List.filterMap_append, List.mem_append] at hx
  refine hx.imp id fun hx => ?_
  obtain ⟨m', hm, hx⟩ := List.mem_filterMap.mp hx
  obtain rfl := List.mem_singleton.mp hm
  obtain ⟨hne, hx⟩ := Option.ite_none_left_eq_some.mp hx
  exact ⟨hx, fun h => hne (hx.trans h.symm)⟩

theorem handed_of_attached (h : (machine t).Run ms s) (hx : x ∈ Link.attached (linkMoments ms)) :
    x ∈ handed ms := by
  induction h with
  | start => cases hx
  | @next ms s a s' e hr ha hp ih =>
      rcases attached_snoc hx with hx | ⟨hx, -⟩
      · rw [handed_append]
        exact List.mem_append_left _ (ih hx)
      · exact handed_of_holds (hr.next ha hp) (.writer hx)

theorem Turn.attaches (h : Turn s id stage r s₁ next out) (hx : s₁.link.queue.stream = some x)
    (hne : s.link.queue.stream ≠ some x) : ∃ address, stage = .attaching address (.writer x) :=
  attaching_of_activity ((h.link.attached.2 hx).resolve_left hne)

/-- The stream of a caller was not attached before. -/
theorem unattached_of_caller (h : (machine t).Run ms s) (hs : s.stage? n = some stage)
    (hx : stage.caller? = some x) : x ∉ Link.attached (linkMoments ms) := by
  induction h generalizing n stage x with
  | start => cases hs
  | @next ms s a s' e hr ha hp ih =>
      have hS := sound_of_run hr
      have hd := does_of_perform hp
      intro hatt
      rcases hd.turn_or_aside with ⟨id, r, st, s₁, next, out, rfl, rfl, rfl, hid, ht⟩ | hne
      · rcases attached_snoc hatt with hold | ⟨hsink, hnew⟩
        · by_cases hni : n = id
          · subst hni
            rcases ht.caller ((ht.mine hS hid).symm.trans hs) hx with hx | hx
            · exact ih hid hx hold
            · -- The stream was handed over right now.
              have ha : (Act.step (.task n) r).stream?.all (!(handed ms).contains ·) = true := ha
              have := handed_of_attached hr hold
              simp [hx, this] at ha
          · refine ih (ht.old hS hid hni hs ?_) hx hold
            rintro rfl
            cases hx
        · -- Whoever attaches a stream is the only one to bring one.
          rw [place_link] at hsink
          obtain ⟨address, rfl⟩ := ht.attaches hsink hnew
          by_cases hni : n = id
          · subst hni
            rw [ht.mine hS hid] at hs
            rcases ht.of_attaching with ⟨_, hk, -⟩ | ⟨hk, -⟩ | ⟨hk, -⟩
            · cases hk
            · rw [hk] at hs; cases hs; cases hx
            · rw [hk] at hs; cases hs
          · refine hni ((callers_of_run hr).unique (ht.old hS hid hni hs ?_) hid
              (accepts_of_caller hx) rfl)
            rintro rfl
            cases hx
      · obtain ⟨-, hsame, -⟩ := hd.quiet hS hne
        rcases attached_snoc hatt with hold | ⟨hsink, hnew⟩
        · rcases (hd.table hS).resolve_left fun ⟨n, r, he⟩ => hne n r he with he | ⟨st, he, hst, -⟩
          · exact ih (he ▸ hs) hx hold
          · rw [he] at hs
            by_cases hf : n = s.nextTask
            · subst hf
              obtain rfl : st = stage := by simpa using hs
              rw [caller_of_begins hst] at hx
              cases hx
            · exact ih (by simpa [hf] using hs) hx hold
        · exact hnew (hsame ▸ hsink)

theorem trace_of_run (h : (machine t).Run ms s) : Link.Trace (linkMoments ms) s.link := by
  induction h with
  | start => exact .start rfl
  | @next ms s a s' e hr _ hp ih =>
      have hS := sound_of_run hr
      rw [linkMoments_snoc]
      have quiet : a.link = .other → s'.link.queue = s.link.queue →
          Link.Trace (linkMoments ms ++ [linkMoment ⟨s, a, s', e⟩]) s'.link := by
        intro ha hq
        rw [linkMoment_of_other ha]
        exact .other ih (.refl hq) fun x hx => .inl (hq ▸ hx)
      cases does_of_perform hp with
      | listen | read | disconnect => exact quiet rfl rfl
      | write => exact .write ih hS.link
      | @close _ background owned hact hopen =>
          have hq : (s.close background).link.queue = s.link.queue := by
            rw [close_link hopen]
            rfl
          rcases hact with rfl | rfl <;> exact quiet rfl hq
      | aside hn hw =>
          refine quiet ?_ rfl
          cases a with
          | step w r => exact absurd rfl (hn w r)
          | write bytes => exact absurd rfl (hw bytes)
          | _ => rfl
      | send hr' => exact .step ih hS.link hr'
      | @turn n st r s₁ next out hs ht =>
          rw [linkMoment_of_other rfl, place_link]
          refine .other ih (ht.link.spares hS.link (activities_of_stage hs)) fun x hx => ?_
          refine (ht.link.attached.2 hx).imp_right fun hact => ?_
          exact unattached_of_caller hr hs (caller_of_activity hact)

end Server

/-! ## Both -/

/-- Wherever a run of a connection or of a server gets to: what its streams took, in the order in which
they were attached, is one part of each write in the order of submission, and the part of a write is as
its result tells. -/
theorem wire_faithful (t : Config.Tuning) :
    (∀ ms c, (Connection.machine t).Run ms c →
      Link.Faithful (Connection.linkMoments ms) c.link) ∧
    ∀ ms s, (Server.machine t).Run ms s → Link.Faithful (Server.linkMoments ms) s.link :=
  ⟨fun _ _ h => (Connection.trace_of_run h).faithful (Connection.sound_of_run h).link,
    fun _ _ h => (Server.trace_of_run h).faithful (Server.sound_of_run h).link⟩

/-- A connection sends a write in pieces and is closed under the next one; the client of a server is
given up while a write is half sent and another one waits. -/
theorem wire_faithful_when_cut_short :
    (∃ ms c, (Connection.machine {}).Run ms c ∧
      Link.wire (Connection.linkMoments ms) = [1, 2, 3, 4] ∧
      Link.submitted (Connection.linkMoments ms) = [[1, 2, 3], [4, 5]] ∧
      Link.Faithful (Connection.linkMoments ms) c.link) ∧
    ∃ ms s, (Server.machine {}).Run ms s ∧ Link.wire (Server.linkMoments ms) = [1, 2] ∧
      Link.submitted (Server.linkMoments ms) = [[1, 2, 3], [4]] ∧
      Link.Faithful (Server.linkMoments ms) s.link := by
  constructor
  · obtain ⟨ms, c, hp, hc⟩ := (Connection.machine {}).exists_of_play
      [.connect "00:11:22:33:44:01" 3, .step (.task 0) (.connected (.ok 7)), .step (.task 0) .go,
        .step (.task 0) .go, .write [1, 2, 3], .write [4, 5], .step (.write 0) .go,
        .step (.write 0) .go, .step (.write 0) (.wrote (.ok 2)),
        .step (.write 0) (.wrote (.error (.bare .interrupted))),
        .step (.write 0) (.wrote (.ok 1)), .step (.write 0) (.flushed (.ok ())),
        .step (.write 1) .go, .step (.write 1) .go, .step (.write 1) (.wrote (.ok 1)), .close true,
        .step (.write 1) .go]
      (fun ms _ => Link.wire (Connection.linkMoments ms) = [1, 2, 3, 4] ∧
        Link.submitted (Connection.linkMoments ms) = [[1, 2, 3], [4, 5]]) (by decide +kernel)
    obtain ⟨hwire, hsub⟩ := of_decide_eq_true hc
    have hrun := Machine.run_of_play hp
    exact ⟨ms, c, hrun, hwire, hsub, (wire_faithful {}).1 ms c hrun⟩
  · obtain ⟨ms, s, hp, hs⟩ := (Server.machine {}).exists_of_play
      (Server.arrival ++ [.write [1, 2, 3], .write [4], .step (.write 0) .go, .step (.write 0) .go,
        .step (.write 0) (.wrote (.ok 2)), .disconnectClient, .step (.write 0) .go,
        .step (.write 1) .go])
      (fun ms _ => Link.wire (Server.linkMoments ms) = [1, 2] ∧
        Link.submitted (Server.linkMoments ms) = [[1, 2, 3], [4]]) (by decide +kernel)
    obtain ⟨hwire, hsub⟩ := of_decide_eq_true hs
    have hrun := Machine.run_of_play hp
    exact ⟨ms, s, hrun, hwire, hsub, (wire_faithful {}).2 ms s hrun⟩

end Rfcomm
