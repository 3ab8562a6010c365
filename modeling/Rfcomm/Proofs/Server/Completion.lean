import Rfcomm.Proofs.Link.Calls
import Rfcomm.Proofs.Server.Loss
/-!
When the loss of a client is complete. At rest nothing holds it up but a read that was left over and
took hold of a stream, or a shutdown that is not over.
-/
namespace Rfcomm.Server

/-- The loss of a client, given up with its stream at the first of some moments, is complete. -/
structure Complete (c : Client) (x : StreamId) (before : List Moment) (since : List Moment)
    (s : Server) : Prop where
  /-- Neither half of the stream is held. -/
  released : x ∉ s.streams
  /-- Of each client so far it was told in turn that it came and that it went, and so it was of this
  one. -/
  told : ∃ earlier later rest, visitors (before ++ since) = earlier ++ c :: later ∧
    told (before ++ since) = earlier.flatMap visit ++ visit c ++ rest ∧
    rest <+: later.flatMap visit
  registered : Reregistered c since
  /-- Callers are accepted, or a later client came. -/
  accepting : (∃ n st, s.stage? n = some st ∧ st.accepts = true) ∨ visitors since ≠ []
  /-- No read of the client is left. -/
  reads : ∀ w, ReadOf (before ++ since) c.generation w → Resolved (before ++ since) w

/-- What the loss of a client can be stuck at: a read that waits for bytes of its stream, or of a later
one while a read of the client is left, or a shutdown that is not over. -/
inductive Stalled (c : Client) (x : StreamId) (s : Server) : Prop
  | stream {n g} : s.stage? n = some (.reading g (.reading x)) → Stalled c x s
  | later {n g y n' g'} : s.stage? n = some (.reading g (.reading y)) →
      s.stage? n' = some (.reading c.generation g') → Stalled c x s
  | shutdown {n} : s.ask (.task n) = .call (.shutdown x) → Stalled c x s

variable {s s' : Server} {n : Nat} {stage st : Stage} {ms ns : List Moment} {m : Moment} {c : Client}
  {x : StreamId} {t : Config.Tuning} {calls : Call → Prop}

/-! ## What tasks do at the link while one serves -/

theorem stage_of_attaching {k : Link.Attach}
    (h : activities s.stage? n = some (.attaching k)) :
    ∃ address, s.stage? n = some (.attaching address k) := by
  obtain ⟨stage, hs, ha⟩ := Option.bind_eq_some_iff.mp h
  obtain ⟨address, rfl⟩ := attaching_of_activity ha
  exact ⟨address, hs⟩

/-- Whoever closes the link gives a client up, or is there because the server was closed. -/
theorem stage_of_closing {k : Link.Closing} (h : activities s.stage? n = some (.closing k)) :
    ∃ stage, s.stage? n = some stage ∧
      (stage.closes = true ∨ ∃ address final, stage.releasing? = some (.closing address final k)) := by
  obtain ⟨stage, hs, ha⟩ := Option.bind_eq_some_iff.mp h
  refine ⟨stage, hs, ?_⟩
  cases stage with
  | refusing k' | closing k' => exact .inl rfl
  | losing k' | releasing k' =>
      cases k' with
      | closing address final k' => cases ha; exact .inr ⟨address, final, rfl⟩
      | _ => cases ha
  | reading generation g | attaching address k => cases ha
  | _ => cases ha

theorem stage_of_ask {call : Call} (h : s.ask (.task n) = .call call) :
    ∃ stage, s.stage? n = some stage := by
  cases hs : s.stage? n with
  | some stage => exact ⟨stage, rfl⟩
  | none =>
      have hn : s.tasks.find? (·.id = n) = none := by simpa [stage?, Tasks.stageOf] using hs
      simp [ask, hn] at h

/-- Whoever asks for something of a stream does so at the link. -/
theorem calls_of_ask {w : Worker} {k : Call} (h : s.ask w = .call k) (hk : k.stream? = some x) :
    s.link.Calls (activities s.stage?) w k := by
  cases w with
  | write n => exact Link.calls_of_askWrite h
  | task n =>
      obtain ⟨st, hs⟩ := stage_of_ask h
      rw [ask_task hs] at h
      cases hst : st.activity with
      | some act =>
          rw [askStage_activity s n hst] at h
          exact Link.calls_of_activity ((activities_of_stage hs).trans hst) h
      | none =>
          have withdrawing : ∀ k', s.askWithdrawing n k' ≠ .call k := by
            rintro (_ | session) h
            · exact Ask.turn_ne_call h
            · cases h
              cases hk
          cases st with
          | losing k' | releasing k' =>
              cases k' with
              | closing address final k' => cases hst
              | waiting => exact absurd h Ask.turn_ne_call
              | registering record => cases h; cases hk
          | undoing k' | welcoming y address k' | retiring k' => exact absurd h (withdrawing k')
          | noting => exact absurd h Ask.turn_ne_call
          | binding | registering | accepting | pausing => cases h; cases hk
          | watching | dismissing | leaving => cases h
          | attaching | refusing | reading | closing => cases hst

/-! ## At rest -/

/-- While a task serves at a link that is closed, only that task shuts a stream down. -/
theorem shutting_of_serves {o : Option Stage} {k : Releasing} {m : Nat} {y : StreamId}
    (h : s.Serves o) (hs : s.stage? n = some stage) (hk : stage.releasing? = some k)
    (ha : activities s.stage? m = some (.closing (.stream y))) :
    ∃ address final, k = .closing address final (.stream y) := by
  obtain ⟨st, hm, hst⟩ := stage_of_closing ha
  rcases hst with hst | ⟨address, final, hst⟩
  · rw [h.1.not_closes hm] at hst
    cases hst
  · by_cases hn : m = n
    · subst hn
      obtain rfl : stage = st := Option.some.inj (hs.symm.trans hm)
      exact ⟨address, final, Option.some.inj (hk.symm.trans hst)⟩
    · have := ((h.1.others hs (serves_of_releasing hk)).2 m st hm hn).1
      rw [serves_of_releasing hst] at this
      cases this

theorem Rests.not_attaching {o : Option Stage} (hr : s.Rests calls) (hS : s.Sound)
    (h : s.Serves o) (m : Nat) (y : StreamId) :
    activities s.stage? m ≠ some (.attaching (.writer y)) := by
  intro ha
  obtain ⟨address, hm⟩ := stage_of_attaching ha
  obtain ⟨rfl, ho⟩ := h.1.others hm rfl
  have hopen : s.link.isOpen = false := h.2.1.bare.isOpen
  obtain ⟨i, z, hi⟩ := hr.link.first_writer (w := .task m) hS.link hopen
    (by simp [Link.writerRole, ha, Link.Activity.atWriter])
  obtain ⟨st, his, hst⟩ := stage_of_closing hi
  have hne : i ≠ m := by
    rintro rfl
    rw [ha] at hi
    cases hi
  obtain ⟨h₁, h₂⟩ := ho i st his hne
  rcases hst with hst | ⟨_, _, hst⟩
  · rw [h₂] at hst; cases hst
  · rw [serves_of_releasing hst] at h₁; cases h₁

/-- While a client is being given up, a server at rest is stalled. -/
theorem stalled_of_leaving {o : Option Stage} {k : Releasing} (hr : s.Rests Elsewhere)
    (hS : s.Sound) (h : s.Serves o) (hs : s.stage? n = some stage)
    (hk : stage.releasing? = some k) (ht : Tracks s.link x k) : Stalled c x s := by
  have hfit : s.view.Losing k := by
    obtain ⟨rfl, -⟩ := h.1.others hs (serves_of_releasing hk)
    have hf := h.2
    cases stage <;> cases hk <;> exact hf
  have hact : activities s.stage? n = k.activity := by
    rw [activities_of_stage hs]
    cases stage <;> cases hk <;> rfl
  have hlock : k.atLock = .out := by
    have := hr.no_lock hS (fun _ h => h) hs
    cases stage <;> cases hk <;> exact this
  have hopen : s.link.isOpen = false := hfit.isOpen
  cases k with
  | waiting | registering record => cases hlock
  | closing address final k =>
      cases k with
      | reader =>
          obtain ⟨m, y, hm | hm⟩ := hr.link.first_reader (n := n) hS.link
            (by simp [hact, Releasing.activity, Link.Activity.atReader])
          · obtain rfl : y = x := Option.some.inj ((hS.link.reads m y hm).symm.trans ht.1)
            obtain ⟨g, hg⟩ := stage_of_reading hm
            exact .stream hg
          · exact absurd hm (hr.not_attaching hS h m y)
      | writer =>
          obtain ⟨m, y, hm⟩ := hr.link.first_writer (w := .task n) hS.link hopen
            (by simp [Link.writerRole, hact, Releasing.activity, Link.Activity.atWriter])
          obtain ⟨_, _, he⟩ := shutting_of_serves h hs hk hm
          cases he
      | stream y =>
          obtain rfl : y = x := ht
          refine .shutdown (n := n) ?_
          rw [ask_task hs]
          cases stage <;> cases hk <;> rfl

theorem visitors_of_client (h : (machine t).Run ms s) (hc : s.client = some c) :
    ∃ earlier, visitors ms = earlier ++ [c] := by
  induction h with
  | start => cases hc
  | @next ms s a s' e hr _ hp ih =>
      have hv : visitors (ms ++ [⟨s, a, s', e⟩]) = visitors ms ++ fresh s.client s'.client :=
        visitors_snoc
      have keep : s'.client = s.client → ∃ earlier,
          visitors (ms ++ [⟨s, a, s', e⟩]) = earlier ++ [c] := by
        intro he
        obtain ⟨earlier, hi⟩ := ih (he ▸ hc)
        exact ⟨earlier, by rw [hv, he, fresh_self, hi, List.append_nil]⟩
      cases does_of_perform hp with
      | listen | read | write | disconnect | aside | send => exact keep rfl
      | @close _ background _ _ hopen =>
          rw [close_eq hopen] at hc
          cases background <;> cases hc
      | @turn n stage r s₁ next out hs ht =>
          rw [place_client] at hc keep hv
          rcases ht.client with ⟨-, he | he⟩ | ⟨-, hopen, address, k, rfl⟩
          · exact keep he
          · rw [he] at hc; cases hc
          · obtain ⟨o, hsv, -⟩ := serves_of_run hr hopen
            have hn := hsv.no_client hs rfl
            refine ⟨visitors ms, ?_⟩
            rw [hv, hn, hc]
            rfl

/-! ## Both ways -/

/-- Where something is held up, the loss is not complete. -/
theorem Stalled.not_complete (h : (machine t).Run (ms ++ ns) s) (hst : Stalled c x s) :
    ¬ Complete c x ms ns s := by
  have hS := sound_of_run h
  intro hc
  cases hst with
  | @stream n g hs =>
      have hx := hS.link.reads n x (by rw [activities_of_stage hs]; rfl)
      exact hc.released (mem_of_holds hS hs (.reader hx))
  | @later _ _ _ n g hn hs =>
      have ha := accounts_of_run h
      have hover := (ha.done (hc.reads _ (ha.reads hs))).1
      rw [hs] at hover
      cases hover
  | shutdown hs =>
      cases calls_of_ask hs rfl with
      | shutdown hn =>
          obtain ⟨st, hn, hst⟩ := Option.bind_eq_some_iff.mp hn
          exact hc.released (mem_of_holds hS hn (.task hn (stream?_of_held (by rw [hst]; rfl))))

/-- What was told of clients is a part of what is to be told, but for the last event at most. -/
theorem told_of_owed {told owed : List Event} {earlier later : List Client}
    (h : told ++ owed = (earlier ++ c :: later).flatMap visit) (ho : owed.length ≤ 1)
    (hl : later = [] → owed = []) :
    ∃ rest, told = earlier.flatMap visit ++ visit c ++ rest ∧ rest <+: later.flatMap visit := by
  have h : told ++ owed = (earlier.flatMap visit ++ visit c) ++ later.flatMap visit := by
    rw [h]
    simp
  cases later with
  | nil =>
      rw [hl rfl, List.append_nil] at h
      exact ⟨[], h, List.prefix_rfl⟩
  | cons c' later =>
      rcases List.append_eq_append_iff.mp h with ⟨rest, -, hr⟩ | ⟨rest, hr, ht⟩
      · have := congrArg List.length hr
        simp only [List.length_append, List.flatMap_cons, visit, List.length_cons] at this
        omega
      · exact ⟨rest, hr, _, ht.symm⟩

theorem owed_length (o : Option Client) (stage : Option Stage) : (owed o stage).length ≤ 1 := by
  unfold owed
  split <;> simp

/-- At rest, the loss is complete if nothing is held up. -/
theorem Fate.complete (h : (machine t).Run (ms ++ ns) s) (hf : Fate c x ns s)
    (hp : s.phase ≠ .closed) (hr : s.Rests Elsewhere) (hv : ∃ earlier, visitors ms = earlier ++ [c])
    (hn : ¬ Stalled c x s) : Complete c x ms ns s := by
  have hS := sound_of_run h
  obtain ⟨o, hsv, htold⟩ := serves_of_run h hp
  obtain ⟨earlier, hv⟩ := hv
  cases hf with
  | @pending i _ _ _ hi =>
      exact absurd ((ask_task hi).trans rfl) (hr.not_ready (.task i))
  | leaving hi hk ht => exact absurd (stalled_of_leaving hr hS hsv hi hk ht) hn
  | gone hnot hreg hacc hlater =>
      have hvis : visitors (ms ++ ns) = earlier ++ c :: visitors ns := by
        rw [show visitors (ms ++ ns) = visitors ms ++ visitors ns by simp [visitors], hv]
        simp
      refine ⟨fun hm => hnot (holds_of_mem hS hm), ?_, hreg, ?_, ?_⟩
      · rw [hvis] at htold ⊢
        obtain ⟨rest, ht⟩ := told_of_owed htold (owed_length _ _) fun hnil => by
          obtain ⟨-, i, st, hi, hst⟩ := hacc hnil
          obtain ⟨rfl, -⟩ := hsv.1.others hi (serves_of_accepts hst)
          cases st <;> cases hst <;> rfl
        exact ⟨earlier, visitors ns, rest, rfl, ht⟩
      · by_cases hnil : visitors ns = []
        · exact .inl (hacc hnil).2
        · exact .inr hnil
      · intro w hw
        obtain ⟨i, rfl, hi | ⟨st, hi, hst⟩⟩ := (accounts_of_run h).pending hw
        · exact hi
        · exfalso
          cases hst with
          | reading =>
              obtain ⟨m, y, hm⟩ := hr.link.exists_reading (n := i) hS.link
                (by rw [activities_of_stage hi]; rfl) (hr.not_attaching hS hsv)
              obtain ⟨g, hg⟩ := stage_of_reading hm
              exact hn (.later hg hi)
          | losing hg =>
              by_cases hnil : visitors ns = []
              · -- Callers are accepted, so no client is given up.
                obtain ⟨-, j, st, hj, hst⟩ := hacc hnil
                obtain ⟨rfl, -⟩ := hsv.1.others hi rfl
                obtain ⟨he, -⟩ := hsv.1.others hj (serves_of_accepts hst)
                cases he
                cases hst
              · have := hlater hnil
                omega

/-- The loss of a client that was given up is complete, once the server is at rest, just if it is not
stalled. -/
theorem complete_iff_not_stalled (h : (machine t).Run (ms ++ m :: ns) s)
    (hc : m.before.client = some c) (hx : m.before.link.stream = some x) (hg : GivesUp c m)
    (hp : s.phase ≠ .closed) (hr : s.Rests Elsewhere) :
    Complete c x ms (m :: ns) s ↔ ¬ Stalled c x s := by
  constructor
  · intro hcomplete hst
    exact hst.not_complete h hcomplete
  · exact (fate_of_run h hc hx hg hp).complete h hp hr (visitors_of_client h.moment.1 hc)

/-- A caller comes to a server that was asked to listen. -/
def arrival : List Act := [
  .listen ⟨"1101", 3, ""⟩, .step (.task 0) (.bound (.ok 0)), .step (.task 0) (.registered (.ok 0)),
  .step (.task 0) .go, .step (.task 1) .go, .step (.task 1) (.accepted (.ok (7, .any))),
  .step (.task 1) .go, .step (.task 1) .withdrawn, .step (.task 1) .go, .step (.task 1) .go]

/-- Where the only task waits for a caller, nothing is held up. -/
theorem not_stalled_of_accepting {l : ListenerId} (h : (machine t).Run ms s)
    (hw : s.workers = [.task n]) (hs : s.stage? n = some (.accepting l)) : ¬ Stalled c x s := by
  have only : ∀ {m st}, s.stage? m = some st → st = .accepting l := by
    intro m st hm
    have hmem : Worker.task m ∈ s.workers :=
      List.mem_append_left _ (List.mem_map.mpr ⟨_, (mem_tasks (sound_of_run h)).mp hm, rfl⟩)
    obtain rfl : m = n := by simpa [hw] using hmem
    exact Option.some.inj (hm.symm.trans hs)
  rintro (hn | hn | hn)
  · cases only hn
  · cases only hn
  · obtain ⟨st, hm⟩ := stage_of_ask hn
    cases only hm
    rw [ask_task hm] at hn
    cases hn

/-- A client that one read waits for is given up. -/
theorem complete_after_one_read : ∃ ms m ns s c x, (machine {}).Run (ms ++ m :: ns) s ∧
    m.before.client = some c ∧ m.before.link.stream = some x ∧ GivesUp c m ∧ s.phase ≠ .closed ∧
    s.Rests Elsewhere ∧ Complete c x ms (m :: ns) s := by
  let as : List Act := arrival ++ [.read, .step (.task 2) .go, .step (.task 2) .go]
  let bs : List Act := [.step (.task 2) .go, .step (.task 2) .go, .step (.task 2) .go,
    .step (.task 2) .shutDown, .step (.task 2) .go, .step (.task 2) (.registered (.ok 1)),
    .step (.task 3) .go, .step (.task 4) .go]
  obtain ⟨ms, m, ns, s, hrun, hact, h₀, hs⟩ := (machine {}).exists_moment_of_play as
    .disconnectClient bs (fun s => s.client = some ⟨1, .any⟩ ∧ s.link.stream = some 7)
    (fun s => s.workers = [.task 4] ∧ s.ask (.task 4) = .call (.accept 0 1) ∧
      s.stage? 4 = some (.accepting 0) ∧ s.phase = .advertising)
    (by decide +kernel) (by decide +kernel)
  obtain ⟨hc, hx⟩ := of_decide_eq_true h₀
  obtain ⟨hw, hask, hstage, hphase⟩ := of_decide_eq_true hs
  have hopen : s.phase ≠ .closed := by simp [hphase]
  have hrest : s.Rests Elsewhere := by
    refine rests_of_workers fun w h => ?_
    obtain rfl : w = .task 4 := by simpa [hw] using h
    exact .inr ⟨_, hask, trivial⟩
  refine ⟨ms, m, ns, s, _, _, hrun, hc, hx, .owner hact, hopen, hrest, ?_⟩
  exact (complete_iff_not_stalled hrun hc hx (.owner hact) hopen hrest).mpr
    (not_stalled_of_accepting hrun hw hstage)

/-- A client that two reads wait for is given up, and the second one takes hold of its stream. -/
theorem stalled_after_two_reads : ∃ ms m ns s c x, (machine {}).Run (ms ++ m :: ns) s ∧
    m.before.client = some c ∧ m.before.link.stream = some x ∧ GivesUp c m ∧ s.phase ≠ .closed ∧
    s.Rests Elsewhere ∧ ¬ Complete c x ms (m :: ns) s := by
  let as : List Act := arrival ++ [.read, .read, .step (.task 2) .go, .step (.task 3) .go,
    .step (.task 2) .go]
  let bs : List Act := [.step (.task 2) .go, .step (.task 3) .go, .step (.task 4) .go]
  obtain ⟨ms, m, ns, s, hrun, hact, h₀, hs⟩ := (machine {}).exists_moment_of_play as
    .disconnectClient bs (fun s => s.client = some ⟨1, .any⟩ ∧ s.link.stream = some 7)
    (fun s => s.workers = [.task 2, .task 3] ∧ s.ask (.task 2) = .blocked ∧
      s.ask (.task 3) = .call (.read 7 1024) ∧ s.stage? 3 = some (.reading 1 (.reading 7)) ∧
      s.phase = .accepted) (by decide +kernel) (by decide +kernel)
  obtain ⟨hc, hx⟩ := of_decide_eq_true h₀
  obtain ⟨hw, h₂, h₃, hstage, hphase⟩ := of_decide_eq_true hs
  refine ⟨ms, m, ns, s, _, _, hrun, hc, hx, .owner hact, by simp [hphase], ?_,
    Stalled.not_complete hrun (.stream hstage)⟩
  refine rests_of_workers fun w h => ?_
  have h : w = .task 2 ∨ w = .task 3 := by simpa [hw] using h
  rcases h with rfl | rfl
  · exact .inl h₂
  · exact .inr ⟨_, h₃, trivial⟩

end Rfcomm.Server
