import Rfcomm.Proofs.Server.Belonging
/-!
Who wakes the reads of a client and who closes its link. Signals stay until they are taken, and tasks that
give clients up run late; but a caller becomes the client at an open link without a signal, and a task that
comes too late for its client does nothing, so whatever befalls a client was meant for it.
-/
namespace Rfcomm.Server

/-- The owner gives a client up, or all of them. -/
inductive Dismisses (c : Client) (m : Moment) : Prop
  | client : m.act = .disconnectClient → m.before.client = some c → Dismisses c m
  | close {background} : m.act = .close background ∨ m.act = .drop background →
      m.before.phase ≠ .closed → Dismisses c m

/-- A stream was that of a client. -/
def Hosted (ms : List Moment) (c : Client) (x : StreamId) : Prop :=
  ∃ m ∈ ms, m.before.client = some c ∧ m.before.link.stream = some x

/-- A read that has a stream ends without a reply of it: it takes the signal. -/
def Wakes (m : Moment) (n : Nat) (x : StreamId) : Prop :=
  (∃ g, m.before.stage? n = some (.reading g (.reading x))) ∧ m.act = .step (.task n) .go

/-- A read of a client that has its stream gives the client up. -/
def GivenUp (c : Client) (m : Moment) : Prop :=
  m.after.client = none ∧ ∃ n r y, m.before.stage? n = some (.reading c.generation (.reading y)) ∧
    m.act = .step (.task n) r

/-- Reads are woken and links are closed on account of the client that is there. -/
structure Undisturbed (ms : List Moment) : Prop where
  /-- The stream of a read that is woken is that of a client, and the owner gave that client up. -/
  woken : ∀ {as m bs n x}, ms = as ++ m :: bs → Wakes m n x →
    (∃ c, Hosted (as ++ [m]) c x) ∧ ∀ c, Hosted (as ++ [m]) c x → ∃ j ∈ as, Dismisses c j
  /-- A client whose link is closed was given up by the owner. -/
  closed : ∀ {as m bs c}, ms = as ++ m :: bs → m.before.client = some c →
    m.before.link.isOpen = false →
    ∃ j ∈ as, j.act = .disconnectClient ∧ j.before.client = some c
  /-- Closing the link of a client is up to the owner, but for a read of its own that gives it up. -/
  marked : ∀ {m c}, m ∈ ms → m.before.client = some c → m.before.link.isOpen = true →
    m.after.link.isOpen = false → Dismisses c m ∨ GivenUp c m

variable {s s' s₁ : Server} {id n : Nat} {stage : Stage} {next : Option Stage} {r : Reply}
  {out : Report} {a : Act} {e : Effect} {ms ns as bs : List Moment} {m : Moment} {c c' : Client}
  {x : StreamId} {t : Config.Tuning} {g : Nat}

/-! ## Signals -/

/-- No task posts a signal, and none is pending when a stream has been attached. -/
theorem pending_of_moves {l l' : Link} {b b' : Option Link.Activity} (h : Link.Moves l n b l' b')
    (hp : l'.wake.pending.isSome = true) :
    l.wake.pending.isSome = true ∧ (l'.stream = some x → l.stream = some x) := by
  have move : ∀ {l' b'}, Link.Move l n b l' b' → l'.wake.pending.isSome = true →
      l.wake.pending.isSome = true ∧ (l'.stream = some x → l.stream = some x) := by
    intro l' b' hm hp
    cases hm with
    | attach | wake => cases hp
    | release => exact ⟨hp, nofun⟩
    | _ => exact ⟨hp, id⟩
  cases h with
  | none => exact ⟨hp, id⟩
  | move hm => exact move hm hp
  | @close l₁ hm =>
      obtain ⟨hp, hx⟩ := move hm (show l₁.wake.pending.isSome = true from hp)
      exact ⟨hp, hx⟩

theorem pending_of_wake {w : Worker} {p : Link × Progress Link.Reading Link.Seen}
    (h : s.link.resumeReading w (.reading x) .go = some p) :
    s.link.wake.pending.isSome = true := by
  by_contra hp
  have hp : s.link.wake.pending = none := by simpa using hp
  simp [Link.resumeReading, hp] at h

theorem Turn.pending_of_wake (h : Turn s id (.reading g (.reading x)) .go s₁ next out) :
    s.link.wake.pending.isSome = true := by
  cases h with
  | look h => cases h
  | read h | report h | lose h => exact Server.pending_of_wake h

/-- Only giving a client up, or all of them, changes the signal or whether the link is open. -/
theorem Does.signals (h : Does s a s' e) (ha : ∀ n r, a ≠ .step (.task n) r) :
    (∃ c, s.client = some c ∧ a = .disconnectClient) ∨
      (∃ background, a = .close background ∨ a = .drop background) ∧ s.phase ≠ .closed ∧
        s'.phase = .closed ∨
      s'.link.wake = s.link.wake ∧ s'.link.isOpen = s.link.isOpen := by
  cases h with
  | listen | read | write | aside => exact .inr (.inr ⟨rfl, rfl⟩)
  | disconnect hc => exact .inl ⟨_, hc, rfl⟩
  | @close _ background _ hact hp =>
      refine .inr (.inl ⟨⟨background, hact⟩, hp, ?_⟩)
      exact close_phase s background
  | send hr =>
      obtain ⟨⟨q, result⟩, -, he⟩ := Option.map_eq_some_iff.mp hr
      cases he
      exact .inr (.inr ⟨rfl, rfl⟩)
  | turn => exact absurd rfl (ha _ _)

/-! ## The client that is there -/

theorem open_of_client (h : (machine t).Run ms s) (hc : s.client = some c) : s.phase ≠ .closed := by
  intro hcl
  rw [(shut_of_run h hcl).client] at hc
  cases hc

/-- Whoever is the client after a turn was left alone by it, or has just come to an open link without a
signal. -/
theorem Turn.of_client (h : Turn s id stage r s₁ next out) (hr : (machine t).Run ms s)
    (hs : s.stage? id = some stage) (hc : s₁.client = some c) :
    s.client = some c ∧ s₁.view = s.view ∨
      c.generation = s.generation + 1 ∧ s₁.link.isOpen = true ∧ s₁.link.wake.pending = none := by
  have stays : s.client = some c → s₁.view = s.view := by
    intro hc₀
    obtain ⟨_, hsv, -⟩ := serves_of_run hr (open_of_client hr hc₀)
    obtain ⟨hst, hcl⟩ := hsv.none_serves hc₀ hs
    refine (h.bystander hst hcl).resolve_right ?_
    rintro ⟨_, _, -, -, -, -, hn, -⟩
    cases hn.symm.trans hc
  rcases h.client with ⟨-, he | he⟩ | ⟨-, -, address, k, rfl⟩
  · exact .inl ⟨he.symm.trans hc, stays (he.symm.trans hc)⟩
  · cases he.symm.trans hc
  · cases h with
    | look h => cases h
    | attach | refuse => exact .inl ⟨hc, stays hc⟩
    | welcome ha =>
        rw [emit_fst] at hc ⊢
        cases Link.move_of_resumeAttach ha with
        | attach => cases hc; exact .inr ⟨rfl, rfl, rfl⟩

/-- A client at whose link a signal is pending, or whose link is closed, was given up by the owner. -/
theorem dismissed_of_run (h : (machine t).Run ms s) (hc : s.client = some c)
    (hd : s.link.wake.pending.isSome = true ∨ s.link.isOpen = false) :
    ∃ j ∈ ms, j.act = .disconnectClient ∧ j.before.client = some c := by
  induction h with
  | start => cases hc
  | @next ms s a s' e hr ha hp ih =>
      have later : (∃ j ∈ ms, j.act = .disconnectClient ∧ j.before.client = some c) →
          ∃ j ∈ ms ++ [⟨s, a, s', e⟩], j.act = .disconnectClient ∧ j.before.client = some c := by
        rintro ⟨j, hj, h⟩
        exact ⟨j, List.mem_append_left _ hj, h⟩
      have hdoes := does_of_perform hp
      rcases hdoes.turn_or_aside with ⟨n, r, st, s₁, next, out, rfl, rfl, rfl, hs, ht⟩ | hne
      · rw [place_client] at hc
        rw [place_link] at hd
        rcases ht.of_client hr hs hc with ⟨hc₀, hv⟩ | ⟨-, hopen, hnone⟩
        · refine later (ih hc₀ (hd.imp (fun hd => ?_) fun hd => ?_))
          · exact (pending_of_moves (x := 0) ht.link hd).1
          · exact (congrArg View.isOpen hv).symm.trans hd
        · rw [hopen, hnone] at hd
          rcases hd with hd | hd <;> cases hd
      · have hopen := open_of_client (hr.next ha hp) hc
        have hc₀ : s.client = some c :=
          ((hdoes.quiet (sound_of_run hr) hne).2.2.1.resolve_right fun h => hopen h.1).symm.trans hc
        rcases hdoes.signals hne with ⟨_, -, rfl⟩ | ⟨-, -, hcl⟩ | ⟨hw, ho⟩
        · exact ⟨_, List.mem_append_right _ (List.mem_singleton_self _), rfl, hc₀⟩
        · exact absurd hcl hopen
        · exact later (ih hc₀ (by rwa [hw, ho] at hd))

/-! ## The client of a stream -/

theorem hosted_append : Hosted (ms ++ ns) c x ↔ Hosted ms c x ∨ Hosted ns c x := by
  simp only [Hosted, List.mem_append, or_and_right, exists_or]

theorem hosted_singleton :
    Hosted [m] c x ↔ m.before.client = some c ∧ m.before.link.stream = some x := by
  simp [Hosted]

/-- While its stream is there, no other client is. -/
theorem eq_of_hosted (h : (machine t).Run ms s) (hc : Hosted ms c x) (hc' : s.client = some c')
    (hx : s.link.stream = some x) : c' = c := by
  obtain ⟨k, hk, hkc, hkx⟩ := hc
  obtain ⟨as, bs, rfl⟩ := List.append_of_mem hk
  have hin : x ∈ handed as := handed_of_holds h.moment.1 (.reader hkx)
  have hv : visitors (k :: bs) = [] := by
    by_contra hv
    refine not_handed_since h hin ((newcomers_of_run h ?_).client hv hx)
    rw [hkc]
    rfl
  have he := (attached_since h hv (by rw [hc']; rfl)).1
  rw [hc', hkc] at he
  exact Option.some.inj he

/-- A signal that is pending while the stream of a client is there came because the owner gave that client
up. -/
theorem dismissed_of_hosted (h : (machine t).Run ms s)
    (hc : Hosted ms c x ∨ s.client = some c ∧ s.link.stream = some x)
    (hx : s.link.stream = some x) (hp : s.link.wake.pending.isSome = true) :
    ∃ j ∈ ms, Dismisses c j := by
  have now : ∀ {ms s}, (machine t).Run ms s → s.client = some c →
      s.link.wake.pending.isSome = true → ∃ j ∈ ms, Dismisses c j := by
    intro ms s hr hc hp
    obtain ⟨j, hj, hact, hjc⟩ := dismissed_of_run hr hc (.inl hp)
    exact ⟨j, hj, .client hact hjc⟩
  rcases hc with hc | ⟨hc, -⟩
  swap
  · exact now h hc hp
  induction h with
  | start => obtain ⟨m, hm, -⟩ := hc; cases hm
  | @next ms s a s' e hr ha hperf ih =>
      have hd := does_of_perform hperf
      rw [hosted_append, hosted_singleton] at hc
      -- Whatever was pending before came in the same way.
      have before : s.link.stream = some x → s.link.wake.pending.isSome = true →
          ∃ j ∈ ms ++ [⟨s, a, s', e⟩], Dismisses c j := by
        intro hx hp
        obtain ⟨j, hj, h⟩ : ∃ j ∈ ms, Dismisses c j := by
          rcases hc with hc | ⟨hc, -⟩
          · exact ih hx hp hc
          · exact now hr hc hp
        exact ⟨j, List.mem_append_left _ hj, h⟩
      rcases hd.turn_or_aside with ⟨n, r, st, s₁, next, out, rfl, rfl, rfl, hs, ht⟩ | hne
      · rw [place_link] at hx hp
        obtain ⟨hp₀, hx₀⟩ := pending_of_moves ht.link hp
        exact before (hx₀ hx) hp₀
      · have hx₀ : s.link.stream = some x := (hd.quiet (sound_of_run hr) hne).1.symm.trans hx
        have here : ∀ {j : Moment}, j = ⟨s, a, s', e⟩ → Dismisses c j →
            ∃ j ∈ ms ++ [⟨s, a, s', e⟩], Dismisses c j := by
          rintro j rfl h
          exact ⟨_, List.mem_append_right _ (List.mem_singleton_self _), h⟩
        rcases hd.signals hne with ⟨c', hc', rfl⟩ | ⟨⟨_, hact⟩, hopen, -⟩ | ⟨hw, -⟩
        · have hcc : s.client = some c := by
            rcases hc with hc | ⟨hc, -⟩
            · rwa [eq_of_hosted hr hc hc' hx₀] at hc'
            · exact hc
          exact here rfl (.client rfl hcc)
        · exact here rfl (.close hact hopen)
        · exact before hx₀ (hw ▸ hp)

/-- The stream that a read has is that of a client. -/
theorem exists_hosted (h : (machine t).Run ms s) (hs : s.stage? n = some (.reading g (.reading x))) :
    ∃ c, Hosted ms c x := by
  obtain ⟨k, hk, hact, hstarted, -⟩ := (accounts_of_run h).reads hs
  obtain ⟨as, bs, rfl⟩ := List.append_of_mem hk
  obtain ⟨c₀, x₀, -, -, hreads⟩ := reads_of_run h hact hstarted
  obtain ⟨bs, f, cs, rfl, hf, hx⟩ := (hreads.joined hs).resolve_left nofun
  have hrun : (machine t).Run ((as ++ k :: bs) ++ f :: cs) s := by simpa using h
  obtain ⟨c, y, hv⟩ := serving_of_open hrun.moment.1 hf.1
  have hread : s.link.stream = some x :=
    (sound_of_run h).link.reads n x (by rw [activities_of_stage hs]; rfl)
  have hclient : f.before.client = some c := hv.client
  exact ⟨c, f, by simp, hclient, hx.symm.trans hread⟩

/-! ## Tasks that come too late -/

/-- A task that is to give a client up finds it with its link closed, or does not find it. -/
structure Behind (s : Server) : Prop where
  le : ∀ {n g}, s.stage? n = some (.dismissing g) → g ≤ s.generation
  closed : ∀ {n c}, s.stage? n = some (.dismissing c.generation) → s.client = some c →
    s.link.isOpen = false

theorem Turn.not_to_dismissing (h : Turn s id stage r s₁ next out) :
    next ≠ some (.dismissing g) := by
  rintro rfl
  generalize hn : some (Stage.dismissing g) = next at h
  cases h with
  | look h =>
      obtain ⟨l, -, he⟩ := Option.map_eq_some_iff.mp hn.symm
      cases he
  | _ => cases hn

theorem Behind.turn (h : s.Behind) (hr : (machine t).Run ms s) (hs : s.stage? id = some stage)
    (ht : Turn s id stage r s₁ next out) : (s₁.place id next).Behind := by
  have hS := sound_of_run hr
  have old : ∀ {n g}, (s₁.place id next).stage? n = some (.dismissing g) →
      s.stage? n = some (.dismissing g) := by
    intro n g hn
    refine ht.old hS hs ?_ hn nofun
    rintro rfl
    exact ht.not_to_dismissing ((ht.mine hS hs).symm.trans hn)
  refine ⟨fun hn => ?_, fun {n c} hn hc => ?_⟩
  · rw [place_generation]
    have := h.le (old hn)
    rcases ht.client with ⟨hg, -⟩ | ⟨hg, -⟩ <;> omega
  · rw [place_client] at hc
    rw [place_link]
    rcases ht.of_client hr hs hc with ⟨hc₀, hv⟩ | ⟨hg, -⟩
    · exact (congrArg View.isOpen hv).trans (h.closed (old hn) hc₀)
    · have := h.le (old hn)
      omega

/-- A task that is to give a client up is begun for the client that is there, whose link is closed. -/
theorem Does.dismissing (hS : s.Sound) (h : Does s a s' e) (ha : ∀ n r, a ≠ .step (.task n) r)
    (hn : s'.stage? n = some (.dismissing g)) : s.stage? n = some (.dismissing g) ∨
      s.client.map (·.generation) = some g ∧ s'.link.isOpen = false := by
  have begun : ∀ {st}, Function.update s.stage? s.nextTask (some st) n = some (.dismissing g) →
      st ≠ .dismissing g → s.stage? n = some (.dismissing g) := by
    intro st hn hst
    by_cases hne : n = s.nextTask
    · subst hne
      rw [Function.update_self] at hn
      exact absurd (Option.some.inj hn) hst
    · rwa [Function.update_of_ne hne] at hn
  cases h with
  | listen =>
      rw [stage?_spawn (s := { s with phase := .listening }) hS.tidy] at hn
      exact .inl (begun hn nofun)
  | read =>
      rw [stage?_spawn hS.tidy] at hn
      exact .inl (begun hn nofun)
  | write | aside | send => exact .inl hn
  | @disconnect c hc =>
      rw [stage?_spawn (s := { s with link := s.link.markClosed.signal .disconnect }) hS.tidy] at hn
      by_cases hg : c.generation = g
      · exact .inr ⟨by rw [hc, ← hg]; rfl, rfl⟩
      · exact .inl (begun hn (by simpa using hg))
  | @close _ background _ _ hp =>
      have hn : (s.close background).stage? n = some (.dismissing g) := hn
      rw [close_eq hp] at hn
      cases background with
      | false => exact .inl hn
      | true =>
          rw [if_pos rfl, stage?_spawn (s := s.shut) hS.tidy] at hn
          exact .inl (begun hn nofun)
  | turn => exact absurd rfl (ha _ _)

theorem Behind.aside (h : s.Behind) (hr : (machine t).Run ms s) (hd : Does s a s' e)
    (ha : ∀ n r, a ≠ .step (.task n) r) : s'.Behind := by
  have hS := sound_of_run hr
  refine ⟨fun {n g} hn => ?_, fun {n c} hn hc => ?_⟩
  · rw [hd.generation ha]
    rcases hd.dismissing hS ha hn with hn | ⟨hg, -⟩
    · exact h.le hn
    · exact Nat.le_of_eq (generation_of_client (fun hp => (serves_of_run hr hp).imp fun _ h => h.1)
        (shut_of_run hr) hg).symm
  · rcases hd.dismissing hS ha hn with hn | ⟨-, ho⟩
    · have hc₀ : s.client = some c := by
        rcases (hd.quiet hS ha).2.2.1 with he | ⟨-, he⟩
        · exact he.symm.trans hc
        · cases he.symm.trans hc
      have ho := h.closed hn hc₀
      by_contra ho'
      have := (hd.link_aside hS ha).isOpen (by simpa using ho')
      rw [ho] at this
      cases this
    · exact ho

theorem behind_of_run (h : (machine t).Run ms s) : s.Behind := by
  induction h with
  | start => exact ⟨fun hn => (by cases hn), fun hn => (by cases hn)⟩
  | @next ms s a s' e hr ha hp ih =>
      have hS := sound_of_run hr
      have hd := does_of_perform hp
      rcases hd.turn_or_aside with ⟨n, r, st, s₁, next, out, rfl, rfl, rfl, hs, ht⟩ | hne
      · exact ih.turn hr hs ht
      · exact ih.aside hr hd hne

/-- A task that closes the link of the client that is there gives it up after a read of it. -/
theorem givenUp_of_turn (hr : (machine t).Run ms s) (hs : s.stage? id = some stage)
    (ht : Turn s id stage r s₁ next out) (hc : s.client = some c) (ho : s.link.isOpen = true)
    (ho' : s₁.link.isOpen = false) :
    s₁.client = none ∧ ∃ y, stage = .reading c.generation (.reading y) := by
  obtain ⟨_, hsv, -⟩ := serves_of_run hr (open_of_client hr hc)
  obtain ⟨hst, hcl⟩ := hsv.none_serves hc hs
  rcases ht.bystander hst hcl with he | ⟨c', st, hc', rfl, ⟨final, hrel⟩, -, hnone, -⟩
  · have he : s₁.link.isOpen = s.link.isOpen := congrArg View.isOpen he
    rw [ho, ho'] at he
    cases he
  · obtain rfl := Option.some.inj (hc'.symm.trans hc)
    refine ⟨hnone, ?_⟩
    generalize hn : some st = next at ht
    cases ht with
    | lose hread hends hc₀ =>
        obtain rfl := Option.some.inj (hc₀.symm.trans hc)
        rcases Link.seen_of_resumeReading hread with (rfl | rfl) | ⟨y, rfl, -⟩
        · cases hends
        · cases hends
        · exact ⟨y, rfl⟩
    | dismiss hc₀ =>
        obtain rfl := Option.some.inj (hc₀.symm.trans hc)
        rw [(behind_of_run hr).closed hs hc] at ho
        cases ho
    | look h => cases h <;> cases hst
    | read | report | dismissed => cases hn <;> cases hrel
    | undo | undone | refusing | refused | leave | retire | retired | closing | closed => cases hcl
    | _ => cases hst

theorem undisturbed (h : (machine t).Run ms s) : Undisturbed ms := by
  refine ⟨?_, ?_, ?_⟩
  · rintro as m bs n x rfl ⟨⟨g, hs⟩, hact⟩
    obtain ⟨hr, -, hp, -⟩ := h.moment
    rw [hact] at hp
    obtain ⟨st, s₁, next, out, hs', ht, -⟩ := turn_of_perform hp
    obtain rfl := Option.some.inj (hs.symm.trans hs')
    have hx : m.before.link.stream = some x :=
      (sound_of_run hr).link.reads n x (by rw [activities_of_stage hs]; rfl)
    refine ⟨?_, fun c hc => ?_⟩
    · obtain ⟨c, hc⟩ := exists_hosted hr hs
      exact ⟨c, hosted_append.mpr (.inl hc)⟩
    · rw [hosted_append, hosted_singleton] at hc
      exact dismissed_of_hosted hr hc hx ht.pending_of_wake
  · rintro as m bs c rfl hc ho
    exact dismissed_of_run h.moment.1 hc (.inr ho)
  · intro m c hm hc ho ho'
    obtain ⟨as, bs, rfl⟩ := List.append_of_mem hm
    obtain ⟨hr, -, hp, hrun⟩ := h.moment
    have hd := does_of_perform hp
    rcases hd.turn_or_aside with ⟨n, r, st, s₁, next, out, hact, he, -, hs, ht⟩ | hne
    · rw [he, place_link] at ho'
      obtain ⟨hnone, y, rfl⟩ := givenUp_of_turn hr hs ht hc ho ho'
      exact .inr ⟨by rw [he, place_client]; exact hnone, n, r, y, hs, hact⟩
    · rcases hd.signals hne with ⟨_, -, hact⟩ | ⟨⟨_, hact⟩, hopen, -⟩ | ⟨-, he⟩
      · exact .inl (.client hact hc)
      · exact .inl (.close hact hopen)
      · rw [he, ho] at ho'
        cases ho'

/-- The owner gives a client up twice while a read waits. The read takes the signal; both tasks come when
the next client is there, whose link stays open. -/
theorem undisturbed_by_late_dismissals : ∃ ms m ns s, (machine {}).Run (ms ++ m :: ns) s ∧
    Undisturbed (ms ++ m :: ns) ∧ Wakes m 2 7 ∧ m.before.client = some ⟨1, .any⟩ ∧
    (∃ j ∈ ms, Dismisses ⟨1, .any⟩ j) ∧ s.client = some ⟨2, .any⟩ ∧ s.link.isOpen = true ∧
    s.stage? 3 = none ∧ s.stage? 4 = none := by
  obtain ⟨ms, m, ns, s, hrun, hact, hm, hend⟩ := (machine {}).exists_moment_of_play
    (arrival ++ [.read, .step (.task 2) .go, .step (.task 2) .go, .disconnectClient,
      .disconnectClient])
    (.step (.task 2) .go) [
      .step (.task 2) .go, .step (.task 2) .go, .step (.task 2) .shutDown, .step (.task 2) .go,
      .step (.task 2) (.registered (.ok 1)), .step (.task 5) .go,
      .step (.task 5) (.accepted (.ok (8, .any))), .step (.task 5) .go, .step (.task 5) .withdrawn,
      .step (.task 5) .go, .step (.task 5) .go, .step (.task 3) .go, .step (.task 4) .go]
    (fun s => s.stage? 2 = some (.reading 1 (.reading 7)) ∧ s.client = some ⟨1, .any⟩ ∧
      s.link.stream = some 7)
    (fun s => s.client = some ⟨2, .any⟩ ∧ s.link.isOpen = true ∧ s.stage? 3 = none ∧
      s.stage? 4 = none)
    (by decide +kernel) (by decide +kernel)
  obtain ⟨hs, hc, hx⟩ := of_decide_eq_true hm
  obtain ⟨hc', hopen, h₃, h₄⟩ := of_decide_eq_true hend
  have hu := undisturbed hrun
  have hw : Wakes m 2 7 := ⟨⟨1, hs⟩, hact⟩
  have hd := (hu.woken rfl hw).2 ⟨1, .any⟩ (hosted_append.mpr (.inr (hosted_singleton.mpr ⟨hc, hx⟩)))
  exact ⟨ms, m, ns, s, hrun, hu, hw, hc, hd, hc', hopen, h₃, h₄⟩

end Rfcomm.Server
