import Rfcomm.Proofs.Server.Closing
/-!
Which client a read belongs to. A read is accepted for the client that is there, but the stream that it
reads is the one that is there when it gets in line, and once it is in line no other stream comes. So it
reads from its client just if it gets in line before another client comes.
-/
namespace Rfcomm.Server

/-- A read gets in line for the stream that is there. -/
def Joins (m : Moment) (n : Nat) : Prop :=
  m.before.link.isOpen = true ∧ (∃ g, m.before.stage? n = some (.reading g .start)) ∧
    ∃ r, m.act = .step (.task n) r

/-- A read gets something from a stream, or finds that it has ended or failed. -/
def Gets (m : Moment) (n : Nat) (y : StreamId) (result : Except Fault Bytes) : Prop :=
  (∃ g, m.before.stage? n = some (.reading g (.reading y))) ∧
    m.act = .step (.task n) (.read result)

/-- How far a read got that was accepted for a client. -/
structure Reads (c : Client) (n : Nat) (ns : List Moment) (s : Server) : Prop where
  lt : n < s.nextTask
  generation : ∀ {g p}, s.stage? n = some (.reading g p) → g = c.generation
  /-- Once it is in line the stream stays. -/
  joined : ∀ {g p}, s.stage? n = some (.reading g p) → p = .start ∨
    ∃ as f bs, ns = as ++ f :: bs ∧ Joins f n ∧ s.link.stream = f.before.link.stream

variable {s s' s₁ : Server} {id n : Nat} {stage st : Stage} {next : Option Stage} {r : Reply}
  {out : Report} {a : Act} {e : Effect} {ms ns as : List Moment} {k m : Moment} {c : Client}
  {x y : StreamId} {t : Config.Tuning} {g : Nat} {bytes : Bytes} {result : Except Fault Bytes}

/-! ## In line -/

theorem reads_of_stage {p : Link.Reading} (hs : s.stage? n = some (.reading g p))
    (hp : p ≠ .start) : Link.Activity.reads (activities s.stage? n) = true := by
  rw [activities_of_stage hs]
  cases p with
  | start => exact absurd rfl hp
  | waiting | reading => rfl

/-- A read that goes on leaves the stream alone. It gets in line at an open link. -/
theorem Turn.of_reading_on {p p' : Link.Reading} (h : Turn s id (.reading g p) r s₁ next out)
    (hn : next = some (.reading g p')) :
    s₁.link.stream = s.link.stream ∧ (p = .start → s.link.isOpen = true) := by
  cases h with
  | read hr =>
      cases hn
      cases Link.move_of_resumeReading hr with
      | queue ho => exact ⟨rfl, fun _ => ho⟩
      | take => exact ⟨rfl, nofun⟩
  | look hl => cases hl
  | report | lose => cases hn

theorem Reads.turn (h : Reads c n ns s) (hr : (machine t).Run ms s) (hs : s.stage? id = some stage)
    (ht : Turn s id stage r s₁ next out) :
    Reads c n (ns ++ [⟨s, .step (.task id) r, s₁.place id next, { report := out }⟩])
      (s₁.place id next) := by
  have hS := sound_of_run hr
  have later : ∀ {as f bs}, ns = as ++ f :: bs →
      ns ++ [⟨s, .step (.task id) r, s₁.place id next, { report := out }⟩] =
        as ++ f :: (bs ++ [⟨s, .step (.task id) r, s₁.place id next, { report := out }⟩]) := by
    rintro as f bs rfl
    rw [List.append_assoc, List.cons_append]
  have mine : ∀ {g p}, id = n → (s₁.place id next).stage? n = some (.reading g p) →
      next = some (.reading g p) := by
    rintro g p rfl hn
    exact (ht.mine hS hs).symm.trans hn
  have old : ∀ {g p}, id ≠ n → (s₁.place id next).stage? n = some (.reading g p) →
      s.stage? n = some (.reading g p) := fun hne hn => ht.old hS hs (Ne.symm hne) hn (by simp)
  refine ⟨Nat.lt_of_lt_of_le h.lt (Does.turn hs ht).nextTask, fun {g p} hn => ?_, fun {g p} hn => ?_⟩
  · by_cases hid : id = n
    · obtain ⟨p', rfl⟩ := ht.to_reading (mine hid hn)
      exact h.generation (hid ▸ hs)
    · exact h.generation (old hid hn)
  · rw [place_link]
    by_cases hid : id = n
    · have hnext := mine hid hn
      obtain ⟨p', rfl⟩ := ht.to_reading hnext
      obtain ⟨hstream, hopen⟩ := ht.of_reading_on hnext
      subst hid
      rcases h.joined hs with rfl | ⟨as, f, bs, hns, hf, hx⟩
      · exact .inr ⟨ns, _, [], rfl, ⟨hopen rfl, ⟨g, hs⟩, r, rfl⟩, hstream⟩
      · exact .inr ⟨as, f, _, later hns, hf, hstream.trans hx⟩
    · have hn := old hid hn
      by_cases hp : p = .start
      · exact .inl hp
      · obtain ⟨as, f, bs, hns, hf, hx⟩ := (h.joined hn).resolve_left hp
        refine .inr ⟨as, f, _, later hns, hf, ?_⟩
        exact (ht.link.stream_of_reads (link_ordered_of_run hr) hS.link (activities_of_stage hs)
          (reads_of_stage hn hp)).trans hx

theorem Reads.aside (h : Reads c n ns s) (hS : s.Sound) (hd : Does s a s' e)
    (ha : ∀ n r, a ≠ .step (.task n) r) : Reads c n (ns ++ [⟨s, a, s', e⟩]) s' := by
  have old : ∀ {g p}, s'.stage? n = some (.reading g p) → s.stage? n = some (.reading g p) := by
    intro g p hn
    rcases (hd.table hS).resolve_left fun ⟨i, r, he⟩ => ha i r he with he | ⟨st, he, -⟩ <;>
      rw [he] at hn
    · exact hn
    · rwa [Function.update_of_ne (Nat.ne_of_lt h.lt)] at hn
  refine ⟨Nat.lt_of_lt_of_le h.lt hd.nextTask, fun hn => h.generation (old hn), fun hn => ?_⟩
  refine (h.joined (old hn)).imp_right ?_
  rintro ⟨as, f, bs, rfl, hf, hx⟩
  exact ⟨as, f, bs ++ [⟨s, a, s', e⟩], by rw [List.append_assoc, List.cons_append], hf,
    (hd.quiet hS ha).1.trans hx⟩

theorem reads_of_run (h : (machine t).Run (ms ++ k :: ns) s) (ha : k.act = .read)
    (hk : k.effect.started = some (.task n)) :
    ∃ c x, k.before.client = some c ∧ k.before.link.stream = some x ∧ Reads c n ns s := by
  obtain ⟨hr, -, hp, -⟩ := h.moment
  have hS := sound_of_run hr
  have hp : k.before.perform .read = some (k.after, k.effect) := ha ▸ hp
  generalize hafter : k.after = s₁ at hp
  generalize k.effect = e at hp hk
  cases does_of_perform hp with
  | aside => cases hk
  | close hact => rcases hact with hact | hact <;> cases hact
  | @read c hc ho =>
      cases hk
      obtain ⟨c', x, hv⟩ := serving_of_open hr ho
      refine ⟨c, x, hc, hv.stream, ?_⟩
      have hrun : (machine t).Run ((ms ++ [k]) ++ ns) s := by simpa using h
      refine hrun.since (P := Reads c k.before.nextTask) ?_ ?_
      · intro s₀ h₀
        obtain ⟨-, -, -, rfl⟩ := h₀.unsnoc
        rw [hafter]
        have start : ∀ {g p}, (k.before.spawn (.reading c.generation .start)).2.stage?
            k.before.nextTask = some (.reading g p) → g = c.generation ∧ p = .start := by
          intro g p hn
          rw [stage?_spawn hS.tidy, Function.update_self] at hn
          cases hn
          exact ⟨rfl, rfl⟩
        exact ⟨Nat.lt_succ_self _, fun hn => (start hn).1, fun hn => .inl (start hn).2⟩
      · intro ns s a s' e hr _ hp ih
        have hd := does_of_perform hp
        rcases hd.turn_or_aside with ⟨i, r, st, s₁, next, out, rfl, rfl, rfl, hs, ht⟩ | hne
        · exact ih.turn hr hs ht
        · exact ih.aside (sound_of_run hr) hd hne

/-! ## What a read gets -/

/-- A stream that a read gets something from was that of the client when the read got in line. -/
theorem joined_of_gets (h : (machine t).Run (ms ++ k :: (as ++ [m])) s)
    (hread : Reads c n as m.before) (hg : Gets m n y result) :
    ∃ bs f cs, as = bs ++ f :: cs ∧ Joins f n ∧ Attached f.before y ∧
      (Attached k.before y ↔ visitors (k :: bs) = []) := by
  have hrun : (machine t).Run ((ms ++ k :: as) ++ [m]) s := by simpa using h
  obtain ⟨hr, -⟩ := hrun.unsnoc
  obtain ⟨⟨g, hs⟩, -⟩ := hg
  obtain ⟨bs, f, cs, rfl, hf, hx⟩ := (hread.joined hs).resolve_left nofun
  have hy : m.before.link.stream = some y :=
    (sound_of_run hr).link.reads n y (by rw [activities_of_stage hs]; rfl)
  have hjoin : (machine t).Run ((ms ++ k :: bs) ++ f :: cs) m.before := by simpa using hr
  obtain ⟨hfr, -, -, hfrun⟩ := hjoin.moment
  have hattached : Attached f.before y := by
    obtain ⟨c', x, hv⟩ := serving_of_open hfr hf.1
    exact ⟨by rw [show f.before.client = some c' from hv.client]; rfl, hx.symm.trans hy⟩
  have hfrun : (machine t).Run (ms ++ k :: (bs ++ [f])) f.after := by simpa using hfrun
  exact ⟨bs, f, cs, rfl, hf, hattached, attached_iff hfrun hattached⟩

theorem turn_of_moment (h : (machine t).Run (ms ++ [m]) s) (ha : m.act = .step (.task n) r) :
    ∃ st s₁ next out, m.before.stage? n = some st ∧ Turn m.before n st r s₁ next out ∧
      s = s₁.place n next ∧ m.effect = { report := out } := by
  obtain ⟨-, -, hp, -⟩ := h.unsnoc
  rw [ha] at hp
  exact turn_of_perform hp

theorem gets_of_data (h : (machine t).Run (ms ++ [m]) s) (ha : m.act = .step (.task n) r)
    (ho : m.effect.report.outcome = some (.data bytes)) :
    bytes ≠ [] ∧ ∃ y, Gets m n y (.ok bytes) := by
  obtain ⟨st, s₁, next, out, hs, ht, -, he⟩ := turn_of_moment h ha
  rw [he] at ho
  obtain ⟨⟨g, y, rfl⟩, -⟩ := ht.data ho
  have got : ∀ result, r = .read result → some (outcome (.ofRead result)) = some (.data bytes) →
      bytes ≠ [] ∧ ∃ y, Gets m n y (.ok bytes) := by
    rintro (f | got) rfl ho
    · simp only [Link.Seen.ofRead, outcome] at ho
      split at ho <;> cases ho
    · cases got with
      | nil => cases ho
      | cons b got =>
          cases ho
          exact ⟨List.cons_ne_nil _ _, y, ⟨g, hs⟩, ha⟩
  cases ht with
  | report hr =>
      rcases Link.seen_of_resumeReading hr with
        (rfl | rfl) | ⟨-, -, ⟨_, -, -, rfl⟩ | ⟨result, -, hreply, rfl, -⟩⟩
      · cases ho
      · cases ho
      · cases ho
      · exact got result hreply ho
  | look hl => cases hl
  | read | lose => cases ho

theorem Turn.client_of_some (h : Turn s id stage r s₁ next out)
    (hne : ∀ address a, stage ≠ .attaching address a) (hc : (s₁.place id next).client = some c) :
    s.client = some c := by
  rw [place_client] at hc
  rcases h.client with ⟨-, he | he⟩ | ⟨-, -, address, a, he⟩
  · exact he.symm.trans hc
  · cases he.symm.trans hc
  · exact absurd he (hne address a)

/-- After a read has got the end of a stream, the client that it was accepted for is there no more. If it
was there until then, the read gives it up. -/
theorem client_of_eof (h : (machine t).Run (ms ++ [m]) s) (hread : Reads c n ns m.before)
    (hg : Gets m n y (.ok [])) :
    s.client ≠ some c ∧ (m.before.client = some c → ∃ j, s.stage? n = some (.losing j)) := by
  obtain ⟨⟨g, hs⟩, ha⟩ := hg
  have hgen := hread.generation hs
  obtain ⟨st, s₁, next, out, hs', ht, rfl, -⟩ := turn_of_moment h ha
  cases hs.symm.trans hs'
  refine ⟨fun hc => ?_, fun hc => ?_⟩
  · have hnone := ht.of_end rfl (ht.client_of_some nofun hc) hgen.symm
    rw [place_client, hnone] at hc
    cases hc
  · rw [ht.mine (sound_of_run h.unsnoc.1) hs]
    cases ht with
    | read hr => cases done_of_read hr
    | report hr hno =>
        cases done_of_read hr
        exact absurd hgen.symm (hno rfl c hc)
    | lose => exact ⟨_, rfl⟩
    | look hl => cases hl

/-! ## What becomes of its client -/

/-- A client that is there no more is on its way, as long as the server is not closed. -/
theorem fate_of_absent {bs : List Moment} (h : (machine t).Run (ms ++ k :: (as ++ m :: bs)) s)
    (hc : k.before.client = some c) (hx : k.before.link.stream = some x)
    (hgone : m.after.client ≠ some c) (hp : s.phase ≠ .closed) :
    Fate c x (k :: (as ++ m :: bs)) s := by
  have hx' := handed_of_holds h.moment.1 (.reader hx)
  have hrun : (machine t).Run (ms ++ (k :: (as ++ [m])) ++ bs) s := by simpa using h
  have hf : Fate c x ((k :: (as ++ [m])) ++ bs) s := by
    refine Fate.since hrun hx' (fun {s₀} h₀ hopen => ?_) hp
    refine (stays_or_fate h₀ hc hx hopen).resolve_left fun hstays => hgone ?_
    have h₀ : (machine t).Run ((ms ++ k :: as) ++ [m]) s₀ := by simpa using h₀
    rw [h₀.unsnoc.2.2.2]
    exact hstays.client
  simpa using hf

/-- Once the task that gave a client up is over, the client is gone. -/
theorem Fate.of_lost {j : Releasing} {o : Option Stage} (hf : Fate c x ns (s₁.place id none))
    (hS : s.Sound) (hv : s.Serves o) (hs : s.stage? id = some (.losing j))
    (ht : Turn s id (.losing j) r s₁ none out) :
    ¬ (s₁.place id none).Holds x ∧ Reregistered c ns := by
  cases hf with
  | pending hc => cases (hv.no_client hs rfl).symm.trans (ht.client_of_some nofun hc)
  | @leaving i q k hi hk =>
      -- It was the only task that serves.
      have hne : i ≠ id := by
        rintro rfl
        cases (ht.mine hS hs).symm.trans hi
      have hold := ht.old hS hs hne hi (by rintro rfl; cases hk)
      have := ((hv.1.others hs rfl).2 i q hold hne).1
      rw [serves_of_releasing hk] at this
      cases this
  | gone hnot hreg => exact ⟨hnot, hreg⟩

theorem gone_of_lost {j : Releasing} (h : (machine t).Run (ms ++ k :: (as ++ [m])) s)
    (hc : k.before.client = some c) (hx : k.before.link.stream = some x)
    (hs : m.before.stage? n = some (.losing j)) (ha : m.act = .step (.task n) r)
    (hdone : s.stage? n = none) (hp : s.phase ≠ .closed) :
    ¬ s.Holds x ∧ Reregistered c (k :: (as ++ [m])) := by
  have hrun : (machine t).Run ((ms ++ k :: as) ++ [m]) s := by simpa using h
  obtain ⟨hr, -, hperf, hafter⟩ := hrun.unsnoc
  have hS := sound_of_run hr
  obtain ⟨o, hv, -⟩ := serves_of_run hr fun hcl => hp ((does_of_perform hperf).phase hcl)
  obtain ⟨st, s₁, next, out, hs', ht, rfl, -⟩ := turn_of_moment hrun ha
  cases hs.symm.trans hs'
  obtain rfl : next = none := (ht.mine hS hs).symm.trans hdone
  have hgone : m.after.client ≠ some c := by
    rw [hafter]
    exact fun hc => nomatch (hv.no_client hs rfl).symm.trans (ht.client_of_some nofun hc)
  exact (fate_of_absent h hc hx hgone hp).of_lost hS hv hs ht

/-! ## Both ways -/

theorem attached_iff_eq (hc : s.client = some c) (hx : s.link.stream = some x) :
    Attached s y ↔ y = x := by
  constructor
  · exact fun h => Option.some.inj (h.2.symm.trans hx)
  · rintro rfl
    exact ⟨by rw [hc]; rfl, hx⟩

/-- What a read gets is of the client that it was accepted for just if no other came before it got in
line, and whatever data it reports it got so. If it gets the end of a stream, its client is there no
more, given up by itself or before. At rest that is complete just if it is not stalled, and a read that
gives its client up reports that only after the client is gone. -/
theorem reads_own_iff (h : (machine t).Run (ms ++ k :: ns) s) (ha : k.act = .read)
    (hk : k.effect.started = some (.task n)) :
    ∃ c x, k.before.client = some c ∧ k.before.link.stream = some x ∧
      (∀ as m bs y result, ns = as ++ m :: bs → Gets m n y result →
        ∃ as₁ f as₂, as = as₁ ++ f :: as₂ ∧ Joins f n ∧ Attached f.before y ∧
          (y = x ↔ visitors (k :: as₁) = [])) ∧
      (∀ m ∈ ns, ∀ r bytes, m.act = .step (.task n) r →
        m.effect.report.outcome = some (.data bytes) → bytes ≠ [] ∧ ∃ y, Gets m n y (.ok bytes)) ∧
      (∀ as m bs y, ns = as ++ m :: bs → Gets m n y (.ok []) →
        m.after.client ≠ some c ∧
        (m.before.client = some c → ∃ j, m.after.stage? n = some (.losing j)) ∧
        (s.phase ≠ .closed → s.Rests Elsewhere →
          (Complete c x ms (k :: ns) s ↔ ¬ Stalled c x s)) ∧
        (∀ p j q, ms ++ k :: ns = p ++ j :: q → ClosedAt j → s.Rests Link.Passive →
          (WoundUp (ms ++ k :: ns) s ↔ ¬ s.Listens))) ∧
      ∀ as m bs r j, ns = as ++ m :: bs → m.before.stage? n = some (.losing j) →
        m.act = .step (.task n) r → m.after.stage? n = none → m.after.phase ≠ .closed →
        x ∉ s.streams ∧ Reregistered c (k :: (as ++ [m])) := by
  obtain ⟨c, x, hc, hx, -⟩ := reads_of_run h ha hk
  -- What is known of the run up to one of the moments since.
  have upto : ∀ {as m bs}, ns = as ++ m :: bs →
      (machine t).Run ((ms ++ k :: as) ++ [m]) m.after ∧
        (machine t).Run (ms ++ k :: (as ++ [m])) m.after := by
    rintro as m bs rfl
    have h : (machine t).Run ((ms ++ k :: as) ++ m :: bs) s := by simpa using h
    exact ⟨h.moment.2.2.2, by simpa using h.moment.2.2.2⟩
  have follows : ∀ {as m bs}, ns = as ++ m :: bs → Reads c n as m.before := by
    intro as m bs hns
    obtain ⟨c', x', hc', -, hreads⟩ := reads_of_run (upto hns).1.unsnoc.1 ha hk
    rwa [Option.some.inj (hc'.symm.trans hc)] at hreads
  refine ⟨c, x, hc, hx, ?_, ?_, ?_, ?_⟩
  · intro as m bs y result hns hg
    obtain ⟨as₁, f, as₂, has, hf, hy, hiff⟩ := joined_of_gets (upto hns).2 (follows hns) hg
    exact ⟨as₁, f, as₂, has, hf, hy, (attached_iff_eq hc hx).symm.trans hiff⟩
  · intro m hm r bytes hact ho
    obtain ⟨as, bs, hns⟩ := List.append_of_mem hm
    exact gets_of_data (upto hns).1 hact ho
  · intro as m bs y hns hg
    obtain ⟨hgone, hlosing⟩ := client_of_eof (upto hns).1 (follows hns) hg
    refine ⟨hgone, hlosing, fun hp hr => ⟨fun hcomplete hst => hst.not_complete h hcomplete, ?_⟩, ?_⟩
    · subst hns
      exact (fate_of_absent h hc hx hgone hp).complete h hp hr (visitors_of_client h.moment.1 hc)
    · intro p j q he hj hr
      rw [he] at h ⊢
      exact wound_up_iff h hj hr
  · intro as m bs r j hns hs hact hdone hp
    obtain ⟨hnot, hreg⟩ := gone_of_lost (upto hns).2 hc hx hs hact hdone hp
    have hrun : (machine t).Run ((ms ++ k :: (as ++ [m])) ++ bs) s := by simpa [hns] using h
    have hx' : x ∈ handed (ms ++ k :: (as ++ [m])) :=
      handed_of_mem (handed_of_holds h.moment.1 (.reader hx))
    refine ⟨fun hmem => not_holds_since hrun hx' ?_ (holds_of_mem (sound_of_run h) hmem), hreg⟩
    intro s₀ h₀
    have h₀ : (machine t).Run ((ms ++ k :: as) ++ [m]) s₀ := by simpa using h₀
    rwa [← h₀.unsnoc.2.2.2]

/-- A read that gets the end of its client's stream. -/
theorem complete_after_eof : ∃ ms k as m bs s c x, (machine {}).Run (ms ++ k :: (as ++ m :: bs)) s ∧
    k.act = .read ∧ k.effect.started = some (.task 2) ∧ k.before.client = some c ∧
    k.before.link.stream = some x ∧ Gets m 2 x (.ok []) ∧ m.after.client ≠ some c ∧
    s.phase ≠ .closed ∧ s.Rests Elsewhere ∧ Complete c x ms (k :: (as ++ m :: bs)) s := by
  obtain ⟨ms, k, as, m, bs, s, hrun, ha, hm, hk, hg, hend⟩ := (machine {}).exists_moments_of_play
    arrival .read [.step (.task 2) .go, .step (.task 2) .go] (.step (.task 2) (.read (.ok []))) [
      .step (.task 2) .go, .step (.task 2) .go, .step (.task 2) .shutDown, .step (.task 2) .go,
      .step (.task 2) (.registered (.ok 1)), .step (.task 3) .go]
    (fun s => s.client = some ⟨1, .any⟩ ∧ s.link.stream = some 7 ∧
      (s.perform .read).any fun p => p.2.started = some (.task 2))
    (fun s => s.stage? 2 = some (.reading 1 (.reading 7)))
    (fun s => s.workers = [.task 3] ∧ s.ask (.task 3) = .call (.accept 0 1) ∧
      s.stage? 3 = some (.accepting 0) ∧ s.phase = .advertising)
    (by decide +kernel) (by decide +kernel) (by decide +kernel)
  obtain ⟨hc, hx, hstarted⟩ := of_decide_eq_true hk
  obtain ⟨hw, hask, hstage, hphase⟩ := of_decide_eq_true hend
  have hopen : s.phase ≠ .closed := by simp [hphase]
  have hrest : s.Rests Elsewhere := by
    refine rests_of_workers fun w h => ?_
    obtain rfl : w = .task 3 := by simpa [hw] using h
    exact .inr ⟨_, hask, trivial⟩
  have hstarted := of_decide_eq_true (hrun.effect ha (fun e => e.started = some (.task 2)) hstarted)
  have hgets : Gets m 2 7 (.ok []) := ⟨⟨1, of_decide_eq_true hg⟩, hm⟩
  obtain ⟨c, x, hc', hx', -, -, heof, -⟩ := reads_own_iff hrun ha hstarted
  cases hc.symm.trans hc'
  cases hx.symm.trans hx'
  obtain ⟨hgone, -, hcomplete, -⟩ := heof as m bs 7 rfl hgets
  exact ⟨ms, k, as, m, bs, s, _, _, hrun, ha, hstarted, hc, hx, hgets, hgone, hopen, hrest,
    (hcomplete hopen hrest).mpr (not_stalled_of_accepting hrun hw hstage)⟩

/-- A read gets data of the next client, and one that gets the end of its client's stream leaves the
client with a stream that another read holds. -/
theorem crossed_reads :
    (∃ ms k as m bs s c, (machine {}).Run (ms ++ k :: (as ++ m :: bs)) s ∧ k.act = .read ∧
      k.effect.started = some (.task 2) ∧ k.before.client = some c ∧ Attached k.before 7 ∧
      (∃ c', m.before.client = some c' ∧ c'.generation ≠ c.generation) ∧ Gets m 2 8 (.ok [1]) ∧
      m.effect.report.outcome = some (.data [1])) ∧
    ∃ ms k as m bs s c, (machine {}).Run (ms ++ k :: (as ++ m :: bs)) s ∧ k.act = .read ∧
      k.effect.started = some (.task 3) ∧ k.before.client = some c ∧ Attached k.before 7 ∧
      Gets m 3 7 (.ok []) ∧ m.effect.report.outcome = some .closed ∧ s.phase ≠ .closed ∧
      s.Rests Elsewhere ∧ ¬ Complete c 7 ms (k :: (as ++ m :: bs)) s := by
  constructor
  · obtain ⟨ms, k, as, m, bs, s, hrun, ha, hm, hk, hg, -⟩ := (machine {}).exists_moments_of_play
      arrival .read [
        .disconnectClient, .step (.task 3) .go, .step (.task 3) .go, .step (.task 3) .go,
        .step (.task 3) .shutDown, .step (.task 3) .go, .step (.task 3) (.registered (.ok 1)),
        .step (.task 4) .go, .step (.task 4) (.accepted (.ok (8, .any))), .step (.task 4) .go,
        .step (.task 4) .withdrawn, .step (.task 4) .go, .step (.task 4) .go,
        .step (.task 2) .go, .step (.task 2) .go]
      (.step (.task 2) (.read (.ok [1]))) []
      (fun s => s.client = some ⟨1, .any⟩ ∧ s.link.stream = some 7 ∧
        (s.perform .read).any fun p => p.2.started = some (.task 2))
      (fun s => s.client = some ⟨2, .any⟩ ∧ s.stage? 2 = some (.reading 1 (.reading 8)) ∧
        (s.perform (.step (.task 2) (.read (.ok [1])))).any fun p =>
          p.2.report.outcome = some (.data [1]))
      (fun _ => true) (by decide +kernel) (by decide +kernel) (by decide +kernel)
    obtain ⟨hc, hx, hstarted⟩ := of_decide_eq_true hk
    obtain ⟨hc', hs, hdata⟩ := of_decide_eq_true hg
    have hrun' : (machine {}).Run ((ms ++ k :: as) ++ m :: bs) s := by simpa using hrun
    refine ⟨ms, k, as, m, bs, s, _, hrun, ha, ?_, hc, ⟨by rw [hc]; rfl, hx⟩, ⟨_, hc', by decide⟩,
      ⟨⟨1, hs⟩, hm⟩, ?_⟩
    · exact of_decide_eq_true (hrun.effect ha (fun e => e.started = some (.task 2)) hstarted)
    · exact of_decide_eq_true (hrun'.effect hm (fun e => e.report.outcome = some (.data [1])) hdata)
  · obtain ⟨ms, k, as, m, bs, s, hrun, ha, hm, hk, hg, hend⟩ := (machine {}).exists_moments_of_play
      (arrival ++ [.read]) .read [
        .read, .step (.task 2) .go, .step (.task 3) .go, .step (.task 4) .go, .step (.task 2) .go,
        .step (.task 2) (.read (.ok [])), .step (.task 3) .go]
      (.step (.task 3) (.read (.ok []))) [.step (.task 4) .go]
      (fun s => s.client = some ⟨1, .any⟩ ∧ s.link.stream = some 7 ∧
        (s.perform .read).any fun p => p.2.started = some (.task 3))
      (fun s => s.stage? 3 = some (.reading 1 (.reading 7)) ∧
        (s.perform (.step (.task 3) (.read (.ok [])))).any fun p =>
          p.2.report.outcome = some .closed)
      (fun s => s.workers = [.task 2, .task 4] ∧ s.ask (.task 2) = .blocked ∧
        s.ask (.task 4) = .call (.read 7 1024) ∧ s.stage? 4 = some (.reading 1 (.reading 7)) ∧
        s.phase = .accepted) (by decide +kernel) (by decide +kernel) (by decide +kernel)
    obtain ⟨hc, hx, hstarted⟩ := of_decide_eq_true hk
    obtain ⟨hs, hclosed⟩ := of_decide_eq_true hg
    obtain ⟨hw, h₂, h₄, hstage, hphase⟩ := of_decide_eq_true hend
    have hrun' : (machine {}).Run ((ms ++ k :: as) ++ m :: bs) s := by simpa using hrun
    refine ⟨ms, k, as, m, bs, s, _, hrun, ha, ?_, hc, ⟨by rw [hc]; rfl, hx⟩, ⟨⟨1, hs⟩, hm⟩, ?_,
      by simp [hphase], ?_, Stalled.not_complete hrun (.stream hstage)⟩
    · exact of_decide_eq_true (hrun.effect ha (fun e => e.started = some (.task 3)) hstarted)
    · exact of_decide_eq_true (hrun'.effect hm (fun e => e.report.outcome = some .closed) hclosed)
    · refine rests_of_workers fun w h => ?_
      have h : w = .task 2 ∨ w = .task 4 := by simpa [hw] using h
      rcases h with rfl | rfl
      · exact .inl h₂
      · exact .inr ⟨_, h₄, trivial⟩

end Rfcomm.Server
