import Rfcomm.Proofs.Server.Advertised
import Rfcomm.Proofs.Server.Ending
/-!
What a server tells of its clients, and what of it arrives. Of each client it is told once that it came
and at most once that it went, in the order of the clients. The feed drops what finds it full and
delivers the rest in order.
-/
namespace Rfcomm.Server

/-- The client that an event says has come. -/
def Event.arrived? : Event → Option Address
  | .connected address => some address
  | _ => none

/-- The client that an event says has gone. -/
def Event.left? : Event → Option Address
  | .disconnected address => some address
  | _ => none

/-- All that was told, failures included. -/
def emitted (ms : List Moment) : List Event := ms.flatMap (·.effect.report.events)

/-- An event finds the feed full. -/
def Overflows (m : Moment) : Prop :=
  m.effect.report.events ≠ [] ∧ m.before.feed.capacity ≤ m.before.feed.queue.length

/-- The receiver lets go of the feed. -/
def Abandons (m : Moment) : Prop := m.act = .dismissEvents ∧ m.before.feed.receiving = true

/-- What an act does with the feed, what it tells, and what it hands to the receiver. -/
inductive Feeds (s : Server) : Act → Server → List Event → Option Event → Prop
  | keep {a s'} : s'.feed = s.feed → Feeds s a s' [] none
  | tell {a s' v} : s.feed.sending = true → s'.feed = s.feed.push v → Feeds s a s' [v] none
  | start {a s' n record session capacity} : s.stage? n = some (.noting record session) →
      s.phase ≠ .closed → s'.feed = .start capacity → Feeds s a s' [] none
  | take {s' v} : s.feed.take = some (v, s'.feed) → Feeds s .takeEvent s' [] (some v)
  | dismiss {s'} : s'.feed = s.feed.dismiss → Feeds s .dismissEvents s' [] none
  | stop {a s'} : s'.phase = .closed → s'.feed = s.feed.stop → Feeds s a s' [] none

variable {s s' s₁ : Server} {id n : Nat} {stage : Stage} {next : Option Stage} {r : Reply}
  {out : Report} {a : Act} {e : Effect} {ms ns : List Moment} {m : Moment} {t : Config.Tuning}
  {vs : List Client} {es l : List Event}

/-! ## One pair of events for each client -/

theorem hushed_of_run (h : (machine t).Run ms s) (hc : s.phase = .closed) :
    s.feed.sending = false := by
  refine h.invariant (P := fun s => s.phase = .closed → s.feed.sending = false) nofun ?_ hc
  intro s a s' e hp ih hc
  cases does_of_perform hp with
  | listen => cases hc
  | read | write | disconnect | send => exact ih hc
  | aside _ _ _ hf => exact hf.trans (ih hc)
  | @close _ background _ _ hopen =>
      rw [close_eq hopen]
      cases background <;> rfl
  | turn _ ht =>
      rw [place_phase] at hc
      have hc := ht.phase.mp hc
      rw [place_feed, (ht.silent hc (ih hc)).1]
      exact ih hc

/-- Nothing is told while a server gets closed, or is. -/
theorem Does.silent (h : Does s a s' e) (hf : s.phase = .closed → s.feed.sending = false)
    (hc : s'.phase = .closed) : e.report.told = [] := by
  cases h with
  | listen | read | write | disconnect | aside | send | close => rfl
  | turn _ ht =>
      rw [place_phase] at hc
      have hc := ht.phase.mp hc
      simp [Report.told, (ht.silent hc (hf hc)).2]

/-- A server told of all its clients, but that the last one is gone. -/
theorem told_of_run (h : (machine t).Run ms s) :
    ∃ l, told ms ++ l = (visitors ms).flatMap visit ∧ l.length ≤ 1 := by
  induction h with
  | start => exact ⟨[], rfl, Nat.zero_le _⟩
  | @next ms s a s' e hr ha hp ih =>
      have hrun := hr.next ha hp
      by_cases hc : s'.phase = .closed
      · obtain ⟨l, ht, hl⟩ := ih
        have hsilent := (does_of_perform hp).silent (hushed_of_run hr) hc
        have hfresh : fresh s.client s'.client = [] := by
          rw [(shut_of_run hrun hc).client]
          cases s.client <;> rfl
        refine ⟨l, ?_, hl⟩
        rw [visitors_snoc]
        simpa [told, hsilent, hfresh] using ht
      · obtain ⟨o, -, ht⟩ := serves_of_run hrun hc
        exact ⟨_, ht, owed_length _ _⟩

theorem arrived_visits (vs : List Client) :
    (vs.flatMap visit).filterMap Event.arrived? = vs.map (·.address) := by
  induction vs with
  | nil => rfl
  | cons c vs ih =>
      rw [List.flatMap_cons, List.filterMap_append, ih]
      rfl

theorem left_visits (vs : List Client) :
    (vs.flatMap visit).filterMap Event.left? = vs.map (·.address) := by
  induction vs with
  | nil => rfl
  | cons c vs ih =>
      rw [List.flatMap_cons, List.filterMap_append, ih]
      rfl

/-- What is missing at the end is not that somebody came. -/
theorem arrived_of_missing (h : es ++ l = vs.flatMap visit) (hl : l.length ≤ 1) :
    l.filterMap Event.arrived? = [] := by
  match l with
  | [] => rfl
  | [v] =>
      cases vs using List.reverseRecOn with
      | nil => simp at h
      | append_singleton vs c =>
          have he : es ++ [v] =
              (vs.flatMap visit ++ [.connected c.address]) ++ [.disconnected c.address] := by
            simpa [visit] using h
          obtain rfl : v = .disconnected c.address := by simpa using (List.append_inj' he rfl).2
          rfl

theorem arrived_of_run (h : (machine t).Run ms s) :
    (told ms).filterMap Event.arrived? = (visitors ms).map (·.address) := by
  obtain ⟨l, ht, hl⟩ := told_of_run h
  have := congrArg (List.filterMap Event.arrived?) ht
  rwa [List.filterMap_append, arrived_of_missing ht hl, List.append_nil, arrived_visits] at this

/-- It is told of a client at the moment at which it comes. -/
theorem arrived_of_moment (h : (machine t).Run ms s) (hm : m ∈ ms) :
    m.effect.report.told.filterMap Event.arrived? =
      (fresh m.before.client m.after.client).map (·.address) := by
  obtain ⟨ms, ns, rfl⟩ := List.append_of_mem hm
  obtain ⟨hr, -, -, hr'⟩ := h.moment
  have h₁ := arrived_of_run hr'
  rw [visitors_snoc, List.map_append, ← arrived_of_run hr] at h₁
  simpa [told] using h₁

/-! ## What arrives -/

theorem push_sending (f : Feed) (v : Event) :
    (f.push v).sending = f.sending ∧ (f.push v).receiving = f.receiving := by
  unfold Feed.push
  split <;> exact ⟨rfl, rfl⟩

theorem emit_feeds (s : Server) (v : Event) :
    (s.emit v).1.feed = s.feed ∧ (s.emit v).2.events = [] ∨
      s.feed.sending = true ∧ (s.emit v).1.feed = s.feed.push v ∧ (s.emit v).2.events = [v] := by
  by_cases hs : s.feed.sending = true
  · exact .inr ⟨hs, by simp [emit_fst, hs], by simp [emit_snd, hs]⟩
  · exact .inl ⟨by simp [emit_fst, hs], by simp [emit_snd, hs]⟩

theorem Releases.feeds {k : Releasing} {k' : Option Releasing} (h : Releases s id k r s₁ k' out) :
    s₁.feed = s.feed ∧ out.events = [] ∨
      ∃ v, s.feed.sending = true ∧ s₁.feed = s.feed.push v ∧ out.events = [v] := by
  have told : ∀ (u : Server) (v : Event), u.feed = s.feed → s₁.feed = (u.emit v).1.feed →
      out = (u.emit v).2 → s₁.feed = s.feed ∧ out.events = [] ∨
        ∃ v, s.feed.sending = true ∧ s₁.feed = s.feed.push v ∧ out.events = [v] := by
    rintro u v hf h₁ rfl
    rw [h₁, ← hf]
    exact (emit_feeds u v).imp_right fun h => ⟨v, h⟩
  cases h with
  | close | late | register => exact .inl ⟨rfl, rfl⟩
  | @last address _ _ link | @line address _ _ link =>
      exact told { s with link } (.disconnected address) rfl rfl rfl
  | skip | hold => exact .inl ⟨by rw [(rearmed_frame _ _).2]; rfl, rfl⟩
  | fail => exact told s.leaveAdvertisement _ rfl (rearmed_frame _ _).2 rfl

theorem Turn.feeds (h : Turn s id stage r s₁ next out) :
    (s₁.feed = s.feed ∧ out.events = [] ∨
      ∃ v, s.feed.sending = true ∧ s₁.feed = s.feed.push v ∧ out.events = [v]) ∨
    (∃ record session, stage = .noting record session) ∧ s.phase ≠ .closed ∧ out.events = [] ∧
      ∃ capacity, s₁.feed = .start capacity := by
  cases h with
  | note _ hp => exact .inr ⟨⟨_, _, rfl⟩, hp, rfl, _, rfl⟩
  | notBound | notRegistered => exact .inl (.inl ⟨(resetListening_frame s).1, rfl⟩)
  | undo h | undone h | withdraw h | beginAttach h | retire h | retired h =>
      obtain ⟨_, _, rfl⟩ := h.frame
      exact .inl (.inl ⟨rfl, rfl⟩)
  | stumble => exact .inl ((emit_feeds _ _).imp_right fun h => ⟨_, h⟩)
  | @welcome address _ _ link =>
      have h := emit_feeds (({ s with link } : Server).welcome address) (.connected address)
      exact .inl (h.imp_right fun h => ⟨_, h⟩)
  | losing h | lost h | releasing h | released h => exact .inl h.feeds
  | _ => exact .inl (.inl ⟨rfl, rfl⟩)

theorem close_feeds (s : Server) (background : Bool) :
    (s.close background).feed = s.feed ∨
      (s.close background).phase = .closed ∧ (s.close background).feed = s.feed.stop := by
  by_cases hp : s.phase = .closed
  · rw [Server.close, if_pos hp]
    exact .inl rfl
  · rw [close_eq hp]
    cases background <;> exact .inr ⟨rfl, rfl⟩

theorem feeds_of_perform (h : s.perform a = some (s', e)) :
    Feeds s a s' e.report.events e.received := by
  cases a with
  | listen o =>
      simp only [perform, listen, bind, Except.bind] at h
      split at h
      · cases h; exact .keep rfl
      · split at h <;> (cases h; exact .keep rfl)
  | read =>
      simp only [perform, read] at h
      split at h
      · split at h <;> (cases h; exact .keep rfl)
      · cases h; exact .keep rfl
  | write bytes => cases h; exact .keep rfl
  | disconnectClient =>
      simp only [perform, disconnectClient] at h
      split at h <;> (cases h; exact .keep rfl)
  | close background | drop background =>
      cases h
      rcases close_feeds s background with hf | ⟨hp, hf⟩
      · exact .keep hf
      · exact .stop hp hf
  | takeEvent =>
      simp only [perform] at h
      split at h <;> cases h
      · exact .keep rfl
      · exact .take ‹_›
  | dismissEvents => cases h; exact .dismiss rfl
  | step w r =>
      cases does_of_perform h with
      | send => exact .keep rfl
      | turn hs ht =>
          rcases ht.feeds with (⟨hf, he⟩ | ⟨v, hsend, hf, he⟩) | ⟨⟨_, _, rfl⟩, hp, he, _, hf⟩
          · rw [he]; exact .keep ((place_feed _).trans hf)
          · rw [he]; exact .tell hsend ((place_feed _).trans hf)
          · rw [he]; exact .start hs hp ((place_feed _).trans hf)
      | aside hne => exact absurd rfl (hne _ _)
      | close hact => rcases hact with hact | hact <;> cases hact

/-- How far what was told got: some of it was dropped, the receiver took some, the rest waits. -/
structure Delivers (ms : List Moment) (s : Server) : Prop where
  part : (taken ms ++ s.feed.queue).Sublist (emitted ms)
  whole : (∀ m ∈ ms, ¬ Overflows m) → taken ms ++ s.feed.queue <+: emitted ms ∧
    (s.feed.receiving = true → taken ms ++ s.feed.queue = emitted ms)
  /-- Without a receiver nothing was told so far, or it let go of the feed. -/
  receiving : s.feed.receiving = false →
    s.feed.sending = false ∧ emitted ms = [] ∨ ∃ m ∈ ms, Abandons m
  sending : emitted ms ≠ [] → s.feed.sending = true ∨ s.phase = .closed

theorem emitted_snoc : emitted (ms ++ [m]) = emitted ms ++ m.effect.report.events := by
  simp [emitted]

theorem taken_of_none (h : m.effect.received = none) : taken (ms ++ [m]) = taken ms := by
  rw [taken_snoc, h, Option.toList_none, List.append_nil]

/-- A receiver that looks is handed the event that waits first. -/
theorem received_of_moment (h : (machine t).Run ms s) (hm : m ∈ ms) (ha : m.act = .takeEvent) :
    m.effect.received = m.before.feed.queue.head? := by
  obtain ⟨ms, ns, rfl⟩ := List.append_of_mem hm
  obtain ⟨-, -, hp, -⟩ := h.moment
  rw [ha] at hp
  simp only [machine, perform] at hp
  split at hp <;> rename_i htake <;> rw [← (Prod.mk.inj (Option.some.inj hp)).2]
  · rw [Feed.take_eq_none_iff.mp htake]
    rfl
  · obtain ⟨rest, hq, -⟩ := Feed.take_eq_some_iff.mp htake
    rw [hq]
    rfl

theorem push_queue (f : Feed) (v : Event) :
    (f.push v).queue = f.queue ∨ (f.push v).queue = f.queue ++ [v] := by
  unfold Feed.push
  split
  · exact .inr rfl
  · exact .inl rfl

theorem push_queue_of_room {f : Feed} (v : Event) (hs : f.sending = true)
    (hr : f.receiving = true) (hl : f.queue.length < f.capacity) :
    (f.push v).queue = f.queue ++ [v] := by
  simp [Feed.push, hs, hr, hl]

theorem push_queue_of_abandoned {f : Feed} (v : Event) (hr : f.receiving = false) :
    f.push v = f := by
  simp [Feed.push, hr]

/-- The receiver of what was told stays as it was, or lets go. -/
theorem Delivers.keep (h : Delivers ms s) (ht : taken (ms ++ [m]) ++ s'.feed.queue =
      taken ms ++ s.feed.queue) (he : m.effect.report.events = [])
    (hs : s'.feed.sending = s.feed.sending ∨ s'.phase = .closed)
    (hc : s.phase = .closed → s'.phase = .closed)
    (hsend : s'.feed.sending = true → s.feed.sending = true)
    (hr : s'.feed.receiving = s.feed.receiving) : Delivers (ms ++ [m]) s' := by
  have hem : emitted (ms ++ [m]) = emitted ms := by rw [emitted_snoc, he, List.append_nil]
  refine ⟨?_, fun ho => ?_, fun hn => ?_, fun hne => ?_⟩
  · rw [ht, hem]
    exact h.part
  · rw [ht, hem, hr]
    exact h.whole fun k hk => ho k (List.mem_append_left _ hk)
  · rw [hem]
    rcases h.receiving (hr ▸ hn) with ⟨h₁, h₂⟩ | ⟨k, hk, hab⟩
    · refine .inl ⟨?_, h₂⟩
      by_contra hs
      cases h₁.symm.trans (hsend (by simpa using hs))
    · exact .inr ⟨k, List.mem_append_left _ hk, hab⟩
  · rw [hem] at hne
    rcases h.sending hne with h | h
    · exact hs.imp_left fun hs => hs.trans h
    · exact .inr (hc h)

theorem Delivers.tell {v : Event} (h : Delivers ms s) (hn : m.effect.received = none)
    (hbefore : m.before = s) (hv : m.effect.report.events = [v]) (hs : s.feed.sending = true)
    (hf : s'.feed = s.feed.push v) : Delivers (ms ++ [m]) s' := by
  have hem : emitted (ms ++ [m]) = emitted ms ++ [v] := by rw [emitted_snoc, hv]
  have ht : taken (ms ++ [m]) = taken ms := taken_of_none hn
  obtain ⟨hsend, hrec⟩ := push_sending s.feed v
  refine ⟨?_, fun ho => ?_, fun hn => ?_, fun _ => .inl (hf ▸ hsend.trans hs)⟩
  · rw [hem, ht, hf]
    rcases push_queue s.feed v with hq | hq <;> rw [hq]
    · exact h.part.trans (List.sublist_append_left _ _)
    · rw [← List.append_assoc]
      exact h.part.append_right [v]
  · have hroom : s.feed.queue.length < s.feed.capacity := by
      by_contra hfull
      exact ho m (by simp) ⟨by simp [hv], by rw [hbefore]; omega⟩
    obtain ⟨hpre, heq⟩ := h.whole fun k hk => ho k (List.mem_append_left _ hk)
    rw [hem, ht, hf, hrec]
    cases hr : s.feed.receiving with
    | true =>
        rw [push_queue_of_room v hs hr hroom, ← List.append_assoc, heq hr]
        exact ⟨List.prefix_rfl, fun _ => rfl⟩
    | false =>
        rw [push_queue_of_abandoned v hr]
        exact ⟨hpre.trans (List.prefix_append _ _), nofun⟩
  · rw [hf, hrec] at hn
    rcases h.receiving hn with ⟨h₁, -⟩ | ⟨k, hk, hab⟩
    · cases h₁.symm.trans hs
    · exact .inr ⟨k, List.mem_append_left _ hk, hab⟩

/-- The feed begins when nothing was told yet. -/
theorem Delivers.start {capacity : Nat} (h : Delivers ms s) (hn : m.effect.received = none)
    (he : m.effect.report.events = []) (hs : s.feed.sending = false) (hc : s.phase ≠ .closed)
    (hf : s'.feed = .start capacity) : Delivers (ms ++ [m]) s' := by
  have hnone : emitted ms = [] := by
    by_contra hne
    rcases h.sending hne with h | h
    · cases hs.symm.trans h
    · exact hc h
  have hem : emitted (ms ++ [m]) = [] := by rw [emitted_snoc, he, hnone]; rfl
  have ht : taken (ms ++ [m]) ++ s'.feed.queue = [] := by
    have := h.part
    rw [hnone, List.sublist_nil, List.append_eq_nil_iff] at this
    rw [taken_of_none hn, this.1, hf]
    rfl
  refine ⟨?_, fun _ => ?_, fun hn => ?_, fun hne => absurd hem hne⟩
  · rw [ht, hem]
  · rw [ht, hem]
    exact ⟨List.prefix_rfl, fun _ => rfl⟩
  · rw [hf] at hn
    cases hn

theorem Delivers.dismiss (h : Delivers ms s) (ha : m.act = .dismissEvents)
    (hn : m.effect.received = none)
    (hbefore : m.before = s) (he : m.effect.report.events = []) (hf : s'.feed = s.feed.dismiss)
    (hc : s.phase = .closed → s'.phase = .closed) : Delivers (ms ++ [m]) s' := by
  have hem : emitted (ms ++ [m]) = emitted ms := by rw [emitted_snoc, he, List.append_nil]
  have ht : taken (ms ++ [m]) ++ s'.feed.queue = taken ms := by
    rw [taken_of_none hn, hf]
    exact List.append_nil _
  refine ⟨?_, fun ho => ?_, fun _ => ?_, fun hne => ?_⟩
  · rw [ht, hem]
    exact (List.sublist_append_left _ _).trans h.part
  · rw [ht, hem]
    refine ⟨?_, fun hr => by rw [hf] at hr; cases hr⟩
    exact (List.prefix_append _ _).trans
      (h.whole fun k hk => ho k (List.mem_append_left _ hk)).1
  · rw [hem, hf]
    cases hr : s.feed.receiving with
    | true => exact .inr ⟨m, by simp, ha, hbefore ▸ hr⟩
    | false =>
        refine (h.receiving hr).imp_right ?_
        rintro ⟨k, hk, hab⟩
        exact ⟨k, List.mem_append_left _ hk, hab⟩
  · rw [hem] at hne
    rw [hf]
    exact (h.sending hne).imp_right hc

theorem delivers_of_run (h : (machine t).Run ms s) : Delivers ms s := by
  induction h with
  | start =>
      exact ⟨List.Sublist.refl _, fun _ => ⟨List.prefix_rfl, fun _ => rfl⟩,
        fun _ => .inl ⟨rfl, rfl⟩, fun h => absurd rfl h⟩
  | @next ms s a s' e hr _ hp ih =>
      have hc := (does_of_perform hp).phase
      have hfeeds := feeds_of_perform hp
      generalize he : e.report.events = es at hfeeds
      generalize hv : e.received = received at hfeeds
      cases hfeeds with
      | keep hf =>
          refine ih.keep ?_ he (.inl (by rw [hf])) hc (by rw [hf]; exact id) (by rw [hf])
          rw [taken_of_none hv, hf]
      | tell hs hf => exact ih.tell hv rfl he hs hf
      | @start _ _ _ _ _ _ hs hopen hf =>
          -- While a task listens there is no advertisement yet, and so nothing is sent.
          refine ih.start hv he ?_ hopen hf
          by_contra hsend
          obtain ⟨_, _, _, _, -, -, hadv, -⟩ := (sourced_of_run hr).sending (by simpa using hsend)
          cases ((custody_of_run hr).fresh hs rfl).1.symm.trans hadv
      | take htake =>
          obtain ⟨rest, hq, hf⟩ := Feed.take_eq_some_iff.mp htake
          refine ih.keep ?_ he (.inl (by rw [hf])) hc (by rw [hf]; exact id) (by rw [hf])
          rw [taken_snoc, hv, hf, hq, List.append_assoc]
          rfl
      | dismiss hf => exact ih.dismiss rfl hv rfl he hf hc
      | stop hcl hf =>
          refine ih.keep ?_ he (.inr hcl) hc (by rw [hf]; exact nofun) (by rw [hf]; rfl)
          rw [taken_of_none hv, hf]
          rfl

/-- What is told of clients comes in pairs, one for each client in order, of which only the last one may
lack that it is gone; that a client came is told at that moment. A receiver that looks is handed the event
that waits first. What was handed to it and what waits for it is a part of what was told, in order. If the
feed was never found full it is all that was told until the receiver let go, if it did. -/
theorem told_in_pairs (h : (machine t).Run ms s) :
    told ms <+: (visitors ms).flatMap visit ∧
    (told ms).filterMap Event.arrived? = (visitors ms).map (·.address) ∧
    (told ms).filterMap Event.left? <+: (visitors ms).map (·.address) ∧
    (∀ m ∈ ms, m.effect.report.told.filterMap Event.arrived? =
      (fresh m.before.client m.after.client).map (·.address)) ∧
    (∀ m ∈ ms, m.act = .takeEvent → m.effect.received = m.before.feed.queue.head?) ∧
    (taken ms ++ s.feed.queue).Sublist (emitted ms) ∧
    ((∀ m ∈ ms, ¬ Overflows m) → taken ms ++ s.feed.queue <+: emitted ms ∧
      ((∀ m ∈ ms, ¬ Abandons m) → taken ms ++ s.feed.queue = emitted ms)) := by
  obtain ⟨l, ht, -⟩ := told_of_run h
  have hpre : told ms <+: (visitors ms).flatMap visit := ⟨l, ht⟩
  have hd := delivers_of_run h
  refine ⟨hpre, arrived_of_run h, ?_, fun m hm => arrived_of_moment h hm,
    fun m hm => received_of_moment h hm, hd.part, fun ho => ?_⟩
  · rw [← left_visits]
    exact hpre.filterMap _
  · obtain ⟨hwhole, heq⟩ := hd.whole ho
    refine ⟨hwhole, fun hkept => ?_⟩
    cases hr : s.feed.receiving with
    | true => exact heq hr
    | false =>
        rcases hd.receiving hr with ⟨-, hnone⟩ | ⟨m, hm, hab⟩
        · rw [hnone] at hwhole ⊢
          exact List.prefix_nil.mp hwhole
        · exact absurd hab (hkept m hm)

/-- Two clients came, and the feed was full when the second one did. -/
theorem told_of_two_clients : ∃ ms s, (machine { eventBuffer := 1 }).Run ms s ∧
    (visitors ms).map (·.address) = [.any, ⟨#v[0, 0, 0, 0, 0, 1]⟩] ∧
    taken ms ++ s.feed.queue = [.connected .any, .disconnected .any] ∧
    (taken ms ++ s.feed.queue).Sublist (emitted ms) := by
  let second : Address := ⟨#v[0, 0, 0, 0, 0, 1]⟩
  obtain ⟨ms, s, hp, hs⟩ := (machine { eventBuffer := 1 }).exists_of_play
    (arrival ++ [.takeEvent, .disconnectClient, .step (.task 2) .go, .step (.task 2) .go,
      .step (.task 2) .go, .step (.task 2) .shutDown, .step (.task 2) .go,
      .step (.task 2) (.registered (.ok 1)), .step (.task 3) .go,
      .step (.task 3) (.accepted (.ok (8, second))), .step (.task 3) .go, .step (.task 3) .withdrawn,
      .step (.task 3) .go, .step (.task 3) .go])
    (fun ms s => told ms = [.connected .any, .disconnected .any, .connected second] ∧
      taken ms = [.connected .any] ∧ s.feed.queue = [.disconnected .any]) (by decide +kernel)
  obtain ⟨htold, htaken, hqueue⟩ := of_decide_eq_true hs
  obtain ⟨-, harrived, -, -, -, hpart, -⟩ := told_in_pairs (Machine.run_of_play hp)
  rw [htold] at harrived
  exact ⟨ms, s, Machine.run_of_play hp, harrived.symm, by rw [htaken, hqueue]; rfl, hpart⟩

end Rfcomm.Server
