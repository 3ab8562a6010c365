import Rfcomm.Proofs.Server.Completion
/-!
Which client the bytes of a write go to. A write is bound to no client: its bytes go to whoever is
connected while it is served, which is the client that it was meant for just if none came since.
-/
namespace Rfcomm.Server

variable {s s' s₀ s₁ : Server} {id n : Nat} {stage st : Stage} {next : Option Stage} {r : Reply}
  {out : Report} {a : Act} {e : Effect} {ms ns : List Moment} {m : Moment} {c : Client}
  {x y : StreamId} {t : Config.Tuning}

/-- A client is there, with this stream. -/
def Attached (s : Server) (y : StreamId) : Prop := s.client.isSome ∧ s.link.stream = some y

/-- A stream takes bytes of a write. -/
def Accepts (m : Moment) (n : Nat) (y : StreamId) : Prop :=
  ∃ send k, m.before.link.queue.stage? n = some (.sending y send) ∧ 0 < k ∧
    m.act = .step (.write n) (.wrote (.ok k))

/-- Ends no stream. -/
def Unshut : Call → Prop
  | .shutdown _ => False
  | _ => True

/-! ## The client that is there -/

theorem View.Fits.isOpen {v : View} (h : v.Fits (some st)) : v.isOpen = false := by
  unfold View.Fits at h
  split at h
  all_goals first
    | exact h.1.bare.isOpen
    | exact h.bare.isOpen
    | exact View.Losing.isOpen h
    | contradiction

theorem serving_of_open (h : (machine t).Run ms s) (ho : s.link.isOpen = true) :
    ∃ c x, s.view.Serving c x := by
  have hp : s.phase ≠ .closed := by
    intro hp
    rw [(shut_of_run h hp).isOpen] at ho
    cases ho
  obtain ⟨o, ⟨-, hf⟩, -⟩ := serves_of_run h hp
  have ho : s.view.isOpen = true := ho
  cases o with
  | some st => rw [hf.isOpen] at ho; cases ho
  | none =>
      rcases hf with hf | hf
      · rw [hf.bare.isOpen] at ho; cases ho
      · exact hf

theorem attached_before (hr : (machine t).Run ms s) (ha : (machine t).allows ms a = true)
    (hp : s.perform a = some (s', e)) (hf : fresh s.client s'.client = [])
    (hc : s'.client.isSome = true) :
    s'.client = s.client ∧ s'.link.stream = s.link.stream := by
  obtain ⟨c, hc⟩ := Option.isSome_iff_exists.mp hc
  have hopen' : s'.phase ≠ .closed := by
    intro hcl
    rw [(shut_of_run (hr.next ha hp) hcl).client] at hc
    cases hc
  have hd := does_of_perform hp
  have hopen : s.phase ≠ .closed := fun hcl => hopen' (hd.phase hcl)
  have hS := sound_of_run hr
  rcases hd.turn_or_aside with ⟨n, r, st, s₁, next, out, rfl, rfl, rfl, hs, ht⟩ | hne
  · rw [place_client] at hc hf ⊢
    rw [place_link]
    cases hc₀ : s.client with
    | none => rw [hc₀, hc] at hf; cases hf
    | some c₀ =>
        obtain ⟨_, hsv, -⟩ := serves_of_run hr hopen
        obtain ⟨hst, hcl⟩ := hsv.none_serves hc₀ hs
        rcases ht.bystander hst hcl with he | ⟨_, _, -, -, -, -, hcn, -⟩
        · exact ⟨(congrArg View.client he).trans hc₀, congrArg View.stream he⟩
        · rw [hcn] at hc; cases hc
  · obtain ⟨h₁, -, h₃, -⟩ := hd.quiet hS hne
    exact ⟨h₃.resolve_right fun h => hopen' h.1, h₁⟩

theorem visitors_append : visitors (ms ++ ns) = visitors ms ++ visitors ns := by simp [visitors]

/-- While no client comes, whoever is there was there with the same stream. -/
theorem attached_since (h : (machine t).Run (ms ++ m :: ns) s) (hv : visitors (m :: ns) = [])
    (hc : s.client.isSome = true) :
    s.client = m.before.client ∧ s.link.stream = m.before.link.stream := by
  obtain ⟨hr, ha, hp, -⟩ := h.moment
  have hrun : (machine t).Run ((ms ++ [m]) ++ ns) s := by simpa using h
  refine hrun.since (P := fun ns s => visitors (m :: ns) = [] → s.client.isSome = true →
    s.client = m.before.client ∧ s.link.stream = m.before.link.stream) ?_ ?_ hv hc
  · intro s₀ h₀ hv hc
    obtain ⟨-, -, -, rfl⟩ := h₀.unsnoc
    exact attached_before hr ha hp (by simpa [visitors] using hv) hc
  · intro ns s a s' e hr' ha' hp' ih hv hc
    rw [← List.cons_append, visitors_snoc, List.append_eq_nil_iff] at hv
    obtain ⟨h₁, h₂⟩ := attached_before hr' ha' hp' hv.2 hc
    obtain ⟨h₃, h₄⟩ := ih hv.1 (h₁ ▸ hc)
    exact ⟨h₁.trans h₃, h₂.trans h₄⟩

/-! ## The streams of later clients -/

/-- The stream that a caller brings. -/
def Stage.caller? : Stage → Option StreamId
  | .welcoming x _ _ => some x
  | .attaching _ k => some k.stream
  | _ => none

theorem caller_of_begins (h : st.begins = true) : st.caller? = none := by
  cases st <;> first | rfl | cases h

theorem Turn.caller (h : Turn s id stage r s₁ next out) (hn : next = some st)
    (hx : st.caller? = some x) :
    stage.caller? = some x ∨ (Act.step (.task id) r).stream? = some x := by
  cases h with
  | look =>
      obtain ⟨l, -, rfl⟩ := Option.map_eq_some_iff.mp hn
      cases hx
  | accept => cases hn; exact .inr hx
  | attach h =>
      cases hn
      cases Link.move_of_resumeAttach h with
      | haveReader => exact .inl hx
  | withdraw | beginAttach => cases hn; exact .inl hx
  | _ => cases hn <;> cases hx

theorem caller_of_activity (h : stage.activity = some (.attaching (.writer x))) :
    stage.caller? = some x := by
  cases stage with
  | attaching address k => cases h; rfl
  | losing k | releasing k => cases k <;> cases h
  | refusing k | closing k | reading generation g => cases h
  | _ => cases h

/-- The streams of the callers and of the client were handed over during some moments. -/
structure Newcomers (ns : List Moment) (s : Server) : Prop where
  callers : ∀ {n st x}, s.stage? n = some st → st.caller? = some x → x ∈ handed ns
  client : visitors ns ≠ [] → ∀ {x}, s.link.stream = some x → x ∈ handed ns

theorem Newcomers.turn (hr : (machine t).Run ms s) (h : Newcomers ns s)
    (hs : s.stage? id = some stage) (ht : Turn s id stage r s₁ next out) :
    Newcomers (ns ++ [⟨s, .step (.task id) r, s₁.place id next, { report := out }⟩])
      (s₁.place id next) := by
  have hS := sound_of_run hr
  refine ⟨?_, ?_⟩
  · intro n st x hn hx
    rw [handed_append, List.mem_append]
    by_cases hne : n = id
    · subst hne
      rcases ht.caller ((ht.mine hS hs).symm.trans hn) hx with h' | h'
      · exact .inl (h.callers hs h')
      · exact .inr (by simp [handed, h'])
    · refine .inl (h.callers (ht.old hS hs hne hn ?_) hx)
      rintro rfl
      cases hx
  · intro hv x hx
    rw [handed_append]
    refine List.mem_append_left _ ?_
    rw [place_link] at hx
    rw [visitors_snoc, place_client] at hv
    rcases ht.link.attached.1 hx with hx | hact
    · refine h.client (fun hnil => hv ?_) hx
      -- A caller becomes the client where no stream is held.
      rw [hnil, List.nil_append]
      rcases ht.client with ⟨-, hc | hc⟩ | ⟨-, hopen, address, k, rfl⟩
      · rw [hc, fresh_self]
      · rw [hc]; simp [fresh]
      · obtain ⟨o, ⟨ho, hf⟩, -⟩ := serves_of_run hr hopen
        obtain ⟨rfl, -⟩ := ho.others hs rfl
        have hb : s.link.stream = none := hf.1.bare.stream
        rw [hx] at hb
        cases hb
    · exact h.callers hs (caller_of_activity hact)

theorem Newcomers.aside (hS : s.Sound) (h : Newcomers ns s) (hd : Does s a s' e)
    (ha : ∀ n r, a ≠ .step (.task n) r) : Newcomers (ns ++ [⟨s, a, s', e⟩]) s' := by
  obtain ⟨h₁, -, h₃, -⟩ := hd.quiet hS ha
  have htab := (hd.table hS).resolve_left fun ⟨n, r, he⟩ => ha n r he
  refine ⟨?_, ?_⟩
  · intro n st x hn hx
    rw [handed_append]
    refine List.mem_append_left _ ?_
    rcases htab with he | ⟨st', he, hst, -⟩ <;> rw [he] at hn
    · exact h.callers hn hx
    · by_cases hf : n = s.nextTask
      · subst hf
        obtain rfl : st' = st := by simpa using hn
        rw [caller_of_begins hst] at hx
        cases hx
      · exact h.callers (by simpa [hf] using hn) hx
  · intro hv x hx
    rw [handed_append]
    refine List.mem_append_left _ (h.client (fun hnil => hv ?_) (h₁ ▸ hx))
    rw [visitors_snoc, hnil, List.nil_append]
    rcases h₃ with h₃ | ⟨-, h₃⟩
    · rw [h₃, fresh_self]
    · rw [h₃]; simp [fresh]

theorem Newcomers.later (hr : (machine t).Run ms s) (h : Newcomers ns s)
    (hp : s.perform a = some (s', e)) : Newcomers (ns ++ [⟨s, a, s', e⟩]) s' := by
  have hd := does_of_perform hp
  rcases hd.turn_or_aside with ⟨n, r, st, s₁, next, out, rfl, rfl, rfl, hs, ht⟩ | hne
  · exact h.turn hr hs ht
  · exact h.aside (sound_of_run hr) hd hne

/-- From a moment on at which there is a client, all that come bring their streams with them. -/
theorem newcomers_of_run (h : (machine t).Run (ms ++ m :: ns) s)
    (hc : m.before.client.isSome = true) : Newcomers (m :: ns) s := by
  obtain ⟨hr, -, hp, -⟩ := h.moment
  obtain ⟨c, hc⟩ := Option.isSome_iff_exists.mp hc
  have hopen : m.before.phase ≠ .closed := by
    intro hcl
    rw [(shut_of_run hr hcl).client] at hc
    cases hc
  have start : Newcomers [] m.before := by
    obtain ⟨o, hsv, -⟩ := serves_of_run hr hopen
    refine ⟨fun {n st x} hs hx => ?_, by simp [visitors]⟩
    have hst : st.serves = true := by cases st <;> first | rfl | cases hx
    rw [hsv.no_client hs hst] at hc
    cases hc
  have hrun : (machine t).Run ((ms ++ [m]) ++ ns) s := by simpa using h
  refine hrun.since (P := fun ns s => Newcomers (m :: ns) s) ?_ ?_
  · intro s₀ h₀
    obtain ⟨-, -, -, rfl⟩ := h₀.unsnoc
    exact start.later hr hp
  · intro ns s a s' e hr' _ hp' ih
    exact ih.later hr' hp'

theorem not_handed_since (h : (machine t).Run (ms ++ ns) s) (hx : x ∈ handed ms) :
    x ∉ handed ns := by
  refine h.since (P := fun ns _ => x ∉ handed ns) (by simp [handed]) ?_
  intro ns s a s' e _ ha _ ih hx'
  rw [handed_append, List.mem_append] at hx'
  rcases hx' with hx' | hx'
  · exact ih hx'
  · have ha : a.stream?.all (!(handed (ms ++ ns)).contains ·) = true := ha
    have hs : a.stream? = some x := by simpa [handed] using hx'
    simp [hs, hx] at ha

/-! ## Who takes the bytes -/

/-- A stream that takes bytes is that of the client that is there. -/
theorem attached_of_accepts (h : (machine t).Run (ms ++ [m]) s) (ha : Accepts m n y) :
    Attached m.before y := by
  obtain ⟨hr, -, hp, -⟩ := h.unsnoc
  obtain ⟨send, k, hs, hk, hact⟩ := ha
  have hS := sound_of_run hr
  have ho : m.before.link.isOpen = true := by
    rw [hact] at hp
    obtain ⟨⟨s₁, out⟩, hr', -⟩ := Option.map_eq_some_iff.mp hp
    obtain ⟨⟨l, result⟩, hw, -⟩ := Option.map_eq_some_iff.mp hr'
    obtain ⟨⟨q, result⟩, hq, -⟩ := Option.map_eq_some_iff.mp hw
    by_contra ho
    simp [WriteQueue.resume, hs, Send.resume, ho] at hq
  obtain ⟨c, x, hv⟩ := serving_of_open hr ho
  obtain rfl : x = y := Option.some.inj (hv.sink.symm.trans (hS.link.sends n y send hs))
  exact ⟨by rw [show m.before.client = some c from hv.client]; rfl, hv.stream⟩

/-- The stream that takes bytes later is the one that was there just if no client came since. -/
theorem attached_iff {m' : Moment} (h : (machine t).Run (ms ++ m :: (ns ++ [m'])) s)
    (ha : Attached m'.before y) : Attached m.before y ↔ visitors (m :: ns) = [] := by
  have hrun : (machine t).Run ((ms ++ m :: ns) ++ [m']) s := by simpa using h
  have hr : (machine t).Run (ms ++ m :: ns) m'.before := hrun.unsnoc.1
  obtain ⟨hc, hx⟩ := ha
  constructor
  · rintro ⟨hc₀, hx₀⟩
    by_contra hv
    have hy : y ∈ handed ms := handed_of_holds hr.moment.1 (.reader hx₀)
    exact not_handed_since hr hy ((newcomers_of_run hr hc₀).client hv hx)
  · intro hv
    obtain ⟨h₁, h₂⟩ := attached_since hr hv hc
    exact ⟨h₁ ▸ hc, h₂ ▸ hx⟩

/-! ## Writes without a client -/

theorem Does.queue (hS : s.Sound) (h : Does s a s' e)
    (hn : n ∈ s.link.queue.nodes.map (·.id)) :
    n ∈ s'.link.queue.nodes.map (·.id) ∨
      ∃ r, a = .step (.write n) r ∧ e.report.outcome.isSome = true := by
  cases h with
  | listen | read | disconnect | aside => exact .inl hn
  | @close _ background _ _ hp =>
      rw [close_eq hp]
      cases background <;> exact .inl hn
  | write =>
      left
      simp only [Link.write, WriteQueue.enqueue_ids]
      exact List.mem_append_left _ hn
  | @send id r link result hr =>
      obtain ⟨⟨q, result⟩, hq, he⟩ := Option.map_eq_some_iff.mp hr
      cases he
      rw [(WriteQueue.move_of_resume hq).ids hS.link.fifo, List.mem_append] at hn
      rcases hn with hn | hn
      · obtain ⟨res, rfl⟩ : ∃ res, result = some res := by
          cases result with
          | none => cases hn
          | some res => exact ⟨res, rfl⟩
        obtain rfl : n = id := by simpa using hn
        exact .inr ⟨r, rfl, rfl⟩
      · exact .inl hn
  | turn _ ht =>
      rw [place_link, ht.link.queue.1]
      exact .inl hn

theorem queued_or_resolved (h : (machine t).Run (ms ++ m :: ns) s)
    (hw : m.effect.started = some (.write n)) :
    n ∈ s.link.queue.nodes.map (·.id) ∨ Resolved (m :: ns) (.write n) := by
  have hrun : (machine t).Run ((ms ++ [m]) ++ ns) s := by simpa using h
  refine hrun.since (P := fun ns s => n ∈ s.link.queue.nodes.map (·.id) ∨
    Resolved (m :: ns) (.write n)) ?_ ?_
  · intro s₀ h₀
    obtain ⟨-, -, hp, -⟩ := h₀.unsnoc
    left
    generalize m.act = a at hp
    generalize m.effect = e at hp hw
    cases does_of_perform hp with
    | write =>
        cases hw
        simp [Link.write, WriteQueue.enqueue_ids]
    | listen | read | disconnect | close | aside | send | turn => cases hw
  · intro ns s a s' e hr _ hp ih
    rw [← List.cons_append, resolved_append]
    rcases ih with ih | ih
    · rcases (does_of_perform hp).queue (sound_of_run hr) ih with h | ⟨r, rfl, ho⟩
      · exact .inl h
      · exact .inr (.inr ⟨_, List.mem_singleton_self _, r, rfl, ho⟩)
    · exact .inr (.inl ih)

/-- A write that was not let through, and whatever came of it. -/
structure Refused (n : Nat) (ns : List Moment) (s : Server) : Prop where
  start : ∀ st, s.link.queue.stage? n = some st → ∃ bytes, st = .start bytes
  closed : ∀ m ∈ ns, ∀ r o, m.act = .step (.write n) r → m.effect.report.outcome = some o →
    o = .failed (.write .closed)

theorem refused_of_move {q q' : WriteQueue} {result : Option (Except WriteError Nat)}
    (hf : WriteQueue.Fifo q) (hm : WriteQueue.Move q false id r q' result)
    (hs : ∀ st, q.stage? n = some st → ∃ bytes, st = .start bytes) :
    (∀ st, q'.stage? n = some st → ∃ bytes, st = .start bytes) ∧
      (id = n → result = some (.error .closed)) := by
  have other : ∀ {st}, q.stage? id = some st → (∀ bytes, st ≠ .start bytes) → id ≠ n := by
    rintro st hi hst rfl
    obtain ⟨bytes, rfl⟩ := hs st hi
    exact hst bytes rfl
  cases hm with
  | line _ ho => cases ho
  | refuse hi =>
      obtain ⟨-, -, -, ho⟩ := hf.complete hi
      exact ⟨fun st => ho n st, fun _ => rfl⟩
  | take hi | send hi =>
      have hne := other hi (by simp)
      refine ⟨fun st hst => ?_, fun he => absurd he hne⟩
      rw [WriteQueue.stage?_setStage hf hi, if_neg (Ne.symm hne)] at hst
      cases hst
  | miss hi | finish hi =>
      have hf' : WriteQueue.Fifo { q with lock := q.lock.leave } := hf.congr rfl rfl rfl
      obtain ⟨-, -, -, ho⟩ := hf'.complete hi
      exact ⟨fun st => ho n st, fun he => absurd he (other hi (by simp))⟩

theorem Refused.later (hr : (machine t).Run ms s) (h : Refused n ns s) (hc : s.client = none)
    (hp : s.perform a = some (s', e)) : Refused n (ns ++ [⟨s, a, s', e⟩]) s' := by
  have hS := sound_of_run hr
  have hopen : s.link.isOpen = false := by
    by_contra ho
    obtain ⟨c, x, hv⟩ := serving_of_open hr (by simpa using ho)
    cases hc.symm.trans hv.client
  obtain ⟨hstart, hclosed⟩ := h
  have hd := does_of_perform hp
  have same : s'.link.queue.tasks = s.link.queue.tasks → (∀ r, a ≠ .step (.write n) r) →
      Refused n (ns ++ [⟨s, a, s', e⟩]) s' := by
    intro ht ha
    refine ⟨?_, ?_⟩
    · unfold WriteQueue.stage? at hstart ⊢
      rwa [ht]
    · intro m hm r o hact ho
      rcases List.mem_append.mp hm with hm | hm
      · exact hclosed m hm r o hact ho
      · obtain rfl := List.mem_singleton.mp hm
        exact absurd hact (ha r)
  cases hd with
  | listen | read | disconnect => exact same rfl (by simp)
  | aside h => exact same rfl fun r => h _ r
  | @close _ background _ hact hopen' =>
      refine same ?_ (by rcases hact with rfl | rfl <;> simp)
      rw [close_eq hopen']
      cases background <;> rfl
  | @write bytes =>
      refine ⟨?_, ?_⟩
      · intro st hst
        rcases Link.stage?_enqueue hS.link.fifo bytes n with he | ⟨-, he⟩
        · exact hstart st (he ▸ hst)
        · exact ⟨bytes, Option.some.inj (hst.symm.trans he)⟩
      · intro m hm r o hact ho
        rcases List.mem_append.mp hm with hm | hm
        · exact hclosed m hm r o hact ho
        · obtain rfl := List.mem_singleton.mp hm
          cases hact
  | @send id r link result hr' =>
      obtain ⟨⟨q, result⟩, hq, he⟩ := Option.map_eq_some_iff.mp hr'
      cases he
      rw [hopen] at hq
      obtain ⟨h₁, h₂⟩ := refused_of_move hS.link.fifo (WriteQueue.move_of_resume hq) hstart
      refine ⟨h₁, ?_⟩
      intro m hm r' o hact ho
      rcases List.mem_append.mp hm with hm | hm
      · exact hclosed m hm r' o hact ho
      · obtain rfl := List.mem_singleton.mp hm
        cases hact
        rw [h₂ rfl] at ho
        exact (Option.some.inj ho).symm
  | turn _ ht => exact same (by rw [place_link]; exact ht.link.queue.2) (by simp)

theorem no_client_since (h : (machine t).Run (ms ++ m :: ns) s) (hc : m.before.client = none)
    (hv : visitors (m :: ns) = []) : s.client = none := by
  by_contra hs
  have hs := (attached_since h hv (Option.isSome_iff_ne_none.mpr hs)).1.trans hc
  contradiction

/-- A write that is asked for without a client is not let through while none comes. -/
theorem refused_of_run (h : (machine t).Run (ms ++ m :: ns) s)
    (hw : m.effect.started = some (.write n)) (hc : m.before.client = none)
    (hv : visitors (m :: ns) = []) : Refused n ns s := by
  have hrun : (machine t).Run ((ms ++ [m]) ++ ns) s := by simpa using h
  refine hrun.since (P := fun ns s => visitors (m :: ns) = [] → Refused n ns s) ?_ ?_ hv
  · intro s₀ h₀ _
    obtain ⟨hr, -, hp, -⟩ := h₀.unsnoc
    have hS := sound_of_run hr
    refine ⟨?_, by simp⟩
    generalize m.act = a at hp
    generalize m.effect = e at hp hw
    cases does_of_perform hp with
    | @write bytes =>
        cases hw
        intro st hst
        rcases Link.stage?_enqueue hS.link.fifo bytes m.before.link.queue.nextId with he | ⟨-, he⟩
        · obtain ⟨rest, hn, -, -, hi⟩ := WriteQueue.stage?_eq_some hS.link.fifo (he ▸ hst)
          omega
        · exact ⟨bytes, Option.some.inj (hst.symm.trans he)⟩
    | listen | read | disconnect | close | aside | send | turn => cases hw
  · intro ns s a s' e hr _ hp ih hv
    rw [← List.cons_append, visitors_snoc, List.append_eq_nil_iff] at hv
    have hr' : (machine t).Run (ms ++ m :: ns) s := by simpa using hr
    exact (ih hv.1).later hr (no_client_since hr' hc hv.1) hp

/-- At rest no write is left at a closed link that no stream is shut down at. -/
theorem Rests.no_writes (hr : s.Rests Unshut) (hS : s.Sound) (ho : s.link.isOpen = false) :
    s.link.queue.nodes = [] := by
  refine hr.link.no_writes hS.link ho fun m x ha => ?_
  obtain ⟨st, hs, hact⟩ := Option.bind_eq_some_iff.mp ha
  have hask : s.ask (.task m) = .call (.shutdown x) := by
    rw [ask_task hs, askStage_activity s m hact]
    rfl
  exact hr.call hask

/-- The bytes of a write go to the client that was there when it was asked for just if none came
since. Without a client it is refused, unless one comes. -/
theorem accepted_iff_no_visitors (h : (machine t).Run (ms ++ m :: ns) s)
    (hw : m.effect.started = some (.write n)) :
    (∀ as m' bs y, ns = as ++ m' :: bs → Accepts m' n y →
      (Attached m.before y ↔ visitors (m :: as) = [])) ∧
    (m.before.client = none → visitors (m :: ns) = [] →
      (∀ m' ∈ ns, ∀ r o, m'.act = .step (.write n) r → m'.effect.report.outcome = some o →
        o = .failed (.write .closed)) ∧
      (s.Rests Unshut → Resolved (m :: ns) (.write n))) := by
  refine ⟨?_, ?_⟩
  · rintro as m' bs y rfl ha
    have hrun : (machine t).Run ((ms ++ m :: as) ++ m' :: bs) s := by simpa using h
    have hrun' := hrun.moment.2.2.2
    exact attached_iff (by simpa using hrun') (attached_of_accepts hrun' ha)
  · intro hc hv
    refine ⟨(refused_of_run h hw hc hv).closed, fun hr => ?_⟩
    have hopen : s.link.isOpen = false := by
      by_contra ho
      obtain ⟨c, x, hsv⟩ := serving_of_open h (by simpa using ho)
      cases (no_client_since h hc hv).symm.trans hsv.client
    refine (queued_or_resolved h hw).resolve_left ?_
    simp [hr.no_writes (sound_of_run h) hopen]

theorem started_of_write {bytes : Bytes} (h : (machine t).Run (ms ++ m :: ns) s)
    (ha : m.act = .write bytes) :
    m.effect.started = some (.write m.before.link.queue.nextId) := by
  obtain ⟨-, -, hp, -⟩ := h.moment
  rw [ha] at hp
  exact congrArg Effect.started (Prod.mk.inj (Option.some.inj hp)).2.symm

/-- A write whose bytes the client takes that it was meant for. -/
theorem accepted_by_client : ∃ ms m as m' bs s, (machine {}).Run (ms ++ m :: (as ++ m' :: bs)) s ∧
    m.effect.started = some (.write 0) ∧ Accepts m' 0 7 ∧ visitors (m :: as) = [] ∧
    Attached m.before 7 := by
  let acts : List Act := arrival ++ .write [1] :: [.step (.write 0) .go, .step (.write 0) .go]
  obtain ⟨l, s, hp, -⟩ := Machine.exists_of_play (machine {})
    (acts ++ .step (.write 0) (.wrote (.ok 1)) :: []) (fun _ _ => true)
    (by decide +kernel)
  obtain ⟨l₁, s₁, hp₁, hs₁⟩ := Machine.exists_of_play (machine {}) acts
    (fun ms s => visitors ms = [⟨1, .any⟩] ∧
      s.link.queue.stage? 0 = some (.sending 7 ⟨[1], 0⟩)) (by decide +kernel)
  obtain ⟨ms, s₀, hp₀, hs₀⟩ := Machine.exists_of_play (machine {}) arrival
    (fun ms s => visitors ms = [⟨1, .any⟩] ∧ s.link.queue.nextId = 0) (by decide +kernel)
  obtain ⟨hv₁, hsend⟩ := of_decide_eq_true hs₁
  obtain ⟨hv₀, hid⟩ := of_decide_eq_true hs₀
  obtain ⟨_, m', bs, rfl, hact', hm'⟩ := Machine.moment_of_play hp
  obtain ⟨_, m, as, rfl, hact, hm⟩ := Machine.moment_of_play hm'
  cases hp₁.symm.trans hm'
  cases hp₀.symm.trans hm
  have hrun : (machine {}).Run (ms ++ m :: (as ++ m' :: bs)) s := by
    simpa using Machine.run_of_play hp
  have hw : m.effect.started = some (.write 0) := hid ▸ started_of_write hrun hact
  have haccepts : Accepts m' 0 7 := ⟨_, 1, hsend, Nat.one_pos, hact'⟩
  have hv : visitors (m :: as) = [] := by
    rw [visitors_append, hv₀] at hv₁
    exact (List.cons.inj hv₁).2
  exact ⟨ms, m, as, m', bs, s, hrun, hw, haccepts, hv,
    ((accepted_iff_no_visitors hrun hw).1 as m' bs 7 rfl haccepts).mpr hv⟩

/-- A write whose bytes the next client takes. -/
theorem accepted_by_next_client : ∃ ms m as m' bs s,
    (machine {}).Run (ms ++ m :: (as ++ m' :: bs)) s ∧ m.effect.started = some (.write 0) ∧
    Attached m.before 7 ∧ Accepts m' 0 8 ∧ ¬ Attached m.before 8 := by
  let acts : List Act := arrival ++ .write [1] :: [
    .disconnectClient, .step (.task 2) .go, .step (.task 2) .go, .step (.task 2) .go,
    .step (.task 2) .shutDown, .step (.task 2) .go, .step (.task 2) (.registered (.ok 1)),
    .step (.task 3) .go, .step (.task 3) (.accepted (.ok (8, .any))), .step (.task 3) .go,
    .step (.task 3) .withdrawn, .step (.task 3) .go, .step (.task 3) .go,
    .step (.write 0) .go, .step (.write 0) .go]
  obtain ⟨l, s, hp, -⟩ := Machine.exists_of_play (machine {})
    (acts ++ .step (.write 0) (.wrote (.ok 1)) :: []) (fun _ _ => true)
    (by decide +kernel)
  obtain ⟨l₁, s₁, hp₁, hs₁⟩ := Machine.exists_of_play (machine {}) acts
    (fun _ s => s.link.queue.stage? 0 = some (.sending 8 ⟨[1], 0⟩)) (by decide +kernel)
  obtain ⟨ms, s₀, hp₀, hs₀⟩ := Machine.exists_of_play (machine {}) arrival
    (fun _ s => s.client.isSome ∧ s.link.stream = some 7 ∧ s.link.queue.nextId = 0)
    (by decide +kernel)
  have hsend := of_decide_eq_true hs₁
  obtain ⟨hc, hx, hid⟩ := of_decide_eq_true hs₀
  obtain ⟨_, m', bs, rfl, hact', hm'⟩ := Machine.moment_of_play hp
  obtain ⟨_, m, as, rfl, hact, hm⟩ := Machine.moment_of_play hm'
  cases hp₁.symm.trans hm'
  cases hp₀.symm.trans hm
  have hrun : (machine {}).Run (ms ++ m :: (as ++ m' :: bs)) s := by
    simpa using Machine.run_of_play hp
  refine ⟨ms, m, as, m', bs, s, hrun, hid ▸ started_of_write hrun hact, ⟨hc, hx⟩,
    ⟨_, 1, hsend, Nat.one_pos, hact'⟩, ?_⟩
  rintro ⟨-, hx'⟩
  rw [hx] at hx'
  cases hx'

end Rfcomm.Server
