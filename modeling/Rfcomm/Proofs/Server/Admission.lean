import Rfcomm.Proofs.Server.Listening
/-!
What becomes of the callers that a server takes. Each is on the hands of one task until it is attached
or sent away, and they are attached in the order in which they came; all come from one listener.
-/
namespace Rfcomm.Server

/-- The caller that a task has on its hands. -/
def callers (s : Server) (n : Nat) : Option StreamId := (s.stage? n).bind Stage.caller?

/-- The streams of the clients that came, the first first. -/
def joined (ms : List Moment) : List StreamId :=
  ms.flatMap fun m =>
    if m.before.client.isNone && m.after.client.isSome then m.after.link.stream.toList else []

/-- A caller was let go of: as a client, or because the server was closed before it was one. -/
inductive Left (ms : List Moment) (x : StreamId) : Prop
  | released {m} : m ∈ ms → Attached m.before x → m.after.client = none → Left ms x
  | refused {m n address k} : m ∈ ms → m.before.stage? n = some (.attaching address k) →
      k.stream = x → m.before.phase = .closed → m.after.stage? n = some (.refusing .reader) →
      Left ms x

/-- What an act does with the callers. -/
inductive Admits (s : Server) (a : Act) (s' : Server) : Prop
  /-- A caller comes. -/
  | take {n x} : a.stream? = some x → s.callers n = none →
      s'.callers = Function.update s.callers n (some x) → s'.client = s.client →
      s'.link = s.link → (s.phase ≠ .closed → ∀ m, s.callers m = none) → Admits s a s'
  /-- A caller becomes the client. -/
  | join {n x} : a.stream? = none → s.phase ≠ .closed → s.callers n = some x →
      s'.callers = Function.update s.callers n none → s.client = none → s'.Attached x →
      Admits s a s'
  /-- A caller is sent away. -/
  | refuse {n address k} : a.stream? = none → s.phase = .closed →
      s.stage? n = some (.attaching address k) → s'.stage? n = some (.refusing .reader) →
      s'.callers = Function.update s.callers n none → s'.client = none → Admits s a s'
  | aside : a.stream? = none → s'.callers = s.callers →
      (s'.client = none ∨ s'.client = s.client ∧ s'.link.stream = s.link.stream) → Admits s a s'

variable {s s' s₁ : Server} {id n m : Nat} {stage st : Stage} {next : Option Stage} {r : Reply}
  {out : Report} {a : Act} {e : Effect} {ms ns : List Moment} {x : StreamId} {t : Config.Tuning}
  {l l' : ListenerId}

/-! ## Callers -/

theorem callers_of_stage (hs : s.stage? n = some stage) : s.callers n = stage.caller? := by
  simp [callers, hs]

theorem exists_of_callers (h : s.callers n = some x) :
    ∃ st, s.stage? n = some st ∧ st.caller? = some x := Option.bind_eq_some_iff.mp h

theorem Turn.of_stream? (h : Turn s id stage r s₁ next out)
    (hx : (Act.step (.task id) r).stream? = some x) : ∃ l, stage = .accepting l := by
  obtain ⟨_, hn⟩ := h.brings hx
  obtain ⟨_, rfl⟩ := accepted_of_stream? hx
  cases h with
  | accept => exact ⟨_, rfl⟩
  | look h | withdraw h => cases h
  | _ => cases hn

/-- What becomes of the caller of a task that goes on. -/
theorem Turn.of_callers (h : Turn s id stage r s₁ next out) :
    (Act.step (.task id) r).stream? = none ∧ next.bind Stage.caller? = stage.caller? ∨
      (∃ l x, stage = .accepting l ∧ (Act.step (.task id) r).stream? = some x ∧
        next.bind Stage.caller? = some x ∧ s₁.client = s.client ∧ s₁.link = s.link) ∨
      (∃ address k, stage = .attaching address k ∧ r = .go ∧ s.phase = .closed ∧
        next = some (.refusing .reader) ∧ s₁.client = s.client) ∨
      ∃ address k, stage = .attaching address k ∧ r = .go ∧ s.phase ≠ .closed ∧ next = none ∧
        s₁.Attached k.stream := by
  have quiet : (∀ l, stage ≠ .accepting l) → (Act.step (.task id) r).stream? = none := by
    intro hst
    by_contra hx
    obtain ⟨x, hx⟩ := Option.ne_none_iff_exists'.mp hx
    obtain ⟨l, hl⟩ := h.of_stream? hx
    exact hst l hl
  cases h with
  | accept => exact .inr (.inl ⟨_, _, rfl, rfl, rfl, rfl, rfl⟩)
  | stumble => exact .inl ⟨rfl, rfl⟩
  | look h =>
      refine .inl ⟨?_, ?_⟩
      · cases h <;> rfl
      · cases h <;> cases s.listener <;> rfl
  | refuse h hp =>
      exact .inr (.inr (.inl ⟨_, _, rfl, Link.reply_of_resumeAttach h, hp, rfl, rfl⟩))
  | @welcome address k _ _ _ h hp =>
      refine .inr (.inr (.inr ⟨_, _, rfl, Link.reply_of_resumeAttach h, hp, rfl, ?_⟩))
      rw [emit_fst]
      cases Link.move_of_resumeAttach h with
      | attach => exact ⟨rfl, rfl⟩
  | @attach address k _ _ _ h =>
      refine .inl ⟨quiet (by simp), ?_⟩
      cases Link.move_of_resumeAttach h with
      | haveReader => rfl
  | _ => exact .inl ⟨quiet (by simp), rfl⟩

theorem Turn.callers_place (h : Turn s id stage r s₁ next out) (hS : s.Sound)
    (hs : s.stage? id = some stage) :
    (s₁.place id next).callers = Function.update s.callers id (next.bind Stage.caller?) := by
  funext m
  by_cases hm : m = id
  · subst hm
    rw [Function.update_self, callers, h.mine hS hs]
  · rw [Function.update_of_ne hm, callers, callers]
    rcases (h.table_place hS.tidy hs).2 with ⟨-, he⟩ | ⟨-, he⟩ <;> rw [he, Function.update_of_ne hm]
    by_cases hf : m = s.nextTask
    · subst hf
      rw [Function.update_self, hS.fresh]
      rfl
    · rw [Function.update_of_ne hf]

theorem Does.callers_aside (hS : s.Sound) (h : Does s a s' e) (ha : ∀ n r, a ≠ .step (.task n) r) :
    s'.callers = s.callers := by
  funext m
  rcases (h.table hS).resolve_left fun ⟨n, r, he⟩ => ha n r he with he | ⟨st, he, hb, -⟩
  · rw [callers, he, callers]
  · rw [callers, he, callers]
    by_cases hf : m = s.nextTask
    · subst hf
      rw [Function.update_self, hS.fresh]
      exact caller_of_begins hb
    · rw [Function.update_of_ne hf]

/-- A server that was not closed has no other callers while one is waited for, and none while there is
a client. -/
theorem no_callers (h : (machine t).Run ms s) (hp : s.phase ≠ .closed) :
    (∀ n st, s.stage? n = some st → st.accepts = true → s.client = none ∧
      ∀ m, m ≠ n → s.callers m = none) ∧
    (s.client.isSome = true → ∀ m, s.callers m = none) := by
  obtain ⟨o, hv, -⟩ := serves_of_run h hp
  refine ⟨fun n st hs hst => ⟨hv.no_client hs (serves_of_accepts hst), fun m hm => ?_⟩,
    fun hc m => ?_⟩
  · by_contra hx
    obtain ⟨x, hx⟩ := Option.ne_none_iff_exists'.mp hx
    obtain ⟨st', hs', hst'⟩ := exists_of_callers hx
    have := ((hv.1.others hs (serves_of_accepts hst)).2 m st' hs' hm).1
    rw [serves_of_accepts (accepts_of_caller hst')] at this
    cases this
  · by_contra hx
    obtain ⟨x, hx⟩ := Option.ne_none_iff_exists'.mp hx
    obtain ⟨st', hs', hst'⟩ := exists_of_callers hx
    obtain ⟨c, hc⟩ := Option.isSome_iff_exists.mp hc
    have := (hv.none_serves hc hs').1
    rw [serves_of_accepts (accepts_of_caller hst')] at this
    cases this

theorem not_closed_of_attached (h : (machine t).Run ms s) (ha : s.Attached x) :
    s.phase ≠ .closed := by
  intro hp
  have := ha.1
  rw [(shut_of_run h hp).client] at this
  cases this

/-- Every act does one of four things with the callers. -/
theorem admits_of_perform (hr : (machine t).Run ms s) (ha : (machine t).allows ms a = true)
    (hp : s.perform a = some (s', e)) : Admits s a s' := by
  have hS := sound_of_run hr
  have hd := does_of_perform hp
  have client : s'.client = s.client ∨ s'.client = none → s'.client = none ∨
      s'.client = s.client ∧ s'.link.stream = s.link.stream := by
    rintro (hc | hc)
    · cases hc' : s'.client with
      | none => exact .inl rfl
      | some c =>
          refine .inr (hc' ▸ attached_before hr ha hp (by rw [hc, fresh_self]) (by simp [hc']))
    · exact .inl hc
  rcases hd.turn_or_aside with ⟨n, r, st, s₁, next, out, rfl, rfl, rfl, hs, ht⟩ | hne
  · have hcallers := ht.callers_place hS hs
    rcases ht.of_callers with ⟨hx, hc⟩ | ⟨l, x, rfl, hx, hc, hcl, hl⟩ |
      ⟨address, k, rfl, rfl, hph, rfl, hcl⟩ | ⟨address, k, rfl, rfl, hph, rfl, hat⟩
    · refine .aside hx ?_ (client ?_)
      · rw [hcallers, hc, ← callers_of_stage hs, Function.update_eq_self]
      · rw [place_client]
        rcases ht.client with ⟨-, hcl⟩ | ⟨-, hph, address, k, rfl⟩
        · exact hcl
        · cases ht with
          | look h => cases h
          | attach => exact .inl rfl
          | refuse _ hc' => exact absurd hc' hph
          | welcome => cases hc
    · rw [hc] at hcallers
      refine .take hx (callers_of_stage hs) hcallers (by rw [place_client, hcl])
        (by rw [place_link, hl]) fun hph m => ?_
      by_cases hm : m = n
      · subst hm
        exact callers_of_stage hs
      · exact ((no_callers hr hph).1 n _ hs rfl).2 m hm
    · refine .refuse rfl hph hs (ht.mine hS hs) hcallers ?_
      rw [place_client, hcl, (shut_of_run hr hph).client]
    · refine .join rfl hph (callers_of_stage hs) hcallers ((no_callers hr hph).1 n _ hs rfl).1 ?_
      rw [Attached, place_client, place_link]
      exact hat
  · exact .aside (hd.brings hne) (hd.callers_aside hS hne)
      (client ((hd.quiet hS hne).2.2.1.imp_right And.right))

/-! ## Where a caller is that was taken -/

/-- Every caller that was taken is at one place: a task has it, it is the client, or it was let go
of. -/
structure Settled (ms : List Moment) (s : Server) : Prop where
  taken : ∀ x, x ∈ handed ms ↔ (∃ n, s.callers n = some x) ∨ s.Attached x ∨ Left ms x
  gone : ∀ {x}, Left ms x → (∀ n, s.callers n ≠ some x) ∧ ¬ s.Attached x
  order : (joined ms).Sublist (handed ms)
  next : s.phase ≠ .closed → ∀ {n x}, s.callers n = some x →
    (joined ms ++ [x]).Sublist (handed ms)

theorem left_append (h : Left ms x) : Left (ms ++ ns) x := by
  cases h with
  | released hm ha hc => exact .released (List.mem_append_left _ hm) ha hc
  | refused hm hs hk hp hr => exact .refused (List.mem_append_left _ hm) hs hk hp hr

/-- A caller is let go of in the last moment, or was before. -/
theorem left_snoc {k : Moment} : Left (ms ++ [k]) x ↔ Left ms x ∨
    (k.before.Attached x ∧ k.after.client = none) ∨
    ∃ n address j, k.before.stage? n = some (.attaching address j) ∧ j.stream = x ∧
      k.before.phase = .closed ∧ k.after.stage? n = some (.refusing .reader) := by
  constructor
  · intro h
    cases h with
    | released hm ha hc =>
        rcases List.mem_append.mp hm with hm | hm
        · exact .inl (.released hm ha hc)
        · obtain rfl := List.mem_singleton.mp hm
          exact .inr (.inl ⟨ha, hc⟩)
    | refused hm hs hk hp hr =>
        rcases List.mem_append.mp hm with hm | hm
        · exact .inl (.refused hm hs hk hp hr)
        · obtain rfl := List.mem_singleton.mp hm
          exact .inr (.inr ⟨_, _, _, hs, hk, hp, hr⟩)
  · have mem : k ∈ ms ++ [k] := List.mem_append_right _ (List.mem_singleton_self _)
    rintro (h | ⟨ha, hc⟩ | ⟨n, address, j, hs, hj, hp, hr⟩)
    · exact left_append h
    · exact .released mem ha hc
    · exact .refused mem hs hj hp hr

theorem joined_snoc {k : Moment} : joined (ms ++ [k]) = joined ms ++
    if k.before.client.isNone && k.after.client.isSome then k.after.link.stream.toList else [] := by
  simp [joined]

theorem handed_snoc {k : Moment} : handed (ms ++ [k]) = handed ms ++ k.act.stream?.toList := by
  rw [handed_append]
  cases hk : k.act.stream? <;> simp [handed, hk]

section Next

variable (h : Settled ms s)

include h

theorem Settled.take (hx : a.stream? = some x) (hfresh : x ∉ handed ms) (hn : s.callers n = none)
    (hcall : s'.callers = Function.update s.callers n (some x)) (hcl : s'.client = s.client)
    (hl : s'.link = s.link) (hopen : s.phase ≠ .closed → ∀ m, s.callers m = none)
    (hp : s'.phase ≠ .closed → s.phase ≠ .closed) : Settled (ms ++ [⟨s, a, s', e⟩]) s' := by
  have hhanded : handed (ms ++ [⟨s, a, s', e⟩]) = handed ms ++ [x] := by rw [handed_snoc, hx]; rfl
  have hjoined : joined (ms ++ [⟨s, a, s', e⟩]) = joined ms := by
    rw [joined_snoc, hcl]
    cases s.client <;> exact List.append_nil _
  have hatt : ∀ y, s'.Attached y ↔ s.Attached y := fun y => by rw [Attached, hcl, hl, Attached]
  have hcallers : ∀ m y, s'.callers m = some y ↔ s.callers m = some y ∨ m = n ∧ y = x := by
    intro m y
    rw [hcall]
    by_cases hm : m = n
    · subst hm
      simp [hn, eq_comm]
    · simp [hm]
  have hleft : ∀ y, Left (ms ++ [⟨s, a, s', e⟩]) y ↔ Left ms y := by
    intro y
    refine left_snoc.trans ⟨fun hy => hy.resolve_right ?_, .inl⟩
    rintro (⟨ha, hc⟩ | ⟨m, address, k, hs, -, -, hs'⟩)
    · cases ((hatt y).mpr ha).1.symm.trans (congrArg Option.isSome hc)
    · have := (hcallers m _).mpr (.inl (callers_of_stage hs))
      rw [callers_of_stage hs'] at this
      cases this
  have hnot : ¬ Left ms x := fun hy => hfresh ((h.taken x).mpr (.inr (.inr hy)))
  refine ⟨fun y => ?_, fun {y} hy => ?_, ?_, fun hc {m y} hm => ?_⟩
  · rw [hhanded, List.mem_append, List.mem_singleton, h.taken, hatt, hleft]
    simp only [hcallers]
    constructor
    · rintro ((⟨m, hm⟩ | hy) | rfl)
      · exact .inl ⟨m, .inl hm⟩
      · exact .inr hy
      · exact .inl ⟨n, .inr ⟨rfl, rfl⟩⟩
    · rintro (⟨m, hm | ⟨-, rfl⟩⟩ | hy)
      · exact .inl (.inl ⟨m, hm⟩)
      · exact .inr rfl
      · exact .inl (.inr hy)
  · rw [hleft] at hy
    rw [hatt]
    refine ⟨fun m hm => ?_, (h.gone hy).2⟩
    rcases (hcallers m y).mp hm with hm | ⟨-, rfl⟩
    · exact (h.gone hy).1 m hm
    · exact hnot hy
  · rw [hjoined, hhanded]
    exact h.order.trans (List.sublist_append_left _ _)
  · rw [hjoined, hhanded]
    rcases (hcallers m y).mp hm with hm | ⟨-, rfl⟩
    · rw [hopen (hp hc) m] at hm
      cases hm
    · exact h.order.append_right _

theorem Settled.join (hx : a.stream? = none) (hn : s.callers n = some x)
    (hcall : s'.callers = Function.update s.callers n none) (hcl : s.client = none)
    (hat : s'.Attached x) (hopen : s.phase ≠ .closed) (hnone : ∀ m, s'.callers m = none) :
    Settled (ms ++ [⟨s, a, s', e⟩]) s' := by
  have hhanded : handed (ms ++ [⟨s, a, s', e⟩]) = handed ms := by
    rw [handed_snoc, hx]
    exact List.append_nil _
  have hjoined : joined (ms ++ [⟨s, a, s', e⟩]) = joined ms ++ [x] := by
    rw [joined_snoc, hcl, hat.1, hat.2]
    rfl
  have hbare : ∀ y, ¬ s.Attached y := fun y hy => by
    have := hy.1
    rw [hcl] at this
    cases this
  have hatt : ∀ y, s'.Attached y ↔ y = x := fun y =>
    ⟨fun hy => Option.some.inj (hy.2.symm.trans hat.2), fun hy => hy ▸ hat⟩
  have hleft : ∀ y, Left (ms ++ [⟨s, a, s', e⟩]) y ↔ Left ms y := by
    intro y
    refine left_snoc.trans ⟨fun hy => hy.resolve_right ?_, .inl⟩
    rintro (⟨ha, -⟩ | ⟨_, _, _, -, -, hp, -⟩)
    · exact hbare y ha
    · exact hopen hp
  have hold : ∀ m y, s.callers m = some y → y = x := by
    intro m y hm
    by_cases hmn : m = n
    · subst hmn
      exact Option.some.inj (hm.symm.trans hn)
    · have := hnone m
      rw [hcall, Function.update_of_ne hmn, hm] at this
      cases this
  refine ⟨fun y => ?_, fun {y} hy => ⟨fun m hm => ?_, fun hy' => ?_⟩, ?_, fun _ {m y} hm => ?_⟩
  · rw [hhanded, h.taken, hatt, hleft]
    constructor
    · rintro (⟨m, hm⟩ | hy | hy)
      · exact .inr (.inl (hold m y hm))
      · exact absurd hy (hbare y)
      · exact .inr (.inr hy)
    · rintro (⟨m, hm⟩ | rfl | hy)
      · cases (hnone m).symm.trans hm
      · exact .inl ⟨n, hn⟩
      · exact .inr (.inr hy)
  · cases (hnone m).symm.trans hm
  · obtain rfl := (hatt y).mp hy'
    exact (h.gone ((hleft y).mp hy)).1 n hn
  · rw [hjoined, hhanded]
    exact h.next hopen hn
  · cases (hnone m).symm.trans hm

theorem Settled.refuse {address : Address} {k : Link.Attach} (hx : a.stream? = none)
    (hclosed : s.phase = .closed) (hs : s.stage? n = some (.attaching address k))
    (hs' : s'.stage? n = some (.refusing .reader))
    (hcall : s'.callers = Function.update s.callers n none) (hcl : s.client = none)
    (hcl' : s'.client = none) (hp : s'.phase = .closed)
    (hapart : ∀ m, s.callers m = some k.stream → m = n) : Settled (ms ++ [⟨s, a, s', e⟩]) s' := by
  have hn : s.callers n = some k.stream := callers_of_stage hs
  have hhanded : handed (ms ++ [⟨s, a, s', e⟩]) = handed ms := by
    rw [handed_snoc, hx]
    exact List.append_nil _
  have hjoined : joined (ms ++ [⟨s, a, s', e⟩]) = joined ms := by
    rw [joined_snoc, hcl']
    simp
  have hbare : ∀ (s : Server) y, s.client = none → ¬ s.Attached y := fun s y hc hy => by
    have := hy.1
    rw [hc] at this
    cases this
  have hcallers : ∀ m y, s'.callers m = some y ↔ s.callers m = some y ∧ y ≠ k.stream := by
    intro m y
    rw [hcall]
    by_cases hm : m = n
    · subst hm
      simp [hn, eq_comm]
    · rw [Function.update_of_ne hm]
      refine ⟨fun hy => ⟨hy, ?_⟩, And.left⟩
      rintro rfl
      exact hm (hapart m hy)
  have hleft : ∀ y, Left (ms ++ [⟨s, a, s', e⟩]) y ↔ Left ms y ∨ y = k.stream := by
    intro y
    refine left_snoc.trans ⟨?_, ?_⟩
    · rintro (hy | ⟨ha, -⟩ | ⟨m, _, j, hm, rfl, -, hm'⟩)
      · exact .inl hy
      · exact absurd ha (hbare s y hcl)
      · refine .inr (not_not.mp fun hne => ?_)
        have := (hcallers m _).mpr ⟨callers_of_stage hm, hne⟩
        rw [callers_of_stage hm'] at this
        cases this
    · rintro (hy | rfl)
      · exact .inl hy
      · exact .inr (.inr ⟨n, address, k, hs, rfl, hclosed, hs'⟩)
  refine ⟨fun y => ?_, fun {y} hy => ⟨fun m hm => ?_, hbare s' y hcl'⟩, ?_, fun hc => absurd hp hc⟩
  · rw [hhanded, h.taken, hleft]
    simp only [hcallers]
    constructor
    · rintro (⟨m, hm⟩ | hy | hy)
      · by_cases hy : y = k.stream
        · exact .inr (.inr (.inr hy))
        · exact .inl ⟨m, hm, hy⟩
      · exact absurd hy (hbare s y hcl)
      · exact .inr (.inr (.inl hy))
    · rintro (⟨m, hm, -⟩ | hy | hy | rfl)
      · exact .inl ⟨m, hm⟩
      · exact absurd hy (hbare s' y hcl')
      · exact .inr (.inr hy)
      · exact .inl ⟨n, hn⟩
  · obtain ⟨hm, hne⟩ := (hcallers m y).mp hm
    exact (h.gone (((hleft y).mp hy).resolve_right hne)).1 m hm
  · rw [hjoined, hhanded]
    exact h.order

theorem Settled.aside (hx : a.stream? = none) (hcall : s'.callers = s.callers)
    (hcl : s'.client = none ∨ s'.client = s.client ∧ s'.link.stream = s.link.stream)
    (hatt : ∀ y, s.Attached y → ∀ m, s.callers m = none)
    (hp : s'.phase ≠ .closed → s.phase ≠ .closed) : Settled (ms ++ [⟨s, a, s', e⟩]) s' := by
  have hhanded : handed (ms ++ [⟨s, a, s', e⟩]) = handed ms := by
    rw [handed_snoc, hx]
    exact List.append_nil _
  have hjoined : joined (ms ++ [⟨s, a, s', e⟩]) = joined ms := by
    rw [joined_snoc]
    rcases hcl with hcl | ⟨hcl, -⟩ <;> rw [hcl]
    · simp
    · cases s.client <;> exact List.append_nil _
  have hatt' : ∀ y, s'.Attached y ↔ s.Attached y ∧ s'.client ≠ none := by
    intro y
    rcases hcl with hcl | ⟨hcl, hst⟩
    · simp [Attached, hcl]
    · rw [Attached, hcl, hst, Attached]
      exact ⟨fun hy => ⟨hy, Option.isSome_iff_ne_none.mp hy.1⟩, And.left⟩
  have hleft : ∀ y, Left (ms ++ [⟨s, a, s', e⟩]) y ↔ Left ms y ∨ s.Attached y ∧ s'.client = none := by
    intro y
    refine left_snoc.trans ⟨?_, ?_⟩
    · rintro (hy | hy | ⟨m, _, j, hm, -, -, hm'⟩)
      · exact .inl hy
      · exact .inr hy
      · have := congrFun hcall m
        rw [callers_of_stage hm, callers_of_stage hm'] at this
        cases this
    · rintro (hy | hy)
      · exact .inl hy
      · exact .inr (.inl hy)
  refine ⟨fun y => ?_, fun {y} hy => ⟨fun m hm => ?_, fun hy' => ?_⟩, ?_, fun hc {m y} hm => ?_⟩
  · rw [hhanded, h.taken, hatt', hleft, hcall]
    by_cases hc : s'.client = none <;> simp [hc, or_comm]
  · rw [hcall] at hm
    rcases (hleft y).mp hy with hy | ⟨hy, -⟩
    · exact (h.gone hy).1 m hm
    · cases (hatt y hy m).symm.trans hm
  · obtain ⟨hy', hc⟩ := (hatt' y).mp hy'
    exact ((hleft y).mp hy).elim (fun hy => (h.gone hy).2 hy') fun hy => hc hy.2
  · rw [hjoined, hhanded]
    exact h.order
  · rw [hjoined, hhanded]
    exact h.next (hp hc) (hcall ▸ hm)

end Next

theorem settled_of_run (h : (machine t).Run ms s) : Settled ms s := by
  induction h with
  | start =>
      have none : ∀ x, ¬ Left [] x := by
        rintro x (hm | hm) <;> cases hm
      refine ⟨fun x => ⟨nofun, ?_⟩, fun h => absurd h (none _), List.nil_sublist _, nofun⟩
      rintro (⟨n, hn⟩ | ⟨hc, -⟩ | h)
      · cases hn
      · cases hc
      · exact absurd h (none x)
  | @next ms s a s' e hr ha hp ih =>
      have hr' := hr.next ha hp
      have hphase : s.phase = .closed → s'.phase = .closed := (does_of_perform hp).phase
      have hopen : s'.phase ≠ .closed → s.phase ≠ .closed := fun hc hp => hc (hphase hp)
      cases admits_of_perform hr ha hp with
      | take hx hn hcall hcl hl hnone =>
          refine ih.take hx (fun hm => ?_) hn hcall hcl hl hnone hopen
          have ha : a.stream?.all (!(handed ms).contains ·) = true := ha
          simp [hx, hm] at ha
      | join hx hph hn hcall hcl hat =>
          have hnone := (no_callers hr' (not_closed_of_attached hr' hat)).2 hat.1
          exact ih.join hx hn hcall hcl hat hph hnone
      | refuse hx hph hs hs' hcall hcl =>
          refine ih.refuse hx hph hs hs' hcall (shut_of_run hr hph).client hcl (hphase hph) ?_
          intro m hm
          obtain ⟨st, hm, hst⟩ := exists_of_callers hm
          exact (callers_of_run hr).unique hm hs (accepts_of_caller hst) rfl
      | aside hx hcall hcl =>
          exact ih.aside hx hcall hcl
            (fun y hy => (no_callers hr (not_closed_of_attached hr hy)).2 hy.1) hopen

/-! ## The listener that they come from -/

theorem accepting_of_accepts {o : Option Stage} (h : s.Serves o) (hs : s.stage? n = some st)
    (hst : st.accepts = true) : s.view.Accepting := by
  obtain ⟨rfl, -⟩ := h.1.others hs (serves_of_accepts hst)
  have hf := h.2
  cases st <;> cases hst
  case welcoming k => exact hf.welcoming.1
  case attaching => exact hf.1
  all_goals exact hf

/-- Nobody starts to wait for callers when a server is closed or was. -/
theorem Does.old_accepts (hS : s.Sound) (hd : Does s a s' e) (hc : s'.phase = .closed)
    (hn : s'.stage? n = some st) (hst : st.accepts = true) :
    ∃ st', s.stage? n = some st' ∧ st'.accepts = true := by
  rcases hd.turn_or_aside with ⟨i, r, stage, s₁, next, out, rfl, rfl, rfl, hs, ht⟩ | hne
  · rw [place_phase, ht.phase] at hc
    rw [ht.closed_stages hS hs hc] at hn
    by_cases hni : n = i
    · subst hni
      rw [Function.update_self] at hn
      exact ⟨stage, hs, ht.to_accepts hn hst⟩
    · rw [Function.update_of_ne hni] at hn
      exact ⟨st, hn, hst⟩
  · rcases (hd.news hS hne).2.2 n st hn with hn | ⟨-, hb, -⟩
    · exact ⟨st, hn, hst⟩
    · rw [accepts_of_begins hb] at hst
      cases hst

theorem advertised_of_accepts (h : (machine t).Run ms s) (hs : s.stage? n = some st)
    (hst : st.accepts = true) : s.advertisement.isSome = true := by
  induction h generalizing n st with
  | start => cases hs
  | @next ms s a s' e hr ha hp ih =>
      have hd := does_of_perform hp
      have hS := sound_of_run hr
      by_cases hc : s'.phase = .closed
      · obtain ⟨st', hs', hst'⟩ := hd.old_accepts hS hc hs hst
        have hadv := ih hs' hst'
        rcases hd.turn_or_aside with ⟨i, r, stage, s₁, next, out, rfl, rfl, rfl, -, ht⟩ | hne
        · rw [place_advertisement]
          exact ht.advertised.1 hadv
        · rw [(hd.news hS hne).1]
          exact hadv
      · obtain ⟨o, hv, -⟩ := serves_of_run (hr.next ha hp) hc
        exact (accepting_of_accepts hv hs hst).advertisement

/-- No callers are waited for while a listen job is under way. -/
theorem not_listens_of_accepts (h : (machine t).Run ms s) (hs : s.stage? n = some stage)
    (hst : stage.accepts = true) (hm : s.stage? m = some st) : st.listens = false := by
  by_contra hl
  have hadv := advertised_of_accepts h hs hst
  rw [((custody_of_run h).fresh hm (by simpa using hl)).1] at hadv
  cases hadv

theorem Does.listener_aside (h : Does s a s' e) (ha : ∀ n r, a ≠ .step (.task n) r) :
    s'.listener = s.listener ∨ s'.listener = none := by
  cases h with
  | listen | read | write | disconnect | aside | send => exact .inl rfl
  | @close _ background _ _ hp =>
      rw [close_eq hp]
      cases background <;> exact .inr rfl
  | turn => exact absurd rfl (ha _ _)

theorem accepting_listener (h : (machine t).Run ms s) (hs : s.stage? n = some (.accepting l))
    (hl : s.listener = some l') : l' = l := by
  induction h generalizing n l with
  | start => cases hs
  | @next ms s a s' e hr ha hp ih =>
      have hd := does_of_perform hp
      have hS := sound_of_run hr
      rcases hd.turn_or_aside with ⟨i, r, stage, s₁, next, out, rfl, rfl, rfl, hi, ht⟩ | hne
      · rw [place_listener] at hl
        rcases ht.origin hS hi hs (by simp) with ⟨rfl, rfl⟩ | ⟨-, hs⟩
        · generalize hn : some (Stage.accepting l) = next at ht
          cases ht with
          | look =>
              rw [hl] at hn
              cases hn
              rfl
          | _ => cases hn
        · rcases ht.listener_or_noting with he | he | ⟨record, session, rfl⟩
          · exact ih hs (he ▸ hl)
          · cases he.symm.trans hl
          · have := not_listens_of_accepts (hr.next ha hp) ‹_› rfl (ht.mine hS hi)
            cases this
      · rcases (hd.news hS hne).2.2 n _ hs with hold | ⟨-, hb, -⟩
        · rcases hd.listener_aside hne with he | he
          · exact ih hold (he ▸ hl)
          · cases he.symm.trans hl
        · cases hb

/-! ## The listeners that are held -/

theorem mem_listeners (hS : s.Sound) : l ∈ s.listeners ↔
    s.inUse = true ∧ s.listener = some l ∨ ∃ n st, s.stage? n = some st ∧ st.listener? = some l := by
  simp only [listeners, List.mem_append, List.mem_filterMap]
  refine or_congr ?_ ⟨?_, ?_⟩
  · split <;> simp [*]
  · rintro ⟨⟨n, st⟩, hm, hl⟩
    exact ⟨n, st, (mem_tasks hS).mpr hm, hl⟩
  · rintro ⟨n, st, hn, hl⟩
    exact ⟨⟨n, st⟩, (mem_tasks hS).mp hn, hl⟩

theorem of_listener? (h : st.listener? = some l) :
    (∃ record, st = .registering record l) ∨ st = .accepting l := by
  cases st <;> cases h
  · exact .inl ⟨_, rfl⟩
  · exact .inr rfl

/-- A server holds one listener at most. -/
theorem listeners_sole (h : (machine t).Run ms s) (hl : l ∈ s.listeners) (hl' : l' ∈ s.listeners) :
    l = l' := by
  have hS := sound_of_run h
  have apart : ∀ {l l'}, s.listener = some l → ∀ {n st}, s.stage? n = some st →
      st.listener? = some l' → l = l' := by
    intro l l' hl n st hn hst
    rcases of_listener? hst with ⟨record, rfl⟩ | rfl
    · cases (no_listener h hn rfl (by simp)).symm.trans hl
    · exact accepting_listener h hn hl
  rcases (mem_listeners hS).mp hl with ⟨-, hl⟩ | ⟨n, st, hn, hst⟩ <;>
    rcases (mem_listeners hS).mp hl' with ⟨-, hl'⟩ | ⟨m, st', hm, hst'⟩
  · exact Option.some.inj (hl.symm.trans hl')
  · exact apart hl hm hst'
  · exact (apart hl' hn hst).symm
  · rcases of_listener? hst with ⟨record, rfl⟩ | rfl <;>
      rcases of_listener? hst' with ⟨record', rfl⟩ | rfl
    · obtain rfl := (custody_of_run h).unique hn hm rfl rfl
      cases hn.symm.trans hm
      rfl
    · cases not_listens_of_accepts h hm rfl hn
    · cases not_listens_of_accepts h hn rfl hm
    · obtain rfl := (callers_of_run h).unique hn hm rfl rfl
      cases hn.symm.trans hm
      rfl

/-- A server that nobody can get at is left so. -/
theorem inUse_of_perform (hr : (machine t).Run ms s) (hp : s.perform a = some (s', e))
    (hu : s'.inUse = true) : s.inUse = true := by
  by_contra hn
  have hS := sound_of_run hr
  obtain ⟨hc, hnone⟩ := unused hr hn
  obtain ⟨howned, htasks⟩ : s.owned = false ∧ s.tasks = [] := by
    simpa [inUse, List.isEmpty_iff] using hn
  have howned' : s'.owned = false := by
    by_cases hdrop : ∃ b, a = .drop b
    · obtain ⟨b, rfl⟩ := hdrop
      cases hp
      rfl
    · exact (owned_of_perform hp fun b hb => hdrop ⟨b, hb⟩).trans howned
  have htasks' : s'.tasks = [] := by
    have hcl := (shut_of_run hr hc).client
    cases does_of_perform hp with
    | listen _ hi => cases hc.symm.trans hi
    | read h | disconnect h => cases hcl.symm.trans h
    | close _ hopen => exact absurd hc hopen
    | write | aside | send => exact htasks
    | turn hs => exact absurd hs (hnone _ _)
  simp [inUse, howned', htasks'] at hu

/-- The listener that an act hands over. -/
def Act.listener? : Act → Option ListenerId
  | step _ (.bound (.ok l)) => some l
  | _ => none

theorem Turn.of_listener (h : Turn s id stage r s₁ next out) (hl : s₁.listener = some l) :
    s.listener = some l ∨ stage.listener? = some l := by
  by_cases hst : stage.listens = true
  · cases h with
    | register => exact .inr hl
    | bind | die | note => exact .inl hl
    | notBound | notRegistered => rw [(resetListening_rest s).1] at hl; exact .inl hl
    | late => cases hl
    | look h => cases h <;> cases hst
    | _ => cases hst
  · exact .inl ((h.source (by simpa using hst)).1.1 ▸ hl)

theorem Turn.to_listener (h : Turn s id stage r s₁ next out) (hn : next = some st)
    (hl : st.listener? = some l) :
    s.listener = some l ∨ (Act.step (.task id) r).listener? = some l := by
  cases h with
  | bind => cases hn; exact .inr hl
  | look =>
      obtain ⟨l', hl', rfl⟩ := Option.map_eq_some_iff.mp hn
      exact .inl (hl'.trans hl)
  | _ => cases hn <;> cases hl

/-- A listener that is held was held before, or is handed over. -/
theorem listeners_before (hr : (machine t).Run ms s) (hp : s.perform a = some (s', e))
    (hs' : s'.Sound) (hl : l ∈ s'.listeners) : l ∈ s.listeners ∨ a.listener? = some l := by
  have hS := sound_of_run hr
  have hd := does_of_perform hp
  rw [mem_listeners hS]
  rcases (mem_listeners hs').mp hl with ⟨hu, hl⟩ | ⟨m, st, hm, hst⟩
  · replace hu := inUse_of_perform hr hp hu
    rcases hd.turn_or_aside with ⟨n, r, stage, s₁, next, out, rfl, rfl, rfl, hs, ht⟩ | hne
    · rw [place_listener] at hl
      exact .inl ((ht.of_listener hl).imp (fun h => ⟨hu, h⟩) fun h => ⟨n, stage, hs, h⟩)
    · rcases hd.listener_aside hne with he | he
      · exact .inl (.inl ⟨hu, he ▸ hl⟩)
      · cases he.symm.trans hl
  · rcases hd.turn_or_aside with ⟨n, r, stage, s₁, next, out, rfl, rfl, rfl, hs, ht⟩ | hne
    · rcases ht.origin hS hs hm (by rintro rfl; cases hst) with ⟨rfl, hn⟩ | ⟨-, hm⟩
      · exact (ht.to_listener hn hst).imp_left fun h => .inl ⟨inUse_of_stage hS hs, h⟩
      · exact .inl (.inr ⟨m, st, hm, hst⟩)
    · rcases (hd.news hS hne).2.2 m st hm with hm | ⟨-, hb, -⟩
      · exact .inl (.inr ⟨m, st, hm, hst⟩)
      · rcases of_listener? hst with ⟨record, rfl⟩ | rfl <;> cases hb

/-- A server lets go of its listener when it is closed, or when a listen job fails. -/
theorem listeners_after (hr : (machine t).Run ms s) (ha : (machine t).allows ms a = true)
    (hp : s.perform a = some (s', e)) (hopen : s'.phase ≠ .closed) (hl : l ∈ s.listeners) :
    l ∈ s'.listeners ∨ ∃ error, e.report.outcome = some (.failed error) := by
  have hr' := hr.next ha hp
  have hS := sound_of_run hr
  have hd := does_of_perform hp
  have hopen₀ : s.phase ≠ .closed := fun hc => hopen (hd.phase hc)
  have hu : s'.inUse = true := by simp [inUse, (owned_or_closed hr').resolve_right hopen]
  rw [mem_listeners (sound_of_run hr')]
  have held : s.listener = some l ∨ ∃ n record, s.stage? n = some (.registering record l) := by
    rcases (mem_listeners hS).mp hl with ⟨-, hl⟩ | ⟨n, st, hn, hst⟩
    · exact .inl hl
    · rcases of_listener? hst with ⟨record, rfl⟩ | rfl
      · exact .inr ⟨n, record, hn⟩
      · -- Whoever waits for callers waits at the listener that is kept.
        obtain ⟨o, hv, -⟩ := serves_of_run hr hopen₀
        obtain ⟨l', hl'⟩ := Option.isSome_iff_exists.mp (accepting_of_accepts hv hn rfl).ready.listener
        exact .inl (accepting_listener hr hn hl' ▸ hl')
  rcases hd.turn_or_aside with ⟨n, r, stage, s₁, next, out, rfl, rfl, rfl, hs, ht⟩ | hne
  · rw [place_listener]
    rcases held with hlis | ⟨m, record, hm⟩
    · refine .inl (.inl ⟨hu, ?_⟩)
      by_cases hst : stage.listens = true
      · cases ht with
        | @register _ l' =>
            have hmem : l' ∈ s.listeners := (mem_listeners hS).mpr (.inr ⟨n, _, hs, rfl⟩)
            exact congrArg some (listeners_sole hr hmem hl)
        | bind | die | note => exact hlis
        | notBound | notRegistered => exact (resetListening_rest s).1.trans hlis
        | late _ hc => exact absurd hc hopen₀
        | look h => cases h <;> cases hst
        | _ => cases hst
      · exact (ht.source (by simpa using hst)).1.1.trans hlis
    · by_cases hmn : m = n
      · subst hmn
        cases hm.symm.trans hs
        cases ht with
        | register => exact .inl (.inl ⟨hu, rfl⟩)
        | notRegistered => exact .inr ⟨_, rfl⟩
        | look h => cases h
      · exact .inl (.inr ⟨m, _, ht.keep hS hs hmn hm, rfl⟩)
  · refine .inl ?_
    rcases held with hlis | ⟨m, record, hm⟩
    · refine .inl ⟨hu, ?_⟩
      cases hd with
      | listen | read | write | disconnect | aside | send => exact hlis
      | @close _ background _ _ hopen₀ => exact absurd (close_phase s background) hopen
      | turn => exact absurd rfl (hne _ _)
    · exact .inr ⟨m, _, (hd.quiet hS hne).2.2.2 m _ hm, rfl⟩

end Rfcomm.Server
