import Rfcomm.Proofs.Server.Served
/-!
The read jobs of a server. Each is accepted for a client, and has a task at a read of that client, or
at giving it up, until the moment at which it resolves.
-/
namespace Rfcomm.Server

/-- The job of a worker has resolved. -/
def Resolved (ms : List Moment) (w : Worker) : Prop :=
  ∃ m ∈ ms, ∃ r, m.act = .step w r ∧ m.effect.report.outcome.isSome = true

/-- A read was accepted while the client had this number. -/
def ReadOf (ms : List Moment) (generation : Nat) (w : Worker) : Prop :=
  ∃ m ∈ ms, m.act = .read ∧ m.effect.started = some w ∧
    m.before.client.map (·.generation) = some generation

/-- A task at a read of a client, or at giving it up. -/
inductive Stage.ReadsFor (s : Server) (generation : Nat) : Stage → Prop
  | reading {g} : ReadsFor s generation (.reading generation g)
  | losing {k} : s.generation = generation → ReadsFor s generation (.losing k)

/-- The reads that were accepted, and the tasks that are at them. -/
structure Accounts (ms : List Moment) (s : Server) : Prop where
  pending : ∀ {g w}, ReadOf ms g w → ∃ n, w = .task n ∧
    (Resolved ms w ∨ ∃ st, s.stage? n = some st ∧ st.ReadsFor s g)
  done : ∀ {n}, Resolved ms (.task n) → s.stage? n = none ∧ n < s.nextTask
  reads : ∀ {n g k}, s.stage? n = some (.reading g k) → ReadOf ms g (.task n)

variable {s s' s₁ : Server} {id n : Nat} {stage : Stage} {next : Option Stage} {r : Reply}
  {out : Report} {a : Act} {e : Effect} {ms ns : List Moment} {m : Moment} {w : Worker} {g : Nat}

theorem resolved_append : Resolved (ms ++ ns) w ↔ Resolved ms w ∨ Resolved ns w := by
  simp only [Resolved, List.mem_append, or_and_right, exists_or]

theorem readOf_append : ReadOf (ms ++ ns) g w ↔ ReadOf ms g w ∨ ReadOf ns g w := by
  simp only [ReadOf, List.mem_append, or_and_right, exists_or]

theorem resolved_singleton :
    Resolved [m] w ↔ ∃ r, m.act = .step w r ∧ m.effect.report.outcome.isSome = true := by
  simp [Resolved]

theorem readOf_singleton : ReadOf [m] g w ↔ m.act = .read ∧ m.effect.started = some w ∧
    m.before.client.map (·.generation) = some g := by
  simp [ReadOf]

/-! ## What a turn does to a read -/

theorem emit_outcome (s : Server) (ev : Event) : (s.emit ev).2.outcome = none := by
  rw [emit_snd]

theorem Releases.outcome {k : Releasing} {k' : Option Releasing} (h : Releases s id k r s₁ k' out) :
    out.outcome = none := by
  cases h with
  | last | line | fail => exact emit_outcome _ _
  | _ => rfl

theorem Turn.done_of_outcome (h : Turn s id stage r s₁ next out)
    (ho : out.outcome.isSome = true) : next = none := by
  cases h with
  | losing h | releasing h => rw [h.outcome] at ho; cases ho
  | stumble => rw [emit_outcome] at ho; cases ho
  | notBound | notRegistered | die | note | undone | report | welcome | refused | lost | dismissed
  | released | closed => rfl
  | _ => cases ho

/-- A read goes on, begins to give its client up, or reports. -/
theorem Turn.of_reading {k : Link.Reading} (h : Turn s id (.reading g k) r s₁ next out) :
    (∃ k', next = some (.reading g k')) ∨
      (∃ k', next = some (.losing k') ∧ s.client.map (·.generation) = some g) ∨
      next = none ∧ out.outcome.isSome = true := by
  cases h with
  | look h => cases h
  | read => exact .inl ⟨_, rfl⟩
  | report => exact .inr (.inr ⟨rfl, rfl⟩)
  | lose _ _ hc => exact .inr (.inl ⟨_, rfl, by simp [hc]⟩)

theorem Turn.of_losing {k : Releasing} (h : Turn s id (.losing k) r s₁ next out) :
    (∃ k', next = some (.losing k')) ∨ next = none ∧ out.outcome.isSome = true := by
  cases h with
  | look h => cases h
  | losing => exact .inl ⟨_, rfl⟩
  | lost => exact .inr ⟨rfl, rfl⟩

theorem Turn.to_reading {k : Link.Reading} (h : Turn s id stage r s₁ next out)
    (hn : next = some (.reading g k)) : ∃ k', stage = .reading g k' := by
  cases h with
  | look =>
      rw [Option.map_eq_some_iff] at hn
      obtain ⟨l, -, he⟩ := hn
      cases he
  | read => cases hn; exact ⟨_, rfl⟩
  | _ => cases hn

theorem rearmed_generation (s : Server) (phase : Phase) :
    (s.rearmed phase).generation = s.generation := by
  rcases rearmed_cases s phase with ⟨-, h⟩ | ⟨-, h⟩
  · rw [h]
  · rw [h]; rfl

theorem Releases.generation {k : Releasing} {k' : Option Releasing}
    (h : Releases s id k r s₁ k' out) : s₁.generation = s.generation := by
  cases h with
  | close | late | register => rfl
  | last => rw [emit_fst]
  | line => rw [emit_fst]; rfl
  | skip | hold => exact rearmed_generation _ _
  | fail => rw [rearmed_generation, emit_fst]; rfl

/-- Only a caller that is attached becomes a client, and the number of clients goes up. -/
theorem Turn.client (h : Turn s id stage r s₁ next out) :
    s₁.generation = s.generation ∧ (s₁.client = s.client ∨ s₁.client = none) ∨
      s₁.generation = s.generation + 1 ∧ s.phase ≠ .closed ∧
        ∃ address k, stage = .attaching address k := by
  cases h with
  | bind | register | die | late | note | look | accept | attach | refuse | refusing | refused
  | read | report | dismissed | leave | closing | closed => exact .inl ⟨rfl, .inl rfl⟩
  | lose | dismiss => exact .inl ⟨rfl, .inr rfl⟩
  | notBound | notRegistered => unfold resetListening; split <;> exact .inl ⟨rfl, .inl rfl⟩
  | undo h | undone h | withdraw h | beginAttach h | retire h | retired h =>
      obtain ⟨_, _, rfl⟩ := h.frame
      exact .inl ⟨rfl, .inl rfl⟩
  | stumble => rw [emit_fst]; exact .inl ⟨rfl, .inl rfl⟩
  | welcome _ hp => rw [emit_fst]; exact .inr ⟨rfl, hp, _, _, rfl⟩
  | losing h | lost h | releasing h | released h => exact .inl ⟨h.generation, .inl h.client⟩

/-! ## The accounts are kept -/

theorem Does.nextTask (h : Does s a s' e) : s.nextTask ≤ s'.nextTask := by
  cases h with
  | listen | read | disconnect => exact Nat.le_succ _
  | write | aside | send => exact Nat.le_refl _
  | @close _ background _ _ hp =>
      change s.nextTask ≤ (s.close background).nextTask
      rw [close_eq hp]
      cases background
      · exact Nat.le_refl _
      · exact Nat.le_succ _
  | @turn n _ _ s₁ next _ _ ht =>
      have hn : (s₁.place n next).nextTask = s₁.nextTask := by cases next <;> rfl
      rw [hn]
      rcases ht.table with ⟨-, h⟩ | ⟨-, h⟩ <;> omega

/-- Whether a task begins at a stage because the owner asked for something. -/
def Stage.begins : Stage → Bool
  | .binding _ | .reading _ .start | .dismissing _ | .leaving => true
  | _ => false

theorem Does.table (hS : s.Sound) (h : Does s a s' e) :
    (∃ n r, a = .step (.task n) r) ∨ s'.stage? = s.stage? ∨
      ∃ st, s'.stage? = Function.update s.stage? s.nextTask (some st) ∧ st.begins = true ∧
        ∀ g k, st = .reading g k → a = .read ∧ e.started = some (.task s.nextTask) ∧
          s.client.map (·.generation) = some g := by
  cases h with
  | listen =>
      refine .inr (.inr ⟨_, stage?_spawn (s := { s with phase := .listening }) hS.tidy _, rfl, ?_⟩)
      intro g k he
      cases he
  | read hc =>
      refine .inr (.inr ⟨_, stage?_spawn hS.tidy _, rfl, ?_⟩)
      intro g k he
      cases he
      exact ⟨rfl, rfl, by simp [hc]⟩
  | write | aside | send => exact .inr (.inl rfl)
  | disconnect =>
      refine .inr (.inr ⟨_, stage?_spawn
        (s := { s with link := s.link.markClosed.signal .disconnect }) hS.tidy _, rfl, ?_⟩)
      intro g k he
      cases he
  | @close _ background owned _ hp =>
      have he : ({ s.close background with owned } : Server).stage? =
          (s.close background).stage? := rfl
      rw [he, close_eq hp]
      cases background with
      | false => exact .inr (.inl rfl)
      | true =>
          refine .inr (.inr ⟨_, stage?_spawn (s := s.shut) hS.tidy _, rfl, ?_⟩)
          intro g k he
          cases he
  | turn => exact .inl ⟨_, _, rfl⟩

theorem Does.generation (h : Does s a s' e) (ha : ∀ n r, a ≠ .step (.task n) r) :
    s'.generation = s.generation := by
  cases h with
  | listen | read | write | disconnect | aside | send => rfl
  | @close _ background _ _ hp =>
      change (s.close background).generation = s.generation
      rw [close_eq hp]
      cases background <;> rfl
  | turn => exact absurd rfl (ha _ _)

theorem Stage.ReadsFor.congr (h : stage.ReadsFor s g) (hg : s'.generation = s.generation) :
    stage.ReadsFor s' g := by
  cases h with
  | reading => exact .reading
  | losing h => exact .losing (hg.trans h)

theorem Accounts.aside (hS : s.Sound) (h : Accounts ms s) (hd : Does s a s' e)
    (ha : ∀ n r, a ≠ .step (.task n) r) : Accounts (ms ++ [⟨s, a, s', e⟩]) s' := by
  have hg := hd.generation ha
  have old : ∀ {n}, Resolved (ms ++ [⟨s, a, s', e⟩]) (.task n) ↔ Resolved ms (.task n) := by
    intro n
    rw [resolved_append, resolved_singleton]
    exact ⟨fun h => h.elim id fun ⟨r, hr, _⟩ => absurd hr (ha n r), .inl⟩
  have htab := (hd.table hS).resolve_left fun ⟨n, r, he⟩ => ha n r he
  have keep : ∀ {n st}, s.stage? n = some st → s'.stage? n = some st := by
    intro n st hs
    have hn := Nat.ne_of_lt (hS.lt hs)
    rcases htab with he | ⟨st', he, -⟩ <;> rw [he]
    · exact hs
    · rwa [Function.update_of_ne hn]
  refine ⟨?_, ?_, ?_⟩
  · intro g w hw
    rcases readOf_append.mp hw with hw | hw
    · obtain ⟨n, rfl, hn⟩ := h.pending hw
      refine ⟨n, rfl, hn.imp old.mpr ?_⟩
      rintro ⟨st, hs, hf⟩
      exact ⟨st, keep hs, hf.congr hg⟩
    · obtain ⟨rfl, hw, hc⟩ := readOf_singleton.mp hw
      cases hd with
      | @read c hcl =>
          cases hw
          have hc : c.generation = g := by simpa [hcl] using hc
          subst hc
          exact ⟨_, rfl, .inr ⟨_, by rw [stage?_spawn hS.tidy, Function.update_self], .reading⟩⟩
      | close h => rcases h with h | h <;> cases h
      | aside => cases hw
  · intro n hn
    obtain ⟨hs, hlt⟩ := h.done (old.mp hn)
    refine ⟨?_, Nat.lt_of_lt_of_le hlt hd.nextTask⟩
    rcases htab with he | ⟨st, he, -⟩ <;> rw [he]
    · exact hs
    · rwa [Function.update_of_ne (Nat.ne_of_lt hlt)]
  · intro n g k hs
    rw [readOf_append]
    rcases htab with he | ⟨st, he, -, hst⟩ <;> rw [he] at hs
    · exact .inl (h.reads hs)
    · by_cases hn : n = s.nextTask
      · subst hn
        obtain ⟨rfl, hw, hc⟩ := hst g k (by simpa using hs)
        exact .inr (readOf_singleton.mpr ⟨rfl, hw, hc⟩)
      · exact .inl (h.reads (by simpa [hn] using hs))

theorem generation_of_client (hserves : s.phase ≠ .closed → ∃ o, s.Serves o)
    (hshut : s.phase = .closed → s.Shut) (hc : s.client.map (·.generation) = some g) :
    s.generation = g := by
  obtain ⟨c, hcl, rfl⟩ := Option.map_eq_some_iff.mp hc
  have hp : s.phase ≠ .closed := by
    intro hp
    rw [(hshut hp).client] at hcl
    cases hcl
  obtain ⟨o, -, hf⟩ := hserves hp
  obtain ⟨-, x, hv⟩ := hf.of_client hcl
  exact hv.generation.symm

/-- A turn resolves the job of its own task at most, and accepts no read. -/
theorem resolved_turn : Resolved [⟨s, .step (.task id) r, s', { report := out }⟩] (.task n) ↔
    n = id ∧ out.outcome.isSome = true := by
  rw [resolved_singleton]
  constructor
  · rintro ⟨r', he, ho⟩
    cases he
    exact ⟨rfl, ho⟩
  · rintro ⟨rfl, ho⟩
    exact ⟨r, rfl, ho⟩

theorem not_readOf_turn : ¬ ReadOf [⟨s, .step (.task id) r, s', { report := out }⟩] g w := by
  intro hw
  cases (readOf_singleton.mp hw).1

theorem Turn.generation (h : Turn s id stage r s₁ next out)
    (hst : ∀ address k, stage ≠ .attaching address k) :
    (s₁.place id next).generation = s.generation := by
  rw [place_generation]
  rcases h.client with ⟨h, -⟩ | ⟨-, -, address, k, h⟩
  · exact h
  · exact absurd h (hst address k)

theorem Turn.of_readsFor (ht : Turn s id stage r s₁ next out)
    (hserves : s.phase ≠ .closed → ∃ o, s.Serves o) (hshut : s.phase = .closed → s.Shut)
    (hf : stage.ReadsFor s g) :
    (∃ st, next = some st ∧ st.ReadsFor (s₁.place id next) g) ∨
      next = none ∧ out.outcome.isSome = true := by
  cases hf with
  | reading =>
      have hgen := ht.generation (by simp)
      rcases ht.of_reading with ⟨k', rfl⟩ | ⟨k', rfl, hc⟩ | h
      · exact .inl ⟨_, rfl, .reading⟩
      · exact .inl ⟨_, rfl, .losing (hgen.trans (generation_of_client hserves hshut hc))⟩
      · exact .inr h
  | losing hg =>
      have hgen := ht.generation (by simp)
      rcases ht.of_losing with ⟨k', rfl⟩ | h
      · exact .inl ⟨_, rfl, .losing (hgen.trans hg)⟩
      · exact .inr h

theorem Turn.keeps_readsFor (ht : Turn s id stage r s₁ next out) (hs : s.stage? id = some stage)
    (hserves : s.phase ≠ .closed → ∃ o, s.Serves o) {st : Stage} (hst : s.stage? n = some st)
    (hn : n ≠ id) (hf : st.ReadsFor s g) : st.ReadsFor (s₁.place id next) g := by
  cases hf with
  | reading => exact .reading
  | losing hg =>
      -- A caller is attached only while no client is given up.
      rcases ht.client with ⟨h, -⟩ | ⟨-, hp, address, k, rfl⟩
      · exact .losing ((place_generation s₁).trans (h.trans hg))
      · obtain ⟨o, ho, -⟩ := hserves hp
        cases ((ho.others hs rfl).2 n _ hst hn).1

/-- A turn keeps the accounts. -/
theorem Accounts.turn (hS : s.Sound) (hserves : s.phase ≠ .closed → ∃ o, s.Serves o)
    (hshut : s.phase = .closed → s.Shut) (h : Accounts ms s) (hs : s.stage? id = some stage)
    (ht : Turn s id stage r s₁ next out) :
    Accounts (ms ++ [⟨s, .step (.task id) r, s₁.place id next, { report := out }⟩])
      (s₁.place id next) := by
  have mine := ht.mine hS hs
  have hnext : s.nextTask ≤ (s₁.place id next).nextTask := (Does.turn hs ht).nextTask
  refine ⟨?_, ?_, ?_⟩
  · intro g w hw
    obtain ⟨i, rfl, hi⟩ := h.pending ((readOf_append.mp hw).resolve_right not_readOf_turn)
    refine ⟨i, rfl, ?_⟩
    rw [resolved_append, resolved_turn]
    rcases hi with hi | ⟨st, hst, hf⟩
    · exact .inl (.inl hi)
    · by_cases hin : i = id
      · subst hin
        obtain rfl : st = stage := Option.some.inj (hst.symm.trans hs)
        rcases ht.of_readsFor hserves hshut hf with ⟨st', hn, hf'⟩ | ⟨-, ho⟩
        · exact .inr ⟨st', mine.trans hn, hf'⟩
        · exact .inl (.inr ⟨rfl, ho⟩)
      · exact .inr ⟨st, ht.keep hS hs hin hst, ht.keeps_readsFor hs hserves hst hin hf⟩
  · intro i hi
    rw [resolved_append, resolved_turn] at hi
    rcases hi with hi | ⟨rfl, ho⟩
    · obtain ⟨hnone, hlt⟩ := h.done hi
      have hin : i ≠ id := by
        rintro rfl
        cases hs.symm.trans hnone
      exact ⟨(ht.other hS hs hin hlt).trans hnone, Nat.lt_of_lt_of_le hlt hnext⟩
    · exact ⟨mine.trans (ht.done_of_outcome ho), Nat.lt_of_lt_of_le (hS.lt hs) hnext⟩
  · intro i g k hi
    rw [readOf_append]
    by_cases hin : i = id
    · subst hin
      obtain ⟨k', rfl⟩ := ht.to_reading (mine.symm.trans hi)
      exact .inl (h.reads hs)
    · exact .inl (h.reads (ht.old hS hs hin hi (by simp)))

/-- The accounts are kept wherever a run gets to. -/
theorem accounts_of_run {t : Config.Tuning} (h : (machine t).Run ms s) : Accounts ms s := by
  induction h with
  | start =>
      refine ⟨?_, ?_, ?_⟩
      · rintro g w ⟨m, hm, -⟩
        cases hm
      · rintro n ⟨m, hm, -⟩
        cases hm
      · intro n g k hs
        cases hs
  | @next ms s a s' e hr _ hp ih =>
      have hS := sound_of_run hr
      have hd := does_of_perform hp
      rcases hd.turn_or_aside with ⟨n, r, st, s₁, next, out, rfl, rfl, rfl, hs, ht⟩ | hne
      · refine ih.turn hS (fun hp => ?_) (shut_of_run hr) hs ht
        obtain ⟨o, ho, -⟩ := serves_of_run hr hp
        exact ⟨o, ho⟩
      · exact ih.aside hS hd hne

end Rfcomm.Server
