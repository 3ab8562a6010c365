import Rfcomm.Proofs.Server.Completion
/-!
Who serves a server. Between listening and closing it is served by exactly one party: a listen job, an
accept loop, a client, or a task that gives a client up. The party hands over to the next one in the
same step in which it goes.
-/
namespace Rfcomm.Server

inductive Party
  | listening
  /-- An accept loop, which has a caller on its hands until that one is the client. -/
  | accepting
  | client
  | releasing
deriving DecidableEq, Repr

/-- The party that a task at a stage belongs to. A task that was asked to give the client up belongs to
none before it has taken it. -/
def Stage.party? : Stage → Option Party
  | .binding _ | .registering _ _ | .noting _ _ | .undoing _ => some .listening
  | .watching | .accepting _ | .pausing | .welcoming _ _ _ | .attaching _ _ | .refusing _ =>
    some .accepting
  | .losing _ | .releasing _ => some .releasing
  | .reading _ _ | .dismissing _ | .leaving | .retiring _ | .closing _ => none

/-- All that serve a server. -/
def parties (s : Server) : List Party :=
  s.tasks.filterMap (·.stage.party?) ++ (s.client.map fun _ => .client).toList

variable {s s' s₁ : Server} {id n : Nat} {stage st : Stage} {next : Option Stage} {r : Reply}
  {out : Report} {a : Act} {e : Effect} {ms : List Moment} {t : Config.Tuning} {p : Party}

/-! ## Settings stay -/

/-- What no task changes. -/
def settings (s : Server) : Config.Tuning × Bool := (s.tuning, s.owned)

theorem place_settings (s : Server) : (s.place id next).settings = s.settings := by
  cases next <;> rfl

theorem rearmed_settings (s : Server) (phase : Phase) : (s.rearmed phase).settings = s.settings := by
  rcases rearmed_cases s phase with ⟨-, h⟩ | ⟨-, h⟩ <;> rw [h]
  rfl

theorem Releases.settings {k : Releasing} {k' : Option Releasing} (h : Releases s id k r s₁ k' out) :
    s₁.settings = s.settings := by
  cases h with
  | close | late | register => rfl
  | last => rw [emit_fst]; rfl
  | line => rw [emit_fst]; rfl
  | skip | hold => rw [rearmed_settings]; rfl
  | fail => rw [rearmed_settings, emit_fst]; rfl

theorem Turn.settings (h : Turn s id stage r s₁ next out) : s₁.settings = s.settings := by
  cases h with
  | notBound | notRegistered => unfold resetListening; split <;> rfl
  | undo h | undone h | withdraw h | beginAttach h | retire h | retired h =>
      obtain ⟨_, _, rfl⟩ := h.frame
      rfl
  | stumble => rw [emit_fst]; rfl
  | welcome => rw [emit_fst]; rfl
  | losing h | lost h | releasing h | released h => exact h.settings
  | _ => rfl

theorem Does.tuning (h : Does s a s' e) : s'.tuning = s.tuning := by
  cases h with
  | listen | read | write | disconnect | aside | send => rfl
  | @close _ background _ _ hp => rw [close_eq hp]; cases background <;> rfl
  | turn _ ht => exact congrArg Prod.fst ((place_settings _).trans ht.settings)

theorem tuning_of_run (h : (machine t).Run ms s) : s.tuning = t :=
  h.invariant (P := fun s => s.tuning = t) rfl fun hp hs => (does_of_perform hp).tuning.trans hs

/-! ## Servers that nobody can get at -/

theorem owned_of_perform (h : s.perform a = some (s', e)) (ha : ∀ b, a ≠ .drop b) :
    s'.owned = s.owned := by
  cases a with
  | listen o =>
      cases hr : o.record with
      | error f =>
          simp only [perform, listen, hr] at h
          cases h
          rfl
      | ok record =>
          by_cases hp : s.phase = .idle <;>
            simp only [perform, listen, hr, bind, Except.bind, hp, if_true, if_false] at h <;>
            cases h <;> rfl
  | read =>
      simp only [perform, read] at h
      split at h
      · split at h <;> cases h <;> rfl
      · cases h
        rfl
  | write bytes => cases h; rfl
  | disconnectClient =>
      simp only [perform, disconnectClient] at h
      split at h <;> cases h <;> rfl
  | close b =>
      cases h
      by_cases hp : s.phase = .closed
      · rw [Server.close, if_pos hp]
      · rw [close_eq hp]
        cases b <;> rfl
  | drop b => exact absurd rfl (ha b)
  | takeEvent =>
      simp only [perform] at h
      split at h <;> cases h <;> rfl
  | dismissEvents => cases h; rfl
  | step w r =>
      cases does_of_perform h with
      | close hact => rcases hact with h | h <;> cases h
      | aside hne => exact absurd rfl (hne w r)
      | send => rfl
      | turn _ ht => exact congrArg Prod.snd ((place_settings _).trans ht.settings)

theorem owned_or_closed (h : (machine t).Run ms s) : s.owned = true ∨ s.phase = .closed := by
  refine h.invariant (P := fun s => s.owned = true ∨ s.phase = .closed) (.inl rfl) ?_
  intro s a s' e hp ih
  by_cases hdrop : ∃ b, a = .drop b
  · obtain ⟨b, rfl⟩ := hdrop
    cases hp
    exact .inr (close_phase s b)
  · rw [owned_of_perform hp fun b hb => hdrop ⟨b, hb⟩]
    exact ih.imp_right (does_of_perform hp).phase

theorem unused (h : (machine t).Run ms s) (hu : ¬s.inUse = true) :
    s.phase = .closed ∧ ∀ n st, s.stage? n ≠ some st := by
  simp only [inUse, Bool.or_eq_true, not_or, Bool.not_eq_true, Bool.not_eq_false',
    List.isEmpty_iff] at hu
  obtain ⟨howned, htasks⟩ := hu
  refine ⟨(owned_or_closed h).resolve_left (by simp [howned]), fun n st hn => ?_⟩
  have hmem := (mem_tasks (sound_of_run h)).mp hn
  rw [htasks] at hmem
  cases hmem

/-! ## Nobody leaves a listening server alone -/

/-- A task that serves goes on to serve or leaves a task of the accept loop behind, as long as the
server is listening. -/
theorem Turn.hands_over (h : Turn s id stage r s₁ next out) (hst : stage.serves = true)
    (hf : s.view.Fits (some stage)) (hcap : s.tuning.eventCapacity ≤ Feed.maxCapacity)
    (hp : s₁.phase = .listening) :
    (∃ st, next = some st ∧ st.serves = true) ∨ s₁.nextTask = s.nextTask + 1 := by
  have reset : s.resetListening.phase ≠ .listening := by
    unfold resetListening
    split <;> simp [*]
  cases h with
  | bind | register | accept | stumble | withdraw | beginAttach | attach | losing | releasing =>
      exact .inl ⟨_, rfl, rfl⟩
  | notBound | notRegistered => exact absurd hp reset
  | die _ hd => omega
  | late _ hc | refuse _ hc => exact absurd hc hf.phase
  | note => exact .inr rfl
  | look h =>
      have hl : s.view.listener.isSome = true := by
        cases h <;> exact (View.Accepting.ready hf).listener
      obtain ⟨l, hl⟩ := Option.isSome_iff_exists.mp hl
      exact .inl ⟨.accepting l, by rw [show s.listener = some l from hl]; rfl, rfl⟩
  | welcome => rw [emit_fst] at hp; cases hp
  | lost h | released h => exact .inr (h.gone hf).2.1
  | _ => cases hst

theorem Turn.busy {o : Option Stage} (h : Turn s id stage r s₁ next out) (hS : s.Sound)
    (hs : s.stage? id = some stage) (hv : s.Serves o)
    (hcap : s.tuning.eventCapacity ≤ Feed.maxCapacity)
    (ih : s.phase = .listening → ∃ n st, s.stage? n = some st ∧ st.serves = true)
    (hp : s₁.phase = .listening) :
    ∃ n st, (s₁.place id next).stage? n = some st ∧ st.serves = true := by
  have mine := h.mine hS hs
  cases hst : stage.serves with
  | true =>
      obtain ⟨rfl, -⟩ := hv.1.others hs hst
      rcases h.hands_over hst hv.2 hcap hp with ⟨st, rfl, hst'⟩ | hn
      · exact ⟨id, st, mine, hst'⟩
      · exact ⟨s.nextTask, .watching, h.begun hS hs hn, rfl⟩
  | false =>
      rcases h.bystander hst (hv.1.not_closes hs) with he | ⟨c, st, -, rfl, ⟨final, hk⟩, -⟩
      · -- Whoever serves is somebody else, who stays.
        obtain ⟨n, st, hn, hst'⟩ := ih ((congrArg View.phase he).symm.trans hp)
        have hne : n ≠ id := by
          rintro rfl
          rw [hs] at hn
          cases hn
          rw [hst] at hst'
          cases hst'
        exact ⟨n, st, h.keep hS hs hne hn, hst'⟩
      · exact ⟨id, st, mine, serves_of_releasing hk⟩

theorem busy_of_run (h : (machine t).Run ms s) (hcap : t.eventCapacity ≤ Feed.maxCapacity)
    (hp : s.phase = .listening) : ∃ n st, s.stage? n = some st ∧ st.serves = true := by
  induction h with
  | start => cases hp
  | @next ms s a s' e hr _ hd ih =>
      have hS := sound_of_run hr
      have hd := does_of_perform hd
      rcases hd.turn_or_aside with ⟨n, r, st, s₁, next, out, rfl, rfl, rfl, hs, ht⟩ | hne
      · rw [place_phase] at hp
        have hopen : s.phase ≠ .closed := fun hc => by rw [ht.phase.mpr hc] at hp; cases hp
        obtain ⟨o, hv, -⟩ := serves_of_run hr hopen
        exact ht.busy hS hs hv ((tuning_of_run hr).symm ▸ hcap) ih hp
      · have keep := (hd.quiet hS hne).2.2.2
        cases hd with
        | @listen _ record =>
            refine ⟨s.nextTask, .binding record, ?_, rfl⟩
            rw [stage?_spawn (s := { s with phase := .listening }) hS.tidy]
            exact Function.update_self ..
        | @close _ background _ _ hopen =>
            rw [close_eq hopen] at hp
            cases background <;> cases hp
        | read | write | disconnect | aside | send =>
            obtain ⟨n, st, hn, hst⟩ := ih hp
            exact ⟨n, st, keep n st hn, hst⟩
        | turn => exact absurd rfl (hne _ _)

/-! ## Exactly one -/

theorem party_of_serves (h : st.serves = true) : ∃ p, st.party? = some p := by
  cases st <;> first | exact ⟨_, rfl⟩ | cases h

theorem no_party (hs : st.serves = false) (hc : st.closes = false) : st.party? = none := by
  cases st <;> first | rfl | (cases hs; done) | cases hc

theorem filterMap_eq_singleton {α β : Type} {f : α → Option β} {l : List α} {x : α} {y : β}
    (hl : l.Nodup) (hx : x ∈ l) (hy : f x = some y) (h : ∀ z ∈ l, z ≠ x → f z = none) :
    l.filterMap f = [y] := by
  obtain ⟨l₁, l₂, rfl⟩ := List.append_of_mem hx
  have hn := List.nodup_middle.mp hl
  obtain ⟨hx', -⟩ := List.nodup_cons.mp hn
  simp only [List.mem_append, not_or] at hx'
  have h₁ : l₁.filterMap f = [] := by
    simp only [List.filterMap_eq_nil_iff]
    intro z hz
    exact h z (by simp [hz]) (by rintro rfl; exact hx'.1 hz)
  have h₂ : l₂.filterMap f = [] := by
    simp only [List.filterMap_eq_nil_iff]
    intro z hz
    exact h z (by simp [hz]) (by rintro rfl; exact hx'.2 hz)
  simp [h₁, h₂, hy]

theorem Only.parties {o : Option Stage} (h : Only s.stage? o) (hS : s.Sound) :
    s.tasks.filterMap (·.stage.party?) = (o.bind Stage.party?).toList := by
  cases h with
  | nobody hn =>
      simp only [Option.bind_none, Option.toList_none, List.filterMap_eq_nil_iff]
      rintro ⟨m, st⟩ hm
      obtain ⟨h₁, h₂⟩ := hn m st ((mem_tasks hS).mpr hm)
      exact no_party h₁ h₂
  | @somebody n st hn hst ho =>
      obtain ⟨p, hp⟩ := party_of_serves hst
      rw [Option.bind_some, hp, Option.toList_some]
      refine filterMap_eq_singleton (.of_map _ hS.tidy.nodup) ((mem_tasks hS).mp hn) hp ?_
      rintro ⟨m, st'⟩ hm hne
      have hm := (mem_tasks hS).mpr hm
      have hmn : m ≠ n := by
        rintro rfl
        obtain rfl := Option.some.inj (hm.symm.trans hn)
        exact hne rfl
      obtain ⟨h₁, h₂⟩ := ho m st' hm hmn
      exact no_party h₁ h₂

/-- Wherever a run gets to, a server that is neither idle nor closed is served by exactly one party. -/
theorem served_by_one (h : (machine t).Run ms s) (hcap : t.eventCapacity ≤ Feed.maxCapacity)
    (hi : s.phase ≠ .idle) (hc : s.phase ≠ .closed) : ∃ p, s.parties = [p] := by
  obtain ⟨o, ⟨ho, hf⟩, -⟩ := serves_of_run h hc
  rw [parties, ho.parties (sound_of_run h)]
  cases o with
  | some st =>
      have hst : st.serves = true := by cases ho; assumption
      obtain ⟨p, hp⟩ := party_of_serves hst
      exact ⟨p, by simp [hp, show s.client = none from hf.client]⟩
  | none =>
      rcases hf with hf | ⟨c, x, hf⟩
      · -- A listening server without a task that serves is left by a listen job that died.
        exfalso
        obtain ⟨n, st, hn, hst⟩ := busy_of_run h hcap (hf.phase.resolve_left hi)
        cases ho with
        | nobody ho => rw [(ho n st hn).1] at hst; cases hst
      · exact ⟨.client, by simp [show s.client = some c from hf.client]⟩

/-- The owner and a read both give a client up. The read was first. -/
theorem served_by_one_while_dismissed : ∃ ms s, (machine {}).Run ms s ∧
    ({} : Config.Tuning).eventCapacity ≤ Feed.maxCapacity ∧ s.phase = .accepted ∧
    s.stage? 3 = some (.dismissing 1) ∧ s.parties = [.releasing] ∧ ∃ p, s.parties = [p] := by
  obtain ⟨ms, s, hp, hs⟩ := (machine {}).exists_of_play
    (arrival ++ [.read, .step (.task 2) .go, .step (.task 2) .go, .disconnectClient,
      .step (.task 2) .go])
    (fun _ s => s.phase = .accepted ∧ s.stage? 3 = some (.dismissing 1) ∧ s.parties = [.releasing])
    (by decide +kernel)
  obtain ⟨hphase, hstage, hparties⟩ := of_decide_eq_true hs
  have hcap : ({} : Config.Tuning).eventCapacity ≤ Feed.maxCapacity := by decide
  exact ⟨ms, s, Machine.run_of_play hp, hcap, hphase, hstage, hparties,
    served_by_one (Machine.run_of_play hp) hcap (by simp [hphase]) (by simp [hphase])⟩

end Rfcomm.Server
