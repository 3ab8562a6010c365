import Rfcomm.Proofs.Server.Reads
import Rfcomm.Proofs.Server.Rest
import Rfcomm.Proofs.Server.Streams
/-!
Losing a client. Once a client is given up, the server takes its stream away, tells of it, registers
the record again and accepts callers, unless reads that are left over hold its stream.
-/
namespace Rfcomm.Server

/-- A moment at which a client is given up. -/
inductive GivesUp (c : Client) (m : Moment) : Prop
  | owner : m.act = .disconnectClient → GivesUp c m
  /-- A read sees the end of the stream. -/
  | ended {n y} : m.before.stage? n = some (.reading c.generation (.reading y)) →
      m.act = .step (.task n) (.read (.ok [])) → GivesUp c m
  /-- A read fails because the peer is gone. -/
  | failed {n y f} : m.before.stage? n = some (.reading c.generation (.reading y)) →
      m.act = .step (.task n) (.read (.error f)) → (Error.read f).isDisconnect = true →
      GivesUp c m

/-- The registration of the record was asked for while a client was the last. -/
def Reregistered (c : Client) (ms : List Moment) : Prop :=
  ∃ m ∈ ms, ∃ n record result, m.act = .step (.task n) (.registered result) ∧
    m.before.ask (.task n) = .call (.register record) ∧
    m.before.advertisement.map (·.record) = some record ∧ m.before.generation = c.generation

variable {s s' s₁ : Server} {id n : Nat} {stage st : Stage} {next : Option Stage} {r : Reply}
  {out : Report} {a : Act} {e : Effect} {ms ns : List Moment} {m : Moment} {c : Client}
  {x : StreamId} {t : Config.Tuning}

/-! ## Bystanders -/

/-- How far giving a client up got. -/
def Stage.releasing? : Stage → Option Releasing
  | .losing k | .releasing k => some k
  | _ => none

/-- A task that does not serve leaves the server alone, or begins to give the client up. -/
theorem Turn.bystander (h : Turn s id stage r s₁ next out) (hs : stage.serves = false)
    (hc : stage.closes = false) :
    s₁.view = s.view ∨
      ∃ c st, s.client = some c ∧ next = some st ∧
        (∃ final, st.releasing? = some (.closing c.address final .reader)) ∧
        s₁.generation = s.generation ∧ s₁.client = none ∧ s₁.link.stream = s.link.stream ∧
        s₁.link.queue.stream = s.link.queue.stream := by
  cases h with
  | read h | report h => exact .inl (reading_view h)
  | @lose _ _ link _ c h _ hcl =>
      have hv := reading_view h
      exact .inr ⟨c, _, hcl, rfl, ⟨_, rfl⟩, rfl, rfl, congrArg View.stream hv, congrArg View.sink hv⟩
  | dismiss hcl => exact .inr ⟨_, _, hcl, rfl, ⟨_, rfl⟩, rfl, rfl, rfl, rfl⟩
  | dismissed => exact .inl rfl
  | look h => cases h <;> cases hs
  | undo | undone | refusing | refused | leave | retire | retired | closing | closed => cases hc
  | _ => cases hs

theorem Does.quiet (hS : s.Sound) (h : Does s a s' e) (ha : ∀ n r, a ≠ .step (.task n) r) :
    s'.link.stream = s.link.stream ∧ s'.link.queue.stream = s.link.queue.stream ∧
      (s'.client = s.client ∨ s'.phase = .closed ∧ s'.client = none) ∧
      ∀ n st, s.stage? n = some st → s'.stage? n = some st := by
  have htab := (h.table hS).resolve_left fun ⟨n, r, he⟩ => ha n r he
  have keep : ∀ n st, s.stage? n = some st → s'.stage? n = some st := by
    intro n st hs
    have hn := Nat.ne_of_lt (hS.lt hs)
    rcases htab with he | ⟨st', he, -⟩ <;> rw [he]
    · exact hs
    · rwa [Function.update_of_ne hn]
  cases h with
  | listen | read | disconnect | aside => exact ⟨rfl, rfl, .inl rfl, keep⟩
  | write => exact ⟨rfl, by simp [Link.write], .inl rfl, keep⟩
  | @close _ background _ _ hp =>
      rw [close_eq hp] at keep ⊢
      cases background <;> exact ⟨rfl, rfl, .inr ⟨rfl, rfl⟩, keep⟩
  | send hr =>
      have hv := resumeWrite_view hr
      exact ⟨congrArg View.stream hv, congrArg View.sink hv, .inl rfl, keep⟩
  | turn => exact absurd rfl (ha _ _)

/-! ## What becomes of a client that is given up -/

/-- The stream of a client that is given up is still where closing it has got to. -/
def Tracks (l : Link) (x : StreamId) : Releasing → Prop
  | .closing _ _ .reader => l.stream = some x ∧ l.queue.stream = some x
  | .closing _ _ .writer => l.queue.stream = some x
  | .closing _ _ (.stream y) => y = x
  | _ => True

/-- What became of a client since it was given up. -/
inductive Fate (c : Client) (x : StreamId) (ns : List Moment) (s : Server) : Prop
  /-- The task that gives it up has not run yet. -/
  | pending {i} : s.client = some c → s.link.stream = some x → s.link.queue.stream = some x →
      s.stage? i = some (.dismissing c.generation) → visitors ns = [] → Fate c x ns s
  | leaving {i q k} : s.stage? i = some q → q.releasing? = some k → Tracks s.link x k →
      s.generation = c.generation → visitors ns = [] → Fate c x ns s
  /-- It is gone: callers are accepted, or a later client came. -/
  | gone : ¬ s.Holds x → Reregistered c ns →
      (visitors ns = [] → s.generation = c.generation ∧
        ∃ n st, s.stage? n = some st ∧ st.accepts = true) →
      (visitors ns ≠ [] → c.generation < s.generation) → Fate c x ns s

theorem visitors_snoc : visitors (ns ++ [m]) = visitors ns ++ fresh m.before.client m.after.client := by
  simp [visitors]

theorem reregistered_append {ms'} (h : Reregistered c ns) : Reregistered c (ns ++ ms') := by
  obtain ⟨m, hm, h⟩ := h
  exact ⟨m, by simp [hm], h⟩

theorem serves_of_releasing {k : Releasing} (h : st.releasing? = some k) : st.serves = true := by
  cases st <;> first | rfl | cases h

theorem serves_of_accepts (h : st.accepts = true) : st.serves = true := by
  cases st <;> first | rfl | cases h

theorem Serves.no_client {o : Option Stage} (h : s.Serves o) (hs : s.stage? n = some stage)
    (hst : stage.serves = true) : s.client = none := by
  obtain ⟨rfl, -⟩ := h.1.others hs hst
  exact h.2.client

/-- While a client is there, no task serves. -/
theorem Serves.none_serves {o : Option Stage} (h : s.Serves o) (hc : s.client = some c)
    (hs : s.stage? n = some stage) : stage.serves = false ∧ stage.closes = false := by
  obtain ⟨ho, hf⟩ := h
  obtain ⟨rfl, -⟩ := hf.of_client hc
  cases ho with
  | nobody hno => exact hno n stage hs

theorem Fate.aside (hS : s.Sound) (h : Fate c x ns s) (hd : Does s a s' e)
    (ha : ∀ n r, a ≠ .step (.task n) r) (hp : s'.phase ≠ .closed) (hx : a.stream? ≠ some x) :
    Fate c x (ns ++ [⟨s, a, s', e⟩]) s' := by
  obtain ⟨h₁, h₂, h₃, keep⟩ := hd.quiet hS ha
  have h₃ := h₃.resolve_right fun h => hp h.1
  have hv : visitors (ns ++ [⟨s, a, s', e⟩]) = visitors ns := by
    rw [visitors_snoc, h₃, fresh_self, List.append_nil]
  have hg := hd.generation ha
  cases h with
  | pending hc hr hw hs hn =>
      exact .pending (h₃.trans hc) (h₁.trans hr) (h₂.trans hw) (keep _ _ hs) (hv.trans hn)
  | leaving hs hk ht hgen hn =>
      refine .leaving (keep _ _ hs) hk ?_ (hg.trans hgen) (hv.trans hn)
      unfold Tracks at ht ⊢
      rw [h₁, h₂]
      exact ht
  | gone hnot hr hacc hlater =>
      refine .gone ?_ (reregistered_append hr) ?_ ?_
      · intro hh
        exact (hd.holds hS hh).elim hnot hx
      · intro hn
        obtain ⟨hgen, n, st, hs, hst⟩ := hacc (hv ▸ hn)
        exact ⟨hg.trans hgen, n, st, keep _ _ hs, hst⟩
      · intro hn
        rw [hg]
        exact hlater (hv ▸ hn)

theorem Turn.accepts (h : Turn s id stage r s₁ next out) (hst : stage.accepts = true)
    (hf : s.view.Fits (some stage)) :
    (∃ st, next = some st ∧ st.accepts = true ∧ s₁.generation = s.generation) ∨
      fresh s.client s₁.client ≠ [] := by
  cases h with
  | look h =>
      cases h
      all_goals
        obtain ⟨l, hl⟩ := Option.isSome_iff_exists.mp (View.Accepting.ready hf).listener
        rw [show s.listener = some l from hl]
        exact .inl ⟨_, rfl, rfl, rfl⟩
  | accept | attach => exact .inl ⟨_, rfl, rfl, rfl⟩
  | stumble => exact .inl ⟨_, rfl, rfl, by rw [emit_fst]⟩
  | withdraw hw | beginAttach hw =>
      obtain ⟨_, _, rfl⟩ := hw.frame
      exact .inl ⟨_, rfl, rfl, rfl⟩
  | refuse _ hc => exact absurd hc hf.phase
  | welcome =>
      right
      rw [emit_fst, show s.client = none from hf.client]
      simp [fresh, Server.welcome]
  | _ => cases hst

/-- The stream of a client that is given up is followed as closing it goes on. -/
theorem Releases.tracks {k k' : Releasing} (h : Releases s id k r s₁ (some k') out)
    (ht : Tracks s.link x k) : Tracks s₁.link x k' := by
  cases h with
  | close h =>
      cases Link.move_of_resumeClosing h with
      | release => exact ht.2
      | takeOut _ hy => exact Option.some.inj (hy.symm.trans ht)
  | line | register => trivial

theorem Releases.answered {k : Releasing} (h : Releases s id k r s₁ none out)
    (hf : s.view.Losing k) : ∃ record result, k = .registering record ∧ r = .registered result ∧
      s.advertisement = some ⟨record, none⟩ := by
  obtain ⟨-, hp, -, -, -, ⟨record, hw⟩, hl⟩ := hf
  cases h with
  | last => cases hl.1
  | late _ h =>
      have hp : s.phase = .accepted := hp
      rw [h] at hp
      cases hp
  | skip _ _ hs => cases hs _ hw
  | hold | fail => exact ⟨_, _, rfl, rfl, hl.2.2⟩

theorem stream?_of_idle (h : stage.serves = false) (hc : stage.closes = false) :
    stage.stream? = none := by
  cases stage <;> simp_all [Stage.serves, Stage.closes, Stage.stream?]

/-- When giving a client up is over, its stream is held no more and callers are accepted. -/
theorem Fate.of_released {o : Option Stage} {k : Releasing} (hS : s.Sound) (hv : s.Serves o)
    (hs : s.stage? id = some stage) (hk : stage.releasing? = some k)
    (ht : Turn s id stage r s₁ none out) (hr : ∃ out, Releases s id k r s₁ none out)
    (hg : s.generation = c.generation) (hn : visitors ns = []) :
    Fate c x (ns ++ [⟨s, .step (.task id) r, s₁.place id none, { report := out }⟩])
      (s₁.place id none) := by
  obtain ⟨out', hr⟩ := hr
  obtain ⟨rfl, ho⟩ := hv.1.others hs (serves_of_releasing hk)
  have hf : s.view.Losing k := by
    have hf := hv.2
    cases stage <;> cases hk <;> exact hf
  obtain ⟨hacc, hnext, -⟩ := hr.gone hf
  obtain ⟨record, result, rfl, rfl, had⟩ := hr.answered hf
  refine .gone ?_ ⟨_, List.mem_append_right _ (List.mem_singleton_self _), id, record, result, rfl,
    ?_, ?_, hg⟩ (fun _ => ⟨?_, s.nextTask, .watching, ?_, rfl⟩) ?_
  · intro hh
    cases hh with
    | reader h =>
        rw [place_link] at h
        rw [show s₁.link.stream = none from hacc.bare.stream] at h
        cases h
    | writer h =>
        rw [place_link] at h
        rw [show s₁.link.queue.stream = none from hacc.bare.sink] at h
        cases h
    | @task m st hm hy =>
        by_cases he : m = id
        · subst he
          cases (ht.mine hS hs).symm.trans hm
        · have hm : s.stage? m = some st := by
            refine ht.old hS hs he hm ?_
            rintro rfl
            cases hy
          rw [stream?_of_idle (ho m st hm he).1 (ho m st hm he).2] at hy
          cases hy
  · rw [ask_task hs]
    cases stage <;> cases hk <;> rfl
  · rw [had]
    rfl
  · rw [place_generation, hr.generation, hg]
  · exact ht.begun hS hs hnext
  · intro hv'
    rw [visitors_snoc, hn, place_client, hr.client, fresh_self] at hv'
    exact absurd rfl hv'

theorem Turn.of_dismissing {g : Nat} (h : Turn s id (.dismissing g) r s₁ next out) :
    s₁.client = none ∨ ∀ c, s.client = some c → c.generation ≠ g := by
  cases h with
  | look h => cases h
  | dismiss => exact .inl rfl
  | dismissed h => exact .inr h

theorem visitors_turn (hf : fresh s.client s₁.client = []) (hn : visitors ns = []) :
    visitors (ns ++ [⟨s, .step (.task id) r, s₁.place id next, { report := out }⟩]) = [] := by
  rw [visitors_snoc, hn, place_client]
  exact hf

/-- While there is a client, a turn leaves the server alone, or the client is on its way. -/
theorem Turn.keeps_or_loses {o : Option Stage} (hS : s.Sound) (hv : s.Serves o)
    (hc : s.client = some c) (hx : s.link.stream = some x) (hn : visitors ns = [])
    (hs : s.stage? id = some stage) (ht : Turn s id stage r s₁ next out) :
    s₁.view = s.view ∨ s₁.client = none ∧
      Fate c x (ns ++ [⟨s, .step (.task id) r, s₁.place id next, { report := out }⟩])
        (s₁.place id next) := by
  obtain ⟨hst, hcl⟩ := hv.none_serves hc hs
  obtain ⟨-, y, hsv⟩ := hv.2.of_client hc
  obtain rfl : y = x := Option.some.inj (hsv.stream.symm.trans hx)
  refine (ht.bystander hst hcl).imp_right ?_
  rintro ⟨c', st, hc', rfl, ⟨final, hrel⟩, hg, hcn, h₁, h₂⟩
  obtain rfl : c' = c := Option.some.inj (hc'.symm.trans hc)
  refine ⟨hcn, .leaving (ht.mine hS hs) hrel ?_ ?_ (visitors_turn ?_ hn)⟩
  · rw [place_link]
    exact ⟨h₁.trans hx, h₂.trans hsv.sink⟩
  · rw [place_generation, hg]
    exact hsv.generation.symm
  · rw [hcn, hc]
    rfl

/-- Whoever is no party to it leaves a client that is to be given up alone, or gives it up. -/
theorem Fate.turn_pending {o : Option Stage} {i : Nat} (hS : s.Sound) (hv : s.Serves o)
    (hc : s.client = some c) (hr : s.link.stream = some x) (hw : s.link.queue.stream = some x)
    (hi : s.stage? i = some (.dismissing c.generation)) (hn : visitors ns = [])
    (hs : s.stage? id = some stage) (ht : Turn s id stage r s₁ next out) :
    Fate c x (ns ++ [⟨s, .step (.task id) r, s₁.place id next, { report := out }⟩])
      (s₁.place id next) := by
  rcases ht.keeps_or_loses hS hv hc hr hn hs with he | ⟨-, hf⟩
  · have hc' : s₁.client = s.client := congrArg View.client he
    have hne : i ≠ id := by
      rintro rfl
      obtain rfl : .dismissing c.generation = stage := Option.some.inj (hi.symm.trans hs)
      rcases ht.of_dismissing with h | h
      · rw [hc', hc] at h; cases h
      · exact h c hc rfl
    refine .pending (i := i) ?_ ?_ ?_ (ht.keep hS hs hne hi) (visitors_turn ?_ hn)
    · rw [place_client, hc', hc]
    · rw [place_link]; exact (congrArg View.stream he).trans hr
    · rw [place_link]; exact (congrArg View.sink he).trans hw
    · rw [hc', fresh_self]
  · exact hf

/-- The task that gives a client up goes on with that, and nobody else does anything about it. -/
theorem Fate.turn_leaving {o : Option Stage} {i : Nat} {q : Stage} {k : Releasing} (hS : s.Sound)
    (hv : s.Serves o) (hi : s.stage? i = some q) (hk : q.releasing? = some k)
    (htr : Tracks s.link x k) (hg : s.generation = c.generation) (hn : visitors ns = [])
    (hs : s.stage? id = some stage) (ht : Turn s id stage r s₁ next out) :
    Fate c x (ns ++ [⟨s, .step (.task id) r, s₁.place id next, { report := out }⟩])
      (s₁.place id next) := by
  have hq := serves_of_releasing hk
  have hcn := hv.no_client hi hq
  obtain ⟨rfl, ho⟩ := hv.1.others hi hq
  by_cases hne : i = id
  · subst hne
    obtain rfl : q = stage := Option.some.inj (hi.symm.trans hs)
    have goes : ∀ {k' st' out'}, Releases s i k r s₁ (some k') out' → next = some st' →
        st'.releasing? = some k' → Fate c x
          (ns ++ [⟨s, .step (.task i) r, s₁.place i next, { report := out }⟩])
          (s₁.place i next) := by
      intro k' st' out' hr hst hk'
      refine .leaving ((ht.mine hS hs).trans hst) hk' ?_ ?_ (visitors_turn ?_ hn)
      · rw [place_link]; exact hr.tracks htr
      · rw [place_generation, hr.generation, hg]
      · rw [hr.client, fresh_self]
    cases ht with
    | losing hr => cases hk; exact goes hr rfl rfl
    | releasing hr => cases hk; exact goes hr rfl rfl
    | lost hr => cases hk; exact .of_released hS hv hs rfl (.lost hr) ⟨_, hr⟩ hg hn
    | released hr => cases hk; exact .of_released hS hv hs rfl (.released hr) ⟨_, hr⟩ hg hn
    | look h => cases h <;> cases hk
    | _ => cases hk
  · obtain ⟨hst, hcl⟩ := ho id stage hs (Ne.symm hne)
    rcases ht.bystander hst hcl with he | ⟨c', st, hc', -⟩
    · refine .leaving (ht.keep hS hs hne hi) hk ?_ ?_ (visitors_turn ?_ hn)
      · have h₁ : s₁.link.stream = s.link.stream := congrArg View.stream he
        have h₂ : s₁.link.queue.stream = s.link.queue.stream := congrArg View.sink he
        rw [place_link]
        unfold Tracks at htr ⊢
        rw [h₁, h₂]
        exact htr
      · rw [place_generation]
        exact (congrArg View.generation he).trans hg
      · rw [show s₁.client = s.client from congrArg View.client he, fresh_self]
    · rw [hcn] at hc'; cases hc'

theorem Turn.keeps_accepting {o : Option Stage} (hS : s.Sound) (hv : s.Serves o)
    (hacc : ∃ n st, s.stage? n = some st ∧ st.accepts = true) (hs : s.stage? id = some stage)
    (ht : Turn s id stage r s₁ next out) (hf : fresh s.client s₁.client = []) :
    s₁.generation = s.generation ∧
      ∃ n st, (s₁.place id next).stage? n = some st ∧ st.accepts = true := by
  obtain ⟨i, st, hi, hst⟩ := hacc
  have hsv := serves_of_accepts hst
  have hcn := hv.no_client hi hsv
  obtain ⟨rfl, ho⟩ := hv.1.others hi hsv
  by_cases hne : i = id
  · subst hne
    obtain rfl : st = stage := Option.some.inj (hi.symm.trans hs)
    rcases ht.accepts hst hv.2 with ⟨st', rfl, hst', hg'⟩ | hf'
    · exact ⟨hg', i, st', ht.mine hS hs, hst'⟩
    · exact absurd hf hf'
  · obtain ⟨hst', hcl⟩ := ho id stage hs (Ne.symm hne)
    rcases ht.bystander hst' hcl with he | ⟨c', st', hc', -⟩
    · exact ⟨congrArg View.generation he, i, st, ht.keep hS hs hne hi, hst⟩
    · rw [hcn] at hc'; cases hc'

/-- A turn of a task takes a client further on its way. -/
theorem Fate.turn {o : Option Stage} (hS : s.Sound) (hv : s.Serves o) (h : Fate c x ns s)
    (hs : s.stage? id = some stage) (ht : Turn s id stage r s₁ next out)
    (hx : (Act.step (.task id) r).stream? ≠ some x) :
    Fate c x (ns ++ [⟨s, .step (.task id) r, s₁.place id next, { report := out }⟩])
      (s₁.place id next) := by
  cases h with
  | pending hc hr hw hi hn => exact .turn_pending hS hv hc hr hw hi hn hs ht
  | leaving hi hk htr hg hn => exact .turn_leaving hS hv hi hk htr hg hn hs ht
  | gone hnot hr hacc hlater =>
      refine .gone ?_ (reregistered_append hr) ?_ ?_
      · intro hh
        exact ((Does.turn hs ht).holds hS hh).elim hnot hx
      · intro hn
        rw [visitors_snoc, List.append_eq_nil_iff, place_client] at hn
        obtain ⟨hg, hacc⟩ := hacc hn.1
        obtain ⟨hg', hacc'⟩ := ht.keeps_accepting hS hv hacc hs hn.2
        exact ⟨(place_generation s₁).trans (hg'.trans hg), hacc'⟩
      · intro hn
        rw [visitors_snoc, place_client] at hn
        rw [place_generation]
        by_cases hv : visitors ns = []
        · rw [hv, List.nil_append] at hn
          rcases ht.client with ⟨-, hc | hc⟩ | ⟨hg, -⟩
          · rw [hc, fresh_self] at hn; exact absurd rfl hn
          · rw [hc] at hn; exact absurd (by simp [fresh]) hn
          · have := (hacc hv).1
            omega
        · have := hlater hv
          rcases ht.client with ⟨hg, -⟩ | ⟨hg, -⟩ <;> omega

theorem done_of_read {l l' : Link} {w : Worker} {y : StreamId} {result : Except Fault Bytes}
    {p : Progress Link.Reading Link.Seen}
    (h : l.resumeReading w (.reading y) (.read result) = some (l', p)) :
    p = .done (.ofRead result) := by
  simp only [Link.resumeReading] at h
  split at h
  · cases ‹Reply.read result = .go›
  · rename_i he
    cases he
    obtain ⟨-, h⟩ := Option.ite_none_right_eq_some.mp h
    cases h
    rfl
  · cases h

theorem Turn.of_end {g : Nat} {y : StreamId} {result : Except Fault Bytes}
    (h : Turn s id (.reading g (.reading y)) (.read result) s₁ next out)
    (he : ends (.ofRead result) = true) (hc : s.client = some c) (hg : c.generation = g) :
    s₁.client = none := by
  cases h with
  | look h => cases h
  | read h => cases done_of_read h
  | report h hn =>
      cases done_of_read h
      exact absurd hg (hn he c hc)
  | lose => rfl

/-- At the moment at which it is given up, a client is on its way. -/
theorem fate_of_givesUp (hr : (machine t).Run ms s) (hp : s.perform a = some (s', e))
    (hc : s.client = some c) (hx : s.link.stream = some x) (hg : GivesUp c ⟨s, a, s', e⟩) :
    Fate c x [⟨s, a, s', e⟩] s' := by
  have hS := sound_of_run hr
  have hopen : s.phase ≠ .closed := by
    intro hcl
    rw [(shut_of_run hr hcl).client] at hc
    cases hc
  obtain ⟨o, hv, -⟩ := serves_of_run hr hopen
  have hd := does_of_perform hp
  have ended : ∀ {n z result}, s.stage? n = some (.reading c.generation (.reading z)) →
      a = .step (.task n) (.read result) → ends (.ofRead result) = true →
      Fate c x [⟨s, a, s', e⟩] s' := by
    intro n z result hs ha he
    cases hd with
    | turn hs' ht =>
        cases ha
        obtain rfl := Option.some.inj (hs.symm.trans hs')
        have hcn := ht.of_end he hc rfl
        rcases ht.keeps_or_loses hS hv hc hx (show visitors [] = [] from rfl) hs with h | ⟨-, hf⟩
        · have h : _ = s.client := congrArg View.client h
          rw [hc] at h
          cases h.symm.trans hcn
        · exact hf
    | close h => rcases h with h | h <;> subst h <;> cases ha
    | aside h => exact absurd ha (h _ _)
    | _ => cases ha
  cases hg with
  | owner ha =>
      cases hd with
      | disconnect hc' =>
          obtain rfl := Option.some.inj (hc'.symm.trans hc)
          obtain ⟨rfl, y, hsv⟩ := hv.2.of_client hc
          obtain rfl : y = x := Option.some.inj (hsv.stream.symm.trans hx)
          refine .pending (i := s.nextTask) hc hx hsv.sink ?_ (by simp [visitors, fresh, hc])
          rw [stage?_spawn (s := { s with link := s.link.markClosed.signal .disconnect }) hS.tidy]
          exact Function.update_self ..
      | close h => rcases h with h | h <;> subst h <;> cases ha
      | aside _ _ h => rw [h ha] at hc; cases hc
      | _ => cases ha
  | ended hs ha => exact ended hs ha rfl
  | failed hs ha hf => exact ended hs ha hf

/-- As long as the server is not closed, a client stays on its way. -/
theorem Fate.goes_on (hr : (machine t).Run ms s) (h : s.phase ≠ .closed → Fate c x ns s)
    (ha : (machine t).allows ms a = true) (hp : s.perform a = some (s', e)) (hx : x ∈ handed ms)
    (hopen : s'.phase ≠ .closed) : Fate c x (ns ++ [⟨s, a, s', e⟩]) s' := by
  have hS := sound_of_run hr
  have hd := does_of_perform hp
  have hopen' : s.phase ≠ .closed := fun hcl => hopen (hd.phase hcl)
  obtain ⟨o, hv, -⟩ := serves_of_run hr hopen'
  have hnew : a.stream? ≠ some x := by
    intro hs
    have ha : a.stream?.all (!(handed ms).contains ·) = true := ha
    rw [hs, Option.all_some, List.contains_iff_mem.mpr hx] at ha
    cases ha
  rcases hd.turn_or_aside with ⟨n, r, st, s₁, next, out, rfl, rfl, rfl, hs, ht⟩ | hne
  · exact (h hopen').turn hS hv hs ht hnew
  · exact (h hopen').aside hS hd hne hopen hnew

theorem handed_of_mem (hx : x ∈ handed ms) : x ∈ handed (ms ++ ns) := by
  rw [handed_append]
  exact List.mem_append_left _ hx

/-- What is on its way after the first part of a run is so at its end. -/
theorem Fate.since {bs : List Moment} (h : (machine t).Run (ms ++ ns ++ bs) s) (hx : x ∈ handed ms)
    (start : ∀ {s₀}, (machine t).Run (ms ++ ns) s₀ → s₀.phase ≠ .closed → Fate c x ns s₀)
    (hp : s.phase ≠ .closed) : Fate c x (ns ++ bs) s := by
  refine h.since (P := fun bs s => s.phase ≠ .closed → Fate c x (ns ++ bs) s) ?_ ?_ hp
  · intro s₀ h₀ hopen
    rw [List.append_nil]
    exact start h₀ hopen
  · intro bs s a s' e hr ha hp ih hopen
    rw [← List.append_assoc]
    exact Fate.goes_on hr ih ha hp (handed_of_mem (handed_of_mem hx)) hopen

/-- From then on it stays on its way. -/
theorem fate_of_run (h : (machine t).Run (ms ++ m :: ns) s) (hc : m.before.client = some c)
    (hx : m.before.link.stream = some x) (hg : GivesUp c m) (hp : s.phase ≠ .closed) :
    Fate c x (m :: ns) s := by
  obtain ⟨hr, -, hpm, -⟩ := h.moment
  have hrun : (machine t).Run (ms ++ [m] ++ ns) s := by simpa using h
  refine Fate.since hrun (handed_of_holds hr (.reader hx)) ?_ hp
  intro s₀ h₀ _
  obtain ⟨-, -, -, rfl⟩ := h₀.unsnoc
  exact fate_of_givesUp hr hpm hc hx hg

/-- A client is still there, with its stream. -/
structure Stays (c : Client) (x : StreamId) (ns : List Moment) (s : Server) : Prop where
  client : s.client = some c
  stream : s.link.stream = some x
  visitors : visitors ns = []

/-- From a moment on at which it is there, a client stays or is on its way. -/
theorem stays_or_fate (h : (machine t).Run (ms ++ m :: ns) s) (hc : m.before.client = some c)
    (hx : m.before.link.stream = some x) (hp : s.phase ≠ .closed) :
    Stays c x (m :: ns) s ∨ Fate c x (m :: ns) s := by
  obtain ⟨hr, -, hpm, -⟩ := h.moment
  have hx' := handed_of_holds hr (.reader hx)
  have step : ∀ {ms ns s a s' e}, (machine t).Run ms s → (machine t).allows ms a = true →
      s.perform a = some (s', e) → x ∈ handed ms → s'.phase ≠ .closed →
      (s.phase ≠ .closed → Stays c x ns s ∨ Fate c x ns s) →
      Stays c x (ns ++ [⟨s, a, s', e⟩]) s' ∨ Fate c x (ns ++ [⟨s, a, s', e⟩]) s' := by
    intro ms ns s a s' e hr ha hp hx hopen ih
    have hd := does_of_perform hp
    have hopen' : s.phase ≠ .closed := fun hcl => hopen (hd.phase hcl)
    rcases ih hopen' with ⟨hc, hx, hv⟩ | hf
    · have hS := sound_of_run hr
      obtain ⟨o, hsv, -⟩ := serves_of_run hr hopen'
      rcases hd.turn_or_aside with ⟨n, r, st, s₁, next, out, rfl, rfl, rfl, hs, ht⟩ | hne
      · refine (ht.keeps_or_loses hS hsv hc hx hv hs).imp (fun he => ?_) fun h => h.2
        have hc' : s₁.client = s.client := congrArg View.client he
        refine ⟨?_, ?_, visitors_turn (by rw [hc', fresh_self]) hv⟩
        · rw [place_client, hc', hc]
        · rw [place_link]
          exact (congrArg View.stream he).trans hx
      · obtain ⟨h₁, -, h₃, -⟩ := hd.quiet hS hne
        have h₃ := h₃.resolve_right fun h => hopen h.1
        exact .inl ⟨h₃.trans hc, h₁.trans hx, by rw [visitors_snoc, hv, h₃, fresh_self]; rfl⟩
    · exact .inr (Fate.goes_on hr (fun _ => hf) ha hp hx hopen)
  have hrun : (machine t).Run ((ms ++ [m]) ++ ns) s := by simpa using h
  refine hrun.since
    (P := fun ns s => s.phase ≠ .closed → Stays c x (m :: ns) s ∨ Fate c x (m :: ns) s) ?_ ?_ hp
  · intro s₀ h₀ hopen
    obtain ⟨-, ha, -, rfl⟩ := h₀.unsnoc
    have start : Stays c x [] m.before := ⟨hc, hx, rfl⟩
    exact step hr ha hpm hx' hopen fun _ => .inl start
  · intro ns s a s' e hr' ha hp' ih hopen
    exact step hr' ha hp' (handed_of_mem (handed_of_mem hx')) hopen ih

end Rfcomm.Server
