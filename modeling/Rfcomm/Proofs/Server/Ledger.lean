import Rfcomm.Proofs.Server.Directory
/-!
What a directory has of a server. A record of the server is registered just as long as the
advertisement or one of the tasks has the registration, so there is at most one at any time.
-/
namespace Rfcomm

namespace Site

variable {s s' : Site} {a : Act} {e : Effect} {ms ns : List Moment} {t : Config.Tuning} {n : Nat}
  {session session' : SessionId} {record record' : Record} {p p' : Option Nat} {st : Server.Stage}
  {keys : List SessionId} {r : Reply}

/-! ## What tasks ask for -/

theorem asked {s : Server} {c : Call} (h : s.ask (.task n) = .call c) :
    Server.Elsewhere c ∨ ∃ st, s.stage? n = some st ∧
      ((∃ record, c = .register record ∧ st.registers? = some record) ∨
        ∃ session, c = .withdraw session ∧ st.withdrawing? = some (.calling session)) := by
  obtain ⟨st, hs⟩ := Server.stage_of_ask h
  rw [Server.ask_task hs] at h
  have turn : ∀ mine, Ask.turn mine ≠ .call c := by
    intro mine
    cases mine <;> simp [Ask.turn]
  have closing : ∀ k, s.link.askClosing (.task n) k = .call c → Server.Elsewhere c := by
    intro k hk
    cases k with
    | reader | writer => exact absurd hk (turn _)
    | stream y => cases hk; trivial
  have elsewhere : ∀ {c'}, Ask.call c' = .call c → Server.Elsewhere c' → Server.Elsewhere c := by
    rintro c' ⟨⟩ hc
    exact hc
  have withdrawing : ∀ k, s.askWithdrawing n k = .call c →
      ∃ session, c = .withdraw session ∧ k = .calling session := by
    intro k hk
    cases k with
    | waiting => exact absurd hk (turn _)
    | calling session => cases hk; exact ⟨session, rfl, rfl⟩
  cases st with
  | binding record => exact .inl (elsewhere h trivial)
  | accepting l | pausing => exact .inl (elsewhere h trivial)
  | registering record l => cases h; exact .inr ⟨_, hs, .inl ⟨record, rfl, rfl⟩⟩
  | undoing k | welcoming _ _ k | retiring k =>
      obtain ⟨session, rfl, rfl⟩ := withdrawing k h
      exact .inr ⟨_, hs, .inr ⟨session, rfl, rfl⟩⟩
  | losing k | releasing k =>
      cases k with
      | closing address final k => exact .inl (closing k h)
      | waiting => exact absurd h (turn _)
      | registering record => cases h; exact .inr ⟨_, hs, .inl ⟨record, rfl, rfl⟩⟩
  | refusing k | closing k => exact .inl (closing k h)
  | noting => exact absurd h (turn _)
  | attaching address k => cases k <;> exact absurd h (turn _)
  | reading generation g =>
      cases g with
      | start => cases h
      | waiting => exact absurd h (turn _)
      | reading y =>
          simp only [Server.askStage, Link.askReading] at h
          split at h
          · cases h
          · exact .inl (elsewhere h trivial)
  | _ => cases h

theorem asked_register {s : Server} (h : s.ask (.task n) = .call (.register record)) :
    ∃ st, s.stage? n = some st ∧ st.registers? = some record := by
  obtain ⟨st, hs, ⟨_, ⟨⟩, hr⟩ | ⟨_, ⟨⟩, -⟩⟩ := (asked h).resolve_left id
  exact ⟨st, hs, hr⟩

theorem asked_withdraw {s : Server} (h : s.ask (.task n) = .call (.withdraw session)) :
    ∃ st, s.stage? n = some st ∧ st.withdrawing? = some (.calling session) := by
  obtain ⟨st, hs, ⟨_, ⟨⟩, -⟩ | ⟨_, ⟨⟩, hw⟩⟩ := (asked h).resolve_left id
  exact ⟨st, hs, hw⟩

/-! ## What the directory has -/

/-- Of the registrations that were made for a server the directory has those that the server has. -/
structure Ledger (s : Site) (keys : List SessionId) : Prop where
  numbered : s.directory.Numbered
  own_lt : ∀ x ∈ keys, x < s.directory.nextSession
  listed : ∀ {session record p}, s.Has session record p →
    session ∈ keys ∧ (session, record) ∈ s.directory.records
  had : ∀ {session record}, session ∈ keys → (session, record) ∈ s.directory.records →
    ∃ p, s.Has session record p
  answers : ∀ {n r}, s.answers n = some r →
    isAnswer r = true ∧ ∃ st, s.server.stage? n = some st ∧ asks st = true

theorem Ledger.congr (h : s.Ledger keys) (hd : s'.directory.records = s.directory.records)
    (hn : s'.directory.nextSession = s.directory.nextSession)
    (there : ∀ {session record p}, s.Has session record p → ∃ p', s'.Has session record p')
    (back : ∀ {session record p}, s'.Has session record p → ∃ p', s.Has session record p')
    (answers : ∀ {n r}, s'.answers n = some r →
      isAnswer r = true ∧ ∃ st, s'.server.stage? n = some st ∧ asks st = true) :
    s'.Ledger keys := by
  refine ⟨⟨?_, ?_⟩, ?_, ?_, ?_, answers⟩
  · rw [hd]; exact h.numbered.nodup
  · rw [hd, hn]; exact h.numbered.lt
  · rw [hn]; exact h.own_lt
  · intro _ _ _ hp
    obtain ⟨_, hp⟩ := back hp
    rw [hd]
    exact h.listed hp
  · intro _ _ ho hr
    rw [hd] at hr
    obtain ⟨_, hp⟩ := h.had ho hr
    exact there hp

theorem Ledger.turn {stage : Server.Stage} {s₁ : Server} {next : Option Server.Stage}
    {out : Server.Report} {id : Nat} (h : s.Ledger keys) (hC : s.server.Custody)
    (hS : s.server.Sound) (hs : s.server.stage? id = some stage)
    (ht : Server.Turn s.server id stage r s₁ next out)
    (hr : asks stage = true → s.answers id = some r) :
    ({ s with server := s₁.place id next, answers := Function.update s.answers id none } :
      Site).Ledger keys := by
  refine h.congr rfl rfl (fun hp => hp.turn hC hS hs ht hr) (Has.of_turn hC hS hs ht hr) ?_
  intro n r' hn
  by_cases hne : n = id
  · subst hne
    cases (Function.update_self ..).symm.trans hn
  · obtain ⟨ha, st, hst, hasks⟩ := h.answers ((Function.update_of_ne hne ..).symm.trans hn)
    exact ⟨ha, st, ht.keep hS hs hne hst, hasks⟩

theorem not_asks_of_begins (h : st.begins = true) : asks st = false := by
  cases st <;> first | rfl | cases h

theorem Ledger.news {a : Server.Act} {e : Server.Effect} {server : Server} (h : s.Ledger keys)
    (hS : s.server.Sound) (hd : Server.Does s.server a server e)
    (ha : ∀ n r, a ≠ .step (.task n) r) : ({ s with server } : Site).Ledger keys := by
  obtain ⟨hadv, -, hnew⟩ := hd.news hS ha
  have keep := (hd.quiet hS ha).2.2.2
  have old : ∀ {n st}, server.stage? n = some st → st.begins = false →
      s.server.stage? n = some st := by
    intro n st hn hb
    refine (hnew n st hn).resolve_right ?_
    rintro ⟨-, hb', -⟩
    cases hb.symm.trans hb'
  have begins : ∀ {st}, asks st = true → st.begins = false := by
    intro st hst
    by_contra hb
    cases hst.symm.trans (not_asks_of_begins (by simpa using hb))
  refine h.congr rfl rfl ?_ ?_ ?_
  · intro session record p hp
    cases hp with
    | advertisement ha => exact ⟨_, .advertisement (hadv.trans ha)⟩
    | answered hs hr ha => exact ⟨_, .answered (keep _ _ hs) hr ha⟩
    | noting hs => exact ⟨_, .noting (keep _ _ hs)⟩
    | withdrawing hs hw ha hn => exact ⟨_, .withdrawing (keep _ _ hs) hw (hadv.trans ha) hn⟩
  · intro session record p hp
    cases hp with
    | advertisement ha => exact ⟨_, .advertisement (hadv.symm.trans ha)⟩
    | answered hs hr ha => exact ⟨_, .answered (old hs (begins (asks_of_registers hr))) hr ha⟩
    | noting hs => exact ⟨_, .noting (old hs rfl)⟩
    | withdrawing hs hw ha hn =>
        exact ⟨_, .withdrawing (old hs (begins (asks_of_calling hw))) hw (hadv.symm.trans ha) hn⟩
  · intro n r hn
    obtain ⟨ha, st, hst, hasks⟩ := h.answers hn
    exact ⟨ha, st, keep _ _ hst, hasks⟩

theorem Ledger.server {a : Server.Act} {e : Server.Effect} {server : Server} (h : s.Ledger keys)
    (hC : s.server.Custody) (hS : s.server.Sound) (hp : s.server.perform a = some (server, e))
    (ha : ∀ w r, a = .step w r → isAnswer r = false) : ({ s with server } : Site).Ledger keys := by
  have hd := Server.does_of_perform hp
  rcases hd.turn_or_aside with ⟨n, r, st, s₁, next, out, rfl, rfl, rfl, hs, ht⟩ | hne
  · have hasks : asks st = false := by
      by_contra hasks
      cases (ha _ _ rfl).symm.trans (answer_of_turn ht (by simpa using hasks))
    have hnone : s.answers n = none := by
      by_contra hn
      obtain ⟨r', hn⟩ := Option.ne_none_iff_exists'.mp hn
      obtain ⟨-, st', hs', hasks'⟩ := h.answers hn
      cases hs.symm.trans hs'
      cases hasks.symm.trans hasks'
    have := h.turn hC hS hs ht fun hasks' => by cases hasks.symm.trans hasks'
    rwa [Function.update_eq_self_iff.mpr hnone.symm] at this
  · exact h.news hS hd hne

theorem Has.elsewhere (h : s.Has session record p) (hs : s'.server = s.server)
    (hn : s'.answers = s.answers) : s'.Has session record p := by
  cases h with
  | advertisement ha => exact .advertisement (by rw [hs]; exact ha)
  | answered hn' hr ha => exact .answered (by rw [hs]; exact hn') hr (by rw [hn]; exact ha)
  | noting hn' => exact .noting (by rw [hs]; exact hn')
  | withdrawing hn' hw ha hnone =>
      exact .withdrawing (by rw [hs]; exact hn') hw (by rw [hs]; exact ha) (by rw [hn]; exact hnone)

/-- An answer that is still to arrive changes nothing but for the task that it is for. -/
theorem Has.of_update {directory : Memory.Directory}
    (h : ({ s with directory, answers := Function.update s.answers n (some r) } : Site).Has session
      record p) :
    s.Has session record p ∧ (p = some n → ∀ st, s.server.stage? n = some st → asks st = false) ∨
      p = some n ∧ r = .registered (.ok session) ∧
        ∃ st, s.server.stage? n = some st ∧ st.registers? = some record := by
  cases h with
  | advertisement ha => exact .inl ⟨.advertisement ha, by simp⟩
  | @noting m hs =>
      refine .inl ⟨.noting hs, ?_⟩
      rintro ⟨⟩ st hst
      cases hs.symm.trans hst
      rfl
  | @answered m st hs hr ha =>
      by_cases hm : m = n
      · subst hm
        cases (Function.update_self ..).symm.trans ha
        exact .inr ⟨rfl, rfl, st, hs, hr⟩
      · exact .inl ⟨.answered hs hr ((Function.update_of_ne hm ..).symm.trans ha), by simp [hm]⟩
  | @withdrawing m st hs hw ha hn =>
      by_cases hm : m = n
      · subst hm
        cases (Function.update_self ..).symm.trans hn
      · exact .inl ⟨.withdrawing hs hw ha ((Function.update_of_ne hm ..).symm.trans hn), by simp [hm]⟩

theorem Has.update {directory : Memory.Directory} (h : s.Has session record p)
    (hn : s.answers n = none)
    (hw : ∀ st session, s.server.stage? n = some st → st.withdrawing? ≠ some (.calling session)) :
    ({ s with directory, answers := Function.update s.answers n (some r) } : Site).Has session
      record p := by
  cases h with
  | advertisement ha => exact .advertisement ha
  | noting hs => exact .noting hs
  | @answered m st hs hr ha =>
      have hm : m ≠ n := by
        rintro rfl
        cases hn.symm.trans ha
      exact .answered hs hr ((Function.update_of_ne hm ..).trans ha)
  | @withdrawing m st hs hw' ha hnone =>
      have hm : m ≠ n := by
        rintro rfl
        exact hw st _ hs hw'
      exact .withdrawing hs hw' ha ((Function.update_of_ne hm ..).trans hnone)

theorem not_calling_of_registers (hs : s.server.stage? n = some st)
    (hst : st.registers? = some record) (st' : Server.Stage) (session : SessionId)
    (hs' : s.server.stage? n = some st') : st'.withdrawing? ≠ some (.calling session) := by
  intro hw
  cases hs.symm.trans hs'
  cases hst.symm.trans (Server.of_withdrawing hw).2.2

theorem Ledger.answers_update (h : s.Ledger keys) (hr : isAnswer r = true)
    (hs : s.server.stage? n = some st) (hst : asks st = true) {m r'}
    (hm : Function.update s.answers n (some r) m = some r') :
    isAnswer r' = true ∧ ∃ st, s.server.stage? m = some st ∧ asks st = true := by
  by_cases hne : m = n
  · subst hne
    cases (Function.update_self ..).symm.trans hm
    exact ⟨hr, st, hs, hst⟩
  · exact h.answers ((Function.update_of_ne hne ..).symm.trans hm)

/-- A task that registers its record gets a registration that nobody had before. -/
theorem Ledger.registered {directory : Memory.Directory} (h : s.Ledger keys)
    (hn : s.answers n = none) (hs : s.server.stage? n = some st) (hst : st.registers? = some record)
    (hreg : s.directory.register record = .ok (session, directory)) :
    ({ s with
      directory
      answers := Function.update s.answers n (some (.registered (.ok session))) } : Site).Ledger
      (keys ++ [session]) := by
  obtain ⟨rfl, hrec, hnext⟩ := Memory.Directory.register_eq hreg
  refine ⟨h.numbered.register hreg, ?_, ?_, ?_, h.answers_update rfl hs (asks_of_registers hst)⟩
  · intro x hx
    rw [hnext]
    rcases List.mem_append.mp hx with hx | hx
    · exact Nat.lt_succ_of_lt (h.own_lt x hx)
    · obtain rfl := List.mem_singleton.mp hx
      exact Nat.lt_succ_self _
  · intro x c p hp
    rw [hrec]
    rcases hp.of_update with ⟨hp, -⟩ | ⟨-, ⟨⟩, st', hs', hst'⟩
    · exact ⟨List.mem_append_left _ (h.listed hp).1, List.mem_append_left _ (h.listed hp).2⟩
    · cases hs.symm.trans hs'
      cases hst.symm.trans hst'
      exact ⟨by simp, by simp⟩
  · intro x c hx hc
    rw [hrec] at hc
    rcases List.mem_append.mp hc with hc | hc
    · have hlt := h.numbered.lt _ hc
      have hx : x ∈ keys := by
        refine (List.mem_append.mp hx).resolve_right fun hx => ?_
        obtain rfl := List.mem_singleton.mp hx
        exact Nat.lt_irrefl _ hlt
      obtain ⟨p, hp⟩ := h.had hx hc
      exact ⟨p, hp.update hn (not_calling_of_registers hs hst)⟩
    · obtain ⟨rfl, rfl⟩ := Prod.mk.inj (List.mem_singleton.mp hc)
      exact ⟨_, .answered hs hst (Function.update_self ..)⟩

theorem Ledger.rejected {reason : String} (h : s.Ledger keys) (hn : s.answers n = none)
    (hs : s.server.stage? n = some st) (hst : st.registers? = some record) :
    ({ s with
      answers := Function.update s.answers n (some (.registered (.error reason))) } : Site).Ledger
      keys := by
  refine h.congr rfl rfl (fun hp => ⟨_, hp.update hn (not_calling_of_registers hs hst)⟩)
    (fun hp => ?_) (h.answers_update rfl hs (asks_of_registers hst))
  rcases hp.of_update with ⟨hp, -⟩ | ⟨-, ⟨⟩, -⟩
  exact ⟨_, hp⟩

theorem Ledger.withdrawn (h : s.Ledger keys) (hC : s.server.Custody) (hS : s.server.Sound)
    (hn : s.answers n = none) (hs : s.server.stage? n = some st)
    (hst : st.withdrawing? = some (.calling session)) :
    ({ s with
      directory := s.directory.withdraw session
      answers := Function.update s.answers n (some .withdrawn) } : Site).Ledger keys := by
  obtain ⟨record, hadv⟩ := hC.calling hs hst
  have mine : s.Has session record (some n) := .withdrawing hs hst hadv hn
  refine ⟨h.numbered.withdraw session, ?_, fun hp => ?_, ?_,
    h.answers_update rfl hs (asks_of_calling hst)⟩
  · intro x hx
    rw [Memory.Directory.withdraw_nextSession]
    exact h.own_lt x hx
  · -- What the task takes back is all that the server had.
    exfalso
    rcases hp.of_update with ⟨hp, hq⟩ | ⟨-, ⟨⟩, -⟩
    obtain ⟨rfl, -, -⟩ := hp.unique hC hS mine
    cases (hq rfl st hs).symm.trans (asks_of_calling hst)
  · intro x c hx hc
    rw [Memory.Directory.withdraw_records] at hc
    obtain ⟨hc, hne⟩ := List.mem_filter.mp hc
    obtain ⟨p, hp⟩ := h.had hx hc
    obtain ⟨-, rfl, -⟩ := hp.unique hC hS mine
    simp at hne

theorem Ledger.entered {directory : Memory.Directory} (h : s.Ledger keys)
    (hreg : s.directory.register record = .ok (session, directory)) :
    ({ s with directory } : Site).Ledger keys := by
  obtain ⟨rfl, hrec, hnext⟩ := Memory.Directory.register_eq hreg
  refine ⟨h.numbered.register hreg, ?_, ?_, ?_, fun hn => h.answers hn⟩
  · intro x hx
    rw [hnext]
    exact Nat.lt_succ_of_lt (h.own_lt x hx)
  · intro x c p hp
    have hp : s.Has x c p := hp.elsewhere rfl rfl
    obtain ⟨ho, hc⟩ := h.listed hp
    rw [hrec]
    exact ⟨ho, List.mem_append_left _ hc⟩
  · intro x c hx hc
    rw [hrec] at hc
    rcases List.mem_append.mp hc with hc | hc
    · obtain ⟨p, hp⟩ := h.had hx hc
      exact ⟨p, hp.elsewhere rfl rfl⟩
    · cases List.mem_singleton.mp hc
      exact absurd (h.own_lt _ hx) (Nat.lt_irrefl _)

theorem Ledger.removed (h : s.Ledger keys) (hx : session ∉ keys) :
    ({ s with directory := s.directory.withdraw session } : Site).Ledger keys := by
  refine ⟨h.numbered.withdraw session, ?_, ?_, ?_, fun hn => h.answers hn⟩
  · intro x hx
    rw [Memory.Directory.withdraw_nextSession]
    exact h.own_lt x hx
  · intro x c p hp
    have hp : s.Has x c p := hp.elsewhere rfl rfl
    obtain ⟨ho, hc⟩ := h.listed hp
    refine ⟨ho, ?_⟩
    rw [Memory.Directory.withdraw_records, List.mem_filter]
    refine ⟨hc, ?_⟩
    simp only [decide_eq_true_eq]
    rintro rfl
    exact hx ho
  · intro x c hx hc
    rw [Memory.Directory.withdraw_records] at hc
    obtain ⟨p, hp⟩ := h.had hx (List.mem_filter.mp hc).1
    exact ⟨p, hp.elsewhere rfl rfl⟩

theorem Ledger.next (h : s.Ledger keys) (hC : s.server.Custody) (hS : s.server.Sound)
    (hd : Does s a s' e) (ha : ∀ session, a = .withdraw session → session ∉ keys) :
    s'.Ledger (keys ++ e.registered.toList) := by
  have same : e.registered = none → s'.Ledger keys → s'.Ledger (keys ++ e.registered.toList) := by
    intro he h
    rwa [he, Option.toList_none, List.append_nil]
  cases hd with
  | server hn hp => exact same rfl (h.server hC hS hp hn)
  | @answer n r server e hn hp =>
      obtain ⟨-, st, hs, hasks⟩ := h.answers hn
      obtain ⟨_, _, _, _, hs', ht, rfl, rfl⟩ := Server.turn_of_perform hp
      exact same rfl (h.turn hC hS hs' ht fun _ => hn)
  | register hn hask hreg =>
      obtain ⟨st, hs, hst⟩ := asked_register hask
      exact h.registered hn hs hst hreg
  | reject hn hask =>
      obtain ⟨st, hs, hst⟩ := asked_register hask
      exact same rfl (h.rejected hn hs hst)
  | withdraw hn hask =>
      obtain ⟨st, hs, hst⟩ := asked_withdraw hask
      exact same rfl (h.withdrawn hC hS hn hs hst)
  | aside hrec hnext =>
      exact same rfl (h.congr hrec hnext (fun hp => ⟨_, hp.elsewhere rfl rfl⟩)
        (fun hp => ⟨_, hp.elsewhere rfl rfl⟩) fun hn => h.answers hn)
  | enter hreg => exact same rfl (h.entered hreg)
  | remove => exact same rfl (h.removed (ha _ rfl))

/-! ## Runs -/

theorem serverMoments_append (ms ns : List Moment) :
    serverMoments (ms ++ ns) = serverMoments ms ++ serverMoments ns := by simp [serverMoments]

theorem own_append (m : Moment) : own (ms ++ [m]) = own ms ++ m.effect.registered.toList := by
  cases hm : m.effect.registered <;> simp [own, hm]

theorem create_ledger (t : Config.Tuning) : ({ server := .create t } : Site).Ledger [] where
  numbered := ⟨List.nodup_nil, nofun⟩
  own_lt := nofun
  listed := by rintro _ _ _ ⟨⟩ <;> contradiction
  had := nofun
  answers := nofun

/-- The server of a site runs as any server does, and the ledger is kept. -/
theorem ledger_of_run (h : (machine t).Run ms s) :
    (Server.machine t).Run (serverMoments ms) s.server ∧ s.Ledger (own ms) := by
  induction h with
  | start => exact ⟨.start, create_ledger t⟩
  | @next ms s a s' e hr ha hp ih =>
      obtain ⟨hrun, hled⟩ := ih
      have hS := Server.sound_of_run hrun
      have hd := does_of_perform hp
      refine ⟨?_, ?_⟩
      · rw [serverMoments_append]
        cases hd with
        | server _ hp' => exact hrun.next ha hp'
        | @answer n r server e hn hp' =>
            refine hrun.next ?_ hp'
            have := (hled.answers hn).1
            cases r <;> first | rfl | cases this
        | register | reject | withdraw | aside | enter | remove =>
            rwa [show serverMoments [_] = [] from rfl, List.append_nil]
      · rw [own_append]
        refine hled.next (Server.custody_of_run hrun) hS hd ?_
        rintro session rfl
        have ha : (!(own ms).contains session) = true := ha
        simpa using ha

theorem mem_listed (h : (machine t).Run ms s) :
    (session, record) ∈ s.listed ms ↔ ∃ p, s.Has session record p := by
  obtain ⟨-, hled⟩ := ledger_of_run h
  simp only [listed, List.mem_filter, List.contains_iff_mem]
  constructor
  · rintro ⟨hr, ho⟩
    exact hled.had ho hr
  · rintro ⟨p, hp⟩
    exact (hled.listed hp).symm

theorem listed_eq_nil (h : (machine t).Run ms s) (hn : ∀ session record p, ¬ s.Has session record p) :
    s.listed ms = [] := by
  rw [List.eq_nil_iff_forall_not_mem]
  rintro ⟨session, record⟩ hm
  obtain ⟨p, hp⟩ := (mem_listed h).mp hm
  exact hn _ _ _ hp

/-- The registration that a server has is the only one of its record in the directory. -/
theorem listed_eq (h : (machine t).Run ms s) (hp : s.Has session record p) :
    s.listed ms = [(session, record)] := by
  obtain ⟨hrun, hled⟩ := ledger_of_run h
  have hn : (s.listed ms).Nodup := hled.numbered.nodup.of_map.filter _
  rw [← List.perm_singleton, List.perm_ext_iff_of_nodup hn (List.nodup_singleton _)]
  rintro ⟨x, c⟩
  rw [mem_listed h, List.mem_singleton]
  constructor
  · rintro ⟨q, hq⟩
    obtain ⟨-, rfl, rfl⟩ := hq.unique (Server.custody_of_run hrun) (Server.sound_of_run hrun) hp
    rfl
  · rintro ⟨⟩
    exact ⟨p, hp⟩

theorem listed_length (h : (machine t).Run ms s) : (s.listed ms).length ≤ 1 := by
  by_cases hn : ∃ session record p, s.Has session record p
  · obtain ⟨session, record, p, hp⟩ := hn
    simp [listed_eq h hp]
  · rw [listed_eq_nil h fun session record p hp => hn ⟨session, record, p, hp⟩]
    exact Nat.zero_le _

end Site

end Rfcomm
