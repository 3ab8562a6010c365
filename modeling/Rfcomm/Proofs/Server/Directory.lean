import Rfcomm.Proofs.Memory.Directory
import Rfcomm.Proofs.Server.Custody
/-!
Servers at a directory. The directory carries out at some time what a task of the server asked for, and
the answer arrives at some later time; in between others use the directory as well. A registration of
the server is with its advertisement or with one of its tasks, and they pass it on.
-/
namespace Rfcomm

/-- A server and the directory that its record is registered in. -/
structure Site where
  server : Server
  directory : Memory.Directory := {}
  /-- The answers of the directory that did not arrive yet, by the tasks that they are for. -/
  answers : Nat → Option Reply := fun _ => none

namespace Site

/-- Whether a reply comes from the directory. -/
def isAnswer : Reply → Bool
  | .registered _ | .withdrawn => true
  | _ => false

/-- The registration that an answer brings. -/
def session? : Reply → Option SessionId
  | .registered (.ok session) => some session
  | _ => none

/-- What can be done at a site. -/
inductive Act
  /-- The directory apart, anything that can be done with the server. -/
  | server (a : Server.Act)
  /-- The directory carries out what a task asked for. -/
  | carryOut (n : Nat)
  /-- The answer arrives. -/
  | answer (n : Nat)
  | setRejecting (on : Bool)
  /-- Somebody else registers a record. -/
  | register (record : Record)
  /-- Somebody else takes a registration back. -/
  | withdraw (session : SessionId)

/-- What comes of an act: what it did with the server, and a registration that was made for it. -/
structure Effect where
  server : Option (Server.Act × Server.Effect) := none
  registered : Option SessionId := none

/-- What a directory answers to a call. Not all calls are for it. -/
def respond (d : Memory.Directory) : Call → Option (Reply × Memory.Directory)
  | .register record =>
    match d.register record with
    | .ok (session, d) => some (.registered (.ok session), d)
    | .error reason => some (.registered (.error reason), d)
  | .withdraw session => some (.withdrawn, d.withdraw session)
  | _ => none

/-- What an act does. -/
def perform (s : Site) : Act → Option (Site × Effect)
  | .server a =>
    if a matches .step _ (.registered _) | .step _ .withdrawn then none
    else (s.server.perform a).map fun (server, e) => ({ s with server }, { server := some (a, e) })
  | .carryOut n =>
    match s.answers n, s.server.ask (.task n) with
    | none, .call c =>
      (respond s.directory c).map fun (r, directory) =>
        ({ s with directory, answers := Function.update s.answers n (some r) },
          { registered := session? r })
    | _, _ => none
  | .answer n =>
    (s.answers n).bind fun r =>
      (s.server.perform (.step (.task n) r)).map fun (server, e) =>
        ({ s with server, answers := Function.update s.answers n none },
          { server := some (.step (.task n) r, e) })
  | .setRejecting on => some ({ s with directory := s.directory.setRejecting on }, {})
  | .register record =>
    match s.directory.register record with
    | .ok (_, directory) => some ({ s with directory }, {})
    | .error _ => some (s, {})
  | .withdraw session => some ({ s with directory := s.directory.withdraw session }, {})

/-- One moment of a site. -/
abbrev Moment := Rfcomm.Moment Site Act Effect

/-- What was done with the server. -/
def serverMoments (ms : List Moment) : List Server.Moment :=
  ms.filterMap fun m => m.effect.server.map fun (a, e) => ⟨m.before.server, a, m.after.server, e⟩

/-- The registrations that were made for the server. -/
def own (ms : List Moment) : List SessionId := ms.filterMap (·.effect.registered)

/-- The records that are registered for the server. -/
def listed (s : Site) (ms : List Moment) : List (SessionId × Record) :=
  s.directory.records.filter fun p => (own ms).contains p.1

/-- A site with its surroundings, which hand over no stream twice. Nobody takes the registrations of
others back. -/
def machine (t : Config.Tuning) : Machine Site Act Effect where
  start := { server := .create t }
  perform := perform
  allows ms
    | .server a => a.stream?.all (!(Server.handed (serverMoments ms)).contains ·)
    | .withdraw session => !(own ms).contains session
    | _ => true

/-- What the acts do. -/
inductive Does (s : Site) : Act → Site → Effect → Prop
  | server {a server e} : (∀ w r, a = .step w r → isAnswer r = false) →
      s.server.perform a = some (server, e) →
      Does s (.server a) { s with server } { server := some (a, e) }
  | register {n record session directory} : s.answers n = none →
      s.server.ask (.task n) = .call (.register record) →
      s.directory.register record = .ok (session, directory) →
      Does s (.carryOut n)
        { s with
          directory
          answers := Function.update s.answers n (some (.registered (.ok session))) }
        { registered := some session }
  | reject {n record reason} : s.answers n = none →
      s.server.ask (.task n) = .call (.register record) →
      s.directory.register record = .error reason →
      Does s (.carryOut n)
        { s with answers := Function.update s.answers n (some (.registered (.error reason))) } {}
  | withdraw {n session} : s.answers n = none →
      s.server.ask (.task n) = .call (.withdraw session) →
      Does s (.carryOut n)
        { s with
          directory := s.directory.withdraw session
          answers := Function.update s.answers n (some .withdrawn) } {}
  | answer {n r server e} : s.answers n = some r →
      s.server.perform (.step (.task n) r) = some (server, e) →
      Does s (.answer n) { s with server, answers := Function.update s.answers n none }
        { server := some (.step (.task n) r, e) }
  /-- Others see to it that registrations fail or work, or their own fails. -/
  | aside {a directory} : directory.records = s.directory.records →
      directory.nextSession = s.directory.nextSession → Does s a { s with directory } {}
  | enter {record session directory} : s.directory.register record = .ok (session, directory) →
      Does s (.register record) { s with directory } {}
  | remove {session} : Does s (.withdraw session)
      { s with directory := s.directory.withdraw session } {}

/-- Whether a task at a stage waits for an answer of the directory. -/
def asks (st : Server.Stage) : Bool :=
  st.registers?.isSome || st.withdrawing? matches some (.calling _)

/-- The registration of a record is with the advertisement, or with a task. -/
inductive Has (s : Site) (session : SessionId) (record : Record) : Option Nat → Prop
  | advertisement : s.server.advertisement = some ⟨record, some session⟩ → Has s session record none
  /-- The answer that brings it did not arrive yet. -/
  | answered {n st} : s.server.stage? n = some st → st.registers? = some record →
      s.answers n = some (.registered (.ok session)) → Has s session record (some n)
  | noting {n} : s.server.stage? n = some (.noting record session) → Has s session record (some n)
  /-- It is asked to be taken back, which was not carried out yet. -/
  | withdrawing {n st} : s.server.stage? n = some st → st.withdrawing? = some (.calling session) →
      s.server.advertisement = some ⟨record, none⟩ → s.answers n = none →
      Has s session record (some n)

variable {s s' : Site} {a : Act} {e : Effect} {ms ns : List Moment} {t : Config.Tuning} {n : Nat}
  {session session' : SessionId} {record record' : Record} {p p' : Option Nat} {st : Server.Stage}
  {keys : List SessionId} {r : Reply}

/-! ## What can be done -/

theorem does_of_perform (h : s.perform a = some (s', e)) : Does s a s' e := by
  cases a with
  | server a =>
      obtain ⟨hn, h⟩ := Option.ite_none_left_eq_some.mp h
      obtain ⟨⟨server, e⟩, hp, he⟩ := Option.map_eq_some_iff.mp h
      cases he
      refine .server ?_ hp
      rintro w r rfl
      cases r <;> first | rfl | simp at hn
  | carryOut n =>
      simp only [perform] at h
      split at h
      · rename_i c hn hc
        obtain ⟨⟨r, directory⟩, hr, he⟩ := Option.map_eq_some_iff.mp h
        cases he
        cases c with
        | register record =>
            simp only [respond] at hr
            split at hr <;> cases hr
            · exact .register hn hc ‹_›
            · exact .reject hn hc ‹_›
        | withdraw session =>
            cases hr
            exact .withdraw hn hc
        | _ => cases hr
      · cases h
  | answer n =>
      obtain ⟨r, hr, h⟩ := Option.bind_eq_some_iff.mp h
      obtain ⟨⟨server, e⟩, hp, he⟩ := Option.map_eq_some_iff.mp h
      cases he
      exact .answer hr hp
  | setRejecting on => cases h; exact .aside rfl rfl
  | register record =>
      simp only [perform] at h
      split at h <;> cases h
      · exact .enter ‹_›
      · exact .aside rfl rfl
  | withdraw session => cases h; exact .remove

/-! ## Who has a registration -/

theorem asks_of_registers (h : st.registers? = some record) : asks st = true := by simp [asks, h]

theorem asks_of_calling (h : st.withdrawing? = some (.calling session)) : asks st = true := by
  simp [asks, h]

theorem deals_of_asks (h : asks st = true) : st.deals = true := by
  cases st with
  | undoing k | welcoming _ _ k | retiring k => cases k <;> first | rfl | cases h
  | losing k | releasing k => cases k <;> first | rfl | cases h
  | _ => first | rfl | cases h

theorem Has.deals (h : s.Has session record (some n)) :
    ∃ st, s.server.stage? n = some st ∧ st.deals = true := by
  cases h with
  | answered hs hr => exact ⟨_, hs, deals_of_asks (asks_of_registers hr)⟩
  | noting hs => exact ⟨_, hs, rfl⟩
  | withdrawing hs hw => exact ⟨_, hs, deals_of_asks (asks_of_calling hw)⟩

/-- A server has one registration at a time, in one place. -/
theorem Has.unique (hC : s.server.Custody) (hS : s.server.Sound) (h : s.Has session record p)
    (h' : s.Has session' record' p') : p = p' ∧ session = session' ∧ record = record' := by
  have inactive : ∀ {n x x' c c'}, s.Has x c none → ¬ s.Has x' c' (some n) := by
    rintro n x x' c c' ⟨ha⟩ h
    obtain ⟨st, hs, hd⟩ := h.deals
    exact hC.inactive hs hd ha
  cases p with
  | none =>
      cases p' with
      | some m => exact absurd h' (inactive h)
      | none =>
          cases h with
          | advertisement h =>
              cases h' with
              | advertisement h' => cases h.symm.trans h'; exact ⟨rfl, rfl, rfl⟩
  | some n =>
      cases p' with
      | none => exact absurd h (inactive h')
      | some m =>
          obtain ⟨st, hn, hst⟩ := h.deals
          obtain ⟨st', hm, hst'⟩ := h'.deals
          obtain rfl := hC.sole hS hn hm hst hst'
          refine ⟨rfl, ?_⟩
          cases h with
          | answered hs hr ha =>
              cases h' with
              | answered hs' hr' ha' =>
                  cases hs.symm.trans hs'
                  cases hr.symm.trans hr'
                  cases ha.symm.trans ha'
                  exact ⟨rfl, rfl⟩
              | noting hs' => cases hs.symm.trans hs'; cases hr
              | withdrawing _ _ _ ha' => cases ha.symm.trans ha'
          | noting hs =>
              cases h' with
              | answered hs' hr' => cases hs.symm.trans hs'; cases hr'
              | noting hs' => cases hs.symm.trans hs'; exact ⟨rfl, rfl⟩
              | withdrawing hs' hw' => cases hs.symm.trans hs'; cases hw'
          | withdrawing hs hw hadv ha =>
              cases h' with
              | answered _ _ ha' => cases ha.symm.trans ha'
              | noting hs' => cases hs.symm.trans hs'; cases hw
              | withdrawing hs' hw' hadv' =>
                  cases hs.symm.trans hs'
                  cases hw.symm.trans hw'
                  cases hadv.symm.trans hadv'
                  exact ⟨rfl, rfl⟩

/-! ## A task goes on -/

/-- A task that waits for an answer of the directory goes on with one. -/
theorem answer_of_turn {s s₁ : Server} {next : Option Server.Stage} {out : Server.Report}
    (h : Server.Turn s n st r s₁ next out) (hst : asks st = true) : isAnswer r = true := by
  have withdraws : ∀ {s' k k'}, Server.Withdraws s n k r s' k' → ∀ session, k = .calling session →
      isAnswer r = true := by
    rintro s' k k' h session rfl
    cases h
    rfl
  have releases : ∀ {s' k k' out}, Server.Releases s n k r s' k' out →
      ∀ record, k = .registering record → isAnswer r = true := by
    rintro s' k k' out h record rfl
    cases h <;> rfl
  cases h with
  | register | notRegistered => rfl
  | @undo k _ _ _ h | @undone k _ _ h | @withdraw _ _ k _ _ _ h | @beginAttach _ _ k _ _ h
  | @retire k _ _ _ h | @retired k _ _ h =>
      cases k with
      | waiting => cases hst
      | calling session => exact withdraws h session rfl
  | @losing k _ _ _ _ h | @lost k _ _ _ h | @releasing k _ _ _ _ h | @released k _ _ _ h =>
      cases k with
      | closing | waiting => cases hst
      | registering record => exact releases h record rfl
  | look h => cases h <;> cases hst
  | _ => cases hst

section Turn

variable {s : Site} {stage : Server.Stage} {s₁ : Server} {next : Option Server.Stage}
  {out : Server.Report} {id : Nat}

/-- A site whose task went on, with the answer that it waited for if there was one. -/
abbrev turned (s : Site) (id : Nat) (s₁ : Server) (next : Option Server.Stage) : Site :=
  { s with server := s₁.place id next, answers := Function.update s.answers id none }

theorem turned_advertisement :
    (s.turned id s₁ next).server.advertisement = s₁.advertisement := Server.place_advertisement s₁

/-- The task that goes on takes the registration over from the advertisement, or leaves it there. -/
theorem Has.turn_advertisement (h : s.Has session record none) (hC : s.server.Custody)
    (hS : s.server.Sound) (hs : s.server.stage? id = some stage)
    (ht : Server.Turn s.server id stage r s₁ next out) :
    ∃ p', (s.turned id s₁ next).Has session record p' := by
  obtain ⟨ha⟩ := h
  have hp := ht.passes
  cases hp with
  | aside ha' | receive _ _ _ ha' =>
      exact ⟨_, .advertisement (turned_advertisement.trans (ha'.trans ha))⟩
  | note hst =>
      subst hst
      exact absurd ha (hC.inactive hs rfl)
  | take _ _ _ ha' hnew hnext =>
      cases ha.symm.trans ha'
      obtain ⟨st, rfl, hst⟩ := Option.bind_eq_some_iff.mp hnext
      exact ⟨_, .withdrawing (ht.mine hS hs) hst (turned_advertisement.trans hnew)
        (Function.update_self ..)⟩
  | register _ _ _ _ ha' => cases ha.symm.trans ha'
  | hold hk => cases ha.symm.trans (hC.registering hs hk)

/-- The task that goes on keeps its registration, or puts it into the advertisement. -/
theorem Has.turn_mine (h : s.Has session record (some id)) (hC : s.server.Custody)
    (hS : s.server.Sound) (hs : s.server.stage? id = some stage)
    (ht : Server.Turn s.server id stage r s₁ next out)
    (hr : asks stage = true → s.answers id = some r) :
    ∃ p', (s.turned id s₁ next).Has session record p' := by
  have hp := ht.passes
  cases h with
  | answered hs' hreg ha =>
      obtain rfl := Option.some.inj (hs'.symm.trans hs)
      obtain rfl := Option.some.inj (ha.symm.trans (hr (asks_of_registers hreg)))
      cases hp with
      | aside _ _ hn => exact absurd rfl (hn _ hreg _)
      | receive hst he hnext =>
          subst hst
          cases he
          cases hreg
          exact ⟨_, .noting ((ht.mine hS hs).trans hnext)⟩
      | note _ he | take _ he | register _ he => cases he
      | hold hk he _ hnew =>
          cases he
          cases hreg.symm.trans (Server.of_registering hk).2.2
          refine ⟨_, .advertisement (turned_advertisement.trans (hnew.trans ?_))⟩
          rw [hC.registering hs hk]
          rfl
  | noting hs' =>
      obtain rfl := Option.some.inj (hs'.symm.trans hs)
      cases hp with
      | aside _ hn => exact absurd rfl (hn _ _)
      | receive hst => cases hst
      | note hst _ hnew => cases hst; exact ⟨_, .advertisement (turned_advertisement.trans hnew)⟩
      | take hw => cases hw
      | register hk | hold hk => cases hk
  | withdrawing hs' hw _ ha =>
      obtain rfl := Option.some.inj (hs'.symm.trans hs)
      cases ha.symm.trans (hr (asks_of_calling hw))

/-- What another task has stays with it. -/
theorem Has.turn_other (h : s.Has session record (some n)) (hn : n ≠ id) (hC : s.server.Custody)
    (hS : s.server.Sound) (hs : s.server.stage? id = some stage)
    (ht : Server.Turn s.server id stage r s₁ next out) :
    (s.turned id s₁ next).Has session record (some n) := by
  have hp := ht.passes
  have answers : (s.turned id s₁ next).answers n = s.answers n := Function.update_of_ne hn ..
  cases h with
  | answered hs' hreg ha => exact .answered (ht.keep hS hs hn hs') hreg (answers.trans ha)
  | noting hs' => exact .noting (ht.keep hS hs hn hs')
  | withdrawing hs' hw ha hnone =>
      refine .withdrawing (ht.keep hS hs hn hs') hw (turned_advertisement.trans ?_) (answers.trans hnone)
      cases hp with
      | aside ha' | receive _ _ _ ha' | register _ _ _ _ _ ha' => exact ha'.trans ha
      | note hst =>
          subst hst
          cases ha.symm.trans (hC.fresh hs rfl).1
      | take _ _ _ ha' => cases ha.symm.trans ha'
      | hold hk =>
          exact absurd (hS.holder hs' (Server.of_calling hw).1
            (hS.holds_lock hs (Server.of_registering hk).1)) hn

/-- A registration stays where it is, or the task that goes on passes it on. -/
theorem Has.turn (h : s.Has session record p) (hC : s.server.Custody) (hS : s.server.Sound)
    (hs : s.server.stage? id = some stage) (ht : Server.Turn s.server id stage r s₁ next out)
    (hr : asks stage = true → s.answers id = some r) :
    ∃ p', (s.turned id s₁ next).Has session record p' := by
  cases p with
  | none => exact h.turn_advertisement hC hS hs ht
  | some m =>
      by_cases hm : m = id
      · subst hm
        exact h.turn_mine hC hS hs ht hr
      · exact ⟨_, h.turn_other hm hC hS hs ht⟩

theorem Has.of_turn_advertisement (h : (s.turned id s₁ next).Has session record none)
    (hC : s.server.Custody) (hs : s.server.stage? id = some stage)
    (ht : Server.Turn s.server id stage r s₁ next out)
    (hr : asks stage = true → s.answers id = some r) : ∃ p', s.Has session record p' := by
  obtain ⟨ha⟩ := h
  have ha := turned_advertisement.symm.trans ha
  have hp := ht.passes
  cases hp with
  | aside ha' | receive _ _ _ ha' => exact ⟨_, .advertisement (ha'.symm.trans ha)⟩
  | note hst _ hnew =>
      cases hnew.symm.trans ha
      subst hst
      exact ⟨_, .noting hs⟩
  | take _ _ _ _ hnew => cases hnew.symm.trans ha
  | register _ _ _ _ ha' hnew => cases ha'.symm.trans (hnew.symm.trans ha)
  | hold hk he _ hnew =>
      rw [hC.registering hs hk] at hnew
      cases hnew.symm.trans ha
      subst he
      have hreg := (Server.of_registering hk).2.2
      exact ⟨_, .answered hs hreg (hr (asks_of_registers hreg))⟩

theorem Has.of_turn_mine (h : (s.turned id s₁ next).Has session record (some id))
    (hS : s.server.Sound) (hs : s.server.stage? id = some stage)
    (ht : Server.Turn s.server id stage r s₁ next out)
    (hr : asks stage = true → s.answers id = some r) : ∃ p', s.Has session record p' := by
  have hp := ht.passes
  have mine := ht.mine hS hs
  cases h with
  | answered _ _ ha => cases (Function.update_self ..).symm.trans ha
  | noting hn =>
      have hnext := mine.symm.trans hn
      cases hp with
      | aside _ _ _ hn' => cases (hn' _ hnext).1
      | receive hst he hnext' =>
          cases hnext.symm.trans hnext'
          subst hst he
          exact ⟨_, .answered hs rfl (hr rfl)⟩
      | note _ _ _ hn' => rcases hn' with hn' | hn' <;> cases hnext.symm.trans hn'
      | take _ _ _ _ _ hn' | register _ _ _ _ _ _ hn' => subst hnext; cases hn'
      | hold _ _ hn' => cases hnext.symm.trans hn'
  | withdrawing hn hw ha =>
      have hnext := mine.symm.trans hn
      have ha := turned_advertisement.symm.trans ha
      subst hnext
      cases hp with
      | aside _ _ _ hn' =>
          have := (hn' _ rfl).1
          rw [(Server.of_calling hw).2] at this
          cases this
      | receive _ _ hn' => cases hn'; cases hw
      | note _ _ _ hn' => rcases hn' with hn' | hn' <;> cases hn'; cases hw
      | take _ _ _ ha' hnew hn' =>
          cases hnew.symm.trans ha
          cases hw.symm.trans hn'
          exact ⟨_, .advertisement ha'⟩
      | register _ _ _ _ _ _ hn' => cases hw.symm.trans (Server.of_releasing hn').1
      | hold _ _ hn' => cases hn'

theorem Has.of_turn_other (h : (s.turned id s₁ next).Has session record (some n)) (hn : n ≠ id)
    (hS : s.server.Sound) (hs : s.server.stage? id = some stage)
    (ht : Server.Turn s.server id stage r s₁ next out) : s.Has session record (some n) := by
  have hp := ht.passes
  have answers : (s.turned id s₁ next).answers n = s.answers n := Function.update_of_ne hn ..
  cases h with
  | answered hs' hreg ha =>
      refine .answered (ht.old hS hs hn hs' ?_) hreg (answers.symm.trans ha)
      rintro rfl
      cases hreg
  | noting hs' => exact .noting (ht.old hS hs hn hs' (by simp))
  | withdrawing hs' hw ha hnone =>
      have hs' := ht.old hS hs hn hs' (by rintro rfl; cases hw)
      have ha := turned_advertisement.symm.trans ha
      refine .withdrawing hs' hw ?_ (answers.symm.trans hnone)
      cases hp with
      | aside ha' | receive _ _ _ ha' | register _ _ _ _ _ ha' => exact ha'.symm.trans ha
      | note _ _ hnew => cases hnew.symm.trans ha
      | take _ _ hl => exact absurd (hS.holder hs' (Server.of_calling hw).1 hl) hn
      | hold hk =>
          exact absurd (hS.holder hs' (Server.of_calling hw).1
            (hS.holds_lock hs (Server.of_registering hk).1)) hn

/-- No registration appears when a task goes on. -/
theorem Has.of_turn (hC : s.server.Custody) (hS : s.server.Sound)
    (hs : s.server.stage? id = some stage) (ht : Server.Turn s.server id stage r s₁ next out)
    (hr : asks stage = true → s.answers id = some r)
    (h : (s.turned id s₁ next).Has session record p) : ∃ p', s.Has session record p' := by
  cases p with
  | none => exact h.of_turn_advertisement hC hs ht hr
  | some m =>
      by_cases hm : m = id
      · subst hm
        exact h.of_turn_mine hS hs ht hr
      · exact ⟨_, h.of_turn_other hm hS hs ht⟩

end Turn

end Site

end Rfcomm
