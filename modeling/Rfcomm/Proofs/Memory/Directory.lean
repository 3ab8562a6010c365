import Rfcomm.Memory.Directory
import Rfcomm.Proofs.Machine
import Rfcomm.Proofs.Memory.Numbers
/-!
Advertisements on one directory. An advertisement knows whether it is registered, the directory knows
what is registered, and others use the directory without an advertisement. In whatever order they
register and take back, the directory lists what is held, and each of them loses only its own.
-/
namespace Rfcomm.Memory

namespace Directory

/-- A directory in which each registration has a number of its own, below the next one. -/
structure Numbered (d : Directory) : Prop where
  nodup : (d.records.map (·.1)).Nodup
  lt : ∀ q ∈ d.records, q.1 < d.nextSession

/-- One registration more, and nothing else. -/
structure Gains (d : Directory) (p : SessionId × Record) (d' : Directory) : Prop where
  records : d'.records.Perm (p :: d.records)
  registrations : d'.registrations = d.registrations + 1
  withdrawals : d'.withdrawals = d.withdrawals
  rejecting : d'.rejecting = d.rejecting

/-- One registration less, and nothing else. -/
structure Loses (d : Directory) (p : SessionId × Record) (d' : Directory) : Prop where
  records : d.records.Perm (p :: d'.records)
  registrations : d'.registrations = d.registrations
  withdrawals : d'.withdrawals = d.withdrawals + 1
  rejecting : d'.rejecting = d.rejecting

variable {d d' : Directory} {session : SessionId} {record : Record} {a : Advertisement}
  {p : SessionId × Record}

theorem Gains.counted (hg : d.Gains p d') (h : d.registrations = d.withdrawals + d.records.length) :
    d'.registrations = d'.withdrawals + d'.records.length := by
  rw [hg.registrations, hg.withdrawals, hg.records.length_eq, h]
  rfl

theorem Loses.counted (hl : d.Loses p d') (h : d.registrations = d.withdrawals + d.records.length) :
    d'.registrations = d'.withdrawals + d'.records.length := by
  rw [hl.registrations, hl.withdrawals, h, hl.records.length_eq, List.length_cons]
  omega

/-! ## Registering -/

theorem register_eq (h : d.register record = .ok (session, d')) :
    session = d.nextSession ∧ d'.records = d.records ++ [(session, record)] ∧
      d'.nextSession = d.nextSession + 1 := by
  unfold register at h
  split at h <;> cases h
  exact ⟨rfl, rfl, rfl⟩

theorem gains_of_register (h : d.register record = .ok (session, d')) :
    d.Gains (session, record) d' := by
  unfold register at h
  split at h <;> cases h
  exact ⟨List.perm_append_singleton .., rfl, rfl, rfl⟩

theorem Numbered.register (h : d.Numbered) (hr : d.register record = .ok (session, d')) :
    d'.Numbered := by
  obtain ⟨rfl, hrec, hnext⟩ := register_eq hr
  refine ⟨?_, ?_⟩
  · rw [hrec]
    exact nodup_snoc h.nodup h.lt record
  · rw [hrec, hnext]
    exact lt_snoc h.lt record

theorem activate_of_active (h : a.isActive = true) : d.activate a = .ok (a, d) := if_pos h

theorem activate_of_rejecting (h : a.isActive = false) (hr : d.rejecting = true) :
    d.activate a = .error (.advertise rejection) := by
  simp [activate, register, h, hr]

theorem activate_of_accepting (h : a.isActive = false) (hr : d.rejecting = false) :
    ∃ session d', d.register a.record = .ok (session, d') ∧
      d.activate a = .ok (a.hold session, d') := by
  simp [activate, register, h, hr]

/-! ## Taking back -/

theorem withdraw_absent (h : session ∉ d.records.map (·.1)) : d.withdraw session = d := by
  refine if_neg fun hany => h ?_
  obtain ⟨p, hp, he⟩ := List.any_eq_true.mp hany
  exact List.mem_map.mpr ⟨p, hp, of_decide_eq_true he⟩

theorem withdraw_records (d : Directory) (session : SessionId) :
    (d.withdraw session).records = d.records.filter (·.1 ≠ session) := by
  by_cases h : session ∈ d.records.map (·.1)
  · obtain ⟨p, hp, he⟩ := List.mem_map.mp h
    rw [withdraw, if_pos (List.any_eq_true.mpr ⟨p, hp, decide_eq_true he⟩)]
  · rw [withdraw_absent h, filter_of_not_mem h]

theorem withdraw_nextSession (d : Directory) (session : SessionId) :
    (d.withdraw session).nextSession = d.nextSession := by
  unfold withdraw
  split <;> rfl

theorem Numbered.withdraw (h : d.Numbered) (session : SessionId) : (d.withdraw session).Numbered := by
  refine ⟨?_, ?_⟩
  · rw [withdraw_records]
    exact h.nodup.sublist (List.filter_sublist.map _)
  · intro q hq
    rw [withdraw_records] at hq
    rw [withdraw_nextSession]
    exact h.lt q (List.mem_filter.mp hq).1

theorem Numbered.loses (h : d.Numbered) (hp : (session, record) ∈ d.records) :
    d.Loses (session, record) (d.withdraw session) := by
  have hany : d.records.any (·.1 = session) = true := List.any_eq_true.mpr ⟨_, hp, by simp⟩
  rw [Directory.withdraw, if_pos hany]
  exact ⟨perm_cons_filter h.nodup hp, rfl, rfl, rfl⟩

theorem retire_of_inactive (h : a.session = none) : d.retire a = (a, d) := by
  obtain ⟨record, session⟩ := a
  cases h
  rfl

theorem retire_of_session (h : a.session = some session) :
    d.retire a = ({ a with session := none }, d.withdraw session) := by
  simp only [retire, Advertisement.release, h]

end Directory

/-- Advertisements on one directory. -/
structure Board where
  directory : Directory := {}
  advertisements : List Advertisement := []

namespace Board

/-- What can be done at a board: with one of its advertisements, or with the directory itself. -/
inductive Act
  | create (record : Record)
  | activate (i : Nat)
  | retire (i : Nat)
  | register (record : Record)
  | withdraw (session : SessionId)
  | setRejecting (on : Bool)

inductive Effect
  | done
  | activated (result : Except Error Unit)
  | registered (result : Except String SessionId)

def perform (b : Board) : Act → Option (Board × Effect)
  | .create record => some ({ b with advertisements := b.advertisements ++ [{ record }] }, .done)
  | .activate i =>
    b.advertisements[i]?.map fun a =>
      match b.directory.activate a with
      | .ok (a, directory) =>
        ({ directory, advertisements := b.advertisements.set i a }, .activated (.ok ()))
      | .error reason => (b, .activated (.error reason))
  | .retire i =>
    b.advertisements[i]?.map fun a =>
      let (a, directory) := b.directory.retire a
      ({ directory, advertisements := b.advertisements.set i a }, .done)
  | .register record =>
    match b.directory.register record with
    | .ok (session, directory) => some ({ b with directory }, .registered (.ok session))
    | .error reason => some (b, .registered (.error reason))
  | .withdraw session => some ({ b with directory := b.directory.withdraw session }, .done)
  | .setRejecting on => some ({ b with directory := b.directory.setRejecting on }, .done)

abbrev Moment := Rfcomm.Moment Board Act Effect

/-- What happened at a board, as far as it bears on the directory. -/
structure Log where
  /-- The records that advertisements were created for. -/
  created : List Record := []
  /-- The registrations that were given to others than the advertisements. -/
  given : List SessionId := []
  /-- Those of them that were not taken back since, each with what was registered. -/
  direct : List (SessionId × Record) := []

def Log.add (l : Log) (m : Moment) : Log :=
  match m.act, m.effect with
  | .create record, _ => { l with created := l.created ++ [record] }
  | .register record, .registered (.ok session) =>
    { l with given := l.given ++ [session], direct := l.direct ++ [(session, record)] }
  | .withdraw session, _ => { l with direct := l.direct.filter (·.1 ≠ session) }
  | _, _ => l

def log (ms : List Moment) : Log := ms.foldl Log.add {}

/-- A board with its surroundings, where everybody takes back only what was given to them, perhaps more
than once. -/
def machine : Machine Board Act Effect where
  start := {}
  perform := perform
  allows ms
    | .withdraw session => (log ms).given.contains session
    | _ => true

/-- What the directory lists for an advertisement. -/
def listing? (a : Advertisement) : Option (SessionId × Record) := a.session.map (·, a.record)

/-- A board whose directory mirrors what is active and what is held. -/
structure Mirrored (l : Log) (b : Board) : Prop where
  records : b.directory.records.Perm (b.advertisements.filterMap listing? ++ l.direct)
  sole : (b.directory.records.map (·.1)).Nodup
  /-- The advertisements are still for the records that they were created for. -/
  kept : b.advertisements.map (·.record) = l.created
  counted : b.directory.registrations = b.directory.withdrawals + b.directory.records.length
  activated : ∀ i a, b.advertisements[i]? = some a → a.isActive = false →
    b.directory.rejecting = false → ∃ session b',
      b.perform (.activate i) = some (b', .activated (.ok ())) ∧
      b'.advertisements = b.advertisements.set i (a.hold session) ∧
      b.directory.Gains (session, a.record) b'.directory
  rejected : ∀ i a, b.advertisements[i]? = some a → a.isActive = false →
    b.directory.rejecting = true →
    b.perform (.activate i) = some (b, .activated (.error (.advertise Directory.rejection)))
  /-- Who is active is not registered again. -/
  active : ∀ i a, b.advertisements[i]? = some a → a.isActive = true →
    b.perform (.activate i) = some (b, .activated (.ok ()))
  retired : ∀ i a session, b.advertisements[i]? = some a → a.session = some session → ∃ b',
    b.perform (.retire i) = some (b', .done) ∧
    b'.advertisements = b.advertisements.set i { a with session := none } ∧
    b.directory.Loses (session, a.record) b'.directory
  inactive : ∀ i a, b.advertisements[i]? = some a → a.isActive = false →
    b.perform (.retire i) = some (b, .done)
  withdrawn : ∀ session record, (session, record) ∈ l.direct → ∃ b',
    b.perform (.withdraw session) = some (b', .done) ∧
    b'.advertisements = b.advertisements ∧
    b.directory.Loses (session, record) b'.directory
  spent : ∀ session ∈ l.given, (∀ record, (session, record) ∉ l.direct) →
    b.perform (.withdraw session) = some (b, .done)

/-- The directory and who holds its registrations agree. -/
structure Agrees (l : Log) (b : Board) : Prop where
  numbered : b.directory.Numbered
  records : b.directory.records.Perm (b.advertisements.filterMap listing? ++ l.direct)
  kept : b.advertisements.map (·.record) = l.created
  counted : b.directory.registrations = b.directory.withdrawals + b.directory.records.length
  lt : ∀ session ∈ l.given, session < b.directory.nextSession
  /-- What an advertisement holds was given to nobody else. -/
  apart : ∀ p ∈ b.advertisements.filterMap listing?, p.1 ∉ l.given

variable {b b' : Board} {l : Log} {d : Directory} {as : List Advertisement} {a : Advertisement} {i : Nat}
  {session : SessionId} {record : Record} {act : Act} {e : Effect} {ms : List Moment} {m : Moment}

/-! ## The advertisements -/

theorem listings_set (hi : i < as.length) (a : Advertisement) : ((as.set i a).filterMap listing?).Perm
    ((listing? a).toList ++ (as.eraseIdx i).filterMap listing?) := by
  have h := (List.set_perm_cons_eraseIdx hi a).filterMap listing?
  rw [List.filterMap_cons] at h
  cases hl : listing? a <;> simpa [hl] using h

theorem set_self (hi : as[i]? = some a) : as.set i a = as := by
  obtain ⟨hlt, rfl⟩ := List.getElem?_eq_some_iff.mp hi
  exact List.set_getElem_self hlt

theorem listings_hold (hi : as[i]? = some a) (ha : a.session = none) (session : SessionId) :
    ((as.set i (a.hold session)).filterMap listing?).Perm
      ((session, a.record) :: as.filterMap listing?) := by
  obtain ⟨hlt, -⟩ := List.getElem?_eq_some_iff.mp hi
  have hold := listings_set hlt a
  rw [set_self hi, listing?, ha] at hold
  exact (listings_set hlt _).trans (hold.symm.cons _)

theorem listings_release (hi : as[i]? = some a) (ha : a.session = some session) :
    (as.filterMap listing?).Perm
      ((session, a.record) :: (as.set i { a with session := none }).filterMap listing?) := by
  obtain ⟨hlt, -⟩ := List.getElem?_eq_some_iff.mp hi
  have hold := listings_set hlt a
  rw [set_self hi, listing?, ha] at hold
  exact hold.trans ((listings_set hlt { a with session := none }).symm.cons _)

theorem session_of_inactive (h : a.isActive = false) : a.session = none := by
  simpa [Advertisement.isActive] using h

theorem records_set (hi : as[i]? = some a) (a' : Advertisement) (ha : a'.record = a.record) :
    (as.set i a').map (·.record) = as.map (·.record) := by
  rw [List.map_set, ha, ← List.map_set, set_self hi]

/-! ## What the acts do -/

theorem Agrees.activated (h : Agrees l b) (hi : b.advertisements[i]? = some a)
    (ha : a.session = none) (hr : b.directory.register a.record = .ok (session, d)) :
    Agrees l ⟨d, b.advertisements.set i (a.hold session)⟩ := by
  have hg := Directory.gains_of_register hr
  obtain ⟨rfl, -, hnext⟩ := Directory.register_eq hr
  have hl := listings_hold hi ha b.directory.nextSession
  refine ⟨h.numbered.register hr, ?_, ?_, hg.counted h.counted, ?_, ?_⟩
  · exact (hg.records.trans (h.records.cons _)).trans (hl.symm.append_right _)
  · exact (records_set hi (a.hold _) rfl).trans h.kept
  · intro x hx
    rw [hnext]
    exact Nat.lt_succ_of_lt (h.lt x hx)
  · intro p hp hx
    rcases List.mem_cons.mp (hl.mem_iff.mp hp) with rfl | hp
    · exact Nat.lt_irrefl _ (h.lt _ hx)
    · exact h.apart p hp hx

/-- Whoever holds a registration, the directory lists it and can do without it. -/
theorem Agrees.loses {rest : List (SessionId × Record)} (h : Agrees l b)
    (hp : (b.advertisements.filterMap listing? ++ l.direct).Perm ((session, record) :: rest)) :
    b.directory.Loses (session, record) (b.directory.withdraw session) ∧
      (b.directory.withdraw session).records.Perm rest := by
  have hr := h.records.trans hp
  have hd := h.numbered.loses (hr.mem_iff.mpr List.mem_cons_self)
  -- The directory was the registration and what it lists now, and the registration and the rest.
  exact ⟨hd, (hd.records.symm.trans hr).cons_inv⟩

theorem Agrees.retired (h : Agrees l b) (hi : b.advertisements[i]? = some a)
    (ha : a.session = some session) :
    Agrees l
      ⟨b.directory.withdraw session, b.advertisements.set i { a with session := none }⟩ := by
  have hl := listings_release hi ha
  obtain ⟨hd, hrest⟩ := h.loses (hl.append_right _)
  refine ⟨h.numbered.withdraw session, hrest, ?_, hd.counted h.counted, ?_, ?_⟩
  · exact (records_set hi { a with session := none } rfl).trans h.kept
  · intro x hx
    rw [Directory.withdraw_nextSession]
    exact h.lt x hx
  · exact fun p hp => h.apart p (hl.mem_iff.mpr (List.mem_cons_of_mem _ hp))

theorem Agrees.registered (h : Agrees l b)
    (hr : b.directory.register record = .ok (session, d)) :
    Agrees { l with given := l.given ++ [session], direct := l.direct ++ [(session, record)] }
      { b with directory := d } := by
  have hg := Directory.gains_of_register hr
  obtain ⟨rfl, hrec, hnext⟩ := Directory.register_eq hr
  refine ⟨h.numbered.register hr, ?_, h.kept, hg.counted h.counted, ?_, ?_⟩
  · rw [hrec, ← List.append_assoc]
    exact h.records.append_right _
  · intro x hx
    rw [hnext]
    rcases List.mem_append.mp hx with hx | hx
    · exact Nat.lt_succ_of_lt (h.lt x hx)
    · obtain rfl := List.mem_singleton.mp hx
      exact Nat.lt_succ_self _
  · intro p hp hx
    rcases List.mem_append.mp hx with hx | hx
    · exact h.apart p hp hx
    · have hlt := h.numbered.lt p (h.records.mem_iff.mpr (List.mem_append_left _ hp))
      exact Nat.ne_of_lt hlt (List.mem_singleton.mp hx)

theorem Agrees.nodup (h : Agrees l b) : (l.direct.map (·.1)).Nodup := by
  have hn := (h.records.map (·.1)).nodup_iff.mp h.numbered.nodup
  rw [List.map_append] at hn
  exact hn.of_append_right

theorem Agrees.held (h : Agrees l b) (hp : (session, record) ∈ l.direct) :
    b.directory.Loses (session, record) (b.directory.withdraw session) ∧
      (b.directory.withdraw session).records.Perm
        (b.advertisements.filterMap listing? ++ l.direct.filter (·.1 ≠ session)) :=
  h.loses (((perm_cons_filter h.nodup hp).append_left _).trans List.perm_middle)

/-- What was taken back before is not there any more. -/
theorem Agrees.spent (h : Agrees l b) (hs : session ∈ l.given)
    (hno : ∀ record, (session, record) ∉ l.direct) : b.directory.withdraw session = b.directory := by
  refine Directory.withdraw_absent fun hmem => ?_
  obtain ⟨p, hp, rfl⟩ := List.mem_map.mp hmem
  rcases List.mem_append.mp (h.records.mem_iff.mp hp) with hp | hp
  · exact h.apart p hp hs
  · exact hno p.2 hp

theorem Agrees.withdrawn (h : Agrees l b) (hs : session ∈ l.given) :
    Agrees { l with direct := l.direct.filter (·.1 ≠ session) }
      { b with directory := b.directory.withdraw session } := by
  by_cases hheld : ∃ record, (session, record) ∈ l.direct
  · obtain ⟨record, hp⟩ := hheld
    obtain ⟨hd, hrest⟩ := h.held hp
    refine ⟨h.numbered.withdraw session, hrest, h.kept, hd.counted h.counted, ?_, h.apart⟩
    intro x hx
    rw [Directory.withdraw_nextSession]
    exact h.lt x hx
  · have hno : session ∉ l.direct.map (·.1) := by
      intro hmem
      obtain ⟨p, hp, rfl⟩ := List.mem_map.mp hmem
      exact hheld ⟨p.2, hp⟩
    rw [h.spent hs fun record hp => hheld ⟨record, hp⟩, filter_of_not_mem hno]
    exact h

theorem Agrees.created (h : Agrees l b) (record : Record) :
    Agrees { l with created := l.created ++ [record] }
      { b with advertisements := b.advertisements ++ [{ record }] } := by
  have hl : (b.advertisements ++ [({ record } : Advertisement)]).filterMap listing? =
      b.advertisements.filterMap listing? := by
    rw [List.filterMap_append]
    exact List.append_nil _
  refine ⟨h.numbered, ?_, ?_, h.counted, h.lt, ?_⟩
  · rw [hl]
    exact h.records
  · rw [List.map_append, h.kept]
    rfl
  · rw [hl]
    exact h.apart

/-! ## Performing the acts -/

theorem perform_active (hi : b.advertisements[i]? = some a) (ha : a.isActive = true) :
    b.perform (.activate i) = some (b, .activated (.ok ())) := by
  simp only [perform, hi, Option.map_some, Directory.activate_of_active ha, set_self hi]

theorem perform_rejected (hi : b.advertisements[i]? = some a) (ha : a.isActive = false)
    (hr : b.directory.rejecting = true) :
    b.perform (.activate i) =
      some (b, .activated (.error (.advertise Directory.rejection))) := by
  simp only [perform, hi, Option.map_some, Directory.activate_of_rejecting ha hr]

theorem perform_activated (hi : b.advertisements[i]? = some a) (ha : a.isActive = false)
    (hr : b.directory.rejecting = false) :
    ∃ session d, b.directory.register a.record = .ok (session, d) ∧
      b.perform (.activate i) =
        some (⟨d, b.advertisements.set i (a.hold session)⟩, .activated (.ok ())) := by
  obtain ⟨session, d, hreg, hact⟩ := Directory.activate_of_accepting ha hr
  exact ⟨session, d, hreg, by simp only [perform, hi, Option.map_some, hact]⟩

theorem perform_inactive (hi : b.advertisements[i]? = some a) (ha : a.session = none) :
    b.perform (.retire i) = some (b, .done) := by
  simp only [perform, hi, Option.map_some, Directory.retire_of_inactive ha, set_self hi]

theorem perform_retired (hi : b.advertisements[i]? = some a) (ha : a.session = some session) :
    b.perform (.retire i) = some (⟨b.directory.withdraw session,
      b.advertisements.set i { a with session := none }⟩, .done) := by
  simp only [perform, hi, Option.map_some, Directory.retire_of_session ha]

/-! ## Runs -/

theorem log_snoc : log (ms ++ [m]) = (log ms).add m := by
  rw [log, List.foldl_append]
  rfl

theorem Agrees.perform (h : Agrees l b) (hp : b.perform act = some (b', e))
    (ha : ∀ session, act = .withdraw session → session ∈ l.given) :
    Agrees (l.add ⟨b, act, b', e⟩) b' := by
  cases act with
  | create record =>
    cases hp
    exact h.created record
  | activate i =>
    obtain ⟨a, hi, -⟩ := Option.map_eq_some_iff.mp hp
    cases hact : a.isActive with
    | true =>
      cases (perform_active hi hact).symm.trans hp
      exact h
    | false =>
      cases hr : b.directory.rejecting with
      | true =>
        cases (perform_rejected hi hact hr).symm.trans hp
        exact h
      | false =>
        obtain ⟨session, d, hreg, hp'⟩ := perform_activated hi hact hr
        cases hp'.symm.trans hp
        exact h.activated hi (session_of_inactive hact) hreg
  | retire i =>
    obtain ⟨a, hi, -⟩ := Option.map_eq_some_iff.mp hp
    cases hs : a.session with
    | none =>
      cases (perform_inactive hi hs).symm.trans hp
      exact h
    | some session =>
      cases (perform_retired hi hs).symm.trans hp
      exact h.retired hi hs
  | register record =>
    simp only [Board.perform] at hp
    split at hp <;> cases hp
    · exact h.registered ‹_›
    · exact h
  | withdraw session =>
    cases hp
    exact h.withdrawn (ha session rfl)
  | setRejecting on =>
    cases hp
    exact ⟨⟨h.numbered.nodup, h.numbered.lt⟩, h.records, h.kept, h.counted, h.lt, h.apart⟩

theorem agrees_of_run (h : machine.Run ms b) : Agrees (log ms) b := by
  induction h with
  | start => exact ⟨⟨.nil, nofun⟩, .nil, rfl, rfl, nofun, nofun⟩
  | next _ ha hp ih =>
    rw [log_snoc]
    refine ih.perform hp ?_
    rintro session rfl
    exact List.contains_iff_mem.mp ha

/-- Wherever a run gets to, the directory mirrors what is active and what is held. -/
theorem records_mirrored (h : machine.Run ms b) : Mirrored (log ms) b := by
  have hA := agrees_of_run h
  refine ⟨hA.records, hA.numbered.nodup, hA.kept, hA.counted, fun i a hi ha hr => ?_,
    fun i a => perform_rejected, fun i a => perform_active, fun i a session hi hs => ?_,
    fun i a hi ha => perform_inactive hi (session_of_inactive ha), fun session record hp => ?_,
    fun session hs hno => ?_⟩
  · obtain ⟨session, d, hreg, hp⟩ := perform_activated hi ha hr
    exact ⟨session, _, hp, rfl, Directory.gains_of_register hreg⟩
  · exact ⟨_, perform_retired hi hs, rfl,
      (hA.loses ((listings_release hi hs).append_right _)).1⟩
  · exact ⟨_, rfl, rfl, (hA.held hp).1⟩
  · rw [perform, hA.spent hs hno]

/-- Two advertisements and somebody else with equal records. One advertisement is retired while
registrations are rejected, and what was given directly is taken back twice. -/
theorem records_mirrored_with_equal_records : ∃ ms b, machine.Run ms b ∧
    b.directory.records = [(1, default)] ∧ b.advertisements = [⟨default, some 1⟩, ⟨default, none⟩] ∧
    b.directory.registrations = 3 ∧ b.directory.withdrawals = 2 ∧ (log ms).direct = [] ∧
    Mirrored (log ms) b := by
  have h : (machine.play
      [.create default, .create default, .register default, .activate 0, .activate 1, .activate 0,
        .setRejecting true, .retire 1, .activate 1, .retire 1, .withdraw 0, .activate 0,
        .register default, .withdraw 0]).isSome := rfl
  have hr := Machine.run_of_play (Option.some_get h).symm
  exact ⟨_, _, hr, rfl, rfl, rfl, rfl, rfl, records_mirrored hr⟩

end Board

end Rfcomm.Memory
