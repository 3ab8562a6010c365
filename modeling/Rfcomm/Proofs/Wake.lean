import Rfcomm.Proofs.Machine
import Rfcomm.Wake.Pipe
/-!
Who waits for a signal and is told. Signals, drains and waits come in any order, and each wait runs when
somebody gets to it. What is pending is then the strongest signal since the last drain, and a wait ends
with what is pending at the first of its runs that finds something.
-/
namespace Rfcomm.Wake

/-! ## Waits -/

/-- A wait that sleeps found nothing after the last change, or that change woke it. -/
def Wait.Fits (p : Pipe) : Wait → Prop
  | fresh | ended _ => True
  | asleep seen true => seen < p.change
  | asleep seen false => seen = p.change ∧ p.pending = none

variable {p p' : Pipe} {w : Wait} {s : Signal} {i j : Nat}

@[simp] theorem Wait.outcome?_rouse : w.rouse.outcome? = w.outcome? := by
  cases w <;> rfl

theorem Wait.outcome?_look : (look p.wake p.change).outcome? = p.pending := by
  unfold look Pipe.pending
  split <;> rename_i h <;> rw [h] <;> rfl

theorem Wait.fits_look : (look p.wake p.change).Fits p := by
  unfold look
  split
  · trivial
  · exact ⟨rfl, ‹_›⟩

theorem Wait.Fits.put (h : w.Fits p) (v : Wake) : w.rouse.Fits (p.put v) := by
  cases w with
  | fresh => trivial
  | ended s => trivial
  | asleep seen woken =>
    cases woken with
    | true => exact Nat.lt_succ_of_lt h
    | false => exact h.1 ▸ Nat.lt_succ_self _

/-- A run tells a wait what is pending, unless it ended before. -/
theorem Wait.Fits.outcome?_run (h : w.Fits p) :
    (w.run p.wake p.change).outcome? = w.outcome?.or p.pending := by
  cases w with
  | fresh => exact outcome?_look
  | ended s => rfl
  | asleep seen woken =>
    cases woken with
    | true => rw [run, if_neg (Nat.ne_of_lt h), outcome?_look, outcome?, Option.none_or]
    | false => exact h.2.symm

theorem Wait.Fits.run (h : w.Fits p) : (w.run p.wake p.change).Fits p := by
  cases w with
  | fresh => exact fits_look
  | ended s => trivial
  | asleep seen woken =>
    cases woken with
    | true =>
      rw [Wait.run, if_neg (Nat.ne_of_lt h)]
      exact fits_look
    | false => exact h

theorem Wait.Fits.isDue (h : w.Fits p) (ho : w.outcome? = none) (hp : p.pending ≠ none) :
    w.isDue = true := by
  cases w with
  | fresh => rfl
  | ended s => cases ho
  | asleep seen woken =>
    cases woken with
    | true => rfl
    | false => exact absurd h.2 hp

namespace Pipe

/-! ## Acts -/

/-- What can be done with a pipe. -/
inductive Act
  | signal (s : Signal)
  | drain
  | wait
  | run (i : Nat)
deriving DecidableEq

inductive Effect
  | signalled
  | drained (s : Option Signal)
  | started (i : Nat)
  | ran (s : Option Signal)

/-- Does something with a pipe. Only waits that were started run. -/
def perform (p : Pipe) : Act → Option (Pipe × Effect)
  | .signal s => some (p.signal s, .signalled)
  | .drain => some (p.drain.2, .drained p.drain.1)
  | .wait => some (p.wait, .started p.waits.length)
  | .run i => if i < p.waits.length then some ((p.run i).2, .ran (p.run i).1) else none

abbrev Moment := Rfcomm.Moment Pipe Act Effect

def machine : Machine Pipe Act Effect where
  start := {}
  perform := perform

def undrainedAfter (ss : List Signal) (m : Moment) : List Signal :=
  match m.act with
  | .signal s => ss ++ [s]
  | .drain => []
  | .wait | .run _ => ss

/-- What was signalled since the last drain. -/
def undrained (ms : List Moment) : List Signal := ms.foldl undrainedAfter []

/-- What a run of a wait can tell it. -/
def told? (i : Nat) (m : Moment) : Option Signal := if m.act = .run i then m.before.pending else none

/-- What a wait is to end with: what was pending at the first of its runs at which something was. -/
def answer (i : Nat) (ms : List Moment) : Option Signal := ms.findSome? (told? i)

/-- A pipe after these moments. -/
structure Serves (ms : List Moment) (p : Pipe) : Prop where
  close : p.pending = some .close ↔ .close ∈ undrained ms
  disconnect : p.pending = some .disconnect ↔
    .disconnect ∈ undrained ms ∧ .close ∉ undrained ms
  nothing : p.pending = none ↔ undrained ms = []
  drained : ∃ p', p.perform .drain = some (p', .drained p.pending) ∧ p'.pending = none
  /-- A wait that goes on ends with what is pending when it runs, and takes nothing away. -/
  ran : ∀ i, p.isWaiting i = true → ∃ p', p.perform (.run i) = some (p', .ran p.pending) ∧
    (p'.isWaiting i = true ↔ p.pending = none) ∧ p'.pending = p.pending ∧
    ∀ j, j ≠ i → p'.waits[j]? = p.waits[j]?
  /-- Each wait ended with what it had to, or goes on because there was nothing to tell. -/
  told : ∀ i w, p.waits[i]? = some w → w.outcome? = answer i ms
  /-- While something is pending, nobody sleeps. -/
  due : p.pending ≠ none → ∀ w ∈ p.waits, w.outcome? = none → w.isDue = true
  /-- Once all that are due ran, those who waited ended if something was pending, and else go on. -/
  settled : p.runDue.1 = (p.wake.runWaits p.waiting).1 ∧
    p.runDue.2.waiting = (p.wake.runWaits p.waiting).2

/-! ## What is pending -/

variable {ms ns : List Moment} {m : Moment} {ss : List Signal} {o : Option Signal} {e : Effect}
  {act : Act}

/-- The strongest of some signals, if there are any. -/
def Strongest (ss : List Signal) : Option Signal → Prop
  | some .close => .close ∈ ss
  | some .disconnect => .disconnect ∈ ss ∧ .close ∉ ss
  | none => ss = []

theorem Strongest.close_iff (h : Strongest ss o) : o = some .close ↔ .close ∈ ss := by
  match o, h with
  | some .close, h => exact ⟨fun _ => h, fun _ => rfl⟩
  | some .disconnect, h => exact ⟨nofun, fun hc => absurd hc h.2⟩
  | none, h => simp [show ss = [] from h]

theorem Strongest.disconnect_iff (h : Strongest ss o) :
    o = some .disconnect ↔ .disconnect ∈ ss ∧ .close ∉ ss := by
  match o, h with
  | some .close, h => exact ⟨nofun, fun hd => absurd h hd.2⟩
  | some .disconnect, h => exact ⟨fun _ => h, fun _ => rfl⟩
  | none, h => simp [show ss = [] from h]

theorem Strongest.none_iff (h : Strongest ss o) : o = none ↔ ss = [] := by
  match o, h with
  | some .close, h => exact ⟨nofun, fun hn => absurd h (by simp [hn, Strongest])⟩
  | some .disconnect, h => exact ⟨nofun, fun hn => absurd h.1 (by simp [hn])⟩
  | none, h => exact ⟨fun _ => h, fun _ => rfl⟩

theorem Strongest.signal (h : Strongest ss p.pending) (s : Signal) :
    Strongest (ss ++ [s]) (p.signal s).pending := by
  cases s with
  | close =>
    rw [show (p.signal .close).pending = some .close from pending_signal_close p.wake]
    exact List.mem_append_right _ (List.mem_singleton_self _)
  | disconnect =>
    rw [show (p.signal .disconnect).pending = some (p.pending.getD .disconnect) from
      pending_signal_disconnect p.wake]
    match p.pending, h with
    | some .close, h => exact List.mem_append_left _ h
    | some .disconnect, h => exact ⟨List.mem_append_left _ h.1, by simp [h.2]⟩
    | none, h =>
      obtain rfl : ss = [] := h
      exact ⟨List.mem_singleton_self _, by simp⟩

/-! ## Waits of a pipe -/

theorem isWaiting_iff : p.isWaiting i = true ↔ ∃ w, p.waits[i]? = some w ∧ w.outcome? = none := by
  simp [isWaiting, Option.any_eq_true]

theorem run_fst (hf : ∀ w ∈ p.waits, w.Fits p) :
    (p.run i).1 = if p.isWaiting i then p.pending else none := by
  obtain hw | ⟨w, hw⟩ := Option.eq_none_or_eq_some p.waits[i]?
  · simp [run, isWaiting, hw]
  · simp only [run, isWaiting, hw, Option.bind_some, Option.any_some,
      (hf w (List.mem_of_getElem? hw)).outcome?_run]
    cases w.outcome? <;> rfl

theorem getElem?_run : (p.run i).2.waits[j]? =
    if i = j then p.waits[j]?.map (Wait.run p.wake p.change) else p.waits[j]? := by
  simp only [run, List.getElem?_modify]
  split
  · rfl
  · exact Option.map_id'

theorem fits_run (hf : ∀ w ∈ p.waits, w.Fits p) : ∀ w ∈ (p.run i).2.waits, w.Fits (p.run i).2 := by
  intro w hw
  obtain ⟨j, hj⟩ := List.getElem?_of_mem hw
  rw [getElem?_run] at hj
  split at hj
  · obtain ⟨v, hv, rfl⟩ := Option.map_eq_some_iff.mp hj
    exact (hf v (List.mem_of_getElem? hv)).run
  · exact hf w (List.mem_of_getElem? hj)

/-- After a run, a wait goes on if it went on before and there was nothing to tell. -/
theorem isWaiting_run (hf : ∀ w ∈ p.waits, w.Fits p) : (p.run i).2.isWaiting j = true ↔
    p.isWaiting j = true ∧ (i = j → p.pending = none) := by
  simp only [isWaiting_iff, getElem?_run]
  split
  · constructor
    · rintro ⟨v, hv, ho⟩
      obtain ⟨w, hw, rfl⟩ := Option.map_eq_some_iff.mp hv
      rw [(hf w (List.mem_of_getElem? hw)).outcome?_run, Option.or_eq_none_iff] at ho
      exact ⟨⟨w, hw, ho.1⟩, fun _ => ho.2⟩
    · rintro ⟨⟨w, hw, ho⟩, hp⟩
      refine ⟨_, Option.map_eq_some_iff.mpr ⟨w, hw, rfl⟩, ?_⟩
      rw [(hf w (List.mem_of_getElem? hw)).outcome?_run, ho, hp ‹_›, Option.none_or]
  · rename_i hne
    exact ⟨fun h => ⟨h, fun he => absurd he hne⟩, fun h => h.1⟩

/-! ## Running all that are due -/

theorem isDue_of_waiting (hf : ∀ w ∈ p.waits, w.Fits p) (hp : p.pending ≠ none)
    (h : p.isWaiting i = true) : p.waits[i]?.any Wait.isDue = true := by
  obtain ⟨w, hw, ho⟩ := isWaiting_iff.mp h
  rw [hw, Option.any_some]
  exact (hf w (List.mem_of_getElem? hw)).isDue ho hp

/-- The turn of a wait: it is told what is pending if it goes on, and the others are left alone. -/
theorem runAll_cons (hf : ∀ w ∈ p.waits, w.Fits p) (is : List Nat) :
    ∃ p' : Pipe, p.runAll (i :: is) =
        (((if p.isWaiting i then p.pending else none).map (i, ·)).toList ++ (p'.runAll is).1,
          (p'.runAll is).2) ∧
      p'.pending = p.pending ∧ p'.waits.length = p.waits.length ∧ (∀ w ∈ p'.waits, w.Fits p') ∧
      ∀ j, p'.isWaiting j = true ↔ p.isWaiting j = true ∧ (i = j → p.pending = none) := by
  cases hdue : p.waits[i]?.any Wait.isDue with
  | true =>
    refine ⟨(p.run i).2, ?_, rfl, List.length_modify .., fits_run hf, fun j => isWaiting_run hf⟩
    rw [runAll, if_pos hdue, ← run_fst hf]
  | false =>
    have hgo : p.isWaiting i = true → p.pending = none := by
      intro h
      apply Decidable.byContradiction
      intro hp
      rw [isDue_of_waiting hf hp h] at hdue
      cases hdue
    refine ⟨p, ?_, rfl, rfl, hf, fun j => ⟨fun h => ⟨h, fun he => hgo (he ▸ h)⟩, fun h => h.1⟩⟩
    have hnone : (if p.isWaiting i then p.pending else none) = none := by
      split
      · exact hgo ‹_›
      · rfl
    rw [hnone, runAll, hdue]
    rfl

/-- What comes of it when all of some waits had a turn. -/
theorem runAll_spec (hf : ∀ w ∈ p.waits, w.Fits p) {is : List Nat} (hn : is.Nodup) :
    (p.runAll is).1 = (is.filter p.isWaiting).flatMap (fun i => (p.pending.map (i, ·)).toList) ∧
      (p.runAll is).2.waits.length = p.waits.length ∧
      ∀ j, (p.runAll is).2.isWaiting j = true ↔
        p.isWaiting j = true ∧ (j ∈ is → p.pending = none) := by
  induction is generalizing p with
  | nil => exact ⟨rfl, rfl, fun j => ⟨fun h => ⟨h, nofun⟩, fun h => h.1⟩⟩
  | cons i is ih =>
    obtain ⟨hi, hn⟩ := List.nodup_cons.mp hn
    obtain ⟨p', hp', hpending, hlength, hf', hw⟩ := runAll_cons (i := i) hf is
    obtain ⟨htold, hlength', hw'⟩ := ih hf' hn
    have hsame : is.filter p'.isWaiting = is.filter p.isWaiting := by
      apply List.filter_congr
      intro j hj
      have hne : i ≠ j := fun he => hi (he ▸ hj)
      rw [Bool.eq_iff_iff, hw j]
      exact ⟨fun h => h.1, fun h => ⟨h, fun he => absurd he hne⟩⟩
    rw [hp']
    refine ⟨?_, hlength'.trans hlength, fun j => ?_⟩
    · dsimp only
      rw [htold, hsame, hpending, List.filter_cons]
      split <;> rfl
    · dsimp only
      rw [hw' j, hw j, hpending, List.mem_cons, eq_comm, and_assoc]
      constructor
      · rintro ⟨hj, hi, his⟩
        exact ⟨hj, fun h => h.elim (fun he => hi he.symm) his⟩
      · rintro ⟨hj, h⟩
        exact ⟨hj, fun he => h (.inl he.symm), fun his => h (.inr his)⟩

/-- Once all that are due ran, those who waited have ended if something was pending, and else go on. -/
theorem runDue_eq (hf : ∀ w ∈ p.waits, w.Fits p) :
    p.runDue.1 = (p.wake.runWaits p.waiting).1 ∧
      p.runDue.2.waiting = (p.wake.runWaits p.waiting).2 := by
  obtain ⟨htold, hlength, hw⟩ := runAll_spec hf (List.nodup_range (n := p.waits.length))
  have hwaiting : p.runDue.2.waiting =
      (List.range p.waits.length).filter p.runDue.2.isWaiting := by rw [waiting, runDue, hlength]
  rw [hwaiting, runDue, htold]
  cases hp : p.pending with
  | some s =>
    rw [show p.wake.runWaits p.waiting = (p.waiting.map (·, s), []) by
      rw [runWaits, wait?, show p.wake.pending = some s from hp]]
    refine ⟨by simp [waiting, List.map_eq_flatMap], List.filter_eq_nil_iff.mpr fun j hj hgo => ?_⟩
    have hnone := ((hw j).mp hgo).2 hj
    rw [hp] at hnone
    cases hnone
  | none =>
    rw [show p.wake.runWaits p.waiting = ([], p.waiting) by
      rw [runWaits, wait?, show p.wake.pending = none from hp]]
    refine ⟨List.flatMap_eq_nil_iff.mpr fun _ _ => rfl, List.filter_congr fun j hj => ?_⟩
    rw [Bool.eq_iff_iff, hw j]
    exact ⟨fun h => h.1, fun h => ⟨h, fun _ => hp⟩⟩

/-! ## Runs -/

/-- A pipe whose waits know what they can, after moments that account for what it holds. -/
structure Sound (ms : List Moment) (p : Pipe) : Prop where
  strongest : Strongest (undrained ms) p.pending
  fits : ∀ w ∈ p.waits, w.Fits p
  told : ∀ i, p.waits[i]?.bind Wait.outcome? = answer i ms

theorem undrained_snoc : undrained (ms ++ [m]) = undrainedAfter (undrained ms) m := by
  rw [undrained, List.foldl_append]
  rfl

theorem answer_snoc : answer i (ms ++ [m]) = (answer i ms).or (told? i m) := by
  rw [answer, List.findSome?_append, List.findSome?_singleton]
  rfl

theorem told?_of_ne (h : m.act ≠ .run i) : told? i m = none := if_neg h

theorem Sound.put (h : Sound ms p) (v : Wake) (hm : ∀ i, m.act ≠ .run i)
    (hs : Strongest (undrained (ms ++ [m])) v.pending) : Sound (ms ++ [m]) (p.put v) := by
  refine ⟨hs, ?_, fun i => ?_⟩
  · intro w hw
    obtain ⟨v', hv', rfl⟩ := List.mem_map.mp hw
    exact (h.fits v' hv').put v
  · rw [answer_snoc, told?_of_ne (hm i), Option.or_none, ← h.told i, Pipe.put, List.getElem?_map]
    cases p.waits[i]? <;> simp

theorem Sound.wait (h : Sound ms p) (hm : m.act = .wait) : Sound (ms ++ [m]) p.wait := by
  refine ⟨?_, ?_, fun i => ?_⟩
  · rw [undrained_snoc, undrainedAfter, hm]
    exact h.strongest
  · intro w hw
    rcases List.mem_append.mp hw with hw | hw
    · exact h.fits w hw
    · obtain rfl := List.mem_singleton.mp hw
      trivial
  · rw [answer_snoc, told?_of_ne (by rw [hm]; nofun), Option.or_none, ← h.told i, Pipe.wait,
      List.getElem?_append]
    split
    · rfl
    · rename_i hi
      rw [List.getElem?_eq_none (l := p.waits) (Nat.le_of_not_lt hi)]
      cases i - p.waits.length <;> rfl

theorem Sound.run (h : Sound ms p) (hm : m.act = .run i) (hb : m.before = p)
    (hi : i < p.waits.length) : Sound (ms ++ [m]) (p.run i).2 := by
  refine ⟨?_, fits_run h.fits, fun j => ?_⟩
  · rw [undrained_snoc, undrainedAfter, hm]
    exact h.strongest
  · rw [answer_snoc, ← h.told j, getElem?_run]
    split
    · subst j
      rw [told?, if_pos hm, hb, List.getElem?_eq_getElem hi]
      exact (h.fits _ (List.getElem_mem hi)).outcome?_run
    · rename_i hne
      rw [told?_of_ne (by rw [hm]; simpa using hne), Option.or_none]

theorem Sound.perform (h : Sound ms p) (hp : p.perform act = some (p', e)) :
    Sound (ms ++ [⟨p, act, p', e⟩]) p' := by
  cases act with
  | signal s =>
    cases hp
    refine h.put _ nofun ?_
    rw [undrained_snoc]
    exact h.strongest.signal s
  | drain =>
    cases hp
    exact h.put _ nofun (by rw [undrained_snoc]; rfl)
  | wait =>
    cases hp
    exact h.wait rfl
  | run i =>
    obtain ⟨hi, hp⟩ := Option.ite_none_right_eq_some.mp hp
    cases hp
    exact h.run rfl rfl hi

theorem sound_of_run (h : machine.Run ms p) : Sound ms p := by
  induction h with
  | start => exact ⟨rfl, nofun, fun _ => rfl⟩
  | next _ _ hp ih => exact ih.perform hp

theorem Sound.serves (h : Sound ms p) : Serves ms p := by
  refine ⟨h.strongest.close_iff, h.strongest.disconnect_iff, h.strongest.none_iff,
    ⟨_, rfl, rfl⟩, fun i hi => ?_, fun i w hw => ?_, fun hp w hw ho => ?_, runDue_eq h.fits⟩
  · obtain ⟨w, hw, -⟩ := isWaiting_iff.mp hi
    obtain ⟨hlt, -⟩ := List.getElem?_eq_some_iff.mp hw
    refine ⟨(p.run i).2, ?_, ?_, rfl, fun j hj => ?_⟩
    · rw [Pipe.perform, if_pos hlt, run_fst h.fits, if_pos hi]
    · rw [isWaiting_run h.fits]
      exact ⟨fun hgo => hgo.2 rfl, fun hp => ⟨hi, fun _ => hp⟩⟩
    · rw [getElem?_run, if_neg (Ne.symm hj)]
  · rw [← h.told i, hw, Option.bind_some]
  · exact (h.fits w hw).isDue ho hp

/-- Only a run with something pending ends a wait. -/
theorem Sound.goes_on (h : Sound ms p) (hp : p.perform act = some (p', e))
    (hw : p.isWaiting i = true) : p'.isWaiting i = true ∨ act = .run i ∧ p.pending ≠ none := by
  obtain ⟨w, hi, ho⟩ := isWaiting_iff.mp hw
  have hput : ∀ v, (p.put v).isWaiting i = true := fun v =>
    isWaiting_iff.mpr ⟨w.rouse, by rw [Pipe.put, List.getElem?_map, hi]; rfl, by simpa using ho⟩
  cases act with
  | signal s =>
    cases hp
    exact .inl (hput _)
  | drain =>
    cases hp
    exact .inl (hput _)
  | wait =>
    cases hp
    obtain ⟨hlt, -⟩ := List.getElem?_eq_some_iff.mp hi
    refine .inl (isWaiting_iff.mpr ⟨w, ?_, ho⟩)
    rw [Pipe.wait, List.getElem?_append_left hlt, hi]
  | run j =>
    obtain ⟨-, hp⟩ := Option.ite_none_right_eq_some.mp hp
    cases hp
    rw [isWaiting_run h.fits]
    by_cases hj : j = i ∧ p.pending ≠ none
    · exact .inr ⟨by rw [hj.1], hj.2⟩
    · exact .inl ⟨hw, fun he => Decidable.byContradiction fun hs => hj ⟨he, hs⟩⟩

/-- Wherever a run gets to, no signal is lost and nobody who waits is. One who did not run between a signal
and its drain waits on, and is told what is pending when it runs and finds something again. -/
theorem waits_served :
    (∀ ms p, machine.Run ms p → Serves ms p) ∧
    ∀ ms k mid d ns p i s, machine.Run (ms ++ k :: (mid ++ d :: ns)) p →
      k.act = .signal s → d.act = .drain → k.before.isWaiting i = true →
      (∀ m ∈ mid, m.act ≠ .run i) → (∀ m ∈ ns, m.act = .run i → m.before.pending = none) →
      p.isWaiting i = true ∧
        ∀ t, p.pending = some t → ∃ p', p.perform (.run i) = some (p', .ran (some t)) := by
  refine ⟨fun ms p h => (sound_of_run h).serves, ?_⟩
  intro ms k mid d ns p i s hr hk hd hw hmid hns
  have hgo : p.isWaiting i = true := by
    rcases hr.unless (P := fun p => p.isWaiting i = true)
      (R := fun m => m.act = .run i ∧ m.before.pending ≠ none) hw
      (fun hr hp hw => (sound_of_run hr).goes_on hp hw) with hgo | ⟨m, hm, hact, hp⟩
    · exact hgo
    · rcases List.mem_cons.mp hm with rfl | hm
      · cases hk.symm.trans hact
      · rcases List.mem_append.mp hm with hm | hm
        · exact absurd hact (hmid m hm)
        · rcases List.mem_cons.mp hm with rfl | hm
          · cases hd.symm.trans hact
          · exact absurd (hns m hm hact) hp
  refine ⟨hgo, fun t ht => ?_⟩
  obtain ⟨p', hp', -⟩ := (sound_of_run hr).serves.ran i hgo
  exact ⟨p', ht ▸ hp'⟩

/-- A wait that sleeps through a signal and its drain, and another that starts in between. After two more
signals both are due, and the first one is told of the stronger. -/
theorem waits_served_after_drain : ∃ ms k mid d ns p,
    machine.Run (ms ++ k :: (mid ++ d :: ns)) p ∧ k.act = .signal .disconnect ∧ d.act = .drain ∧
      d.before.waits = [.asleep 0 true, .fresh] ∧ p.waits = [.asleep 2 true, .fresh] ∧
      Serves (ms ++ k :: (mid ++ d :: ns)) p ∧
      ∃ p', p.perform (.run 0) = some (p', .ran (some .close)) := by
  let p₁ := ({} : Pipe).wait
  let p₂ := (p₁.run 0).2
  let p₃ := p₂.signal .disconnect
  let p₄ := p₃.wait
  let p₅ := p₄.drain.2
  let p₆ := (p₅.run 0).2
  let p₇ := p₆.signal .disconnect
  let p₈ := p₇.signal .close
  have hplay : machine.play [.wait, .run 0, .signal .disconnect, .wait, .drain, .run 0,
      .signal .disconnect, .signal .close] = some
        ([⟨{}, .wait, p₁, .started 0⟩, ⟨p₁, .run 0, p₂, .ran none⟩] ++
          ⟨p₂, .signal .disconnect, p₃, .signalled⟩ ::
            ([⟨p₃, .wait, p₄, .started 1⟩] ++
              ⟨p₄, .drain, p₅, .drained (some .disconnect)⟩ ::
                [⟨p₅, .run 0, p₆, .ran none⟩, ⟨p₆, .signal .disconnect, p₇, .signalled⟩,
                  ⟨p₇, .signal .close, p₈, .signalled⟩]), p₈) := rfl
  have hr := Machine.run_of_play hplay
  obtain ⟨-, htold⟩ := waits_served.2 _ _ _ _ _ _ 0 .disconnect hr rfl rfl rfl (by decide) (by decide)
  exact ⟨_, _, _, _, _, _, hr, rfl, rfl, rfl, rfl, waits_served.1 _ _ hr, htold .close rfl⟩

end Pipe

end Rfcomm.Wake
