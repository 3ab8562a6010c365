import Rfcomm.Proofs.Machine
import Rfcomm.Send
/-!
Sends on their own. Each time that a send looks, the link is open or closed; while it is open, the
stream is asked, and has an answer or not yet. Whatever the answers are, what the send reports is what
the stream took and what went wrong first.
-/
namespace Rfcomm.Send

/-- What a send meets when it looks: whether the link is open, and the answer of the stream, which it
gets only if it is. There may be no answer yet. -/
structure Look where
  isOpen : Bool
  reply : Option Reply

abbrev State := Progress Send (Except WriteError Nat)

/-- What comes of a look, with the call that the stream was asked. -/
def perform (x : StreamId) : State → Look → Option (State × Option Call)
  | .more s, l =>
    match s.ask l.isOpen x, l.reply with
    | .call c, none => some (.more s, some c)
    | .call c, some r => (s.resume l.isOpen r).map fun p => (p, some c)
    | .ready, _ => (s.resume l.isOpen .go).map fun p => (p, none)
    | .blocked, _ => none
  | .done _, _ => none

abbrev Moment := Rfcomm.Moment State Look (Option Call)

def machine (bytes : Bytes) (x : StreamId) : Machine State Look (Option Call) where
  start := .more ⟨bytes, 0⟩
  perform := perform x

/-- What a stream may answer. It takes no more than it was given. -/
def Answers : Call → Reply → Prop
  | .write _ bytes, r => (∃ k ≤ bytes.length, r = .wrote (.ok k)) ∨ ∃ f, r = .wrote (.error f)
  | .flush _, r => ∃ result, r = .flushed result
  | _, _ => False

/-- The bytes that the stream takes with an answer. -/
def took : Option Call → Option Reply → Bytes
  | some (.write _ bytes), some (.wrote (.ok k)) => bytes.take k
  | _, _ => []

def accepted (ms : List Moment) : Bytes := ms.flatMap fun m => took m.effect m.act.reply

namespace Look

def interrupted (l : Look) : Bool :=
  l.isOpen && match l.reply with
    | some (.wrote (.error f)) => f.kind = .interrupted
    | _ => false

def flushed (l : Look) : Bool := l.isOpen && l.reply matches some (.flushed (.ok _))

/-- What ends the send without success. Only a write may be interrupted, a flush may not. -/
def trouble? (l : Look) : Option Fault :=
  if l.isOpen then
    match l.reply with
    | some (.wrote (.ok 0)) => some (.bare .writeZero)
    | some (.wrote (.error f)) => if f.kind = .interrupted then none else some f
    | some (.flushed (.error f)) => some f
    | _ => none
  else some (.explained .notConnected "connection closed during write")

/-- The send got an answer that is no interruption. -/
def answered (l : Look) : Bool := l.isOpen && l.reply.isSome && !l.interrupted

end Look

/-- A send that did and reports what it should, whatever it met. -/
structure Exact (bytes : Bytes) (x : StreamId) (ms : List Moment) (p : State) : Prop where
  /-- What the stream took is the front of the bytes. -/
  taken : accepted ms <+: bytes
  sent : ∀ n, p = .done (.ok n) ↔
    n = bytes.length ∧ accepted ms = bytes ∧ ∃ m ∈ ms, m.act.flushed = true
  /-- What went wrong first is the source, and what went out is counted. -/
  failed : ∀ e, p = .done (.error e) ↔ ∃ f, ms.findSome? (·.act.trouble?) = some f ∧
    e = .unsuccessful (accepted ms).length bytes.length f
  /-- Nothing is asked of the stream when the link is found closed, nor later. -/
  closed : ∀ as m bs, ms = as ++ m :: bs → m.act.isOpen = false → m.effect = none ∧ bs = []
  /-- Interruptions make no difference. -/
  uninterrupted : ∃ ms', (machine bytes x).Run ms' p ∧ accepted ms' = accepted ms ∧
    ms'.map (·.act) = (ms.map (·.act)).filter (!·.interrupted)
  /-- As long as it is not over, it goes on whatever comes, and each answer brings it nearer to the
  end. -/
  goes : ∀ s, p = .more s → (ms.filter (·.act.answered)).length ≤ (accepted ms).length ∧
    (∀ r, (perform x p ⟨false, r⟩).isSome = true) ∧
    ∃ c, s.ask true x = .call c ∧ (perform x p ⟨true, none⟩).isSome = true ∧
      ∀ r, Answers c r → (perform x p ⟨true, some r⟩).isSome = true

inductive Does (x : StreamId) (s : Send) : Look → State → Option Call → Prop
  | close {r} : Does x s ⟨false, r⟩ (.done (.error (s.failure closedFault))) none
  | wait {c} : s.ask true x = .call c → Does x s ⟨true, none⟩ (.more s) (some c)
  | interrupt {f} : f.kind = .interrupted →
      Does x s ⟨true, some (.wrote (.error f))⟩ (.more s) (some (.write x s.rest))
  | write {k} : k + 1 ≤ s.rest.length →
      Does x s ⟨true, some (.wrote (.ok (k + 1)))⟩ (.more { s with written := s.written + (k + 1) })
        (some (.write x s.rest))
  | refuse : Does x s ⟨true, some (.wrote (.ok 0))⟩
      (.done (.error (s.failure (.bare .writeZero)))) (some (.write x s.rest))
  | fail {f} : f.kind ≠ .interrupted →
      Does x s ⟨true, some (.wrote (.error f))⟩ (.done (.error (s.failure f)))
        (some (.write x s.rest))
  | flush {u} : s.bytes.length ≤ s.written →
      Does x s ⟨true, some (.flushed (.ok u))⟩ (.done (.ok s.written)) (some (.flush x))
  | lose {f} : s.bytes.length ≤ s.written →
      Does x s ⟨true, some (.flushed (.error f))⟩ (.done (.error (s.failure f))) (some (.flush x))

/-- Nothing has gone wrong, and the stream was not flushed. -/
def Calm (ms : List Moment) : Prop := ∀ m ∈ ms, m.act.trouble? = none ∧ m.act.flushed = false

/-- How far a send is, after what it met. -/
inductive Course (bytes : Bytes) : List Moment → State → Prop
  | going {ms s} : s.bytes = bytes → s.written ≤ bytes.length →
      accepted ms = bytes.take s.written → Calm ms →
      (ms.filter (·.act.answered)).length ≤ s.written → Course bytes ms (.more s)
  | sent {ms m} : Calm ms → m.act.trouble? = none → m.act.flushed = true →
      accepted (ms ++ [m]) = bytes → Course bytes (ms ++ [m]) (.done (.ok bytes.length))
  | failed {ms m f} : Calm ms → m.act.trouble? = some f → m.act.flushed = false →
      (m.act.isOpen = false → m.effect = none) → accepted (ms ++ [m]) <+: bytes →
      Course bytes (ms ++ [m])
        (.done (.error (.unsuccessful (accepted (ms ++ [m])).length bytes.length f)))

variable {bytes : Bytes} {x : StreamId} {s : Send} {p p' : State} {l : Look} {c : Option Call}
  {ms : List Moment} {m : Moment}

/-! ## One look -/

theorem ask_of_unsent (h : s.written < s.bytes.length) : s.ask true x = .call (.write x s.rest) := by
  rw [ask, if_pos rfl, if_pos h]

theorem ask_of_sent (h : ¬ s.written < s.bytes.length) : s.ask true x = .call (.flush x) := by
  rw [ask, if_pos rfl, if_neg h]

theorem does_of_perform (h : perform x (.more s) l = some (p, c)) : Does x s l p c := by
  obtain ⟨isOpen, reply⟩ := l
  cases isOpen with
  | false => cases h; exact .close
  | true =>
    by_cases hw : s.written < s.bytes.length
    · have hask := ask_of_unsent (x := x) hw
      cases reply with
      | none =>
        simp only [perform, hask] at h
        cases h
        exact .wait hask
      | some r =>
        simp only [perform, hask, resume, hw, if_true] at h
        split at h
        · cases h; exact .refuse
        · rename_i n hn
          obtain ⟨k, rfl⟩ := Nat.exists_eq_succ_of_ne_zero hn
          split at h <;> cases h
          exact .write ‹_›
        · split at h <;> cases h
          · exact .interrupt ‹_›
          · exact .fail ‹_›
        · cases h
    · have hask := ask_of_sent (x := x) hw
      cases reply with
      | none =>
        simp only [perform, hask] at h
        cases h
        exact .wait hask
      | some r =>
        simp only [perform, hask, resume, hw, if_true, if_false] at h
        split at h <;> cases h
        · exact .flush (Nat.le_of_not_lt hw)
        · exact .lose (Nat.le_of_not_lt hw)

/-- Whatever the stream may answer, and if it does not, the send goes on. -/
theorem goes_on (x : StreamId) (s : Send) : (∀ r, (perform x (.more s) ⟨false, r⟩).isSome = true) ∧
    ∃ c, s.ask true x = .call c ∧ (perform x (.more s) ⟨true, none⟩).isSome = true ∧
      ∀ r, Answers c r → (perform x (.more s) ⟨true, some r⟩).isSome = true := by
  refine ⟨fun r => rfl, ?_⟩
  by_cases hw : s.written < s.bytes.length
  · have hask := ask_of_unsent (x := x) hw
    refine ⟨_, hask, by simp [perform, hask], fun r hr => ?_⟩
    rcases hr with ⟨k, hk, rfl⟩ | ⟨f, rfl⟩
    · cases k <;> simp [perform, hask, resume, hw, hk]
    · by_cases hf : f.kind = .interrupted <;> simp [perform, hask, resume, hw, hf]
  · have hask := ask_of_sent (x := x) hw
    refine ⟨_, hask, by simp [perform, hask], fun r hr => ?_⟩
    obtain ⟨result, rfl⟩ := hr
    cases result <;> simp [perform, hask, resume, hw]

/-! ## All looks -/

theorem accepted_snoc : accepted (ms ++ [m]) = accepted ms ++ took m.effect m.act.reply := by
  simp [accepted]

theorem Calm.snoc (h : Calm ms) (ht : m.act.trouble? = none) (hf : m.act.flushed = false) :
    Calm (ms ++ [m]) := by
  intro k hk
  rcases List.mem_append.mp hk with hk | hk
  · exact h k hk
  · obtain rfl := List.mem_singleton.mp hk
    exact ⟨ht, hf⟩

/-- A look that takes nothing and goes wrong ends the send. -/
theorem Course.fail {f : Fault} (hb : s.bytes = bytes) (hw : s.written ≤ bytes.length)
    (ha : accepted ms = bytes.take s.written) (hc : Calm ms) (ht : m.act.trouble? = some f)
    (hf : m.act.flushed = false) (hm : m.act.isOpen = false → m.effect = none)
    (hnone : took m.effect m.act.reply = []) :
    Course bytes (ms ++ [m]) (.done (.error (s.failure f))) := by
  subst hb
  have hall : accepted (ms ++ [m]) = s.bytes.take s.written := by
    rw [accepted_snoc, hnone, List.append_nil, ha]
  have hlen : (accepted (ms ++ [m])).length = s.written := by
    rw [hall, List.length_take, Nat.min_eq_left hw]
  have hcourse := Course.failed hc ht hf hm (hall ▸ List.take_prefix s.written s.bytes)
  rwa [hlen] at hcourse

theorem course_of_run (h : (machine bytes x).Run ms p) : Course bytes ms p := by
  induction h with
  | start => exact .going rfl (Nat.zero_le _) rfl (by simp [Calm]) (Nat.zero_le _)
  | @next ms p l p' c hr _ hp ih =>
    cases ih with
    -- A send that is over does not look again.
    | sent | failed => cases hp
    | @going _ s hb hw ha hc hn =>
      cases does_of_perform hp with
      | close => exact Course.fail hb hw ha hc rfl rfl (fun _ => rfl) rfl
      | wait hask =>
        refine .going hb hw ?_ (hc.snoc rfl rfl) (by simpa [Look.answered] using hn)
        rw [accepted_snoc, ha]
        simp [took]
      | interrupt hf =>
        refine .going hb hw ?_ (hc.snoc (by simp [Look.trouble?, hf]) rfl)
          (by simpa [Look.answered, Look.interrupted, hf] using hn)
        rw [accepted_snoc, ha]
        simp [took]
      | @write k hk =>
        rw [rest, List.length_drop, hb] at hk
        refine .going hb (by dsimp only; omega) ?_ (hc.snoc rfl rfl) ?_
        · rw [accepted_snoc, ha, took, rest, hb]
          exact List.take_add.symm
        · rw [List.filter_append, List.length_append]
          exact Nat.add_le_add hn (Nat.le_trans (List.length_filter_le ..) (by simp))
      | refuse => exact Course.fail hb hw ha hc rfl rfl (fun h => by cases h) rfl
      | fail hf =>
        exact Course.fail hb hw ha hc (by simp [Look.trouble?, hf]) rfl (fun h => by cases h) rfl
      | flush hge =>
        rw [hb] at hge
        have hall : s.written = bytes.length := by omega
        rw [hall]
        refine .sent hc rfl rfl ?_
        rw [accepted_snoc, ha, hall, List.take_length]
        simp [took]
      | lose => exact Course.fail hb hw ha hc rfl rfl (fun h => by cases h) rfl

/-! ## Interruptions -/

theorem perform_interrupted (hl : l.interrupted = true) (h : perform x p l = some (p', c)) :
    p' = p ∧ took c l.reply = [] := by
  cases p with
  | done => cases h
  | more s =>
    cases does_of_perform h with
    | interrupt => exact ⟨rfl, rfl⟩
    | fail hf => exact absurd (by simpa [Look.interrupted] using hl) hf
    | _ => cases hl

/-- The run without its interruptions gets as far. -/
theorem run_uninterrupted (h : (machine bytes x).Run ms p) :
    ∃ ms', (machine bytes x).Run ms' p ∧ accepted ms' = accepted ms ∧
      ms'.map (·.act) = (ms.map (·.act)).filter (!·.interrupted) := by
  induction h with
  | start => exact ⟨[], .start, rfl, rfl⟩
  | @next ms p l p' c hr _ hp ih =>
    obtain ⟨ms', hr', ha, hacts⟩ := ih
    by_cases hl : l.interrupted = true
    · obtain ⟨rfl, ht⟩ := perform_interrupted hl hp
      refine ⟨ms', hr', ?_, by simp [hacts, hl]⟩
      rw [accepted_snoc, ht, List.append_nil, ha]
    · refine ⟨_, hr'.next rfl hp, ?_, by simp [hacts, hl]⟩
      rw [accepted_snoc, accepted_snoc, ha]

/-! ## All together -/

theorem Calm.findSome?_snoc (h : Calm ms) :
    (ms ++ [m]).findSome? (·.act.trouble?) = m.act.trouble? := by
  have hnone : ms.findSome? (·.act.trouble?) = none :=
    List.findSome?_eq_none_iff.mpr fun m hm => (h m hm).1
  rw [List.findSome?_append, hnone, Option.none_or, List.findSome?_singleton]

theorem Calm.flushed_snoc (h : Calm ms) :
    (∃ k ∈ ms ++ [m], k.act.flushed = true) ↔ m.act.flushed = true := by
  refine ⟨?_, fun hf => ⟨m, by simp, hf⟩⟩
  rintro ⟨k, hk, hf⟩
  rcases List.mem_append.mp hk with hk | hk
  · cases (h k hk).2.symm.trans hf
  · rwa [← List.mem_singleton.mp hk]

theorem isOpen_of_no_trouble (h : l.trouble? = none) : l.isOpen = true := by
  cases ho : l.isOpen with
  | true => rfl
  | false => simp [Look.trouble?, ho] at h

/-- The link can be found closed by the last look only. -/
theorem Calm.closed_last (h : Calm ms) {k : Moment} {as bs : List Moment}
    (hk : ms ++ [k] = as ++ m :: bs) (hm : m.act.isOpen = false) : m = k ∧ bs = [] := by
  cases bs using List.reverseRecOn with
  | nil => exact ⟨by simpa using (List.append_inj' hk rfl).2.symm, rfl⟩
  | append_singleton bs b =>
    have hfront : ms = as ++ m :: bs := by
      rw [← List.cons_append, ← List.append_assoc] at hk
      exact (List.append_inj' hk rfl).1
    rw [isOpen_of_no_trouble (h m (by simp [hfront])).1] at hm
    cases hm

theorem Course.taken (h : Course bytes ms p) : accepted ms <+: bytes := by
  cases h with
  | going _ _ ha => exact ha ▸ List.take_prefix ..
  | sent _ _ _ ha => exact ha ▸ List.prefix_rfl
  | failed _ _ _ _ ha => exact ha

theorem Course.sent_iff (h : Course bytes ms p) (n : Nat) : p = .done (.ok n) ↔
    n = bytes.length ∧ accepted ms = bytes ∧ ∃ m ∈ ms, m.act.flushed = true := by
  cases h with
  | going _ _ _ hc =>
    refine ⟨nofun, ?_⟩
    rintro ⟨-, -, m, hm, hf⟩
    cases (hc m hm).2.symm.trans hf
  | sent hc _ hf ha =>
    rw [hc.flushed_snoc]
    refine ⟨fun he => ?_, fun ⟨hn, _⟩ => by rw [hn]⟩
    cases he
    exact ⟨rfl, ha, hf⟩
  | failed hc _ hf =>
    rw [hc.flushed_snoc, hf]
    exact ⟨nofun, nofun⟩

theorem Course.failed_iff (h : Course bytes ms p) (e : WriteError) : p = .done (.error e) ↔
    ∃ f, ms.findSome? (·.act.trouble?) = some f ∧
      e = .unsuccessful (accepted ms).length bytes.length f := by
  cases h with
  | going _ _ _ hc =>
    rw [List.findSome?_eq_none_iff.mpr fun m hm => (hc m hm).1]
    exact ⟨nofun, nofun⟩
  | sent hc ht =>
    rw [hc.findSome?_snoc, ht]
    exact ⟨nofun, nofun⟩
  | failed hc ht =>
    rw [hc.findSome?_snoc, ht]
    refine ⟨fun he => ?_, ?_⟩
    · cases he
      exact ⟨_, rfl, rfl⟩
    · rintro ⟨f', hf', rfl⟩
      cases hf'
      rfl

theorem Course.closed (h : Course bytes ms p) {as bs : List Moment} (hms : ms = as ++ m :: bs)
    (hm : m.act.isOpen = false) : m.effect = none ∧ bs = [] := by
  cases h with
  | going _ _ _ hc =>
    rw [isOpen_of_no_trouble (hc m (by simp [hms])).1] at hm
    cases hm
  | sent hc ht =>
    obtain ⟨rfl, -⟩ := hc.closed_last hms hm
    rw [isOpen_of_no_trouble ht] at hm
    cases hm
  | failed hc _ _ hnone =>
    obtain ⟨rfl, rfl⟩ := hc.closed_last hms hm
    exact ⟨hnone hm, rfl⟩

theorem Course.answered_le (h : Course bytes ms (.more s)) :
    (ms.filter (·.act.answered)).length ≤ (accepted ms).length := by
  cases h with
  | going _ hw ha _ hn =>
    rw [ha, List.length_take, Nat.min_eq_left hw]
    exact hn

/-- However a run goes, the send is exact. -/
theorem sends_exactly (h : (machine bytes x).Run ms p) : Exact bytes x ms p := by
  have hC := course_of_run h
  refine ⟨hC.taken, hC.sent_iff, hC.failed_iff, fun _ _ _ => hC.closed, run_uninterrupted h, ?_⟩
  rintro s rfl
  exact ⟨hC.answered_le, goes_on x s⟩

/-- A send that is interrupted and kept waiting on its way, and one that finds the link closed when
two of its three bytes went out. -/
theorem sends_exactly_of_two :
    (∃ ms, (machine [1, 2, 3] 7).Run ms (.done (.ok 3)) ∧
      Exact [1, 2, 3] 7 ms (.done (.ok 3))) ∧
    ∃ ms e, (machine [1, 2, 3] 7).Run ms (.done (.error e)) ∧ e.written = 2 ∧
      Exact [1, 2, 3] 7 ms (.done (.error e)) := by
  constructor
  · have h : ((machine [1, 2, 3] 7).play
      [⟨true, some (.wrote (.error (.status 4)))⟩, ⟨true, some (.wrote (.ok 2))⟩, ⟨true, none⟩,
        ⟨true, some (.wrote (.error (.bare .interrupted)))⟩, ⟨true, some (.wrote (.ok 1))⟩,
        ⟨true, none⟩, ⟨true, some (.flushed (.ok ()))⟩]).isSome := rfl
    have hr := Machine.run_of_play (Option.some_get h).symm
    exact ⟨_, hr, sends_exactly hr⟩
  · have h : ((machine [1, 2, 3] 7).play
      [⟨true, some (.wrote (.ok 2))⟩, ⟨true, none⟩, ⟨false, some (.wrote (.ok 1))⟩]).isSome := rfl
    have hr := Machine.run_of_play (Option.some_get h).symm
    exact ⟨_, _, hr, rfl, sends_exactly hr⟩

end Rfcomm.Send
