import Rfcomm.Proofs.Terminal.Machine
/-!
Interruptions of a terminal. The main loop stops for one that came while it was waiting, if it took
nothing else since; all others are lost.
-/
namespace Rfcomm.Terminal

/-- The main loop waits, and nothing but an interruption can end that. -/
def Idles (t : Terminal) : Prop := t.isSelecting = true ∧ ∀ b ∈ t.branches, b = .signal

/-- The main loop has nothing to do but to stop for an interruption. -/
def MustStop (t : Terminal) : Prop :=
  t.ask .main = .choose [.signal] ∧ ∃ t', t'.stage = .ended (.ok ()) ∧
    t.resume .main (.chosen .signal) = some (t', [info "Shutdown signal received", stopLine])

def Act.isMain : Act → Bool
  | .step .main _ => true
  | _ => false

/-- An interruption came while the main loop was waiting, which took no step since. -/
def Heard (ms : List Moment) : Prop :=
  ∃ ls m rs, ms = ls ++ m :: rs ∧ m.act = .interrupt ∧ m.before.isSelecting = true ∧
    ∀ k ∈ rs, k.act.isMain = false

variable {t t' : Terminal} {r : Reply} {lines : List Line} {a : Act} {ms : List Moment} {m : Moment}
  {settings : Except Config.StoreError Config}

/-! ## What a step does to a waiting main loop -/

theorem startRead_frame (t : Terminal) :
    t.startRead.stage = t.stage ∧ t.startRead.interrupted = t.interrupted := by
  unfold startRead
  split
  · split <;> exact ⟨rfl, rfl⟩
  · split <;> exact ⟨rfl, rfl⟩
  · exact ⟨rfl, rfl⟩

theorem startListening_stage (t : Terminal) : ∃ h, t.startListening.stage = .listening h := by
  simp only [startListening]
  split <;> exact ⟨_, rfl⟩

theorem startWrite_stage {e : Endpoint} (chunk : Bytes) (he : t.endpoint = some e) :
    ∃ h, (t.startWrite chunk).stage = .sending h := by
  cases e <;> simp only [startWrite, he] <;> exact ⟨_, rfl⟩

/-- A main loop that waits after a step of its own has forgotten all interruptions. -/
theorem Proceeds.forgets (h : Proceeds t r t' lines) (hs : t'.stage = .selecting) :
    t'.interrupted = false := by
  cases h with
  | clientConnected => exact (startRead_frame _).2
  | prepared =>
      obtain ⟨_, hl⟩ := startListening_stage t
      rw [hl] at hs
      cases hs
  | @write e chunk chunks _ he =>
      obtain ⟨_, hw⟩ := startWrite_stage (t := { t with chunks }) chunk he
      rw [hw] at hs
      cases hs
  | prepare | feedEnded | data | stop | fail => cases hs
  | _ => rfl

theorem advance_frame (t : Terminal) (e : Endpoint) (k : Worker) (o : Option Outcome) :
    (t.advance e k o).isSelecting = t.isSelecting ∧
      (t.advance e k o).interrupted = t.interrupted := by
  cases o with
  | none => exact ⟨rfl, rfl⟩
  | some o =>
      refine ⟨?_, rfl⟩
      cases h : t.stage <;> simp [advance, settle, isSelecting, h]

/-- The steps of all others leave the main loop where it is. -/
theorem Does.frame (h : Does t a t' lines) (ha : a.isMain = false) (hi : a ≠ .interrupt) :
    t'.isSelecting = t.isSelecting ∧ t'.interrupted = t.interrupted := by
  cases h with
  | main => cases ha
  | reader hf => cases hf <;> exact ⟨rfl, rfl⟩
  | worker => exact advance_frame _ _ _ _
  | interrupt => exact absurd rfl hi

/-! ## Runs -/

theorem start_stage (settings : Except Config.StoreError Config) :
    (start settings).1.isSelecting = false := by
  cases settings with
  | error => rfl
  | ok config =>
      simp only [start]
      split
      · split <;> rfl
      · rfl

theorem Heard.unsnoc (h : Heard (ms ++ [m])) :
    m.act = .interrupt ∧ m.before.isSelecting = true ∨ Heard ms ∧ m.act.isMain = false := by
  obtain ⟨ls, k, rs, he, hk, hs, hrs⟩ := h
  rcases List.eq_nil_or_concat rs with rfl | ⟨rs, m', rfl⟩
  · obtain ⟨-, he⟩ := List.append_inj' he rfl
    cases he
    exact .inl ⟨hk, hs⟩
  · rw [List.concat_eq_append, ← List.cons_append, ← List.append_assoc] at he
    obtain ⟨hms, hm⟩ := List.append_inj' he rfl
    obtain rfl := List.singleton_inj.mp hm
    exact .inr ⟨⟨ls, k, rs, hms, hk, hs, fun k hk => hrs k (by simp [hk])⟩, hrs m (by simp)⟩

theorem Heard.snoc (h : Heard ms) (hm : m.act.isMain = false) : Heard (ms ++ [m]) := by
  obtain ⟨ls, k, rs, rfl, hk, hs, hrs⟩ := h
  refine ⟨ls, k, rs ++ [m], by simp, hk, hs, fun k' hk' => ?_⟩
  rcases List.mem_append.mp hk' with hk' | hk'
  · exact hrs k' hk'
  · obtain rfl := List.mem_singleton.mp hk'
    exact hm

/-- A waiting main loop knows of the interruptions that it heard. -/
theorem interrupted_iff_heard (h : (machine settings).Run ms t) (hs : t.isSelecting = true) :
    t.interrupted = true ↔ Heard ms := by
  induction h with
  | start => rw [show (machine settings).start.isSelecting = false from start_stage settings] at hs; cases hs
  | @next ms t a t' lines hr _ hp ih =>
      obtain ⟨hd, -⟩ := does_of_perform hp
      by_cases hi : a = .interrupt
      · subst hi
        cases hd
        rw [interrupt_eq] at hs ⊢
        change t.isSelecting = true at hs
        exact iff_of_true (by rw [hs, Bool.true_or])
          ⟨ms, _, [], rfl, rfl, hs, fun k hk => by cases hk⟩
      · by_cases hm : a.isMain = true
        · cases hd with
          | main hpr =>
              refine iff_of_false (by simp [hpr.forgets (isSelecting_iff.mp hs)]) fun hh => ?_
              rcases hh.unsnoc with ⟨h, -⟩ | ⟨-, h⟩ <;> cases h
          | _ => cases hm
        · have hm : a.isMain = false := Bool.eq_false_iff.mpr hm
          obtain ⟨hsel, hint⟩ := hd.frame hm hi
          rw [hint, ih (hsel ▸ hs)]
          refine ⟨fun hh => hh.snoc hm, fun hh => ?_⟩
          rcases hh.unsnoc with ⟨h, -⟩ | ⟨h, -⟩
          · exact absurd h hi
          · exact h

/-! ## Waiting for nothing else -/

theorem Idles.branches (h : t.Idles) :
    t.branches = if t.interrupted then [.signal] else [] := by
  obtain ⟨-, hb⟩ := h
  unfold Terminal.branches at hb ⊢
  refine (congrArg (· ++ _) (List.eq_nil_iff_forall_not_mem.mpr fun b hm => ?_)).trans
    (List.nil_append _)
  obtain rfl := hb b (List.mem_append_left _ hm)
  simp only [List.mem_append] at hm
  grind

theorem Idles.stop (h : t.Idles) (hi : t.interrupted = true) : t.MustStop := by
  have hb : t.branches = [.signal] := by rw [h.branches, if_pos hi]
  have hs := isSelecting_iff.mp h.1
  refine ⟨?_, (t.stop (info "Shutdown signal received")).1, rfl, ?_⟩
  · simp [ask, isOver, askMain, hs, hb]
  · simp [resume, isOver, resumeMain, take, hs, hb]
    rfl

theorem Idles.wait (h : t.Idles) (hi : t.interrupted = false) : t.ask .main = .blocked := by
  have hb : t.branches = [] := by rw [h.branches, hi]; rfl
  simp [ask, isOver, askMain, isSelecting_iff.mp h.1, hb]

/-- Wherever the main loop waits with nothing else to take: it stops if it heard an interruption, and
goes on waiting if not, whatever came while it was elsewhere. -/
theorem must_stop_iff_heard (settings : Except Config.StoreError Config) :
    ∀ ms t, (machine settings).Run ms t → t.Idles →
      (t.MustStop ↔ Heard ms) ∧ (t.ask .main = .blocked ↔ ¬Heard ms) := by
  intro ms t h ht
  have hi := interrupted_iff_heard h ht.1
  cases hint : t.interrupted with
  | true =>
      have hstop := ht.stop hint
      refine ⟨iff_of_true hstop (hi.mp hint), iff_of_false ?_ (not_not.mpr (hi.mp hint))⟩
      rw [hstop.1]
      nofun
  | false =>
      have hwait := ht.wait hint
      have hn : ¬Heard ms := fun hh => by simp [hi.mpr hh] at hint
      refine ⟨iff_of_false (fun hstop => ?_) hn, iff_of_true hwait hn⟩
      rw [hstop.1] at hwait
      cases hwait

/-- The settings of a terminal that calls a device. -/
def calling : Config :=
  { bluetooth := { mode := .client }, client := { address := "00:11:22:33:44:55" } }

/-- A call that is answered, and one byte that is typed and taken. -/
def sendingOne : List Act :=
  [.step (.worker (.task 0)) (.link (.connected (.ok 7))), .step (.worker (.task 0)) (.link .go),
    .step (.worker (.task 0)) (.link .go), .step .main .go, .step .reader (.input (.ok [1])),
    .step .main (.chosen .chunk)]

/-- The byte goes out, and the main loop waits again. -/
def sentOne : List Act :=
  [.step (.worker (.write 0)) (.link .go), .step (.worker (.write 0)) (.link .go),
    .step (.worker (.write 0)) (.link (.wrote (.ok 1))),
    .step (.worker (.write 0)) (.link (.flushed (.ok ()))), .step .main .go]

/-- An interruption that comes after a write counts. -/
theorem must_stop_after_a_write : ∃ ms t, (machine (.ok calling)).Run ms t ∧ t.Idles ∧ Heard ms ∧
    t.MustStop := by
  obtain ⟨ms, t, hp, ht⟩ := (machine (.ok calling)).exists_of_play
    (sendingOne ++ sentOne ++ [.interrupt])
    (fun _ t => t.isSelecting ∧ t.branches = [.signal]) (by decide +kernel)
  obtain ⟨hs, hb⟩ := of_decide_eq_true ht
  have h := Machine.run_of_play hp
  have hidle : t.Idles := ⟨hs, by simp [hb]⟩
  have hint := signal_mem_branches.mp (hb ▸ List.mem_singleton_self _)
  have hh := (interrupted_iff_heard h hs).mp hint
  exact ⟨_, t, h, hidle, hh, (must_stop_iff_heard (.ok calling) _ t h hidle).1.mpr hh⟩

/-- An interruption that comes while typed bytes are being sent is lost. -/
theorem interruption_lost : ∃ ms m ns t, (machine (.ok calling)).Run (ms ++ m :: ns) t ∧
    m.act = .interrupt ∧ (∃ h, m.before.stage = .sending h) ∧ t.Idles ∧ t.ask .main = .blocked := by
  obtain ⟨ms, m, ns, t, h, hact, hbefore, ht⟩ := (machine (.ok calling)).exists_moment_of_play
    sendingOne .interrupt sentOne (·.isSending)
    (fun t => t.isSelecting ∧ t.branches = [] ∧ t.interrupted = false)
    (by decide +kernel) (by decide +kernel)
  obtain ⟨hs, hb, hint⟩ := of_decide_eq_true ht
  have hidle : t.Idles := ⟨hs, by simp [hb]⟩
  exact ⟨ms, m, ns, t, h, hact, isSending_iff.mp hbefore, hidle, hidle.wait hint⟩

end Rfcomm.Terminal
