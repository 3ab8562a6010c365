import Rfcomm.OpenFlag
import Rfcomm.Proofs.Machine
import Rfcomm.Proofs.WriteQueue.Fifo
/-!
Write queues as machines. Whatever order writes are submitted in, streams are put in and taken out,
the link opens and closes and workers go on: the queue is in order, and each write is completed once,
in the order of submission.
-/
namespace Rfcomm.WriteQueue

/-- A queue and the flag that it looks at. -/
structure Site where
  queue : WriteQueue := {}
  flag : OpenFlag := {}

/-- What can be done with a queue. Others than its own workers take turns on the stream, too. -/
inductive Act
  | enqueue (bytes : Bytes)
  | setOpen (isOpen : Bool)
  | join (n : Nat)
  /-- Somebody else, who is first in line, puts a stream in or takes it out. -/
  | replace (n : Nat) (stream : Handle)
  | leave (n : Nat)
  | step (id : Nat) (r : Reply)

/-- What comes of an act: a write that was submitted, and one that was completed with its result. -/
structure Effect where
  submitted : Option Nat := none
  completed : Option (Nat × Except WriteError Nat) := none

namespace Site

/-- What an act does. -/
def perform (t : Site) : Act → Option (Site × Effect)
  | .enqueue bytes =>
    some ({ t with queue := (t.queue.enqueue bytes).2 },
      { submitted := some (t.queue.enqueue bytes).1 })
  | .setOpen isOpen => some ({ t with flag := (t.flag.set isOpen).2 }, {})
  | .join n =>
    if .task n ∈ t.queue.lock.line then none
    else some ({ t with queue := { t.queue with lock := t.queue.lock.join (.task n) } }, {})
  | .replace n stream =>
    if t.queue.lock.isHeldBy (.task n) then
      some ({ t with queue := { t.queue with stream } }, {})
    else none
  | .leave n =>
    if t.queue.lock.isHeldBy (.task n) then
      some ({ t with queue := { t.queue with lock := t.queue.lock.leave } }, {})
    else none
  | .step id r =>
    (t.queue.resume t.flag.isOpen id r).map fun (queue, result) =>
      ({ t with queue }, { completed := result.map (id, ·) })

/-- One moment of a queue. -/
abbrev Moment := Rfcomm.Moment Site Act Effect

/-- An empty queue, under a flag that is set or not. -/
def machine (isOpen : Bool) : Machine Site Act Effect where
  start := { flag := ⟨isOpen⟩ }
  perform := perform

/-- The writes that were submitted. -/
def submitted (ms : List Moment) : List Nat := ms.filterMap (·.effect.submitted)

/-- The writes that were completed, with their results. -/
def completed (ms : List Moment) : List (Nat × Except WriteError Nat) :=
  ms.filterMap (·.effect.completed)

/-- A queue in order, after the given moments. -/
structure Ordered (ms : List Moment) (q : WriteQueue) : Prop where
  /-- The nodes are numbered without gaps, from the first write that is not completed. -/
  ids : q.nodes.map (·.id) = List.range' (completed ms).length q.size
  /-- There is a worker for the first node and for no other. -/
  served : q.tasks.map (·.id) = q.nodes.head?.toList.map (·.id)
  /-- The first node has its bytes taken out, and no other has. -/
  taken : ∀ i n, q.nodes[i]? = some n → (n.waiting = none ↔ i = 0)
  /-- Writes are numbered as they are submitted. -/
  numbers : submitted ms = List.range (submitted ms).length
  /-- Each write is completed once, in the order of submission. -/
  turns : (completed ms).map (·.1) = List.range (completed ms).length
  /-- What is queued was submitted and not completed. -/
  size : q.size + (completed ms).length = (submitted ms).length
  /-- Whatever was completed was at the head of the queue then. -/
  head : ∀ m ∈ ms, ∀ c ∈ m.effect.completed, m.before.queue.nodes.head?.map (·.id) = some c.1

variable {t t' : Site} {a : Act} {e : Effect} {ms : List Moment} {isOpen : Bool}

/-- What an act does to the shape of the queue and to the numbers that it deals with. -/
theorem fifo_perform (hp : t.perform a = some (t', e)) (h : Fifo t.queue) :
    Fifo t'.queue ∧ e.submitted.toList = List.range' t.queue.nextId e.submitted.toList.length ∧
      t'.queue.nextId = t.queue.nextId + e.submitted.toList.length ∧
      t'.queue.size + e.completed.toList.length = t.queue.size + e.submitted.toList.length ∧
      ∀ c ∈ e.completed, t.queue.nodes.head?.map (·.id) = some c.1 := by
  cases a with
  | enqueue bytes =>
      cases hp
      exact ⟨h.enqueue bytes, by simp, by simp, by simp, by simp⟩
  | setOpen b => cases hp; exact ⟨h, by simp, by simp, by simp, by simp⟩
  | join n | replace n stream | leave n =>
      simp only [perform] at hp
      split at hp <;> cases hp
      exact ⟨h.congr rfl rfl rfl, by simp, rfl, rfl, by simp⟩
  | step id r =>
      obtain ⟨⟨q', result⟩, hr, he⟩ := Option.map_eq_some_iff.mp hp
      cases he
      have hm := move_of_resume hr
      obtain ⟨hf, hn, hz⟩ := hm.fifo h
      refine ⟨hf, by simp, by simpa using hn, ?_, ?_⟩
      · cases result <;> simpa using hz
      · obtain ⟨stage, hs⟩ := hm.stage
        obtain ⟨rest, hq, -⟩ := stage?_eq_some h hs
        cases result <;> simp [hq]

/-- The shape of the queue and its numbers, against what was submitted and completed. -/
theorem counts (h : (machine isOpen).Run ms t) :
    Fifo t.queue ∧ submitted ms = List.range t.queue.nextId ∧
      t.queue.size + (completed ms).length = t.queue.nextId ∧
      (completed ms).map (·.1) = List.range (completed ms).length ∧
      ∀ m ∈ ms, ∀ c ∈ m.effect.completed, m.before.queue.nodes.head?.map (·.id) = some c.1 := by
  induction h with
  | start => exact ⟨.idle rfl rfl, rfl, rfl, rfl, by simp⟩
  | @next ms t a t' e hr _ hp ih =>
      obtain ⟨hf, hs, hz, hc, hh⟩ := ih
      obtain ⟨hf', hsub, hn, hz', hh'⟩ := fifo_perform hp hf
      have hsub' : submitted (ms ++ [⟨t, a, t', e⟩]) = submitted ms ++ e.submitted.toList := by
        cases he : e.submitted <;> simp [submitted, he]
      have hcom' : completed (ms ++ [⟨t, a, t', e⟩]) = completed ms ++ e.completed.toList := by
        cases he : e.completed <;> simp [completed, he]
      refine ⟨hf', ?_, ?_, ?_, ?_⟩
      · have happ : List.range' 0 t.queue.nextId ++
            List.range' (0 + t.queue.nextId) e.submitted.toList.length =
              List.range' 0 (t.queue.nextId + e.submitted.toList.length) := List.range'_append_1
        rw [Nat.zero_add] at happ
        rw [hsub', hs, hsub, hn, List.range_eq_range', List.range_eq_range', ← happ, ← hsub]
      · rw [hcom', List.length_append]; omega
      · -- The number at the head is the number of those completed before.
        cases he : e.completed with
        | none => simpa [hcom', he] using hc
        | some c =>
            have hlen : t.queue.nextId - t.queue.size = (completed ms).length := by omega
            have hid : c.1 = (completed ms).length := by
              have hq := hh' c (by simp [he])
              rw [← List.head?_map, hf.ids, hlen, List.head?_range'] at hq
              split at hq
              · cases hq
              · exact (Option.some.inj hq).symm
            rw [hcom', he, Option.toList_some, List.map_append, hc, List.length_append,
              List.length_singleton, List.range_succ, List.map_singleton, hid]
      · intro m hm c hc'
        rcases List.mem_append.mp hm with hm | hm
        · exact hh m hm c hc'
        · obtain rfl := List.mem_singleton.mp hm
          exact hh' c hc'

/-- A queue is in order after every run. -/
theorem ordered_of_run (h : (machine isOpen).Run ms t) : Ordered ms t.queue := by
  obtain ⟨hf, hs, hz, hc, hh⟩ := counts h
  have hlen : (submitted ms).length = t.queue.nextId := by simp [hs]
  have hcom : t.queue.nextId - t.queue.size = (completed ms).length := by omega
  refine ⟨hcom ▸ hf.ids, hf.served, hf.taken, by rw [hlen]; exact hs, hc, by rw [hlen]; exact hz, hh⟩

/-- Two writes at a closed link, of which the first is refused. -/
theorem ordered_after_refusal : ∃ ms t, (machine false).Run ms t ∧
    submitted ms = [0, 1] ∧ (completed ms).map (·.1) = [0] ∧ Ordered ms t.queue := by
  have h : ((machine false).play [.enqueue [1], .enqueue [2], .step 0 .go]).isSome := rfl
  have hr := Machine.run_of_play (Option.some_get h).symm
  exact ⟨_, _, hr, rfl, rfl, ordered_of_run hr⟩

end Site

end Rfcomm.WriteQueue
