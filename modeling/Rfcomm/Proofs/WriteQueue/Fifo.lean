import Rfcomm.Proofs.Turns
import Rfcomm.WriteQueue
/-!
The shape of a write queue. Its nodes are numbered without gaps, the first has its bytes taken out
and is served by the only worker there is, and the others wait with their bytes.
-/
namespace Rfcomm.WriteQueue

variable {q q' : WriteQueue} {id : Nat} {isOpen : Bool} {r : Reply}
  {result : Option (Except WriteError Nat)}

/-- Nodes that wait with their bytes, numbered from `n` on. -/
inductive Waiting : Nat → List Node → Prop
  | nil {n} : Waiting n []
  | cons {n bytes rest} : Waiting (n + 1) rest → Waiting n (⟨n, some bytes⟩ :: rest)

theorem Waiting.ids {n ns} (h : Waiting n ns) : ns.map (·.id) = List.range' n ns.length := by
  induction h with
  | nil => rfl
  | cons _ ih => simp [List.range'_succ, ih]

theorem Waiting.isSome {n ns} (h : Waiting n ns) : ∀ a ∈ ns, a.waiting.isSome := by
  induction h with
  | nil => simp
  | cons _ ih => simpa using ih

theorem Waiting.snoc {n ns bytes} (h : Waiting n ns) :
    Waiting n (ns ++ [⟨n + ns.length, some bytes⟩]) := by
  induction h with
  | nil => exact .cons .nil
  | @cons n _ rest _ ih =>
      have he : n + (rest.length + 1) = n + 1 + rest.length := by omega
      simpa [he] using Waiting.cons ih

/-- A queue is idle, or its first node is served by the only worker. -/
inductive Fifo (q : WriteQueue) : Prop
  | idle : q.nodes = [] → q.tasks = [] → Fifo q
  | serving (id : Nat) (stage : Stage) (rest : List Node) :
      q.nodes = ⟨id, none⟩ :: rest → q.tasks = [⟨id, stage⟩] → Waiting (id + 1) rest →
      q.nextId = id + 1 + rest.length → Fifo q

theorem Fifo.congr (h : Fifo q) (hn : q'.nodes = q.nodes) (ht : q'.tasks = q.tasks)
    (hi : q'.nextId = q.nextId) : Fifo q' := by
  cases h with
  | idle h₁ h₂ => exact .idle (hn ▸ h₁) (ht ▸ h₂)
  | serving id stage rest h₁ h₂ h₃ h₄ => exact .serving id stage rest (hn ▸ h₁) (ht ▸ h₂) h₃ (hi ▸ h₄)

theorem Fifo.ids {q : WriteQueue} (h : Fifo q) :
    q.nodes.map (·.id) = List.range' (q.nextId - q.size) q.size := by
  cases h with
  | idle hn ht => simp [WriteQueue.size, hn]
  | serving id stage rest hn ht hw hi =>
      have he : q.nextId - q.size = id := by simp [WriteQueue.size, hn, hi]; omega
      rw [he]
      simp [WriteQueue.size, hn, List.range'_succ, hw.ids]

theorem Fifo.served (h : Fifo q) : q.tasks.map (·.id) = q.nodes.head?.toList.map (·.id) := by
  cases h with
  | idle hn ht => simp [hn, ht]
  | serving id stage rest hn ht => simp [hn, ht]

theorem Fifo.taken (h : Fifo q) (i : Nat) (n : Node) (hi : q.nodes[i]? = some n) :
    n.waiting = none ↔ i = 0 := by
  cases h with
  | idle hn => simp [hn] at hi
  | serving id stage rest hn _ hw =>
      rw [hn] at hi
      cases i with
      | zero => cases hi; simp
      | succ i =>
          have := hw.isSome n (List.mem_of_getElem? (by simpa using hi))
          simpa [Option.isSome_iff_ne_none] using this

/-! ## Enqueueing -/

theorem Fifo.enqueue (h : Fifo q) (bytes : Bytes) : Fifo (q.enqueue bytes).2 := by
  cases h with
  | idle hn ht =>
      refine .serving q.nextId (.start bytes) [] ?_ ?_ .nil ?_ <;>
        simp [WriteQueue.enqueue, dispatch, hn, ht]
  | serving id stage rest hn ht hw hi =>
      refine .serving id stage (rest ++ [⟨q.nextId, some bytes⟩]) ?_ ?_ ?_ ?_
      · simp [WriteQueue.enqueue, hn]
      · simp [WriteQueue.enqueue, hn, ht]
      · rw [hi]; exact hw.snoc
      · simp [WriteQueue.enqueue, hn, hi]; omega

@[simp] theorem enqueue_fst (q : WriteQueue) (bytes : Bytes) : (q.enqueue bytes).1 = q.nextId := rfl

@[simp] theorem dispatch_nextId (q : WriteQueue) : q.dispatch.nextId = q.nextId := by
  unfold dispatch; split <;> rfl

@[simp] theorem dispatch_lock (q : WriteQueue) : q.dispatch.lock = q.lock := by
  unfold dispatch; split <;> rfl

@[simp] theorem dispatch_stream (q : WriteQueue) : q.dispatch.stream = q.stream := by
  unfold dispatch; split <;> rfl

@[simp] theorem dispatch_size (q : WriteQueue) : q.dispatch.size = q.size := by
  unfold dispatch; split <;> simp_all [size]

@[simp] theorem dispatch_ids (q : WriteQueue) :
    q.dispatch.nodes.map (·.id) = q.nodes.map (·.id) := by
  unfold dispatch; split <;> simp_all

theorem enqueue_ids (q : WriteQueue) (bytes : Bytes) :
    (q.enqueue bytes).2.nodes.map (·.id) = q.nodes.map (·.id) ++ [q.nextId] := by
  unfold WriteQueue.enqueue; split <;> simp

@[simp] theorem enqueue_nextId (q : WriteQueue) (bytes : Bytes) :
    (q.enqueue bytes).2.nextId = q.nextId + 1 := by
  unfold WriteQueue.enqueue; split <;> simp

@[simp] theorem enqueue_lock (q : WriteQueue) (bytes : Bytes) :
    (q.enqueue bytes).2.lock = q.lock := by
  unfold WriteQueue.enqueue; split <;> simp

@[simp] theorem enqueue_stream (q : WriteQueue) (bytes : Bytes) :
    (q.enqueue bytes).2.stream = q.stream := by
  unfold WriteQueue.enqueue; split <;> simp

@[simp] theorem enqueue_size (q : WriteQueue) (bytes : Bytes) :
    (q.enqueue bytes).2.size = q.size + 1 := by
  unfold WriteQueue.enqueue; split <;> simp <;> simp [size]

/-! ## The worker -/

@[simp] theorem setStage_nodes (q : WriteQueue) (id : Nat) (stage : Stage) :
    (q.setStage id stage).nodes = q.nodes := rfl

@[simp] theorem setStage_nextId (q : WriteQueue) (id : Nat) (stage : Stage) :
    (q.setStage id stage).nextId = q.nextId := rfl

@[simp] theorem setStage_lock (q : WriteQueue) (id : Nat) (stage : Stage) :
    (q.setStage id stage).lock = q.lock := rfl

@[simp] theorem setStage_stream (q : WriteQueue) (id : Nat) (stage : Stage) :
    (q.setStage id stage).stream = q.stream := rfl

@[simp] theorem complete_nextId (q : WriteQueue) (id : Nat) : (q.complete id).nextId = q.nextId := by
  simp [complete]

@[simp] theorem complete_lock (q : WriteQueue) (id : Nat) : (q.complete id).lock = q.lock := by
  simp [complete]

@[simp] theorem complete_stream (q : WriteQueue) (id : Nat) : (q.complete id).stream = q.stream := by
  simp [complete]

theorem stage?_eq_some {stage : Stage} (h : Fifo q) (hs : q.stage? id = some stage) :
    ∃ rest, q.nodes = ⟨id, none⟩ :: rest ∧ q.tasks = [⟨id, stage⟩] ∧ Waiting (id + 1) rest ∧
      q.nextId = id + 1 + rest.length := by
  cases h with
  | idle hn ht => simp [stage?, ht] at hs
  | serving id' stage' rest hn ht hw hi =>
      by_cases he : id' = id
      · obtain rfl : stage' = stage := by simpa [stage?, ht, he] using hs
        subst he
        exact ⟨rest, hn, ht, hw, hi⟩
      · simp [stage?, ht, he] at hs

theorem Fifo.setStage (h : Fifo q) (stage : Stage) : Fifo (q.setStage id stage) := by
  cases h with
  | idle hn ht => exact .idle hn (by simp [WriteQueue.setStage, ht])
  | serving id' stage' rest hn ht hw hi =>
      refine .serving id' (if id' = id then stage else stage') rest hn ?_ hw hi
      by_cases he : id' = id <;> simp [WriteQueue.setStage, ht, he]

theorem stage?_setStage {stage : Stage} (h : Fifo q) (hs : q.stage? id = some stage)
    (stage' : Stage) (n : Nat) :
    (q.setStage id stage').stage? n = if n = id then some stage' else none := by
  obtain ⟨rest, -, ht, -⟩ := stage?_eq_some h hs
  by_cases hn : n = id
  · subst hn; simp [stage?, WriteQueue.setStage, ht]
  · simp [stage?, WriteQueue.setStage, ht, hn, Ne.symm hn]

theorem stage?_of_some {stage : Stage} (h : Fifo q) (hs : q.stage? id = some stage) (n : Nat) :
    q.stage? n = if n = id then some stage else none := by
  obtain ⟨rest, -, ht, -⟩ := stage?_eq_some h hs
  by_cases hn : n = id
  · subst hn; simp [stage?, ht]
  · simp [stage?, ht, hn, Ne.symm hn]

/-- The write that was served goes, and the next one is served from its start. -/
theorem Fifo.complete {stage : Stage} (h : Fifo q) (hs : q.stage? id = some stage) :
    Fifo (q.complete id) ∧ (q.complete id).size + 1 = q.size ∧ (q.complete id).stage? id = none ∧
      ∀ n stage', (q.complete id).stage? n = some stage' → ∃ bytes, stage' = .start bytes := by
  obtain ⟨rest, hn, ht, hw, hi⟩ := stage?_eq_some h hs
  cases hw with
  | nil =>
      have he : q.complete id = { q with nodes := [], tasks := [] } := by
        simp [WriteQueue.complete, dispatch, hn, ht]
      rw [he]
      exact ⟨.idle rfl rfl, by simp [size, hn], by simp [stage?], by simp [stage?]⟩
  | @cons _ bytes rest hw =>
      have he : q.complete id =
          { q with nodes := ⟨id + 1, none⟩ :: rest, tasks := [⟨id + 1, .start bytes⟩] } := by
        simp [WriteQueue.complete, dispatch, hn, ht]
      rw [he]
      refine ⟨.serving (id + 1) (.start bytes) rest rfl rfl hw ?_, ?_, ?_, ?_⟩
      · simp [hi]; omega
      · simp [size, hn]
      · simp [stage?]
      · intro n stage' hs'
        by_cases he : id + 1 = n
        · exact ⟨bytes, by simpa [stage?, he, eq_comm] using hs'⟩
        · simp [stage?, he] at hs'

/-! ## Steps -/

/-- What a step of the worker of a write can do. -/
inductive Move (q : WriteQueue) (isOpen : Bool) (id : Nat) :
    Reply → WriteQueue → Option (Except WriteError Nat) → Prop
  | line {bytes} : q.stage? id = some (.start bytes) → isOpen = true →
      Move q isOpen id .go ({ q with lock := q.lock.join (.write id) }.setStage id (.locking bytes)) none
  | refuse {bytes} : q.stage? id = some (.start bytes) → isOpen = false →
      Move q isOpen id .go (q.complete id) (some (.error .closed))
  | take {bytes x} : q.stage? id = some (.locking bytes) → q.lock.isHeldBy (.write id) = true →
      q.stream = some x → Move q isOpen id .go (q.setStage id (.sending x ⟨bytes, 0⟩)) none
  | miss {bytes} : q.stage? id = some (.locking bytes) → q.lock.isHeldBy (.write id) = true →
      q.stream = none →
      Move q isOpen id .go ({ q with lock := q.lock.leave }.complete id) (some (.error .closed))
  | send {x send send' r} : q.stage? id = some (.sending x send) →
      send.resume isOpen r = some (.more send') → Move q isOpen id r (q.setStage id (.sending x send')) none
  | finish {x send result r} : q.stage? id = some (.sending x send) →
      send.resume isOpen r = some (.done result) →
      Move q isOpen id r ({ q with lock := q.lock.leave }.complete id) (some result)

/-- A step is one of the moves. -/
theorem move_of_resume (h : q.resume isOpen id r = some (q', result)) : Move q isOpen id r q' result := by
  unfold resume at h
  split at h
  · split at h <;> cases h
    · exact .line ‹_› ‹_›
    · rename_i ho
      exact .refuse ‹_› (by simpa using ho)
  · split at h
    · split at h <;> cases h
      · exact .take ‹_› ‹_› ‹_›
      · exact .miss ‹_› ‹_› ‹_›
    · cases h
  · split at h <;> cases h
    · exact .send ‹_› ‹_›
    · exact .finish ‹_› ‹_›
  · cases h

/-- Every step keeps the shape; a write that ended leaves the queue. -/
theorem Move.fifo (h : Fifo q) (hm : Move q isOpen id r q' result) :
    Fifo q' ∧ q'.nextId = q.nextId ∧ q'.size + result.toList.length = q.size := by
  cases hm with
  | line =>
      have h' : Fifo { q with lock := q.lock.join (.write id) } := h.congr rfl rfl rfl
      exact ⟨h'.setStage _, rfl, rfl⟩
  | take | send => exact ⟨h.setStage _, rfl, rfl⟩
  | refuse hs =>
      obtain ⟨hf, hz, -⟩ := h.complete hs
      exact ⟨hf, by simp, by simpa using hz⟩
  | miss hs | finish hs =>
      have h' : Fifo { q with lock := q.lock.leave } := h.congr rfl rfl rfl
      obtain ⟨hf, hz, -⟩ := h'.complete hs
      exact ⟨hf, by simp, hz⟩

/-- The first write leaves the queue when it ends; otherwise the queue stays as it is. -/
theorem Move.ids (h : Fifo q) (hm : Move q isOpen id r q' result) :
    q.nodes.map (·.id) = (result.map fun _ => id).toList ++ q'.nodes.map (·.id) := by
  cases hm with
  | line | take | send => rfl
  | refuse hs | miss hs | finish hs =>
      obtain ⟨rest, hn, -⟩ := stage?_eq_some h hs
      simp [WriteQueue.complete, hn]

theorem Move.stage (hm : Move q isOpen id r q' result) : ∃ stage, q.stage? id = some stage := by
  cases hm <;> exact ⟨_, ‹_›⟩

end Rfcomm.WriteQueue
