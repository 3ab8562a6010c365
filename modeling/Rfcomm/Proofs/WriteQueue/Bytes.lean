import Rfcomm.Proofs.WriteQueue.Fifo
/-!
The bytes that a queue has of its writes. A write waits with all of them; while it is served, what its
stream took of the calls it was asked and what is still to be sent make up the whole, whatever the stream
answers.
-/
namespace Rfcomm

/-- What a stream takes when it answers what it was asked. -/
def Ask.taken : Ask → Reply → Bytes
  | .call (.write _ bytes), .wrote (.ok k) => bytes.take k
  | _, _ => []

/-- The stream that is asked to take bytes. -/
def Ask.sink? : Ask → Option StreamId
  | .call (.write x _) => some x
  | _ => none

theorem Ask.taken_of_no_sink {a : Ask} (h : a.sink? = none) (r : Reply) : a.taken r = [] := by
  unfold taken
  split
  · cases h
  · rfl

theorem Ask.taken_of_ne {a : Ask} {r : Reply} (h : ∀ k, r ≠ .wrote (.ok k)) : a.taken r = [] := by
  unfold taken
  split
  · exact absurd rfl (h _)
  · rfl

namespace Send

variable {s s' : Send} {isOpen : Bool} {r : Reply} {result : Except WriteError Nat}

/-- What a result tells of how many bytes went out, of a number in all. -/
def Tells (all written : Nat) : Except WriteError Nat → Prop
  | .ok k => k = all ∧ written = all
  | .error e => e.written = written

theorem more_of_resume (x : StreamId) (h : s.resume isOpen r = some (.more s'))
    (hw : s.written ≤ s.bytes.length) : s'.bytes = s.bytes ∧ s'.written ≤ s.bytes.length ∧
      s.bytes.take s'.written = s.bytes.take s.written ++ (s.ask isOpen x).taken r := by
  unfold resume at h
  unfold ask
  split at h
  · rw [if_pos ‹_›]
    split at h
    · rw [if_pos ‹_›]
      split at h
      · cases h
      · obtain ⟨hk, h⟩ := Option.ite_none_right_eq_some.mp h
        cases h
        simp only [rest, List.length_drop] at hk
        exact ⟨rfl, by dsimp only; omega, by simp [Ask.taken, rest, List.take_add]⟩
      · split at h <;> cases h
        exact ⟨rfl, hw, by simp [Ask.taken]⟩
      · cases h
    · split at h <;> cases h
  · split at h <;> cases h

theorem bytes_of_more (h : s.resume isOpen r = some (.more s')) : s'.bytes = s.bytes := by
  unfold resume at h
  split at h
  · split at h
    · split at h
      · cases h
      · obtain ⟨-, h⟩ := Option.ite_none_right_eq_some.mp h
        cases h
        rfl
      · split at h <;> cases h
        rfl
      · cases h
    · split at h <;> cases h
  · split at h <;> cases h

theorem done_of_resume (x : StreamId) (h : s.resume isOpen r = some (.done result))
    (hw : s.written ≤ s.bytes.length) :
    (s.ask isOpen x).taken r = [] ∧ Tells s.bytes.length s.written result := by
  unfold resume at h
  unfold ask
  split at h
  · rw [if_pos ‹_›]
    split at h
    · rw [if_pos ‹_›]
      split at h
      · cases h
        exact ⟨by simp [Ask.taken], rfl⟩
      · obtain ⟨-, h⟩ := Option.ite_none_right_eq_some.mp h
        cases h
      · split at h <;> cases h
        exact ⟨rfl, rfl⟩
      · cases h
    · rw [if_neg ‹_›]
      split at h <;> cases h
      · have he : s.written = s.bytes.length := by omega
        exact ⟨rfl, he, he⟩
      · exact ⟨rfl, rfl⟩
  · rw [if_neg ‹_›]
    split at h <;> cases h
    exact ⟨rfl, rfl⟩

end Send

namespace WriteQueue

/-- The bytes of the write that a worker serves. -/
def Stage.bytes : Stage → Bytes
  | .start bytes | .locking bytes => bytes
  | .sending _ send => send.bytes

/-- How many of them went out. -/
def Stage.written : Stage → Nat
  | .start _ | .locking _ => 0
  | .sending _ send => send.written

variable {q q' : WriteQueue} {id n : Nat} {isOpen : Bool} {r : Reply} {stage : Stage} {bytes : Bytes}
  {result : Option (Except WriteError Nat)}

/-! ## Places in the queue -/

theorem Waiting.mem {k : Nat} {ns : List Node} (h : Waiting k ns) (hk : k ≤ n)
    (hn : n < k + ns.length) : ∃ bytes, ⟨n, some bytes⟩ ∈ ns := by
  induction h with
  | nil => simp at hn; omega
  | @cons k bytes rest _ ih =>
      by_cases he : k = n
      · exact ⟨bytes, by simp [he]⟩
      · obtain ⟨b, hb⟩ := ih (by omega) (by simp at hn; omega)
        exact ⟨b, by simp [hb]⟩

theorem Waiting.le {k : Nat} {ns : List Node} (h : Waiting k ns) {a : Node} (ha : a ∈ ns) :
    k ≤ a.id := by
  induction h with
  | nil => simp at ha
  | @cons k bytes rest _ ih =>
      rcases List.mem_cons.mp ha with rfl | ha
      · exact Nat.le_refl _
      · have := ih ha
        omega

theorem waits_behind (h : Fifo q) (hs : q.stage? id = some stage) (hn : id < n) :
    (∃ bytes, ⟨n, some bytes⟩ ∈ q.nodes) ∨ q.nextId ≤ n := by
  obtain ⟨rest, hq, -, hw, hi⟩ := stage?_eq_some h hs
  by_cases hl : q.nextId ≤ n
  · exact .inr hl
  · obtain ⟨bytes, hb⟩ := hw.mem (n := n) (by omega) (by omega)
    exact .inl ⟨bytes, by simp [hq, hb]⟩

theorem mem_nodes_enqueue {bytes' : Bytes} (h : ⟨n, some bytes⟩ ∈ (q.enqueue bytes').2.nodes) :
    ⟨n, some bytes⟩ ∈ q.nodes ∨ n = q.nextId ∧ bytes = bytes' := by
  unfold WriteQueue.enqueue at h
  split at h
  · rename_i hq
    simp [List.isEmpty_iff.mp hq, dispatch] at h
  · simpa using h

theorem stage?_of_enqueue (hf : Fifo q) (h : (q.enqueue bytes).2.stage? n = some stage) :
    q.stage? n = some stage ∨ n = q.nextId ∧ stage = .start bytes := by
  cases hf with
  | idle hn ht =>
      right
      by_cases he : q.nextId = n
      · simpa [stage?, WriteQueue.enqueue, dispatch, hn, ht, he, eq_comm] using h
      · simp [stage?, WriteQueue.enqueue, dispatch, hn, ht, he] at h
  | serving _ _ _ hn =>
      left
      simpa [stage?, WriteQueue.enqueue, hn] using h

/-- When a write goes, the next one is served with the bytes that it waited with. -/
theorem of_complete (hf : Fifo q) (hs : q.stage? id = some stage) :
    (∀ n bytes, ⟨n, some bytes⟩ ∈ (q.complete id).nodes → ⟨n, some bytes⟩ ∈ q.nodes) ∧
    (∀ n stage', (q.complete id).stage? n = some stage' →
      ∃ bytes, stage' = .start bytes ∧ ⟨n, some bytes⟩ ∈ q.nodes) ∧
    (q.complete id).nodes.map (·.id) = (q.nodes.map (·.id)).tail := by
  obtain ⟨rest, hn, ht, hw, -⟩ := stage?_eq_some hf hs
  cases hw with
  | nil => simp [WriteQueue.complete, dispatch, stage?, hn, ht]
  | @cons _ bytes rest hw =>
      have he : q.complete id =
          { q with nodes := ⟨id + 1, none⟩ :: rest, tasks := [⟨id + 1, .start bytes⟩] } := by
        simp [WriteQueue.complete, dispatch, hn, ht]
      rw [he]
      refine ⟨?_, ?_, ?_⟩
      · intro n b hb
        have hb : ⟨n, some b⟩ ∈ rest := by simpa using hb
        simp [hn, hb]
      · intro n stage' hs'
        by_cases hid : id + 1 = n
        · subst hid
          exact ⟨bytes, by simpa [stage?, eq_comm] using hs', by simp [hn]⟩
        · simp [stage?, hid] at hs'
      · simp [hn]

/-! ## Steps -/

theorem ask_of_sending {x : StreamId} {send : Send} (hs : q.stage? id = some (.sending x send)) :
    q.ask isOpen id = send.ask isOpen x := by
  rw [ask, hs]

/-- A write takes bytes to a stream only while it is sent to that stream, and not to a closed link. -/
theorem sending_of_sink {x : StreamId} (h : (q.ask isOpen id).sink? = some x) :
    isOpen = true ∧ ∃ send, q.stage? id = some (.sending x send) := by
  unfold ask at h
  split at h
  · cases h
  · cases h
  · unfold Ask.turn at h
    split at h <;> cases h
  · rename_i y send hs
    unfold Send.ask at h
    split at h
    · split at h <;> cases h
      exact ⟨‹_›, send, hs⟩
    · cases h

theorem taken_of_not_sending (hs : q.stage? id = some stage) (h : ∀ x send, stage ≠ .sending x send) :
    (q.ask isOpen id).taken r = [] := by
  refine Ask.taken_of_no_sink ?_ r
  by_contra hx
  obtain ⟨x, hx⟩ := Option.ne_none_iff_exists'.mp hx
  obtain ⟨-, send, hs'⟩ := sending_of_sink hx
  exact h x send (Option.some.inj (hs.symm.trans hs'))

/-- While a write is served, its bytes stay, and those that went out get more by what is taken. -/
theorem Move.progress (h : Fifo q) (hm : Move q isOpen id r q' none)
    (hs : q.stage? id = some stage) (hw : stage.written ≤ stage.bytes.length) :
    ∃ stage', q' = { q with tasks := q'.tasks, lock := q'.lock } ∧
      (∀ n, q'.stage? n = if n = id then some stage' else none) ∧
      stage'.bytes = stage.bytes ∧ stage'.written ≤ stage.bytes.length ∧
      stage.bytes.take stage'.written =
        stage.bytes.take stage.written ++ (q.ask isOpen id).taken r := by
  cases hm with
  | @line bytes hs' =>
      obtain rfl := Option.some.inj (hs.symm.trans hs')
      have h' : Fifo { q with lock := q.lock.join (.write id) } := h.congr rfl rfl rfl
      refine ⟨.locking bytes, rfl, fun n => stage?_setStage h' hs _ n, rfl, hw, ?_⟩
      rw [taken_of_not_sending hs (by simp), List.append_nil]
      rfl
  | @take bytes x hs' =>
      obtain rfl := Option.some.inj (hs.symm.trans hs')
      refine ⟨.sending x ⟨bytes, 0⟩, rfl, fun n => stage?_setStage h hs _ n, rfl, hw, ?_⟩
      rw [taken_of_not_sending hs (by simp), List.append_nil]
      rfl
  | @send x send send' _ hs' hr =>
      obtain rfl := Option.some.inj (hs.symm.trans hs')
      obtain ⟨hb, hw', ht⟩ := Send.more_of_resume x hr hw
      refine ⟨.sending x send', rfl, fun n => stage?_setStage h hs _ n, hb, hw', ?_⟩
      rw [ask_of_sending hs]
      exact ht

theorem Move.ends {result : Except WriteError Nat} (hm : Move q isOpen id r q' (some result))
    (hs : q.stage? id = some stage) (hw : stage.written ≤ stage.bytes.length) :
    (∃ lock, q' = { q with lock }.complete id) ∧ (q.ask isOpen id).taken r = [] ∧
      Send.Tells stage.bytes.length stage.written result := by
  cases hm with
  | refuse hs' | miss hs' =>
      obtain rfl := Option.some.inj (hs.symm.trans hs')
      exact ⟨⟨_, rfl⟩, taken_of_not_sending hs (by simp), rfl⟩
  | @finish x send _ _ hs' hr =>
      obtain rfl := Option.some.inj (hs.symm.trans hs')
      rw [ask_of_sending hs]
      exact ⟨⟨_, rfl⟩, Send.done_of_resume x hr hw⟩

end WriteQueue

end Rfcomm
