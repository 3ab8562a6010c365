import Rfcomm.Proofs.Link.Closing
import Rfcomm.Proofs.Machine
import Rfcomm.Proofs.WriteQueue.Bytes
/-!
What goes over the wire. The streams of a link, one after the other, take a part of each write in the
order of their submission, and the result of a write tells how long its part is.
-/
namespace Rfcomm.Link

/-- What is done at a link, as far as it matters to the writes. -/
inductive Act
  | write (bytes : Bytes)
  | step (n : Nat) (r : Reply)
  | other

/-- One moment of a link, with the outcome of a write if one ended. -/
abbrev Moment := Rfcomm.Moment Link Act (Option Outcome)

/-- What a stream takes of a write at once. -/
structure Portion where
  stream : StreamId
  write : Nat
  bytes : Bytes

def portion? (m : Moment) : Option Portion :=
  match m.act with
  | .step n r =>
    (m.before.askWrite n).sink?.map fun x => ⟨x, n, (m.before.askWrite n).taken r⟩
  | _ => none

def portions (ms : List Moment) : List Portion := ms.filterMap portion?

/-- What was to be written, in the order of submission. Each write is named by its place here. -/
def submitted (ms : List Moment) : List Bytes :=
  ms.filterMap fun m => match m.act with
    | .write bytes => some bytes
    | _ => none

/-- The streams that the link wrote to, in the order in which they were attached. -/
def attached (ms : List Moment) : List StreamId :=
  ms.filterMap fun m =>
    if m.after.queue.stream = m.before.queue.stream then none else m.after.queue.stream

/-- What was taken of a write. -/
def taken (ms : List Moment) (n : Nat) : Bytes :=
  ((portions ms).filter (·.write = n)).flatMap (·.bytes)

/-- What a stream took. -/
def accepted (ms : List Moment) (x : StreamId) : Bytes :=
  ((portions ms).filter (·.stream = x)).flatMap (·.bytes)

/-- What the streams took, one stream after the other. -/
def wire (ms : List Moment) : Bytes := (attached ms).flatMap (accepted ms)

/-- A write has come to an outcome. -/
def Resolves (ms : List Moment) (n : Nat) (o : Outcome) : Prop :=
  ∃ m ∈ ms, (∃ r, m.act = .step n r) ∧ m.effect = some o

/-- What an outcome tells of a write is so. -/
def Honest (bytes taken : Bytes) : Outcome → Prop
  | .sent k => k = bytes.length ∧ taken = bytes
  | .failed (.write e) => taken.length = e.written
  | _ => False

/-- The wire is as the results of the writes tell. -/
structure Faithful (ms : List Moment) (l : Link) : Prop where
  number : l.queue.nextId = (submitted ms).length
  /-- Nothing is lost, repeated, out of order or mixed up. -/
  wire : wire ms = (List.range (submitted ms).length).flatMap (taken ms)
  streams : ∀ p ∈ portions ms, p.stream ∈ attached ms
  part : ∀ n bytes, (submitted ms)[n]? = some bytes → taken ms n <+: bytes
  results : ∀ n o, Resolves ms n o →
    ∃ bytes, (submitted ms)[n]? = some bytes ∧ Honest bytes (taken ms n) o
  /-- Whoever stands behind the first in the queue has not sent a byte. -/
  behind : ∀ a ∈ l.queue.nodes.tail, taken ms a.id = []

variable {l l' : Link} {ms : List Moment} {m : Moment} {n : Nat} {x : StreamId} {p : Portion}
  {acts : Nat → Option Activity} {a a' : Option Activity} {r : Reply} {bytes : Bytes}
  {result : Option (Except WriteError Nat)}

/-! ## Histories -/

/-- A step that leaves the writes alone. The stream stays under a write that is being sent. -/
structure Spares (l l' : Link) : Prop where
  queue : l'.queue = { l.queue with lock := l'.queue.lock, stream := l'.queue.stream }
  stream : l'.queue.stream = l.queue.stream ∨
    ∀ id x send, l.queue.stage? id ≠ some (.sending x send)

/-- What was done so far at a link that is sound. No stream is attached twice. -/
inductive Trace : List Moment → Link → Prop
  | start {l : Link} : l.queue = {} → Trace [] l
  | write {ms : List Moment} {l : Link} {acts bytes} : Trace ms l → l.Sound acts →
      Trace (ms ++ [⟨l, .write bytes, (l.write bytes).2, none⟩]) (l.write bytes).2
  | step {ms : List Moment} {l l' : Link} {acts n r result} : Trace ms l → l.Sound acts →
      l.resumeWrite n r = some (l', result) →
      Trace (ms ++ [⟨l, .step n r, l',
        result.map fun x => .ofExcept .sent (x.mapError .write)⟩]) l'
  | other {ms : List Moment} {l l' : Link} : Trace ms l → l.Spares l' →
      (∀ x, l'.queue.stream = some x → l.queue.stream = some x ∨ x ∉ attached ms) →
      Trace (ms ++ [⟨l, .other, l', none⟩]) l'

theorem Spares.refl (h : l'.queue = l.queue) : l.Spares l' := ⟨by rw [h], .inl (by rw [h])⟩

theorem Move.spares (h : Sound l acts) (ha : acts n = a) (hm : Move l n a l' a') : l.Spares l' := by
  cases hm with
  | attach hl => exact ⟨rfl, .inr fun id x send => h.not_sending hl id⟩
  | takeOut hl => exact ⟨rfl, .inr fun id x send => h.not_sending hl id⟩
  | _ => exact ⟨rfl, .inl rfl⟩

theorem Moves.spares (h : Sound l acts) (ha : acts n = a) (hm : Moves l n a l' a') :
    l.Spares l' := by
  cases hm with
  | none => exact .refl rfl
  | move hm => exact hm.spares h ha
  | close hm =>
      have := hm.spares h ha
      exact ⟨this.queue, this.stream⟩

/-! ## What a moment adds -/

theorem portions_snoc : portions (ms ++ [m]) = portions ms ++ (portion? m).toList := by
  cases h : portion? m <;> simp [portions, h]

theorem taken_of_none (h : portion? m = none) (n : Nat) : taken (ms ++ [m]) n = taken ms n := by
  simp [taken, portions_snoc, h]

theorem accepted_of_none (h : portion? m = none) (x : StreamId) :
    accepted (ms ++ [m]) x = accepted ms x := by
  simp [accepted, portions_snoc, h]

theorem taken_of_some (h : portion? m = some p) (n : Nat) :
    taken (ms ++ [m]) n = taken ms n ++ if n = p.write then p.bytes else [] := by
  by_cases hn : n = p.write
  · simp [taken, portions_snoc, h, hn]
  · simp [taken, portions_snoc, h, hn, Ne.symm hn]

theorem accepted_of_some (h : portion? m = some p) (x : StreamId) :
    accepted (ms ++ [m]) x = accepted ms x ++ if x = p.stream then p.bytes else [] := by
  by_cases hx : x = p.stream
  · simp [accepted, portions_snoc, h, hx]
  · simp [accepted, portions_snoc, h, hx, Ne.symm hx]

theorem attached_of_same (h : m.after.queue.stream = m.before.queue.stream) :
    attached (ms ++ [m]) = attached ms := by
  simp [attached, h]

theorem portion?_of_step (ha : m.act = .step n r) : portion? m =
    (m.before.askWrite n).sink?.map fun x => ⟨x, n, (m.before.askWrite n).taken r⟩ := by
  simp only [portion?, ha]

theorem taken_of_step (ms : List Moment) (ha : m.act = .step n r) (k : Nat) :
    taken (ms ++ [m]) k = taken ms k ++ if k = n then (m.before.askWrite n).taken r else [] := by
  have hp := portion?_of_step ha
  cases hx : (m.before.askWrite n).sink? with
  | none =>
      rw [hx] at hp
      rw [taken_of_none hp, Ask.taken_of_no_sink hx]
      simp
  | some x =>
      rw [hx] at hp
      exact taken_of_some hp k

theorem bytes_of_step (ha : m.act = .step n r) : (portions (ms ++ [m])).flatMap (·.bytes) =
    (portions ms).flatMap (·.bytes) ++ (m.before.askWrite n).taken r := by
  have hp := portion?_of_step ha
  cases hx : (m.before.askWrite n).sink? with
  | none =>
      rw [hx] at hp
      simp [portions_snoc, hp, Ask.taken_of_no_sink hx]
  | some x =>
      rw [hx] at hp
      simp [portions_snoc, hp]

/-- Where one part grows and nothing stands behind it, the whole grows by as much. -/
theorem flatMap_grow {κ : Type} [DecidableEq κ] {l₁ l₂ : List κ} {k : κ} {f g : κ → Bytes}
    (h : ∀ j, g j = f j ++ if j = k then bytes else []) (h₁ : k ∉ l₁) (h₂ : ∀ j ∈ l₂, f j = [])
    (h₃ : k ∉ l₂) : (l₁ ++ k :: l₂).flatMap g = (l₁ ++ k :: l₂).flatMap f ++ bytes := by
  have same : ∀ ks : List κ, k ∉ ks → ks.flatMap g = ks.flatMap f := by
    intro ks hk
    refine List.flatMap_congr fun j hj => ?_
    have hne : j ≠ k := by
      rintro rfl
      exact hk hj
    simp [h, hne]
  have hnil : l₂.flatMap f = [] := by simpa using h₂
  simp [same l₁ h₁, same l₂ h₃, hnil, h k]

/-! ## The streams -/

/-- The streams so far. The one that is written to came last. -/
structure Streams (ms : List Moment) (l : Link) : Prop where
  nodup : (attached ms).Nodup
  last : ∀ x, l.queue.stream = some x → ∃ earlier, attached ms = earlier ++ [x]
  takers : ∀ p ∈ portions ms, p.stream ∈ attached ms
  wire : wire ms = (portions ms).flatMap (·.bytes)

theorem Streams.quiet (h : Streams ms l) (hl : m.after.queue.stream = m.before.queue.stream)
    (hl' : l'.queue.stream = l.queue.stream) (hp : portion? m = none) :
    Streams (ms ++ [m]) l' := by
  have ha : attached (ms ++ [m]) = attached ms := attached_of_same hl
  have hps : portions (ms ++ [m]) = portions ms := by simp [portions_snoc, hp]
  refine ⟨by rw [ha]; exact h.nodup, fun x hx => by rw [ha]; exact h.last x (hl' ▸ hx), ?_, ?_⟩
  · rw [hps, ha]
    exact h.takers
  · rw [hps, ← h.wire, Link.wire, Link.wire, ha]
    exact List.flatMap_congr fun x _ => accepted_of_none hp x

theorem resumeWrite_stream (h : l.resumeWrite n r = some (l', result)) :
    l'.queue.stream = l.queue.stream := by
  obtain ⟨⟨q, result⟩, hq, he⟩ := Option.map_eq_some_iff.mp h
  cases he
  cases WriteQueue.move_of_resume hq <;> simp

theorem stage_of_resumeWrite (h : l.resumeWrite n r = some (l', result)) :
    ∃ stage, l.queue.stage? n = some stage := by
  obtain ⟨⟨q, result⟩, hq, he⟩ := Option.map_eq_some_iff.mp h
  exact (WriteQueue.move_of_resume hq).stage

/-- What is taken is taken by the stream that came last, so it stands at the end of the wire. -/
theorem Streams.step {o : Option Outcome} (h : Streams ms l) (hS : l.Sound acts)
    (hr : l.resumeWrite n r = some (l', result)) :
    Streams (ms ++ [⟨l, .step n r, l', o⟩]) l' := by
  have hstream := resumeWrite_stream hr
  let m : Moment := ⟨l, .step n r, l', o⟩
  have hp : portion? m = _ := portion?_of_step rfl
  cases hsink : (l.askWrite n).sink? with
  | none => exact h.quiet hstream hstream (by rw [hp, hsink]; rfl)
  | some x =>
      obtain ⟨-, send, hs⟩ := WriteQueue.sending_of_sink hsink
      obtain ⟨earlier, hx⟩ := h.last x (hS.sends n x send hs)
      have ha : attached (ms ++ [m]) = attached ms := attached_of_same hstream
      rw [hsink, Option.map_some] at hp
      have hnot : x ∉ earlier := by
        have := h.nodup
        rw [hx, List.nodup_append'] at this
        simpa using this.2.2
      change Streams (ms ++ [m]) l'
      refine ⟨by rw [ha]; exact h.nodup, fun y hy => by rw [ha]; exact h.last y (hstream ▸ hy), ?_, ?_⟩
      · simp only [portions_snoc, hp, Option.toList_some, ha]
        intro p hp'
        rcases List.mem_append.mp hp' with hp' | hp'
        · exact h.takers p hp'
        · obtain rfl := List.mem_singleton.mp hp'
          simp [hx]
      · rw [Link.wire, ha, hx, flatMap_grow (fun y => accepted_of_some hp y) hnot (by simp) (by simp),
          ← hx, ← Link.wire, h.wire]
        simp [portions_snoc, hp]

theorem Streams.other (h : Streams ms l)
    (hx : ∀ x, l'.queue.stream = some x → l.queue.stream = some x ∨ x ∉ attached ms) :
    Streams (ms ++ [⟨l, .other, l', none⟩]) l' := by
  by_cases hl : l'.queue.stream = l.queue.stream
  · exact h.quiet hl hl rfl
  · have hps : portions (ms ++ [⟨l, .other, l', none⟩]) = portions ms := by
      simp [portions_snoc, portion?]
    cases hn : l'.queue.stream with
    | none =>
        have ha : attached (ms ++ [⟨l, .other, l', none⟩]) = attached ms := by simp [attached, hn]
        refine ⟨by rw [ha]; exact h.nodup, by simp [hn], by rw [hps, ha]; exact h.takers, ?_⟩
        rw [hps, ← h.wire, Link.wire, Link.wire, ha]
        exact List.flatMap_congr fun x _ => accepted_of_none rfl x
    | some x =>
        have hnew : x ∉ attached ms := by
          refine (hx x hn).resolve_left fun h' => hl ?_
          rw [hn, h']
        have hl : some x ≠ l.queue.stream := hn ▸ hl
        have ha : attached (ms ++ [⟨l, .other, l', none⟩]) = attached ms ++ [x] := by
          simp [attached, hn, hl]
        have hnil : accepted ms x = [] := by
          simp only [accepted, List.flatMap_eq_nil_iff, List.mem_filter, decide_eq_true_eq]
          rintro p ⟨hp, rfl⟩
          exact absurd (h.takers p hp) hnew
        refine ⟨?_, ?_, ?_, ?_⟩
        · rw [ha]
          exact List.nodup_append'.mpr ⟨h.nodup, by simp, by simpa using hnew⟩
        · intro y hy
          obtain rfl := Option.some.inj (hn.symm.trans hy)
          exact ⟨_, ha⟩
        · rw [hps, ha]
          exact fun p hp => List.mem_append_left _ (h.takers p hp)
        · rw [hps, ← h.wire, Link.wire, Link.wire, ha, List.flatMap_append, List.flatMap_singleton,
            accepted_of_none rfl, hnil, List.append_nil]
          exact List.flatMap_congr fun x _ => accepted_of_none rfl x

theorem Trace.streams (h : Trace ms l) : Streams ms l := by
  induction h with
  | start hq =>
      refine ⟨.nil, ?_, ?_, rfl⟩
      · intro x hx
        rw [hq] at hx
        cases hx
      · intro p hp
        cases hp
  | write _ _ ih =>
      have hs : ∀ (l : Link) (bytes : Bytes), (l.write bytes).2.queue.stream = l.queue.stream := by
        simp [Link.write]
      exact ih.quiet (hs _ _) (hs _ _) rfl
  | step _ hS hr ih => exact ih.step hS hr
  | other _ _ hx ih => exact ih.other hx

/-! ## The queue -/

/-- What the queue has of each write that was submitted, against what was taken of it. -/
structure Accounts (ms : List Moment) (q : WriteQueue) : Prop where
  number : q.nextId = (submitted ms).length
  waits : ∀ n bytes, ⟨n, some bytes⟩ ∈ q.nodes →
    (submitted ms)[n]? = some bytes ∧ taken ms n = []
  serves : ∀ n stage, q.stage? n = some stage → (submitted ms)[n]? = some stage.bytes ∧
    stage.written ≤ stage.bytes.length ∧ taken ms n = stage.bytes.take stage.written
  later : ∀ n, q.nextId ≤ n → taken ms n = []
  order : (portions ms).flatMap (·.bytes) = (List.range (submitted ms).length).flatMap (taken ms)
  part : ∀ n bytes, (submitted ms)[n]? = some bytes → taken ms n <+: bytes
  results : ∀ n o, Resolves ms n o → n ∉ q.nodes.map (·.id) ∧
    ∃ bytes, (submitted ms)[n]? = some bytes ∧ Honest bytes (taken ms n) o

variable {q q' : WriteQueue} {stage : WriteQueue.Stage}

theorem Accounts.behind (h : Accounts ms q) (hf : q.Fifo) (hs : q.stage? n = some stage) {k : Nat}
    (hk : n < k) : taken ms k = [] := by
  rcases WriteQueue.waits_behind hf hs hk with ⟨bytes, hb⟩ | hl
  · exact (h.waits k bytes hb).2
  · exact h.later k hl

theorem resolves_snoc {o : Outcome} (h : Resolves (ms ++ [m]) n o) :
    Resolves ms n o ∨ (∃ r, m.act = .step n r) ∧ m.effect = some o := by
  obtain ⟨m', hm, h⟩ := h
  rcases List.mem_append.mp hm with hm | hm
  · exact .inl ⟨m', hm, h⟩
  · obtain rfl := List.mem_singleton.mp hm
    exact .inr h

theorem Accounts.write (h : Accounts ms l.queue) (hf : l.queue.Fifo) :
    Accounts (ms ++ [⟨l, .write bytes, (l.write bytes).2, none⟩]) (l.queue.enqueue bytes).2 := by
  let m : Moment := ⟨l, .write bytes, (l.write bytes).2, none⟩
  have htaken : ∀ n, taken (ms ++ [m]) n = taken ms n := fun n => taken_of_none rfl n
  have hsub : submitted (ms ++ [m]) = submitted ms ++ [bytes] := by simp [submitted, m]
  have hold : ∀ {n : Nat} {b : Bytes}, (submitted ms)[n]? = some b →
      (submitted (ms ++ [m]))[n]? = some b := by
    intro n b hb
    obtain ⟨hn, -⟩ := List.getElem?_eq_some_iff.mp hb
    rw [hsub, List.getElem?_append_left hn]
    exact hb
  have hnew : (submitted (ms ++ [m]))[l.queue.nextId]? = some bytes := by
    rw [hsub, h.number]
    simp
  have hnil : taken ms l.queue.nextId = [] := h.later _ (Nat.le_refl _)
  change Accounts (ms ++ [m]) _
  refine ⟨?_, ?_, ?_, ?_, ?_, ?_, ?_⟩
  · rw [hsub, WriteQueue.enqueue_nextId, h.number]
    simp
  · intro n b hb
    rw [htaken]
    rcases WriteQueue.mem_nodes_enqueue hb with hb | ⟨rfl, rfl⟩
    · exact ⟨hold (h.waits n b hb).1, (h.waits n b hb).2⟩
    · exact ⟨hnew, hnil⟩
  · intro n st hs
    rw [htaken]
    rcases WriteQueue.stage?_of_enqueue hf hs with hs | ⟨rfl, rfl⟩
    · obtain ⟨h₁, h₂⟩ := h.serves n st hs
      exact ⟨hold h₁, h₂⟩
    · exact ⟨hnew, Nat.zero_le _, by simpa [WriteQueue.Stage.written] using hnil⟩
  · intro n hn
    rw [htaken]
    rw [WriteQueue.enqueue_nextId] at hn
    exact h.later n (by omega)
  · have hlast : taken ms (submitted ms).length = [] := h.number ▸ hnil
    have hp : portions (ms ++ [m]) = portions ms := by simp [portions_snoc, portion?, m]
    rw [hp, h.order, hsub, List.length_append, List.length_singleton, List.range_succ,
      List.flatMap_append, List.flatMap_singleton, htaken, hlast, List.append_nil]
    exact List.flatMap_congr fun n _ => (htaken n).symm
  · intro n b hb
    rw [htaken]
    rw [hsub] at hb
    by_cases hn : n < (submitted ms).length
    · rw [List.getElem?_append_left hn] at hb
      exact h.part n b hb
    · rw [h.later n (by rw [h.number]; omega)]
      exact List.nil_prefix
  · intro n o ho
    rw [htaken]
    obtain ⟨hn, b, hb, hh⟩ := h.results n o ((resolves_snoc ho).resolve_right fun h => by
      obtain ⟨⟨r, hr⟩, -⟩ := h
      cases hr)
    refine ⟨?_, b, hold hb, hh⟩
    rw [WriteQueue.enqueue_ids, List.mem_append, List.mem_singleton, not_or]
    refine ⟨hn, ?_⟩
    obtain ⟨hlt, -⟩ := List.getElem?_eq_some_iff.mp hb
    rw [h.number]
    omega

theorem Accounts.other (h : Accounts ms l.queue) (hs : l.Spares l') :
    Accounts (ms ++ [⟨l, .other, l', none⟩]) l'.queue := by
  have htaken : ∀ n, taken (ms ++ [⟨l, .other, l', none⟩]) n = taken ms n :=
    fun n => taken_of_none rfl n
  have hsub : submitted (ms ++ [⟨l, .other, l', none⟩]) = submitted ms := by simp [submitted]
  have hp : portions (ms ++ [⟨l, .other, l', none⟩]) = portions ms := by
    simp [portions_snoc, portion?]
  rw [hs.queue]
  refine ⟨?_, ?_, ?_, ?_, ?_, ?_, ?_⟩
  · rw [hsub]
    exact h.number
  · intro n b hb
    rw [hsub, htaken]
    exact h.waits n b hb
  · intro n st hst
    rw [hsub, htaken]
    exact h.serves n st hst
  · intro n hn
    rw [htaken]
    exact h.later n hn
  · rw [hsub, hp, h.order]
    exact List.flatMap_congr fun n _ => (htaken n).symm
  · intro n b hb
    rw [htaken]
    exact h.part n b (hsub ▸ hb)
  · intro n o ho
    rw [hsub, htaken]
    exact h.results n o ((resolves_snoc ho).resolve_right fun h => by
      obtain ⟨⟨r, hr⟩, -⟩ := h
      cases hr)

theorem honest_of_tells {b : Bytes} {result : Except WriteError Nat} {k : Nat}
    (h : Send.Tells b.length k result) (hk : k ≤ b.length) :
    Honest b (b.take k) (.ofExcept .sent (result.mapError .write)) := by
  cases result with
  | ok j =>
      obtain ⟨rfl, rfl⟩ := h
      exact ⟨rfl, by simp⟩
  | error e =>
      have h : e.written = k := h
      change (b.take k).length = e.written
      rw [List.length_take, h]
      omega

/-- What the step of a write adds to the accounts: the write that is served is the first, so what is
taken of it stands behind all that was taken before. -/
theorem Accounts.order_step {o : Option Outcome} (h : Accounts ms l.queue) (hf : l.queue.Fifo)
    (hs : l.queue.stage? n = some stage) :
    (portions (ms ++ [⟨l, .step n r, l', o⟩])).flatMap (·.bytes) =
      (List.range (submitted (ms ++ [⟨l, .step n r, l', o⟩])).length).flatMap
        (taken (ms ++ [⟨l, .step n r, l', o⟩])) := by
  let m : Moment := ⟨l, .step n r, l', o⟩
  have hsub : submitted (ms ++ [m]) = submitted ms := by simp [submitted, m]
  obtain ⟨hn, -⟩ := List.getElem?_eq_some_iff.mp (h.serves n stage hs).1
  have hrange : List.range (submitted ms).length =
      List.range n ++ n :: List.range' (n + 1) ((submitted ms).length - (n + 1)) := by
    have : List.range' 0 n ++ List.range' (0 + n) ((submitted ms).length - n) =
        List.range' 0 (n + ((submitted ms).length - n)) := List.range'_append_1
    rw [Nat.add_sub_cancel' (Nat.le_of_lt hn), Nat.zero_add] at this
    rw [List.range_eq_range', List.range_eq_range', ← this]
    congr 1
    rw [show (submitted ms).length - n = (submitted ms).length - (n + 1) + 1 by omega,
      List.range'_succ]
  change (portions (ms ++ [m])).flatMap (·.bytes) =
    (List.range (submitted (ms ++ [m])).length).flatMap (taken (ms ++ [m]))
  rw [bytes_of_step (m := m) rfl, hsub, h.order, hrange]
  have hnot : n ∉ List.range' (n + 1) ((submitted ms).length - (n + 1)) := by
    rw [List.mem_range'_1]
    omega
  refine (flatMap_grow (taken_of_step (m := m) ms rfl) (by simp) ?_ hnot).symm
  intro k hk
  have hk := (List.mem_range'_1.mp hk).1
  exact h.behind hf hs hk

/-- While a write is served, the accounts of the others stay. -/
theorem Accounts.others (h : Accounts ms m.before.queue) (hf : m.before.queue.Fifo)
    (ha : m.act = .step n r) (hs : m.before.queue.stage? n = some stage) :
    submitted (ms ++ [m]) = submitted ms ∧
    (∀ k b, ⟨k, some b⟩ ∈ m.before.queue.nodes →
      (submitted ms)[k]? = some b ∧ taken (ms ++ [m]) k = []) ∧
    (∀ k, m.before.queue.nextId ≤ k → taken (ms ++ [m]) k = []) ∧
    (taken (ms ++ [m]) n <+: stage.bytes →
      ∀ k b, (submitted ms)[k]? = some b → taken (ms ++ [m]) k <+: b) ∧
    ∀ k o, Resolves ms k o → k ∉ m.before.queue.nodes.map (·.id) ∧
      ∃ b, (submitted ms)[k]? = some b ∧ Honest b (taken (ms ++ [m]) k) o := by
  obtain ⟨rest, hn, -, hw, hi⟩ := WriteQueue.stage?_eq_some hf hs
  have ht : ∀ k, k ≠ n → taken (ms ++ [m]) k = taken ms k := fun k hk => by
    simp [taken_of_step ms ha, hk]
  refine ⟨by simp [submitted, ha], ?_, ?_, ?_, ?_⟩
  · intro k b hk
    have hmem := hk
    rw [hn, List.mem_cons] at hk
    have hlt : n + 1 ≤ k := hw.le (hk.resolve_left fun h => by cases h)
    rw [ht k (by omega)]
    exact h.waits k b hmem
  · intro k hk
    rw [ht k (by omega)]
    exact h.later k hk
  · intro hpart k b hk
    by_cases hne : k = n
    · subst hne
      obtain rfl := Option.some.inj (hk.symm.trans (h.serves _ _ hs).1)
      exact hpart
    · rw [ht k hne]
      exact h.part k b hk
  · intro k o ho
    obtain ⟨hk, b, hb, hh⟩ := h.results k o ho
    have hne : k ≠ n := by
      rintro rfl
      exact hk (by simp [hn])
    exact ⟨hk, b, hb, by rw [ht k hne]; exact hh⟩

theorem Accounts.progress (h : Accounts ms l.queue) (hf : l.queue.Fifo)
    (hs : l.queue.stage? n = some stage) (hm : WriteQueue.Move l.queue l.isOpen n r q none) :
    Accounts (ms ++ [⟨l, .step n r, { l with queue := q }, none⟩]) q := by
  let m : Moment := ⟨l, .step n r, { l with queue := q }, none⟩
  obtain ⟨hb, hw, ht⟩ := h.serves n stage hs
  obtain ⟨hsub, waits, later, part, results⟩ := h.others (m := m) hf rfl hs
  obtain ⟨stage', hq', hst, hb', hw', hgrow⟩ := hm.progress hf hs hw
  have htn : taken (ms ++ [m]) n = stage.bytes.take stage'.written := by
    rw [taken_of_step (m := m) ms rfl, if_pos rfl, ht, hgrow]
    rfl
  have hnodes : q.nodes = l.queue.nodes := by rw [hq']
  have hnext : q.nextId = l.queue.nextId := by rw [hq']
  change Accounts (ms ++ [m]) q
  refine ⟨?_, ?_, ?_, ?_, h.order_step hf hs, ?_, ?_⟩
  · rw [hsub, hnext, h.number]
  · rw [hsub, hnodes]
    exact waits
  · intro k st hk
    rw [hst] at hk
    obtain ⟨rfl, he⟩ := Option.ite_none_right_eq_some.mp hk
    cases he
    rw [hsub, hb', htn]
    exact ⟨hb, hw', rfl⟩
  · rw [hnext]
    exact later
  · rw [hsub]
    exact part (htn ▸ List.take_prefix _ _)
  · intro k o ho
    rw [hsub, hnodes]
    exact results k o ((resolves_snoc ho).resolve_right fun h => by cases h.2)

theorem Accounts.complete {result : Except WriteError Nat}
    (h : Accounts ms l.queue) (hf : l.queue.Fifo) (hs : l.queue.stage? n = some stage)
    (hm : WriteQueue.Move l.queue l.isOpen n r q (some result)) :
    Accounts (ms ++ [⟨l, .step n r, { l with queue := q },
      some (.ofExcept .sent (result.mapError .write))⟩]) q := by
  let m : Moment := ⟨l, .step n r, { l with queue := q },
    some (.ofExcept .sent (result.mapError .write))⟩
  obtain ⟨hb, hw, ht⟩ := h.serves n stage hs
  obtain ⟨hsub, waits, later, part, results⟩ := h.others (m := m) hf rfl hs
  obtain ⟨⟨lock, hq'⟩, hnil, htells⟩ := hm.ends hs hw
  have hf' : WriteQueue.Fifo { l.queue with lock } := hf.congr rfl rfl rfl
  obtain ⟨hnodes, hstages, hids⟩ := WriteQueue.of_complete hf' hs
  rw [← hq'] at hnodes hstages hids
  have htn : taken (ms ++ [m]) n = stage.bytes.take stage.written := by
    rw [taken_of_step (m := m) ms rfl, if_pos rfl, ht]
    exact (congrArg _ hnil).trans (List.append_nil _)
  have hnext : q.nextId = l.queue.nextId := by rw [hq']; simp
  change Accounts (ms ++ [m]) q
  refine ⟨?_, ?_, ?_, ?_, h.order_step hf hs, ?_, ?_⟩
  · rw [hsub, hnext, h.number]
  · rw [hsub]
    exact fun k b hk => waits k b (hnodes k b hk)
  · intro k st hk
    obtain ⟨b, rfl, hkb⟩ := hstages k st hk
    obtain ⟨h₁, h₂⟩ := waits k b hkb
    rw [hsub]
    exact ⟨h₁, Nat.zero_le _, by simpa [WriteQueue.Stage.written] using h₂⟩
  · rw [hnext]
    exact later
  · rw [hsub]
    exact part (htn ▸ List.take_prefix _ _)
  · intro k o ho
    rw [hsub, hids]
    rcases resolves_snoc ho with ho | ⟨⟨r', hr'⟩, he⟩
    · obtain ⟨hk, hb⟩ := results k o ho
      exact ⟨fun hk' => hk (List.mem_of_mem_tail hk'), hb⟩
    · -- The write that ended was the first, and the others have higher numbers.
      cases hr'
      obtain rfl := Option.some.inj he
      refine ⟨?_, stage.bytes, hb, htn ▸ honest_of_tells htells hw⟩
      obtain ⟨rest, hn, -, hw, -⟩ := WriteQueue.stage?_eq_some hf hs
      simp only [hn, List.map_cons, List.tail_cons, List.mem_map, not_exists, not_and]
      intro a ha hid
      have := hw.le ha
      omega

theorem Accounts.step (h : Accounts ms l.queue) (hf : l.queue.Fifo)
    (hr : l.resumeWrite n r = some (l', result)) :
    Accounts (ms ++ [⟨l, .step n r, l',
      result.map fun x => .ofExcept .sent (x.mapError .write)⟩]) l'.queue := by
  obtain ⟨stage, hs⟩ := stage_of_resumeWrite hr
  obtain ⟨⟨q, result₁⟩, hq, he⟩ := Option.map_eq_some_iff.mp hr
  obtain ⟨rfl, rfl⟩ : { l with queue := q } = l' ∧ result₁ = result := Prod.mk.inj he
  have hm := WriteQueue.move_of_resume hq
  cases result₁ with
  | none => exact h.progress hf hs hm
  | some result => exact h.complete hf hs hm

theorem Trace.accounts (h : Trace ms l) : Accounts ms l.queue := by
  induction h with
  | start hq =>
      rw [hq]
      refine ⟨rfl, ?_, ?_, fun _ _ => rfl, rfl, ?_, ?_⟩
      · intro n b hb
        cases hb
      · intro n st hs
        cases hs
      · intro n b hb
        cases hb
      · rintro n o ⟨m, hm, -⟩
        cases hm
  | write _ hS ih => exact ih.write hS.fifo
  | step _ hS hr ih => exact ih.step hS.fifo hr
  | other _ hs _ ih => exact ih.other hs

/-- Whatever was done at a link, the wire is as the results of the writes tell. -/
theorem Trace.faithful (h : Trace ms l) (hS : l.Sound acts) : Faithful ms l := by
  have ha := h.accounts
  have hs := h.streams
  refine ⟨ha.number, hs.wire.trans ha.order, hs.takers, ha.part, fun n o ho => (ha.results n o ho).2,
    ?_⟩
  intro a hmem
  cases hS.fifo with
  | idle hn => simp [hn] at hmem
  | serving id stage rest hn ht hw hi =>
      rw [hn, List.tail_cons] at hmem
      have hst : l.queue.stage? id = some stage := by simp [WriteQueue.stage?, ht]
      exact ha.behind hS.fifo hst (hw.le hmem)

end Rfcomm.Link
