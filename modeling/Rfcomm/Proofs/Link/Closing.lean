import Rfcomm.Proofs.Link.Rest
/-!
How a link is closed. In the line for the reading half no read stands behind a task that closes the
link or attaches a stream, so whoever attaches one finds no read left; and a stream is held until it
is shut down, as long as somebody is there who closes.
-/
namespace Rfcomm.Link

/-- Whether a task reads, in line for the reading half or with it. -/
def Activity.reads : Option Activity → Bool
  | some (reading .waiting) | some (reading (.reading _)) => true
  | _ => false

/-- Whether no read gets in line behind a task. -/
def Activity.bars : Option Activity → Bool
  | some (attaching _) | some (closing .reader) => true
  | _ => false

/-- Whether a worker reads. -/
def readsAt (acts : Nat → Option Activity) : Worker → Bool
  | .task n => Activity.reads (acts n)
  | .write _ => false

/-- Whether no read gets in line behind a worker. -/
def barsAt (acts : Nat → Option Activity) : Worker → Bool
  | .task n => Activity.bars (acts n)
  | .write _ => false

variable {l l' : Link} {acts : Nat → Option Activity} {n m : Nat} {a a' : Option Activity}
  {x : StreamId}

@[simp] theorem readsAt_update : readsAt (Function.update acts n a) =
    Function.update (readsAt acts) (.task n) (Activity.reads a) := by
  funext w
  cases w with
  | task m => by_cases hm : m = n <;> simp [readsAt, hm]
  | write m => simp [readsAt]

@[simp] theorem barsAt_update : barsAt (Function.update acts n a) =
    Function.update (barsAt acts) (.task n) (Activity.bars a) := by
  funext w
  cases w with
  | task m => by_cases hm : m = n <;> simp [barsAt, hm]
  | write m => simp [barsAt]

/-! ## The line for the reading half -/

/-- No read stands behind a worker that bars it. -/
def Orderly (k : Lock Worker) (acts : Nat → Option Activity) : Prop :=
  k.line.Pairwise fun w w' => barsAt acts w = true → readsAt acts w' = false

variable {k : Lock Worker}

theorem Orderly.join (h : Orderly k acts) (hk : k.Keeps (readerRole acts))
    (hn : Activity.atReader (acts n) = .out)
    (ha : Activity.reads a = true → ∀ m, Activity.bars (acts m) = false) :
    Orderly (k.join (.task n)) (Function.update acts n a) := by
  have hne : ∀ w ∈ k.line, w ≠ .task n := by
    rintro w hw rfl
    exact (hk.mem_iff _).mp hw hn
  unfold Orderly
  rw [barsAt_update, readsAt_update, Lock.line_join, List.pairwise_append]
  refine ⟨?_, List.pairwise_singleton _ _, ?_⟩
  · refine List.Pairwise.imp_of_mem ?_ h
    intro w w' hw hw' hp
    rwa [Function.update_of_ne (hne w hw), Function.update_of_ne (hne w' hw')]
  · intro w hw w' hw' hb
    obtain rfl := List.mem_singleton.mp hw'
    rw [Function.update_of_ne (hne w hw)] at hb
    rw [Function.update_self]
    by_contra hr
    cases w with
    | task m => simp [barsAt, ha (by simpa using hr) m] at hb
    | write m => cases hb

theorem Orderly.leave (h : Orderly k acts) (hk : k.Keeps (readerRole acts))
    (hn : k.isHeldBy (.task n) = true) : Orderly k.leave (Function.update acts n a) := by
  obtain ⟨rest, hl⟩ := Lock.isHeldBy_iff.mp hn
  have hnodup := hk.nodup
  unfold Orderly at h ⊢
  rw [hl] at h hnodup
  have hne : ∀ w ∈ rest, w ≠ .task n := by
    rintro w hw rfl
    exact (List.nodup_cons.mp hnodup).1 hw
  rw [barsAt_update, readsAt_update, Lock.line_leave, hl, List.tail_cons]
  refine (List.pairwise_cons.mp h).2.imp_of_mem ?_
  intro w w' hw hw' hp
  rwa [Function.update_of_ne (hne w hw), Function.update_of_ne (hne w' hw')]

theorem Orderly.stay (h : Orderly k acts)
    (hb : Activity.bars a = true → Activity.bars (acts n) = true)
    (hr : Activity.reads a = true → Activity.reads (acts n) = true) :
    Orderly k (Function.update acts n a) := by
  unfold Orderly
  rw [barsAt_update, readsAt_update]
  refine List.Pairwise.imp ?_ h
  intro w w' hp hw
  have hw : barsAt acts w = true := by
    by_cases hn : w = .task n
    · subst hn
      exact hb (by simpa using hw)
    · simpa [hn] using hw
  by_cases hn : w' = .task n
  · subst hn
    have hp : Activity.reads (acts n) = false := hp hw
    rw [Function.update_self]
    by_contra hra
    rw [hr (by simpa using hra)] at hp
    cases hp
  · simpa [hn] using hp hw

/-- A link at which no read overtakes. While it is open, reads get in line. -/
structure Ordered (l : Link) (acts : Nat → Option Activity) : Prop where
  line : Orderly l.lock acts
  opened : l.isOpen = true → ∀ n, Activity.bars (acts n) = false

theorem ordered_create (t : Config.Tuning) : (create t).Ordered fun _ => none :=
  ⟨.nil, fun _ _ => rfl⟩

theorem Move.orderly (h : Ordered l acts) (hs : Sound l acts) (ha : acts n = a)
    (hm : Move l n a l' a') : Orderly l'.lock (Function.update acts n a') := by
  have holds : Activity.atReader a = .holding → l.lock.isHeldBy (.task n) = true := by
    intro hr
    exact hs.reader.first (.task n) (by rw [readerRole, ha]; exact hr)
  cases hm with
  | beginAttach | beginClosing =>
      exact h.line.join hs.reader (by rw [ha]; rfl) (by simp [Activity.reads])
  | queue ho => exact h.line.join hs.reader (by rw [ha]; rfl) fun _ => h.opened ho
  | attach | wake | answer => exact h.line.leave hs.reader (holds rfl)
  | release hl | giveUp hl => exact h.line.leave hs.reader hl
  | haveReader => exact h.line.stay (by rw [ha]; exact fun _ => rfl) (by simp [Activity.reads])
  | take => exact h.line.stay (by simp [Activity.bars]) (by rw [ha]; exact fun _ => rfl)
  | takeOut | nothingThere | shutDown | beginReading | refuse =>
      exact h.line.stay (by simp [Activity.bars]) (by simp [Activity.reads])

/-- No read overtakes, if streams are attached at closed links only, one at a time. -/
theorem Moves.ordered (h : Ordered l acts) (hs : Sound l acts) (ha : acts n = a)
    (hm : Moves l n a l' a')
    (hb : ∀ x, a = .none → a' = some (.attaching (.reader x)) → l.isOpen = false)
    (hi : ∀ x, a = some (.attaching (.writer x)) → a' = .none →
      ∀ m, m ≠ n → Activity.bars (acts m) = false) :
    Ordered l' (Function.update acts n a') := by
  have keep : ∀ b, (Activity.bars b = true → Activity.bars a = true ∨ l.isOpen = false) →
      l.isOpen = true → ∀ m, Activity.bars (Function.update acts n b m) = false := by
    intro b hb ho m
    by_cases hm : m = n
    · subst hm
      rw [Function.update_self]
      by_contra hbar
      rcases hb (by simpa using hbar) with h' | h'
      · rw [← ha, h.opened ho m] at h'
        cases h'
      · rw [ho] at h'
        cases h'
    · rw [Function.update_of_ne hm]
      exact h.opened ho m
  cases hm with
  | none => rwa [← ha, Function.update_eq_self]
  | close hm =>
      have hj := (hm.orderly h hs ha).join (n := n) (a := some (.closing .reader))
        (hm.sound hs ha).reader (by simp [Activity.atReader]) (by simp [Activity.reads])
      rw [Function.update_idem] at hj
      refine ⟨hj, ?_⟩
      intro ho
      cases ho
  | move hm =>
      refine ⟨hm.orderly h hs ha, ?_⟩
      cases hm with
      | beginAttach => exact keep _ fun _ => .inr (hb _ rfl rfl)
      | haveReader => exact keep _ fun _ => .inl rfl
      | attach =>
          intro _ m
          by_cases hm : m = n
          · subst hm
            simp [Activity.bars]
          · rw [Function.update_of_ne hm]
            exact hi _ rfl rfl m hm
      | beginClosing => intro ho; cases ho
      | release | takeOut | nothingThere | shutDown | beginReading | refuse | queue | giveUp | take
      | wake | answer => exact keep _ (by simp [Activity.bars])

/-- While the reading half is had by somebody whom no read stands behind, no read is in line. -/
theorem Ordered.barred (h : Ordered l acts) (hs : Sound l acts)
    (hn : l.lock.isHeldBy (.task n) = true) (hb : Activity.bars (acts n) = true) (m : Nat) :
    Activity.reads (acts m) = false := by
  by_contra hr
  have hr : Activity.reads (acts m) = true := by simpa using hr
  obtain ⟨rest, hl⟩ := Lock.isHeldBy_iff.mp hn
  have hm : Worker.task m ∈ l.lock.line := by
    rw [hs.reader.mem_iff]
    intro ho
    unfold Activity.reads at hr
    split at hr
    · simp_all [readerRole, Activity.atReader]
    · simp_all [readerRole, Activity.atReader]
    · cases hr
  have hline := h.line
  unfold Orderly at hline
  rw [hl, List.pairwise_cons] at hline
  rw [hl, List.mem_cons] at hm
  rcases hm with hm | hm
  · cases hm
    unfold Activity.reads at hr
    split at hr <;> simp_all [Activity.bars]
  · have := hline.1 _ hm hb
    rw [readsAt, hr] at this
    cases this

/-- Whoever has both halves to attach a stream finds no read in line. -/
theorem Ordered.alone (h : Ordered l acts) (hs : Sound l acts)
    (ha : acts n = some (.attaching (.writer x))) (m : Nat) : Activity.reads (acts m) = false :=
  h.barred hs (hs.reader.first (.task n) (by simp [readerRole, ha, Activity.atReader]))
    (by rw [ha]; rfl) m

/-- While a read is in line, the stream is neither taken away nor exchanged. -/
theorem Moves.stream_of_reads (h : Moves l n a l' a') (ho : Ordered l acts) (hs : Sound l acts)
    (ha : acts n = a) (hr : Activity.reads (acts m) = true) : l'.stream = l.stream := by
  have move : ∀ {l' a'}, Move l n a l' a' → l'.stream = l.stream := by
    intro l' a' hm
    cases hm with
    | attach => cases hr.symm.trans (ho.alone hs ha m)
    | release hl => cases hr.symm.trans (ho.barred hs hl (by rw [ha]; rfl) m)
    | _ => rfl
  cases h with
  | none => rfl
  | move hm => exact move hm
  | @close l₁ hm =>
      have hs : l₁.stream = l.stream := move hm
      exact hs

/-! ## The signal -/

/-- A closed link that no read gets data from: a signal is pending, or no read is in line. -/
def Deaf (l : Link) (acts : Nat → Option Activity) : Prop :=
  l.wake.pending.isSome = true ∨ ∀ m, Activity.reads (acts m) = false

/-- A closed link stays deaf until a read takes the signal. -/
theorem Move.deaf (h : Ordered l acts) (hs : Sound l acts) (ha : acts n = a)
    (hm : Move l n a l' a') (ho : l.isOpen = false) (hd : Deaf l acts) :
    Deaf l' (Function.update acts n a') ∨
      ∃ x, a = some (.reading (.reading x)) ∧ l.wake.pending.isSome = true := by
  have others : (∀ m, Activity.reads (acts m) = false) → Activity.reads a' = false →
      ∀ m, Activity.reads (Function.update acts n a' m) = false := by
    intro hr ha' m
    by_cases hm : m = n
    · subst hm; simpa using ha'
    · rw [Function.update_of_ne hm]
      exact hr m
  have same : l'.wake = l.wake → Activity.reads a' = false →
      Deaf l' (Function.update acts n a') ∨
        ∃ x, a = some (.reading (.reading x)) ∧ l.wake.pending.isSome = true := by
    intro hw ha'
    left
    rcases hd with hd | hd
    · exact .inl (hw ▸ hd)
    · exact .inr (others hd ha')
  cases hm with
  | attach => exact .inl (.inr (others (h.alone hs ha) rfl))
  | queue ho' => rw [ho] at ho'; cases ho'
  | take =>
      rcases hd with hd | hd
      · exact .inl (.inl hd)
      · have := hd n
        rw [ha] at this
        cases this
  | wake hp => exact .inr ⟨_, rfl, by rw [hp]; rfl⟩
  | answer hp =>
      rcases hd with hd | hd
      · rw [hp] at hd; cases hd
      · have := hd n
        rw [ha] at this
        cases this
  | _ => exact same rfl rfl

theorem Moves.deaf (h : Ordered l acts) (hs : Sound l acts) (ha : acts n = a)
    (hm : Moves l n a l' a') (ho : l.isOpen = false) (hd : Deaf l acts) :
    Deaf l' (Function.update acts n a') ∨
      ∃ x, a = some (.reading (.reading x)) ∧ l.wake.pending.isSome = true := by
  cases hm with
  | none => left; rwa [← ha, Function.update_eq_self]
  | move hm => exact hm.deaf h hs ha ho hd
  | close hm =>
      refine (hm.deaf h hs ha ho hd).imp_left fun hd => ?_
      rcases hd with hd | hd
      · exact .inl hd
      · refine .inr fun m => ?_
        by_cases hm : m = n
        · subst hm; simp [Activity.reads]
        · simpa [hm] using hd m

/-- No read gets in line at a closed link. -/
theorem Moves.not_reads (h : Moves l n a l' a') (ho : l.isOpen = false)
    (ha : Activity.reads a = false) : Activity.reads a' = false := by
  cases h with
  | none => exact ha
  | close => rfl
  | move h =>
      cases h with
      | queue ho' => rw [ho] at ho'; cases ho'
      | take => cases ha
      | _ => rfl

/-! ## Streams that are held -/

/-- A closed link without a stream. -/
structure Bare (l : Link) : Prop where
  stream : l.stream = none
  sink : l.queue.stream = none
  isOpen : l.isOpen = false

/-- What is held at a link is going to be released: by a task that closes the link, or by one that is
still to begin with that (`late`). -/
structure Guarded (l : Link) (acts : Nat → Option Activity) (late : Prop) : Prop where
  reader : ∀ x, l.stream = some x → late ∨ ∃ n, acts n = some (.closing .reader)
  writer : ∀ x, l.queue.stream = some x →
    late ∨ ∃ n, acts n = some (.closing .reader) ∨ acts n = some (.closing .writer)

theorem Guarded.of_late (l : Link) (acts : Nat → Option Activity) : Guarded l acts True :=
  ⟨fun _ _ => .inl trivial, fun _ _ => .inl trivial⟩

theorem Guarded.of_closing {late : Prop} (h : acts n = some (.closing .reader)) :
    Guarded l acts late :=
  ⟨fun _ _ => .inr ⟨n, h⟩, fun _ _ => .inr ⟨n, .inl h⟩⟩

theorem Guarded.mono {late late' : Prop} (h : Guarded l acts late) (hl : late → late') :
    Guarded l acts late' :=
  ⟨fun x hx => (h.reader x hx).imp_left hl, fun x hx => (h.writer x hx).imp_left hl⟩

/-- What is held stays guarded, unless a stream is attached. -/
theorem Move.guarded {late : Prop} (h : Guarded l acts late) (ha : acts n = a)
    (hm : Move l n a l' a') (hi : ∀ x, a ≠ some (.attaching (.writer x))) :
    Guarded l' (Function.update acts n a') late := by
  have other : ∀ {k b}, acts k = some b → some b ≠ a →
      Function.update acts n a' k = some b := by
    intro k b hk hb
    have : k ≠ n := by
      rintro rfl
      exact hb (hk.symm.trans ha)
    rw [Function.update_of_ne this, hk]
  have reader : (∃ k, acts k = some (.closing .reader)) → a ≠ some (.closing .reader) →
      ∃ k, Function.update acts n a' k = some (.closing .reader) := by
    rintro ⟨k, hk⟩ hn
    exact ⟨k, other hk (Ne.symm hn)⟩
  have same : a ≠ some (.closing .reader) → a ≠ some (.closing .writer) →
      l'.stream = l.stream → l'.queue.stream = l.queue.stream →
      Guarded l' (Function.update acts n a') late := by
    intro h₁ h₂ hr hw
    refine ⟨fun x hx => ?_, fun x hx => ?_⟩
    · exact (h.reader x (hr ▸ hx)).imp_right fun hk => reader hk h₁
    · refine (h.writer x (hw ▸ hx)).imp_right ?_
      rintro ⟨k, hk | hk⟩
      · exact ⟨k, .inl (other hk (Ne.symm h₁))⟩
      · exact ⟨k, .inr (other hk (Ne.symm h₂))⟩
  cases hm with
  | attach => exact absurd rfl (hi _)
  | beginClosing => exact .of_closing (Function.update_self ..)
  | release =>
      exact ⟨fun x hx => (by cases hx), fun x _ => .inr ⟨n, .inr (Function.update_self ..)⟩⟩
  | takeOut =>
      refine ⟨fun x hx => ?_, fun x hx => (by cases hx)⟩
      exact (h.reader x hx).imp_right fun hk => reader hk (by simp)
  | nothingThere _ hn =>
      refine ⟨fun x hx => ?_, fun x hx => ?_⟩
      · exact (h.reader x hx).imp_right fun hk => reader hk (by simp)
      · cases hn.symm.trans hx
  | _ => exact same (by simp) (by simp) rfl rfl

/-- What is held stays guarded; a stream that is attached is closed at once. -/
theorem Moves.guarded {late : Prop} (h : Guarded l acts late) (ha : acts n = a)
    (hm : Moves l n a l' a')
    (hi : ∀ x, a = some (.attaching (.writer x)) → a' = some (.closing .reader)) :
    Guarded l' (Function.update acts n a') late := by
  cases hm with
  | none => rwa [← ha, Function.update_eq_self]
  | close => exact .of_closing (Function.update_self ..)
  | move hm =>
      refine hm.guarded h ha ?_
      rintro x rfl
      have ha' := hi x rfl
      cases hm with
      | attach => cases ha'

/-- The stream that an activity holds. -/
def held : Option Activity → Option StreamId
  | some (.attaching k) => some k.stream
  | some (.closing k) => k.stream?
  | _ => none

theorem Moves.attached (h : Moves l n a l' a') :
    (l'.stream = some x → l.stream = some x ∨ a = some (.attaching (.writer x))) ∧
      (l'.queue.stream = some x → l.queue.stream = some x ∨ a = some (.attaching (.writer x))) := by
  have move : ∀ {l' a'}, Move l n a l' a' →
      (l'.stream = some x → l.stream = some x ∨ a = some (.attaching (.writer x))) ∧
        (l'.queue.stream = some x →
          l.queue.stream = some x ∨ a = some (.attaching (.writer x))) := by
    intro l' a' hm
    cases hm with
    | attach =>
        constructor <;>
          · intro hx
            cases hx
            exact .inr rfl
    | release => exact ⟨fun hx => (by cases hx), fun hx => .inl hx⟩
    | takeOut => exact ⟨fun hx => .inl hx, fun hx => (by cases hx)⟩
    | _ => exact ⟨fun hx => .inl hx, fun hx => .inl hx⟩
  cases h with
  | none => exact ⟨fun hx => .inl hx, fun hx => .inl hx⟩
  | move hm => exact move hm
  | close hm => exact ⟨fun hx => (move hm).1 hx, fun hx => (move hm).2 hx⟩

theorem Moves.bare (h : Moves l n a l' a') (hb : Bare l)
    (ha : ∀ x, a ≠ some (.attaching (.writer x))) : Bare l' := by
  have hstream : l'.stream = .none := by
    by_contra hx
    obtain ⟨x, hx⟩ := Option.ne_none_iff_exists'.mp hx
    rcases h.attached.1 hx with hx | hx
    · cases hb.stream.symm.trans hx
    · exact ha x hx
  have hsink : l'.queue.stream = .none := by
    by_contra hx
    obtain ⟨x, hx⟩ := Option.ne_none_iff_exists'.mp hx
    rcases h.attached.2 hx with hx | hx
    · cases hb.sink.symm.trans hx
    · exact ha x hx
  refine ⟨hstream, hsink, ?_⟩
  rcases h.isOpen hb.isOpen with ho | ⟨⟨k, rfl⟩, rfl⟩
  · exact ho
  · cases h with
    | move hm =>
        cases hm with
        | attach => exact absurd rfl (ha _)

/-- What a task can do at a link brings no stream but the one that it attaches. -/
theorem Moves.holds (h : Moves l n a l' a')
    (hx : l'.stream = some x ∨ l'.queue.stream = some x ∨ held a' = some x) :
    (l.stream = some x ∨ l.queue.stream = some x ∨ held a = some x) ∨
      a = .none ∧ a' = some (.attaching (.reader x)) := by
  have move : ∀ {l' a'}, Move l n a l' a' →
      l'.stream = some x ∨ l'.queue.stream = some x ∨ held a' = some x →
      (l.stream = some x ∨ l.queue.stream = some x ∨ held a = some x) ∨
        a = .none ∧ a' = some (.attaching (.reader x)) := by
    intro l' a' hm hx
    cases hm with
    | beginAttach =>
        rcases hx with hx | hx | hx
        · exact .inl (.inl hx)
        · exact .inl (.inr (.inl hx))
        · cases hx; exact .inr ⟨rfl, rfl⟩
    | attach =>
        rcases hx with hx | hx | hx <;> cases hx
        all_goals exact .inl (.inr (.inr rfl))
    | release =>
        rcases hx with hx | hx | hx
        · cases hx
        · exact .inl (.inr (.inl hx))
        · cases hx
    | takeOut _ hy =>
        rcases hx with hx | hx | hx
        · exact .inl (.inl hx)
        · cases hx
        · exact .inl (.inr (.inl (hy.trans hx)))
    | shutDown =>
        rcases hx with hx | hx | hx
        · exact .inl (.inl hx)
        · exact .inl (.inr (.inl hx))
        · cases hx
    | _ => exact .inl hx
  cases h with
  | none => exact .inl hx
  | move hm => exact move hm hx
  | @close l₁ hm =>
      rcases move hm (hx.imp id (Or.imp id fun h => (by cases h))) with h | ⟨-, h⟩
      · exact .inl h
      · cases h

/-- Whoever holds the writing half goes on to hold it until it is shut down. -/
theorem Moves.keeps (hm : Moves l n a l' a')
    (hi : ∀ y, a = some (.attaching (.writer y)) → l.queue.stream = .none)
    (hx : l.queue.stream = some x ∨ held a = some x) :
    (l'.queue.stream = some x ∨ held a' = some x) ∨ a = some (.closing (.stream x)) := by
  have move : ∀ {l' a'}, Move l n a l' a' →
      (l'.queue.stream = some x ∨ held a' = some x) ∨ a = some (.closing (.stream x)) := by
    intro l' a' hm
    cases hm with
    | attach =>
        rcases hx with hx | hx
        · rw [hi _ rfl] at hx; cases hx
        · exact .inl (.inl hx)
    | takeOut _ hy =>
        rcases hx with hx | hx
        · exact .inl (.inr (hy.symm.trans hx))
        · cases hx
    | shutDown =>
        rcases hx with hx | hx
        · exact .inl (.inl hx)
        · cases hx; exact .inr rfl
    | beginAttach =>
        rcases hx with hx | hx
        · exact .inl (.inl hx)
        · cases hx
    | _ => exact .inl (hx.imp id id)
  cases hm with
  | none => exact .inl hx
  | move hm => exact move hm
  | close hm =>
      rcases move hm with (h | h) | h
      · exact .inl (.inl h)
      · cases h
      · exact .inr h

/-! ## Between the steps of tasks -/

/-- No task goes on: the link may be closed, signals and writes may come, and a read may begin. -/
structure Aside (l : Link) (acts : Nat → Option Activity) (l' : Link)
    (acts' : Nat → Option Activity) : Prop where
  lock : l'.lock = l.lock
  stream : l'.stream = l.stream
  sink : l'.queue.stream = l.queue.stream
  isOpen : l'.isOpen = true → l.isOpen = true
  pending : l.wake.pending.isSome = true → l'.wake.pending.isSome = true
  acts : acts' = acts ∨ ∃ n, acts n = none ∧ acts' = Function.update acts n (some (.reading .start))

variable {acts' : Nat → Option Activity}

theorem Aside.keep {b : Activity} (h : Aside l acts l' acts') (hb : acts n = some b) :
    acts' n = some b := by
  rcases h.acts with he | ⟨m, hm, he⟩ <;> rw [he]
  · exact hb
  · have : n ≠ m := by
      rintro rfl
      cases hm.symm.trans hb
    rwa [Function.update_of_ne this]

theorem Aside.bare (h : Aside l acts l' acts') (hb : Bare l) : Bare l' := by
  refine ⟨h.stream.trans hb.stream, h.sink.trans hb.sink, ?_⟩
  by_contra ho
  have := h.isOpen (by simpa using ho)
  rw [hb.isOpen] at this
  cases this

theorem Aside.ordered (h : Aside l acts l' acts') (ho : Ordered l acts) (hs : Sound l acts) :
    Ordered l' acts' := by
  rcases h.acts with he | ⟨n, hn, he⟩ <;> rw [he]
  · exact ⟨h.lock ▸ ho.line, fun hopen => ho.opened (h.isOpen hopen)⟩
  · have hb := (Moves.move Move.beginReading).ordered (n := n) ho hs hn (by simp) (by simp)
    refine ⟨?_, fun hopen => hb.opened (h.isOpen hopen)⟩
    rw [h.lock]
    exact hb.line

theorem Aside.deaf (h : Aside l acts l' acts') (hd : Deaf l acts) : Deaf l' acts' := by
  rcases hd with hd | hd
  · exact .inl (h.pending hd)
  · right
    intro m
    rcases h.acts with he | ⟨n, -, he⟩ <;> rw [he]
    · exact hd m
    · by_cases hm : m = n
      · subst hm; simp [Activity.reads]
      · rw [Function.update_of_ne hm]
        exact hd m

theorem Aside.guarded {late late' : Prop} (h : Aside l acts l' acts') (hg : Guarded l acts late)
    (hl : late → late') : Guarded l' acts' late' := by
  refine ⟨fun x hx => ?_, fun x hx => ?_⟩
  · refine (hg.reader x (h.stream ▸ hx)).imp hl ?_
    rintro ⟨n, hn⟩
    exact ⟨n, h.keep hn⟩
  · refine (hg.writer x (h.sink ▸ hx)).imp hl ?_
    rintro ⟨n, hn | hn⟩
    · exact ⟨n, .inl (h.keep hn)⟩
    · exact ⟨n, .inr (h.keep hn)⟩

/-- What a worker of a write does is no matter to the tasks. -/
theorem aside_of_resumeWrite {i : Nat} {r : Reply} {result : Option (Except WriteError Nat)}
    (h : l.resumeWrite i r = some (l', result)) : Aside l acts l' acts := by
  obtain ⟨⟨q, result⟩, hq, he⟩ := Option.map_eq_some_iff.mp h
  cases he
  refine ⟨rfl, rfl, ?_, id, id, .inl rfl⟩
  cases WriteQueue.move_of_resume hq <;> simp

/-! ## Replies -/

section Replies

variable {w : Worker} {r : Reply}

theorem reply_of_resumeAttach {k : Attach} {p : Link × Progress Attach Unit}
    (h : l.resumeAttach w k r = some p) : r = .go := by
  unfold resumeAttach at h
  split at h
  · rfl
  · rfl
  · cases h

theorem reply_of_resumeClosing {k : Closing} {p : Link × Progress Closing Unit}
    (h : l.resumeClosing w k r = some p) : r = .go ∨ r = .shutDown := by
  unfold resumeClosing at h
  split at h
  · exact .inl rfl
  · exact .inl rfl
  · exact .inr rfl
  · cases h

theorem reply_of_resumeReading {g : Reading} {p : Link × Progress Reading Seen}
    (h : l.resumeReading w g r = some p) : r = .go ∨ ∃ result, r = .read result := by
  unfold resumeReading at h
  split at h
  · exact .inl rfl
  · exact .inl rfl
  · split at h
    · exact .inl rfl
    · exact .inr ⟨_, rfl⟩
    · cases h
  · cases h

theorem reply_of_send {send : Send} {o : Bool} {p : Progress Send (Except WriteError Nat)}
    (h : send.resume o r = some p) :
    r = .go ∨ (∃ result, r = .wrote result) ∨ ∃ result, r = .flushed result := by
  cases r with
  | go => exact .inl rfl
  | wrote result => exact .inr (.inl ⟨_, rfl⟩)
  | flushed result => exact .inr (.inr ⟨_, rfl⟩)
  | _ => cases o <;> simp [Send.resume] at h

theorem reply_of_resumeWrite {i : Nat} {p : Link × Option (Except WriteError Nat)}
    (h : l.resumeWrite i r = some p) :
    r = .go ∨ (∃ result, r = .wrote result) ∨ ∃ result, r = .flushed result := by
  obtain ⟨⟨q, result⟩, hq, -⟩ := Option.map_eq_some_iff.mp h
  cases WriteQueue.move_of_resume hq with
  | line | refuse | take | miss => exact .inl rfl
  | send _ h | finish _ h => exact reply_of_send h

/-- While a signal is pending, a read takes it, and nothing else. -/
theorem go_of_resumeReading {p : Link × Progress Reading Seen}
    (h : l.resumeReading w (.reading x) r = some p) (hp : l.wake.pending.isSome = true) :
    r = .go := by
  obtain ⟨s, hp⟩ := Option.isSome_iff_exists.mp hp
  simp only [resumeReading, hp] at h
  split at h
  · rfl
  · cases ‹some s = none›
  · cases h

end Replies

/-! ## What a read hears -/

/-- Waits for bytes of the peer, or for some time. -/
def Passive : Call → Prop
  | .read _ _ | .pause _ => True
  | _ => False

/-- A read waits for bytes, and no signal is there to end it. -/
def Listens (l : Link) (acts : Nat → Option Activity) : Prop :=
  l.wake.pending = none ∧ ∃ n x, acts n = some (.reading (.reading x))

theorem Deaf.not_listens (h : Deaf l acts) : ¬ Listens l acts := by
  rintro ⟨hp, n, x, hn⟩
  rcases h with h | h
  · rw [hp] at h; cases h
  · have := h n
    rw [hn] at this
    cases this

/-- A closed link at rest at which no read listens and no stream is shut down does nothing. -/
theorem Resting.idle (hr : Resting l acts) (h : Sound l acts) (ho : l.isOpen = false)
    (hs : ∀ m x, acts m ≠ some (.closing (.stream x))) (hl : ¬ Listens l acts) (n : Nat) :
    acts n = none := by
  by_contra ha
  obtain ⟨act, ha⟩ := Option.ne_none_iff_exists'.mp ha
  obtain ⟨m, y, hm⟩ := hr.exists_reading_of_closed h ho hs ha
  exact hl ⟨hr.no_signal hm, m, y, hm⟩

/-- What a read sees that is over: that there is nothing to read from, the signal, or what came. -/
theorem seen_of_resumeReading {w : Worker} {g : Reading} {r : Reply} {e : Seen}
    (h : l.resumeReading w g r = some (l', .done e)) :
    (e = .refused ∨ e = .died) ∨ ∃ x, g = .reading x ∧
      ((∃ s, l.wake.pending = some s ∧ r = .go ∧ e = .woken s) ∨
        ∃ result, l.wake.pending = none ∧ r = .read result ∧ e = .ofRead result ∧
          ∀ bytes, result = .ok bytes → bytes.length ≤ l.readSize) := by
  unfold resumeReading at h
  split at h
  · split at h <;> cases h
    exact .inl (.inl rfl)
  · split at h
    · split at h
      · cases h; exact .inl (.inl rfl)
      · split at h <;> cases h
        exact .inl (.inr rfl)
    · cases h
  · rename_i x
    split at h
    · cases h
      exact .inr ⟨x, rfl, .inl ⟨_, ‹_›, rfl, rfl⟩⟩
    · obtain ⟨hlen, h⟩ := Option.ite_none_right_eq_some.mp h
      cases h
      refine .inr ⟨x, rfl, .inr ⟨_, ‹_›, rfl, rfl, ?_⟩⟩
      rintro bytes rfl
      exact hlen
    · cases h
  · cases h

/-- What is reported as data came as the answer. -/
theorem data_of_resumeReading {w : Worker} {g : Reading} {r : Reply} {bytes : Bytes}
    (h : l.resumeReading w g r = some (l', .done (.data bytes))) :
    (∃ x, g = .reading x) ∧ r = .read (.ok bytes) ∧ bytes ≠ [] ∧ l.wake.pending = none ∧
      bytes.length ≤ l.readSize := by
  rcases seen_of_resumeReading h with
    (he | he) | ⟨x, rfl, ⟨s, -, -, he⟩ | ⟨result, hp, rfl, he, hlen⟩⟩
  · cases he
  · cases he
  · cases he
  · cases result with
    | error f => cases he
    | ok got =>
        cases got with
        | nil => cases he
        | cons b got =>
            cases he
            exact ⟨⟨x, rfl⟩, rfl, List.cons_ne_nil _ _, hp, hlen _ rfl⟩

/-- What fits into the buffer is taken as the answer. -/
theorem resumeReading_answer {w : Worker} {bytes : Bytes} (hp : l.wake.pending = none)
    (hlen : bytes.length ≤ l.readSize) : l.resumeReading w (.reading x) (.read (.ok bytes)) =
      some (l.leaveReader, .done (.ofRead (.ok bytes))) := by
  simp only [resumeReading, hp, if_pos hlen]

end Rfcomm.Link
