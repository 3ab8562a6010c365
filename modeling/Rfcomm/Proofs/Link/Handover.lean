import Rfcomm.Proofs.Link.Calls
import Rfcomm.Proofs.Link.Wire
/-!
How a link passes from one stream to the next. Whoever attaches a stream finds no other one, nobody who
reads and nobody who writes; the reading half of a stream is let go before the writing half is taken out
to be shut down, and that happens once.
-/
namespace Rfcomm.Link

/-- Whether a task has let the reading half go and is on its way to shut the stream down. -/
def Activity.leaves : Option Activity → Bool
  | some (closing .writer) | some (closing (.stream _)) => true
  | _ => false

/-- Whether a task waits for the writing half to attach a stream. -/
def Activity.enters : Option Activity → Bool
  | some (attaching (.writer _)) => true
  | _ => false

/-- Who may stand behind whom in the line for the writing half: no write behind a task that leaves, and no
task that leaves behind one that enters. -/
def Follows (acts : Nat → Option Activity) : Worker → Worker → Prop
  | .task n, .write _ => Activity.leaves (acts n) = false
  | .task n, .task m => Activity.enters (acts n) = true → Activity.leaves (acts m) = false
  | .write _, _ => True

/-- Reads and writes are about a stream that is held. -/
structure Turnover (l : Link) (acts : Nat → Option Activity) : Prop where
  opened : l.isOpen = true → l.stream.isSome = true ∧ l.queue.stream.isSome = true
  reads : ∀ n, Activity.reads (acts n) = true → l.stream.isSome = true
  writes : ∀ id, stageAtWriter (l.queue.stage? id) ≠ .out → l.queue.stream.isSome = true
  released : ∀ n, Activity.leaves (acts n) = true → l.stream = none
  line : l.queue.lock.line.Pairwise (Follows acts)

/-- A step of a task at a link: what the task was at, and what it waits for then. -/
structure Deed where
  before : Option Activity
  waits : Ask

/-- The stream that a step attaches. -/
def Deed.installs (d : Deed) : Option StreamId :=
  match d.before with
  | some (.attaching (.writer x)) => some x
  | _ => none

/-- The stream whose shutdown begins with a step. -/
def Deed.ends (d : Deed) : Option StreamId :=
  match d.waits with
  | .call (.shutdown x) => some x
  | _ => none

/-- The streams that were attached. -/
def installed (ds : List Deed) : List StreamId := ds.filterMap Deed.installs

/-- The streams whose shutdown began. -/
def ended (ds : List Deed) : List StreamId := ds.filterMap Deed.ends

/-- Neither half of a stream is held, and nobody reads or writes or waits to. -/
structure Vacant (l : Link) (acts : Nat → Option Activity) : Prop where
  stream : l.stream = none
  sink : l.queue.stream = none
  unread : ∀ n, Activity.reads (acts n) = false
  unwritten : ∀ id, stageAtWriter (l.queue.stage? id) = .out

/-- How the streams that an endpoint was handed come and go at its link. -/
structure Custody (handed : List StreamId) (ds : List Deed) (l : Link)
    (acts : Nat → Option Activity) (ask : Worker → Ask) : Prop where
  /-- Whoever attaches a stream finds no other one, and waits for nobody who reads or writes. -/
  vacant : ∀ n k, acts n = some (.attaching k) → Vacant l acts
  once : (installed ds).Nodup
  handed : ∀ x ∈ installed ds, x ∈ handed
  /-- The writing half is held until the shutdown begins. -/
  kept : ∀ x ∈ installed ds, l.queue.stream = some x ∨ x ∈ ended ds
  shut : (ended ds).Nodup
  attached : ∀ x ∈ ended ds, x ∈ installed ds
  /-- While a stream is shut down, its reading half is let go, and nobody reads. -/
  released : ∀ w x, ask w = .call (.shutdown x) →
    l.stream = none ∧ ∀ n y, acts n ≠ some (.reading (.reading y))

variable {l l' : Link} {acts acts' : Nat → Option Activity} {n m : Nat} {a a' : Option Activity}
  {x y : StreamId} {line : List Worker} {w : Worker} {ds : List Deed} {d : Deed}

theorem Turnover.vacant (h : Turnover l acts) (hb : Bare l) : Vacant l acts := by
  refine ⟨hb.stream, hb.sink, fun n => ?_, fun id => ?_⟩
  · by_contra hn
    have := h.reads n (by simpa using hn)
    simp [hb.stream] at this
  · by_contra hid
    have := h.writes id hid
    simp [hb.sink] at this

theorem turnover_create (t : Config.Tuning) : (create t).Turnover fun _ => none where
  opened ho := by cases ho
  reads _ hn := by cases hn
  writes _ hid := absurd rfl hid
  released _ hn := by cases hn
  line := .nil

/-- A link that is left by somebody is closed. -/
theorem Turnover.not_leaves (h : Turnover l acts) (ho : l.isOpen = true) (n : Nat) :
    Activity.leaves (acts n) = false := by
  by_contra hn
  have hs := (h.opened ho).1
  rw [h.released n (by simpa using hn)] at hs
  cases hs

/-! ## The line for the writing half -/

/-- Whatever a task is at, it stays in its place if that is the same to the others in line. -/
theorem follows_update (h : line.Pairwise (Follows acts))
    (hn : .task n ∈ line → Activity.leaves a = Activity.leaves (acts n) ∧
      Activity.enters a = Activity.enters (acts n)) :
    line.Pairwise (Follows (Function.update acts n a)) := by
  have same : ∀ m, .task m ∈ line →
      Activity.leaves (Function.update acts n a m) = Activity.leaves (acts m) ∧
        Activity.enters (Function.update acts n a m) = Activity.enters (acts m) := by
    intro m hm
    by_cases he : m = n
    · subst he
      rw [Function.update_self]
      exact hn hm
    · rw [Function.update_of_ne he]
      exact ⟨rfl, rfl⟩
  refine h.imp_of_mem ?_
  intro w w' hw hw' hf
  cases w with
  | write id => trivial
  | task i =>
      cases w' with
      | write id => exact (same i hw).1.trans hf
      | task j =>
          intro hi
          rw [(same j hw').1]
          exact hf ((same i hw).2 ▸ hi)

theorem follows_join {k : Lock Worker} (h : k.line.Pairwise (Follows acts))
    (hw : ∀ w' ∈ k.line, Follows acts w' w) : (k.join w).line.Pairwise (Follows acts) := by
  rw [Lock.line_join, List.pairwise_append]
  refine ⟨h, List.pairwise_singleton _ _, fun w' hw' w'' hw'' => ?_⟩
  obtain rfl := List.mem_singleton.mp hw''
  exact hw w' hw'

theorem follows_leave {k : Lock Worker} (h : k.line.Pairwise (Follows acts)) :
    k.leave.line.Pairwise (Follows acts) :=
  h.sublist (List.tail_sublist _)

theorem not_mem_leave {k : Lock Worker} (hk : k.line.Nodup) (hw : k.isHeldBy w = true) :
    w ∉ k.leave.line := by
  obtain ⟨rest, hl⟩ := Lock.isHeldBy_iff.mp hw
  rw [hl] at hk
  rw [Lock.line_leave, hl]
  exact (List.nodup_cons.mp hk).1

/-- Whoever is not the first in line stands behind the first. -/
theorem Turnover.behind (h : Turnover l acts) (hw : l.queue.lock.isHeldBy w = true) {w' : Worker}
    (hw' : w' ∈ l.queue.lock.line) (hne : w' ≠ w) : Follows acts w w' := by
  obtain ⟨rest, hl⟩ := Lock.isHeldBy_iff.mp hw
  have hline := h.line
  rw [hl] at hline hw'
  exact (List.pairwise_cons.mp hline).1 w' ((List.mem_cons.mp hw').resolve_left hne)

/-- A task that does not get in line for the writing half has no place in it. -/
theorem Sound.not_in_line (h : Sound l acts) (hn : Activity.atWriter (acts n) = .out) :
    .task n ∉ l.queue.lock.line := fun hm => (h.writer.mem_iff _).mp hm hn

/-! ## Every move keeps the turnover -/

theorem of_update {P : Option Activity → Prop} (hm : P (Function.update acts n a m)) :
    m = n ∧ P a ∨ m ≠ n ∧ P (acts m) := by
  by_cases he : m = n
  · subst he
    exact .inl ⟨rfl, by simpa using hm⟩
  · exact .inr ⟨he, by simpa [he] using hm⟩

/-- The turnover is kept where no half of a stream comes or goes. -/
theorem Turnover.same (h : Turnover l acts) (stream : l'.stream = l.stream)
    (sink : l'.queue.stream = l.queue.stream) (tasks : l'.queue.tasks = l.queue.tasks)
    (isOpen : l'.isOpen = true → l.isOpen = true)
    (reads : Activity.reads a = true → l.stream.isSome = true)
    (leaves : Activity.leaves a = true → l.stream = none)
    (line : l'.queue.lock.line.Pairwise (Follows (Function.update acts n a))) :
    Turnover l' (Function.update acts n a) where
  opened ho := by
    rw [stream, sink]
    exact h.opened (isOpen ho)
  reads m hm := by
    rw [stream]
    rcases of_update (P := fun b => Activity.reads b = true) hm with ⟨-, hm⟩ | ⟨-, hm⟩
    · exact reads hm
    · exact h.reads m hm
  writes id hid := by
    rw [sink]
    refine h.writes id ?_
    rwa [WriteQueue.stage?, tasks] at hid
  released m hm := by
    rw [stream]
    rcases of_update (P := fun b => Activity.leaves b = true) hm with ⟨-, hm⟩ | ⟨-, hm⟩
    · exact leaves hm
    · exact h.released m hm
  line := line

/-- Whoever attaches a stream finds nobody left who leaves. -/
theorem Turnover.none_leaves (h : Turnover l acts) (hS : Sound l acts)
    (ha : acts n = some (.attaching (.writer x))) (hl : l.queue.lock.isHeldBy (.task n) = true)
    (m : Nat) : Activity.leaves (acts m) = false := by
  by_contra hm
  have hm : Activity.leaves (acts m) = true := by simpa using hm
  have hne : m ≠ n := by
    rintro rfl
    rw [ha] at hm
    cases hm
  have hline : .task m ∈ l.queue.lock.line := by
    rw [hS.writer.mem_iff]
    intro hout
    unfold Activity.leaves at hm
    split at hm
    · simp_all [writerRole, Activity.atWriter]
    · simp_all [writerRole, Activity.atWriter]
    · cases hm
  have hf : Follows acts (.task n) (.task m) := h.behind hl hline (by simpa using hne)
  have := hf (by rw [ha]; rfl)
  rw [this] at hm
  cases hm

/-- Whoever leaves and has the writing half finds nobody who writes. -/
theorem Turnover.none_writes (h : Turnover l acts) (hS : Sound l acts)
    (ha : Activity.leaves (acts n) = true) (hl : l.queue.lock.isHeldBy (.task n) = true) (id : Nat) :
    stageAtWriter (l.queue.stage? id) = .out := by
  by_contra hid
  have hline : .write id ∈ l.queue.lock.line := (hS.writer.mem_iff _).mpr hid
  have hf : Follows acts (.task n) (.write id) := h.behind hl hline nofun
  rw [show Activity.leaves (acts n) = false from hf] at ha
  cases ha

theorem Turnover.beginClosing (h : Turnover l acts) (hS : Sound l acts)
    (hn : Activity.atWriter (acts n) = .out) :
    Turnover (l.markClosed.joinReader (.task n))
      (Function.update acts n (some (.closing .reader))) :=
  h.same rfl rfl rfl nofun nofun nofun
    (follows_update h.line fun hm => absurd hm (hS.not_in_line hn))

theorem Move.turnover (h : Turnover l acts) (hS : Sound l acts) (hO : Ordered l acts)
    (ha : acts n = a) (hm : Move l n a l' a') : Turnover l' (Function.update acts n a') := by
  subst ha
  generalize hac : acts n = a at hm
  have out : Activity.atWriter a = .out →
      l.queue.lock.line.Pairwise (Follows (Function.update acts n a')) := fun hw =>
    follows_update h.line fun hn => absurd hn (hS.not_in_line (by rw [hac]; exact hw))
  have left : l.queue.lock.isHeldBy (.task n) = true →
      l.queue.lock.leave.line.Pairwise (Follows (Function.update acts n a')) := fun hl =>
    follows_update (follows_leave h.line) fun hn => absurd hn (not_mem_leave hS.writer.nodup hl)
  cases hm with
  | beginAttach | beginReading | refuse =>
      exact h.same rfl rfl rfl id nofun nofun (out rfl)
  | beginClosing => exact h.beginClosing hS (by rw [hac]; rfl)
  | queue ho => exact h.same rfl rfl rfl id (fun _ => (h.opened ho).1) nofun (out rfl)
  | giveUp | wake | answer => exact h.same rfl rfl rfl id nofun nofun (out rfl)
  | take _ hx => exact h.same rfl rfl rfl id (fun _ => by rw [hx]; rfl) nofun (out rfl)
  | haveReader =>
      refine h.same rfl rfl rfl id nofun nofun (follows_join (out rfl) fun w hw => ?_)
      cases w with
      | write id => trivial
      | task m => exact fun _ => by rw [Function.update_self]; rfl
  | nothingThere hl => exact h.same rfl rfl rfl id nofun nofun (left hl)
  | shutDown =>
      have hl := hS.writer.first (.task n) (by rw [writerRole, hac]; rfl)
      exact h.same rfl rfl rfl id nofun nofun (left hl)
  | @attach x hl =>
      refine ⟨fun _ => ⟨rfl, rfl⟩, fun _ _ => rfl, fun _ _ => rfl, fun m hm => ?_, left hl⟩
      rcases of_update (P := fun b => Activity.leaves b = true) hm with ⟨-, hm⟩ | ⟨-, hm⟩
      · cases hm
      · cases hm.symm.trans (h.none_leaves hS hac hl m)
  | release hl =>
      have bars : Activity.bars (acts n) = true := by rw [hac]; rfl
      refine ⟨fun ho => ?_, fun m hm => ?_, h.writes, fun _ _ => rfl,
        follows_join (out rfl) fun w hw => ?_⟩
      · cases bars.symm.trans (hO.opened ho n)
      · rcases of_update (P := fun b => Activity.reads b = true) hm with ⟨-, hm⟩ | ⟨-, hm⟩
        · cases hm
        · cases hm.symm.trans (hO.barred hS hl bars m)
      · cases w with
        | write id => trivial
        | task m =>
            -- Whoever waits to attach has the reading half.
            intro hm
            rcases of_update (P := fun b => Activity.enters b = true) hm with ⟨-, hm⟩ | ⟨hne, hm⟩
            · cases hm
            · have hr : readerRole acts (.task m) = .holding := by
                unfold Activity.enters at hm
                split at hm
                · simp_all [readerRole, Activity.atReader]
                · cases hm
              cases hS.reader.unique hr hl
              exact absurd rfl hne
  | @takeOut x hl _ =>
      have leaves : Activity.leaves (acts n) = true := by rw [hac]; rfl
      have hnone := h.released n leaves
      refine ⟨fun ho => ?_, fun m hm => ?_, fun id hid => ?_, fun _ _ => hnone,
        follows_update h.line fun _ => by rw [hac]; exact ⟨rfl, rfl⟩⟩
      · cases leaves.symm.trans (h.not_leaves ho n)
      · rcases of_update (P := fun b => Activity.reads b = true) hm with ⟨-, hm⟩ | ⟨-, hm⟩
        · cases hm
        · exact h.reads m hm
      · exact absurd (h.none_writes hS leaves hl id) hid

theorem Moves.turnover (h : Turnover l acts) (hS : Sound l acts) (hO : Ordered l acts)
    (ha : acts n = a) (hm : Moves l n a l' a') : Turnover l' (Function.update acts n a') := by
  cases hm with
  | none => rwa [← ha, Function.update_eq_self]
  | move hm => exact hm.turnover h hS hO ha
  | close hm =>
      have hc := (hm.turnover h hS hO ha).beginClosing (hm.sound hS ha) (n := n)
        (by rw [Function.update_self]; rfl)
      rwa [Function.update_idem] at hc

/-! ## Between the steps of tasks -/

theorem Turnover.begin (h : Turnover l acts) (ha : acts' = acts ∨ ∃ n, acts n = none ∧
    acts' = Function.update acts n (some (.reading .start))) : Turnover l acts' := by
  rcases ha with rfl | ⟨n, hn, rfl⟩
  · exact h
  · exact h.same rfl rfl rfl id nofun nofun (follows_update h.line fun _ => by rw [hn]; exact ⟨rfl, rfl⟩)

theorem Turnover.shut (h : Turnover l acts) (signal : Wake.Signal) :
    Turnover (l.markClosed.signal signal) acts :=
  ⟨nofun, h.reads, h.writes, h.released, h.line⟩

theorem Turnover.write (h : Turnover l acts) (hS : Sound l acts) (bytes : Bytes) :
    Turnover (l.write bytes).2 acts where
  opened ho := by
    have hs : (l.write bytes).2.queue.stream = l.queue.stream := by simp [Link.write]
    rw [hs]
    exact h.opened ho
  reads := h.reads
  writes id hid := by
    have hs : (l.write bytes).2.queue.stream = l.queue.stream := by simp [Link.write]
    rw [hs]
    refine h.writes id ?_
    have hid : stageAtWriter ((l.queue.enqueue bytes).2.stage? id) ≠ .out := hid
    rcases stage?_enqueue hS.fifo bytes id with he | ⟨-, he⟩
    · rwa [he] at hid
    · rw [he] at hid
      exact absurd rfl hid
  released := h.released
  line := by
    have hk : (l.write bytes).2.queue.lock = l.queue.lock := by simp [Link.write]
    rw [hk]
    exact h.line

/-- A write gets in line only while nobody leaves. -/
theorem Turnover.resumeWrite {id : Nat} {r : Reply} {result : Option (Except WriteError Nat)}
    (h : Turnover l acts) (hS : Sound l acts) (hr : l.resumeWrite id r = some (l', result)) :
    Turnover l' acts := by
  obtain ⟨⟨q, result⟩, hq, he⟩ := Option.map_eq_some_iff.mp hr
  cases he
  have sink := resumeWrite_stream hr
  have done : ∀ {k : Lock Worker} {stage}, l.queue.stage? id = some stage → ∀ i,
      stageAtWriter (({ l.queue with lock := k }.complete id).stage? i) = .out := by
    intro k stage hs i
    have hf : WriteQueue.Fifo { l.queue with lock := k } := hS.fifo.congr rfl rfl rfl
    obtain ⟨-, -, -, ho⟩ := hf.complete hs
    cases hi : ({ l.queue with lock := k }.complete id).stage? i with
    | none => rfl
    | some stage =>
        obtain ⟨bytes, rfl⟩ := ho i stage hi
        rfl
  have writes : ∀ i, stageAtWriter (q.stage? i) ≠ .out → l.queue.stream.isSome = true := by
    intro i hi
    cases WriteQueue.move_of_resume hq with
    | line _ ho => exact (h.opened ho).2
    | take _ _ hx => rw [hx]; rfl
    | send hs => exact h.writes id (by rw [hs]; nofun)
    | refuse hs | miss hs | finish hs => exact absurd (done hs i) hi
  have line : q.lock.line.Pairwise (Follows acts) := by
    cases WriteQueue.move_of_resume hq with
    | line _ ho =>
        refine follows_join h.line fun w _ => ?_
        cases w with
        | write i => trivial
        | task n => exact h.not_leaves ho n
    | take | send => exact h.line
    | refuse => rw [WriteQueue.complete_lock]; exact h.line
    | miss | finish => rw [WriteQueue.complete_lock]; exact follows_leave h.line
  exact ⟨fun ho => sink ▸ h.opened ho, h.reads, fun i hi => sink ▸ writes i hi, h.released, line⟩

/-! ## Streams come and go once -/

/-- What was attached and what was shut down so far. -/
structure Passed (ds : List Deed) (ms : List Moment) (l : Link) : Prop where
  same : installed ds = attached ms
  once : (attached ms).Nodup
  shut : (ended ds).Nodup
  sink : ∀ x, l.queue.stream = some x → x ∈ attached ms
  kept : ∀ x ∈ attached ms, l.queue.stream = some x ∨ x ∈ ended ds
  gone : ∀ x ∈ ended ds, x ∈ attached ms ∧ l.queue.stream ≠ some x

variable {ms : List Moment} {m : Moment}

theorem passed_create (t : Config.Tuning) : Passed [] [] (create t) :=
  ⟨rfl, .nil, .nil, nofun, nofun, nofun⟩

theorem Passed.congr (h : Passed ds ms m.before) (hl : m.after.queue.stream = m.before.queue.stream) :
    Passed ds (ms ++ [m]) m.after := by
  have ha : attached (ms ++ [m]) = attached ms := attached_of_same hl
  refine ⟨?_, ?_, h.shut, ?_, ?_, ?_⟩ <;> rw [ha]
  · exact h.same
  · exact h.once
  · rw [hl]; exact h.sink
  · rw [hl]; exact h.kept
  · rw [hl]; exact h.gone

theorem installed_snoc : installed (ds ++ [d]) = installed ds ++ d.installs.toList := by
  cases h : d.installs <;> simp [installed, h]

theorem ended_snoc : ended (ds ++ [d]) = ended ds ++ d.ends.toList := by
  cases h : d.ends <;> simp [ended, h]

/-- A stream is attached where there is none. -/
theorem Passed.install (h : Passed ds ms m.before) (hi : d.installs = some x) (he : d.ends = none)
    (hnew : x ∉ attached ms) (hnone : m.before.queue.stream = none)
    (hx : m.after.queue.stream = some x) : Passed (ds ++ [d]) (ms ++ [m]) m.after := by
  have ha : attached (ms ++ [m]) = attached ms ++ [x] := by simp [attached, hnone, hx]
  have hs : ended (ds ++ [d]) = ended ds := by simp [ended_snoc, he]
  refine ⟨?_, ?_, hs ▸ h.shut, ?_, ?_, ?_⟩ <;> rw [ha]
  · rw [installed_snoc, hi, h.same]
    rfl
  · exact List.nodup_append'.mpr ⟨h.once, by simp, by simpa using hnew⟩
  · intro y hy
    obtain rfl := Option.some.inj (hx.symm.trans hy)
    simp
  · rw [hs]
    intro y hy
    rcases List.mem_append.mp hy with hy | hy
    · exact .inr ((h.kept y hy).resolve_left (by simp [hnone]))
    · obtain rfl := List.mem_singleton.mp hy
      exact .inl hx
  · rw [hs]
    intro y hy
    refine ⟨List.mem_append_left _ (h.gone y hy).1, fun hxy => hnew ?_⟩
    obtain rfl := Option.some.inj (hx.symm.trans hxy)
    exact (h.gone x hy).1

/-- A stream that is to be shut down is taken out. -/
theorem Passed.finish (h : Passed ds ms m.before) (hi : d.installs = none) (he : d.ends = some x)
    (hx : m.before.queue.stream = some x) (hnone : m.after.queue.stream = none) :
    Passed (ds ++ [d]) (ms ++ [m]) m.after := by
  have ha : attached (ms ++ [m]) = attached ms := by simp [attached, hnone]
  have hs : ended (ds ++ [d]) = ended ds ++ [x] := by simp [ended_snoc, he]
  have hnew : x ∉ ended ds := fun hm => (h.gone x hm).2 hx
  refine ⟨?_, ha ▸ h.once, ?_, by simp [hnone], ?_, ?_⟩
  · rw [ha, installed_snoc, hi, h.same]
    simp
  · rw [hs]
    exact List.nodup_append'.mpr ⟨h.shut, by simp, by simpa using hnew⟩
  · rw [ha, hs]
    intro y hy
    refine .inr (List.mem_append.mpr ?_)
    rcases h.kept y hy with hy | hy
    · exact .inr (by simpa using Option.some.inj (hy.symm.trans hx))
    · exact .inl hy
  · rw [ha, hs]
    intro y hy
    refine ⟨?_, by simp [hnone]⟩
    rcases List.mem_append.mp hy with hy | hy
    · exact (h.gone y hy).1
    · exact h.sink y (by rw [List.mem_singleton.mp hy, hx])

theorem Passed.pass (h : Passed ds ms m.before) (hi : d.installs = none) (he : d.ends = none)
    (hl : m.after.queue.stream = m.before.queue.stream) : Passed (ds ++ [d]) (ms ++ [m]) m.after := by
  have hi : installed (ds ++ [d]) = installed ds := by simp [installed_snoc, hi]
  have he : ended (ds ++ [d]) = ended ds := by simp [ended_snoc, he]
  obtain ⟨same, once, shut, sink, kept, gone⟩ := h.congr hl
  exact ⟨hi ▸ same, once, he ▸ shut, sink, he ▸ kept, he ▸ gone⟩

theorem Moves.sink (h : Moves l n a l' a') : l'.queue.stream = l.queue.stream ∨
    (∃ x, a = some (.attaching (.writer x))) ∨ ∃ x, a' = some (.closing (.stream x)) := by
  have move : ∀ {l' a'}, Move l n a l' a' → l'.queue.stream = l.queue.stream ∨
      (∃ x, a = some (.attaching (.writer x))) ∨ ∃ x, a' = some (.closing (.stream x)) := by
    intro l' a' hm
    cases hm with
    | attach => exact .inr (.inl ⟨_, rfl⟩)
    | takeOut => exact .inr (.inr ⟨_, rfl⟩)
    | _ => exact .inl rfl
  cases h with
  | none => exact .inl rfl
  | move hm => exact move hm
  | close hm =>
      rcases move hm with h | h | ⟨x, h⟩
      · exact .inl h
      · exact .inr (.inl h)
      · cases h

theorem Moves.takes (h : Moves l n a l' (some (.closing (.stream x))))
    (ha : a ≠ some (.closing (.stream x))) : l.queue.stream = some x ∧ l'.queue.stream = .none := by
  cases h with
  | none => exact absurd rfl ha
  | move hm =>
      cases hm with
      | takeOut _ hx => exact ⟨hx, rfl⟩

theorem Moves.installs (h : Moves l n (some (.attaching (.writer x))) l' a')
    (ha : a' ≠ some (.attaching (.writer x))) : l'.queue.stream = some x := by
  cases h with
  | none => exact absurd rfl ha
  | move hm => cases hm; rfl
  | close hm => cases hm; rfl

theorem Deed.ends_eq_some {a : Option Activity} {k : Ask} :
    (Deed.mk a k).ends = some x ↔ k = .call (.shutdown x) := by
  constructor
  · intro h
    simp only [ends] at h
    split at h <;> cases h
    rfl
  · rintro rfl
    rfl

theorem Deed.installs_eq_some {a : Option Activity} {k : Ask} :
    (Deed.mk a k).installs = some x ↔ a = some (.attaching (.writer x)) := by
  constructor
  · intro h
    simp only [installs] at h
    split at h <;> cases h
    rfl
  · rintro rfl
    rfl

/-- Streams come and go when a task goes on. -/
theorem Passed.moves {k : Ask} (h : Passed ds ms m.before) (hm : Moves m.before n a m.after a')
    (hk : ∀ x, k = .call (.shutdown x) ↔ a' = some (.closing (.stream x)))
    (attach : ∀ x, a = some (.attaching (.writer x)) →
      x ∉ attached ms ∧ m.before.queue.stream = none ∧ a' ≠ some (.attaching (.writer x)))
    (shut : ∀ x, a = some (.closing (.stream x)) → a' = none) :
    Passed (ds ++ [⟨a, k⟩]) (ms ++ [m]) m.after := by
  have none_of : ∀ {o : Option StreamId}, (∀ x, o ≠ some x) → o = none := fun h => by
    by_contra hne
    obtain ⟨x, hx⟩ := Option.ne_none_iff_exists'.mp hne
    exact h x hx
  by_cases hi : ∃ x, a = some (.attaching (.writer x))
  · obtain ⟨x, rfl⟩ := hi
    obtain ⟨hnew, hnone, hne⟩ := attach x rfl
    refine h.install rfl (none_of fun y hy => ?_) hnew hnone (hm.installs hne)
    have hy := (hk y).mp (Deed.ends_eq_some.mp hy)
    cases hnone.symm.trans (Moves.takes (hy ▸ hm) (by simp)).1
  · have hin : (Deed.mk a k).installs = none :=
      none_of fun x hx => hi ⟨x, Deed.installs_eq_some.mp hx⟩
    by_cases he : ∃ x, a' = some (.closing (.stream x))
    · obtain ⟨x, rfl⟩ := he
      obtain ⟨hx, hnone⟩ := hm.takes fun ha => by cases shut x ha
      exact h.finish hin (Deed.ends_eq_some.mpr ((hk x).mpr rfl)) hx hnone
    · refine h.pass hin (none_of fun x hx => he ⟨x, (hk x).mp (Deed.ends_eq_some.mp hx)⟩) ?_
      exact hm.sink.resolve_right fun h => h.elim hi he

/-- So streams come and go at a link. -/
theorem Passed.custody {handed : List StreamId} {ask : Worker → Ask} (h : Passed ds ms l)
    (hT : Turnover l acts) (hS : Sound l acts) (hh : ∀ x ∈ attached ms, x ∈ handed)
    (bare : ∀ n k, acts n = some (.attaching k) → Bare l)
    (hask : ∀ w x, ask w = .call (.shutdown x) → ∃ n, acts n = some (.closing (.stream x))) :
    Custody handed ds l acts ask where
  vacant n k hn := hT.vacant (bare n k hn)
  once := h.same ▸ h.once
  handed := h.same ▸ hh
  kept := h.same ▸ h.kept
  shut := h.shut
  attached x hx := h.same ▸ (h.gone x hx).1
  released w x hw := by
    obtain ⟨n, hn⟩ := hask w x hw
    have hnone := hT.released n (by rw [hn]; rfl)
    exact ⟨hnone, fun m y hm => by cases hnone.symm.trans (hS.reads m y hm)⟩

end Rfcomm.Link
