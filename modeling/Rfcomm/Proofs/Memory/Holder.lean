import Rfcomm.Proofs.Machine
import Rfcomm.Proofs.Memory.Pipe
/-!
Endpoints whose streams are ends of pipes. The pipes answer what the workers ask of the streams, while
at the other ends peers write and read, shut down and go away as they like. What comes out of the reads
is what the peers wrote.
-/
namespace Rfcomm

/-- What pipes see of the kind of endpoint that holds their ends. -/
structure Holder (σ α ε : Type) where
  machine : Machine σ α ε
  side : Memory.Side
  ask : σ → Worker → Ask
  /-- A worker goes on with a reply. -/
  step : Worker → Reply → α
  reply? : α → Option Reply
  streams : σ → List StreamId
  outcome : ε → Option Outcome
  link : σ → Link

/-- An endpoint with its pipes. -/
structure Piped (σ : Type) where
  holder : σ
  pipes : StreamId → Memory.Pipe

namespace Piped

/-- What can be done with it. -/
inductive Act (α : Type)
  /-- The answers of streams apart, anything that can be done with the endpoint. -/
  | own (a : α)
  /-- A stream answers what a worker asked of it. -/
  | answer (w : Worker)
  /-- The peer writes. -/
  | send (x : StreamId) (bytes : Bytes)
  | receive (x : StreamId) (size : Nat)
  | finish (x : StreamId)
  | hangUp (x : StreamId)

/-- What comes of an act: what it did with the endpoint, and the bytes that were taken of the peer. -/
structure Effect (α ε : Type) where
  own : Option (α × ε) := none
  sent : Bytes := []

/-- The streams that an endpoint does not hold any more are gone. -/
def release (before after : List StreamId) (pipes : StreamId → Memory.Pipe) :
    StreamId → Memory.Pipe :=
  fun x => if x ∈ before ∧ x ∉ after then (pipes x).drop else pipes x

variable {σ α ε : Type}

/-- The endpoint does something, with its pipes in some state. -/
def go (H : Holder σ α ε) (s : Piped σ) (a : α) (pipes : StreamId → Memory.Pipe) :
    Option (Piped σ × Effect α ε) :=
  (H.machine.perform s.holder a).map fun (holder, e) =>
    (⟨holder, release (H.streams s.holder) (H.streams holder) pipes⟩, { own := some (a, e) })

def perform (H : Holder σ α ε) (s : Piped σ) : Act α → Option (Piped σ × Effect α ε)
  | .own a => if (H.reply? a).any Memory.Pipe.isAnswer then none else s.go H a s.pipes
  | .answer w =>
    match H.ask s.holder w with
    | .call k =>
      k.stream?.bind fun x => ((s.pipes x).respond H.side k).bind fun (r, p) =>
        s.go H (H.step w r) (Function.update s.pipes x p)
    | _ => none
  | .send x bytes =>
    ((s.pipes x).write H.side.other bytes).map fun (result, p) =>
      ({ s with pipes := Function.update s.pipes x p }, { sent := Memory.taken bytes result })
  | .receive x size =>
    ((s.pipes x).read H.side.other size).map fun (_, p) =>
      ({ s with pipes := Function.update s.pipes x p }, {})
  | .finish x =>
    some ({ s with pipes := Function.update s.pipes x ((s.pipes x).shutdown H.side.other) }, {})
  | .hangUp x => some ({ s with pipes := Function.update s.pipes x (s.pipes x).drop }, {})

abbrev Moment (σ α ε : Type) := Rfcomm.Moment (Piped σ) (Act α) (Effect α ε)

def own (ms : List (Moment σ α ε)) : List (Rfcomm.Moment σ α ε) :=
  ms.filterMap fun m => m.effect.own.map fun (a, e) => ⟨m.before.holder, a, m.after.holder, e⟩

/-- The endpoint at pipes with room for some number of bytes. -/
def machine (H : Holder σ α ε) (capacity : StreamId → Nat) :
    Machine (Piped σ) (Act α) (Effect α ε) where
  start := ⟨H.machine.start, fun x => .create (capacity x)⟩
  perform := perform H
  allows ms
    | .own a => H.machine.allows (own ms) a
    | _ => true

/-- What the endpoint can get of a stream. -/
def incoming (H : Holder σ α ε) (s : Piped σ) (x : StreamId) : Memory.Direction :=
  (s.pipes x).incoming H.side

/-- What a job of the endpoint reports at a moment. -/
def outcome (H : Holder σ α ε) (m : Moment σ α ε) : Option Outcome :=
  m.effect.own.bind fun p => H.outcome p.2

/-- The stream of a read that is over at a moment, and the bytes that it reports. -/
def data? (H : Holder σ α ε) (m : Moment σ α ε) : Option (StreamId × Bytes) :=
  match m.act, outcome H m with
  | .answer w, some (.data bytes) =>
    match H.ask m.before.holder w with
    | .call (.read x _) => some (x, bytes)
    | _ => none
  | _, _ => none

/-- The stream that the peer writes to at a moment, and the bytes that were taken. -/
def sent? (m : Moment σ α ε) : Option (StreamId × Bytes) :=
  match m.act with
  | .send x _ => some (x, m.effect.sent)
  | _ => none

def along (ps : List (StreamId × Bytes)) (x : StreamId) : Bytes :=
  ps.flatMap fun p => if p.1 = x then p.2 else []

/-- The bytes that the reads of a stream reported, one after the other. -/
def delivered (H : Holder σ α ε) (ms : List (Moment σ α ε)) (x : StreamId) : Bytes :=
  along (ms.filterMap (data? H)) x

/-- The bytes that the peer of a stream wrote. -/
def written (ms : List (Moment σ α ε)) (x : StreamId) : Bytes := along (ms.filterMap sent?) x

/-- The peer of a stream ended what it writes, or went away. -/
def PeerClosed (ms : List (Moment σ α ε)) (x : StreamId) : Prop :=
  ∃ m ∈ ms, m.act = .finish x ∨ m.act = .hangUp x

/-- What the reads of an endpoint deliver. -/
structure Delivers (H : Holder σ α ε) (size : Nat) (ms : List (Moment σ α ε)) (s : Piped σ) :
    Prop where
  /-- What was delivered, and what is still to be delivered, is what the peer wrote. -/
  order : ∀ x, delivered H ms x ++ (incoming H s x).buffer = written ms x
  /-- Whoever reports data has the reading half to itself, and gets it from a stream. -/
  data : ∀ m ∈ ms, ∀ bytes, outcome H m = some (.data bytes) →
    (∃ w x, m.act = .answer w ∧ H.ask m.before.holder w = .call (.read x size) ∧
      (H.link m.before.holder).lock.isHeldBy w = true) ∧ 0 < bytes.length ∧ bytes.length ≤ size
  /-- Nothing else takes a byte away. -/
  spared : ∀ m ∈ ms, (∀ bytes, outcome H m ≠ some (.data bytes)) → ∀ x,
    (incoming H m.before x).buffer <+: (incoming H m.after x).buffer
  /-- A read that waits for bytes gets those that are there. -/
  served : ∀ w x, H.ask s.holder w = .call (.read x size) → (incoming H s x).buffer ≠ [] →
    ∃ s' e bytes, perform H s (.answer w) = some (s', e) ∧
      outcome H ⟨s, .answer w, s', e⟩ = some (.data bytes)
  ended : ∀ as m bs, ms = as ++ m :: bs → ∀ w x n a e, m.act = .answer w →
    H.ask m.before.holder w = .call (.read x n) → m.effect.own = some (a, e) →
    H.reply? a = some (.read (.ok [])) → PeerClosed as x ∧ delivered H as x = written as x

end Piped

/-- What is to be known of a kind of endpoint. -/
structure Holder.Lawful {σ α ε : Type} (H : Holder σ α ε) (size : Nat) : Prop where
  positive : 0 < size
  reply : ∀ w r, H.reply? (H.step w r) = some r
  allows : ∀ ms w r, Memory.Pipe.isAnswer r = true → H.machine.allows ms (H.step w r) = true
  /-- Whoever reads a stream has the reading half to itself. -/
  asks : ∀ {ms s w x n}, H.machine.Run ms s → H.ask s w = .call (.read x n) →
    n = size ∧ (H.link s).lock.isHeldBy w = true
  /-- A read takes as many bytes as it asked for, and reports them. -/
  answers : ∀ {ms s w x n bytes}, H.machine.Run ms s → H.ask s w = .call (.read x n) →
    bytes.length ≤ n → ∃ s' e, H.machine.perform s (H.step w (.read (.ok bytes))) = some (s', e) ∧
      (bytes ≠ [] → H.outcome e = some (.data bytes))
  data : ∀ {ms s a s' e bytes}, H.machine.Run ms s → H.machine.perform s a = some (s', e) →
    H.outcome e = some (.data bytes) → H.reply? a = some (.read (.ok bytes)) ∧ bytes ≠ []
  /-- A stream that is not held any more is never read again. -/
  gone : ∀ {ms m ns s w x n}, H.machine.Run (ms ++ m :: ns) s → x ∈ H.streams m.before →
    x ∉ H.streams m.after → H.ask s w ≠ .call (.read x n)

namespace Piped

variable {σ α ε : Type}

/-- What can be done, by what becomes of the pipes. -/
inductive Does (H : Holder σ α ε) (s : Piped σ) : Act α → Piped σ → Effect α ε → Prop
  | own {a holder e} : (∀ r, H.reply? a = some r → Memory.Pipe.isAnswer r = false) →
      H.machine.perform s.holder a = some (holder, e) →
      Does H s (.own a) ⟨holder, release (H.streams s.holder) (H.streams holder) s.pipes⟩
        { own := some (a, e) }
  | answer {w k x r p holder e} : H.ask s.holder w = .call k → k.stream? = some x →
      (s.pipes x).respond H.side k = some (r, p) →
      H.machine.perform s.holder (H.step w r) = some (holder, e) →
      Does H s (.answer w)
        ⟨holder, release (H.streams s.holder) (H.streams holder) (Function.update s.pipes x p)⟩
        { own := some (H.step w r, e) }
  | send {x bytes result p} : (s.pipes x).write H.side.other bytes = some (result, p) →
      Does H s (.send x bytes) { s with pipes := Function.update s.pipes x p }
        { sent := Memory.taken bytes result }
  | receive {x size bytes p} : (s.pipes x).read H.side.other size = some (bytes, p) →
      Does H s (.receive x size) { s with pipes := Function.update s.pipes x p } {}
  | finish {x} : Does H s (.finish x)
      { s with pipes := Function.update s.pipes x ((s.pipes x).shutdown H.side.other) } {}
  | hangUp {x} : Does H s (.hangUp x)
      { s with pipes := Function.update s.pipes x (s.pipes x).drop } {}

variable {H : Holder σ α ε} {s s' : Piped σ} {a : Act α} {e : Effect α ε}
  {ms ns : List (Moment σ α ε)} {m : Moment σ α ε} {w : Worker} {x : StreamId} {n size : Nat}
  {bytes : Bytes} {capacity : StreamId → Nat} {before after : List StreamId}
  {pipes : StreamId → Memory.Pipe} {side : Memory.Side}

theorem does_of_perform (h : perform H s a = some (s', e)) : Does H s a s' e := by
  cases a with
  | own a =>
      obtain ⟨hn, h⟩ := Option.ite_none_left_eq_some.mp h
      obtain ⟨⟨holder, e⟩, hp, he⟩ := Option.map_eq_some_iff.mp h
      cases he
      refine .own (fun r hr => ?_) hp
      simpa [hr] using hn
  | answer w =>
      simp only [perform] at h
      split at h
      · rename_i k hk
        obtain ⟨x, hx, h⟩ := Option.bind_eq_some_iff.mp h
        obtain ⟨⟨r, p⟩, hr, h⟩ := Option.bind_eq_some_iff.mp h
        obtain ⟨⟨holder, e⟩, hp, he⟩ := Option.map_eq_some_iff.mp h
        cases he
        exact .answer hk hx hr hp
      · cases h
  | send x bytes =>
      obtain ⟨⟨result, p⟩, hp, he⟩ := Option.map_eq_some_iff.mp h
      cases he
      exact .send hp
  | receive x size =>
      obtain ⟨⟨bytes, p⟩, hp, he⟩ := Option.map_eq_some_iff.mp h
      cases he
      exact .receive hp
  | finish x => cases h; exact .finish
  | hangUp x => cases h; exact .hangUp

/-! ## The endpoint by itself -/

@[simp] theorem own_append : own (ms ++ ns) = own ms ++ own ns := by simp [own]

theorem run_own {size : Nat} (hL : H.Lawful size) (h : (machine H capacity).Run ms s) :
    H.machine.Run (own ms) s.holder := by
  induction h with
  | start => exact .start
  | @next ms s a s' e _ ha hp ih =>
      rw [own_append]
      cases does_of_perform hp with
      | own _ hown => exact ih.next ha hown
      | answer _ _ hr hown =>
          exact ih.next (hL.allows _ _ _ (Memory.Pipe.isAnswer_of_respond hr)) hown
      | send | receive | finish | hangUp => simpa [own] using ih

/-! ## What comes in -/

theorem buffer_release : ((release before after pipes x).incoming side).buffer =
    ((pipes x).incoming side).buffer := by
  unfold release
  split <;> simp

theorem closed_release (h : ((release before after pipes x).incoming side).closed = true) :
    ((pipes x).incoming side).closed = true ∨ x ∈ before ∧ x ∉ after := by
  unfold release at h
  split at h
  · exact .inr ‹_›
  · exact .inl h

@[simp] theorem along_nil : along [] x = [] := rfl

@[simp] theorem along_singleton {y : StreamId} : along [(y, bytes)] x = if y = x then bytes else [] := by
  simp [along]

@[simp] theorem along_append (ps qs : List (StreamId × Bytes)) :
    along (ps ++ qs) x = along ps x ++ along qs x := by
  simp [along]

theorem delivered_snoc :
    delivered H (ms ++ [m]) x = delivered H ms x ++ along (data? H m).toList x := by
  cases h : data? H m <;> simp [delivered, h]

theorem written_snoc : written (ms ++ [m]) x = written ms x ++ along (sent? m).toList x := by
  cases h : sent? m <;> simp [written, h]

theorem data?_eq_none (h : ∀ bytes, outcome H m ≠ some (.data bytes)) : data? H m = none := by
  unfold data?
  split
  · rename_i hd
    exact absurd hd (h _)
  · rfl

theorem incoming_update {y : StreamId} {p : Memory.Pipe} :
    (Function.update pipes y p x).incoming side =
      if x = y then p.incoming side else (pipes x).incoming side := by
  rw [Function.update_apply]
  split <;> rfl

section Answers

variable {os : List (Rfcomm.Moment σ α ε)} {holder : σ} {k : Call} {r : Reply} {o : ε} {y : StreamId}

theorem along_of_read (hL : H.Lawful size) (hr : H.machine.Run os s.holder)
    (hk : H.ask s.holder w = .call (.read y n)) (hlen : bytes.length ≤ n)
    (hp : H.machine.perform s.holder (H.step w (.read (.ok bytes))) = some (holder, o)) :
    along (data? H ⟨s, .answer w, s', { own := some (H.step w (.read (.ok bytes)), o) }⟩).toList x =
      if y = x then bytes else [] := by
  by_cases hb : bytes = []
  · have hnone := data?_eq_none (H := H)
      (m := ⟨s, .answer w, s', { own := some (H.step w (.read (.ok bytes)), o) }⟩) fun got ho => by
        obtain ⟨hreply, hne⟩ := hL.data hr hp ho
        rw [hL.reply, hb] at hreply
        cases hreply
        exact hne rfl
    rw [hnone, hb]
    simp
  · obtain ⟨_, _, hp', hout⟩ := hL.answers hr hk hlen
    cases hp'.symm.trans hp
    simp [data?, outcome, hout hb, hk]

theorem data?_of_reply (hL : H.Lawful size) (hr : H.machine.Run os s.holder)
    (hp : H.machine.perform s.holder (H.step w r) = some (holder, o))
    (hne : ∀ result, r ≠ .read result) :
    data? H ⟨s, .answer w, s', { own := some (H.step w r, o) }⟩ = none := by
  apply data?_eq_none
  intro got ho
  have hreply := (hL.data hr hp ho).1
  rw [hL.reply] at hreply
  exact hne _ (Option.some.inj hreply)

end Answers

/-- What comes in gets in line behind what is there, and what is delivered stood in front. -/
theorem Does.order (hL : H.Lawful size) {os : List (Rfcomm.Moment σ α ε)}
    (hr : H.machine.Run os s.holder) (h : Does H s a s' e) :
    (incoming H s x).buffer ++ along (sent? ⟨s, a, s', e⟩).toList x =
      along (data? H ⟨s, a, s', e⟩).toList x ++ (incoming H s' x).buffer := by
  cases h with
  | own hn hp => simp [sent?, data?, incoming, buffer_release]
  | @answer w k y r p holder o hk hy hresp hp =>
      simp only [sent?, Option.toList_none, along_nil, List.append_nil, incoming, buffer_release,
        incoming_update]
      rcases Memory.Pipe.incoming_of_respond hresp with ⟨_, n, bytes, rfl, rfl, hread⟩ | ⟨hne, hsame⟩
      · cases hy
        rw [along_of_read hL hr hk (Memory.Direction.length_of_read hread) hp]
        by_cases hxy : x = y
        · subst hxy
          simpa using Memory.Direction.buffer_of_read hread
        · simp [hxy, Ne.symm hxy]
      · rw [data?_of_reply hL hr hp hne]
        by_cases hxy : x = y
        · subst hxy
          simp [hsame]
        · simp [hxy]
  | @send y bytes result p hp =>
      have hd := Memory.Direction.eq_of_write (Memory.Pipe.incoming_of_write_other hp)
      by_cases hxy : x = y
      · subst hxy
        simp [sent?, data?, incoming, hd]
      · simp [sent?, data?, incoming, hxy, Ne.symm hxy]
  | @receive y size bytes p hp =>
      have hd := Memory.Pipe.incoming_of_read_other hp
      by_cases hxy : x = y
      · subst hxy
        simp [sent?, data?, incoming, hd]
      · simp [sent?, data?, incoming, hxy]
  | @finish y | @hangUp y =>
      by_cases hxy : x = y
      · subst hxy
        simp [sent?, data?, incoming, Memory.Pipe.shutdown]
      · simp [sent?, data?, incoming, hxy]

theorem order_of_run (hL : H.Lawful size) (h : (machine H capacity).Run ms s) :
    delivered H ms x ++ (incoming H s x).buffer = written ms x := by
  induction h with
  | start =>
      change [] ++ ((Memory.Pipe.create (capacity x)).incoming H.side).buffer = []
      cases H.side <;> rfl
  | @next ms s a s' e hr _ hp ih =>
      rw [delivered_snoc, written_snoc, List.append_assoc,
        ← (does_of_perform hp).order hL (run_own hL hr), ← List.append_assoc, ih]

/-! ## The end of what comes in -/

/-- A stream was held and is held no more. -/
def Left (H : Holder σ α ε) (os : List (Rfcomm.Moment σ α ε)) (x : StreamId) : Prop :=
  ∃ m ∈ os, x ∈ H.streams m.before ∧ x ∉ H.streams m.after

theorem peerClosed_append : PeerClosed (ms ++ ns) x ↔ PeerClosed ms x ∨ PeerClosed ns x := by
  simp only [PeerClosed, List.mem_append, or_and_right, exists_or]

theorem left_append {os ps : List (Rfcomm.Moment σ α ε)} :
    Left H (os ++ ps) x ↔ Left H os x ∨ Left H ps x := by
  simp only [Left, List.mem_append, or_and_right, exists_or]

theorem closed_update {y : StreamId} {p : Memory.Pipe}
    (h : ((Function.update pipes y p x).incoming side).closed = true) :
    ((pipes x).incoming side).closed = true ∨ x = y ∧ (p.incoming side).closed = true := by
  rw [incoming_update] at h
  split at h
  · exact .inr ⟨‹_›, h⟩
  · exact .inl h

theorem Does.closed (h : Does H s a s' e) (hc : (incoming H s' x).closed = true) :
    (incoming H s x).closed = true ∨ PeerClosed [⟨s, a, s', e⟩] x ∨
      Left H (Piped.own [⟨s, a, s', e⟩]) x := by
  cases h with
  | own hn hp =>
      rcases closed_release hc with hc | hx
      · exact .inl hc
      · exact .inr (.inr ⟨_, List.mem_singleton_self _, hx⟩)
  | @answer w k y r p holder o hk hy hresp hp =>
      rcases closed_release hc with hupdate | hx
      · rcases closed_update hupdate with hold | ⟨rfl, hnew⟩
        · exact .inl hold
        · rcases Memory.Pipe.incoming_of_respond hresp with ⟨_, n, bytes, -, -, hread⟩ | ⟨-, hsame⟩
          · exact .inl ((Memory.Direction.closed_of_read hread).symm.trans hnew)
          · rw [hsame] at hnew
            exact .inl hnew
      · exact .inr (.inr ⟨_, List.mem_singleton_self _, hx⟩)
  | send hp =>
      rcases closed_update hc with hold | ⟨rfl, hnew⟩
      · exact .inl hold
      · rw [Memory.Direction.eq_of_write (Memory.Pipe.incoming_of_write_other hp)] at hnew
        exact .inl hnew
  | receive hp =>
      rcases closed_update hc with hold | ⟨rfl, hnew⟩
      · exact .inl hold
      · rw [Memory.Pipe.incoming_of_read_other hp] at hnew
        exact .inl hnew
  | finish =>
      rcases closed_update hc with hold | ⟨rfl, -⟩
      · exact .inl hold
      · exact .inr (.inl ⟨_, List.mem_singleton_self _, .inl rfl⟩)
  | hangUp =>
      rcases closed_update hc with hold | ⟨rfl, -⟩
      · exact .inl hold
      · exact .inr (.inl ⟨_, List.mem_singleton_self _, .inr rfl⟩)

/-- What comes in ends by the peer, or because the stream is held no more. -/
theorem closed_of_run (h : (machine H capacity).Run ms s) (hc : (incoming H s x).closed = true) :
    PeerClosed ms x ∨ Left H (own ms) x := by
  induction h with
  | start =>
      have hopen : ((Memory.Pipe.create (capacity x)).incoming H.side).closed = false := by
        cases H.side <;> rfl
      cases hopen.symm.trans hc
  | next _ _ hp ih =>
      rw [peerClosed_append, own_append, left_append]
      rcases (does_of_perform hp).closed hc with hc | hc | hc
      · exact (ih hc).imp .inl .inl
      · exact .inl (.inr hc)
      · exact .inr (.inr hc)

/-! ## All together -/

theorem Does.data (hL : H.Lawful size) {os : List (Rfcomm.Moment σ α ε)}
    (hr : H.machine.Run os s.holder) (h : Does H s a s' e)
    (ho : outcome H ⟨s, a, s', e⟩ = some (.data bytes)) :
    (∃ w x, a = .answer w ∧ H.ask s.holder w = .call (.read x size) ∧
      (H.link s.holder).lock.isHeldBy w = true) ∧ 0 < bytes.length ∧ bytes.length ≤ size := by
  cases h with
  | own hn hp =>
      obtain ⟨hreply, -⟩ := hL.data hr hp ho
      cases hn _ hreply
  | @answer w k y r p holder o hk hy hresp hp =>
      obtain ⟨hreply, hne⟩ := hL.data hr hp ho
      rw [hL.reply] at hreply
      obtain rfl := Option.some.inj hreply
      rcases Memory.Pipe.incoming_of_respond hresp with ⟨z, n, got, rfl, hgot, hread⟩ | ⟨hnr, -⟩
      · cases hgot
        obtain ⟨rfl, hlock⟩ := hL.asks hr hk
        exact ⟨⟨w, z, rfl, hk, hlock⟩, List.length_pos_iff.mpr hne,
          Memory.Direction.length_of_read hread⟩
      · exact absurd rfl (hnr _)
  | send | receive | finish | hangUp => cases ho

theorem Does.ended (hL : H.Lawful size) {os : List (Rfcomm.Moment σ α ε)} {a' : α} {e' : ε}
    (hr : H.machine.Run os s.holder) (h : Does H s (.answer w) s' e)
    (hk : H.ask s.holder w = .call (.read x n)) (hown : e.own = some (a', e'))
    (ha : H.reply? a' = some (.read (.ok []))) :
    (incoming H s x).buffer = [] ∧ (incoming H s x).closed = true := by
  cases h with
  | @answer _ k y r p holder o hk' hy hresp hp =>
      cases hk.symm.trans hk'
      cases hy
      cases hown
      rw [hL.reply] at ha
      obtain rfl := Option.some.inj ha
      rcases Memory.Pipe.incoming_of_respond hresp with ⟨z, n', got, he, hgot, hread⟩ | ⟨hnr, -⟩
      · cases he
        cases hgot
        obtain ⟨rfl, -⟩ := hL.asks hr hk
        exact Memory.Direction.ended_of_read hread hL.positive
      · exact absurd rfl (hnr _)

theorem served_of_run (hL : H.Lawful size) {os : List (Rfcomm.Moment σ α ε)}
    (hr : H.machine.Run os s.holder) (hk : H.ask s.holder w = .call (.read x size))
    (hb : (incoming H s x).buffer ≠ []) :
    ∃ s' e bytes, perform H s (.answer w) = some (s', e) ∧
      outcome H ⟨s, .answer w, s', e⟩ = some (.data bytes) := by
  obtain ⟨bytes, d, hread, hne⟩ := Memory.Direction.exists_read hb hL.positive
  obtain ⟨holder, o, hp, hdata⟩ := hL.answers hr hk (Memory.Direction.length_of_read hread)
  have hperform : perform H s (.answer w) =
      s.go H (H.step w (.read (.ok bytes)))
        (Function.update s.pipes x ((s.pipes x).setIncoming H.side d)) := by
    simp only [perform, hk, Call.stream?, Option.bind_some, Memory.Pipe.respond_of_read hread]
  rw [go, hp, Option.map_some] at hperform
  exact ⟨_, _, bytes, hperform, hdata hne⟩

/-- Wherever a run gets to, the reads of an endpoint deliver what the peers wrote. -/
theorem delivers_of_run (hL : H.Lawful size) (h : (machine H capacity).Run ms s) :
    Delivers H size ms s where
  order x := order_of_run hL h
  data m hm bytes ho := by
    obtain ⟨as, bs, rfl⟩ := List.append_of_mem hm
    obtain ⟨hr, -, hp, -⟩ := h.moment
    exact (does_of_perform hp).data hL (run_own hL hr) ho
  spared m hm ho x := by
    obtain ⟨as, bs, rfl⟩ := List.append_of_mem hm
    obtain ⟨hr, -, hp, -⟩ := h.moment
    have horder := (does_of_perform hp).order hL (run_own hL hr) (x := x)
    rw [data?_eq_none (m := ⟨m.before, m.act, m.after, m.effect⟩) ho] at horder
    exact ⟨_, by simpa using horder⟩
  served w x hk hb := served_of_run hL (run_own hL h) hk hb
  ended as m bs hms w x n a e hact hk hown ha := by
    subst hms
    obtain ⟨hr, -, hp, -⟩ := h.moment
    have hro := run_own hL hr
    have hd := does_of_perform hp
    rw [hact] at hd
    obtain ⟨hbuffer, hclosed⟩ := hd.ended hL hro hk hown ha
    constructor
    · refine (closed_of_run hr hclosed).resolve_right ?_
      rintro ⟨k, hk', hbefore, hafter⟩
      obtain ⟨os, ps, he⟩ := List.append_of_mem hk'
      rw [he] at hro
      exact hL.gone hro hbefore hafter hk
    · simpa [hbuffer] using order_of_run hL hr (x := x)

end Piped

end Rfcomm
