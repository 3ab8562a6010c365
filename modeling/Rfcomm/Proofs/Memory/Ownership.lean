import Rfcomm.Proofs.Machine
import Rfcomm.Proofs.Memory.Network
import Rfcomm.Proofs.Memory.Numbers
/-!
Who listens where. A network keeps a table of targets apart from its listeners. In whatever order
targets are bound, called and let go, the two agree: a target belongs to the listener that was bound to
it and did not go since.
-/
namespace Rfcomm.Memory.Network

/-- What can be done with a network, by any of its devices. -/
inductive Act
  | bind (device : Address) (t : Target)
  | connect (device : Address) (t : Target) (stream : StreamId)
  | accept (l : ListenerId)
  | drop (l : ListenerId)

inductive Effect
  | bound (result : Except Fault ListenerId)
  | connected (result : Except Fault Unit)
  | accepted (caller : Option (StreamId × Address))
  | dropped (callers : List (StreamId × Address))

def perform (n : Network) : Act → Option (Network × Effect)
  | .bind device t =>
    match n.bind device t with
    | .ok (l, n) => some (n, .bound (.ok l))
    | .error f => some (n, .bound (.error f))
  | .connect device t x =>
    match n.connect device t x with
    | .ok n => some (n, .connected (.ok ()))
    | .error f => some (n, .connected (.error f))
  | .accept l =>
    match n.accept l with
    | some (caller, n) => some (n, .accepted (some caller))
    | none => some (n, .accepted none)
  | .drop l => some ((n.drop l).2, .dropped (n.drop l).1)

abbrev Moment := Rfcomm.Moment Network Act Effect

def machine : Machine Network Act Effect where
  start := {}
  perform := perform

/-- The listeners after a moment, each with its target. -/
def heldAfter (hs : List (ListenerId × Target)) (m : Moment) : List (ListenerId × Target) :=
  match m.act, m.effect with
  | .bind device t, .bound (.ok l) => hs ++ [(l, resolve device t)]
  | .drop l, _ => hs.filter (·.1 ≠ l)
  | _, _ => hs

/-- The listeners that were bound and did not go since. -/
def held (ms : List Moment) : List (ListenerId × Target) := ms.foldl heldAfter []

/-- A network in which these listeners, and no others, own their targets. -/
structure Owned (hs : List (ListenerId × Target)) (n : Network) : Prop where
  sole : ∀ l l' t, (l, t) ∈ hs → (l', t) ∈ hs → l = l'
  listening : ∀ t, n.isListening t = true ↔ ∃ l, (l, t) ∈ hs
  /-- A target that nobody has can be bound, by a listener that is new. -/
  free : ∀ device t, (∀ l, (l, resolve device t) ∉ hs) →
    ∃ l n', n.bind device t = .ok (l, n') ∧ ∀ t', (l, t') ∉ hs
  taken : ∀ device t l, (l, resolve device t) ∈ hs → n.bind device t = .error (.bare .addrInUse)
  /-- A listener that goes frees its own target. -/
  freed : ∀ l t, (l, t) ∈ hs →
    ∀ t', (n.drop l).2.isListening t' = true ↔ n.isListening t' = true ∧ t' ≠ t
  /-- One that has gone takes nothing with it any more. -/
  gone : ∀ l, (∀ t, (l, t) ∉ hs) → (n.drop l).2 = n
  /-- Who connects gets in line last at the listener of the target, and nowhere else. -/
  called : ∀ device t x l, (l, t) ∈ hs → ∃ q n', n.backlog? l = some q ∧
    n.connect device t x = .ok n' ∧
    ∀ l', n'.backlog? l' = if l' = l then some (q ++ [(x, device)]) else n.backlog? l'
  refused : ∀ device t x, (∀ l, (l, t) ∉ hs) →
    n.connect device t x = .error (.bare .connectionRefused)

/-- The table, the listeners and what was bound agree. -/
structure Agrees (hs : List (ListenerId × Target)) (n : Network) : Prop where
  table : n.table = hs.map Prod.swap
  live : n.live.map (fun l => (l.id, l.target)) = hs
  ids : (hs.map (·.1)).Nodup
  targets : (hs.map (·.2)).Nodup
  lt : ∀ p ∈ hs, p.1 < n.nextListener

variable {hs : List (ListenerId × Target)} {n n' : Network} {own : Address} {t t' : Target}
  {x : StreamId} {l : ListenerId} {c : StreamId × Address} {a : Act} {e : Effect} {ms : List Moment}
  {m : Moment}

/-! ## The table -/

theorem lookup_swap (hn : (hs.map (·.2)).Nodup) : (hs.map Prod.swap).lookup t = some l ↔ (l, t) ∈ hs := by
  induction hs with
  | nil => simp
  | cons p hs ih =>
    obtain ⟨l', t'⟩ := p
    obtain ⟨hp, hn⟩ := List.nodup_cons.mp hn
    rw [List.map_cons, Prod.swap_prod_mk, List.lookup_cons, List.mem_cons, Prod.mk.injEq]
    by_cases ht : t = t'
    · subst ht
      have hnot : (l, t) ∉ hs := fun hmem => hp (List.mem_map.mpr ⟨(l, t), hmem, rfl⟩)
      simp [hnot, eq_comm]
    · rw [beq_eq_false_iff_ne.mpr ht]
      simp [ht, ih hn]

theorem Agrees.lookup (h : Agrees hs n) : n.table.lookup t = some l ↔ (l, t) ∈ hs := by
  rw [h.table, lookup_swap h.targets]

theorem Agrees.isListening (h : Agrees hs n) : n.isListening t = true ↔ ∃ l, (l, t) ∈ hs := by
  simp only [Network.isListening, Option.isSome_iff_exists, h.lookup]

theorem Agrees.any_live (h : Agrees hs n) : n.live.any (·.id = l) = true ↔ ∃ t, (l, t) ∈ hs := by
  simp only [← h.live, List.any_eq_true, decide_eq_true_eq, List.mem_map, Prod.mk.injEq]
  constructor
  · rintro ⟨k, hk, rfl⟩
    exact ⟨k.target, k, hk, rfl, rfl⟩
  · rintro ⟨t, k, hk, rfl, -⟩
    exact ⟨k, hk, rfl⟩

theorem Agrees.listener? (h : Agrees hs n) : n.listener? t = some l ↔ (l, t) ∈ hs := by
  rw [Network.listener?, Option.filter_eq_some_iff, h.lookup, h.any_live]
  exact and_iff_left_of_imp fun hmem => ⟨t, hmem⟩

/-! ## What the acts do -/

theorem Agrees.congr (h : Agrees hs n) (ht : n'.table = n.table)
    (hl : n'.live.map (fun l => (l.id, l.target)) = n.live.map fun l => (l.id, l.target))
    (hn : n'.nextListener = n.nextListener) : Agrees hs n' :=
  ⟨ht.trans h.table, hl.trans h.live, h.ids, h.targets, hn ▸ h.lt⟩

/-- Who waits may change, who listens where does not. -/
theorem Agrees.of_backlogs (h : Agrees hs n) (f : Listener → Listener)
    (hf : ∀ k, (f k).id = k.id ∧ (f k).target = k.target) :
    Agrees hs { n with live := n.live.map f } := by
  refine h.congr rfl ?_ rfl
  rw [List.map_map]
  congr 1
  funext k
  simp [hf k]

theorem Agrees.bind (h : Agrees hs n) (hb : n.bind own t = .ok (l, n')) :
    Agrees (hs ++ [(l, resolve own t)]) n' := by
  simp only [Network.bind] at hb
  split at hb <;> cases hb
  rename_i hfree
  rw [h.isListening] at hfree
  refine ⟨by simp [h.table], by simp [h.live], nodup_snoc h.ids h.lt _, ?_, lt_snoc h.lt _⟩
  rw [List.map_append, List.nodup_append']
  refine ⟨h.targets, by simp, ?_⟩
  rw [List.map_singleton, List.disjoint_singleton]
  intro hmem
  obtain ⟨⟨l, t'⟩, hp, rfl⟩ := List.mem_map.mp hmem
  exact hfree ⟨l, hp⟩

theorem Agrees.connect (h : Agrees hs n) (hc : n.connect own t x = .ok n') : Agrees hs n' := by
  unfold Network.connect at hc
  split at hc
  · cases hc
  · split at hc <;> cases hc
    exact h.of_backlogs _ fun k => by split <;> exact ⟨rfl, rfl⟩

theorem Agrees.accept (h : Agrees hs n) (hc : n.accept l = some (c, n')) : Agrees hs n' := by
  unfold Network.accept at hc
  split at hc <;> cases hc
  exact h.of_backlogs _ fun k => by split <;> exact ⟨rfl, rfl⟩

theorem Agrees.drop_gone (h : Agrees hs n) (hl : ∀ t, (l, t) ∉ hs) : (n.drop l).2 = n := by
  have hnone : n.live.find? (·.id = l) = none := by
    rw [← Option.not_isSome_iff_eq_none, List.isSome_find?, h.any_live]
    rintro ⟨t, ht⟩
    exact hl t ht
  rw [drop, hnone]

theorem Agrees.drop (h : Agrees hs n) (hl : (l, t) ∈ hs) :
    Agrees (hs.filter (·.1 ≠ l)) (n.drop l).2 := by
  obtain ⟨k, hk⟩ : ∃ k, n.live.find? (·.id = l) = some k := by
    rw [← Option.isSome_iff_exists, List.isSome_find?, h.any_live]
    exact ⟨t, hl⟩
  have hid : k.id = l := by simpa using List.find?_some hk
  have hmem : (l, k.target) ∈ hs := by
    rw [← h.live, ← hid]
    exact List.mem_map_of_mem (f := fun l => (l.id, l.target)) (List.mem_of_find?_eq_some hk)
  -- The table is cleared by the target, the listeners by the number: both mean one entry.
  have hone : ∀ p ∈ hs, p.1 = l → p.2 = k.target := fun p hp he =>
    congrArg Prod.snd (List.inj_on_of_nodup_map h.ids hp hmem he)
  rw [Network.drop, hk]
  refine ⟨?_, ?_, h.ids.sublist (List.filter_sublist.map _), h.targets.sublist
    (List.filter_sublist.map _), fun p hp => h.lt p (List.mem_filter.mp hp).1⟩
  · dsimp only
    rw [h.table, List.filter_map]
    congr 1
    refine List.filter_congr fun p hp => ?_
    by_cases he : p.1 = l
    · simp [he, hone p hp he]
    · simp [he]
  · dsimp only
    rw [← h.live, List.filter_map]
    rfl

/-! ## Runs -/

theorem held_snoc : held (ms ++ [m]) = heldAfter (held ms) m := by
  rw [held, List.foldl_append]
  rfl

theorem Agrees.perform (h : Agrees hs n) (hp : n.perform a = some (n', e)) :
    Agrees (heldAfter hs ⟨n, a, n', e⟩) n' := by
  cases a with
  | bind own t =>
    simp only [Network.perform] at hp
    split at hp <;> cases hp
    · exact h.bind ‹_›
    · exact h
  | connect own t x =>
    simp only [Network.perform] at hp
    split at hp <;> cases hp
    · exact h.connect ‹_›
    · exact h
  | accept l =>
    simp only [Network.perform] at hp
    split at hp <;> cases hp
    · exact h.accept ‹_›
    · exact h
  | drop l =>
    cases hp
    by_cases hl : ∃ t, (l, t) ∈ hs
    · obtain ⟨t, ht⟩ := hl
      exact h.drop ht
    · have hno : l ∉ hs.map (·.1) := by
        intro hmem
        obtain ⟨p, hp, rfl⟩ := List.mem_map.mp hmem
        exact hl ⟨p.2, hp⟩
      rw [h.drop_gone fun t ht => hl ⟨t, ht⟩]
      change Agrees (hs.filter (·.1 ≠ l)) n
      rwa [filter_of_not_mem hno]

theorem agrees_of_run (h : machine.Run ms n) : Agrees (held ms) n := by
  induction h with
  | start => exact ⟨rfl, rfl, .nil, .nil, nofun⟩
  | next _ _ hp ih =>
    rw [held_snoc]
    exact ih.perform hp

/-- Wherever a run gets to, the listeners that were bound and did not go own their targets. -/
theorem targets_owned (h : machine.Run ms n) : Owned (held ms) n := by
  have hA := agrees_of_run h
  refine ⟨fun l l' t hl hl' => ?_, fun t => hA.isListening, fun own t hfree => ?_,
    fun own t l hl => ?_, fun l t hl t' => ?_, fun l => hA.drop_gone, fun own t x l hl => ?_,
    fun own t x hl => ?_⟩
  · exact congrArg Prod.fst (List.inj_on_of_nodup_map hA.targets hl hl' rfl)
  · have hno : ¬ n.isListening (resolve own t) = true := by
      rw [hA.isListening]
      exact fun ⟨l, hl⟩ => hfree l hl
    refine ⟨n.nextListener, _, by simp only [Network.bind]; exact if_neg hno, fun t' ht' => ?_⟩
    exact Nat.lt_irrefl _ (hA.lt _ ht')
  · simp only [Network.bind]
    exact if_pos (hA.isListening.mpr ⟨l, hl⟩)
  · rw [(hA.drop hl).isListening, hA.isListening]
    constructor
    · rintro ⟨l', hl'⟩
      obtain ⟨hmem, hne⟩ := List.mem_filter.mp hl'
      refine ⟨⟨l', hmem⟩, ?_⟩
      rintro rfl
      obtain rfl : l' = l := congrArg Prod.fst (List.inj_on_of_nodup_map hA.targets hmem hl rfl)
      simp at hne
    · rintro ⟨⟨l', hl'⟩, hne⟩
      refine ⟨l', List.mem_filter.mpr ⟨hl', ?_⟩⟩
      simp only [ne_eq, decide_eq_true_eq]
      rintro rfl
      exact hne (congrArg Prod.snd (List.inj_on_of_nodup_map hA.ids hl' hl rfl))
  · rcases connect_cases n own t x with ⟨hnone, -⟩ | ⟨l', n', hl', hc, -, -, hsome, hb⟩
    · cases hnone.symm.trans (hA.listener?.mpr hl)
    · cases hl'.symm.trans (hA.listener?.mpr hl)
      obtain ⟨q, hq⟩ := Option.isSome_iff_exists.mp hsome
      refine ⟨q, n', hq, hc, fun l' => ?_⟩
      rw [hb l', hq]
      rfl
  · rcases connect_cases n own t x with ⟨-, hc⟩ | ⟨l, n', hl', -⟩
    · exact hc
    · exact absurd (hA.listener?.mp hl') (hl l)

/-- A channel that is bound, freed and bound anew by the same device. The listener that went can be
let go once more without harm, and who connects waits for the new one. -/
theorem targets_owned_anew : ∃ ms n t, machine.Run ms n ∧ held ms = [(1, t)] ∧
    n.backlog? 1 = some [(6, ⟨#v[0, 0, 0, 0, 0, 9]⟩)] ∧ Owned (held ms) n := by
  have h : (machine.play
      [.bind ⟨#v[0, 0, 0, 0, 0, 1]⟩ ⟨.any, 3⟩,
        .bind ⟨#v[0, 0, 0, 0, 0, 2]⟩ ⟨⟨#v[0, 0, 0, 0, 0, 1]⟩, 3⟩,
        .connect ⟨#v[0, 0, 0, 0, 0, 9]⟩ ⟨⟨#v[0, 0, 0, 0, 0, 1]⟩, 3⟩ 5, .drop 0,
        .bind ⟨#v[0, 0, 0, 0, 0, 1]⟩ ⟨.any, 3⟩, .drop 0,
        .connect ⟨#v[0, 0, 0, 0, 0, 9]⟩ ⟨⟨#v[0, 0, 0, 0, 0, 1]⟩, 3⟩ 6]).isSome := rfl
  have hr := Machine.run_of_play (Option.some_get h).symm
  exact ⟨_, _, ⟨⟨#v[0, 0, 0, 0, 0, 1]⟩, 3⟩, hr, rfl, rfl, targets_owned hr⟩

end Rfcomm.Memory.Network
