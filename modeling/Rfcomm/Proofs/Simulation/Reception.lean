import Mathlib.Logic.Relation
import Rfcomm.Proofs.Server.Reception
import Rfcomm.Simulation.Schedule
/-!
The world as a reception. Where a server of the world is on a device of the network, what its workers do
there and who connects are acts of a reception, so all that is known of receptions is so in the world.
-/
namespace Rfcomm.Simulation

open Reception (machine respond letGo)

/-- One of the items of a world is the server of a reception, on a device of its network. Whoever
connects next comes with a stream that was not there before. -/
structure World.Shows (w : World) (i : Nat) (device : Address) (ms : List Reception.Moment)
    (s : Reception) : Prop where
  item : ∃ it capacity, w.items[i]? = some it ∧ it.backend = .memory device capacity ∧
    it.endpoint = .server s.server
  network : w.network = s.network
  fresh : ∀ x ∈ ms.filterMap (·.act.stream?), x < w.bodies.length

/-- A change of a world that the network and an item do not notice, up to the calls that it has
begun. -/
structure World.Keeps (i : Nat) (w w' : World) : Prop where
  network : w'.network = w.network
  bodies : w.bodies.length ≤ w'.bodies.length
  item : ∀ it, w.items[i]? = some it → ∃ begun, w'.items[i]? = some { it with begun }

/-- Whether a call is answered without the network. -/
def isLocal : Call → Bool
  | .connect _ | .bind _ | .accept _ _ => false
  | _ => true

namespace World

variable {w w' w'' : World} {i j n capacity : Nat} {it : Item} {k : Worker} {c : Call} {x : StreamId}
  {device : Address} {r : Reply} {network : Memory.Network}

/-! ## What the network does not notice -/

theorem Keeps.refl : Keeps i w w := ⟨rfl, Nat.le_refl _, fun it h => ⟨it.begun, h⟩⟩

theorem Keeps.trans (h : Keeps i w w') (h' : Keeps i w' w'') : Keeps i w w'' := by
  refine ⟨h'.network.trans h.network, Nat.le_trans h.bodies h'.bodies, fun it hi => ?_⟩
  obtain ⟨begun, hbegun⟩ := h.item it hi
  exact h'.item { it with begun } hbegun

theorem Keeps.of_items (hn : w'.network = w.network) (hb : w.bodies.length ≤ w'.bodies.length)
    (hi : w'.items = w.items) : Keeps i w w' :=
  ⟨hn, hb, fun it h => ⟨it.begun, hi ▸ h⟩⟩

theorem begin_keeps : Keeps i w (w.begin j k n) := by
  refine ⟨rfl, Nat.le_refl _, fun it h => ?_⟩
  by_cases hj : j = i
  · exact ⟨it.begun ++ [(k, n)], by simp [World.begin, h, hj]⟩
  · exact ⟨it.begun, by simp [World.begin, h, hj]⟩

theorem settle_keeps : Keeps i w (w.settle j k) := by
  refine ⟨rfl, Nat.le_refl _, fun it h => ?_⟩
  by_cases hj : j = i
  · exact ⟨it.begun.filter (·.1 ≠ k), by simp [World.settle, h, hj]⟩
  · exact ⟨it.begun, by simp [World.settle, h, hj]⟩

theorem setScripted_keeps {s : ScriptedStream} : Keeps i w (w.setScripted x s) :=
  .of_items rfl (Nat.le_of_eq (List.length_set ..).symm) rfl

theorem dropStream_keeps : Keeps i w (w.dropStream x) := by
  unfold dropStream
  split
  · split
    · exact .of_items rfl (Nat.le_refl _) rfl
    · exact .refl
  · exact setScripted_keeps
  · exact .refl

theorem shutdownStream_keeps : Keeps i w (w.shutdownStream x) := by
  unfold shutdownStream
  split
  · split
    · exact .of_items rfl (Nat.le_refl _) rfl
    · exact .refl
  · exact setScripted_keeps
  · exact .refl

theorem readStream_keeps {size : Nat} {result : Except Fault Bytes}
    (h : w.readStream x size = some (result, w')) : Keeps i w w' := by
  unfold readStream at h
  split at h
  · split at h
    · obtain ⟨_, -, he⟩ := Option.map_eq_some_iff.mp h
      cases he
      exact .of_items rfl (Nat.le_refl _) rfl
    · cases h
  · obtain ⟨_, -, he⟩ := Option.map_eq_some_iff.mp h
    cases he
    exact setScripted_keeps
  · cases h

theorem writeStream_keeps {bytes : Bytes} {result : Except Fault Nat}
    (h : w.writeStream x bytes = some (result, w')) : Keeps i w w' := by
  unfold writeStream at h
  split at h
  · split at h
    · obtain ⟨_, -, he⟩ := Option.map_eq_some_iff.mp h
      cases he
      exact .of_items rfl (Nat.le_refl _) rfl
    · cases h
  · obtain ⟨_, -, he⟩ := Option.map_eq_some_iff.mp h
    cases he
    exact setScripted_keeps
  · cases h

theorem flushStream_keeps {result : Except Fault Unit}
    (h : w.flushStream x = some (result, w')) : Keeps i w w' := by
  unfold flushStream at h
  split at h
  · obtain ⟨_, -, he⟩ := Option.map_eq_some_iff.mp h
    cases he
    exact setScripted_keeps
  · cases h
    exact .refl
  · cases h

theorem waitUntil_keeps : Keeps i w (w.waitUntil j it k n).1 := by
  unfold waitUntil
  split
  · exact .refl
  · exact begin_keeps

theorem registerAttempt_keeps : Keeps i w (w.registerAttempt j it k).2 := by
  have hcounted : Keeps i w { w with registerAttempts := w.registerAttempts + 1 } :=
    .of_items rfl (Nat.le_refl _) rfl
  unfold registerAttempt
  split
  · exact .refl
  · exact hcounted.trans begin_keeps

theorem withdrawAttempt_keeps : Keeps i w (w.withdrawAttempt j it k).2 := by
  have hcounted : Keeps i w { w with withdrawAttempts := w.withdrawAttempts + 1 } :=
    .of_items rfl (Nat.le_refl _) rfl
  unfold withdrawAttempt
  split
  · exact .refl
  · exact hcounted.trans begin_keeps

theorem connectFrom_eq {other : Address} {target : Target} {near : StreamId}
    (h : w.connectFrom other capacity target = .ok (near, w')) :
    w.network.connect other target (w.bodies.length + 1) = .ok w'.network ∧ w'.items = w.items ∧
      w'.bodies.length = w.bodies.length + 2 := by
  have hfar : (w.addPipe capacity).2.1 = w.bodies.length + 1 := by simp [addPipe, addStream]
  unfold connectFrom at h
  simp only [hfar] at h
  change (w.network.connect other target (w.bodies.length + 1)).map _ = _ at h
  cases hc : w.network.connect other target (w.bodies.length + 1) with
  | error f => rw [hc] at h; cases h
  | ok network =>
      rw [hc] at h
      cases h
      exact ⟨rfl, rfl, by simp [addPipe, addStream]⟩

/-! ## Calls -/

/-- A reply that brings neither a caller nor a listener. -/
def Bare (r : Reply) : Prop :=
  ∀ k, (Server.Act.step k r).stream? = none ∧ (Server.Act.step k r).listener? = none

/-- An answer that the network has no part in. -/
structure Quiet (i : Nat) (w : World) (answer : World × Option Reply) : Prop where
  keeps : Keeps i w answer.1
  bare : ∀ r, answer.2 = some r → Bare r

theorem Quiet.reply (h : Keeps i w w') (hr : Bare r) : Quiet i w (w', some r) :=
  ⟨h, fun _ he => Option.some.inj he ▸ hr⟩

theorem Quiet.wait (h : Keeps i w w') : Quiet i w (w', none) := ⟨h, fun _ he => nomatch he⟩

theorem Quiet.elapsed (h : Keeps i w w') (late : Bool) :
    Quiet i w (w', if late then some .elapsed else none) := by
  cases late with
  | true => exact .reply h fun _ => ⟨rfl, rfl⟩
  | false => exact .wait h

theorem answer_local (hc : isLocal c = true) : Quiet i w (w.answer j it k c) := by
  cases c with
  | connect | bind | accept => cases hc
  | pause ticks => exact .elapsed waitUntil_keeps _
  | register record =>
      simp only [answer]
      split
      · split
        · exact .reply (registerAttempt_keeps.trans (.of_items rfl (Nat.le_refl _) rfl))
            fun _ => ⟨rfl, rfl⟩
        · exact .reply registerAttempt_keeps fun _ => ⟨rfl, rfl⟩
      · exact .wait registerAttempt_keeps
  | withdraw session =>
      simp only [answer]
      split
      · exact .reply (withdrawAttempt_keeps.trans (.of_items rfl (Nat.le_refl _) rfl))
          fun _ => ⟨rfl, rfl⟩
      · exact .wait withdrawAttempt_keeps
  | read x size =>
      simp only [answer]
      split
      · exact .reply (readStream_keeps ‹_›) fun _ => ⟨rfl, rfl⟩
      · exact .wait .refl
  | write x bytes =>
      simp only [answer]
      split
      · exact .reply (writeStream_keeps ‹_›) fun _ => ⟨rfl, rfl⟩
      · exact .wait .refl
  | flush x =>
      simp only [answer]
      split
      · exact .reply (flushStream_keeps ‹_›) fun _ => ⟨rfl, rfl⟩
      · exact .wait .refl
  | shutdown x => exact .reply shutdownStream_keeps fun _ => ⟨rfl, rfl⟩

/-- The network of the world answers as that of a reception, but that a wait for a caller also ends
in time. -/
theorem answer_network (hb : it.backend = .memory device capacity)
    (hc : (∃ channel, c = .bind channel) ∨ ∃ l ticks, c = .accept l ticks) :
    (∃ r network, respond device w.network c = some (r, network) ∧ (w.answer j it k c).2 = some r ∧
      ∃ w₁, Keeps i w w₁ ∧ (w.answer j it k c).1 = { w₁ with network }) ∨
    Quiet i w (w.answer j it k c) := by
  rcases hc with ⟨channel, rfl⟩ | ⟨l, ticks, rfl⟩
  · simp only [answer, hb, bindFrom, respond]
    cases w.network.bind device ⟨.any, channel⟩ with
    | ok p => exact .inl ⟨_, _, rfl, rfl, w, .refl, rfl⟩
    | error f => exact .inl ⟨_, _, rfl, rfl, w, .refl, rfl⟩
  · have hwait : Keeps i w (w.waitUntil j it k ticks).1 := waitUntil_keeps
    simp only [answer, hb, respond, hwait.network]
    cases w.network.accept l with
    | some p => exact .inl ⟨_, _, rfl, rfl, _, hwait, rfl⟩
    | none => exact .inr (.elapsed hwait _)

/-! ## What is let go of -/

theorem foldl_dropStream_keeps {α : Type} (f : α → StreamId) (xs : List α) :
    Keeps i w (xs.foldl (fun w x => w.dropStream (f x)) w) := by
  induction xs generalizing w with
  | nil => exact .refl
  | cons x xs ih => exact dropStream_keeps.trans ih

/-- The callers in line at the listeners go away, which the network does not notice. -/
theorem foldl_dropListener_keeps (ls : List ListenerId) :
    Keeps i { w with network := (w.network.dropAll ls).2 } (ls.foldl dropListener w) := by
  induction ls generalizing w with
  | nil => exact .refl
  | cons l ls ih =>
      have hl : Keeps i { w with network := (w.network.drop l).2 } (w.dropListener l) :=
        foldl_dropStream_keeps Prod.fst _
      have hrest : Keeps i _ (ls.foldl dropListener (w.dropListener l)) := ih
      refine ⟨hrest.network.trans ?_, Nat.le_trans hl.bodies hrest.bodies, fun it hi => ?_⟩
      · exact congrArg (fun n => (Memory.Network.dropAll n ls).2) hl.network
      · obtain ⟨begun, hbegun⟩ := hl.item it hi
        exact hrest.item { it with begun } hbegun

/-- What an endpoint lets go of in the world goes away as at a reception. -/
theorem setEndpoint_keeps {e : Endpoint} (hi : w.items[i]? = some it)
    (hb : it.backend = .memory device capacity) :
    Keeps i { w with
        network := (w.network.dropAll (letGo it.endpoint.listeners e.listeners)).2
        items := w.items.set i { it with endpoint := e } } (w.setEndpoint i e) := by
  obtain ⟨name, endpoint, backend, begun⟩ := it
  cases hb
  unfold setEndpoint
  simp only [hi]
  have hlisteners : Keeps i _ ((letGo endpoint.listeners e.listeners).foldl dropListener
      { w with items := w.items.set i ⟨name, e, .memory device capacity, begun⟩ }) :=
    foldl_dropListener_keeps _
  exact hlisteners.trans (foldl_dropStream_keeps id _)

end World

/-! ## What a server asks -/

theorem resume_of_task {s : Server} {n : Nat} {u : Server.Task}
    (hu : s.tasks.find? (·.id = n) = some u) (r : Reply) :
    s.resume (.task n) r = s.resumeStage n u.stage r := by
  rw [Server.resume, hu, Option.bind_some]

/-- A worker of a server asks the network for a channel or a caller, and can go on with what that
answers, or it asks for something else. -/
theorem asks_network_or_local {s : Server} {k : Worker} {c : Call} (h : s.ask k = .call c) :
    (∃ n, k = .task n ∧ ((∃ channel, c = .bind channel) ∨ ∃ l ticks, c = .accept l ticks) ∧
      ∀ device network r network', respond device network c = some (r, network') →
        (s.resume k r).isSome = true) ∨ isLocal c = true := by
  cases k with
  | write id =>
      obtain ⟨x, send, -, rfl | rfl⟩ := Link.sending_of_askWrite h <;> exact .inr rfl
  | task n =>
      rw [Server.ask] at h
      split at h
      · rename_i u hu
        cases hact : u.stage.activity with
        | some act =>
            rw [Server.askStage_activity s n hact] at h
            rcases Link.Activity.of_call h with ⟨x, -, rfl, -⟩ | ⟨x, -, rfl⟩ <;> exact .inr rfl
        | none =>
            have hresume := resume_of_task hu
            generalize u.stage = stage at h hact hresume
            cases stage with
            | binding record =>
                cases h
                refine .inl ⟨n, rfl, .inl ⟨_, rfl⟩, fun device network r network' hr => ?_⟩
                simp only [respond] at hr
                split at hr <;> cases hr <;> (rw [hresume]; rfl)
            | accepting l =>
                cases h
                refine .inl ⟨n, rfl, .inr ⟨_, _, rfl⟩, fun device network r network' hr => ?_⟩
                obtain ⟨_, -, he⟩ := Option.map_eq_some_iff.mp hr
                cases he
                rw [hresume]
                rfl
            | registering | pausing => cases h; exact .inr rfl
            | noting => exact absurd h Ask.turn_ne_call
            | undoing k | welcoming _ _ k | retiring k =>
                cases k with
                | waiting => exact absurd h Ask.turn_ne_call
                | calling => cases h; exact .inr rfl
            | losing k | releasing k =>
                cases k with
                | closing => cases hact
                | waiting => exact absurd h Ask.turn_ne_call
                | registering => cases h; exact .inr rfl
            | watching | dismissing | leaving => cases h
            | attaching | refusing | reading | closing => cases hact
      · cases h

/-! ## Acts of the reception -/

section

variable {w w' : World} {i capacity : Nat} {it : Item} {k : Worker} {device : Address} {r : Reply}
  {ms : List Reception.Moment} {s s' : Reception} {t : Config.Tuning} {a : Reception.Act}
  {e : Reception.Effect} {act : Server.Act} {server : Server} {se : Server.Effect} {other : Address}
  {target : Target} {near : StreamId}

theorem World.Shows.keeps (h : w.Shows i device ms s) (hk : World.Keeps i w w') :
    w'.Shows i device ms s := by
  obtain ⟨⟨it, capacity, hi, hb, he⟩, hn, hfresh⟩ := h
  obtain ⟨begun, hi'⟩ := hk.item it hi
  exact ⟨⟨_, capacity, hi', hb, he⟩, hk.network.trans hn,
    fun x hx => Nat.lt_of_lt_of_le (hfresh x hx) hk.bodies⟩

/-- An act that brings no stream leaves the next stream new. -/
theorem World.Shows.snoc (h : w.Shows i device ms s) {m : Reception.Moment}
    (hm : m.act.stream? = none) :
    w.Shows i device (ms ++ [m]) s :=
  ⟨h.item, h.network, by simpa [hm] using h.fresh⟩

/-- A server that goes on lets go of its listeners in the world as at the reception. -/
theorem World.Shows.setEndpoint (h : w.Shows i device ms s) (server : Server) :
    (w.setEndpoint i (.server server)).Shows i device ms
      ⟨server, (s.network.dropAll (letGo s.server.listeners server.listeners)).2⟩ := by
  obtain ⟨⟨it, capacity, hi, hb, he⟩, hn, hfresh⟩ := h
  have hkeeps := World.setEndpoint_keeps (e := .server server) hi hb
  have hshows : World.Shows { w with
      network := (w.network.dropAll (letGo s.server.listeners server.listeners)).2
      items := w.items.set i { it with endpoint := .server server } } i device ms
      ⟨server, (s.network.dropAll (letGo s.server.listeners server.listeners)).2⟩ :=
    ⟨⟨_, capacity, List.getElem?_set_self (List.getElem?_eq_some_iff.mp hi).1, hb, rfl⟩,
      by rw [← hn], hfresh⟩
  rw [he] at hkeeps
  exact hshows.keeps hkeeps

/-- What is done with the server in the world is done with it at the reception. -/
theorem World.Shows.serve {network : Memory.Network} (h : w.Shows i device ms ⟨s.server, network⟩)
    (hp : s.server.perform act = some (server, se)) :
    ∃ s' e, s.serve network act = some (s', e) ∧
      (w.setEndpoint i (.server server)).Shows i device ms s' := by
  have hshows := h.setEndpoint server
  simp only [Reception.serve, hp, Option.map_some]
  exact ⟨_, _, rfl, hshows⟩

/-- What a reception came to in a world after some more acts. -/
def World.Comes (w : World) (i : Nat) (device : Address) (t : Config.Tuning)
    (ms : List Reception.Moment) : Prop :=
  ∃ ns s, (machine device t).Run (ms ++ ns) s ∧ w.Shows i device (ms ++ ns) s

theorem World.Shows.comes (h : w.Shows i device ms s) (hr : (machine device t).Run ms s) :
    w.Comes i device t ms :=
  ⟨[], s, by rwa [List.append_nil], by rwa [List.append_nil]⟩

theorem World.Shows.comes_of_act (h : w.Shows i device ms s') (hr : (machine device t).Run ms s)
    (ha : a.stream? = none) (hp : s.perform device a = some (s', e)) : w.Comes i device t ms :=
  ⟨[⟨s, a, s', e⟩], s', hr.next (by simp [machine, ha]) hp, h.snoc ha⟩

/-- An act on the server that the network has no part in. -/
theorem World.Shows.perform (h : w.Shows i device ms s) (hr : (machine device t).Run ms s)
    (hx : act.stream? = none) (hl : act.listener? = none)
    (hp : s.server.perform act = some (server, se)) :
    (w.setEndpoint i (.server server)).Comes i device t ms := by
  obtain ⟨s', e, hs, hshows⟩ := h.serve hp
  refine hshows.comes_of_act (a := .server act) (e := e) hr rfl ?_
  simp [Reception.perform, hx, hl, hs]

/-- Once it is known what a worker is answered, it goes on with that or not at all. -/
theorem World.Shows.goes_on (h : w.Shows i device ms s) (hr : (machine device t).Run ms s)
    {reply : Option Reply} (hbare : ∀ r, reply = some r → Bare r)
    {f : Reply → Option (Endpoint × Option Outcome)}
    (hf : ∀ r, f r = (s.server.resume k r).map fun (server, out) => (.server server, out.outcome)) :
    (match reply.bind f with
      | some (e, outcome) => ((w.settle i k).setEndpoint i e, some (outcome.map (Ended.job i k ·)))
      | none => (w, none)).1.Comes i device t ms := by
  cases reply with
  | none => exact h.comes hr
  | some r =>
      rw [Option.bind_some, hf]
      cases hgo : s.server.resume k r with
      | none => exact h.comes hr
      | some p =>
          obtain ⟨hx, hl⟩ := hbare r rfl k
          exact (h.keeps settle_keeps).perform hr hx hl (Server.perform_of_resume hgo)

/-- A step of a worker in the world is an act of the reception, or none. -/
theorem World.Shows.step (h : w.Shows i device ms s) (hr : (machine device t).Run ms s) (k : Worker) :
    (w.step i k).1.Comes i device t ms := by
  obtain ⟨it, capacity, hi, hb, he⟩ := h.item
  have hresume : ∀ r, it.endpoint.resume k r =
      (s.server.resume k r).map fun (server, out) => (.server server, out.outcome) := by
    intro r
    rw [he]
    rfl
  have hask : it.endpoint.ask k = s.server.ask k := by
    rw [he]
    rfl
  unfold World.step
  simp only [hi, hask]
  cases hcall : s.server.ask k with
  | blocked => exact h.comes hr
  | ready => exact h.goes_on hr (fun _ h => by cases h; exact fun _ => ⟨rfl, rfl⟩) hresume
  | call c =>
      rcases asks_network_or_local hcall with ⟨n, rfl, hc, hgo⟩ | hc
      · rcases World.answer_network (i := i) (j := i) (k := .task n) hb hc with
          ⟨r, network, hrespond, hreply, w₁, hkeeps, hw⟩ | hquiet
        · -- The reply comes of the network, which is the reception's.
          rw [h.network] at hrespond
          obtain ⟨⟨server, out⟩, hgo⟩ := Option.isSome_iff_exists.mp (hgo _ _ _ _ hrespond)
          have hkept := h.keeps hkeeps
          have hanswered : (w.answer i it (.task n) c).1.Shows i device ms ⟨s.server, network⟩ :=
            hw ▸ ⟨hkept.item, rfl, hkept.fresh⟩
          obtain ⟨s', e, hs, hshows⟩ :=
            (hanswered.keeps settle_keeps).serve (Server.perform_of_resume hgo)
          simp only [hreply, Option.bind_some, hresume, hgo, Option.map_some]
          refine hshows.comes_of_act (a := .answer n) (e := e) hr rfl ?_
          simp only [Reception.perform, hcall, hrespond, Option.bind_some]
          exact hs
        · exact (h.keeps hquiet.keeps).goes_on hr hquiet.bare hresume
      · have hquiet : Quiet i w (w.answer i it k c) := World.answer_local hc
        exact (h.keeps hquiet.keeps).goes_on hr hquiet.bare hresume

theorem World.Comes.trans {ns : List Reception.Moment} (h : w.Comes i device t (ms ++ ns)) :
    w.Comes i device t ms := by
  obtain ⟨ns', s, hr, hshows⟩ := h
  exact ⟨ns ++ ns', s, by rwa [← List.append_assoc], by rwa [← List.append_assoc]⟩

theorem World.Shows.run (h : w.Shows i device ms s) (hr : (machine device t).Run ms s) (fuel : Nat)
    (k : Worker) : (w.run fuel i k).1.Comes i device t ms := by
  induction fuel generalizing w ms s with
  | zero => exact h.comes hr
  | succ fuel ih =>
      have hstep := h.step hr k
      unfold World.run
      split
      · rename_i heq
        rwa [heq] at hstep
      · rename_i heq
        rw [heq] at hstep
        obtain ⟨ns, s, hr, hshows⟩ := hstep
        exact (ih hshows hr).trans

/-- Whoever connects in the world does so with a stream that was not there before. -/
theorem World.Shows.connect (h : w.Shows i device ms s) (hr : (machine device t).Run ms s)
    (hc : w.connectFrom other capacity target = .ok (near, w')) : w'.Comes i device t ms := by
  obtain ⟨hn, hitems, hbodies⟩ := World.connectFrom_eq hc
  obtain ⟨it, own, hi, hb, he⟩ := h.item
  rw [h.network] at hn
  obtain ⟨e, hp⟩ : ∃ e, s.perform device (.connect other target (w.bodies.length + 1)) =
      some ({ s with network := w'.network }, e) := by
    simp only [Reception.perform, hn]
    exact ⟨_, rfl⟩
  refine ⟨[⟨s, .connect other target (w.bodies.length + 1), _, e⟩], _, hr.next ?_ hp,
    ⟨it, own, ?_, hb, he⟩, rfl, ?_⟩
  · simp only [machine, Reception.Act.stream?, Option.all_some, Bool.not_eq_true', List.contains_eq_mem,
      decide_eq_false_iff_not]
    exact fun hx => absurd (h.fresh _ hx) (by omega)
  · rw [hitems, hi]
  · intro x hx
    rw [List.filterMap_append, List.mem_append] at hx
    rcases hx with hx | hx
    · exact Nat.lt_of_lt_of_le (h.fresh x hx) (by omega)
    · simp [Reception.Act.stream?] at hx
      omega

end

/-! ## What happens in a world -/

/-- What happens in a world to one of its servers. -/
inductive World.Goes (i : Nat) : World → World → Prop
  /-- A worker of it goes on until it has to wait. -/
  | run {w} (fuel : Nat) (k : Worker) : Goes i w (w.run fuel i k).1
  /-- Something is done with it that the network has no part in. -/
  | act {w s a s' e} : w.endpoint? i = some (.server s) → s.perform a = some (s', e) →
      a.stream? = none → a.listener? = none → Goes i w (w.setEndpoint i (.server s'))
  /-- A device connects. -/
  | connect {w w' other capacity target near} :
      w.connectFrom other capacity target = .ok (near, w') → Goes i w w'
  /-- Something that neither it nor the network notices: time passes, a gate opens, a stream is used. -/
  | aside {w w'} : World.Keeps i w w' → Goes i w w'

theorem World.Shows.goes {w w' : World} {i : Nat} {device : Address} {ms : List Reception.Moment}
    {s : Reception} {t : Config.Tuning} (h : w.Shows i device ms s) (hr : (machine device t).Run ms s)
    (hg : World.Goes i w w') : w'.Comes i device t ms := by
  cases hg with
  | run fuel k => exact h.run hr fuel k
  | act hi hp hx hl =>
      obtain ⟨it, capacity, hit, -, he⟩ := h.item
      rw [World.endpoint?, hit, Option.map_some, he] at hi
      cases hi
      exact h.perform hr hx hl hp
  | connect hc => exact h.connect hr hc
  | aside hk => exact (h.keeps hk).comes hr

section

variable {w w' : World} {i capacity : Nat} {it : Item} {device : Address} {t : Config.Tuning}

/-- Whatever its workers and its owner do and whoever connects, a server that was new in a world is the
server of a reception. -/
theorem reception_of_world (hi : w.items[i]? = some it) (hb : it.backend = .memory device capacity)
    (he : it.endpoint = .server (.create t)) (hn : w.network = {})
    (h : Relation.ReflTransGen (World.Goes i) w w') :
    ∃ ms s, (machine device t).Run ms s ∧ w'.Shows i device ms s := by
  induction h with
  | refl => exact ⟨[], _, .start, ⟨it, capacity, hi, hb, he⟩, hn, by simp⟩
  | tail _ hg ih =>
      obtain ⟨ms, s, hr, hshows⟩ := ih
      obtain ⟨ns, s', hr', hshows'⟩ := hshows.goes hr hg
      exact ⟨ms ++ ns, s', hr', hshows'⟩

/-- What is known of the callers at a reception is so in the world: a client is in line nowhere. -/
theorem attached_not_in_line {s : Server} {l : ListenerId} {q : List (StreamId × Address)}
    {x : StreamId} (hi : w.items[i]? = some it) (hb : it.backend = .memory device capacity)
    (he : it.endpoint = .server (.create t)) (hn : w.network = {})
    (h : Relation.ReflTransGen (World.Goes i) w w') (hs : w'.endpoint? i = some (.server s))
    (hx : s.Attached x) (hl : l ∈ s.listeners) (hq : w'.network.backlog? l = some q) :
    x ∉ q.map (·.1) := by
  obtain ⟨ms, s₀, hr, hshows⟩ := reception_of_world hi hb he hn h
  obtain ⟨it', -, hit, -, he'⟩ := hshows.item
  rw [World.endpoint?, hit, Option.map_some, he'] at hs
  cases hs
  intro hmem
  rw [hshows.network] at hq
  cases Reception.at_unique (Reception.keeps_of_run hr) (.attached hx) (.waiting ⟨l, hl, q, hq, hmem⟩)

end

end Rfcomm.Simulation
