import Rfcomm.Proofs.Memory.Network
import Rfcomm.Proofs.Server.Admission
/-!
Servers at a network. Whoever connects waits in the backlog of the listener until the server takes the
first in line, however often it stops waiting or fails to accept in between. So every caller is at one
place at a time, and they become clients in the order in which they connected.
-/
namespace Rfcomm

/-- A server and the network that it listens on. -/
structure Reception where
  server : Server
  network : Memory.Network := {}

namespace Reception

/-- What can be done at a reception. -/
inductive Act
  /-- What the network has to hand over apart, anything that can be done with the server. A wait for a
  caller ends or fails whenever it likes. -/
  | server (a : Server.Act)
  /-- The network answers a task that binds a channel or waits for a caller. -/
  | answer (n : Nat)
  /-- A device connects to a target. The stream is the called end. -/
  | connect (device : Address) (t : Target) (stream : StreamId)
  /-- Somebody else binds a target. -/
  | bind (device : Address) (t : Target)
  /-- Somebody else takes a caller. -/
  | accept (l : ListenerId)
  /-- Somebody else lets go of a listener. -/
  | drop (l : ListenerId)

/-- What comes of an act. -/
structure Effect where
  server : Option (Server.Act × Server.Effect) := none
  /-- Who got in line at a listener of the server. -/
  queued : Option StreamId := none
  /-- Who was in line at a listener that the server let go of. -/
  dropped : List StreamId := []

/-- What the network answers to a call of a server on a device. Not all calls are for it. -/
def respond (device : Address) (n : Memory.Network) : Call → Option (Reply × Memory.Network)
  | .bind channel =>
    match n.bind device ⟨.any, channel⟩ with
    | .ok (l, n) => some (.bound (.ok l), n)
    | .error f => some (.bound (.error f), n)
  | .accept l _ => (n.accept l).map fun (caller, n) => (.accepted (.ok caller), n)
  | _ => none

/-- What was held and is not held any more. -/
def letGo (before after : List Nat) : List Nat := before.eraseDups.filter fun x => !after.contains x

/-- Something is done with the server, and the listeners that it lets go of go away. -/
def serve (s : Reception) (n : Memory.Network) (a : Server.Act) : Option (Reception × Effect) :=
  (s.server.perform a).map fun (server, e) =>
    let gone := n.dropAll (letGo s.server.listeners server.listeners)
    ({ server, network := gone.2 }, { server := some (a, e), dropped := gone.1.map (·.1) })

/-- What an act does, for a server on a device. -/
def perform (device : Address) (s : Reception) : Act → Option (Reception × Effect)
  | .server a =>
    if a.stream?.isSome || a.listener?.isSome then none else s.serve s.network a
  | .answer n =>
    match s.server.ask (.task n) with
    | .call c => (respond device s.network c).bind fun (r, network) =>
        s.serve network (.step (.task n) r)
    | _ => none
  | .connect other t x =>
    match s.network.connect other t x with
    | .ok network =>
      let mine := (s.network.listener? t).any (s.server.listeners.contains ·)
      some ({ s with network }, { queued := if mine then some x else none })
    | .error _ => some (s, {})
  | .bind other t =>
    match s.network.bind other t with
    | .ok (_, network) => some ({ s with network }, {})
    | .error _ => some (s, {})
  | .accept l =>
    if s.server.listeners.contains l then none
    else (s.network.accept l).map fun (_, network) => ({ s with network }, {})
  | .drop l =>
    if s.server.listeners.contains l then none
    else some ({ s with network := (s.network.drop l).2 }, {})

/-- The stream that an act brings. -/
def Act.stream? : Act → Option StreamId
  | connect _ _ x => some x
  | _ => none

/-- One moment of a reception. -/
abbrev Moment := Rfcomm.Moment Reception Act Effect

/-- What was done with the server. -/
def serverMoments (ms : List Moment) : List Server.Moment :=
  ms.filterMap fun m => m.effect.server.map fun (a, e) => ⟨m.before.server, a, m.after.server, e⟩

/-- Who connected to the server, the first first. -/
def queued (ms : List Moment) : List StreamId := ms.filterMap (·.effect.queued)

/-- Who was in line at a listener when the server let go of it. -/
def dropped (ms : List Moment) : List StreamId := ms.flatMap (·.effect.dropped)

/-- The clients that came, the first first. -/
def attached (ms : List Moment) : List StreamId := Server.joined (serverMoments ms)

/-- A reception for a server on a device. Every stream is opened once. -/
def machine (device : Address) (t : Config.Tuning) : Machine Reception Act Effect where
  start := { server := .create t }
  perform := perform device
  allows ms a := a.stream?.all (!(ms.filterMap (·.act.stream?)).contains ·)

/-- Somebody is in line at a listener of the server. -/
def Waits (s : Reception) (x : StreamId) : Prop :=
  ∃ l ∈ s.server.listeners, ∃ q, s.network.backlog? l = some q ∧ x ∈ q.map (·.1)

/-- Where a caller is. -/
inductive Place
  | waiting
  /-- A task of the server has it. -/
  | accepting
  /-- It is the client. -/
  | attached
  | gone
deriving DecidableEq, Repr

/-- Who is where. -/
inductive At (ms : List Moment) (s : Reception) (x : StreamId) : Place → Prop
  | waiting : s.Waits x → At ms s x .waiting
  | accepting {n} : s.server.callers n = some x → At ms s x .accepting
  | attached : s.server.Attached x → At ms s x .attached
  /-- It was the client and is so no more, or was sent away by a server that was closed. -/
  | left : Server.Left (serverMoments ms) x → At ms s x .gone
  | dropped : x ∈ dropped ms → At ms s x .gone

/-- The server takes the first in line. -/
def Takes (m : Moment) (x : StreamId) : Prop :=
  ∃ n l address rest, m.act = .answer n ∧ m.before.server.stage? n = some (.accepting l) ∧
    m.before.network.backlog? l = some ((x, address) :: rest) ∧
    m.after.server.stage? n = some (.welcoming x address .waiting)

/-- A wait for a caller ends without one, or fails. -/
def Breaks (m : Moment) : Prop :=
  ∃ w r, m.act = .server (.step w r) ∧ (r = .elapsed ∨ ∃ f, r = .accepted (.error f))

/-- The server was closed, or a listen job fails. -/
def Ends (m : Moment) : Prop :=
  m.after.server.phase = .closed ∨
    ∃ a e error, m.effect.server = some (a, e) ∧ e.report.outcome = some (.failed error)

/-- What the network has to do with an act of the server. -/
inductive Supplies (device : Address) (s : Reception) : Server.Act → Memory.Network → Prop
  | plain {a} : a.stream? = none → a.listener? = none → Supplies device s a s.network
  | bind {n l n' channel} : s.network.bind device ⟨.any, channel⟩ = .ok (l, n') →
      Supplies device s (.step (.task n) (.bound (.ok l))) n'
  | accept {n l c n'} : s.server.stage? n = some (.accepting l) →
      s.network.accept l = some (c, n') →
      Supplies device s (.step (.task n) (.accepted (.ok c))) n'

/-- What the acts do. -/
inductive Does (device : Address) (s : Reception) : Act → Reception → Effect → Prop
  | serve {a act n' server e} : Supplies device s act n' → s.server.perform act = some (server, e) →
      a = .server act ∧ act.stream? = none ∨ (∃ n r, a = .answer n ∧ act = .step (.task n) r) →
      Does device s a
        { server, network := (n'.dropAll (letGo s.server.listeners server.listeners)).2 }
        { server := some (act, e)
          dropped := (n'.dropAll (letGo s.server.listeners server.listeners)).1.map (·.1) }
  | connect {other t x l network} : s.network.listener? t = some l → l ∈ s.server.listeners →
      s.network.connect other t x = .ok network →
      Does device s (.connect other t x) { s with network } { queued := some x }
  /-- Others use the network. -/
  | aside {a network} : (s.network.Numbered → network.Numbered ∧
        ∀ l ∈ s.server.listeners, (s.network.backlog? l).isSome = true →
          network.backlog? l = s.network.backlog? l) →
      Does device s a { s with network } {}

variable {device : Address} {t : Config.Tuning} {s s' : Reception} {a : Act} {e : Effect}
  {ms ns : List Moment} {n' : Memory.Network} {act : Server.Act} {server : Server}
  {se : Server.Effect} {l l' : ListenerId} {x : StreamId} {m : Moment}
  {c : Option (StreamId × Address)} {q : List (StreamId × Address)}

/-! ## What can be done -/

theorem mem_letGo {before after : List Nat} : l ∈ letGo before after ↔ l ∈ before ∧ l ∉ after := by
  simp [letGo]

theorem does_of_perform (h : s.perform device a = some (s', e)) : Does device s a s' e := by
  cases a with
  | server act =>
      obtain ⟨hn, h⟩ := Option.ite_none_left_eq_some.mp h
      obtain ⟨⟨server, se⟩, hp, he⟩ := Option.map_eq_some_iff.mp h
      cases he
      simp only [Bool.or_eq_true, Option.isSome_iff_ne_none, not_or, ne_eq, not_not] at hn
      exact .serve (.plain hn.1 hn.2) hp (.inl ⟨rfl, hn.1⟩)
  | answer n =>
      simp only [perform] at h
      split at h
      · rename_i c hask
        obtain ⟨⟨r, network⟩, hr, h⟩ := Option.bind_eq_some_iff.mp h
        obtain ⟨⟨server, se⟩, hp, he⟩ := Option.map_eq_some_iff.mp h
        cases he
        refine .serve ?_ hp (.inr ⟨n, r, rfl, rfl⟩)
        cases c with
        | bind channel =>
            simp only [respond] at hr
            split at hr <;> cases hr
            · exact .bind ‹_›
            · exact .plain rfl rfl
        | accept l ticks =>
            obtain ⟨⟨caller, network⟩, hacc, he⟩ := Option.map_eq_some_iff.mp hr
            cases he
            obtain ⟨st, _, _, _, hs, ht, -⟩ := Server.turn_of_perform hp
            obtain ⟨l', rfl⟩ := ht.of_stream? (x := caller.1) rfl
            rw [Server.ask_task hs] at hask
            cases hask
            exact .accept hs hacc
        | _ => cases hr
      · cases h
  | connect other t x =>
      simp only [perform] at h
      split at h
      · rename_i network hc
        cases h
        rcases s.network.connect_cases other t x with ⟨-, he⟩ | ⟨l, n', hl, hok, -, hnum, -, hb⟩
        · cases he.symm.trans hc
        · cases hok.symm.trans hc
          rw [hl, Option.any_some]
          by_cases hm : l ∈ s.server.listeners
          · rw [List.contains_iff_mem.mpr hm]
            exact .connect hl hm hc
          · rw [if_neg (by simpa using hm)]
            refine .aside fun h => ⟨hnum h, fun l' hl' _ => ?_⟩
            rw [hb, if_neg (by rintro rfl; exact hm hl')]
      · cases h
        exact .aside fun h => ⟨h, fun _ _ _ => rfl⟩
  | bind other t =>
      simp only [perform] at h
      split at h <;> cases h
      · rename_i l network hb
        refine .aside fun h => ?_
        obtain ⟨rfl, -, hnum, hb⟩ := Memory.Network.bind_eq hb h
        refine ⟨hnum, fun l _ hsome => ?_⟩
        rw [hb, if_neg (Nat.ne_of_lt (h.lt hsome))]
      · exact .aside fun h => ⟨h, fun _ _ _ => rfl⟩
  | accept l =>
      obtain ⟨hn, h⟩ := Option.ite_none_left_eq_some.mp h
      obtain ⟨⟨c, network⟩, hacc, he⟩ := Option.map_eq_some_iff.mp h
      cases he
      obtain ⟨rest, -, -, hnum, hb⟩ := Memory.Network.accept_eq hacc
      refine .aside fun h => ⟨hnum h, fun l' hl' _ => ?_⟩
      rw [hb, if_neg (by rintro rfl; exact hn (by simpa using hl'))]
  | drop l =>
      obtain ⟨hn, h⟩ := Option.ite_none_left_eq_some.mp h
      cases h
      obtain ⟨-, hnum, hb⟩ := s.network.drop_snd l
      refine .aside fun h => ⟨hnum h, fun l' hl' _ => ?_⟩
      rw [hb, if_neg (by rintro rfl; exact hn (by simpa using hl'))]

/-! ## Callers are taken from the front -/

/-- A server goes on with what the network supplies, which is the first in line at most. -/
structure Shifts (s : Reception) (act : Server.Act) (server : Server) (n' : Memory.Network)
    (c : Option (StreamId × Address)) : Prop where
  stream : act.stream? = c.map (·.1)
  numbered : n'.Numbered
  old : ∀ l ∈ s.server.listeners,
    ∃ q, n'.backlog? l = some q ∧ s.network.backlog? l = some (c.toList ++ q)
  new : ∀ l ∈ server.listeners, l ∈ s.server.listeners ∨ n'.backlog? l = some []
  held : c.isSome = true → ∃ l, l ∈ s.server.listeners

/-- What is known of the callers at each time. -/
structure Keeps (t : Config.Tuning) (ms : List Moment) (s : Reception) : Prop where
  run : (Server.machine t).Run (serverMoments ms) s.server
  numbered : s.network.Numbered
  live : ∀ l ∈ s.server.listeners, ∃ q, s.network.backlog? l = some q
  order : (Server.handed (serverMoments ms)).Sublist (queued ms)
  line : ∀ {l q}, l ∈ s.server.listeners → s.network.backlog? l = some q →
    (Server.handed (serverMoments ms) ++ q.map (·.1)).Sublist (queued ms)
  once : (queued ms).Nodup
  opened : ∀ x ∈ queued ms, x ∈ ms.filterMap (·.act.stream?)
  found : ∀ x ∈ queued ms, s.Waits x ∨ x ∈ Server.handed (serverMoments ms) ∨ x ∈ dropped ms
  gone : ∀ x ∈ dropped ms, x ∈ queued ms ∧ x ∉ Server.handed (serverMoments ms) ∧ ¬ s.Waits x

theorem shifts_of_supplies (h : Keeps t ms s) (hsup : Supplies device s act n')
    (hp : s.server.perform act = some (server, se)) : ∃ c, Shifts s act server n' c := by
  have before : ∀ {l}, l ∈ server.listeners → l ∈ s.server.listeners ∨ act.listener? = some l :=
    Server.listeners_before h.run hp (Server.sound_perform (Server.sound_of_run h.run) hp)
  cases hsup with
  | plain hx hl =>
      refine ⟨none, hx, h.numbered, fun l hm => ?_, fun l hm => ?_, nofun⟩
      · obtain ⟨q, hq⟩ := h.live l hm
        exact ⟨q, hq, hq⟩
      · refine .inl ((before hm).resolve_right ?_)
        simp [hl]
  | @bind n l₀ _ channel hb =>
      obtain ⟨rfl, -, hnum, hb⟩ := Memory.Network.bind_eq hb h.numbered
      refine ⟨none, rfl, hnum, fun l hm => ?_, fun l hm => ?_, nofun⟩
      · obtain ⟨q, hq⟩ := h.live l hm
        refine ⟨q, ?_, hq⟩
        rw [hb, if_neg (Nat.ne_of_lt (h.numbered.lt (by simp [hq]))), hq]
      · refine (before hm).imp_right fun he => ?_
        obtain rfl : s.network.nextListener = l := Option.some.inj he
        rw [hb, if_pos rfl]
  | @accept n l₀ c _ hs hacc =>
      have hm₀ : l₀ ∈ s.server.listeners :=
        (Server.mem_listeners (Server.sound_of_run h.run)).mpr (.inr ⟨n, _, hs, rfl⟩)
      obtain ⟨rest, hq, -, hnum, hb⟩ := Memory.Network.accept_eq hacc
      refine ⟨some c, rfl, hnum h.numbered, fun l hm => ?_, fun l hm => ?_, fun _ => ⟨l₀, hm₀⟩⟩
      · obtain rfl := Server.listeners_sole h.run hm₀ hm
        exact ⟨rest, by rw [hb, if_pos rfl], hq⟩
      · exact .inl ((before hm).resolve_right nofun)

theorem serverMoments_append : serverMoments (ms ++ ns) = serverMoments ms ++ serverMoments ns := by
  simp [serverMoments]

theorem queued_snoc {k : Moment} : queued (ms ++ [k]) = queued ms ++ k.effect.queued.toList := by
  cases hk : k.effect.queued <;> simp [queued, hk]

theorem dropped_snoc {k : Moment} : dropped (ms ++ [k]) = dropped ms ++ k.effect.dropped := by
  simp [dropped]

theorem Shifts.handed_snoc (hc : Shifts s act server n' c) :
    Server.handed (serverMoments ms ++ [⟨s.server, act, server, se⟩]) =
      Server.handed (serverMoments ms) ++ c.toList.map (·.1) := by
  rw [Server.handed_snoc, hc.stream]
  cases c <;> rfl

/-- In each line that is left, whoever was handed over comes first. -/
theorem Shifts.line (hc : Shifts s act server n' c) (h : Keeps t ms s) (hl : l ∈ s.server.listeners)
    (hq : n'.backlog? l = some q) :
    (Server.handed (serverMoments ms) ++ c.toList.map (·.1) ++ q.map (·.1)).Sublist (queued ms) := by
  obtain ⟨q', hq', hold⟩ := hc.old l hl
  cases hq.symm.trans hq'
  simpa using h.line hl hold

theorem Shifts.order (hc : Shifts s act server n' c) (h : Keeps t ms s) :
    (Server.handed (serverMoments ms) ++ c.toList.map (·.1)).Sublist (queued ms) := by
  cases c with
  | none => simpa using h.order
  | some c =>
      obtain ⟨l, hl⟩ := hc.held rfl
      obtain ⟨q, hq, -⟩ := hc.old l hl
      exact (List.sublist_append_left _ _).trans (hc.line h hl hq)

/-- Nobody is handed over twice. -/
theorem Shifts.allowed (hc : Shifts s act server n' c) (h : Keeps t ms s) :
    (Server.machine t).allows (serverMoments ms) act = true := by
  change act.stream?.all (!(Server.handed (serverMoments ms)).contains ·) = true
  rw [hc.stream]
  cases c with
  | none => rfl
  | some c =>
      have hd := List.disjoint_of_nodup_append ((hc.order h).nodup h.once)
      simpa using fun hx => hd hx (List.mem_singleton_self _)

/-- Whoever is still in line was so before, and was not taken. -/
theorem Shifts.behind (hc : Shifts s act server n' c) (h : Keeps t ms s) (hl : l ∈ s.server.listeners)
    (hq : n'.backlog? l = some q) (hx : x ∈ q.map (·.1)) :
    x ∈ queued ms ∧ x ∉ Server.handed (serverMoments ms) ++ c.toList.map (·.1) ∧ s.Waits x := by
  have hline := hc.line h hl hq
  obtain ⟨q', hq', hold⟩ := hc.old l hl
  cases hq.symm.trans hq'
  refine ⟨hline.subset (List.mem_append_right _ hx), fun hx' => ?_, l, hl, _, hold, ?_⟩
  · exact (List.nodup_append.mp (hline.nodup h.once)).2.2 x hx' x hx rfl
  · rw [List.map_append]
    exact List.mem_append_right _ hx

theorem Shifts.front (hc : Shifts s act server n' c) (hx : x ∈ c.toList.map (·.1)) : s.Waits x := by
  cases c with
  | none => cases hx
  | some c =>
      obtain ⟨l, hl⟩ := hc.held rfl
      obtain ⟨q, -, hold⟩ := hc.old l hl
      exact ⟨l, hl, _, hold, by simpa using .inl (by simpa using hx)⟩

theorem Shifts.waited (hc : Shifts s act server n' c) (hx : s.Waits x) :
    x ∈ c.toList.map (·.1) ∨
      ∃ l ∈ s.server.listeners, ∃ q, n'.backlog? l = some q ∧ x ∈ q.map (·.1) := by
  obtain ⟨l, hl, q, hq, hx⟩ := hx
  obtain ⟨q', hq', hold⟩ := hc.old l hl
  cases hq.symm.trans hold
  rw [List.map_append] at hx
  exact (List.mem_append.mp hx).imp_right fun hx => ⟨l, hl, q', hq', hx⟩

theorem backlog?_dropAll (hl : l ∈ server.listeners) :
    (n'.dropAll (letGo s.server.listeners server.listeners)).2.backlog? l = n'.backlog? l := by
  obtain ⟨-, -, hback, -⟩ := n'.dropAll_spec (letGo s.server.listeners server.listeners)
  rw [hback, if_neg fun h => (mem_letGo.mp h).2 hl]

theorem Shifts.waits_iff (hc : Shifts s act server n' c) :
    Waits { server, network := (n'.dropAll (letGo s.server.listeners server.listeners)).2 } x ↔
      ∃ l ∈ server.listeners, l ∈ s.server.listeners ∧
        ∃ q, n'.backlog? l = some q ∧ x ∈ q.map (·.1) := by
  constructor
  · rintro ⟨l, hl, q, hq, hx⟩
    have hq := (backlog?_dropAll hl).symm.trans hq
    refine ⟨l, hl, (hc.new l hl).resolve_right fun hnil => ?_, q, hq, hx⟩
    cases hq.symm.trans hnil
    cases hx
  · rintro ⟨l, hl, -, q, hq, hx⟩
    exact ⟨l, hl, q, (backlog?_dropAll hl).trans hq, hx⟩

/-- Whoever is in line at a listener that the server lets go of is dropped. -/
theorem mem_dropped_serve {k : Moment} (hk : k.effect.dropped =
      (n'.dropAll (letGo s.server.listeners server.listeners)).1.map (·.1)) :
    x ∈ dropped (ms ++ [k]) ↔ x ∈ dropped ms ∨ ∃ l ∈ s.server.listeners, l ∉ server.listeners ∧
      ∃ q, n'.backlog? l = some q ∧ x ∈ q.map (·.1) := by
  obtain ⟨-, -, -, hgone⟩ := n'.dropAll_spec (letGo s.server.listeners server.listeners)
  rw [dropped_snoc, hk]
  simp only [List.mem_append, List.mem_map, hgone, mem_letGo]
  grind

theorem Keeps.serve (h : Keeps t ms s) (hsup : Supplies device s act n')
    (hp : s.server.perform act = some (server, se))
    (hs' : s' = { server, network := (n'.dropAll (letGo s.server.listeners server.listeners)).2 })
    (he : e = { server := some (act, se), dropped :=
      (n'.dropAll (letGo s.server.listeners server.listeners)).1.map (·.1) }) :
    Keeps t (ms ++ [⟨s, a, s', e⟩]) s' := by
  obtain ⟨c, hc⟩ := shifts_of_supplies h hsup hp
  subst hs'
  have hm : ∀ network, serverMoments (ms ++ [⟨s, a, { server, network }, e⟩]) =
      serverMoments ms ++ [⟨s.server, act, server, se⟩] := by
    intro network
    rw [serverMoments_append, he]
    rfl
  have hq : ∀ network, queued (ms ++ [⟨s, a, { server, network }, e⟩]) = queued ms := by
    intro network
    rw [queued_snoc, he]
    exact List.append_nil _
  have hh : Server.handed (serverMoments ms ++ [⟨s.server, act, server, se⟩]) = _ := hc.handed_snoc
  refine ⟨?run, (n'.dropAll_spec _).2.1 hc.numbered, ?live, ?order, ?line, hq _ ▸ h.once, ?opened, ?found,
    ?gone⟩
  case run =>
    rw [hm]
    exact h.run.next (hc.allowed h) hp
  case live =>
    intro l hl
    rw [backlog?_dropAll hl]
    rcases hc.new l hl with hl | hl
    · obtain ⟨q, hq, -⟩ := hc.old l hl
      exact ⟨q, hq⟩
    · exact ⟨_, hl⟩
  case order =>
    rw [hm, hq, hh]
    exact hc.order h
  case line =>
    intro l q hl hq'
    have hq' := (backlog?_dropAll hl).symm.trans hq'
    rw [hm, hq, hh]
    rcases hc.new l hl with hl | hnil
    · exact hc.line h hl hq'
    · cases hq'.symm.trans hnil
      simpa using hc.order h
  case opened =>
    intro x hx
    rw [List.filterMap_append]
    exact List.mem_append_left _ (h.opened x (hq _ ▸ hx))
  case found =>
    intro x hx
    rw [hm, hh, mem_dropped_serve (congrArg Effect.dropped he), hc.waits_iff]
    rcases h.found x (hq _ ▸ hx) with hw | hx | hx
    · rcases hc.waited hw with hx | ⟨l, hl, q, hq', hx⟩
      · exact .inr (.inl (List.mem_append_right _ hx))
      · by_cases hl' : l ∈ server.listeners
        · exact .inl ⟨l, hl', hl, q, hq', hx⟩
        · exact .inr (.inr (.inr ⟨l, hl, hl', q, hq', hx⟩))
    · exact .inr (.inl (List.mem_append_left _ hx))
    · exact .inr (.inr (.inl hx))
  case gone =>
    intro x hx
    rw [hm, hq, hh, hc.waits_iff]
    rcases (mem_dropped_serve (congrArg Effect.dropped he)).mp hx with hx | ⟨l, hl, hl', q, hq', hx⟩
    · obtain ⟨h₁, h₂, h₃⟩ := h.gone x hx
      refine ⟨h₁, fun hx' => ?_, ?_⟩
      · exact (List.mem_append.mp hx').elim h₂ fun hx' => h₃ (hc.front hx')
      · rintro ⟨l, -, hl, q, hq', hx'⟩
        exact h₃ (hc.behind h hl hq' hx').2.2
    · obtain ⟨h₁, h₂, -⟩ := hc.behind h hl hq' hx
      refine ⟨h₁, h₂, ?_⟩
      rintro ⟨l₂, hl₂, hl₂', -⟩
      exact hl' (Server.listeners_sole h.run hl hl₂' ▸ hl₂)

/-- Somebody may get in line, at the end. -/
theorem Keeps.join {network : Memory.Network} {c : Option (StreamId × Address)} (h : Keeps t ms s)
    (hnum : network.Numbered)
    (hback : ∀ l ∈ s.server.listeners, ∀ q, s.network.backlog? l = some q →
      network.backlog? l = some (q ++ c.toList))
    (hlive : c.isSome = true → ∃ l, l ∈ s.server.listeners)
    (hx : ∀ x, c.map (·.1) = some x → a.stream? = some x ∧ x ∉ ms.filterMap (·.act.stream?)) :
    Keeps t (ms ++ [⟨s, a, { s with network }, { queued := c.map (·.1) }⟩])
      { s with network } := by
  have hm : serverMoments (ms ++ [⟨s, a, { s with network }, { queued := c.map (·.1) }⟩]) =
      serverMoments ms := by
    rw [serverMoments_append]
    exact List.append_nil _
  have hq : queued (ms ++ [⟨s, a, { s with network }, { queued := c.map (·.1) }⟩]) =
      queued ms ++ (c.map (·.1)).toList := queued_snoc
  have hd : dropped (ms ++ [⟨s, a, { s with network }, { queued := c.map (·.1) }⟩]) =
      dropped ms := by
    rw [dropped_snoc]
    exact List.append_nil _
  have hwaits : ∀ x, ({ s with network } : Reception).Waits x ↔ s.Waits x ∨ c.map (·.1) = some x := by
    intro x
    constructor
    · rintro ⟨l, hl, q, hq, hx⟩
      obtain ⟨q', hq'⟩ := h.live l hl
      cases hq.symm.trans (hback l hl q' hq')
      rw [List.map_append] at hx
      rcases List.mem_append.mp hx with hx | hx
      · exact .inl ⟨l, hl, q', hq', hx⟩
      · exact .inr (by cases c <;> simp_all)
    · rintro (⟨l, hl, q, hq, hx⟩ | hx)
      · refine ⟨l, hl, _, hback l hl q hq, ?_⟩
        rw [List.map_append]
        exact List.mem_append_left _ hx
      · cases c with
        | none => cases hx
        | some c =>
            obtain ⟨l, hl⟩ := hlive rfl
            obtain ⟨q, hq⟩ := h.live l hl
            exact ⟨l, hl, _, hback l hl q hq, by simpa using .inr (Option.some.inj hx).symm⟩
  have hnew : ∀ x, c.map (·.1) = some x → x ∉ queued ms := fun x hc hx' =>
    (hx x hc).2 (h.opened x hx')
  refine ⟨hm ▸ h.run, hnum, fun l hl => ?_, ?_, fun {l q} hl hq' => ?_, ?_, fun x hx' => ?_,
    fun x hx' => ?_, fun x hx' => ?_⟩
  · obtain ⟨q, hq⟩ := h.live l hl
    exact ⟨_, hback l hl q hq⟩
  · rw [hm, hq]
    exact h.order.trans (List.sublist_append_left _ _)
  · obtain ⟨q₀, hq₀⟩ := h.live l hl
    cases hq'.symm.trans (hback l hl q₀ hq₀)
    rw [hm, hq, List.map_append, ← List.append_assoc]
    refine (h.line hl hq₀).append ?_
    cases c <;> exact List.Sublist.refl _
  · rw [hq, List.nodup_append]
    refine ⟨h.once, by cases c <;> simp, ?_⟩
    rintro x hx' y hy rfl
    exact hnew x (by simpa using hy) hx'
  · rw [List.filterMap_append]
    rcases List.mem_append.mp (hq ▸ hx') with hx' | hx'
    · exact List.mem_append_left _ (h.opened x hx')
    · refine List.mem_append_right _ ?_
      simpa using (hx x (by simpa using hx')).1
  · rw [hm, hd, hwaits]
    rcases List.mem_append.mp (hq ▸ hx') with hx' | hx'
    · exact (h.found x hx').imp_left .inl
    · exact .inl (.inr (by simpa using hx'))
  · rw [hm, hq, hwaits]
    obtain ⟨h₁, h₂, h₃⟩ := h.gone x (hd ▸ hx')
    exact ⟨List.mem_append_left _ h₁, h₂, fun hw => hw.elim h₃ fun hc => hnew x hc h₁⟩

theorem keeps_of_run (h : (machine device t).Run ms s) : Keeps t ms s := by
  induction h with
  | start =>
      exact ⟨.start, nofun, nofun, List.nil_sublist _, nofun, List.nodup_nil, nofun, nofun, nofun⟩
  | @next ms s a s' e hr ha hp ih =>
      cases does_of_perform hp with
      | serve hsup hp' => exact ih.serve hsup hp' rfl rfl
      | @connect other target x l network hl hm hc =>
          rcases s.network.connect_cases other target x with
            ⟨-, he⟩ | ⟨l', _, hl', hok, -, hnum, -, hb⟩
          · cases he.symm.trans hc
          · cases hok.symm.trans hc
            cases hl.symm.trans hl'
            refine ih.join (c := some (x, other)) (hnum ih.numbered) (fun l' hm' q hq => ?_)
              (fun _ => ⟨l, hm⟩) ?_
            · obtain rfl := Server.listeners_sole ih.run hm hm'
              rw [hb, if_pos rfl, hq]
              rfl
            · rintro _ ⟨⟩
              exact ⟨rfl, by simpa [machine, Act.stream?] using ha⟩
      | aside hn =>
          obtain ⟨hnum, hb⟩ := hn ih.numbered
          refine ih.join (c := none) hnum (fun l hl q hq => ?_) nofun nofun
          rw [hb l hl (by simp [hq]), hq]
          simp

/-! ## A caller is at one place -/

theorem settled_of_at (h : Keeps t ms s) {p : Place} (ha : At ms s x p) :
    p = .waiting ∧ s.Waits x ∨ p = .gone ∧ x ∈ dropped ms ∨
      x ∈ Server.handed (serverMoments ms) ∧
        (p = .accepting ∧ (∃ n, s.server.callers n = some x) ∨ p = .attached ∧ s.server.Attached x ∨
          p = .gone ∧ Server.Left (serverMoments ms) x) := by
  have taken := (Server.settled_of_run h.run).taken x
  cases ha with
  | waiting hx => exact .inl ⟨rfl, hx⟩
  | dropped hx => exact .inr (.inl ⟨rfl, hx⟩)
  | accepting hn => exact .inr (.inr ⟨taken.mpr (.inl ⟨_, hn⟩), .inl ⟨rfl, _, hn⟩⟩)
  | attached hx => exact .inr (.inr ⟨taken.mpr (.inr (.inl hx)), .inr (.inl ⟨rfl, hx⟩)⟩)
  | left hx => exact .inr (.inr ⟨taken.mpr (.inr (.inr hx)), .inr (.inr ⟨rfl, hx⟩)⟩)

theorem not_handed_of_waits (h : Keeps t ms s) (hw : s.Waits x) :
    x ∉ Server.handed (serverMoments ms) := by
  obtain ⟨l, hl, q, hq, hx⟩ := hw
  exact fun hx' => (List.nodup_append.mp ((h.line hl hq).nodup h.once)).2.2 x hx' x hx rfl

theorem at_unique (h : Keeps t ms s) {p p' : Place} (ha : At ms s x p) (ha' : At ms s x p') :
    p = p' := by
  have hset := Server.settled_of_run h.run
  have apart : ∀ {n}, s.server.callers n = some x → ¬ s.server.Attached x := fun hn hat => by
    cases ((Server.no_callers h.run (Server.not_closed_of_attached h.run hat)).2 hat.1 _).symm.trans hn
  have handed := @not_handed_of_waits t s ms x h
  rcases settled_of_at h ha with ⟨rfl, hx⟩ | ⟨rfl, hx⟩ | ⟨hh, hx⟩ <;>
    rcases settled_of_at h ha' with ⟨rfl, hx'⟩ | ⟨rfl, hx'⟩ | ⟨hh', hx'⟩
  · rfl
  · exact absurd hx (h.gone x hx').2.2
  · exact absurd hh' (handed hx)
  · exact absurd hx' (h.gone x hx).2.2
  · rfl
  · exact absurd hh' (h.gone x hx).2.1
  · exact absurd hh (handed hx')
  · exact absurd hh (h.gone x hx').2.1
  · rcases hx with ⟨rfl, n, hn⟩ | ⟨rfl, hx⟩ | ⟨rfl, hx⟩ <;>
      rcases hx' with ⟨rfl, n', hn'⟩ | ⟨rfl, hx'⟩ | ⟨rfl, hx'⟩
    · rfl
    · exact absurd hx' (apart hn)
    · exact absurd hn ((hset.gone hx').1 n)
    · exact absurd hx (apart hn')
    · rfl
    · exact absurd hx (hset.gone hx').2
    · exact absurd hn' ((hset.gone hx).1 n')
    · exact absurd hx' (hset.gone hx).2
    · rfl

theorem at_one_place (h : Keeps t ms s) (hx : x ∈ queued ms) : ∃! p, At ms s x p := by
  have hplace : ∃ p, At ms s x p := by
    rcases h.found x hx with hw | hh | hd
    · exact ⟨_, .waiting hw⟩
    · rcases ((Server.settled_of_run h.run).taken x).mp hh with ⟨n, hn⟩ | hat | hleft
      · exact ⟨_, .accepting hn⟩
      · exact ⟨_, .attached hat⟩
      · exact ⟨_, .left hleft⟩
    · exact ⟨_, .dropped hd⟩
  obtain ⟨p, hp⟩ := hplace
  exact ⟨p, hp, fun p' hp' => at_unique h hp' hp⟩

/-! ## Nobody leaves the line but the first -/

/-- No job fails because a wait for a caller ends or fails. -/
theorem not_failed_of_breaks {w : Worker} {r : Reply} {error : Error}
    (h : s.server.perform (.step w r) = some (server, se))
    (hr : r = .elapsed ∨ ∃ f, r = .accepted (.error f)) :
    se.report.outcome ≠ some (.failed error) := by
  have hgo : r ≠ .go := by rcases hr with rfl | ⟨f, rfl⟩ <;> nofun
  cases w with
  | write n =>
      obtain ⟨⟨s₁, out⟩, hr', -⟩ := Option.map_eq_some_iff.mp h
      obtain ⟨⟨link, result⟩, hw, -⟩ := Option.map_eq_some_iff.mp hr'
      rcases Link.reply_of_resumeWrite hw with rfl | ⟨_, rfl⟩ | ⟨_, rfl⟩ <;>
        rcases hr with hr | ⟨_, hr⟩ <;> cases hr
  | task n =>
      obtain ⟨st, s₁, next, out, -, ht, -, rfl⟩ := Server.turn_of_perform h
      cases ht with
      | stumble | welcome => simp [Server.emit_outcome]
      | losing hrel | releasing hrel | released hrel => simp [hrel.outcome]
      | report hread =>
          rcases Link.reply_of_resumeReading hread with rfl | ⟨_, rfl⟩
          · exact absurd rfl hgo
          · rcases hr with hr | ⟨_, hr⟩ <;> cases hr
      | undone hw =>
          cases hw with
          | skip => exact absurd rfl hgo
          | withdrawn => rcases hr with hr | ⟨_, hr⟩ <;> cases hr
      | notBound | notRegistered | die => rcases hr with hr | ⟨_, hr⟩ <;> cases hr
      | _ => nofun

theorem allows_of_serve (h : (machine device t).Run (ms ++ [⟨s, a, s', e⟩]) s')
    (he : e.server = some (act, se)) : (Server.machine t).allows (serverMoments ms) act = true := by
  have hrun := (keeps_of_run h).run
  rw [serverMoments_append, show serverMoments [⟨s, a, s', e⟩] =
    [⟨s.server, act, s'.server, se⟩] by simp [serverMoments, he]] at hrun
  exact hrun.unsnoc.2.1

/-- Whoever is in line stays there until it is the first and taken, or the server lets go of the
listener for good. -/
theorem leaves_line (h : (machine device t).Run (ms ++ [m]) s) (hx : m.before.Waits x) :
    m.after.Waits x ∨ Takes m x ∨ x ∈ m.effect.dropped ∧ Ends m := by
  obtain ⟨hr, -, hp, rfl⟩ := h.unsnoc
  obtain ⟨s, a, s', e⟩ := m
  have hk : Keeps t ms s := keeps_of_run hr
  change s.perform device a = some (s', e) at hp
  obtain ⟨l, hl, q, hq, hx⟩ : s.Waits x := hx
  cases does_of_perform hp with
  | @serve _ act n' server se hsup hp' hact =>
      obtain ⟨c, hc⟩ := shifts_of_supplies hk hsup hp'
      obtain ⟨-, -, -, hgone⟩ := n'.dropAll_spec (letGo s.server.listeners server.listeners)
      obtain ⟨q', hq', hold⟩ := hc.old l hl
      cases hq.symm.trans hold
      rw [List.map_append] at hx
      rcases List.mem_append.mp hx with hx | hx
      · -- It is the one that the network supplies.
        obtain ⟨address, rfl⟩ : ∃ address, c = some (x, address) := by
          obtain ⟨⟨y, address⟩, hc, rfl⟩ := List.mem_map.mp hx
          exact ⟨address, Option.mem_toList.mp hc⟩
        have hstream := hc.stream
        rcases hact with ⟨-, hnone⟩ | ⟨n, r, rfl, rfl⟩
        · cases hnone.symm.trans hstream
        · cases hsup with
          | plain hnone => cases hnone.symm.trans hstream
          | bind => cases hstream
          | @accept _ l₀ c₀ _ hs hacc =>
              have hS := Server.sound_of_run hk.run
              obtain ⟨st, s₁, next, out, hs', ht, rfl, -⟩ := Server.turn_of_perform hp'
              cases hs.symm.trans hs'
              have hl₀ : l₀ ∈ s.server.listeners := (Server.mem_listeners hS).mpr (.inr ⟨n, _, hs, rfl⟩)
              obtain rfl := Server.listeners_sole hk.run hl₀ hl
              obtain ⟨rest, hb, -⟩ := Memory.Network.accept_eq hacc
              cases hold.symm.trans hb
              refine .inr (.inl ⟨n, l₀, address, q', rfl, hs, hold, ?_⟩)
              have mine := ht.mine hS hs
              cases ht with
              | accept => exact mine
              | look hlook => cases hlook
      · by_cases hl' : l ∈ server.listeners
        · exact .inl ⟨l, hl', q', (backlog?_dropAll hl').trans hq', hx⟩
        · refine .inr (.inr ⟨?_, ?_⟩)
          · obtain ⟨p, hpq, rfl⟩ := List.mem_map.mp hx
            exact List.mem_map.mpr ⟨p, (hgone p).mpr ⟨l, mem_letGo.mpr ⟨hl, hl'⟩, q', hq', hpq⟩, rfl⟩
          · by_cases hcl : server.phase = .closed
            · exact .inl hcl
            · obtain ⟨error, he⟩ := (Server.listeners_after hk.run (allows_of_serve h rfl) hp' hcl
                hl).resolve_left hl'
              exact .inr ⟨_, _, error, rfl, he⟩
  | @connect other target y l' network hl' hm hc =>
      rcases s.network.connect_cases other target y with
        ⟨-, he⟩ | ⟨_, _, hto, hok, -, -, -, hb⟩
      · cases he.symm.trans hc
      · cases hok.symm.trans hc
        cases hl'.symm.trans hto
        obtain rfl := Server.listeners_sole hk.run hm hl
        refine .inl ⟨l', hl, q ++ [(y, other)], by rw [hb, if_pos rfl, hq]; rfl, ?_⟩
        rw [List.map_append]
        exact List.mem_append_left _ hx
  | aside hn =>
      obtain ⟨-, hb⟩ := hn hk.numbered
      exact .inl ⟨l, hl, q, (hb l hl (by simp [hq])).trans hq, hx⟩

theorem network_of_breaks (h : (machine device t).Run (ms ++ [m]) s) (hb : Breaks m)
    (hopen : m.before.server.phase ≠ .closed) : m.after.network = m.before.network := by
  obtain ⟨hr, -, hp, rfl⟩ := h.unsnoc
  obtain ⟨s, a, s', e⟩ := m
  have hk : Keeps t ms s := keeps_of_run hr
  change s.perform device a = some (s', e) at hp
  obtain ⟨w, r, rfl, hb⟩ : ∃ w r, a = .server (.step w r) ∧ _ := hb
  obtain ⟨-, hp⟩ := Option.ite_none_left_eq_some.mp hp
  obtain ⟨⟨server, se⟩, hserve, he⟩ := Option.map_eq_some_iff.mp hp
  cases he
  have hphase : server.phase ≠ .closed := fun hc => by
    obtain ⟨background, h | h⟩ := (Server.does_of_perform hserve).closes hopen hc <;> cases h
  have hkept : letGo s.server.listeners server.listeners = [] := by
    rw [List.eq_nil_iff_forall_not_mem]
    intro l hl
    obtain ⟨hl, hl'⟩ := mem_letGo.mp hl
    rcases Server.listeners_after hk.run (allows_of_serve h rfl) hserve hphase hl with hl | ⟨error, he⟩
    · exact hl' hl
    · exact not_failed_of_breaks hserve hb he
  change (s.network.dropAll (letGo s.server.listeners server.listeners)).2 = s.network
  rw [hkept]
  rfl

/-- Nobody who connected is lost. -/
theorem callers_kept (h : (machine device t).Run ms s) :
    (∀ x ∈ queued ms, ∃! p, At ms s x p) ∧
    (queued ms).Nodup ∧ (attached ms).Sublist (queued ms) ∧
    ∀ as m bs, ms = as ++ m :: bs →
      (∀ x, m.before.Waits x → m.after.Waits x ∨ Takes m x ∨ x ∈ m.effect.dropped ∧ Ends m) ∧
      (Breaks m → m.before.server.phase ≠ .closed → m.after.network = m.before.network) := by
  have hk := keeps_of_run h
  refine ⟨fun x => at_one_place hk, hk.once,
    (Server.settled_of_run hk.run).order.trans hk.order, ?_⟩
  rintro as m bs rfl
  have hm := h.moment.2.2.2
  exact ⟨fun x => leaves_line hm, network_of_breaks hm⟩

/-- Three callers. While they connect, a wait for one ends and another fails; then the first was the
client, and the second is taken. -/
theorem three_callers_kept : ∃ ms s, (machine .any {}).Run ms s ∧ (∃ m ∈ ms, Breaks m) ∧
    queued ms = [5, 6, 7] ∧ attached ms = [5] ∧ At ms s 6 .accepting ∧ At ms s 7 .waiting ∧
    ∀ x ∈ queued ms, ∃! p, At ms s x p := by
  let target : Target := ⟨.any, 3⟩
  obtain ⟨ms, s, hp, hs⟩ := (machine .any {}).exists_of_play
    ([.server (.listen ⟨"1101", 3, ""⟩), .answer 0, .server (.step (.task 0) (.registered (.ok 0))),
      .server (.step (.task 0) .go), .server (.step (.task 1) .go), .connect .any target 5] ++
      .server (.step (.task 1) .elapsed) ::
      [.connect .any target 6, .server (.step (.task 1) (.accepted (.error (.bare .connectionRefused)))),
      .connect .any target 7, .server (.step (.task 1) .elapsed), .answer 1,
      .server (.step (.task 1) .go), .server (.step (.task 1) .withdrawn),
      .server (.step (.task 1) .go), .server (.step (.task 1) .go), .server .disconnectClient,
      .server (.step (.task 2) .go), .server (.step (.task 2) .go), .server (.step (.task 2) .go),
      .server (.step (.task 2) .shutDown), .server (.step (.task 2) .go),
      .server (.step (.task 2) (.registered (.ok 1))), .server (.step (.task 3) .go), .answer 3])
    (fun ms s => queued ms = [5, 6, 7] ∧ attached ms = [5] ∧ s.server.callers 3 = some 6 ∧
      s.server.listeners = [0] ∧ s.network.backlog? 0 = some [(7, .any)]) (by decide +kernel)
  obtain ⟨hq, ha, hc, hl, hb⟩ := of_decide_eq_true hs
  have hrun := Machine.run_of_play hp
  obtain ⟨ls, m, ns, rfl, hbreak, -⟩ := Machine.moment_of_play hp
  exact ⟨_, s, hrun, ⟨m, by simp, _, _, hbreak, .inl rfl⟩, hq, ha, .accepting hc,
    .waiting ⟨0, by simp [hl], _, hb, by simp⟩, (callers_kept hrun).1⟩

end Reception

end Rfcomm
