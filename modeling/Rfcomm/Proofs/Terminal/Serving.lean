import Rfcomm.Proofs.Terminal.Switchboard
/-!
The main loop of a switchboard, and whole runs. Every client is read from the moment on at which the
main loop takes the event that announced it, and all that is read is shown before the next read starts.
-/
namespace Rfcomm.Switchboard

open Terminal (Actor Line Proceeds Fetches)
open Server (NoNews)

/-- All that was read of the callers is shown, in the order in which they came, but for the end of what
was read of the last one. -/
structure Shows (b : Switchboard) (unshown : Bytes) : Prop where
  fresh : ∀ x, x ∉ b.accepted → (b.sources x).read = []
  nodup : b.accepted.Nodup
  screen : b.screen ++ unshown = (b.accepted.map fun x => (b.sources x).read).flatten
  last : unshown ≠ [] → ∃ x, b.accepted.getLast? = some x ∧ unshown <:+ (b.sources x).read

/-- A server with these settings that was not closed. -/
structure Fit (tuning : Config.Tuning) (s : Server) : Prop where
  sound : s.Sound
  serves : ∃ v, s.Serves v
  posts : s.Posts
  tuning : s.tuning = tuning

/-- There is no server yet. -/
structure Early (tuning : Config.Tuning) (told : Server.Client → Prop) (b : Switchboard) : Prop where
  endpoint : b.terminal.endpoint = none
  read : b.terminal.read = none
  stage : b.terminal.stage = .opening ∨ ∃ p, b.terminal.stage = .preparing p
  tuning : b.terminal.config.link = tuning
  shown : b.shown = 0
  told : ∀ c, ¬ told c
  shows : Shows b []

structure Hosting (tuning : Config.Tuning) (told : Server.Client → Prop) (b : Switchboard) (s : Server)
    (unshown : Bytes) : Prop where
  endpoint : b.terminal.endpoint = some (.server s)
  fit : Fit tuning s
  stands : Standing b.terminal s b.accepted.getLast? told b.shown unshown
  shows : Shows b unshown
  old : ∀ c, told c → c.generation ≤ s.generation

/-- How far a switchboard is. -/
inductive Course (tuning : Config.Tuning) (told : Server.Client → Prop) (b : Switchboard) : Prop
  | early : Early tuning told b → Course tuning told b
  | hosting {s unshown} : Hosting tuning told b s unshown → Course tuning told b
  | ended {unshown} : b.terminal.isOver = true → Shows b unshown → Course tuning told b

variable {tuning : Config.Tuning} {b b' : Switchboard} {t t' : Terminal} {s s' : Server} {last : Option StreamId}
  {told told' : Server.Client → Prop} {shown n : Nat} {u bytes : Bytes} {c : Server.Client}
  {r : Terminal.Reply} {lines : List Line} {x : StreamId} {a : Act}

/-! ## The screen -/

theorem Shows.congr (h : Shows b u) (ha : b'.accepted = b.accepted) (hscreen : b'.screen = b.screen)
    (hread : ∀ x, (b'.sources x).read = (b.sources x).read) : Shows b' u where
  fresh x hx := (hread x).trans (h.fresh x (ha ▸ hx))
  nodup := ha ▸ h.nodup
  screen := by simp only [ha, hscreen, hread, h.screen]
  last hu := by simpa only [ha, hread] using h.last hu

theorem Shows.later {source : Source} (h : Shows b u) (hs : (b.sources x).Later source) :
    Shows { b with sources := Function.update b.sources x source } u := by
  refine h.congr rfl rfl fun y => ?_
  by_cases hy : y = x
  · subst hy
    simpa using hs.read
  · simp [hy]

theorem Shows.accept (h : Shows b []) (hx : x ∉ b.accepted) :
    Shows { b with accepted := b.accepted ++ [x] } [] where
  fresh y hy := h.fresh y fun hm => hy (List.mem_append_left _ hm)
  nodup := by
    refine List.nodup_append.mpr ⟨h.nodup, List.nodup_singleton x, fun y hy z hz he => hx ?_⟩
    rwa [← List.mem_singleton.mp hz, ← he]
  screen := by simp [h.fresh x hx, ← h.screen]
  last hu := absurd rfl hu

theorem Shows.read {source : Source} (h : Shows b []) (hx : b.accepted.getLast? = some x)
    (ht : (b.sources x).take bytes = some source) :
    Shows { b with sources := Function.update b.sources x source } bytes := by
  obtain ⟨hr, -, -⟩ := Source.read_of_take ht
  obtain ⟨others, ho⟩ := List.getLast?_eq_some_iff.mp hx
  have hne : ∀ y ∈ others, y ≠ x := fun y hy he =>
    (List.disjoint_of_nodup_append (ho ▸ h.nodup)) hy (by simp [he])
  have hothers : (others.map fun y => (Function.update b.sources x source y).read) =
      others.map fun y => (b.sources y).read :=
    List.map_congr_left fun y hy => by rw [Function.update_of_ne (hne y hy)]
  refine ⟨fun y hy => ?_, h.nodup, ?_, fun _ => ⟨x, hx, ?_⟩⟩
  · have hyx : y ≠ x := by
      rintro rfl
      exact hy (by simp [ho])
    simpa [hyx] using h.fresh y hy
  · have hscreen := h.screen
    rw [ho, List.append_nil, List.map_append, List.flatten_append] at hscreen
    rw [ho, List.map_append, List.flatten_append, hothers, hscreen]
    simp [hr]
  · simp [hr]

theorem Shows.more {part rest : Bytes} (h : Shows b (part ++ rest)) :
    Shows { b with screen := b.screen ++ part, shown } rest where
  fresh := h.fresh
  nodup := h.nodup
  screen := by simpa using h.screen
  last hu := by
    obtain ⟨x, hx, hs⟩ := h.last (by simp [hu])
    exact ⟨x, hx, (List.suffix_append _ _).trans hs⟩

/-- What is on the screen, client by client. -/
theorem Shows.parts (h : Shows b u) : ∃ parts : List Bytes,
    List.Forall₂ (fun part x => part <+: (b.sources x).given) parts b.accepted ∧
      b.screen = parts.flatten := by
  have all : ∀ xs : List StreamId, List.Forall₂ (fun part x => part <+: (b.sources x).given)
      (xs.map fun x => (b.sources x).read) xs := fun xs => by
    induction xs with
    | nil => exact .nil
    | cons x xs ih => exact .cons (Source.read_prefix_given _) ih
  by_cases hu : u = []
  · subst hu
    exact ⟨_, all b.accepted, by simpa using h.screen⟩
  · obtain ⟨x, hx, part, hp⟩ := h.last hu
    obtain ⟨others, ho⟩ := List.getLast?_eq_some_iff.mp hx
    have hscreen := h.screen
    rw [ho, List.map_append, List.flatten_append, List.map_singleton, List.flatten_singleton, ← hp,
      ← List.append_assoc] at hscreen
    refine ⟨(others.map fun x => (b.sources x).read) ++ [part], ho ▸ ?_, ?_⟩
    · have hpart : part <+: (b.sources x).given :=
        (hp ▸ List.prefix_append part u).trans (Source.read_prefix_given _)
      exact List.rel_append (all others) (.cons hpart .nil)
    · simpa using List.append_cancel_right hscreen

/-! ## Steps of the workers -/

/-- How the surroundings answer a worker. -/
inductive Answered (b : Switchboard) (a : Rfcomm.Ask) : Rfcomm.Reply → Switchboard → Prop
  | read {x size bytes source} : a = .call (.read x size) →
      (b.sources x).take bytes = some source →
      Answered b a (.read (.ok bytes)) { b with sources := Function.update b.sources x source }
  | accepted {x address} : x ∉ b.accepted →
      Answered b a (.accepted (.ok (x, address))) { b with accepted := b.accepted ++ [x] }
  | other {reply} : (∀ bytes, reply ≠ .read (.ok bytes)) →
      (∀ p, reply ≠ .accepted (.ok p)) → Answered b a reply b

theorem answered_of_answer {ask : Rfcomm.Ask} {r : Rfcomm.Reply}
    (h : b.answer (.link ask) (.link r) = some b') : Answered b ask r b' := by
  cases r with
  | read result =>
      cases result with
      | error f => cases h; exact .other (by simp) (by simp)
      | ok bytes =>
          simp only [answer] at h
          split at h
          · rename_i he
            cases he
            obtain ⟨source, ht, rfl⟩ := Option.map_eq_some_iff.mp h
            exact .read rfl ht
          · cases h
  | accepted result =>
      cases result with
      | error f => cases h; exact .other (by simp) (by simp)
      | ok p =>
          obtain ⟨hx, h⟩ := Option.ite_none_left_eq_some.mp h
          cases h
          exact .accepted hx
  | _ => cases h; exact .other (by simp) (by simp)

theorem stream_of_ne {w : Worker} {r : Rfcomm.Reply} (h : ∀ p, r ≠ .accepted (.ok p)) :
    (Server.Act.step w r).stream? = none := by
  unfold Server.Act.stream?
  split
  · rename_i he
    cases he
    exact absurd rfl (h _)
  · rfl

/-- Whoever reads has the stream of the client. -/
theorem reading_of_ask {k : Worker} {size : Nat} (hS : s.Sound) (h : s.ask k = .call (.read x size)) :
    s.link.stream = some x ∧ ∃ n g y, k = .task n ∧ s.stage? n = some (.reading g y) := by
  obtain ⟨-, -, hx, -, n, rfl, hn⟩ := (Server.calls_of_ask h rfl).of_read hS.link
  obtain ⟨g, hs⟩ := Server.stage_of_reading hn
  exact ⟨hx, n, g, _, rfl, hs⟩

/-- Clients are numbered as they come. -/
theorem old_of_turn {id : Nat} {stage : Server.Stage} {next : Option Server.Stage}
    {out : Server.Report} {r : Rfcomm.Reply} {v : Option Server.Stage} {s₁ : Server}
    (ht : Server.Turn s id stage r s₁ next out) (hv : (s₁.place id next).Serves v)
    (hold : ∀ c, told c → c.generation ≤ s.generation)
    (htold : ∀ c, told' c ↔ told c ∨ Announces s (s₁.place id next) c) :
    ∀ c, told' c → c.generation ≤ (s₁.place id next).generation := by
  intro c hc
  rcases (htold c).mp hc with hc | ⟨-, hc, -⟩
  · have := hold c hc
    rw [Server.place_generation]
    rcases ht.client with ⟨hg, -⟩ | ⟨hg, -⟩ <;> omega
  · obtain ⟨-, y, hsv⟩ := hv.2.of_client hc
    exact Nat.le_of_eq hsv.generation

theorem Hosting.turn {r : Rfcomm.Reply} {out : Server.Report} (h : Hosting tuning told b s u)
    (hr : s.resume (.task n) r = some (s', out)) (hb : Answered b (s.ask (.task n)) r b')
    (htold : ∀ c, told' c ↔ told c ∨ Announces s s' c) :
    Hosting tuning told' { b' with terminal := b.terminal.advance (.server s') (.task n) out.outcome } s'
      (got r) := by
  obtain ⟨v, hv⟩ := h.fit.serves
  obtain ⟨st, s₁, next, out, hs, ht, rfl, he⟩ := Server.turn_of_perform (Server.perform_of_resume hr)
  cases he
  have hread : ∀ bytes, r = .read (.ok bytes) →
      s.link.stream = b.accepted.getLast? ∧ ∃ g k, st = .reading g k := by
    rintro bytes rfl
    cases hb with
    | read hask =>
        obtain ⟨-, m, g, k, hm, hk⟩ := reading_of_ask h.fit.sound hask
        cases hm
        exact ⟨h.stands.reader hk, g, k, Option.some.inj (hs.symm.trans hk)⟩
    | other hn => exact absurd rfl (hn bytes)
  obtain ⟨rfl, hshown, hstands⟩ := h.stands.turn h.fit.sound hv hs ht (fun bytes hr => (hread bytes hr).2)
    h.old htold
  obtain ⟨v', hv', -⟩ := ht.serves h.fit.sound hv hs
  have hold := old_of_turn ht hv' h.old htold
  have hfit : Fit tuning (s₁.place n next) := ⟨ht.sound h.fit.sound hs, ⟨v', hv'⟩,
    (ht.posts h.fit.posts).place, (Server.Does.turn hs ht).tuning.trans h.fit.tuning⟩
  have hshows := h.shows
  cases hb with
  | @read x size bytes source hask htake =>
      have hlast := (hread bytes rfl).1
      rw [(reading_of_ask h.fit.sound hask).1] at hlast
      exact ⟨Terminal.advance_endpoint .., hfit, hshown ▸ hstands,
        (hshows.read hlast.symm htake).congr rfl rfl fun _ => rfl, hold⟩
  | @accepted x address hx =>
      refine ⟨Terminal.advance_endpoint .., hfit, ?_,
        (hshows.accept hx).congr rfl rfl fun _ => rfl, hold⟩
      change Standing _ _ (b.accepted ++ [x]).getLast? told' b.shown _
      rw [List.getLast?_concat, hshown]
      exact hstands
  | other hn ha =>
      rw [stream_of_ne ha, Option.none_or, got_of_ne fun bytes h => absurd h (hn bytes)] at hstands
      rw [got_of_ne fun bytes h => absurd h (hn bytes)]
      exact ⟨Terminal.advance_endpoint .., hfit, hshown ▸ hstands,
        hshows.congr rfl rfl fun _ => rfl, hold⟩

theorem Fit.does {a : Server.Act} {e : Server.Effect} (h : Fit tuning s) (hd : Server.Does s a s' e)
    (hp : s'.phase = s.phase) (hposts : s'.Posts) : Fit tuning s' := by
  obtain ⟨v, hv⟩ := h.serves
  obtain ⟨v', hv', -⟩ := hd.serves h.sound hv (hp ▸ hv.2.phase)
  exact ⟨hd.sound h.sound, ⟨v', hv'⟩, hposts, hd.tuning.trans h.tuning⟩

theorem Hosting.write {r : Rfcomm.Reply} {out : Server.Report} (h : Hosting tuning told b s u)
    (hr : s.resume (.write n) r = some (s', out)) (hb : Answered b (s.ask (.write n)) r b') :
    Hosting tuning told { b' with terminal := b.terminal.advance (.server s') (.write n) out.outcome } s' u := by
  obtain ⟨⟨link, result⟩, hw, he⟩ := Option.map_eq_some_iff.mp hr
  cases he
  have hfit := h.fit.does (.send hw) rfl h.fit.posts
  have hb' : b' = b := by
    obtain ⟨_, hq, -⟩ := Option.map_eq_some_iff.mp hw
    rcases WriteQueue.reply_of_resume hq with rfl | ⟨_, rfl⟩ | ⟨_, rfl⟩ <;> cases hb <;> rfl
  subst hb'
  exact ⟨Terminal.advance_endpoint .., hfit, h.stands.write hw,
    h.shows.congr rfl rfl fun _ => rfl, h.old⟩

/-! ## Steps of the main loop -/

theorem Standing.place (h : Standing t s last told shown u) :
    Free t ∨ ∃ bytes, t.stage = .showing bytes := by
  cases h with
  | showing hs => exact .inr ⟨_, hs⟩
  | vacant hf | announced hf | unnoticed hf | reading hf | data hf | failed hf | dismissing hf =>
      exact .inl hf

theorem Standing.prepared (h : Standing t s last told shown u) :
    t.stage ≠ .opening ∧ (∀ p, t.stage ≠ .preparing p) ∧ ∀ x, t.stage ≠ .connecting x := by
  rcases h.place with (h | ⟨_, h⟩ | ⟨_, h⟩) | ⟨_, h⟩ <;> simp [h]

theorem not_news {address : Address} {rest : List Server.Event}
    (h : NoNews (.connected address :: rest)) : False := h _ (List.mem_cons_self ..) address rfl

theorem Standing.start (hs : s.Seats c last) (ha : s.Alone none) (hq : NoNews s.feed.queue)
    (ht : told c) (hS : s.Sound) (hf : Free t) (hr : t.read = some (.waiting (.task s.nextTask))) :
    Standing t (s.spawn (.reading c.generation .start)).2 last told 0 [] := by
  refine .reading (g := .start) hf hr ?_ ⟨⟨hs.client, hs.link, hs.stream⟩, ha.spawn hS, hq, ht⟩
  rw [Server.stage?_spawn hS.tidy, Function.update_self]

theorem startRead_eq (he : t.endpoint = some (.server s)) (hs : s.Seats c last) :
    t.startRead = { t with
      endpoint := some (.server (s.spawn (.reading c.generation .start)).2)
      read := some (.waiting (.task s.nextTask)) } := by
  simp [Terminal.startRead, he, Server.read, hs.client, hs.link.isOpen, Server.spawn]

theorem Standing.of_closed (h : Standing t s last told shown u)
    (hr : t.read = some (.settled .closed)) :
    Standing ({ t with read := none } : Terminal).select s last told shown u := by
  cases h with
  | vacant _ _ hc ha hq hl => exact .vacant (.inl rfl) (.none rfl) hc ha hq hl
  | announced _ _ hc ha hq ht => exact .announced (.inl rfl) (.none rfl) hc ha hq ht
  | unnoticed _ _ hc ha hq ht => exact .unnoticed (.inl rfl) (.none rfl) hc ha hq ht
  | reading _ h | data _ h | failed _ h | showing _ h | dismissing _ h => cases h.symm.trans hr

theorem Past.not_settled {o : Outcome} (h : Past t s) (ho : o ≠ .closed) :
    t.read ≠ some (.settled o) := by
  intro hr
  cases h with
  | none h | losing h => cases h.symm.trans hr
  | closed h =>
      cases h.symm.trans hr
      exact ho rfl

/-- A read of the main loop that ended with its client there. -/
theorem Standing.of_settled {o : Outcome} (h : Standing t s last told shown u)
    (hr : t.read = some (.settled o)) (ho : o ≠ .closed) :
    shown = 0 ∧ (∃ c, Attended s last told c none) ∧ (o = .data u ∨ u = [] ∧ ∃ e, o = .failed e) := by
  cases h with
  | vacant _ hp | announced _ hp | unnoticed _ hp => exact absurd hr (hp.not_settled ho)
  | data _ h ha =>
      cases h.symm.trans hr
      exact ⟨rfl, ⟨_, ha⟩, .inl rfl⟩
  | failed _ h ha =>
      cases h.symm.trans hr
      exact ⟨rfl, ⟨_, ha⟩, .inr ⟨rfl, _, rfl⟩⟩
  | reading _ h | showing _ h | dismissing _ h => cases h.symm.trans hr

theorem Standing.of_showing (h : Standing t s last told shown u) (hs : t.stage = .showing bytes) :
    u = bytes.drop shown ∧ t.read = none ∧ ∃ c, Attended s last told c none := by
  have busy : ¬ Free t := by
    rintro (h | ⟨_, h⟩ | ⟨_, h⟩) <;> cases h.symm.trans hs
  cases h with
  | showing h hr ha =>
      cases h.symm.trans hs
      exact ⟨rfl, hr, _, ha⟩
  | vacant hf | announced hf | unnoticed hf | reading hf | data hf | failed hf | dismissing hf =>
      exact absurd hf busy

/-- The event that announces a client is the first that says so. -/
theorem Standing.of_news {address : Address} {rest : List Server.Event}
    (h : Standing t s last told shown u) (hq : s.feed.queue = .connected address :: rest) :
    u = [] ∧ shown = 0 ∧ rest = [] ∧ ∃ c, s.Seats c last ∧ s.Alone none ∧ told c := by
  cases h with
  | announced _ _ hs ha hw ht =>
      obtain ⟨events, he, hn⟩ := hw
      rw [hq] at he
      cases events with
      | nil =>
          cases he
          exact ⟨rfl, rfl, rfl, _, hs, ha, ht⟩
      | cons e events =>
          cases he
          exact (not_news hn).elim
  | vacant _ _ _ _ hn | unnoticed _ _ _ _ hn | dismissing _ _ _ _ _ hn => exact (not_news (hq ▸ hn)).elim
  | reading _ _ _ ha | data _ _ ha | failed _ _ ha | showing _ _ ha => exact (not_news (hq ▸ ha.news)).elim

theorem alike_of_noted {e : Server.Event} {rest : List Server.Event}
    (hq : s.feed.queue = e :: rest) (he : ∀ a, e ≠ .connected a) :
    Alike s { s with feed := { s.feed with queue := rest } } where
  client := rfl
  stages := rfl
  news h w hw := h w (by rw [hq]; exact List.mem_cons_of_mem _ hw)
  awaits c h := by
    obtain ⟨events, h, hn⟩ := h
    rw [hq] at h
    cases events with
    | nil => cases h; exact absurd rfl (he _)
    | cons e' events => cases h; exact ⟨events, rfl, fun w hw => hn w (List.mem_cons_of_mem _ hw)⟩
  ready := id
  stream := rfl

/-- Nothing changes that matters to who waits for the client. -/
theorem Hosting.aside (h : Hosting tuning told b s u) (he : t'.endpoint = b.terminal.endpoint)
    (hread : t'.read = b.terminal.read) (hfree : Free b.terminal → Free t')
    (hshow : ∀ bytes, b.terminal.stage = .showing bytes → t'.stage = b.terminal.stage) :
    Hosting tuning told { b with terminal := t' } s u :=
  ⟨he.trans h.endpoint, h.fit, h.stands.congr (.refl s) hread hfree hshow,
    h.shows.congr rfl rfl fun _ => rfl, h.old⟩

theorem Fit.received (h : Fit tuning s) (rest : List Server.Event) :
    Fit tuning { s with feed := { s.feed with queue := rest } } := by
  have hd : Server.Does s .takeEvent { s with feed := { s.feed with queue := rest } } {} :=
    .aside (by simp) (by simp) (by simp) rfl
  exact h.does hd rfl h.posts

theorem Hosting.noted {e : Server.Event} {rest : List Server.Event} (h : Hosting tuning told b s u)
    (hs : b.terminal.stage = .selecting) (hq : s.feed.queue = e :: rest)
    (he : ∀ a, e ≠ .connected a) :
    Hosting tuning told { b with terminal := b.terminal.received s rest }
      { s with feed := { s.feed with queue := rest } } u := by
  exact ⟨rfl, h.fit.received rest, h.stands.congr (alike_of_noted hq he) rfl (fun _ => .inl rfl)
    fun _ _ => hs.symm, h.shows.congr rfl rfl fun _ => rfl, h.old⟩

theorem Hosting.start (h : Hosting tuning told b s u) (hfit : Fit tuning s')
    (hs : s'.Seats c b.accepted.getLast?) (ha : s'.Alone none) (hq : NoNews s'.feed.queue)
    (ht : told c) (hg : s'.generation = s.generation) (he : t.endpoint = some (.server s'))
    (hf : Free t') (ht' : t'.endpoint = t.startRead.endpoint) (hr' : t'.read = t.startRead.read)
    (hshows : Shows b []) :
    Hosting tuning told { b with terminal := t', shown := 0 } (s'.spawn (.reading c.generation .start)).2 [] := by
  have hfit' := hfit.does (.read hs.client hs.link.isOpen) rfl hfit.posts
  rw [startRead_eq he hs] at ht' hr'
  exact ⟨ht', hfit', .start hs ha hq ht hfit.sound hf hr', hshows.congr rfl rfl fun _ => rfl,
    fun c hc => Nat.le_trans (h.old c hc) (Nat.le_of_eq hg.symm)⟩

theorem Hosting.clientConnected {address : Address} {rest : List Server.Event}
    (h : Hosting tuning told b s u) (hq : s.feed.queue = .connected address :: rest) :
    ∃ s', Hosting tuning told { b with terminal := (b.terminal.received s rest).startRead } s' [] := by
  obtain ⟨rfl, hshown, rfl, c, hs, ha, ht⟩ := h.stands.of_news hq
  have he : (b.terminal.received s []).endpoint =
      some (.server { s with feed := { s.feed with queue := [] } }) := rfl
  have hs' : Server.Seats { s with feed := { s.feed with queue := [] } } c b.accepted.getLast? :=
    ⟨hs.client, hs.link, hs.stream⟩
  have hf : Free (b.terminal.received s []).startRead := by
    rw [startRead_eq he hs']
    exact .inl rfl
  have hh := h.start (h.fit.received []) hs' ha (by simp [NoNews]) ht rfl he hf rfl rfl h.shows
  exact ⟨_, hshown ▸ hh⟩

theorem Hosting.data {bytes : Bytes} (h : Hosting tuning told b s u)
    (hr : b.terminal.read = some (.settled (.data bytes))) :
    Hosting tuning told
      { b with terminal := { b.terminal with read := none, stage := .showing bytes } } s u := by
  obtain ⟨hshown, ⟨c, ha⟩, hd | ⟨-, _, hd⟩⟩ := h.stands.of_settled hr (by simp) <;> cases hd
  have hs : Standing { b.terminal with read := none, stage := .showing u } s b.accepted.getLast? told
      0 (u.drop 0) := .showing rfl rfl ha
  exact ⟨h.endpoint, h.fit, hshown ▸ hs, h.shows.congr rfl rfl fun _ => rfl, h.old⟩

theorem Hosting.clientEnded (h : Hosting tuning told b s u)
    (hr : b.terminal.read = some (.settled .closed)) :
    Hosting tuning told { b with terminal := ({ b.terminal with read := none } : Terminal).select } s u :=
  ⟨h.endpoint, h.fit, h.stands.of_closed hr, h.shows.congr rfl rfl fun _ => rfl, h.old⟩

theorem Hosting.readFailed {e : Error} (h : Hosting tuning told b s u)
    (hr : b.terminal.read = some (.settled (.failed e))) :
    Hosting tuning told { b with terminal := { ({ b.terminal with read := none } : Terminal).select with
        endpoint := some (.server s.disconnectClient) } } s.disconnectClient u := by
  obtain ⟨hshown, ⟨c, ha⟩, hd | ⟨rfl, -⟩⟩ := h.stands.of_settled hr (by simp)
  · cases hd
  · have hd : s.disconnectClient = ({ s with link := s.link.markClosed.signal .disconnect }.spawn
        (.dismissing c.generation)).2 := by simp [Server.disconnectClient, ha.seats.client]
    rw [hd]
    have hfit := h.fit.does (.disconnect ha.seats.client) rfl h.fit.posts
    have htidy : Tasks.Tidy Server.Task.id
        ({ s with link := s.link.markClosed.signal .disconnect } : Server).tasks s.nextTask := h.fit.sound.tidy
    have hstage := Server.stage?_spawn (s := { s with link := s.link.markClosed.signal .disconnect })
      htidy (.dismissing c.generation)
    refine ⟨rfl, hfit, hshown ▸ ?_, h.shows.congr rfl rfl fun _ => rfl, h.old⟩
    refine .dismissing (n := s.nextTask) (.inl rfl) rfl ha.seats.client ?_ ?_ ha.news ha.told
    · rw [hstage, Function.update_self]
    · intro m st hm hne
      rw [hstage, Function.update_of_ne fun he => hne (congrArg some he.symm)] at hm
      exact ha.alone m st hm (by simp)

theorem Hosting.displayed {bytes : Bytes} (h : Hosting tuning told b s u)
    (hs : b.terminal.stage = .showing bytes) (hall : b.shown = bytes.length) :
    ∃ s', Hosting tuning told { b with terminal := b.terminal.startRead.select, shown := 0 } s' [] := by
  obtain ⟨rfl, -, c, ha⟩ := h.stands.of_showing hs
  have hshows := h.shows
  rw [hall, List.drop_length] at hshows
  exact ⟨_, h.start h.fit ha.seats ha.alone ha.news ha.told rfl h.endpoint (.inl rfl) rfl rfl hshows⟩

theorem startWrite_of_server {chunk : Bytes} (he : t.endpoint = some (.server s)) :
    t.startWrite chunk = { t with
      endpoint := some (.server { s with link := (s.link.write chunk).2 })
      stage := .sending (.waiting (.write s.link.queue.nextId)) } := by
  simp [Terminal.startWrite, he, Server.write, Link.write]

theorem Hosting.send {chunk : Bytes} {chunks : List Bytes} (h : Hosting tuning told b s u)
    (hs : b.terminal.stage = .selecting) :
    Hosting tuning told { b with terminal := ({ b.terminal with chunks } : Terminal).startWrite chunk }
      { s with link := (s.link.write chunk).2 } u := by
  have hd : Server.Does s (.write chunk) { s with link := (s.link.write chunk).2 } _ := .write
  have hfit := h.fit.does hd rfl h.fit.posts
  rw [startWrite_of_server (t := { b.terminal with chunks }) h.endpoint]
  refine ⟨rfl, hfit, ?_, h.shows.congr rfl rfl fun _ => rfl, h.old⟩
  exact h.stands.congr ⟨rfl, rfl, id, fun _ => id, fun h => ⟨h.isOpen, h.stream, h.calm⟩, rfl⟩ rfl
    (fun _ => .inr (.inr ⟨_, rfl⟩)) fun bytes hb => by cases hs.symm.trans hb

/-- Nothing goes in with a step of the main loop. -/
theorem answer_main {ask : Terminal.Ask} (hl : ∀ x, r ≠ .link x) (hb : b.answer ask r = some b') :
    ∃ shown, b' = { b with shown } ∧ (shown = b.shown ∨ shown = 0) := by
  unfold answer at hb
  split at hb
  · exact absurd rfl (hl _)
  · exact absurd rfl (hl _)
  · split at hb
    · obtain ⟨-, hb⟩ := Option.ite_none_right_eq_some.mp hb
      exact ⟨0, (Option.some.inj hb).symm, .inr rfl⟩
    · cases hb
  · exact ⟨b.shown, (Option.some.inj hb).symm, .inl rfl⟩

theorem Hosting.proceed (h : Hosting tuning told b s u) (ho : b.terminal.isOver = false)
    (hp : Proceeds b.terminal r t' lines) (hl : ∀ x, r ≠ .link x)
    (hb : b.answer (b.terminal.ask .main) r = some b') :
    Course tuning told { b' with terminal := t' } := by
  obtain ⟨shown, hb', -⟩ := answer_main hl hb
  have ends : t'.isOver = true → Course tuning told { b' with terminal := t' } := fun ho =>
    .ended ho (h.shows.congr (by rw [hb']) (by rw [hb']) fun _ => by rw [hb'])
  have server : ∀ {s'}, b.terminal.endpoint = some (.server s') → s' = s := fun he => by
    cases he.symm.trans h.endpoint
    rfl
  obtain ⟨hopening, hpreparing, hconnecting⟩ := h.stands.prepared
  have selects : ∀ {bytes}, b.terminal.stage = .selecting → b.terminal.stage ≠ .showing bytes :=
    fun h₁ h₂ => by cases h₁.symm.trans h₂
  cases hp with
  | connected hs => exact absurd hs (hconnecting _)
  | prepared hs => exact absurd hs (hpreparing _)
  | prepare hs =>
      rcases hs with hs | ⟨_, hs⟩
      · exact absurd hs hopening
      · exact absurd hs (hpreparing _)
  | listening hs =>
      cases hb
      exact .hosting (h.aside rfl rfl (fun _ => .inl rfl) fun _ h => by cases hs.symm.trans h)
  | clientConnected hs he hq =>
      cases hb
      obtain rfl := server he
      obtain ⟨s', hh⟩ := h.clientConnected hq
      exact .hosting hh
  | noted hs he hq hne =>
      cases hb
      obtain rfl := server he
      exact .hosting (h.noted hs hq hne)
  | data hs hr =>
      cases hb
      exact .hosting (h.data hr)
  | clientEnded hs he hr =>
      cases hb
      exact .hosting (h.clientEnded hr)
  | readFailed hs he hr =>
      cases hb
      obtain rfl := server he
      exact .hosting (h.readFailed hr)
  | @shown bytes hs =>
      have hask : b.terminal.ask .main = .display bytes := by
        simp [Terminal.ask, ho, Terminal.askMain, hs]
      rw [hask] at hb
      obtain ⟨hall, hb⟩ := Option.ite_none_right_eq_some.mp hb
      cases hb
      obtain ⟨s', hh⟩ := h.displayed hs hall
      exact .hosting hh
  | write hs =>
      cases hb
      exact .hosting (h.send hs)
  | discard hs | inputOver hs =>
      cases hb
      exact .hosting (h.aside rfl rfl (fun _ => .inl rfl) fun _ h => absurd h (selects hs))
  | sent hs | writeFailed hs =>
      cases hb
      exact .hosting (h.aside rfl rfl (fun _ => .inl rfl) fun _ h => by cases hs.symm.trans h)
  | feedEnded | stop | fail => exact ends rfl

/-- The server is made, and the main loop waits until it listens. -/
theorem Standing.fresh (told : Server.Client → Prop) (hr : t.read = none) :
    ∃ s, t.startListening.endpoint = some (.server s) ∧ Fit t.config.link s ∧
      Standing t.startListening s last told 0 [] := by
  have vacant : ∀ {t' : Terminal} {s : Server}, (∃ h, t'.stage = .listening h) → t'.read = none →
      s.client = none → s.feed.queue = [] →
      (∀ m st, s.stage? m = some st → ∃ record, st = .binding record) →
      Standing t' s last told 0 [] := fun hs hr hc hq hb => by
    refine .vacant (.inr (.inl hs)) (.none hr) hc (fun m st hm _ => ?_) (by simp [NoNews, hq])
      fun m x hx => ?_
    · obtain ⟨record, rfl⟩ := hb m st hm
      rfl
    · obtain ⟨st, hm, hst⟩ := Server.exists_of_callers hx
      obtain ⟨record, rfl⟩ := hb m st hm
      cases hst
  simp only [Terminal.startListening]
  split
  · rename_i hl
    obtain ⟨hS, hv, record, rfl, hb⟩ := Server.of_listen hl
    exact ⟨_, rfl, ⟨hS, hv, fun h => (by cases h), rfl⟩,
      vacant ⟨_, rfl⟩ hr rfl rfl fun m st hm => ⟨record, hb m st hm⟩⟩
  · exact ⟨_, rfl, ⟨Server.sound_create _, ⟨none, Server.serves_create _⟩, fun h => (by cases h), rfl⟩,
      vacant ⟨_, rfl⟩ hr rfl rfl fun m st hm => by cases hm⟩

theorem Early.proceed (h : Early tuning told b) (hp : Proceeds b.terminal r t' lines)
    (hl : ∀ x, r ≠ .link x) (hb : b.answer (b.terminal.ask .main) r = some b') :
    Course tuning told { b' with terminal := t' } := by
  obtain ⟨shown, rfl, hz⟩ := answer_main hl hb
  obtain rfl : shown = 0 := hz.elim (·.trans h.shown) id
  have hshows : Shows { b with terminal := t', shown := 0 } [] := h.shows.congr rfl rfl fun _ => rfl
  have place : ∀ {stage}, b.terminal.stage = stage → stage = .opening ∨ ∃ p, stage = .preparing p :=
    fun hs => hs ▸ h.stage
  cases hp with
  | prepare => exact .early ⟨h.endpoint, h.read, .inr ⟨_, rfl⟩, h.tuning, rfl, h.told, hshows⟩
  | prepared =>
      obtain ⟨s, hs, hfit, hst⟩ := Standing.fresh told h.read
      exact .hosting ⟨hs, h.tuning ▸ hfit, hst, hshows, fun c hc => absurd hc (h.told c)⟩
  | fail => exact .ended rfl hshows
  | connected h | listening h | clientConnected h | noted h | feedEnded h | data h | clientEnded h
  | readFailed h | shown h | write h | discard h | inputOver h | sent h | writeFailed h | stop h =>
      rcases place h with h | ⟨_, h⟩ <;> cases h

/-! ## Who becomes the client -/

/-- The client of a terminal. -/
def client? (t : Terminal) : Option Server.Client :=
  match t.endpoint with
  | some (.server s) => s.client
  | _ => none

theorem client?_of_server (he : t.endpoint = some (.server s)) : client? t = s.client := by
  rw [client?, he]

/-- A server that reads has one more task, and is the same otherwise. -/
theorem startRead_endpoint (t : Terminal) : t.startRead.endpoint = t.endpoint ∨
    (∃ c c', t.endpoint = some (.connection c) ∧ t.startRead.endpoint = some (.connection c')) ∨
    ∃ s st, t.endpoint = some (.server s) ∧ t.startRead.endpoint = some (.server (s.spawn st).2) := by
  unfold Terminal.startRead
  split
  · rename_i he
    split
    · exact .inr (.inl ⟨_, _, he, rfl⟩)
    · exact .inl rfl
  · rename_i s he
    rw [Server.read]
    cases s.client with
    | none => exact .inl rfl
    | some c =>
        cases s.link.isOpen with
        | false => exact .inl rfl
        | true => exact .inr (.inr ⟨s, _, he, rfl⟩)
  · exact .inl rfl

theorem startRead_client? (t : Terminal) : client? t.startRead = client? t := by
  rcases startRead_endpoint t with he | ⟨c, c', he, he'⟩ | ⟨s, st, he, he'⟩
  · rw [client?, client?, he]
  · rw [client?, client?, he, he']
  · rw [client?_of_server he, client?_of_server he']
    rfl

theorem shut_client? (t : Terminal) : client? t.shut = none ∨ client? t.shut = client? t := by
  cases he : t.endpoint with
  | none => exact .inl (by simp [client?, Terminal.shut, he])
  | some e =>
      cases e with
      | connection c => exact .inl (by simp [client?, Terminal.shut, he, Endpoint.drop, Endpoint.abort])
      | server s =>
          have hs : t.shut.endpoint = some (.server (s.drop true).abort) := by
            simp [Terminal.shut, he, Endpoint.drop, Endpoint.abort]
          rw [client?_of_server he, client?_of_server hs]
          by_cases hp : s.phase = .closed
          · exact .inr (by simp [Server.drop, Server.abort, Server.close, hp])
          · exact .inl (by simp [Server.drop, Server.abort, Server.close, Server.spawn, hp])

theorem startListening_client? (t : Terminal) : client? t.startListening = none := by
  simp only [Terminal.startListening]
  split
  · rename_i hl
    obtain ⟨-, -, record, rfl, -⟩ := Server.of_listen hl
    rfl
  · rfl

theorem startWrite_client? (t : Terminal) (chunk : Bytes) : client? (t.startWrite chunk) = client? t := by
  unfold Terminal.startWrite
  split
  · rename_i he
    rw [client?, client?, he]
  · rename_i he
    exact (client?_of_server he).symm
  · rfl

theorem disconnectClient_client (s : Server) : s.disconnectClient.client = s.client := by
  unfold Server.disconnectClient
  split <;> simp [Server.spawn, *]

theorem client?_of_proceeds (h : Proceeds t r t' lines) :
    client? t' = none ∨ client? t' = client? t := by
  cases h with
  | connected => exact .inr (startRead_client? t.startReader)
  | listening | data | clientEnded | sent | writeFailed | prepare | discard | inputOver =>
      exact .inr rfl
  | noted _ he => exact .inr (client?_of_server he).symm
  | prepared => exact .inl (startListening_client? t)
  | clientConnected _ he => exact .inr ((startRead_client? _).trans (client?_of_server he).symm)
  | feedEnded | stop | fail => exact shut_client? t
  | @readFailed s _ _ he =>
      exact .inr ((disconnectClient_client s).trans (client?_of_server he).symm)
  | shown => exact .inr (startRead_client? t)
  | @write e chunk chunks => exact .inr (startWrite_client? { t with chunks } chunk)

/-! ## Acts -/

theorem answer_terminal {ask : Terminal.Ask} (hb : b.answer ask r = some b') :
    b'.terminal = b.terminal := by
  unfold answer at hb
  split at hb
  · split at hb
    · obtain ⟨_, -, rfl⟩ := Option.map_eq_some_iff.mp hb
      rfl
    · cases hb
  · obtain ⟨-, hb⟩ := Option.ite_none_left_eq_some.mp hb
    cases hb
    rfl
  · split at hb
    · obtain ⟨-, hb⟩ := Option.ite_none_right_eq_some.mp hb
      cases hb
      rfl
    · cases hb
  · cases hb
    rfl

/-- The surroundings answer an actor, and it goes on. -/
theorem does_of_step {actor : Actor} (hp : b.perform (.step actor r) = some (b', ())) :
    ∃ b₁ t' lines, b.answer (b.terminal.ask actor) r = some b₁ ∧ b' = { b₁ with terminal := t' } ∧
      b.terminal.resume actor r = some (t', lines) ∧ b.terminal.isOver = false ∧
      Terminal.Does b.terminal (.step actor r) t' lines := by
  obtain ⟨b₁, hb, hp⟩ := Option.bind_eq_some_iff.mp hp
  obtain ⟨⟨t', lines⟩, hr, hp⟩ := Option.bind_eq_some_iff.mp hp
  cases hp
  rw [answer_terminal hb] at hr
  obtain ⟨hd, ho⟩ := Terminal.does_of_perform (a := .step actor r) hr
  exact ⟨b₁, t', lines, hb, rfl, hr, ho (by simp), hd⟩

/-- All other acts leave the terminal as it is, but for an interruption. -/
theorem terminal_of_perform (hp : b.perform a = some (b', ())) (ha : ∀ actor r, a ≠ .step actor r) :
    b'.terminal = { b.terminal with interrupted := b'.terminal.interrupted } := by
  cases a with
  | step actor r => exact absurd rfl (ha actor r)
  | interrupt =>
      cases hp
      rw [Terminal.interrupt_eq]
  | send x bytes =>
      obtain ⟨source, -, hp⟩ := Option.map_eq_some_iff.mp hp
      cases hp
      rfl
  | finish x =>
      cases hp
      rfl
  | «show» n =>
      simp only [Switchboard.perform] at hp
      split at hp <;> cases hp
      rfl

/-- Only a task of the server brings a client. -/
theorem client?_of_perform (hp : b.perform a = some (b', ()))
    (ha : ∀ n r, a ≠ .step (.worker (.task n)) r) :
    client? b'.terminal = none ∨ client? b'.terminal = client? b.terminal := by
  by_cases hs : ∃ actor r, a = .step actor r
  · obtain ⟨actor, r, rfl⟩ := hs
    obtain ⟨b₁, t', lines, -, rfl, -, -, hd⟩ := does_of_step hp
    cases hd with
    | main hp => exact client?_of_proceeds hp
    | reader hf => exact .inr (by cases hf <;> rfl)
    | @worker k e r e' o he hw =>
        cases k with
        | task n => exact absurd rfl (ha n _)
        | write n =>
            cases e with
            | connection c =>
                obtain ⟨_, -, hw⟩ := Option.map_eq_some_iff.mp hw
                cases hw
                exact .inl (by rw [client?, Terminal.advance_endpoint])
            | server s =>
                obtain ⟨⟨s', out⟩, hs, hw⟩ := Option.map_eq_some_iff.mp hw
                cases hw
                obtain ⟨_, -, hs⟩ := Option.map_eq_some_iff.mp hs
                cases hs
                rw [client?_of_server he, client?_of_server (Terminal.advance_endpoint ..)]
                exact .inr rfl
  · rw [terminal_of_perform hp fun actor r ha => hs ⟨actor, r, ha⟩]
    exact .inr rfl

/-- A worker of the server goes on. -/
theorem Course.worker {k : Worker} (h : Course tuning told b)
    (hp : b.perform (.step (.worker k) r) = some (b', ())) :
    ∃ s u reply s' out b₁, Hosting tuning told b s u ∧ r = .link reply ∧
      s.resume k reply = some (s', out) ∧ Answered b (s.ask k) reply b₁ ∧
      b' = { b₁ with terminal := b.terminal.advance (.server s') k out.outcome } := by
  obtain ⟨b₁, t', lines, hb, rfl, -, ho, hd⟩ := does_of_step hp
  cases hd with
  | @worker _ e reply e' o he hw =>
      cases h with
      | ended h => rw [h] at ho; cases ho
      | early h => cases h.endpoint.symm.trans he
      | hosting h =>
          obtain rfl := Option.some.inj (he.symm.trans h.endpoint)
          obtain ⟨⟨s', out⟩, hs, hp⟩ := Option.map_eq_some_iff.mp hw
          cases hp
          rw [Terminal.ask_worker ho h.endpoint] at hb
          exact ⟨_, _, reply, s', out, b₁, h, rfl, hs, answered_of_answer hb, rfl⟩

/-! ## Runs -/

/-- A caller becomes the client, and so many events wait at that time. -/
def Enters (m : Moment) (c : Server.Client) (waiting : Nat) : Prop :=
  ∃ s s', m.before.terminal.endpoint = some (.server s) ∧
    m.after.terminal.endpoint = some (.server s') ∧ s.client = none ∧ s'.client = some c ∧
    s.feed.queue.length = waiting

/-- A caller becomes the client, and the main loop will hear of it. -/
def Heralds (m : Moment) (c : Server.Client) : Prop :=
  ∃ s s', m.before.terminal.endpoint = some (.server s) ∧
    m.after.terminal.endpoint = some (.server s') ∧ Announces s s' c

theorem Heralds.enters {m : Moment} (h : Heralds m c) : ∃ waiting, Enters m c waiting := by
  obtain ⟨s, s', he, he', hc, hc', -⟩ := h
  exact ⟨_, s, s', he, he', hc, hc', rfl⟩

theorem not_enters (hp : b.perform a = some (b', ())) (ha : ∀ n r, a ≠ .step (.worker (.task n)) r) :
    ¬ Enters ⟨b, a, b', ()⟩ c n := by
  rintro ⟨s, s', he, he', hc, hc', -⟩
  have h := client?_of_perform hp ha
  rw [client?_of_server he, client?_of_server he', hc, hc'] at h
  simp at h

theorem Standing.of_vacant (h : Standing t s last told shown u) (hc : s.client = none) :
    s.Alone none ∧ NoNews s.feed.queue := by
  cases h with
  | vacant _ _ _ ha hq => exact ⟨ha, hq⟩
  | announced _ _ hs | unnoticed _ _ hs => cases hc.symm.trans hs.client
  | reading _ _ _ ha | data _ _ ha | failed _ _ ha | showing _ _ ha => cases hc.symm.trans ha.seats.client
  | dismissing _ _ hc' => cases hc.symm.trans hc'

/-- A client is heralded if fewer events wait than there is room for. -/
theorem Course.heralds_iff (h : Course tuning told b) (hp : b.perform a = some (b', ())) :
    Heralds ⟨b, a, b', ()⟩ c ↔ ∃ n < tuning.eventCapacity, Enters ⟨b, a, b', ()⟩ c n := by
  by_cases ha : ∃ n r, a = .step (.worker (.task n)) r
  · obtain ⟨n, r, rfl⟩ := ha
    obtain ⟨s, u, reply, s', out, b₁, h, rfl, hr, -, rfl⟩ := h.worker hp
    obtain ⟨st, s₁, next, out, hs, ht, rfl, -⟩ := Server.turn_of_perform (Server.perform_of_resume hr)
    have room : s.client = none → (s₁.place n next).client = some c →
        ((s₁.place n next).feed.queue = s.feed.queue ++ [.connected c.address] ↔
          s.feed.queue.length < tuning.eventCapacity) := fun hc hc' => by
      obtain ⟨v, hv⟩ := h.fit.serves
      obtain ⟨ha, hq⟩ := h.stands.of_vacant hc
      rw [Server.place_feed, ← h.fit.tuning]
      exact ht.announces_iff hv hs hc (ha n st hs (by simp)) hq h.fit.posts
        ((Server.place_client s₁).symm.trans hc')
    constructor
    · rintro ⟨s₂, s₃, he, he', hc, hc', hq⟩
      cases he.symm.trans h.endpoint
      cases he'.symm.trans (Terminal.advance_endpoint ..)
      exact ⟨_, (room hc hc').mp hq, _, _, he, he', hc, hc', rfl⟩
    · rintro ⟨_, hn, s₂, s₃, he, he', hc, hc', rfl⟩
      cases he.symm.trans h.endpoint
      cases he'.symm.trans (Terminal.advance_endpoint ..)
      exact ⟨_, _, he, he', hc, hc', (room hc hc').mpr hn⟩
  · have ha : ∀ n r, a ≠ .step (.worker (.task n)) r := fun n r he => ha ⟨n, r, he⟩
    refine iff_of_false (fun hh => hh.enters.elim fun _ => not_enters hp ha) ?_
    rintro ⟨_, -, hh⟩
    exact not_enters hp ha hh

/-- What comes from outside leaves the terminal alone. -/
theorem Course.later {source : Source} (h : Course tuning told b) (hs : (b.sources x).Later source) :
    Course tuning told { b with sources := Function.update b.sources x source } := by
  cases h with
  | early h => exact .early { h with shows := h.shows.later hs }
  | hosting h => exact .hosting { h with shows := h.shows.later hs }
  | ended ho hshows => exact .ended ho (hshows.later hs)

/-- Neither the main loop nor its read is touched. -/
theorem Course.aside (h : Course tuning told b) (he : t'.endpoint = b.terminal.endpoint)
    (hread : t'.read = b.terminal.read) (hs : t'.stage = b.terminal.stage)
    (hconfig : t'.config = b.terminal.config) : Course tuning told { b with terminal := t' } := by
  cases h with
  | early h =>
      exact .early ⟨he.trans h.endpoint, hread.trans h.read, hs ▸ h.stage,
        (congrArg Config.link hconfig).trans h.tuning, h.shown, h.told,
        h.shows.congr rfl rfl fun _ => rfl⟩
  | hosting h => exact .hosting (h.aside he hread (fun hf => by rwa [Free, hs]) fun _ _ => hs)
  | ended ho hshows =>
      refine .ended ?_ (hshows.congr rfl rfl fun _ => rfl)
      rw [Terminal.isOver] at ho ⊢
      rwa [hs]

theorem Course.main (h : Course tuning told b) (hp : b.perform (.step .main r) = some (b', ())) :
    Course tuning told b' := by
  obtain ⟨b₁, t', lines, hb, rfl, hr, ho, hd⟩ := does_of_step hp
  have hl := (Terminal.own_of_resumeMain (by simpa [Terminal.resume, ho] using hr)).1
  cases hd with
  | main hp =>
      cases h with
      | early h => exact h.proceed hp hl hb
      | hosting h => exact h.proceed ho hp hl hb
      | ended h => rw [h] at ho; cases ho

theorem Course.reader (h : Course tuning told b) (hp : b.perform (.step .reader r) = some (b', ())) :
    Course tuning told b' := by
  obtain ⟨b₁, t', lines, hb, rfl, -, -, hd⟩ := does_of_step hp
  cases hd with
  | reader hf =>
      cases hf <;> cases hb <;> exact h.aside rfl rfl rfl rfl

theorem Hosting.show {part : Bytes} {n : Nat} (h : Hosting tuning told b s u)
    (hs : b.terminal.stage = .showing bytes) (hp : part = (bytes.drop b.shown).take n) :
    Hosting tuning told { b with screen := b.screen ++ part, shown := b.shown + part.length } s
      (bytes.drop (b.shown + part.length)) := by
  obtain ⟨rfl, hr, c, ha⟩ := h.stands.of_showing hs
  have hsplit : part ++ bytes.drop (b.shown + part.length) = bytes.drop b.shown := by
    rw [← List.drop_drop, hp, List.length_take]
    rcases Nat.le_total n (bytes.drop b.shown).length with hn | hn
    · rw [Nat.min_eq_left hn, List.take_append_drop]
    · rw [Nat.min_eq_right hn, List.take_of_length_le hn, List.drop_length, List.append_nil]
  exact ⟨h.endpoint, h.fit, .showing hs hr ha, .more (hsplit ▸ h.shows), h.old⟩

/-- Nobody is announced by anybody but a task. -/
theorem Course.still (h : Course tuning told b) (hp : b.perform a = some (b', ()))
    (ha : ∀ n r, a ≠ .step (.worker (.task n)) r) : Course tuning told b' := by
  cases a with
  | step actor r =>
      cases actor with
      | main => exact h.main hp
      | reader => exact h.reader hp
      | worker k =>
          cases k with
          | task n => exact absurd rfl (ha n r)
          | write n =>
              obtain ⟨s, u, reply, s', out, b₁, h, rfl, hs, hb, rfl⟩ := h.worker hp
              exact .hosting (h.write hs hb)
  | interrupt =>
      cases hp
      rw [Terminal.interrupt_eq]
      exact h.aside rfl rfl rfl rfl
  | send x bytes =>
      obtain ⟨source, hg, hp⟩ := Option.map_eq_some_iff.mp hp
      cases hp
      exact h.later (Source.later_of_give hg)
  | finish x =>
      cases hp
      exact h.later (Source.later_ended _)
  | «show» n =>
      simp only [Switchboard.perform] at hp
      split at hp
      · rename_i bytes hask
        cases hp
        have hs := Terminal.showing_of_ask hask
        cases h with
        | hosting h => exact .hosting (h.show hs rfl)
        | early h => rcases h.stage with h | ⟨_, h⟩ <;> cases hs.symm.trans h
        | ended ho =>
            rw [Terminal.isOver, hs] at ho
            cases ho
      · cases hp

theorem Course.perform (h : Course tuning told b) (hp : b.perform a = some (b', ()))
    (htold : ∀ c, told' c ↔ told c ∨ Heralds ⟨b, a, b', ()⟩ c) : Course tuning told' b' := by
  by_cases ha : ∃ n r, a = .step (.worker (.task n)) r
  · obtain ⟨n, r, rfl⟩ := ha
    obtain ⟨s, u, reply, s', out, b₁, h, rfl, hs, hb, rfl⟩ := h.worker hp
    refine .hosting (h.turn hs hb fun c => (htold c).trans (or_congr_right ?_))
    constructor
    · rintro ⟨s₁, s₂, h₁, h₂, hh⟩
      cases h₁.symm.trans h.endpoint
      cases h₂.symm.trans (Terminal.advance_endpoint ..)
      exact hh
    · exact fun hh => ⟨_, _, h.endpoint, Terminal.advance_endpoint .., hh⟩
  · have ha : ∀ n r, a ≠ .step (.worker (.task n)) r := fun n r he => ha ⟨n, r, he⟩
    have he : told' = told := funext fun c => propext <| (htold c).trans <| or_iff_left fun hh => by
      obtain ⟨_, hh⟩ := hh.enters
      exact not_enters hp ha hh
    exact he ▸ h.still hp ha

theorem start_terminal {config : Config} (hmode : config.bluetooth.mode = .server) :
    (machine config).start.terminal = { config, stage := .opening } := by
  simp only [machine, Terminal.start, hmode]

theorem course_of_run {config : Config} {ms : List Moment} (hmode : config.bluetooth.mode = .server)
    (h : (machine config).Run ms b) : Course config.link (fun c => ∃ m ∈ ms, Heralds m c) b := by
  -- Whom the main loop was told of grows with the run, so each step brings what it adds.
  induction h with
  | start =>
      have ht := start_terminal hmode
      exact .early ⟨by rw [ht], by rw [ht], .inl (by rw [ht]), by rw [ht], rfl, by simp,
        ⟨fun _ _ => rfl, List.nodup_nil, rfl, absurd rfl⟩⟩
  | next _ _ hp ih => exact ih.perform hp fun c => by simp [or_and_right, exists_or]

end Rfcomm.Switchboard
