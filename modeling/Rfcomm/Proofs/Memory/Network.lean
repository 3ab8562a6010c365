import Rfcomm.Memory.Network
/-!
The backlogs of a network. Who connects joins the end of one, who is accepted was the first of it, and
nothing else changes a backlog but that its listener goes away.
-/
namespace Rfcomm.Memory.Network

variable {n n' : Network} {own : Address} {t : Target} {x : StreamId} {l l' : ListenerId}
  {c : StreamId × Address} {q : List (StreamId × Address)}

/-- The callers of a live listener, the first first. -/
def backlog? (n : Network) (l : ListenerId) : Option (List (StreamId × Address)) :=
  (n.live.find? (·.id = l)).map (·.backlog)

/-- The listener that a caller gets to. -/
def listener? (n : Network) (t : Target) : Option ListenerId :=
  (n.table.lookup t).filter fun l => n.live.any (·.id = l)

/-- Several listeners go away. -/
def dropAll (n : Network) : List ListenerId → List (StreamId × Address) × Network
  | [] => ([], n)
  | l :: ls => ((n.drop l).1 ++ ((n.drop l).2.dropAll ls).1, ((n.drop l).2.dropAll ls).2)

/-- The numbers of the live listeners were given. -/
def Numbered (n : Network) : Prop := ∀ l ∈ n.live, l.id < n.nextListener

theorem find?_map_backlog {ls : List Listener} {f : Listener → Listener} (hf : ∀ l, (f l).id = l.id) :
    (ls.map f).find? (·.id = l) = (ls.find? (·.id = l)).map f := by
  rw [List.find?_map]
  congr 2
  funext k
  simp [hf]

theorem backlog?_of_map {f : Listener → List (StreamId × Address)} (hn : n'.live = n.live.map fun k =>
      if k.id = l then { k with backlog := f k } else k) :
    n'.backlog? l' = if l' = l then (n.live.find? (·.id = l)).map f else n.backlog? l' := by
  rw [backlog?, hn, find?_map_backlog (fun k => by split <;> rfl), backlog?]
  split
  · subst l'
    cases h : n.live.find? (·.id = l) with
    | none => rfl
    | some k => simp [show k.id = l by simpa using List.find?_some h]
  · rename_i hne
    cases h : n.live.find? (·.id = l') with
    | none => rfl
    | some k => simp [show k.id ≠ l by rw [show k.id = l' by simpa using List.find?_some h]; exact hne]

theorem backlog?_isSome : (n.backlog? l).isSome = n.live.any (·.id = l) := by
  rw [backlog?, Option.isSome_map, List.isSome_find?]

theorem Numbered.lt (h : n.Numbered) (hl : (n.backlog? l).isSome = true) : l < n.nextListener := by
  rw [backlog?_isSome, List.any_eq_true] at hl
  obtain ⟨k, hk, he⟩ := hl
  obtain rfl : k.id = l := by simpa using he
  exact h k hk

theorem connect_cases (n : Network) (own : Address) (t : Target) (x : StreamId) :
    (n.listener? t = none ∧ n.connect own t x = .error (.bare .connectionRefused)) ∨
      ∃ l n', n.listener? t = some l ∧ n.connect own t x = .ok n' ∧
        n'.nextListener = n.nextListener ∧ (n.Numbered → n'.Numbered) ∧
        (n.backlog? l).isSome = true ∧ ∀ l', n'.backlog? l' =
          if l' = l then (n.backlog? l).map (· ++ [(x, own)]) else n.backlog? l' := by
  unfold connect listener?
  cases n.table.lookup t with
  | none => exact .inl ⟨rfl, rfl⟩
  | some l =>
      by_cases hl : n.live.any (·.id = l) = true
      · refine .inr ⟨l, _, by simp [hl], if_pos hl, rfl, ?_, by rw [backlog?_isSome, hl], fun l' => ?_⟩
        · intro h k hk
          obtain ⟨k', hk', rfl⟩ := List.mem_map.mp hk
          have := h k' hk'
          split <;> exact this
        · rw [backlog?_of_map (f := fun k => k.backlog ++ [(x, own)]) rfl]
          congr 1
          rw [backlog?, Option.map_map]
          rfl
      · exact .inl ⟨by rw [Option.filter_some, if_neg hl], if_neg hl⟩

theorem accept_eq (h : n.accept l = some (c, n')) : ∃ rest, n.backlog? l = some (c :: rest) ∧
    n'.nextListener = n.nextListener ∧ (n.Numbered → n'.Numbered) ∧
    ∀ l', n'.backlog? l' = if l' = l then some rest else n.backlog? l' := by
  unfold accept at h
  split at h
  · rename_i i k c' rest hf
    cases h
    refine ⟨rest, by rw [backlog?, hf]; rfl, rfl, ?_, fun l' => ?_⟩
    · intro h k hk
      obtain ⟨k', hk', rfl⟩ := List.mem_map.mp hk
      have := h k' hk'
      split <;> exact this
    · rw [backlog?_of_map (l := l) rfl, hf]
      rfl
  · cases h

theorem bind_eq (h : n.bind own t = .ok (l, n')) (hn : n.Numbered) : l = n.nextListener ∧
    n'.nextListener = n.nextListener + 1 ∧ n'.Numbered ∧
    ∀ l', n'.backlog? l' = if l' = l then some [] else n.backlog? l' := by
  simp only [bind] at h
  split at h <;> cases h
  refine ⟨rfl, rfl, ?_, fun l' => ?_⟩
  · intro k hk
    rcases List.mem_append.mp hk with hk | hk
    · exact Nat.lt_succ_of_lt (hn k hk)
    · obtain rfl := List.mem_singleton.mp hk
      exact Nat.lt_succ_self _
  · have hnone : n.live.find? (·.id = n.nextListener) = none := by
      rw [List.find?_eq_none]
      intro k hk
      simpa using Nat.ne_of_lt (hn k hk)
    simp only [backlog?, List.find?_append]
    split
    · subst l'
      simp [hnone]
    · rename_i hne
      cases n.live.find? (·.id = l') <;> simp [Ne.symm hne]

theorem drop_fst (n : Network) (l : ListenerId) : (n.drop l).1 = (n.backlog? l).getD [] := by
  unfold drop backlog?
  split <;> simp [*]

theorem drop_snd (n : Network) (l : ListenerId) : (n.drop l).2.nextListener = n.nextListener ∧
    (n.Numbered → (n.drop l).2.Numbered) ∧
    ∀ l', (n.drop l).2.backlog? l' = if l' = l then none else n.backlog? l' := by
  unfold drop
  split
  · rename_i hf
    refine ⟨rfl, id, fun l' => ?_⟩
    split
    · subst l'
      simp [backlog?, hf]
    · rfl
  · refine ⟨rfl, fun h k hk => h k (List.mem_filter.mp hk).1, fun l' => ?_⟩
    simp only [backlog?, List.find?_filter]
    split
    · subst l'
      rw [Option.map_eq_none_iff, List.find?_eq_none]
      simp
    · rename_i hne
      congr 2
      funext k
      by_cases hk : k.id = l' <;> simp [hk, hne]

theorem dropAll_spec (n : Network) (ls : List ListenerId) :
    (n.dropAll ls).2.nextListener = n.nextListener ∧ (n.Numbered → (n.dropAll ls).2.Numbered) ∧
    (∀ l', (n.dropAll ls).2.backlog? l' = if l' ∈ ls then none else n.backlog? l') ∧
    ∀ c, c ∈ (n.dropAll ls).1 ↔ ∃ l ∈ ls, ∃ q, n.backlog? l = some q ∧ c ∈ q := by
  induction ls generalizing n with
  | nil => simp [dropAll]
  | cons l ls ih =>
      obtain ⟨h₁, h₂, h₃⟩ := n.drop_snd l
      obtain ⟨h₄, h₅, h₆, h₇⟩ := ih (n.drop l).2
      refine ⟨h₄.trans h₁, fun h => h₅ (h₂ h), fun l' => ?_, fun c => ?_⟩
      · rw [dropAll, h₆, h₃]
        by_cases hl : l' = l <;> simp [hl]
      · rw [dropAll, List.mem_append, h₇, drop_fst]
        constructor
        · rintro (hc | ⟨l', hl', q, hq, hc⟩)
          · obtain ⟨q, hq⟩ : ∃ q, n.backlog? l = some q := by
              cases hb : n.backlog? l with
              | none => simp [hb] at hc
              | some q => exact ⟨q, rfl⟩
            exact ⟨l, by simp, q, hq, by simpa [hq] using hc⟩
          · rw [h₃] at hq
            split at hq
            · cases hq
            · exact ⟨l', by simp [hl'], q, hq, hc⟩
        · rintro ⟨l', hl', q, hq, hc⟩
          by_cases he : l' = l
          · subst he
            exact .inl (by simpa [hq] using hc)
          · refine .inr ⟨l', (List.mem_cons.mp hl').resolve_left he, q, ?_, hc⟩
            rw [h₃, if_neg he, hq]

end Rfcomm.Memory.Network
