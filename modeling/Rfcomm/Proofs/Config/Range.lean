import Rfcomm.Config.Store
/-!
The integers of a document are within 64 bits with a sign, wherever they stand. So the numbers of
settings that were read are within 63 bits.
-/
namespace Rfcomm.Toml

/-- A value all of whose integers are in range. -/
inductive Value.Bounded : Value → Prop
  | string {s} : Bounded (.string s)
  | integer {n} : inRange n = true → Bounded (.integer n)
  | float : Bounded .float
  | boolean {b} : Bounded (.boolean b)
  | datetime : Bounded .datetime
  | array {vs : List Value} : (∀ v ∈ vs, Bounded v) → Bounded (.array vs)
  | tables {vs : List Value} : (∀ v ∈ vs, Bounded v) → Bounded (.tables vs)
  | table {o} {es : List (String × Value)} : (∀ e ∈ es, Bounded e.2) → Bounded (.table o es)

def Entries.Bounded (es : Entries) : Prop := ∀ e ∈ es, e.2.Bounded

variable {es : Entries} {k : String} {v : Value} {d d' : Draft} {cs r : List Char}

/-! ## Entries -/

theorem Entries.Bounded.get? (h : es.Bounded) (hv : es.get? k = some v) : v.Bounded := by
  induction es with
  | nil => cases hv
  | cons e es ih =>
      obtain ⟨k', w⟩ := e
      obtain ⟨hw, hes⟩ := List.forall_mem_cons.mp h
      simp only [Entries.get?, List.lookup_cons] at hv
      split at hv
      · cases hv
        exact hw
      · exact ih hes hv

theorem Entries.Bounded.put (h : es.Bounded) (hv : v.Bounded) : (es.put k v).Bounded := by
  induction es with
  | nil =>
      intro e he
      obtain rfl := List.mem_singleton.mp he
      exact hv
  | cons e es ih =>
      obtain ⟨he, hes⟩ := List.forall_mem_cons.mp h
      simp only [Entries.put]
      split
      · exact List.forall_mem_cons.mpr ⟨hv, hes⟩
      · exact List.forall_mem_cons.mpr ⟨he, ih hes⟩

theorem Entries.Bounded.erase (h : es.Bounded) : (es.erase k).Bounded := fun e he =>
  h e (List.mem_filter.mp he).1

/-! ## Tables that are filled -/

/-- What is done with a table in a table leaves all integers in range if it does so in its own. -/
theorem Draft.within_bounded {α : Type} {made : Origin} {f : Draft → Option (α × Draft)} {Q : α → Prop}
    (hf : ∀ {d a d'}, d.entries.Bounded → f d = some (a, d') → Q a ∧ d'.entries.Bounded)
    {ks : List String} {a : α} (hd : d.entries.Bounded) (h : d.within made f ks = some (a, d')) :
    Q a ∧ d'.entries.Bounded := by
  induction ks generalizing d a d' with
  | nil => exact hf hd h
  | cons k ks ih =>
      simp only [within] at h
      split at h
      · obtain ⟨⟨a', t⟩, ht, h⟩ := Option.bind_eq_some_iff.mp h
        cases h
        obtain ⟨ha, hb⟩ := ih (d := ⟨made, []⟩) nofun ht
        exact ⟨ha, hd.put (.table hb)⟩
      · rename_i o es hes
        obtain ⟨-, h⟩ := Option.ite_none_left_eq_some.mp h
        obtain ⟨⟨a', t⟩, ht, h⟩ := Option.bind_eq_some_iff.mp h
        cases h
        cases hd.get? hes with
        | table hes =>
            obtain ⟨ha, hb⟩ := ih (d := ⟨o, es⟩) hes ht
            exact ⟨ha, hd.put (.table hb)⟩
      · rename_i items hitems
        split at h
        · rename_i o es hlast
          obtain ⟨⟨a', t⟩, ht, h⟩ := Option.bind_eq_some_iff.mp h
          cases h
          cases hd.get? hitems with
          | tables hitems =>
              cases hitems _ (List.mem_of_getLast? hlast) with
              | table hes =>
                  obtain ⟨ha, hb⟩ := ih (d := ⟨o, es⟩) hes ht
                  refine ⟨ha, hd.put (.tables fun v hv => ?_)⟩
                  rcases List.mem_append.mp hv with hv | hv
                  · exact hitems v (List.dropLast_subset _ hv)
                  · obtain rfl := List.mem_singleton.mp hv
                    exact .table hb
        · cases h
      · cases h

theorem Draft.add_bounded {ps : List String} (hd : d.entries.Bounded) (hv : v.Bounded)
    (h : d.add ps k v = some d') : d'.entries.Bounded := by
  obtain ⟨⟨_, d''⟩, hw, rfl⟩ := Option.map_eq_some_iff.mp h
  refine (within_bounded (Q := fun _ => True) ?_ hd hw).2
  intro d a d' hd h
  obtain ⟨-, h⟩ := Option.ite_none_left_eq_some.mp h
  split at h <;> cases h
  exact ⟨trivial, hd.put hv⟩

theorem Draft.takeOut_bounded {ps : List String} (hd : d.entries.Bounded)
    (h : d.takeOut ps k = some (es, d')) : es.Bounded ∧ d'.entries.Bounded := by
  refine within_bounded (Q := Entries.Bounded) ?_ hd h
  intro d a d' hd h
  split at h
  · cases h
    exact ⟨nofun, hd⟩
  · rename_i hes
    cases h
    cases hd.get? hes with
    | table hes => exact ⟨hes, hd.erase⟩
  · cases h

theorem Draft.putTable_bounded {ps : List String} (hd : d.entries.Bounded) (hes : es.Bounded)
    (h : d.putTable ps k es = some d') : d'.entries.Bounded := by
  obtain ⟨⟨_, d''⟩, hw, rfl⟩ := Option.map_eq_some_iff.mp h
  refine (within_bounded (Q := fun _ => True) ?_ hd hw).2
  intro d a d' hd h
  cases h
  exact ⟨trivial, hd.put (.table hes)⟩

theorem Draft.tablesAt?_bounded {items : List Value} (hd : d.entries.Bounded)
    (h : d.tablesAt? k = some items) : ∀ v ∈ items, v.Bounded := by
  simp only [tablesAt?] at h
  split at h
  · cases h
    nofun
  · rename_i hitems
    cases h
    cases hd.get? hitems with
    | tables hitems => exact hitems
  · cases h

theorem Draft.openTables_bounded {ps : List String} (hd : d.entries.Bounded)
    (h : d.openTables ps k = some d') : d'.entries.Bounded := by
  obtain ⟨⟨_, d''⟩, hw, rfl⟩ := Option.map_eq_some_iff.mp h
  refine (within_bounded (Q := fun _ => True) ?_ hd hw).2
  intro d a d' hd h
  obtain ⟨_, -, h⟩ := Option.map_eq_some_iff.mp h
  cases h
  exact ⟨trivial, hd⟩

theorem Draft.pushTable_bounded {ps : List String} (hd : d.entries.Bounded) (hes : es.Bounded)
    (h : d.pushTable ps k es = some d') : d'.entries.Bounded := by
  obtain ⟨⟨_, d''⟩, hw, rfl⟩ := Option.map_eq_some_iff.mp h
  refine (within_bounded (Q := fun _ => True) ?_ hd hw).2
  intro d a d' hd h
  obtain ⟨items, hitems, h⟩ := Option.map_eq_some_iff.mp h
  cases h
  refine ⟨trivial, hd.put (.tables fun v hv => ?_)⟩
  rcases List.mem_append.mp hv with hv | hv
  · exact tablesAt?_bounded hd hitems v hv
  · obtain rfl := List.mem_singleton.mp hv
    exact .table hes

/-! ## Values -/

theorem inRange_of_integer {n : Int} (h : integer? cs = some n) : inRange n = true := by
  have last : ∀ m : Option Int,
      (m.bind fun n => if inRange n = true then some n else none) = some n → inRange n = true := by
    intro m h
    obtain ⟨i, -, h⟩ := Option.bind_eq_some_iff.mp h
    obtain ⟨hi, h⟩ := Option.ite_none_right_eq_some.mp h
    cases h
    exact hi
  unfold integer? at h
  dsimp only at h
  split at h <;> split at h <;> exact last _ h

theorem word?_bounded (h : word? cs = some v) : v.Bounded := by
  simp only [word?] at h
  split at h
  · cases h
    exact .boolean
  · split at h
    · cases h
      exact .boolean
    · split at h
      · cases h
        exact .integer (inRange_of_integer ‹_›)
      · obtain ⟨-, h⟩ := Option.ite_none_right_eq_some.mp h
        cases h
        exact .float

theorem flat?_bounded (h : flat? cs = some (v, r)) : v.Bounded := by
  unfold flat? at h
  split at h
  iterate 2
    obtain ⟨_, -, h⟩ := Option.map_eq_some_iff.mp h
    cases h
    exact .string
  unfold scalar? at h
  split at h
  · obtain ⟨-, h⟩ := Option.ite_none_left_eq_some.mp h
    cases h
    exact .datetime
  · obtain ⟨_, hw, h⟩ := Option.map_eq_some_iff.mp h
    cases h
    exact word?_bounded hw

theorem items_bounded {item : List Char → Option (Value × List Char)}
    (hi : ∀ {cs v r}, item cs = some (v, r) → v.Bounded) {n : Nat} {vs : List Value}
    (h : items item n cs = some (vs, r)) : ∀ v ∈ vs, v.Bounded := by
  induction n generalizing cs vs r with
  | zero => cases h
  | succ n ih =>
      simp only [items] at h
      obtain ⟨cs, -, h⟩ := Option.bind_eq_some_iff.mp h
      split at h
      · cases h
        nofun
      · obtain ⟨⟨v, r₁⟩, hv, h⟩ := Option.bind_eq_some_iff.mp h
        obtain ⟨cs, -, h⟩ := Option.bind_eq_some_iff.mp h
        split at h
        · obtain ⟨⟨vs, r₂⟩, hvs, h⟩ := Option.bind_eq_some_iff.mp h
          cases h
          exact List.forall_mem_cons.mpr ⟨hi hv, ih hvs⟩
        · cases h
          exact List.forall_mem_cons.mpr ⟨hi hv, nofun⟩
        · cases h

theorem pair?_bounded {value : List Char → Option (Value × List Char)}
    (hv : ∀ {cs v r}, value cs = some (v, r) → v.Bounded) {ps : List String}
    (h : pair? value cs = some ((ps, k, v), r)) : v.Bounded := by
  obtain ⟨⟨⟨_, _⟩, _⟩, -, h⟩ := Option.bind_eq_some_iff.mp h
  dsimp only at h
  split at h
  · obtain ⟨⟨w, _⟩, hw, h⟩ := Option.bind_eq_some_iff.mp h
    cases h
    exact hv hw
  · cases h

theorem pairs_bounded {value : List Char → Option (Value × List Char)}
    (hv : ∀ {cs v r}, value cs = some (v, r) → v.Bounded) {n : Nat} (hd : d.entries.Bounded)
    (h : pairs value n d cs = some (d', r)) : d'.entries.Bounded := by
  induction n generalizing cs d with
  | zero => cases h
  | succ n ih =>
      obtain ⟨⟨⟨ps, k, v⟩, r₁⟩, hp, h⟩ := Option.bind_eq_some_iff.mp h
      obtain ⟨d₁, ha, h⟩ := Option.bind_eq_some_iff.mp h
      have hd₁ := Draft.add_bounded hd (pair?_bounded hv hp) ha
      split at h
      · exact ih hd₁ h
      · cases h
        exact hd₁
      · cases h

theorem value_bounded {depth : Nat} (h : value depth cs = some (v, r)) : v.Bounded := by
  induction depth generalizing cs v r with
  | zero => exact flat?_bounded h
  | succ depth ih =>
      simp only [value] at h
      split at h
      · obtain ⟨⟨vs, _⟩, hvs, h⟩ := Option.map_eq_some_iff.mp h
        cases h
        exact .array (items_bounded ih hvs)
      · split at h
        · cases h
          exact .table nofun
        · obtain ⟨⟨d, _⟩, hd, h⟩ := Option.map_eq_some_iff.mp h
          cases h
          exact .table (pairs_bounded ih (d := ⟨.braces, []⟩) nofun hd)
      · exact flat?_bounded h

/-! ## Documents -/

namespace Reading

/-- A document all of whose integers so far are in range. -/
def Bounded (s : Reading) : Prop := s.root.entries.Bounded ∧ s.current.entries.Bounded

variable {s s' : Reading} {ps : List String}

theorem Bounded.finish (hs : s.Bounded) (h : s.finish = some d) : d.entries.Bounded := by
  unfold Reading.finish at h
  split at h
  · cases h
    exact hs.2
  · exact Draft.putTable_bounded hs.1 hs.2 h
  · exact Draft.pushTable_bounded hs.1 hs.2 h

theorem Bounded.table (hs : s.Bounded) (h : s.table ps k = some s') : s'.Bounded := by
  obtain ⟨d, hd, h⟩ := Option.bind_eq_some_iff.mp h
  obtain ⟨⟨es, d'⟩, ht, h⟩ := Option.bind_eq_some_iff.mp h
  cases h
  exact (Draft.takeOut_bounded (hs.finish hd) ht).symm

theorem Bounded.item (hs : s.Bounded) (h : s.item ps k = some s') : s'.Bounded := by
  obtain ⟨d, hd, h⟩ := Option.bind_eq_some_iff.mp h
  obtain ⟨d', ht, h⟩ := Option.bind_eq_some_iff.mp h
  cases h
  exact ⟨Draft.openTables_bounded (hs.finish hd) ht, nofun⟩

theorem Bounded.add (hs : s.Bounded) (hv : v.Bounded) (h : s.add ps k v = some s') :
    s'.Bounded := by
  obtain ⟨d, hd, h⟩ := Option.bind_eq_some_iff.mp h
  cases h
  exact ⟨hs.1, Draft.add_bounded hs.2 hv hd⟩

theorem Bounded.line (hs : s.Bounded) (h : s.line cs = some (s', r)) : s'.Bounded := by
  unfold Reading.line at h
  split at h
  · obtain ⟨⟨⟨ps, k⟩, r₁⟩, -, h⟩ := Option.bind_eq_some_iff.mp h
    dsimp only at h
    split at h
    · obtain ⟨_, -, h⟩ := Option.bind_eq_some_iff.mp h
      obtain ⟨s₁, hs₁, h⟩ := Option.bind_eq_some_iff.mp h
      cases h
      exact hs.item hs₁
    · cases h
  · obtain ⟨⟨⟨ps, k⟩, r₁⟩, -, h⟩ := Option.bind_eq_some_iff.mp h
    dsimp only at h
    split at h
    · obtain ⟨_, -, h⟩ := Option.bind_eq_some_iff.mp h
      obtain ⟨s₁, hs₁, h⟩ := Option.bind_eq_some_iff.mp h
      cases h
      exact hs.table hs₁
    · cases h
  · split at h
    · cases h
      exact hs
    · obtain ⟨⟨⟨ps, k, v⟩, r₁⟩, hp, h⟩ := Option.bind_eq_some_iff.mp h
      obtain ⟨_, -, h⟩ := Option.bind_eq_some_iff.mp h
      obtain ⟨s₁, hs₁, h⟩ := Option.bind_eq_some_iff.mp h
      cases h
      exact hs.add (pair?_bounded value_bounded hp) hs₁

theorem Bounded.lines {n : Nat} (hs : s.Bounded) (h : lines n s cs = some s') : s'.Bounded := by
  induction n generalizing s cs with
  | zero =>
      cases cs <;> cases h
      exact hs
  | succ n ih =>
      cases cs with
      | nil => cases h; exact hs
      | cons c cs =>
          obtain ⟨⟨s₁, r⟩, hl, h⟩ := Option.bind_eq_some_iff.mp h
          exact ih (hs.line hl) h

end Reading

/-- Every integer of a document is in range. -/
theorem parse?_bounded {text : String} (h : parse? text = some es) : es.Bounded := by
  obtain ⟨s, hs, h⟩ := Option.bind_eq_some_iff.mp h
  obtain ⟨d, hd, h⟩ := Option.bind_eq_some_iff.mp h
  cases h
  have hb : s.Bounded := Reading.Bounded.lines (s := .start) ⟨nofun, nofun⟩ hs
  exact hb.finish hd

end Rfcomm.Toml

namespace Rfcomm.Config

open Toml (Value Entries)

variable {v : Value} {es : Entries} {t : Tuning} {c : Config}

/-! ## Settings -/

theorem number?_le {n : UInt64} (hv : v.Bounded) (h : number? v = some n) : n.toNat ≤ largest := by
  obtain ⟨m, hm, rfl⟩ := Option.map_eq_some_iff.mp h
  unfold natural? at hm
  split at hm
  · obtain ⟨hr, hm⟩ := Option.ite_none_right_eq_some.mp hm
    cases hm
    cases hv with
    | integer hn =>
        simp only [Toml.inRange, Bool.and_eq_true, decide_eq_true_eq] at hn
        rw [UInt64.toNat_ofNat', largest]
        omega
  · cases hm

theorem fields?_bounded {names : List String} {vs : List (Option Value)} (hv : v.Bounded)
    (h : fields? names v = some vs) : ∀ w, some w ∈ vs → w.Bounded := by
  intro w hw
  unfold fields? at h
  split at h <;> cases h
  · cases hv with
    | table hes =>
        obtain ⟨k, -, hk⟩ := List.mem_map.mp hw
        exact Toml.Entries.Bounded.get? hes hk
  · obtain ⟨i, -, hi⟩ := List.mem_map.mp hw
    cases hv with
    | array hvs => exact hvs _ (List.mem_of_getElem? hi)
  · obtain ⟨i, -, hi⟩ := List.mem_map.mp hw
    cases hv with
    | tables hvs => exact hvs _ (List.mem_of_getElem? hi)

theorem orDefault_number_le {d n : UInt64} {o : Option Value} (hd : d.toNat ≤ largest)
    (ho : ∀ w, o = some w → w.Bounded) (h : orDefault d number? o = some n) :
    n.toNat ≤ largest := by
  cases o with
  | none => cases h; exact hd
  | some w => exact number?_le (ho w rfl) h

theorem tuning?_le (hv : v.Bounded) (h : tuning? v = some t) :
    ∀ n ∈ t.numbers, n.toNat ≤ largest := by
  obtain ⟨vs, hvs, h⟩ := Option.bind_eq_some_iff.mp h
  have hw := fields?_bounded hv hvs
  split at h
  · obtain ⟨n₁, h₁, h⟩ := Option.bind_eq_some_iff.mp h
    obtain ⟨n₂, h₂, h⟩ := Option.bind_eq_some_iff.mp h
    obtain ⟨n₃, h₃, h⟩ := Option.bind_eq_some_iff.mp h
    obtain ⟨n₄, h₄, h⟩ := Option.bind_eq_some_iff.mp h
    cases h
    simp only [Tuning.numbers, List.forall_mem_cons]
    exact ⟨orDefault_number_le (by decide) (fun w he => hw w (by simp [he])) h₁,
      orDefault_number_le (by decide) (fun w he => hw w (by simp [he])) h₂,
      orDefault_number_le (by decide) (fun w he => hw w (by simp [he])) h₃,
      orDefault_number_le (by decide) (fun w he => hw w (by simp [he])) h₄, nofun⟩
  · cases h

/-- The numbers of settings that were read are such as a document can hold. -/
theorem numbers_le {path : String} {content : ByteArray} (h : ofBytes path content = .ok c) :
    ∀ n ∈ c.link.numbers, n.toNat ≤ largest := by
  unfold ofBytes at h
  split at h
  · cases h
  · split at h
    · rename_i hp
      cases h
      obtain ⟨es, hes, hp⟩ := Option.bind_eq_some_iff.mp hp
      obtain ⟨_, -, hp⟩ := Option.bind_eq_some_iff.mp hp
      obtain ⟨_, -, hp⟩ := Option.bind_eq_some_iff.mp hp
      obtain ⟨_, -, hp⟩ := Option.bind_eq_some_iff.mp hp
      obtain ⟨t, ht, hp⟩ := Option.bind_eq_some_iff.mp hp
      cases hp
      cases hl : es.get? "link" with
      | none =>
          rw [hl] at ht
          cases ht
          simp only [Tuning.numbers, List.forall_mem_cons]
          exact ⟨by decide, by decide, by decide, by decide, nofun⟩
      | some v =>
          rw [hl] at ht
          exact tuning?_le ((Toml.parse?_bounded hes).get? hl) ht
    · cases h

end Rfcomm.Config
