import Rfcomm.Toml.Document
/-!
Decimal numbers as words: they stand for integers, and a reader does not take them for anything else,
neither for dates nor for times of day.
-/
namespace Rfcomm.Toml

variable {c d : Char} {ds r xs : List Char} {n w : Nat}

/-! ## Digits -/

theorem ne_of_isDigit (hc : c.isDigit = true) (hd : d.isDigit = false) : c ≠ d := by
  rintro rfl
  rw [hc] at hd
  cases hd

theorem isDigit_of_mem (h : c ∈ Nat.toDigits 10 n) : c.isDigit = true :=
  Nat.isDigit_of_mem_toDigits (by decide) (by decide) h

theorem hexDigit?_of_isDigit (h : c.isDigit = true) : Text.hexDigit? c = some (c.toNat - '0'.toNat) :=
  if_pos (Char.isDigit_iff_toNat.mp h)

theorem ofDigits_digitsOf (h : ∀ c ∈ ds, c.isDigit = true) :
    Text.ofDigits 10 (digitsOf ds) = Nat.ofDigitChars 10 ds 0 := by
  have hfold : ∀ m, (digitsOf ds).foldl (fun n d => n * 10 + d) m = Nat.ofDigitChars 10 ds m := by
    induction ds with
    | nil => exact fun _ => rfl
    | cons c cs ih =>
      intro m
      rw [List.forall_mem_cons] at h
      have hne := ne_of_isDigit (d := '_') h.1 rfl
      rw [Nat.ofDigitChars_cons, ← ih h.2, Nat.mul_comm 10 m]
      simp [digitsOf, hne, hexDigit?_of_isDigit h.1]
  exact hfold 0

theorem head?_toDigits (hn : 0 < n) : (Nat.toDigits 10 n).head? ≠ some '0' := by
  induction n using Nat.strongRecOn with
  | ind n ih =>
    by_cases hlt : n < 10
    · rw [Nat.toDigits_of_lt_base hlt, List.head?_cons, ne_eq, Option.some.injEq, Nat.digitChar_eq_zero]
      omega
    · have hhead := ih (n / 10) (by omega) (by omega)
      rw [Nat.toDigits_of_base_le (by decide) (by omega)]
      cases hds : Nat.toDigits 10 (n / 10) with
      | nil => exact absurd hds Nat.toDigits_ne_nil
      | cons d ds =>
        rw [hds] at hhead
        exact hhead

theorem separated_of_digits (hne : ds ≠ []) (h : ∀ c ∈ ds, c.isDigit = true) :
    separated Char.isDigit ds = true := by
  induction ds with
  | nil => exact absurd rfl hne
  | cons c cs ih =>
    rw [List.forall_mem_cons] at h
    cases cs with
    | nil => exact h.1
    | cons d cs =>
      rw [separated, h.1, ih nofun h.2]
      · rfl
      · exact nofun
      · rintro _ he
        cases he
        exact ne_of_isDigit (d := '_') (h.2 '_' (.head cs)) rfl rfl

theorem isDecimal_toDigits (n : Nat) : isDecimal (Nat.toDigits 10 n) = true := by
  rw [isDecimal, separated_of_digits Nat.toDigits_ne_nil fun _ => isDigit_of_mem, Bool.true_and]
  by_cases hn : n = 0
  · subst hn
    rfl
  · have hhead := head?_toDigits (Nat.pos_of_ne_zero hn)
    simp [hhead]

/-! ## Integers -/

theorem signed_of_digits (h : ∀ c ∈ ds, c.isDigit = true) : signed ds = (false, ds) := by
  unfold signed
  split
  · cases h '+' (.head _)
  · cases h '-' (.head _)
  · rfl

theorem integer?_toDigits (hn : inRange n = true) : integer? (Nat.toDigits 10 n) = some (n : Int) := by
  have hdigits : ∀ c ∈ Nat.toDigits 10 n, c.isDigit = true := fun _ => isDigit_of_mem
  unfold integer?
  dsimp only
  split
  · rename_i ds he
    cases hdigits 'x' (he ▸ .tail _ (.head ds))
  · rename_i ds he
    cases hdigits 'o' (he ▸ .tail _ (.head ds))
  · rename_i ds he
    cases hdigits 'b' (he ▸ .tail _ (.head ds))
  · rw [signed_of_digits hdigits, if_pos (isDecimal_toDigits n), ofDigits_digitsOf hdigits,
      Nat.ofDigitChars_toDigits (by decide) (by decide)]
    exact if_pos hn

theorem word?_toDigits (hn : inRange n = true) : word? (Nat.toDigits 10 n) = some (.integer n) := by
  have hnot : ∀ {w : List Char}, (∃ c ∈ w, c.isDigit = false) → Nat.toDigits 10 n ≠ w := by
    rintro w ⟨c, hc, hd⟩ rfl
    rw [isDigit_of_mem hc] at hd
    cases hd
  rw [word?, if_neg (hnot ⟨'t', by decide, rfl⟩), if_neg (hnot ⟨'f', by decide, rfl⟩),
    integer?_toDigits hn]

/-! ## Dates -/

/-- Behind digits that were taken stand the others. -/
theorem fixedDigits?_of_digits (h : ∀ c ∈ ds, c.isDigit = true)
    (hf : fixedDigits? w (ds ++ '\n' :: r) = some (n, xs)) :
    ∃ ds', xs = ds' ++ '\n' :: r ∧ ∀ c ∈ ds', c.isDigit = true := by
  obtain ⟨ht, hf⟩ := Option.ite_none_right_eq_some.mp hf
  rw [Bool.and_eq_true, List.all_eq_true] at ht
  cases hf
  have hw : w ≤ ds.length := Nat.le_of_not_lt fun hlt => by
    have hmem : '\n' ∈ (ds ++ '\n' :: r).take w := by
      obtain ⟨k, hk⟩ : ∃ k, w - ds.length = k + 1 := ⟨w - ds.length - 1, by omega⟩
      rw [List.take_append, hk]
      exact List.mem_append_right _ (.head _)
    cases ht.2 '\n' hmem
  exact ⟨ds.drop w, List.drop_append_of_le_length hw, fun c hc => h c (List.mem_of_mem_drop hc)⟩

theorem oneOf?_of_digits (h : ∀ c ∈ ds, c.isDigit = true) (hc : c.isDigit = false) (hn : c ≠ '\n') :
    oneOf? [c] (ds ++ '\n' :: r) = none := by
  have hnot : ∀ {x xs}, x ≠ c → oneOf? [c] (x :: xs) = none := by
    intro x xs hx
    simp [oneOf?, hx]
  cases ds with
  | nil => exact hnot hn.symm
  | cons d ds => exact hnot (ne_of_isDigit (h d (.head ds)) hc)

/-- What goes on with a mark behind digits finds none. -/
theorem bind_mark_of_digits {α : Type} {k : Nat × List Char → List Char → Option α}
    (h : ∀ c ∈ ds, c.isDigit = true) (hc : c.isDigit = false) (hn : c ≠ '\n') :
    ((fixedDigits? w (ds ++ '\n' :: r)).bind fun p => (oneOf? [c] p.2).bind (k p)) = none := by
  cases hf : fixedDigits? w (ds ++ '\n' :: r) with
  | none => rfl
  | some p =>
    obtain ⟨_, xs⟩ := p
    obtain ⟨ds', rfl, h'⟩ := fixedDigits?_of_digits h hf
    rw [Option.bind_some, oneOf?_of_digits h' hc hn, Option.bind_none]

/-- A line of digits begins with no date and no time of day. -/
theorem datetime?_of_digits (h : ∀ c ∈ ds, c.isDigit = true) : datetime? (ds ++ '\n' :: r) = none := by
  have hdate : date? (ds ++ '\n' :: r) = none := bind_mark_of_digits h rfl (by decide)
  have htime : time? (ds ++ '\n' :: r) = none := bind_mark_of_digits h rfl (by decide)
  rw [datetime?, hdate]
  exact htime

theorem isWord_of_isDigit (h : c.isDigit = true) : isWord c = true := by
  simp [isWord, Char.isAlphanum, h]

/-- A number at the end of a line. -/
theorem scalar?_toDigits (hn : inRange n = true) (r : List Char) :
    scalar? (Nat.toDigits 10 n ++ '\n' :: r) = some (.integer n, '\n' :: r) := by
  have hword : ∀ c ∈ Nat.toDigits 10 n, isWord c = true := fun _ hc =>
    isWord_of_isDigit (isDigit_of_mem hc)
  rw [scalar?, datetime?_of_digits fun _ => isDigit_of_mem]
  dsimp only
  rw [List.takeWhile_append_of_pos hword, List.dropWhile_append_of_pos hword,
    List.takeWhile_cons_of_neg (by decide), List.dropWhile_cons_of_neg (by decide), List.append_nil,
    word?_toDigits hn]
  rfl

end Rfcomm.Toml
