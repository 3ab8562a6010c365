import Mathlib.Tactic.SplitIfs
import Rfcomm.Toml.Lexical
import Rfcomm.Toml.Quoted
/-!
Quoted text reads back, whatever is in it and whichever quoting it gets.
-/
namespace Rfcomm.Toml

variable {c x : Char} {cs xs r : List Char}

/-! ## Characters -/

/-- The code of a character that is one octet long, in the four digits it is written with. -/
theorem codePoint?_code (h : c.toNat < 256) :
    codePoint? ['0', '0', codeDigit (c.toNat / 16), codeDigit (c.toNat % 16)] = some c := by
  have hzero : Text.hexDigit? '0' = some 0 := rfl
  have hhigh : Text.hexDigit? (codeDigit (c.toNat / 16)) = some (c.toNat / 16) :=
    Text.hexDigit?_upperDigit (by omega)
  have hlow : Text.hexDigit? (codeDigit (c.toNat % 16)) = some (c.toNat % 16) :=
    Text.hexDigit?_upperDigit (by omega)
  have hdigits : Text.hexNat? ['0', '0', codeDigit (c.toNat / 16), codeDigit (c.toNat % 16)] =
      some c.toNat := by
    simp [Text.hexNat?, hzero, hhigh, hlow, Text.ofDigits]
    omega
  rw [codePoint?, hdigits, Option.bind_some, if_pos (.inl (by omega)), Char.ofNat_toNat]

theorem isPlain_of_not_isControl (h : isControl c = false) (hc : c ≠ '\n') : isPlain c = true := by
  unfold isControl at h
  unfold isPlain
  grind

theorem ne_of_isPlain (h : isPlain c = true) : c ≠ '\n' ∧ c ≠ '\r' := by
  constructor <;> (rintro rfl; cases h)

/-- A character other than a quote is written as it is or as one of two kinds of escapes. -/
theorem escapeChar_cases (lines : Bool) (c : Char) :
    (escapeChar lines c = [c] ∧ (lines = true ∧ c = '\n' ∨ isPlain c = true ∧ c ≠ '\\')) ∨
      (∃ x, escapeChar lines c = ['\\', x] ∧ escaped? x = some c) ∨
      (escapeChar lines c = ['\\', 'u', '0', '0', codeDigit (c.toNat / 16), codeDigit (c.toNat % 16)] ∧
        c.toNat < 256) := by
  unfold escapeChar
  split_ifs with hb ht hn hl hf hr hs hc
  · exact .inr (.inl ⟨_, rfl, hb ▸ rfl⟩)
  · exact .inr (.inl ⟨_, rfl, ht ▸ rfl⟩)
  · exact .inl ⟨hn ▸ rfl, .inl ⟨hl, hn⟩⟩
  · exact .inr (.inl ⟨_, rfl, hn ▸ rfl⟩)
  · exact .inr (.inl ⟨_, rfl, hf ▸ rfl⟩)
  · exact .inr (.inl ⟨_, rfl, hr ▸ rfl⟩)
  · subst c
    exact .inr (.inl ⟨_, rfl, rfl⟩)
  · have hlt : c.toNat < 256 := by
      unfold isControl at hc
      grind
    exact .inr (.inr ⟨rfl, hlt⟩)
  · rw [Bool.not_eq_true] at hc
    exact .inl ⟨rfl, .inr ⟨isPlain_of_not_isControl hc hn, hs⟩⟩

/-! ## Readers -/

section
variable {f : List Char → Option (List Char × List Char)} {q : Char} {n : Nat}

/-- Readers that take escapes for the characters they stand for. -/
structure Unescapes (f : List Char → Option (List Char × List Char)) : Prop where
  escaped {c x : Char} {cs xs r : List Char} :
    escaped? x = some c → f xs = some (cs, r) → f ('\\' :: x :: xs) = some (c :: cs, r)
  code {c : Char} {cs xs r : List Char} : c.toNat < 256 → f xs = some (cs, r) →
    f ('\\' :: 'u' :: '0' :: '0' :: codeDigit (c.toNat / 16) :: codeDigit (c.toNat % 16) :: xs) =
      some (c :: cs, r)

/-- They take what a character is written as for the character, if they do where it stands for itself. -/
theorem Unescapes.escapeChar (hf : Unescapes f) {lines : Bool} (h : f xs = some (cs, r))
    (hself : lines = true ∧ c = '\n' ∨ isPlain c = true ∧ c ≠ '\\' →
      f (c :: xs) = some (c :: cs, r)) :
    f (escapeChar lines c ++ xs) = some (c :: cs, r) := by
  rcases escapeChar_cases lines c with ⟨he, hc⟩ | ⟨x, he, hx⟩ | ⟨he, hc⟩
  · exact he ▸ hself hc
  · exact he ▸ hf.escaped hx h
  · exact he ▸ hf.code hc h

/-- Where a quote is text unless it begins three, fewer than three in a row are text. -/
theorem quotes_of_fewer
    (hf : ∀ {cs xs r}, ¬ [q, q, q] <+: q :: xs → f xs = some (cs, r) → f (q :: xs) = some (q :: cs, r))
    (hn : n ≤ 2) (hx : xs.head? ≠ some q) (h : f xs = some (cs, r)) :
    f (List.replicate n q ++ xs) = some (List.replicate n q ++ cs, r) := by
  induction n with
  | zero => exact h
  | succ n ih =>
    rw [List.replicate_succ, List.cons_append, List.cons_append]
    refine hf ?_ (ih (by omega))
    rintro ⟨ys, he⟩
    obtain rfl | rfl : n = 0 ∨ n = 1 := by omega
    all_goals
      cases he
      exact hx rfl

end

/-! ## Within a line -/

theorem basicBody_plain (hc : isPlain c = true) (hq : c ≠ '"') (hs : c ≠ '\\')
    (h : basicBody xs = some (cs, r)) : basicBody (c :: xs) = some (c :: cs, r) := by
  rw [basicBody, hc, h]
  · simp [hs]
  · exact fun he => hq he
  all_goals
    intros
    exact absurd ‹c = '\\'› hs

theorem unescapes_basicBody : Unescapes basicBody where
  escaped hx h := by
    rw [basicBody, hx, h]
    · rfl
    · rintro _ _ _ _ _ rfl
      cases hx
    · rintro _ _ _ _ _ _ _ _ _ rfl
      cases hx
  code hc h := by
    rw [basicBody, codePoint?_code hc, h]
    rfl

/-- Escaped text ends at the quote behind it. -/
theorem basicBody_escapeText (n : Nat) (cs r : List Char) :
    basicBody (escapeText false n cs ++ '"' :: r) = some (cs, r) := by
  induction cs generalizing n with
  | nil => rfl
  | cons c cs ih =>
    rw [escapeText]
    split
    · subst c
      exact unescapes_basicBody.escaped rfl (ih 0)
    · rename_i hq
      rw [List.append_assoc]
      refine unescapes_basicBody.escapeChar (ih 0) ?_
      rintro (⟨hl, -⟩ | ⟨hc, hs⟩)
      · cases hl
      · exact basicBody_plain hc hq hs (ih 0)

theorem literalBody_append (h : ∀ c ∈ cs, isPlain c = true ∧ c ≠ '\'') (r : List Char) :
    literalBody (cs ++ '\'' :: r) = some (cs, r) := by
  induction cs with
  | nil => rfl
  | cons c cs ih =>
    rw [List.forall_mem_cons] at h
    rw [List.cons_append, literalBody, h.1.1, ih h.2]
    · rfl
    · exact fun he => h.1.2 he

/-! ## On several lines -/

/-- A character that stands for itself: any plain one that is not a backslash and does not begin three
quotes. -/
theorem basicLines_plain (hc : isPlain c = true) (hs : c ≠ '\\')
    (hq : ¬ ['"', '"', '"'] <+: c :: xs) (h : basicLines false xs = some (cs, r)) :
    basicLines false (c :: xs) = some (c :: cs, r) := by
  have hbreak := ne_of_isPlain hc
  rw [basicLines, hc, h]
  · simp [hs]
  iterate 3
    rintro ys rfl rfl
    exact hq (by simp)
  all_goals grind

theorem basicLines_newline (h : basicLines false xs = some (cs, r)) :
    basicLines false ('\n' :: xs) = some ('\n' :: cs, r) := by
  rw [basicLines, h]
  · rfl
  · exact nofun

theorem unescapes_basicLines : Unescapes (basicLines false) where
  escaped {_ x _ xs _} hx h := by
    have hjoin : joinsLines (x :: xs) = false := by
      unfold escaped? at hx
      split at hx
      iterate 7 rfl
      cases hx
    rw [basicLines, if_neg (by rw [hjoin]; exact Bool.false_ne_true), hx, h]
    · rfl
    · rintro _ _ _ _ _ rfl
      cases hx
    · rintro _ _ _ _ _ _ _ _ _ rfl
      cases hx
  code hc h := by
    rw [basicLines, codePoint?_code hc, h]
    rfl

/-- Up to two quotes in front of the closing ones are text. -/
theorem basicLines_close {n : Nat} (hn : n ≤ 2) (r : List Char) :
    basicLines false (List.replicate n '"' ++ '"' :: '"' :: '"' :: '\n' :: r) =
      some (List.replicate n '"', '\n' :: r) := by
  obtain rfl | rfl | rfl : n = 0 ∨ n = 1 ∨ n = 2 := by omega
  all_goals rfl

theorem head?_escapeChar_append (lines : Bool) (hc : c ≠ '"') (xs : List Char) :
    (escapeChar lines c ++ xs).head? ≠ some '"' := by
  rcases escapeChar_cases lines c with ⟨he, -⟩ | ⟨x, he, -⟩ | ⟨he, -⟩ <;> rw [he] <;> simp [hc]

/-- Escaped text ends at the quotes behind it. The quotes just read are part of the text, and of those
in a row the escaped ones stand where the third would be. -/
theorem basicLines_escapeText {n : Nat} (hn : n ≤ 2) (cs r : List Char) :
    basicLines false (List.replicate n '"' ++ (escapeText true n cs ++ '"' :: '"' :: '"' :: '\n' :: r)) =
      some (List.replicate n '"' ++ cs, '\n' :: r) := by
  -- The quotes just read are kept apart: what they are is settled by the character behind them.
  induction cs generalizing n with
  | nil => exact (basicLines_close hn r).trans (by rw [List.append_nil])
  | cons c cs ih =>
    have hrest := ih (n := 0) (by omega)
    rw [escapeText]
    split
    · subst c
      simp only [↓reduceIte]
      split
      · have hnext := ih (n := n + 1) (by omega)
        rw [List.replicate_succ', List.append_assoc, List.append_assoc] at hnext
        exact hnext
      · refine quotes_of_fewer (basicLines_plain rfl (by decide)) hn nofun ?_
        exact unescapes_basicLines.escaped rfl hrest
    · rename_i hq
      rw [List.append_assoc]
      refine quotes_of_fewer (basicLines_plain rfl (by decide)) hn (head?_escapeChar_append true hq _) ?_
      refine unescapes_basicLines.escapeChar hrest ?_
      rintro (⟨-, rfl⟩ | ⟨hc, hs⟩)
      · exact basicLines_newline hrest
      · refine basicLines_plain hc hs ?_ hrest
        exact fun hp => hq (List.cons_prefix_cons.mp hp).1.symm

theorem literalLines_plain (hc : isPlain c = true) (hq : ¬ ['\'', '\'', '\''] <+: c :: xs)
    (h : literalLines xs = some (cs, r)) : literalLines (c :: xs) = some (c :: cs, r) := by
  have hbreak := ne_of_isPlain hc
  rw [literalLines, hc, h]
  · rfl
  iterate 3
    rintro ys rfl rfl
    exact hq (by simp)
  all_goals grind

theorem literalLines_newline (h : literalLines xs = some (cs, r)) :
    literalLines ('\n' :: xs) = some ('\n' :: cs, r) := by
  rw [literalLines, h]
  rfl

theorem literalLines_close {n : Nat} (hn : n ≤ 2) (r : List Char) :
    literalLines (List.replicate n '\'' ++ '\'' :: '\'' :: '\'' :: '\n' :: r) =
      some (List.replicate n '\'', '\n' :: r) := by
  obtain rfl | rfl | rfl : n = 0 ∨ n = 1 ∨ n = 2 := by omega
  all_goals rfl

theorem le_longestRun (c : Char) (n : Nat) (cs : List Char) : n ≤ longestRun.go c n cs := by
  induction cs generalizing n with
  | nil => exact Nat.le_refl n
  | cons x xs ih =>
    rw [longestRun.go]
    split
    · exact Nat.le_of_succ_le (ih (n + 1))
    · exact Nat.le_max_left _ _

/-- Text without three apostrophes in a row ends at those behind it. -/
theorem literalLines_append {n : Nat} (hrun : longestRun.go '\'' n cs ≤ 2)
    (h : ∀ c ∈ cs, isPlain c = true ∨ c = '\n') (r : List Char) :
    literalLines (List.replicate n '\'' ++ (cs ++ '\'' :: '\'' :: '\'' :: '\n' :: r)) =
      some (List.replicate n '\'' ++ cs, '\n' :: r) := by
  have hn := Nat.le_trans (le_longestRun '\'' n cs) hrun
  induction cs generalizing n with
  | nil => exact (literalLines_close hn r).trans (by rw [List.append_nil])
  | cons c cs ih =>
    rw [List.forall_mem_cons] at h
    rw [longestRun.go] at hrun
    split at hrun
    · subst c
      have hnext := ih hrun h.2 (Nat.le_trans (le_longestRun '\'' (n + 1) cs) hrun)
      rw [List.replicate_succ', List.append_assoc, List.append_assoc] at hnext
      exact hnext
    · rename_i hq
      have hrest := ih (n := 0) (by omega) h.2 (by omega)
      refine quotes_of_fewer (literalLines_plain rfl) hn (by simpa using hq) ?_
      rcases h.1 with hc | hc
      · refine literalLines_plain hc ?_ hrest
        exact fun hp => hq (List.cons_prefix_cons.mp hp).1.symm
      · subst c
        exact literalLines_newline hrest

/-! ## All kinds of quotes -/

/-- The line break that follows the opening marks of text with line breaks is no part of it. -/
theorem dropNewline_open (hn : xs.head? = some '\n' → '\n' ∈ cs) (hr : xs.head? ≠ some '\r') :
    dropNewline ((if cs.contains '\n' then ['\n'] else []) ++ xs) = xs := by
  split
  · rfl
  · rename_i h
    rw [List.contains_iff_mem] at h
    rw [List.nil_append]
    match xs with
    | [] => rfl
    | x :: xs =>
      have hx : x ≠ '\n' := fun he => h (hn (he ▸ rfl))
      have hx' : x ≠ '\r' := fun he => hr (he ▸ rfl)
      rw [dropNewline, newline?]
      · rfl
      · exact fun _ he => hx (List.cons.inj he).1
      · exact fun _ he => hx' (List.cons.inj he).1

theorem head?_escapeText (cs xs : List Char) :
    ((escapeText true 0 cs ++ '"' :: xs).head? = some '\n' → '\n' ∈ cs) ∧
      (escapeText true 0 cs ++ '"' :: xs).head? ≠ some '\r' := by
  cases cs with
  | nil => exact ⟨nofun, nofun⟩
  | cons c cs =>
    rw [escapeText]
    split
    · exact ⟨nofun, nofun⟩
    · rcases escapeChar_cases true c with ⟨he, ⟨-, hc⟩ | ⟨hc, -⟩⟩ | ⟨x, he, -⟩ | ⟨he, -⟩
      · subst c
        exact ⟨fun _ => .head cs, nofun⟩
      · obtain ⟨hn, hr⟩ := ne_of_isPlain hc
        rw [he]
        exact ⟨fun h => absurd (Option.some.inj h) hn, fun h => hr (Option.some.inj h)⟩
      · rw [he]
        exact ⟨nofun, nofun⟩
      · rw [he]
        exact ⟨nofun, nofun⟩

theorem head?_plain (h : ∀ c ∈ cs, isPlain c = true ∨ c = '\n') (xs : List Char) :
    ((cs ++ '\'' :: xs).head? = some '\n' → '\n' ∈ cs) ∧ (cs ++ '\'' :: xs).head? ≠ some '\r' := by
  cases cs with
  | nil => exact ⟨nofun, nofun⟩
  | cons c cs =>
    refine ⟨fun hc => Option.some.inj hc ▸ .head cs, fun hc => ?_⟩
    obtain rfl := Option.some.inj hc
    rcases h '\r' (.head cs) with h | h <;> cases h

/-! ### Choice -/

theorem not_mem_of_longestRun (h : longestRun.go c 0 cs = 0) : c ∉ cs := by
  induction cs with
  | nil => exact List.not_mem_nil
  | cons x xs ih =>
    rw [longestRun.go] at h
    split at h
    · exact absurd h (Nat.ne_of_gt (le_longestRun c 1 xs))
    · rename_i hx
      exact List.not_mem_cons_of_ne_of_not_mem (Ne.symm hx) (ih (by omega))

theorem plain_of_no_control (h : cs.any isControl = false) : ∀ c ∈ cs, isPlain c = true ∨ c = '\n' := by
  intro c hc
  by_cases hn : c = '\n'
  · exact .inr hn
  · have hctl := List.any_eq_false.mp h c hc
    rw [Bool.not_eq_true] at hctl
    exact .inl (isPlain_of_not_isControl hctl hn)

/-- Between apostrophes there are none, nor anything that would need an escape. -/
theorem plain_of_literal (h : quotingOf cs = .literal) : ∀ c ∈ cs, isPlain c = true ∧ c ≠ '\'' := by
  unfold quotingOf at h
  dsimp only at h
  split_ifs at h with _ hliteral
  simp only [Bool.and_eq_true, Bool.not_eq_true', decide_eq_true_eq] at hliteral
  obtain ⟨⟨hctl, hrun⟩, hline⟩ := hliteral
  intro c hc
  refine ⟨(plain_of_no_control hctl c hc).resolve_right ?_, ?_⟩
  · rintro rfl
    rw [List.contains_iff_mem.mpr hc] at hline
    cases hline
  · rintro rfl
    exact not_mem_of_longestRun hrun hc

theorem plain_of_literalLines (h : quotingOf cs = .literalLines) :
    (∀ c ∈ cs, isPlain c = true ∨ c = '\n') ∧ longestRun '\'' cs ≤ 2 := by
  unfold quotingOf at h
  dsimp only at h
  split_ifs at h with _ _ _ hlines
  simp only [Bool.and_eq_true, Bool.not_eq_true', decide_eq_true_eq] at hlines
  exact ⟨plain_of_no_control hlines.1, hlines.2⟩

/-! ### Reading -/

theorem write_basic (cs r : List Char) :
    Quoting.basic.write cs ++ r = '"' :: (escapeText false 0 cs ++ '"' :: r) := by
  simp [Quoting.write, Quoting.mark, Quoting.onLines, Quoting.escapes]

theorem write_literal (cs r : List Char) :
    Quoting.literal.write cs ++ r = '\'' :: (cs ++ '\'' :: r) := by
  simp [Quoting.write, Quoting.mark, Quoting.onLines, Quoting.escapes]

theorem write_basicLines (cs r : List Char) :
    Quoting.basicLines.write cs ++ r = '"' :: '"' :: '"' :: ((if cs.contains '\n' then ['\n'] else []) ++
      (escapeText true 0 cs ++ '"' :: '"' :: '"' :: r)) := by
  simp [Quoting.write, Quoting.mark, Quoting.onLines, Quoting.escapes]

theorem write_literalLines (cs r : List Char) :
    Quoting.literalLines.write cs ++ r =
      '\'' :: '\'' :: '\'' :: ((if cs.contains '\n' then ['\n'] else []) ++
        (cs ++ '\'' :: '\'' :: '\'' :: r)) := by
  simp [Quoting.write, Quoting.mark, Quoting.onLines, Quoting.escapes]

/-- What is quoted reads back, at the end of a line. -/
theorem quoted?_quote (cs r : List Char) : quoted? (quote cs ++ '\n' :: r) = some (cs, '\n' :: r) := by
  cases h : quotingOf cs with
  | basic =>
    rw [quote, h, write_basic, quoted?, basicBody_escapeText]
    rintro ys he
    cases cs with
    | nil => cases he
    | cons c cs =>
      rw [escapeText] at he
      split at he
      · cases he
      · rw [List.append_assoc] at he
        exact head?_escapeChar_append false ‹_› _ (congrArg List.head? he)
  | literal =>
    rw [quote, h, write_literal, quoted?]
    · exact literalBody_append (plain_of_literal h) _
    · rintro ys he
      cases cs with
      | nil => cases he
      | cons c cs => exact (plain_of_literal h c (.head cs)).2 (List.cons.inj he).1
  | basicLines =>
    obtain ⟨hn, hr⟩ := head?_escapeText cs ('"' :: '"' :: '\n' :: r)
    rw [quote, h, write_basicLines, quoted?, dropNewline_open hn hr]
    exact basicLines_escapeText (n := 0) (by decide) cs r
  | literalLines =>
    obtain ⟨hplain, hrun⟩ := plain_of_literalLines h
    obtain ⟨hn, hr⟩ := head?_plain hplain ('\'' :: '\'' :: '\n' :: r)
    rw [quote, h, write_literalLines, quoted?, dropNewline_open hn hr]
    exact literalLines_append (n := 0) hrun hplain r

example : quote "it's \"so\"".toList = "\"\"\"it's \"so\"\"\"\"".toList := by decide

end Rfcomm.Toml
