import Mathlib.Algebra.Group.Nat.Defs
import Rfcomm.Text.Hex
/-! The numbers that digits stand for: digits in a row, and digits that were written. -/
namespace Rfcomm.Text

theorem ofDigits_append (base : Nat) (xs ys : List Nat) :
    ofDigits base (xs ++ ys) = ofDigits base xs * base ^ ys.length + ofDigits base ys := by
  have hfold : ∀ n, ys.foldl (fun n d => n * base + d) n = n * base ^ ys.length + ofDigits base ys := by
    induction ys with
    | nil => simp [ofDigits]
    | cons y ys ih =>
      intro n
      simp only [List.foldl_cons, ofDigits, ih (n * base + y), ih (0 * base + y), List.length_cons]
      grind
  rw [ofDigits, List.foldl_append, hfold]
  rfl

theorem ofDigits_lt (cs : List Char) : ofDigits 16 (cs.map digitValue) < 16 ^ cs.length := by
  induction cs with
  | nil => decide
  | cons c cs ih =>
    have hc := digitValue_lt c
    have hsplit := ofDigits_append 16 [digitValue c] (cs.map digitValue)
    simp only [List.singleton_append, List.length_map] at hsplit
    rw [List.map_cons, hsplit, List.length_cons, Nat.pow_succ]
    have hone : ofDigits 16 [digitValue c] = digitValue c := by simp [ofDigits]
    rw [hone]
    have hle : digitValue c * 16 ^ cs.length ≤ 15 * 16 ^ cs.length :=
      Nat.mul_le_mul_right _ (by omega)
    omega

/-- Digits that are written stand for the number, as far as its digits go. -/
theorem ofDigits_hexDigits {digit : Nat → Char}
    (h : ∀ {n}, n < 16 → hexDigit? (digit n) = some n) (width n : Nat) :
    ofDigits 16 ((hexDigits digit width n).map digitValue) = n % 16 ^ width := by
  induction width generalizing n with
  | zero => simp [hexDigits, ofDigits, Nat.mod_one]
  | succ w ih =>
    have hlast : digitValue (digit (n % 16)) = n % 16 := by
      rw [digitValue, h (Nat.mod_lt n (by decide)), Option.getD_some]
    rw [hexDigits, List.map_append, ofDigits_append, ih, List.map_singleton, hlast, Nat.pow_succ,
      Nat.mul_comm (16 ^ w) 16, Nat.mod_mul]
    simp [ofDigits]
    omega

/-- What is written with enough digits reads back. -/
theorem hexNat?_lowerHex {width n : Nat} (hw : 0 < width) (hn : n < 16 ^ width) :
    hexNat? (lowerHex width n) = some n := by
  have hne : lowerHex width n ≠ [] := by
    rw [← List.length_pos_iff, lowerHex, length_hexDigits]
    exact hw
  rw [hexNat?_of_isHex hne fun c => isHex_of_mem_lowerHex, lowerHex,
    ofDigits_hexDigits hexDigit?_lowerDigit, Nat.mod_eq_of_lt hn]

end Rfcomm.Text
