/-! Hexadecimal digits: reading in either case, writing with a fixed number of digits. -/
namespace Rfcomm.Text

def hexDigit? (c : Char) : Option Nat :=
  let n := c.toNat
  if 48 ≤ n ∧ n ≤ 57 then some (n - 48)
  else if 97 ≤ n ∧ n ≤ 102 then some (n - 87)
  else if 65 ≤ n ∧ n ≤ 70 then some (n - 55)
  else none

/-- Whether `c` is one of `0-9`, `a-f`, `A-F`. -/
def isHex (c : Char) : Bool := (hexDigit? c).isSome

/-- The number that digits of a base stand for, most significant first. -/
def ofDigits (base : Nat) (ds : List Nat) : Nat :=
  ds.foldl (fun n d => n * base + d) 0

/-- The number that one or more hexadecimal digits stand for. -/
def hexNat? (cs : List Char) : Option Nat :=
  if cs.isEmpty then none else (cs.mapM hexDigit?).map (ofDigits 16)

/-- The digit for a value below sixteen, in lower case. -/
def lowerDigit (n : Nat) : Char :=
  if n < 10 then Char.ofNat (48 + n) else Char.ofNat (87 + n)

/-- The digit for a value below sixteen, in upper case. -/
def upperDigit (n : Nat) : Char :=
  if n < 10 then Char.ofNat (48 + n) else Char.ofNat (55 + n)

/-- The last `width` digits of `n`, with zeros in front where it is shorter. -/
def hexDigits (digit : Nat → Char) : Nat → Nat → List Char
  | 0, _ => []
  | width + 1, n => hexDigits digit width (n / 16) ++ [digit (n % 16)]

def lowerHex (width n : Nat) : List Char := hexDigits lowerDigit width n

def upperHex (width n : Nat) : List Char := hexDigits upperDigit width n

/-! ## Facts -/

@[simp] theorem length_hexDigits (digit : Nat → Char) (width n : Nat) :
    (hexDigits digit width n).length = width := by
  induction width generalizing n with
  | zero => rfl
  | succ w ih => simp [hexDigits, ih]

theorem hexDigit?_lowerDigit {n : Nat} (h : n < 16) : hexDigit? (lowerDigit n) = some n := by
  rcases n with _ | _ | _ | _ | _ | _ | _ | _ | _ | _ | _ | _ | _ | _ | _ | _ | n
  all_goals first | rfl | omega

theorem hexDigit?_upperDigit {n : Nat} (h : n < 16) : hexDigit? (upperDigit n) = some n := by
  rcases n with _ | _ | _ | _ | _ | _ | _ | _ | _ | _ | _ | _ | _ | _ | _ | _ | n
  all_goals first | rfl | omega

/-- The value of a digit; other characters count as zero. -/
def digitValue (c : Char) : Nat := (hexDigit? c).getD 0

theorem hexDigit?_of_isHex {c : Char} (h : isHex c = true) : hexDigit? c = some (digitValue c) := by
  obtain ⟨n, hn⟩ := Option.isSome_iff_exists.mp h
  rw [digitValue, hn, Option.getD_some]

theorem digitValue_lt (c : Char) : digitValue c < 16 := by
  unfold digitValue hexDigit?
  grind

theorem mapM_hexDigit? {cs : List Char} (h : ∀ c ∈ cs, isHex c = true) :
    cs.mapM hexDigit? = some (cs.map digitValue) := by
  induction cs with
  | nil => rfl
  | cons c cs ih =>
    rw [List.forall_mem_cons] at h
    simp [hexDigit?_of_isHex h.1, ih h.2]

theorem hexNat?_of_isHex {cs : List Char} (hne : cs ≠ []) (h : ∀ c ∈ cs, isHex c = true) :
    hexNat? cs = some (ofDigits 16 (cs.map digitValue)) := by
  simp [hexNat?, hne, mapM_hexDigit? h]

theorem mem_hexDigits {digit : Nat → Char} {width n : Nat} {c : Char}
    (h : c ∈ hexDigits digit width n) : ∃ d < 16, c = digit d := by
  induction width generalizing n with
  | zero => cases h
  | succ w ih =>
    rcases List.mem_append.mp h with h | h
    · exact ih h
    · exact ⟨n % 16, Nat.mod_lt n (by decide), List.mem_singleton.mp h⟩

theorem isHex_of_mem_lowerHex {width n : Nat} {c : Char} (h : c ∈ lowerHex width n) :
    isHex c = true := by
  obtain ⟨d, hd, rfl⟩ := mem_hexDigits h
  rw [isHex, hexDigit?_lowerDigit hd]
  rfl

end Rfcomm.Text
