import Mathlib.Data.Nat.Bitwise
import Rfcomm.Proofs.Hex
import Rfcomm.Uuid
/-!
The written forms of identifiers. Reading accepts two short forms and the long one, in either case,
and nothing else; what a short form stands for is what its long form stands for.
-/
namespace Rfcomm.Uuid

open Text

/-! ## Forms -/

/-- The digits of base sixteen in lower case. -/
def lowerCase : String := "0123456789abcdef"

/-- The digits of base sixteen in either case. -/
def eitherCase : String := "0123456789abcdefABCDEF"

/-- Texts of `n` characters of an alphabet. -/
structure Group (alphabet : String) (n : Nat) (cs : List Char) : Prop where
  length : cs.length = n
  mem : ∀ c ∈ cs, c ∈ alphabet.toList

instance (alphabet : String) (n : Nat) (cs : List Char) : Decidable (Group alphabet n cs) :=
  decidable_of_iff (cs.length = n ∧ cs.all (fun c => decide (c ∈ alphabet.toList)) = true)
    ⟨fun h => ⟨h.1, fun c hc => of_decide_eq_true (List.all_eq_true.mp h.2 c hc)⟩,
      fun h => ⟨h.length, List.all_eq_true.mpr fun c hc => decide_eq_true (h.mem c hc)⟩⟩

/-- Five groups joined by hyphens. -/
inductive Hyphenated (alphabet : String) : List Char → Prop
  | intro {a b c d e : List Char} : Group alphabet 8 a → Group alphabet 4 b → Group alphabet 4 c →
      Group alphabet 4 d → Group alphabet 12 e →
      Hyphenated alphabet (a ++ '-' :: b ++ '-' :: c ++ '-' :: d ++ '-' :: e)

/-- The texts that stand for an identifier. -/
inductive Written : List Char → Prop
  | four {cs} : Group eitherCase 4 cs → Written cs
  | eight {cs} : Group eitherCase 8 cs → Written cs
  | long {cs} : Hyphenated eitherCase cs → Written cs

variable {cs ds : List Char} {n : Nat} {u : Uuid}

theorem isHex_iff {c : Char} : isHex c = true ↔ c ∈ eitherCase.toList := by
  have hlist : eitherCase.toList = ['0', '1', '2', '3', '4', '5', '6', '7', '8', '9', 'a', 'b', 'c',
      'd', 'e', 'f', 'A', 'B', 'C', 'D', 'E', 'F'] := rfl
  have hrange : isHex c = true ↔ (48 ≤ c.toNat ∧ c.toNat ≤ 57) ∨ (97 ≤ c.toNat ∧ c.toNat ≤ 102) ∨
      (65 ≤ c.toNat ∧ c.toNat ≤ 70) := by
    unfold isHex hexDigit?
    grind
  simp only [hrange, hlist, List.mem_cons, List.not_mem_nil, or_false, ← Char.toNat_inj]
  simp only [Char.reduceToNat]
  omega

theorem Group.isHex (h : Group eitherCase n cs) : ∀ c ∈ cs, isHex c = true := fun c hc =>
  isHex_iff.mpr (h.mem c hc)

theorem Group.of_isHex (hl : cs.length = n) (h : ∀ c ∈ cs, Text.isHex c = true) : Group eitherCase n cs :=
  ⟨hl, fun c hc => isHex_iff.mp (h c hc)⟩

theorem Group.no_hyphen (h : Group eitherCase n cs) : '-' ∉ cs := fun hc =>
  absurd (h.isHex _ hc) (by decide)

theorem Group.ne_nil (h : Group eitherCase (n + 1) cs) : cs ≠ [] :=
  List.ne_nil_of_length_eq_add_one h.length

/-! ## What is accepted -/

theorem ofChars?_of_short (h : Group eitherCase n cs) (hn : n = 4 ∨ n = 8) :
    ofChars? cs = some (ofShort (ofDigits 16 (cs.map digitValue))) := by
  have hne : cs ≠ [] := by
    rintro rfl
    obtain rfl : 0 = n := h.length
    omega
  have hcond : (cs.all Text.isHex && (cs.length == 4 || cs.length == 8)) = true := by
    rw [Bool.and_eq_true, List.all_eq_true, h.length]
    exact ⟨h.isHex, by simpa using hn⟩
  rw [ofChars?, if_pos hcond, hexNat?_of_isHex hne h.isHex]
  rfl

theorem fields_hyphenated {a b c d e : List Char} (ha : Group eitherCase 8 a)
    (hb : Group eitherCase 4 b) (hc : Group eitherCase 4 c) (hd : Group eitherCase 4 d)
    (he : Group eitherCase 12 e) :
    fields '-' (a ++ '-' :: b ++ '-' :: c ++ '-' :: d ++ '-' :: e) = [a, b, c, d, e] := by
  simp only [List.append_assoc, List.cons_append]
  rw [fields_append_sep ha.no_hyphen, fields_append_sep hb.no_hyphen, fields_append_sep hc.no_hyphen,
    fields_append_sep hd.no_hyphen, fields_of_not_mem he.no_hyphen]

theorem ofChars?_of_long {a b c d e : List Char} (ha : Group eitherCase 8 a)
    (hb : Group eitherCase 4 b) (hc : Group eitherCase 4 c) (hd : Group eitherCase 4 d)
    (he : Group eitherCase 12 e) :
    ofChars? (a ++ '-' :: b ++ '-' :: c ++ '-' :: d ++ '-' :: e) =
      some ⟨BitVec.ofNat 128 (ofDigits 16 ((a ++ b ++ c ++ d ++ e).map digitValue))⟩ := by
  have hcond : ¬ ((a ++ '-' :: b ++ '-' :: c ++ '-' :: d ++ '-' :: e).all Text.isHex &&
      ((a ++ '-' :: b ++ '-' :: c ++ '-' :: d ++ '-' :: e).length == 4 ||
        (a ++ '-' :: b ++ '-' :: c ++ '-' :: d ++ '-' :: e).length == 8)) = true := by
    rw [Bool.and_eq_true, List.all_eq_true]
    rintro ⟨h, -⟩
    exact absurd (h '-' (by simp)) (by decide)
  have hgroups : ([a, b, c, d, e].map List.length = groupLengths &&
      [a, b, c, d, e].all (·.all Text.isHex)) = true := by
    simp only [Bool.and_eq_true, decide_eq_true_eq, List.all_cons, List.all_nil, List.all_eq_true,
      List.map_cons, List.map_nil, ha.length, hb.length, hc.length, hd.length, he.length]
    exact ⟨rfl, ha.isHex, hb.isHex, hc.isHex, hd.isHex, he.isHex, trivial⟩
  have hflat : [a, b, c, d, e].flatten = a ++ b ++ c ++ d ++ e := by simp
  have hhex : ∀ x ∈ a ++ b ++ c ++ d ++ e, Text.isHex x = true := by
    simp only [List.mem_append]
    rintro x ((((h | h) | h) | h) | h)
    exacts [ha.isHex x h, hb.isHex x h, hc.isHex x h, hd.isHex x h, he.isHex x h]
  rw [ofChars?, if_neg hcond, fields_hyphenated ha hb hc hd he]
  simp only [hgroups, if_true, hflat]
  rw [hexNat?_of_isHex (by simp [ha.ne_nil]) hhex]
  rfl

theorem five_of_lengths {gs : List (List Char)} (h : gs.map List.length = groupLengths) :
    ∃ a b c d e, gs = [a, b, c, d, e] ∧ a.length = 8 ∧ b.length = 4 ∧ c.length = 4 ∧ d.length = 4 ∧
      e.length = 12 := by
  simp only [groupLengths, List.map_eq_cons_iff, List.map_eq_nil_iff] at h
  obtain ⟨a, _, rfl, ha, b, _, rfl, hb, c, _, rfl, hc, d, _, rfl, hd, e, _, rfl, he, rfl⟩ := h
  exact ⟨a, b, c, d, e, rfl, ha, hb, hc, hd, he⟩

theorem written_of_ofChars? (h : ofChars? cs = some u) : Written cs := by
  unfold ofChars? at h
  split at h
  case isTrue hcond =>
    simp only [Bool.and_eq_true, Bool.or_eq_true, List.all_eq_true, beq_iff_eq] at hcond
    obtain ⟨hhex, hl | hl⟩ := hcond
    · exact .four (.of_isHex hl hhex)
    · exact .eight (.of_isHex hl hhex)
  case isFalse =>
    obtain ⟨hcond, -⟩ := Option.ite_none_right_eq_some.mp h
    simp only [Bool.and_eq_true, decide_eq_true_eq, List.all_eq_true] at hcond
    obtain ⟨hlengths, hhex⟩ := hcond
    obtain ⟨a, b, c, d, e, hf, ha, hb, hc, hd, he⟩ := five_of_lengths hlengths
    have hjoin := join_fields '-' cs
    rw [hf] at hjoin hhex
    simp only [List.forall_mem_cons] at hhex
    obtain ⟨xa, xb, xc, xd, xe, -⟩ := hhex
    have hcs : cs = a ++ '-' :: b ++ '-' :: c ++ '-' :: d ++ '-' :: e := by
      simpa [join] using hjoin.symm
    rw [hcs]
    exact .long (.intro (.of_isHex ha xa) (.of_isHex hb xb) (.of_isHex hc xc) (.of_isHex hd xd)
      (.of_isHex he xe))

theorem ofChars?_isSome_iff : (∃ u, ofChars? cs = some u) ↔ Written cs := by
  refine ⟨fun ⟨u, h⟩ => written_of_ofChars? h, fun h => ?_⟩
  cases h with
  | four h => exact ⟨_, ofChars?_of_short h (.inl rfl)⟩
  | eight h => exact ⟨_, ofChars?_of_short h (.inr rfl)⟩
  | long h =>
    cases h with
    | intro ha hb hc hd he => exact ⟨_, ofChars?_of_long ha hb hc hd he⟩

/-! ## Letter case -/

theorem toNat_toLower (c : Char) :
    c.toLower.toNat = if 65 ≤ c.toNat ∧ c.toNat ≤ 90 then c.toNat + 32 else c.toNat := by
  have hrange : (c.val ≥ 'A'.val ∧ c.val ≤ 'Z'.val) ↔ 65 ≤ c.toNat ∧ c.toNat ≤ 90 := by
    rw [ge_iff_le, UInt32.le_iff_toNat_le, UInt32.le_iff_toNat_le]
    rfl
  unfold Char.toLower
  split
  case isTrue h =>
    rw [if_pos (hrange.mp h)]
    have hle : c.val.toNat ≤ 90 := (hrange.mp h).2
    change (c.val + ('a'.val - 'A'.val)).toNat = c.val.toNat + 32
    rw [UInt32.toNat_add, show ('a'.val - 'A'.val).toNat = 32 from rfl]
    omega
  case isFalse h => rw [if_neg (mt hrange.mpr h)]

theorem hexDigit?_toLower (c : Char) : hexDigit? c.toLower = hexDigit? c := by
  unfold hexDigit?
  rw [toNat_toLower]
  grind

theorem toLower_eq_hyphen (c : Char) : c.toLower = '-' ↔ c = '-' := by
  rw [← Char.toNat_inj, ← Char.toNat_inj, toNat_toLower]
  simp only [Char.reduceToNat]
  grind

theorem isHex_toLower (c : Char) : Text.isHex c.toLower = Text.isHex c := by
  rw [Text.isHex, hexDigit?_toLower, Text.isHex]

theorem hexNat?_toLower (cs : List Char) : hexNat? (cs.map Char.toLower) = hexNat? cs := by
  have hm : (cs.map Char.toLower).mapM hexDigit? = cs.mapM hexDigit? := by
    rw [List.mapM_map]
    congr 1
    funext c
    exact hexDigit?_toLower c
  rw [hexNat?, hexNat?, hm, List.isEmpty_map]

theorem ofChars?_toLower (cs : List Char) : ofChars? (cs.map Char.toLower) = ofChars? cs := by
  have hall : ∀ ds : List Char, (ds.map Char.toLower).all Text.isHex = ds.all Text.isHex := by
    intro ds
    rw [List.all_map]
    congr 1
    funext c
    exact isHex_toLower c
  unfold ofChars?
  simp only [hall, List.length_map, hexNat?_toLower, fields_map toLower_eq_hyphen, List.map_map,
    List.all_map, Function.comp_def, ← List.map_flatten]

/-! ## Values -/

theorem base_toNat : base.toNat = 0x1000800000805F9B34FB := rfl

theorem ofShort_toNat (hn : n < 2 ^ 32) : (ofShort n).bits.toNat = n * 2 ^ 96 + base.toNat := by
  have hsmall : n * 2 ^ 96 < 2 ^ 128 := by omega
  have hbase : base.toNat < 2 ^ 96 := by decide
  rw [ofShort, BitVec.toNat_or, BitVec.toNat_shiftLeft, BitVec.toNat_ofNat,
    Nat.mod_eq_of_lt (by omega : n < 2 ^ 128), Nat.shiftLeft_eq, Nat.mod_eq_of_lt hsmall, Nat.or_comm,
    ← Nat.shiftLeft_eq, ← Nat.shiftLeft_add_eq_or_of_lt hbase]

theorem eq_ofShort_iff (hn : n < 2 ^ 32) :
    u = ofShort n ↔ u.bits.toNat = n * 2 ^ 96 + base.toNat := by
  rw [← ofShort_toNat hn, ← BitVec.toNat_eq]
  exact ⟨congrArg bits, fun h => by cases u; cases h; rfl⟩

/-- The base value is below the bits of the short form. -/
theorem masked_iff : u.bits &&& baseMask = base ↔ u.bits.toNat % 2 ^ 96 = base.toNat := by
  rw [BitVec.toNat_eq, BitVec.toNat_and, show baseMask.toNat = 2 ^ 96 - 1 from rfl,
    Nat.and_two_pow_sub_one_eq_mod]

theorem short?_eq_some_iff : u.short? = some n ↔ n < 2 ^ 32 ∧ u = ofShort n := by
  have hu : u.bits.toNat < 2 ^ 128 := u.bits.isLt
  have hbase := base_toNat
  have hhigh : (u.bits >>> 96).toNat = u.bits.toNat / 2 ^ 96 := by
    rw [BitVec.toNat_ushiftRight, Nat.shiftRight_eq_div_pow]
  constructor
  · intro h
    obtain ⟨hm, hn⟩ := Option.ite_none_right_eq_some.mp h
    rw [masked_iff] at hm
    rw [Option.some.injEq, hhigh] at hn
    have hlt : n < 2 ^ 32 := by omega
    exact ⟨hlt, (eq_ofShort_iff hlt).mpr (by omega)⟩
  · rintro ⟨hlt, h⟩
    rw [eq_ofShort_iff hlt] at h
    have hm : u.bits &&& baseMask = base := masked_iff.mpr (by omega)
    rw [short?, if_pos hm, hhigh]
    congr 1
    omega

/-! ## Short and long forms -/

/-- What follows the first group in the long form of a short one. -/
def baseSuffix : String := "-0000-1000-8000-00805f9b34fb"

theorem ofChars?_baseSuffix (h : Group eitherCase 8 ds) :
    ofChars? (ds ++ baseSuffix.toList) = ofChars? ds := by
  have hlt : ofDigits 16 (ds.map digitValue) < 2 ^ 32 := by
    have := ofDigits_lt ds
    rwa [h.length] at this
  have hsplit : ds ++ baseSuffix.toList =
      ds ++ '-' :: "0000".toList ++ '-' :: "1000".toList ++ '-' :: "8000".toList ++
        '-' :: "00805f9b34fb".toList := by
    simp [baseSuffix]
  have hvalue : ofDigits 16 ((ds ++ "0000".toList ++ "1000".toList ++ "8000".toList ++
      "00805f9b34fb".toList).map digitValue) = ofDigits 16 (ds.map digitValue) * 2 ^ 96 + base.toNat := by
    have hrest : ofDigits 16 (("0000".toList ++ "1000".toList ++ "8000".toList ++
        "00805f9b34fb".toList).map digitValue) = base.toNat := by decide
    rw [List.append_assoc, List.append_assoc, List.append_assoc, List.map_append, ofDigits_append,
      ← List.append_assoc, ← List.append_assoc, hrest]
    rfl
  rw [hsplit, ofChars?_of_long h (by decide) (by decide) (by decide) (by decide),
    ofChars?_of_short h (.inr rfl), hvalue]
  refine congrArg some ((eq_ofShort_iff hlt).mpr ?_)
  rw [BitVec.toNat_ofNat, Nat.mod_eq_of_lt]
  have hbase := base_toNat
  omega

theorem ofChars?_zeros (h : Group eitherCase 4 ds) :
    ofChars? ("0000".toList ++ ds) = ofChars? ds := by
  have hall : Group eitherCase 8 ("0000".toList ++ ds) := by
    refine ⟨by rw [List.length_append, h.length]; rfl, fun c hc => ?_⟩
    rcases List.mem_append.mp hc with hc | hc
    · exact (by decide : Group eitherCase 4 "0000".toList).mem c hc
    · exact h.mem c hc
  rw [ofChars?_of_short hall (.inr rfl), ofChars?_of_short h (.inl rfl), List.map_append,
    ofDigits_append, show ofDigits 16 ("0000".toList.map digitValue) = 0 from rfl, Nat.zero_mul,
    Nat.zero_add]

/-! ## Written identifiers -/

theorem lowerDigit_mem : ∀ d < 16, lowerDigit d ∈ lowerCase.toList := by decide

theorem mem_eitherCase : ∀ c ∈ lowerCase.toList, c ∈ eitherCase.toList :=
  (by decide : Group eitherCase 16 lowerCase.toList).mem

theorem Group.eitherCase (h : Group lowerCase n cs) : Group Uuid.eitherCase n cs :=
  ⟨h.length, fun c hc => mem_eitherCase c (h.mem c hc)⟩

theorem Hyphenated.mem {alphabet : String} {c : Char} (h : Hyphenated alphabet cs) (hc : c ∈ cs) :
    c = '-' ∨ c ∈ alphabet.toList := by
  cases h with
  | intro h₁ h₂ h₃ h₄ h₅ =>
    simp only [List.mem_append, List.mem_cons] at hc
    rcases hc with (((hc | hc | hc) | hc | hc) | hc | hc) | hc | hc
    exacts [.inr (h₁.mem c hc), .inl hc, .inr (h₂.mem c hc), .inl hc, .inr (h₃.mem c hc), .inl hc,
      .inr (h₄.mem c hc), .inl hc, .inr (h₅.mem c hc)]

theorem group_slice {i k : Nat} (hik : i + k ≤ 32) :
    Group lowerCase k (((lowerHex 32 n).drop i).take k) := by
  refine ⟨?_, fun c hc => ?_⟩
  · rw [List.length_take, List.length_drop, lowerHex, length_hexDigits]
    omega
  · obtain ⟨d, hd, rfl⟩ := mem_hexDigits (List.mem_of_mem_drop (List.mem_of_mem_take hc))
    exact lowerDigit_mem d hd

theorem toChars_eq (u : Uuid) :
    u.toChars = (lowerHex 32 u.bits.toNat).take 8 ++
      '-' :: ((lowerHex 32 u.bits.toNat).drop 8).take 4 ++
      '-' :: ((lowerHex 32 u.bits.toNat).drop 12).take 4 ++
      '-' :: ((lowerHex 32 u.bits.toNat).drop 16).take 4 ++
      '-' :: ((lowerHex 32 u.bits.toNat).drop 20).take 12 := by
  have hlast : ((lowerHex 32 u.bits.toNat).drop 20).take 12 = (lowerHex 32 u.bits.toNat).drop 20 :=
    List.take_of_length_le (by rw [List.length_drop, lowerHex, length_hexDigits])
  simp [toChars, join, hlast]

theorem append_slices {ds : List Char} (h : ds.length = 32) :
    ds.take 8 ++ (ds.drop 8).take 4 ++ (ds.drop 12).take 4 ++ (ds.drop 16).take 4 ++
      (ds.drop 20).take 12 = ds := by
  rw [← List.take_add, ← List.take_add, ← List.take_add, ← List.take_add, List.take_of_length_le]
  omega

theorem group_first : Group lowerCase 8 ((lowerHex 32 n).take 8) := group_slice (i := 0) (by decide)

theorem hyphenated_toChars (u : Uuid) : Hyphenated lowerCase u.toChars := by
  rw [toChars_eq]
  exact .intro group_first (group_slice (by decide)) (group_slice (by decide))
    (group_slice (by decide)) (group_slice (by decide))

theorem mem_toChars {c : Char} (h : c ∈ u.toChars) : c = '-' ∨ c ∈ lowerCase.toList :=
  (hyphenated_toChars u).mem h

theorem ofChars?_toChars (u : Uuid) : ofChars? u.toChars = some u := by
  have hl : (lowerHex 32 u.bits.toNat).length = 32 := length_hexDigits ..
  have hlt : u.bits.toNat < 16 ^ 32 := lt_of_lt_of_eq u.bits.isLt (by decide)
  rw [toChars_eq, ofChars?_of_long group_first.eitherCase (group_slice (by decide)).eitherCase
    (group_slice (by decide)).eitherCase (group_slice (by decide)).eitherCase
    (group_slice (by decide)).eitherCase, append_slices hl, lowerHex,
    ofDigits_hexDigits hexDigit?_lowerDigit, Nat.mod_eq_of_lt hlt, BitVec.ofNat_toNat,
    BitVec.setWidth_eq]

/-! ## Reading -/

variable {s t : String}

theorem parse_eq_ok_iff : parse s = .ok u ↔ ofChars? s.toList = some u := by
  unfold parse
  cases ofChars? s.toList <;> simp

theorem parse_ofList : parse (String.ofList cs) = .ok u ↔ ofChars? cs = some u := by
  rw [parse_eq_ok_iff, String.toList_ofList]

theorem parse_eq_error (h : ¬ Written s.toList) : parse s = .error (.invalidUuid s) := by
  have hnone : ofChars? s.toList = none :=
    Option.eq_none_iff_forall_ne_some.mpr fun _ ho => h (written_of_ofChars? ho)
  rw [parse, hnone]

theorem parse_of_toLower (h : s.toList.map Char.toLower = t.toList.map Char.toLower) :
    parse s = .ok u ↔ parse t = .ok u := by
  rw [parse_eq_ok_iff, parse_eq_ok_iff, ← ofChars?_toLower s.toList, h, ofChars?_toLower]

theorem parse_lowerHex {width : Nat} (hw : width = 4 ∨ width = 8) (hn : n < 16 ^ width) :
    parse (String.ofList (lowerHex width n)) = .ok (ofShort n) := by
  have hgroup : Group eitherCase width (lowerHex width n) :=
    .of_isHex (length_hexDigits ..) fun _ => isHex_of_mem_lowerHex
  rw [parse_ofList, ofChars?_of_short hgroup hw, lowerHex, ofDigits_hexDigits hexDigit?_lowerDigit,
    Nat.mod_eq_of_lt hn]

/-- An identifier is read from its written forms and from nothing else, whatever the case of the
letters; any other text is quoted in the error. The long form of every identifier reads back, a short
form stands for what its long form stands for, and a number is the short form of the identifier that
its eight digits stand for. -/
theorem parse_iff_written :
    (∀ s : String, (∃ u, parse s = .ok u) ↔ Written s.toList) ∧
    (∀ s : String, ¬ Written s.toList → parse s = .error (.invalidUuid s)) ∧
    (∀ (s t : String) (u : Uuid), s.toList.map Char.toLower = t.toList.map Char.toLower →
      (parse s = .ok u ↔ parse t = .ok u)) ∧
    (∀ u : Uuid, Hyphenated lowerCase u.toText.toList ∧ parse u.toText = .ok u) ∧
    (∀ s : String, Group eitherCase 8 s.toList →
      ∃ u, parse s = .ok u ∧ parse (s ++ baseSuffix) = .ok u) ∧
    (∀ s : String, Group eitherCase 4 s.toList →
      ∃ u, parse s = .ok u ∧ parse ("0000" ++ s) = .ok u) ∧
    (∀ (u : Uuid) (n : Nat),
      u.short? = some n ↔ n < 2 ^ 32 ∧ parse (String.ofList (lowerHex 8 n)) = .ok u) := by
  refine ⟨fun s => ?_, fun s => parse_eq_error, fun s t u => parse_of_toLower, fun u => ?_,
    fun s h => ?_, fun s h => ?_, fun u n => ?_⟩
  · simp only [parse_eq_ok_iff]
    exact ofChars?_isSome_iff
  · rw [toText, parse_ofList, String.toList_ofList]
    exact ⟨hyphenated_toChars u, ofChars?_toChars u⟩
  · have hshort := ofChars?_of_short h (.inr rfl)
    refine ⟨_, parse_eq_ok_iff.mpr hshort, parse_eq_ok_iff.mpr ?_⟩
    rw [String.toList_append, ofChars?_baseSuffix h, hshort]
  · have hshort := ofChars?_of_short h (.inl rfl)
    refine ⟨_, parse_eq_ok_iff.mpr hshort, parse_eq_ok_iff.mpr ?_⟩
    rw [show ("0000" ++ s).toList = "0000".toList ++ s.toList from String.toList_append,
      ofChars?_zeros h, hshort]
  · rw [short?_eq_some_iff]
    refine and_congr_right fun hn => ?_
    rw [parse_lowerHex (.inr rfl) (lt_of_lt_of_eq hn (by decide)), Except.ok.injEq]
    exact eq_comm

/-- Two letters of two octets each make four octets, but they are no digits. -/
theorem parse_of_samples :
    parse "éé" = .error (.invalidUuid "éé") ∧ (∀ u, parse "00Ab" = .ok u ↔ parse "00aB" = .ok u) ∧
      (∃ u, parse "DEADbeef" = .ok u ∧ parse ("DEADbeef" ++ baseSuffix) = .ok u) ∧
      ∃ u, parse "1101" = .ok u ∧ parse ("0000" ++ "1101") = .ok u := by
  obtain ⟨-, herror, hcase, -, height, hfour, -⟩ := parse_iff_written
  refine ⟨herror _ ?_, fun u => hcase _ _ u (by decide), height _ (by decide), hfour _ (by decide)⟩
  intro h
  obtain ⟨u, hu⟩ := ofChars?_isSome_iff.mpr h
  have hnone : ofChars? "éé".toList = none := by decide
  cases hnone.symm.trans hu

end Rfcomm.Uuid
