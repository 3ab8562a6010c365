/-! Text cut into fields at a separator: `n` separators give `n + 1` fields, empty ones included. -/
namespace Rfcomm.Text

/-- The fields of a text between the occurrences of `sep`. -/
def fields (sep : Char) : List Char → List (List Char)
  | [] => [[]]
  | c :: cs =>
    if c = sep then [] :: fields sep cs
    else match fields sep cs with
      | [] => [[c]]
      | f :: fs => (c :: f) :: fs

/-- The fields joined again. -/
def join (sep : Char) : List (List Char) → List Char
  | [] => []
  | [f] => f
  | f :: g :: fs => f ++ sep :: join sep (g :: fs)

/-! ## Facts -/

theorem fields_ne_nil (sep : Char) (cs : List Char) : fields sep cs ≠ [] := by
  cases cs with
  | nil => simp [fields]
  | cons c cs =>
    by_cases h : c = sep
    · simp [fields, h]
    · simp only [fields, h, if_false]
      cases fields sep cs <;> simp

/-- Cutting loses nothing. -/
theorem join_fields (sep : Char) (cs : List Char) : join sep (fields sep cs) = cs := by
  induction cs with
  | nil => rfl
  | cons c cs ih =>
    by_cases h : c = sep
    · subst h
      cases hf : fields c cs with
      | nil => exact absurd hf (fields_ne_nil c cs)
      | cons f fs =>
        rw [hf] at ih
        simp [fields, hf, join, ih]
    · simp only [fields, h, if_false]
      cases hf : fields sep cs with
      | nil => exact absurd hf (fields_ne_nil sep cs)
      | cons f fs =>
        rw [hf] at ih
        cases fs with
        | nil => simpa [join] using ih
        | cons g gs => simpa [join] using ih

theorem fields_of_not_mem {sep : Char} {cs : List Char} (h : sep ∉ cs) : fields sep cs = [cs] := by
  induction cs with
  | nil => rfl
  | cons c cs ih =>
    rw [List.mem_cons, not_or] at h
    rw [fields, if_neg (Ne.symm h.1), ih h.2]

/-- The text in front of a separator is a field of its own. -/
theorem fields_append_sep {sep : Char} {cs : List Char} (h : sep ∉ cs) (r : List Char) :
    fields sep (cs ++ sep :: r) = cs :: fields sep r := by
  induction cs with
  | nil => simp [fields]
  | cons c cs ih =>
    rw [List.mem_cons, not_or] at h
    rw [List.cons_append, fields, if_neg (Ne.symm h.1), ih h.2]

/-- Characters may be replaced before or after the cut, as long as separators are kept apart. -/
theorem fields_map {sep : Char} {f : Char → Char} (hf : ∀ c, f c = sep ↔ c = sep) (cs : List Char) :
    fields sep (cs.map f) = (fields sep cs).map (List.map f) := by
  induction cs with
  | nil => rfl
  | cons c cs ih =>
    by_cases h : c = sep
    · rw [List.map_cons, fields, fields, if_pos ((hf c).mpr h), if_pos h, ih, List.map_cons,
        List.map_nil]
    · have hc : f c ≠ sep := fun he => h ((hf c).mp he)
      simp only [List.map_cons, fields, h, hc, if_false, ih]
      cases fields sep cs <;> rfl

end Rfcomm.Text
