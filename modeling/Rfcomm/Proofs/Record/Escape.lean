import Rfcomm.Record.Xml
/-!
Text between the quotes of an XML document: what stands for a character there, which characters a
document may have, and what a reader makes of the text of a value. Escaped text cannot end a value or
begin markup, and reads back up to line breaks and tabs, which a reader takes for blanks.
-/
namespace Rfcomm.Xml

/-! ## Entities -/

/-- The predefined entities. -/
def entities : List (String × Char) :=
  [("&amp;", '&'), ("&lt;", '<'), ("&gt;", '>'), ("&quot;", '"'), ("&apos;", '\'')]

/-- Text with its predefined entities replaced. -/
def expand : List Char → List Char
  | '&' :: 'a' :: 'm' :: 'p' :: ';' :: cs => '&' :: expand cs
  | '&' :: 'l' :: 't' :: ';' :: cs => '<' :: expand cs
  | '&' :: 'g' :: 't' :: ';' :: cs => '>' :: expand cs
  | '&' :: 'q' :: 'u' :: 'o' :: 't' :: ';' :: cs => '"' :: expand cs
  | '&' :: 'a' :: 'p' :: 'o' :: 's' :: ';' :: cs => '\'' :: expand cs
  | c :: cs => c :: expand cs
  | [] => []

/-- Text without markup: no angle brackets, no quotes, and no ampersand but that of an entity. -/
structure Inert (cs : List Char) : Prop where
  plain : ∀ c ∈ cs, c ≠ '<' ∧ c ≠ '>' ∧ c ≠ '"' ∧ c ≠ '\''
  entity : ∀ cs', '&' :: cs' <:+ cs → ∃ e ∈ entities, e.1.toList <+: '&' :: cs'

/-! ## What a reader sees -/

/-- The characters that a document may have. Surrogates are no characters here. -/
def isAllowed (c : Char) : Bool :=
  c = '\t' || c = '\n' || c = '\r' || (0x20 ≤ c.toNat && c.toNat ≠ 0xFFFE && c.toNat ≠ 0xFFFF)

/-- Line breaks of any kind become line feeds. -/
def endLines : List Char → List Char
  | '\r' :: '\n' :: cs => '\n' :: endLines cs
  | '\r' :: cs => '\n' :: endLines cs
  | c :: cs => c :: endLines cs
  | [] => []

/-- White space that stands in a value is taken for a blank. -/
def blankOut (c : Char) : Char := if c = '\t' ∨ c = '\n' ∨ c = '\r' then ' ' else c

/-- The value that a reader finds in the written one. -/
def normalize (cs : List Char) : List Char := expand ((endLines cs).map blankOut)

/-! ## Escaped text -/

open Record (escape escapeChar)

variable {c : Char} {cs : List Char}

/-- What a character is written as. -/
theorem escapeChar_cases (c : Char) :
    (∃ e ∈ entities, escapeChar c = e.1.toList ∧ c = e.2) ∨
      (escapeChar c = [c] ∧ c ≠ '&' ∧ c ≠ '<' ∧ c ≠ '>' ∧ c ≠ '"' ∧ c ≠ '\'') := by
  unfold escapeChar
  split
  iterate 5 exact .inl (by decide)
  exact .inr ⟨rfl, ‹_›, ‹_›, ‹_›, ‹_›, ‹_›⟩

theorem escape_cons (c : Char) (cs : List Char) : escape (c :: cs) = escapeChar c ++ escape cs := rfl

theorem expand_cons (h : c ≠ '&') (cs : List Char) : expand (c :: cs) = c :: expand cs := by
  rw [expand]
  all_goals
    rintro _ rfl _
    exact h rfl

theorem expand_entity {e : String × Char} (h : e ∈ entities) (cs : List Char) :
    expand (e.1.toList ++ cs) = e.2 :: expand cs := by
  simp only [entities, List.mem_cons, List.not_mem_nil, or_false] at h
  rcases h with rfl | rfl | rfl | rfl | rfl <;> rfl

/-- Nothing is lost by escaping. -/
theorem expand_escape (cs : List Char) : expand (escape cs) = cs := by
  induction cs with
  | nil => rfl
  | cons c cs ih =>
    rw [escape_cons]
    rcases escapeChar_cases c with ⟨e, hmem, he, hc⟩ | ⟨he, hc, -⟩
    · rw [he, expand_entity hmem, ih, hc]
    · rw [he, List.singleton_append, expand_cons hc, ih]

theorem plain_of_mem_escapeChar {d : Char} (h : d ∈ escapeChar c) :
    d ≠ '<' ∧ d ≠ '>' ∧ d ≠ '"' ∧ d ≠ '\'' := by
  rcases escapeChar_cases c with ⟨e, hmem, he, -⟩ | ⟨he, -, hc⟩
  · have hall : ∀ e ∈ entities,
        e.1.toList.all (fun d => d ≠ '<' ∧ d ≠ '>' ∧ d ≠ '"' ∧ d ≠ '\'') = true := by decide
    exact of_decide_eq_true (List.all_eq_true.mp (hall e hmem) d (he ▸ h))
  · rw [he, List.mem_singleton] at h
    exact h ▸ hc

theorem suffix_of_not_mem {c : Char} {cs xs ys : List Char} (h : c ∉ xs) (hs : c :: cs <:+ xs ++ ys) :
    c :: cs <:+ ys := by
  induction xs with
  | nil => exact hs
  | cons x xs ih =>
    rw [List.mem_cons, not_or] at h
    rcases List.suffix_cons_iff.mp hs with he | hs
    · cases he
      exact absurd rfl h.1
    · exact ih h.2 hs

/-- An entity begins with an ampersand and has no other. -/
theorem entity_eq_cons : ∀ e ∈ entities, e.1.toList = '&' :: e.1.toList.tail ∧ '&' ∉ e.1.toList.tail := by
  decide

theorem entity_of_suffix {cs' : List Char} (h : '&' :: cs' <:+ escape cs) :
    ∃ e ∈ entities, e.1.toList <+: '&' :: cs' := by
  induction cs with
  | nil => cases List.suffix_nil.mp h
  | cons c cs ih =>
    rw [escape_cons] at h
    rcases escapeChar_cases c with ⟨e, hmem, he, -⟩ | ⟨he, hc, -⟩
    · obtain ⟨hcons, htail⟩ := entity_eq_cons e hmem
      rw [he, hcons, List.cons_append] at h
      rcases List.suffix_cons_iff.mp h with h | h
      · exact ⟨e, hmem, escape cs, by rw [hcons, List.cons_append, h]⟩
      · exact ih (suffix_of_not_mem htail h)
    · refine ih (suffix_of_not_mem ?_ (he ▸ h))
      exact fun hm => hc (List.mem_singleton.mp hm).symm

theorem inert_escape (cs : List Char) : Inert (escape cs) where
  plain d hd := by
    obtain ⟨c, -, hc⟩ := List.mem_flatMap.mp hd
    exact plain_of_mem_escapeChar hc
  entity _ := entity_of_suffix

/-! ## Allowed characters -/

theorem all_escape (cs : List Char) : (escape cs).all isAllowed = cs.all isAllowed := by
  induction cs with
  | nil => rfl
  | cons c cs ih =>
    have hc : (escapeChar c).all isAllowed = isAllowed c := by
      rcases escapeChar_cases c with ⟨e, hmem, he, rfl⟩ | ⟨he, -⟩
      · have hall : ∀ e ∈ entities, e.1.toList.all isAllowed = isAllowed e.2 := by decide
        rw [he, hall e hmem]
      · rw [he, List.all_cons, List.all_nil, Bool.and_true]
    rw [escape_cons, List.all_append, hc, ih, List.all_cons]

/-! ## Normalised values -/

theorem endLines_append {xs : List Char} (h : '\r' ∉ xs) (cs : List Char) :
    endLines (xs ++ cs) = xs ++ endLines cs := by
  induction xs with
  | nil => rfl
  | cons x xs ih =>
    rw [List.mem_cons, not_or] at h
    rw [List.cons_append, endLines, ih h.2, List.cons_append]
    · exact fun _ hx => absurd hx.symm h.1
    · exact fun hx => absurd hx.symm h.1

theorem endLines_of_no_return (h : '\r' ∉ cs) : endLines cs = cs := by
  have := endLines_append h []
  rwa [List.append_nil, endLines, List.append_nil] at this

theorem escapeChar_no_return (h : c ≠ '\r') : '\r' ∉ escapeChar c := by
  rcases escapeChar_cases c with ⟨e, hmem, he, -⟩ | ⟨he, -⟩
  · have hall : ∀ e ∈ entities, '\r' ∉ e.1.toList := by decide
    exact he ▸ hall e hmem
  · rw [he, List.mem_singleton]
    exact h.symm

theorem escape_eq_newline_cons {ds : List Char} (h : escape cs = '\n' :: ds) :
    ∃ cs', cs = '\n' :: cs' := by
  cases cs with
  | nil => cases h
  | cons c cs =>
    rw [escape_cons] at h
    rcases escapeChar_cases c with ⟨e, hmem, he, -⟩ | ⟨he, -⟩
    · rw [he, (entity_eq_cons e hmem).1] at h
      cases h
    · rw [he] at h
      cases h
      exact ⟨cs, rfl⟩

theorem endLines_escape (cs : List Char) : endLines (escape cs) = escape (endLines cs) := by
  fun_induction endLines cs with
  | case1 cs ih => exact congrArg ('\n' :: ·) ih
  | case2 cs hcs ih =>
    have hreturn : endLines ('\r' :: escape cs) = '\n' :: endLines (escape cs) := by
      rw [endLines]
      exact fun ds hds => (escape_eq_newline_cons hds).elim hcs
    exact hreturn.trans (congrArg ('\n' :: ·) ih)
  | case3 c cs _ hc ih => rw [escape_cons, endLines_append (escapeChar_no_return hc), ih, escape_cons]
  | case4 => rfl

theorem escapeChar_blankOut (c : Char) : escapeChar (blankOut c) = (escapeChar c).map blankOut := by
  rcases escapeChar_cases c with ⟨e, hmem, he, rfl⟩ | ⟨he, -⟩
  · have hall : ∀ e ∈ entities, blankOut e.2 = e.2 ∧ e.1.toList.map blankOut = e.1.toList := by decide
    obtain ⟨hc, hmap⟩ := hall e hmem
    rw [hc, he, hmap]
  · rw [he, List.map_singleton]
    unfold blankOut
    split
    · rfl
    · exact he

theorem map_blankOut_escape (cs : List Char) : (escape cs).map blankOut = escape (cs.map blankOut) := by
  induction cs with
  | nil => rfl
  | cons c cs ih =>
    rw [escape_cons, List.map_append, ← escapeChar_blankOut, ih, List.map_cons, escape_cons]

/-- A reader finds the text that was escaped, with blanks for its white space. -/
theorem normalize_escape (cs : List Char) : normalize (escape cs) = (endLines cs).map blankOut := by
  rw [normalize, endLines_escape, map_blankOut_escape, expand_escape]

/-- The text itself is found if and only if it has neither tabs nor line breaks. -/
theorem normalize_escape_eq_iff :
    normalize (escape cs) = cs ↔ ∀ c ∈ cs, c ≠ '\t' ∧ c ≠ '\n' ∧ c ≠ '\r' := by
  rw [normalize_escape]
  constructor
  · intro h c hc
    rw [← h] at hc
    obtain ⟨d, -, rfl⟩ := List.mem_map.mp hc
    unfold blankOut
    split
    · decide
    · rename_i hd
      simpa [not_or] using hd
  · intro h
    have hkeep : ∀ c ∈ cs, blankOut c = id c := fun c hc => by
      obtain ⟨ht, hn, hr⟩ := h c hc
      exact if_neg (by simp [ht, hn, hr])
    rw [endLines_of_no_return fun hr => (h _ hr).2.2 rfl, List.map_congr_left hkeep, List.map_id]

end Rfcomm.Xml
