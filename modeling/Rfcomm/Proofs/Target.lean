import Mathlib.Data.List.TakeWhile
import Rfcomm.Proofs.Connection.Closing
import Rfcomm.Proofs.Uuid
/-!
The texts that name a target. An address is six fields between colons, each a number in base sixteen
with any zeros in front and maybe a plus sign, with blanks around the whole; nothing else is dialled.
-/
namespace Rfcomm.Text

/-! ## Blanks at the ends -/

/-- What is left of a text without the blanks at its ends. -/
structure Stripped (cs core : List Char) : Prop where
  around : ∃ front back, cs = front ++ core ++ back ∧ (∀ c ∈ front, isBlank c = true) ∧
    ∀ c ∈ back, isBlank c = true
  first : ∀ c ∈ core.head?, isBlank c = false
  last : ∀ c ∈ core.getLast?, isBlank c = false

variable {cs core back : List Char} {c : Char}

theorem head?_dropWhile {p : Char → Bool} (cs : List Char) (h : c ∈ (cs.dropWhile p).head?) :
    p c = false := by
  have hnot := List.head?_dropWhile_not p cs
  rw [Option.mem_def.mp h] at hnot
  simpa using hnot

theorem dropWhile_eq_self {p : Char → Bool} (h : ∀ c ∈ cs.head?, p c = false) :
    cs.dropWhile p = cs := by
  cases cs with
  | nil => rfl
  | cons c cs => rw [List.dropWhile_cons_of_neg (by simp [h c rfl])]

theorem stripEnd_append (hb : ∀ c ∈ back, isBlank c = true)
    (hl : ∀ c ∈ core.getLast?, isBlank c = false) : stripEnd (core ++ back) = core := by
  rw [stripEnd, List.reverse_append, List.dropWhile_append_of_pos (by simpa using hb),
    dropWhile_eq_self (by simpa using hl), List.reverse_reverse]

theorem exists_stripEnd (cs : List Char) :
    ∃ back, cs = stripEnd cs ++ back ∧ ∀ c ∈ back, isBlank c = true := by
  refine ⟨(cs.reverse.takeWhile isBlank).reverse, ?_, fun c hc => ?_⟩
  · rw [stripEnd, ← List.reverse_append, List.takeWhile_append_dropWhile, List.reverse_reverse]
  · exact List.mem_takeWhile_imp (List.mem_reverse.mp hc)

theorem strip_eq_iff : strip cs = core ↔ Stripped cs core := by
  constructor
  · rintro rfl
    obtain ⟨back, hback, hblank⟩ := exists_stripEnd (cs.dropWhile isBlank)
    refine ⟨⟨cs.takeWhile isBlank, back, ?_, fun c hc => List.mem_takeWhile_imp hc, hblank⟩,
      fun c hc => ?_, fun c hc => ?_⟩
    · rw [List.append_assoc, strip, ← hback, List.takeWhile_append_dropWhile]
    · -- What comes first of what is left comes first once the blanks in front are gone.
      refine head?_dropWhile cs ?_
      rw [hback, List.head?_append_of_ne_nil]
      · exact hc
      · intro hnil
        rw [strip, hnil] at hc
        cases hc
    · rw [strip, stripEnd, List.getLast?_reverse] at hc
      exact head?_dropWhile _ hc
  · rintro ⟨⟨front, back, rfl, hfront, hback⟩, hfirst, hlast⟩
    rw [strip, List.append_assoc, List.dropWhile_append_of_pos hfront]
    cases core with
    | nil =>
      rw [List.nil_append, List.dropWhile_eq_nil_iff.mpr hback]
      rfl
    | cons c core =>
      rw [dropWhile_eq_self (by simpa using hfirst c rfl), stripEnd_append hback hlast]

theorem stripped_self (h : ∀ c ∈ cs, isBlank c = false) : Stripped cs cs :=
  ⟨⟨[], [], by simp, by simp, by simp⟩, fun c hc => h c (List.mem_of_mem_head? hc),
    fun c hc => h c (List.mem_of_getLast? hc)⟩

/-! ## Numbers -/

def upperCase : String := "0123456789ABCDEF"

/-- A digit of base sixteen, in either case, and its value. -/
def Digit (c : Char) (d : Nat) : Prop :=
  Uuid.lowerCase.toList[d]? = some c ∨ upperCase.toList[d]? = some c

/-- Digits in a row, and the number that they stand for. -/
inductive Digits : List Char → Nat → Prop
  | one {x d} : Digit x d → Digits [x] d
  | more {xs n x d} : Digits xs n → Digit x d → Digits (xs ++ [x]) (n * 16 + d)

variable {d n : Nat}

theorem getElem?_digits_eq_some_iff {cs : List Char} {digit : Nat → Char} (hlen : cs.length = 16)
    (hdigits : ∀ d < 16, cs[d]? = some (digit d)) : cs[d]? = some c ↔ d < 16 ∧ c = digit d := by
  constructor
  · intro h
    have hd : d < 16 := hlen ▸ (List.getElem?_eq_some_iff.mp h).1
    rw [hdigits d hd] at h
    exact ⟨hd, (Option.some.inj h).symm⟩
  · rintro ⟨hd, rfl⟩
    exact hdigits d hd

theorem lowerCase_eq_some_iff : Uuid.lowerCase.toList[d]? = some c ↔ d < 16 ∧ c = lowerDigit d :=
  getElem?_digits_eq_some_iff rfl (by decide)

theorem upperCase_eq_some_iff : upperCase.toList[d]? = some c ↔ d < 16 ∧ c = upperDigit d :=
  getElem?_digits_eq_some_iff rfl (by decide)

theorem hexDigit?_eq_some_iff : hexDigit? c = some d ↔ Digit c d := by
  rw [Digit, lowerCase_eq_some_iff, upperCase_eq_some_iff]
  constructor
  · intro h
    simp only [hexDigit?] at h
    split at h
    · cases h
      refine .inl ⟨by omega, ?_⟩
      rw [lowerDigit, if_pos (by omega), Nat.add_sub_cancel' (by omega), Char.ofNat_toNat]
    · split at h
      · cases h
        refine .inl ⟨by omega, ?_⟩
        rw [lowerDigit, if_neg (by omega), show 87 + (c.toNat - 87) = c.toNat by omega,
          Char.ofNat_toNat]
      · split at h <;> cases h
        refine .inr ⟨by omega, ?_⟩
        rw [upperDigit, if_neg (by omega), show 55 + (c.toNat - 55) = c.toNat by omega,
          Char.ofNat_toNat]
  · rintro (⟨hd, rfl⟩ | ⟨hd, rfl⟩)
    · exact hexDigit?_lowerDigit hd
    · exact hexDigit?_upperDigit hd

theorem hexNat?_snoc (hne : cs ≠ []) :
    hexNat? (cs ++ [c]) = (hexNat? cs).bind fun n => (hexDigit? c).map fun d => n * 16 + d := by
  simp only [hexNat?, List.isEmpty_iff, hne, List.append_eq_nil_iff, false_and, if_false,
    List.mapM_append]
  cases cs.mapM hexDigit? with
  | none => rfl
  | some ds => cases hc : hexDigit? c <;> simp [hc, ofDigits]

theorem hexNat?_eq_some_iff : hexNat? cs = some n ↔ Digits cs n := by
  constructor
  · intro h
    induction cs using List.reverseRecOn generalizing n with
    | nil => cases h
    | append_singleton cs c ih =>
      by_cases hne : cs = []
      · subst hne
        cases hc : hexDigit? c with
        | none => simp [hexNat?, hc] at h
        | some d =>
          obtain rfl : d = n := by simpa [hexNat?, hc, ofDigits] using h
          exact .one (hexDigit?_eq_some_iff.mp hc)
      · rw [hexNat?_snoc hne] at h
        obtain ⟨m, hm, h⟩ := Option.bind_eq_some_iff.mp h
        obtain ⟨d, hd, rfl⟩ := Option.map_eq_some_iff.mp h
        exact .more (ih hm) (hexDigit?_eq_some_iff.mp hd)
  · intro h
    induction h with
    | one hd => simp [hexNat?, hexDigit?_eq_some_iff.mpr hd, ofDigits]
    | @more xs n x d hxs hd ih =>
      have hne : xs ≠ [] := by
        cases hxs <;> simp
      rw [hexNat?_snoc hne, ih, hexDigit?_eq_some_iff.mpr hd]
      rfl

theorem Digit.isHex (h : Digit c d) : isHex c = true := by
  rw [Text.isHex, hexDigit?_eq_some_iff.mpr h]
  rfl

theorem Digit.not_blank (h : Digit c d) : isBlank c = false := by
  have hlower : ∀ d < 16, isBlank (lowerDigit d) = false := by decide
  have hupper : ∀ d < 16, isBlank (upperDigit d) = false := by decide
  rw [Digit, lowerCase_eq_some_iff, upperCase_eq_some_iff] at h
  rcases h with ⟨hd, rfl⟩ | ⟨hd, rfl⟩
  · exact hlower d hd
  · exact hupper d hd

theorem Digits.mem (h : Digits cs n) (hc : c ∈ cs) : ∃ d, Digit c d := by
  induction h with
  | one hd =>
    obtain rfl := List.mem_singleton.mp hc
    exact ⟨_, hd⟩
  | more _ hd ih =>
    rcases List.mem_append.mp hc with hc | hc
    · exact ih hc
    · obtain rfl := List.mem_singleton.mp hc
      exact ⟨_, hd⟩

/-! ## Fields -/

variable {sep : Char} {fs : List (List Char)}

theorem fields_join (hne : fs ≠ []) (h : ∀ f ∈ fs, sep ∉ f) : fields sep (join sep fs) = fs := by
  induction fs with
  | nil => exact absurd rfl hne
  | cons f fs ih =>
    rw [List.forall_mem_cons] at h
    cases fs with
    | nil => exact fields_of_not_mem h.1
    | cons g gs => rw [join, fields_append_sep h.1, ih (List.cons_ne_nil g gs) h.2]

theorem mem_join (h : c ∈ join sep fs) : c = sep ∨ ∃ f ∈ fs, c ∈ f := by
  induction fs with
  | nil => cases h
  | cons f fs ih =>
    cases fs with
    | nil => exact .inr ⟨f, List.mem_singleton_self f, h⟩
    | cons g gs =>
      rw [join, List.mem_append, List.mem_cons] at h
      rcases h with h | h | h
      · exact .inr ⟨f, List.mem_cons_self, h⟩
      · exact .inl h
      · obtain hsep | ⟨k, hk, hck⟩ := ih h
        · exact .inl hsep
        · exact .inr ⟨k, List.mem_cons_of_mem f hk, hck⟩

end Rfcomm.Text

namespace Rfcomm.Address

open Text

/-! ## Addresses -/

/-- A field, and the octet that it names. -/
inductive Field : List Char → UInt8 → Prop
  | plain {cs n} : Digits cs n → n ≤ 255 → Field cs (UInt8.ofNat n)
  | plus {cs n} : Digits cs n → n ≤ 255 → Field ('+' :: cs) (UInt8.ofNat n)

/-- The written forms of an address: a field for each octet, with colons between them. -/
inductive Written (a : Address) : List Char → Prop
  | intro {fs} : List.Forall₂ Field fs a.octets.toList → Written a (join ':' fs)

/-- A text that names an address, blanks around it ignored. -/
def Named (a : Address) (text : String) : Prop := ∃ core, Stripped text.toList core ∧ Written a core

/-- The form in which an address is shown: two upper-case digits for each octet. -/
def Spelled (a : Address) (cs : List Char) : Prop :=
  ∃ fs, cs = join ':' fs ∧ List.Forall₂ (fun f o => ∃ high low, f = [high, low] ∧
    upperCase.toList[o.toNat / 16]? = some high ∧ upperCase.toList[o.toNat % 16]? = some low)
    fs a.octets.toList

variable {cs : List Char} {o : UInt8} {a b : Address} {text : String}

theorem octet?_eq_some_iff : octet? cs = some o ↔ Field cs o := by
  have hplus : ∀ ds, hexNat? ('+' :: ds) = none := fun ds => by
    simp [hexNat?, show hexDigit? '+' = none from rfl]
  have hvalue : ∀ {ds : List Char}, ((hexNat? ds).bind fun n =>
      if n ≤ 255 then some (UInt8.ofNat n) else none) = some o ↔
      ∃ n, Digits ds n ∧ n ≤ 255 ∧ UInt8.ofNat n = o := by
    intro ds
    simp only [Option.bind_eq_some_iff, hexNat?_eq_some_iff, Option.ite_none_right_eq_some,
      Option.some.injEq]
  unfold octet?
  rw [hvalue]
  constructor
  · rintro ⟨n, hd, hn, rfl⟩
    split at hd
    · exact .plus hd hn
    · exact .plain hd hn
  · rintro (⟨hd, hn⟩ | ⟨hd, hn⟩)
    · refine ⟨_, ?_, hn, rfl⟩
      split
      · rw [← hexNat?_eq_some_iff, hplus] at hd
        cases hd
      · exact hd
    · exact ⟨_, hd, hn, rfl⟩

theorem mapM_octet?_eq_some_iff {fs : List (List Char)} {os : List UInt8} :
    fs.mapM octet? = some os ↔ List.Forall₂ Field fs os := by
  induction fs generalizing os with
  | nil => simp [eq_comm]
  | cons f fs ih =>
    rw [List.mapM_cons, List.forall₂_cons_left_iff]
    constructor
    · intro h
      obtain ⟨o, ho, h⟩ := Option.bind_eq_some_iff.mp h
      obtain ⟨os, hos, h⟩ := Option.bind_eq_some_iff.mp h
      cases h
      exact ⟨o, os, octet?_eq_some_iff.mp ho, ih.mp hos, rfl⟩
    · rintro ⟨o, os, ho, hos, rfl⟩
      simp [octet?_eq_some_iff.mpr ho, ih.mpr hos]

theorem Field.mem {c : Char} (h : Field cs o) (hc : c ∈ cs) : c = '+' ∨ ∃ d, Digit c d := by
  cases h with
  | plain hd => exact .inr (hd.mem hc)
  | plus hd =>
    rcases List.mem_cons.mp hc with rfl | hc
    · exact .inl rfl
    · exact .inr (hd.mem hc)

theorem field_of_mem {fs : List (List Char)} {os : List UInt8} (h : List.Forall₂ Field fs os)
    {f : List Char} (hf : f ∈ fs) : ∃ o, Field f o := by
  induction h with
  | nil => cases hf
  | cons ho _ ih =>
    rcases List.mem_cons.mp hf with rfl | hf
    · exact ⟨_, ho⟩
    · exact ih hf

theorem no_colon {fs : List (List Char)} {os : List UInt8} (h : List.Forall₂ Field fs os) :
    ∀ f ∈ fs, ':' ∉ f := by
  intro f hf hc
  obtain ⟨o, ho⟩ := field_of_mem h hf
  rcases ho.mem hc with he | ⟨d, hd⟩
  · cases he
  · exact absurd hd.isHex (by decide)

theorem ofChars?_eq_some_iff : ofChars? cs = some a ↔ Written a cs := by
  constructor
  · intro h
    unfold ofChars? at h
    split at h
    · rename_i hfs
      cases h
      have hwritten := Written.intro (a := ⟨#v[_, _, _, _, _, _]⟩) (mapM_octet?_eq_some_iff.mp hfs)
      rwa [join_fields] at hwritten
    · cases h
  · rintro ⟨hfs⟩
    rename_i fs
    have hne : fs ≠ [] := by
      rintro rfl
      cases a with | mk octets => simpa using hfs.length_eq
    rw [ofChars?, fields_join hne (no_colon hfs), mapM_octet?_eq_some_iff.mpr hfs]
    obtain ⟨⟨⟨os⟩, hos⟩⟩ := a
    match os, hos with
    | [_, _, _, _, _, _], _ => rfl

theorem parse?_eq_some_iff : parse? text = some a ↔ Named a text := by
  simp only [parse?, ofChars?_eq_some_iff, Named, ← strip_eq_iff, exists_eq_left']

/-! ## The shown form -/

theorem spelled_toText (a : Address) : Spelled a a.toText.toList := by
  refine ⟨a.octets.toList.map fun o => upperHex 2 o.toNat, ?_, ?_⟩
  · rw [toText, String.toList_ofList, toChars]
  · rw [List.forall₂_map_left_iff, List.forall₂_same]
    intro o _
    have hlt : o.toNat < 256 := o.toNat_lt
    refine ⟨upperDigit (o.toNat / 16), upperDigit (o.toNat % 16), ?_, ?_, ?_⟩
    · rw [upperHex, hexDigits, hexDigits, hexDigits, Nat.mod_eq_of_lt (a := o.toNat / 16) (by omega)]
      rfl
    · exact upperCase_eq_some_iff.mpr ⟨by omega, rfl⟩
    · exact upperCase_eq_some_iff.mpr ⟨by omega, rfl⟩

theorem Spelled.written (h : Spelled a cs) : Written a cs := by
  obtain ⟨fs, rfl, hfs⟩ := h
  refine .intro (hfs.imp fun f o ⟨high, low, hf, hh, hl⟩ => ?_)
  have hfield := Field.plain (Digits.more (.one (.inr hh)) (.inr hl))
    (by have := o.toNat_lt; omega)
  rw [Nat.div_add_mod' o.toNat 16, UInt8.ofNat_toNat] at hfield
  rwa [hf]

theorem Written.not_blank {c : Char} (h : Written a cs) (hc : c ∈ cs) : isBlank c = false := by
  obtain ⟨hfs⟩ := h
  rcases mem_join hc with rfl | ⟨f, hf, hcf⟩
  · rfl
  · obtain ⟨o, ho⟩ := field_of_mem hfs hf
    rcases ho.mem hcf with rfl | ⟨d, hd⟩
    · rfl
    · exact hd.not_blank

/-- The form in which an address is shown names it. -/
theorem named_toText (a : Address) : Named a a.toText :=
  have hwritten := (spelled_toText a).written
  ⟨_, stripped_self fun _ => hwritten.not_blank, hwritten⟩

end Rfcomm.Address

namespace Rfcomm.Connection

open Address (Named Spelled)

/-! ## Targets of a connection -/

variable {c : Connection} {ms : List Moment} {t : Config.Tuning}

theorem isChannel_iff {channel : UInt8} : isChannel channel = true ↔ 1 ≤ channel ∧ channel ≤ 30 := by
  rw [isChannel, Bool.and_eq_true, decide_eq_true_eq, decide_eq_true_eq]
  simp only [maxChannel, ne_eq, UInt8.le_iff_toNat_le, ← UInt8.toNat_inj, UInt8.reduceToNat]
  omega

theorem parse_of_named {text : String} {channel : UInt8} {a : Address} (ha : Named a text)
    (hc : 1 ≤ channel ∧ channel ≤ 30) : Target.parse text channel = .ok ⟨a, channel⟩ := by
  simp [Target.parse, Address.parse?_eq_some_iff.mpr ha, checkChannel, isChannel_iff.mpr hc, Except.map]

theorem parse_of_bad_channel {text : String} {channel : UInt8} {a : Address} (ha : Named a text)
    (hc : ¬ (1 ≤ channel ∧ channel ≤ 30)) :
    Target.parse text channel = .error (.invalidChannel channel) := by
  simp [Target.parse, Address.parse?_eq_some_iff.mpr ha, checkChannel, mt isChannel_iff.mp hc,
    Except.map]

theorem parse_of_unnamed {text : String} (channel : UInt8) (h : ¬ ∃ a : Address, Named a text) :
    Target.parse text channel = .error (.invalidAddress text) := by
  have hnone : Address.parse? text = none :=
    Option.eq_none_iff_forall_ne_some.mpr fun a ha => h ⟨a, Address.parse?_eq_some_iff.mp ha⟩
  rw [Target.parse, hnone]

theorem perform_connect_error {text : String} {channel : UInt8} {e : Error}
    (h : Target.parse text channel = .error e) :
    c.perform (.connect text channel) = some (c, { refused := some e }) := by
  simp only [perform, connect, h]
  rfl

/-- The job of an accepted call asks for a stream to its target. -/
theorem perform_connect_ok {text : String} {channel : UInt8} {target : Target}
    (h : Target.parse text channel = .ok target) (hS : c.Sound) (hidle : c.phase = .idle) :
    ∃ c' w, c.perform (.connect text channel) = some (c', { started := some w }) ∧
      c'.phase = .connecting ∧ c'.ask w = .call (.connect target) := by
  have hS' : ({ c with phase := .connecting } : Connection).Sound := hS.congr rfl rfl hS.link
  have hstage : ({ c with phase := .connecting }.spawn (.connecting target)).2.stage? c.nextTask =
      some (.connecting target) := by
    rw [stage?_spawn hS']
    exact Function.update_self ..
  refine ⟨_, .task c.nextTask, ?_, rfl, (ask_task hstage).trans rfl⟩
  simp only [perform, connect, h, bind, Except.bind, hidle, if_true]
  rfl

/-- An idle connection begins to connect if and only if the text names an address and the number is
one of a channel, and it does so to the address that is named. A text that names none is refused
first, quoted as it was given. The form in which the address is shown does as well as the text. -/
theorem dials_iff_named (hr : (machine t).Run ms c) (hidle : c.phase = .idle) (text : String)
    (channel : UInt8) :
    ((∃ c' w, c.perform (.connect text channel) = some (c', { started := some w })) ↔
      (∃ a : Address, Named a text) ∧ 1 ≤ channel ∧ channel ≤ 30) ∧
    (∀ a : Address, Named a text → 1 ≤ channel ∧ channel ≤ 30 →
      ∃ c' w, c.perform (.connect text channel) = some (c', { started := some w }) ∧
        c'.phase = .connecting ∧ c'.ask w = .call (.connect ⟨a, channel⟩)) ∧
    ((¬ ∃ a : Address, Named a text) →
      c.perform (.connect text channel) = some (c, { refused := some (.invalidAddress text) })) ∧
    (∀ a : Address, Named a text → ¬ (1 ≤ channel ∧ channel ≤ 30) →
      c.perform (.connect text channel) = some (c, { refused := some (.invalidChannel channel) })) ∧
    ∀ a : Address, Named a text → Spelled a a.toText.toList ∧ Named a a.toText ∧
      c.perform (.connect a.toText channel) = c.perform (.connect text channel) := by
  have dialled : ∀ a : Address, Named a text → 1 ≤ channel ∧ channel ≤ 30 →
      ∃ c' w, c.perform (.connect text channel) = some (c', { started := some w }) ∧
        c'.phase = .connecting ∧ c'.ask w = .call (.connect ⟨a, channel⟩) :=
    fun a ha hc => perform_connect_ok (parse_of_named ha hc) (sound_of_run hr) hidle
  have unnamed : (¬ ∃ a : Address, Named a text) →
      c.perform (.connect text channel) = some (c, { refused := some (.invalidAddress text) }) :=
    fun h => perform_connect_error (parse_of_unnamed channel h)
  have outside : ∀ a : Address, Named a text → ¬ (1 ≤ channel ∧ channel ≤ 30) →
      c.perform (.connect text channel) = some (c, { refused := some (.invalidChannel channel) }) :=
    fun a ha hc => perform_connect_error (parse_of_bad_channel ha hc)
  refine ⟨⟨?_, ?_⟩, dialled, unnamed, outside, fun a ha => ⟨Address.spelled_toText a,
    Address.named_toText a, ?_⟩⟩
  · rintro ⟨c', w, hp⟩
    by_cases hnamed : ∃ a : Address, Named a text
    · refine ⟨hnamed, ?_⟩
      obtain ⟨a, ha⟩ := hnamed
      by_contra hc
      cases hp.symm.trans (outside a ha hc)
    · cases hp.symm.trans (unnamed hnamed)
  · rintro ⟨⟨a, ha⟩, hc⟩
    obtain ⟨c', w, hp, -⟩ := dialled a ha hc
    exact ⟨c', w, hp⟩
  · have hparse : Target.parse a.toText channel = Target.parse text channel := by
      by_cases hc : 1 ≤ channel ∧ channel ≤ 30
      · rw [parse_of_named ha hc, parse_of_named (Address.named_toText a) hc]
      · rw [parse_of_bad_channel ha hc, parse_of_bad_channel (Address.named_toText a) hc]
    simp only [perform, connect, hparse]

/-- A text with blanks, signs, zeros in front and letters in either case. -/
theorem dials_named_with_signs :
    ∃ c w, (create {}).perform (.connect "\u3000+0:1:00000002:a:fF:+010\t" 30) =
        some (c, { started := some w }) ∧
      c.ask w = .call (.connect ⟨⟨#v[0, 1, 2, 10, 255, 16]⟩, 30⟩) := by
  obtain ⟨-, h, -⟩ := dials_iff_named (t := {}) .start rfl "\u3000+0:1:00000002:a:fF:+010\t" 30
  obtain ⟨c, w, hp, -, ha⟩ :=
    h ⟨#v[0, 1, 2, 10, 255, 16]⟩ (Address.parse?_eq_some_iff.mp (by decide +kernel)) (by decide)
  exact ⟨c, w, hp, ha⟩

end Rfcomm.Connection
