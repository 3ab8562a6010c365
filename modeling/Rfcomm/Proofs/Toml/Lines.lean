import Rfcomm.Config.Document
import Rfcomm.Proofs.Toml.Decimal
import Rfcomm.Proofs.Toml.Quoting
/-!
Documents that are written line by line read back: headers, and lines that give a key its value.
-/
namespace Rfcomm.Toml

variable {c : Char} {cs ds r xs : List Char} {name key : String} {v : Value} {d n : Nat}

/-! ## Keys -/

/-- A key that is written without quotes. -/
structure Bare (key : String) : Prop where
  ne : key.toList ≠ []
  bare : ∀ c ∈ key.toList, isBare c = true

instance (key : String) : Decidable (Bare key) :=
  decidable_of_iff (key.toList ≠ [] ∧ key.toList.all isBare = true)
    ⟨fun h => ⟨h.1, List.all_eq_true.mp h.2⟩, fun h => ⟨h.ne, List.all_eq_true.mpr h.bare⟩⟩

theorem Bare.eq_cons (h : Bare key) : ∃ c cs, key.toList = c :: cs ∧ isBare c = true := by
  obtain ⟨c, cs, hcs⟩ := List.exists_cons_of_ne_nil h.ne
  exact ⟨c, cs, hcs, h.bare c (hcs ▸ .head cs)⟩

theorem skipBlanks_of_not_blank (h : isBlank c = false) (xs : List Char) :
    skipBlanks (c :: xs) = c :: xs :=
  List.dropWhile_cons_of_neg (by rw [h]; exact Bool.false_ne_true)

theorem isBlank_of_bare (h : isBare c = true) : isBlank c = false := by
  have hne : c ≠ ' ' ∧ c ≠ '\t' := by
    constructor <;> (rintro rfl; cases h)
  simp [isBlank, hne]

/-- A bare key is taken up to a character that is not of a key. -/
theorem simpleKey?_bare (hkey : Bare key) (hc : isBare c = false) (xs : List Char) :
    simpleKey? (skipBlanks (key.toList ++ c :: xs)) = some (key, c :: xs) := by
  obtain ⟨k, ks, hks, hk⟩ := hkey.eq_cons
  have hend : ¬ isBare c = true := by rw [hc]; exact Bool.false_ne_true
  have htake : (key.toList ++ c :: xs).takeWhile isBare = key.toList := by
    rw [List.takeWhile_append_of_pos hkey.bare, List.takeWhile_cons_of_neg hend, List.append_nil]
  have hdrop : (key.toList ++ c :: xs).dropWhile isBare = c :: xs := by
    rw [List.dropWhile_append_of_pos hkey.bare, List.dropWhile_cons_of_neg hend]
  have hskip : skipBlanks (key.toList ++ c :: xs) = key.toList ++ c :: xs := by
    rw [hks]
    exact skipBlanks_of_not_blank (isBlank_of_bare hk) _
  rw [hskip]
  unfold simpleKey?
  split
  · rename_i he
    rw [hks] at he
    cases he
    cases hk
  · rename_i he
    rw [hks] at he
    cases he
    cases hk
  · dsimp only
    rw [htake, hdrop, if_neg, String.ofList_toList]
    simp [hks]

theorem key?_bare (hkey : Bare key) (hc : isBare c = false) (xs : List Char)
    (hdot : ∀ ys, skipBlanks (c :: xs) ≠ '.' :: ys) :
    key? (key.toList ++ c :: xs) = some (([], key), skipBlanks (c :: xs)) := by
  have hkeys (n : Nat) :
      dottedKeys (n + 1) (key.toList ++ c :: xs) = some ([key], skipBlanks (c :: xs)) := by
    rw [dottedKeys, simpleKey?_bare hkey hc]
    dsimp only [Option.bind_eq_bind, Option.bind_some]
    split
    · exact absurd ‹_› (hdot _)
    · rfl
  rw [key?, hkeys]
  rfl

/-! ## Values -/

/-- Text that is read as a value at the end of a line. -/
def Reads (cs : List Char) (v : Value) : Prop :=
  ∀ r, value (maxDepth - 1) (skipBlanks (' ' :: (cs ++ '\n' :: r))) = some (v, '\n' :: r)

theorem value_of_flat (hc : c ≠ '[' ∧ c ≠ '{') (xs : List Char) :
    value d (c :: xs) = flat? (c :: xs) := by
  cases d with
  | zero => rfl
  | succ d =>
    rw [value]
    · exact fun _ he => hc.1 (List.cons.inj he).1
    · exact fun _ he => hc.2 (List.cons.inj he).1

/-- Quoted text begins with one of two characters. -/
theorem quote_append (cs r : List Char) :
    ∃ c xs, quote cs ++ r = c :: xs ∧ (c = '"' ∨ c = '\'') := by
  cases h : quotingOf cs with
  | basic => exact ⟨_, _, by rw [quote, h, write_basic], .inl rfl⟩
  | literal => exact ⟨_, _, by rw [quote, h, write_literal], .inr rfl⟩
  | basicLines => exact ⟨_, _, by rw [quote, h, write_basicLines], .inl rfl⟩
  | literalLines => exact ⟨_, _, by rw [quote, h, write_literalLines], .inr rfl⟩

theorem reads_quote (s : String) : Reads (quote s.toList) (.string s) := by
  intro r
  obtain ⟨c, xs, he, hc⟩ := quote_append s.toList ('\n' :: r)
  have hblank : isBlank c = false := by
    rcases hc with rfl | rfl <;> rfl
  have hflat : flat? (c :: xs) = (quoted? (c :: xs)).map fun p => (.string (String.ofList p.1), p.2) := by
    rcases hc with rfl | rfl <;> rfl
  have hskip : skipBlanks (' ' :: (quote s.toList ++ '\n' :: r)) = c :: xs := by
    rw [he]
    exact skipBlanks_of_not_blank hblank xs
  rw [hskip, value_of_flat (by rcases hc with rfl | rfl <;> decide), hflat, ← he, quoted?_quote,
    Option.map_some]
  dsimp only
  rw [String.ofList_toList]

theorem reads_toDigits (hn : inRange n = true) : Reads (Nat.toDigits 10 n) (.integer n) := by
  intro r
  have hscalar := scalar?_toDigits hn r
  have hdigits : ∀ c ∈ Nat.toDigits 10 n, c.isDigit = true := fun _ => isDigit_of_mem
  cases hds : Nat.toDigits 10 n with
  | nil => exact absurd hds Nat.toDigits_ne_nil
  | cons d ds =>
    rw [hds] at hscalar hdigits
    have hd := hdigits d (.head ds)
    have hne : ∀ {c : Char}, c.isDigit = false → d ≠ c := fun hc => ne_of_isDigit hd hc
    have hbare : isBare d = true := by simp [isBare, Char.isAlphanum, hd]
    have hskip : skipBlanks (' ' :: (d :: ds ++ '\n' :: r)) = d :: (ds ++ '\n' :: r) :=
      skipBlanks_of_not_blank (isBlank_of_bare hbare) _
    rw [hskip, value_of_flat ⟨hne rfl, hne rfl⟩, flat?]
    · exact hscalar
    · exact fun _ he => hne rfl (List.cons.inj he).1
    · exact fun _ he => hne rfl (List.cons.inj he).1

/-! ## Lines -/

/-- However the document goes on behind the text, the reader comes to a state there. It needs no more
steps than characters. -/
def Reading.Leads (s : Reading) (cs : List Char) (s' : Reading) : Prop :=
  ∀ r n, r.length < n →
    ∃ m, r.length < m ∧ Reading.lines (n + cs.length) s (cs ++ r) = Reading.lines m s' r

namespace Reading

variable {s s' s'' : Reading}

theorem Leads.append (h : Leads s cs s') (h' : Leads s' ds s'') : Leads s (cs ++ ds) s'' := by
  intro r n hn
  -- What the first text leaves of the steps is enough for the second one and the rest.
  obtain ⟨m, hm, hlines⟩ := h (ds ++ r) (n + ds.length) (by simp; omega)
  rw [List.length_append] at hm
  obtain ⟨m', hm', hlines'⟩ := h' r (m - ds.length) (by omega)
  refine ⟨m', hm', ?_⟩
  rw [List.append_assoc, List.length_append, ← hlines', Nat.sub_add_cancel (by omega), ← hlines,
    Nat.add_comm cs.length, Nat.add_assoc]

theorem leads_nil : Leads s [] s := fun _ n hn => ⟨n, hn, rfl⟩

theorem leads_of_line (hne : cs ≠ []) (h : ∀ r, s.line (cs ++ r) = some (s', r)) : Leads s cs s' := by
  intro r n hn
  obtain ⟨k, hk⟩ := Nat.exists_eq_add_one.mpr (List.length_pos_iff.mpr hne)
  refine ⟨n + k, by omega, ?_⟩
  rw [hk, ← Nat.add_assoc, lines, h r]
  · rfl
  · exact fun he => hne (List.append_eq_nil_iff.mp he).1

/-- What is read when all lines are. -/
theorem Leads.parse? {es : Entries} (h : Leads start cs s) (hmark : cs.head? ≠ some '\uFEFF')
    (hs : s.finish = some ⟨.header, es⟩) : Toml.parse? (String.ofList cs) = some es := by
  have hdrop : dropMark cs = cs := by
    unfold dropMark
    split
    · exact absurd rfl hmark
    · rfl
  obtain ⟨m, -, hlines⟩ := h [] 1 Nat.one_pos
  rw [List.append_nil, Nat.add_comm] at hlines
  have hend : lines m s [] = some s := by cases m <;> rfl
  rw [Toml.parse?, String.toList_ofList, hdrop, hlines, hend, Option.bind_eq_bind, Option.bind_some, hs]
  rfl

theorem leads_blank : Leads s ['\n'] s := leads_of_line nofun fun _ => rfl

theorem line_header (hname : Bare name) (h : s.table [] name = some s') (r : List Char) :
    s.line ('[' :: (name.toList ++ ']' :: '\n' :: r)) = some (s', r) := by
  have hkey : key? (name.toList ++ ']' :: '\n' :: r) = some (([], name), ']' :: '\n' :: r) :=
    key?_bare hname rfl ('\n' :: r) nofun
  obtain ⟨c, cs, hcs, hc⟩ := hname.eq_cons
  have hskip : skipBlanks ('[' :: (name.toList ++ ']' :: '\n' :: r)) =
      '[' :: (name.toList ++ ']' :: '\n' :: r) := rfl
  have hend : lineEnd? ('\n' :: r) = some r := rfl
  rw [line, hskip]
  split
  · rename_i he
    rw [hcs] at he
    cases he
    cases hc
  · rename_i he
    cases he
    simp only [hkey, hend, h, Option.bind_eq_bind, Option.bind_some]
  · rename_i he
    exact absurd rfl (he _)

/-- A line that begins with a key is neither empty nor a header. -/
theorem lineEnd?_of_bare (hc : isBare c = true) (xs : List Char) : lineEnd? (c :: xs) = none := by
  have hne : c ≠ '#' ∧ c ≠ '\n' ∧ c ≠ '\r' := by
    refine ⟨?_, ?_, ?_⟩ <;> (rintro rfl; cases hc)
  have hcomment : skipComment (c :: xs) = c :: xs := by
    unfold skipComment
    split
    · rename_i he
      exact absurd (List.cons.inj he).1 hne.1
    · rfl
  rw [lineEnd?, skipBlanks_of_not_blank (isBlank_of_bare hc), hcomment]
  dsimp only
  unfold newline?
  split
  · rename_i he
    exact absurd (List.cons.inj he).1 hne.2.1
  · rename_i he
    exact absurd (List.cons.inj he).1 hne.2.2
  · rfl

theorem pair?_entry (hkey : Bare key) (hv : Reads cs v) (r : List Char) :
    pair? (value (maxDepth - 1)) (key.toList ++ ' ' :: '=' :: ' ' :: (cs ++ '\n' :: r)) =
      some (([], key, v), '\n' :: r) := by
  have hskip : skipBlanks (' ' :: '=' :: ' ' :: (cs ++ '\n' :: r)) = '=' :: ' ' :: (cs ++ '\n' :: r) := rfl
  have hkey' := key?_bare hkey rfl ('=' :: ' ' :: (cs ++ '\n' :: r)) (by rw [hskip]; exact nofun)
  simp only [pair?, hkey', hskip, hv r, Option.bind_eq_bind, Option.bind_some]

theorem line_entry (hkey : Bare key) (hv : Reads cs v) (h : s.add [] key v = some s') (r : List Char) :
    s.line (key.toList ++ ' ' :: '=' :: ' ' :: (cs ++ '\n' :: r)) = some (s', r) := by
  have hpair := pair?_entry hkey hv r
  have hend : lineEnd? ('\n' :: r) = some r := rfl
  obtain ⟨c, ks, hks, hc⟩ := hkey.eq_cons
  rw [hks, List.cons_append] at hpair ⊢
  rw [line, skipBlanks_of_not_blank (isBlank_of_bare hc)]
  split
  · rename_i he
    obtain rfl := (List.cons.inj he).1
    cases hc
  · rename_i he
    obtain rfl := (List.cons.inj he).1
    cases hc
  · simp only [lineEnd?_of_bare hc, hpair, hend, h, Option.bind_eq_bind, Option.bind_some]

theorem leads_header (hname : Bare name) (h : s.table [] name = some s') :
    Leads s ('[' :: name.toList ++ "]\n".toList) s' := by
  refine leads_of_line nofun fun r => ?_
  have hshape : '[' :: name.toList ++ "]\n".toList ++ r = '[' :: (name.toList ++ ']' :: '\n' :: r) := by
    simp
  rw [hshape]
  exact line_header hname h r

theorem leads_entry (hkey : Bare key) (hv : Reads cs v) (h : s.add [] key v = some s') :
    Leads s (Config.entry key cs) s' := by
  refine leads_of_line (by simp [Config.entry]) fun r => ?_
  have hshape : Config.entry key cs ++ r = key.toList ++ ' ' :: '=' :: ' ' :: (cs ++ '\n' :: r) := by
    simp [Config.entry]
  rw [hshape]
  exact line_entry hkey hv h r

/-! ## Tables -/

/-- Among the lines of a table that has a header, behind the tables that are done. -/
def within (done : Entries) (name : String) (es : Entries) : Reading :=
  ⟨⟨.header, done⟩, some ([], name, false), ⟨.header, es⟩⟩

variable {done es : Entries}

theorem put_of_new (h : es.get? key = none) : es.put key v = es ++ [(key, v)] := by
  induction es with
  | nil => rfl
  | cons e es ih =>
    obtain ⟨k, w⟩ := e
    rw [Entries.get?, List.lookup_cons] at h
    split at h
    · cases h
    · rename_i hne
      rw [Entries.put, if_neg, ih h]
      · rfl
      · rintro rfl
        exact absurd (beq_self_eq_true k) (by rw [hne]; exact Bool.false_ne_true)

theorem leads_first (hname : Bare name) :
    Leads start ('[' :: name.toList ++ "]\n".toList) (within [] name []) :=
  leads_header hname rfl

/-- A header ends the table before it. -/
theorem leads_next {next : String} (hnext : Bare next) (hdone : done.get? name = none)
    (hnew : Entries.get? (done ++ [(name, .table .header es)]) next = none) :
    Leads (within done name es) ('[' :: next.toList ++ "]\n".toList)
      (within (done ++ [(name, .table .header es)]) next []) := by
  refine leads_header hnext ?_
  have hfinish : (within done name es).finish = some ⟨.header, done ++ [(name, .table .header es)]⟩ := by
    rw [← put_of_new hdone]
    rfl
  rw [table, hfinish, Option.bind_eq_bind, Option.bind_some, Draft.takeOut, Draft.within, hnew]
  rfl

theorem leads_line (hkey : Bare key) (hv : Reads cs v) (hnew : es.get? key = none) :
    Leads (within done name es) (Config.entry key cs) (within done name (es ++ [(key, v)])) := by
  refine leads_entry hkey hv ?_
  have hadd : Draft.add [] key v ⟨.header, es⟩ = some ⟨.header, es ++ [(key, v)]⟩ := by
    have hplain : ((Origin.header == Origin.dotted) == ([] : List String).isEmpty) = false := rfl
    simp only [← put_of_new hnew, Draft.add, Draft.within, hplain, hnew, Bool.false_eq_true, if_false,
      Option.map_some]
  rw [add, within, hadd]
  rfl

end Reading

end Rfcomm.Toml
