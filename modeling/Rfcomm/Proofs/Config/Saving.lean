import Mathlib.Algebra.Group.Nat.Defs
import Rfcomm.Proofs.Config.Document
import Rfcomm.Proofs.Config.Range
/-!
Saved settings load again. Where they have no written form, or the file is not opened, saving leaves all as
it is. A file that was opened is emptied by that, so a write that then breaks off leaves a part of them.
-/
namespace Rfcomm.Config

namespace Files

variable {fs : Files} {path p : String} {n : Node}

/-- Whether a file can be written: one is there, or nothing is and the place for it is a directory. -/
def Writable (fs : Files) (path : String) : Prop :=
  (∃ content, fs.at? path = some (.file content)) ∨
    fs.at? path = none ∧ fs.at? (parent path) = some .directory

/-! ## Files -/

theorem at?_set_of_ne (h : p ≠ path) : (fs.set path n).at? p = fs.at? p := by
  have hfilter : ∀ nodes : List (String × Node),
      (nodes.filter (·.1 ≠ path)).lookup p = nodes.lookup p := by
    intro nodes
    induction nodes with
    | nil => rfl
    | cons e nodes ih =>
      obtain ⟨q, m⟩ := e
      by_cases hq : q = path
      · subst hq
        rw [List.filter_cons_of_neg (by simp), ih, List.lookup_cons, beq_eq_false_iff_ne.mpr h]
      · rw [List.filter_cons_of_pos (by simpa using hq), List.lookup_cons, List.lookup_cons, ih]
  have hlookup : (fs.set path n).nodes.lookup p = fs.nodes.lookup p := by
    rw [set, List.lookup_cons, beq_eq_false_iff_ne.mpr h]
    exact hfilter fs.nodes
  rw [at?, at?, hlookup]

/-- Where no directory is, a node can be put. -/
theorem at?_set (h : fs.at? path ≠ some .directory) : (fs.set path n).at? path = some n := by
  unfold at? at h ⊢
  split
  · rename_i hroot
    exact absurd (if_pos hroot) h
  · rw [set, List.lookup_cons, beq_self_eq_true]

theorem Writable.not_directory (h : fs.Writable path) : fs.at? path ≠ some .directory := by
  rcases h with ⟨content, h⟩ | ⟨h, -⟩ <;> rw [h] <;> nofun

theorem create_of_writable (h : fs.Writable path) :
    fs.create path = .ok (fs.set path (.file ByteArray.empty)) := by
  rcases h with ⟨content, h⟩ | ⟨h, hparent⟩
  · rw [create, h]
  · rw [create, h]
    dsimp only
    rw [hparent]

theorem create_of_not_writable (h : ¬ fs.Writable path) : ∃ f, fs.create path = .error f := by
  unfold create
  split
  · exact ⟨_, rfl⟩
  · exact absurd (.inl ⟨_, ‹_›⟩) h
  · split
    · exact absurd (.inr ⟨‹_›, ‹_›⟩) h
    · exact ⟨_, rfl⟩
    · exact ⟨_, rfl⟩

variable {content : ByteArray} {mishap : Option Mishap} {f : Fault} {taken : Nat}

/-- The file at a path has this content now, and nothing else changed. -/
structure Puts (fs : Files) (path : String) (content : ByteArray) (fs' : Files) : Prop where
  here : fs'.at? path = some (.file content)
  elsewhere : ∀ p, p ≠ path → fs'.at? p = fs.at? p

/-- A file that is opened is emptied first, and then takes a content. -/
theorem Writable.puts (h : fs.Writable path) :
    fs.Puts path content ((fs.set path (.file ByteArray.empty)).set path (.file content)) := by
  have hopened : (fs.set path (.file ByteArray.empty)).at? path ≠ some .directory := by
    rw [at?_set h.not_directory]
    nofun
  refine ⟨at?_set hopened, fun p hp => ?_⟩
  rw [at?_set_of_ne hp, at?_set_of_ne hp]

theorem strikes_writing : (Mishap.writing taken f).strikes content = true ↔ taken < content.size :=
  decide_eq_true_iff

theorem not_strikes_of_none : ∀ m ∈ (none : Option Mishap), ¬ m.strikes content := by simp

theorem filter_of_not_strikes (h : ∀ m ∈ mishap, ¬ m.strikes content) :
    mishap.filter (·.strikes content) = none :=
  Option.filter_eq_none_iff.mpr h

theorem write_of_not_writable (h : ¬ fs.Writable path) :
    ∃ f, fs.write path content mishap = (fs, .error f) := by
  obtain ⟨f, hf⟩ := create_of_not_writable h
  exact ⟨f, by rw [write, hf]⟩

theorem write_of_opening (f : Fault) :
    ∃ g, fs.write path content (some (.opening f)) = (fs, .error g) := by
  by_cases h : fs.Writable path
  · exact ⟨f, by rw [write, create_of_writable h]; rfl⟩
  · exact write_of_not_writable h

theorem write_of_writing (h : fs.Writable path) (ht : taken < content.size) :
    ∃ fs', fs.write path content (some (.writing taken f)) = (fs', .error f) ∧
      fs.Puts path (content.extract 0 taken) fs' := by
  refine ⟨_, ?_, h.puts⟩
  rw [write, create_of_writable h, Option.filter_some_pos (strikes_writing.mpr ht)]

theorem write_of_writable (h : fs.Writable path) (hm : ∀ m ∈ mishap, ¬ m.strikes content) :
    ∃ fs', fs.write path content mishap = (fs', .ok ()) ∧ fs.Puts path content fs' := by
  refine ⟨_, ?_, h.puts⟩
  rw [write, create_of_writable h, filter_of_not_strikes hm]

end Files

/-! ## Settings -/

open Files (Mishap Puts)

variable {fs fs' : Files} {path : String} {c : Config} {content : ByteArray} {mishap : Option Mishap}
  {f : Fault} {taken : Nat}

/-- Whether settings have a written form. -/
def Fits (c : Config) : Prop := ∀ n ∈ c.link.numbers, n.toNat ≤ largest

/-- The written form of settings, in bytes. -/
def encoded (c : Config) : ByteArray := (String.ofList c.chars).toUTF8

theorem default_fits : ({} : Config).Fits := by
  simp only [Fits, Tuning.numbers, List.forall_mem_cons]
  exact ⟨by decide, by decide, by decide, by decide, List.forall_mem_nil _⟩

/-- The file for settings is opened, but then takes a part of them only. -/
structure BreaksOff (fs : Files) (path : String) (c : Config) (mishap : Option Mishap) (taken : Nat)
    (f : Fault) : Prop where
  fits : c.Fits
  writable : fs.Writable path
  mishap_eq : mishap = some (.writing taken f)
  short : taken < c.encoded.size

theorem fromUTF8?_toUTF8 (s : String) : String.fromUTF8? s.toUTF8 = some s := by
  simp only [String.fromUTF8?, String.toUTF8_eq_toByteArray, dif_pos s.isValidUTF8]
  rfl

theorem ofBytes_encoded (h : c.Fits) : ofBytes path c.encoded = .ok c := by
  rw [ofBytes, encoded, fromUTF8?_toUTF8]
  dsimp only
  rw [parse?_chars h]

theorem save_of_large (h : ∃ n ∈ c.link.numbers, largest < n.toNat) :
    save fs path c mishap = (fs, .error (.unwritable "out-of-range value for u64 type")) := by
  rw [save, render_of_large h]

/-- Settings that have a written form are written, as far as the file takes them. -/
theorem save_of_fits (h : c.Fits) : save fs path c mishap =
    ((fs.write path c.encoded mishap).1, (fs.write path c.encoded mishap).2.mapError .fault) := by
  rw [save, render_of_le h]
  dsimp only
  split <;> rename_i hw <;> rw [encoded, hw] <;> rfl

/-- What saving can come to: the files and the result. -/
inductive Saving (fs : Files) (path : String) (c : Config) (mishap : Option Mishap) :
    Files → Except StoreError Unit → Prop
  | unwritable {reason : String} : (∃ n ∈ c.link.numbers, largest < n.toNat) →
      Saving fs path c mishap fs (.error (.unwritable reason))
  | unopened {g : Fault} : c.Fits → (fs.Writable path → ∃ f, mishap = some (.opening f)) →
      Saving fs path c mishap fs (.error (.fault g))
  | brokenOff {taken : Nat} {f : Fault} {fs' : Files} : BreaksOff fs path c mishap taken f →
      fs.Puts path (c.encoded.extract 0 taken) fs' → Saving fs path c mishap fs' (.error (.fault f))
  | saved {fs' : Files} : c.Fits → fs.Writable path → (∀ m ∈ mishap, ¬ m.strikes c.encoded) →
      fs.Puts path c.encoded fs' → Saving fs path c mishap fs' (.ok ())

theorem save_of_breaksOff (h : BreaksOff fs path c mishap taken f) :
    ∃ fs', save fs path c mishap = (fs', .error (.fault f)) ∧
      fs.Puts path (c.encoded.extract 0 taken) fs' := by
  obtain ⟨fs', hwrite, hputs⟩ := Files.write_of_writing (f := f) h.writable h.short
  exact ⟨fs', by rw [save_of_fits h.fits, h.mishap_eq, hwrite]; rfl, hputs⟩

theorem save_of_writable (h : c.Fits) (hw : fs.Writable path) (hm : ∀ m ∈ mishap, ¬ m.strikes c.encoded) :
    ∃ fs', save fs path c mishap = (fs', .ok ()) ∧ fs.Puts path c.encoded fs' := by
  obtain ⟨fs', hwrite, hputs⟩ := Files.write_of_writable hw hm
  exact ⟨fs', by rw [save_of_fits h, hwrite]; rfl, hputs⟩

theorem saving (fs : Files) (path : String) (c : Config) (mishap : Option Mishap) :
    Saving fs path c mishap (save fs path c mishap).1 (save fs path c mishap).2 := by
  by_cases hlarge : ∃ n ∈ c.link.numbers, largest < n.toNat
  · rw [save_of_large hlarge]
    exact .unwritable hlarge
  have hfits : c.Fits := fun n hn => Nat.le_of_not_lt fun hlt => hlarge ⟨n, hn, hlt⟩
  by_cases hw : fs.Writable path
  · by_cases hm : ∀ m ∈ mishap, ¬ m.strikes c.encoded
    · obtain ⟨fs', hsave, hputs⟩ := save_of_writable hfits hw hm
      rw [hsave]
      exact .saved hfits hw hm hputs
    · obtain ⟨m, hm⟩ := Classical.not_forall.mp hm
      obtain ⟨rfl, hstrikes⟩ := Classical.not_imp.mp hm
      have hstrikes := Classical.not_not.mp hstrikes
      cases m with
      | opening f =>
        obtain ⟨g, hwrite⟩ : ∃ g, fs.write path c.encoded (some (.opening f)) = (fs, .error g) :=
          Files.write_of_opening f
        rw [save_of_fits hfits, hwrite]
        exact .unopened hfits fun _ => ⟨f, rfl⟩
      | writing taken f =>
        have hb : BreaksOff fs path c (some (.writing taken f)) taken f :=
          ⟨hfits, hw, rfl, Files.strikes_writing.mp hstrikes⟩
        obtain ⟨fs', hsave, hputs⟩ := save_of_breaksOff hb
        rw [hsave]
        exact .brokenOff hb hputs
  · obtain ⟨f, hwrite⟩ : ∃ f, fs.write path c.encoded mishap = (fs, .error f) :=
      Files.write_of_not_writable hw
    rw [save_of_fits hfits, hwrite]
    exact .unopened hfits fun h => absurd h hw

theorem Saving.ok (h : Saving fs path c mishap fs' (.ok ())) : c.Fits ∧ fs.Writable path ∧
    (∀ m ∈ mishap, ¬ m.strikes c.encoded) ∧ fs.Puts path c.encoded fs' := by
  cases h with
  | saved hfits hw hm hputs => exact ⟨hfits, hw, hm, hputs⟩

theorem Saving.error {e : StoreError} (h : Saving fs path c mishap fs' (.error e)) :
    fs' = fs ∨ ∃ taken f, BreaksOff fs path c mishap taken f := by
  cases h with
  | unwritable | unopened => exact .inl rfl
  | brokenOff hb => exact .inr ⟨_, _, hb⟩

end Rfcomm.Config
