import Rfcomm.Proofs.Config.Saving
import Rfcomm.Proofs.Machine
/-!
Loading spares what is there. Whatever stands at a path stays as it is; where nothing is, the defaults
come to stand, or nothing does but directories on the way and, if the file for the defaults was made but
did not take them, a part of them. Settings that were loaded once load again.
-/
namespace Rfcomm.Config

namespace Files

variable {fs fs' : Files} {path p : String}

theorem length_of_mem_ancestors : p ∈ ancestors path → p.length < path.length := by
  induction path using ancestors.induct with
  | case1 path h =>
    rw [ancestors, if_pos h]
    nofun
  | case2 path h ih =>
    have hlt := length_parent_lt (fun he => h (.inl he)) (fun he => h (.inr he))
    rw [ancestors, if_neg h]
    intro hp
    rcases List.mem_cons.mp hp with rfl | hp
    · exact hlt
    · exact Nat.lt_trans (ih hp) hlt

theorem not_mem_ancestors : path ∉ ancestors path := fun h =>
  Nat.lt_irrefl _ (length_of_mem_ancestors h)

/-- A path at which nothing is lies in its parent. -/
theorem ancestors_of_none (h : fs.at? path = none) :
    ancestors path = parent path :: ancestors (parent path) := by
  have hne : ¬(path = "" ∨ path = "/") := by
    rintro (rfl | rfl) <;> cases h
  rw [ancestors, if_neg hne]

theorem makeDirectory_eq (h : fs.makeDirectory path = .ok fs') :
    fs.at? path = none ∧ fs' = fs.set path .directory := by
  unfold makeDirectory at h
  split at h
  · cases h
  · split at h <;> cases h
    exact ⟨‹_›, rfl⟩

end Files

namespace Disk

open Files (Mishap ancestors parent)

variable {d d' d'' : Disk} {path p : String} {dirs : List String} {files : Files} {n : Node}
  {f : Fault} {c : Config} {content : ByteArray} {e : StoreError} {r : Except StoreError Config}
  {mishap : Option Mishap} {taken : Nat}

@[simp] theorem update_files : (d.update path files).files = files := by
  unfold update
  split <;> rfl

@[simp] theorem update_fixed : (d.update path files).fixed = d.fixed := by
  unfold update
  split <;> rfl

@[simp] theorem update_closed : (d.update path files).closed = d.closed := by
  unfold update
  split <;> rfl

theorem update_unreadable : (d.update path files).unreadable ⊆ d.unreadable := by
  unfold update
  split
  · exact List.filter_sublist.subset
  · exact List.Subset.refl _

theorem readable_update (h : d.files.at? path = none) (hn : files.at? path = some n) :
    path ∉ (d.update path files).unreadable := by
  unfold update
  rw [h, hn]
  simp

theorem update_self : d.update path d.files = d := by
  unfold update
  split
  · rename_i hnone hsome
    cases hnone.symm.trans hsome
  · rfl

/-! ## What grows -/

/-- A later disk, on which what was there is still there, and may be used as before. -/
structure Keeps (d d' : Disk) : Prop where
  kept : ∀ {p n}, d.files.at? p = some n → d'.files.at? p = some n
  unreadable : d'.unreadable ⊆ d.unreadable
  fixed : d'.fixed = d.fixed
  closed : d'.closed = d.closed

/-- One on which besides some of these directories came up, and nothing else. -/
structure Grows (dirs : List String) (d d' : Disk) : Prop extends Keeps d d' where
  new : ∀ {p n}, d'.files.at? p = some n → d.files.at? p = some n ∨ p ∈ dirs ∧ n = .directory

theorem Keeps.refl : Keeps d d := ⟨id, List.Subset.refl _, rfl, rfl⟩

theorem Keeps.trans (h : Keeps d d') (h' : Keeps d' d'') : Keeps d d'' :=
  ⟨fun hp => h'.kept (h.kept hp), List.Subset.trans h'.unreadable h.unreadable,
    h'.fixed.trans h.fixed, h'.closed.trans h.closed⟩

theorem Keeps.reaches (h : Keeps d d') : d'.reaches p = d.reaches p := by
  rw [Disk.reaches, Disk.reaches, h.closed]

theorem Grows.refl : Grows dirs d d := ⟨.refl, .inl⟩

theorem Grows.trans (h : Grows dirs d d') (h' : Grows dirs d' d'') : Grows dirs d d'' := by
  refine ⟨h.toKeeps.trans h'.toKeeps, fun hp => ?_⟩
  rcases h'.new hp with hp | hp
  · exact h.new hp
  · exact .inr hp

theorem Grows.mono {dirs' : List String} (h : Grows dirs d d') (hs : dirs ⊆ dirs') :
    Grows dirs' d d' :=
  ⟨h.toKeeps, fun hp => (h.new hp).imp_right fun hp => ⟨hs hp.1, hp.2⟩⟩

theorem Grows.absent (h : Grows dirs d d') (hp : d.files.at? p = none) (hd : p ∉ dirs) :
    d'.files.at? p = none := by
  cases hn : d'.files.at? p with
  | none => rfl
  | some n =>
    rcases h.new hn with hn | hn
    · cases hp.symm.trans hn
    · exact absurd hn.1 hd

/-- A change at a place where nothing was keeps everything. -/
theorem keeps_update (hn : d.files.at? path = none) (h : ∀ p, p ≠ path → files.at? p = d.files.at? p) :
    Keeps d (d.update path files) := by
  refine ⟨fun {p n} hp => ?_, update_unreadable, update_fixed, update_closed⟩
  rw [update_files, h p, hp]
  rintro rfl
  cases hn.symm.trans hp

theorem makeDirectory_ok (h : d.makeDirectory path = .ok d') :
    d.files.at? path = none ∧ d' = d.update path (d.files.set path .directory) := by
  unfold makeDirectory at h
  split at h
  · cases h
  · cases hfiles : d.files.makeDirectory path with
    | error f =>
      rw [hfiles] at h
      cases h
    | ok files =>
      rw [hfiles] at h
      cases h
      obtain ⟨hnone, rfl⟩ := Files.makeDirectory_eq hfiles
      exact ⟨hnone, rfl⟩

theorem grows_makeDirectory (h : d.makeDirectory path = .ok d') :
    Grows [path] d d' ∧ d'.files.at? path = some .directory := by
  obtain ⟨hnone, rfl⟩ := makeDirectory_ok h
  have hset : (d.files.set path .directory).at? path = some .directory :=
    Files.at?_set (by rw [hnone]; nofun)
  have hrest : ∀ p, p ≠ path → (d.files.set path .directory).at? p = d.files.at? p :=
    fun p hp => Files.at?_set_of_ne hp
  rw [update_files]
  refine ⟨⟨keeps_update hnone hrest, fun {p n} hp => ?_⟩, hset⟩
  rw [update_files] at hp
  by_cases he : p = path
  · subst p
    exact .inr ⟨List.mem_singleton_self _, Option.some.inj (hp.symm.trans hset)⟩
  · exact .inl ((hrest p he).symm.trans hp)

theorem grows_ensureDirectory : Grows [path] d (d.ensureDirectory path).1 := by
  unfold ensureDirectory
  split
  · exact (grows_makeDirectory ‹_›).1
  · exact .refl

theorem grows_makeDirectories : Grows dirs d (d.makeDirectories dirs).1 := by
  induction dirs generalizing d with
  | nil => exact .refl
  | cons path above ih =>
    have hhead : ∀ {d : Disk}, Grows (path :: above) d (d.ensureDirectory path).1 :=
      grows_ensureDirectory.mono (List.cons_subset_cons _ (List.nil_subset _))
    have htail : Grows (path :: above) d (d.makeDirectories above).1 :=
      ih.mono (List.subset_cons_self _ _)
    unfold makeDirectories
    split
    · exact .refl
    · split
      · split
        · rename_i hmade
          rw [hmade] at htail
          exact htail.trans hhead
        · rename_i hmade
          rw [hmade] at htail
          exact htail
      · exact hhead

theorem grows_makeParents : Grows (ancestors path) d (d.makeParents path).1 := by
  unfold makeParents
  split
  · exact .refl
  · exact grows_makeDirectories

/-! ## Saving and loading -/

theorem isThere_of_none (h : d.files.at? path = none) : d.isThere path = false := by
  rw [isThere, h]
  exact Bool.and_false _

/-- A disk that holds a file with these settings, which can be read. -/
structure Holds (d : Disk) (path : String) (content : ByteArray) (c : Config) : Prop where
  reaches : d.reaches path = true
  readable : path ∉ d.unreadable
  file : d.files.at? path = some (.file content)
  parses : ofBytes path content = .ok c

theorem Holds.load (h : d.Holds path content c) : d.load path = .ok c := by
  rw [Disk.load, h.reaches, Bool.true_and, if_pos (by simpa using h.readable), Config.load, Files.read,
    h.file]
  exact h.parses

theorem Holds.isThere (h : d.Holds path content c) : d.isThere path = true := by
  rw [Disk.isThere, h.reaches, h.file]
  rfl

theorem holds_of_load (h : d.load path = .ok c) : ∃ content, d.Holds path content c := by
  unfold Disk.load at h
  split at h
  · rename_i hmay
    rw [Bool.and_eq_true] at hmay
    unfold Config.load Files.read at h
    split at h
    · cases h
    · rename_i content hread
      split at hread <;> cases hread
      exact ⟨content, hmay.1, by simpa using hmay.2, ‹_›, h⟩
  · cases h

theorem Holds.later (h : d.Holds path content c) (hk : Keeps d d') : d'.Holds path content c :=
  ⟨hk.reaches.trans h.reaches, fun hp => h.readable (hk.unreadable hp), hk.kept h.file, h.parses⟩

theorem reaches_of_denial (h : d.denial path = none) : d.reaches path = true := by
  unfold denial at h
  split at h
  · cases h
  · split at h
    · cases h
    · rename_i hr
      simpa using hr

/-- What saving the defaults where nothing is can come to: the place takes no file, or it comes to hold a part
of them, or all and can be read. -/
inductive Defaults (d : Disk) (path : String) (mishap : Option Mishap) :
    Disk → Except StoreError Unit → Prop
  | unopened {f : Fault} : Defaults d path mishap d (.error (.fault f))
  | brokenOff {taken : Nat} {f : Fault} {d' : Disk} : d.reaches path = true →
      BreaksOff d.files path {} mishap taken f → Keeps d d' →
      d.files.Puts path ((encoded {}).extract 0 taken) d'.files →
      Defaults d path mishap d' (.error (.fault f))
  | saved {d' : Disk} : d.reaches path = true → Keeps d d' → d'.Holds path (encoded {}) {} →
      Defaults d path mishap d' (.ok ())

theorem save_default_of_denial (hd : d.denial path = some f) :
    d.save path {} mishap = (d, .error (.fault f)) := by
  rw [Disk.save, render_of_le default_fits, hd]

theorem save_default_of_free (hd : d.denial path = none) : d.save path {} mishap =
    (d.update path (Config.save d.files path {} mishap).1, (Config.save d.files path {} mishap).2) := by
  rw [Disk.save, render_of_le default_fits, hd]

theorem save_default (mishap : Option Mishap)
    (h : d.reaches path = true → d.files.at? path = none) :
    Defaults d path mishap (d.save path {} mishap).1 (d.save path {} mishap).2 := by
  cases hd : d.denial path with
  | some f =>
    rw [save_default_of_denial hd]
    exact .unopened
  | none =>
    have hreach := reaches_of_denial hd
    have hs := saving d.files path {} mishap
    rw [save_default_of_free hd]
    generalize Config.save d.files path {} mishap = saved at hs
    obtain ⟨files, result⟩ := saved
    cases hs with
    | unwritable hlarge =>
      obtain ⟨n, hn, hlt⟩ := hlarge
      exact absurd (default_fits n hn) (Nat.not_le.mpr hlt)
    | unopened =>
      dsimp only
      rw [update_self]
      exact .unopened
    | brokenOff hb hputs =>
      refine .brokenOff hreach hb (keeps_update (h hreach) hputs.elsewhere) ?_
      rw [update_files]
      exact hputs
    | saved _ _ _ hputs =>
      refine .saved hreach (keeps_update (h hreach) hputs.elsewhere) ⟨?_, ?_, ?_, ?_⟩
      · rw [Disk.reaches, update_closed]
        exact hreach
      · exact readable_update (h hreach) hputs.here
      · rw [update_files]
        exact hputs.here
      · exact ofBytes_encoded default_fits

theorem loadOrCreate_of_barred (hn : d.isThere path = false) (hf : (d.makeParents path).2 = .error f) :
    d.loadOrCreate path mishap = ((d.makeParents path).1, .error (.fault f)) := by
  unfold loadOrCreate
  rw [hn, if_neg Bool.false_ne_true]
  split <;> rename_i hmade <;> rw [hmade] at hf <;> cases hf
  rw [hmade]

theorem loadOrCreate_of_made (hn : d.isThere path = false) (hm : (d.makeParents path).2 = .ok ()) :
    d.loadOrCreate path mishap = (((d.makeParents path).1.save path {} mishap).1,
      ((d.makeParents path).1.save path {} mishap).2.map fun _ => {}) := by
  unfold loadOrCreate
  rw [hn, if_neg Bool.false_ne_true]
  split <;> rename_i hmade <;> rw [hmade] at hm <;> cases hm
  rw [hmade]
  dsimp only
  split <;> rename_i hsave <;> rw [hsave] <;> rfl

/-- What a call for the settings of a path can come to: the disk and the result. -/
inductive Outcome (d : Disk) (path : String) (mishap : Option Mishap) :
    Disk → Except StoreError Config → Prop
  | read {r : Except StoreError Config} : d.isThere path = true → d.load path = r →
      Outcome d path mishap d r
  | failed {d' : Disk} {f : Fault} : Grows (ancestors path) d d' →
      Outcome d path mishap d' (.error (.fault f))
  | brokenOff {d₁ d' : Disk} {taken : Nat} {f : Fault} : Grows (ancestors path) d d₁ →
      BreaksOff d₁.files path {} mishap taken f → Keeps d₁ d' →
      d₁.files.Puts path ((encoded {}).extract 0 taken) d'.files →
      Outcome d path mishap d' (.error (.fault f))
  | made {d' : Disk} : d.files.at? path = none → d'.Holds path (encoded {}) {} → Keeps d d' →
      Outcome d path mishap d' (.ok {})

theorem outcome (d : Disk) (path : String) (mishap : Option Mishap) :
    Outcome d path mishap (d.loadOrCreate path mishap).1 (d.loadOrCreate path mishap).2 := by
  cases hthere : d.isThere path with
  | true =>
    rw [Disk.loadOrCreate, if_pos hthere]
    exact .read hthere rfl
  | false =>
    have hnone : d.reaches path = true → d.files.at? path = none := by
      intro hr
      rw [isThere, hr, Bool.true_and] at hthere
      simpa using hthere
    have hgrows : Grows (ancestors path) d (d.makeParents path).1 := grows_makeParents
    cases hmade : (d.makeParents path).2 with
    | error f =>
      rw [loadOrCreate_of_barred hthere hmade]
      exact .failed hgrows
    | ok u =>
      have hstill : (d.makeParents path).1.reaches path = true →
          (d.makeParents path).1.files.at? path = none := by
        intro hr
        rw [hgrows.reaches] at hr
        exact hgrows.absent (hnone hr) Files.not_mem_ancestors
      have hsave := save_default mishap hstill
      rw [loadOrCreate_of_made hthere hmade]
      generalize (d.makeParents path).1.save path {} mishap = saved at hsave
      obtain ⟨d', result⟩ := saved
      cases hsave with
      | unopened => exact .failed hgrows
      | brokenOff _ hb hkeeps hputs => exact .brokenOff hgrows hb hkeeps hputs
      | saved hr hkeeps hholds =>
        rw [hgrows.reaches] at hr
        exact .made (hnone hr) hholds (hgrows.toKeeps.trans hkeeps)

theorem Outcome.keeps (h : Outcome d path mishap d' r) : Keeps d d' := by
  cases h with
  | read => exact .refl
  | failed hgrows => exact hgrows.toKeeps
  | brokenOff hgrows _ hkeeps _ => exact hgrows.toKeeps.trans hkeeps
  | made _ _ hkeeps => exact hkeeps

theorem Outcome.holds (h : Outcome d path mishap d' (.ok c)) : ∃ content, d'.Holds path content c := by
  cases h with
  | read _ hload => exact holds_of_load hload
  | made _ hholds => exact ⟨_, hholds⟩

theorem Outcome.default (h : Outcome d path mishap d' (.ok c)) (hn : d.files.at? path = none) :
    c = {} := by
  cases h with
  | read hthere => cases (isThere_of_none hn).symm.trans hthere
  | made => rfl

/-- What a call that failed leaves is what was there, directories on the way, and of the defaults what the
file for them took. -/
theorem Outcome.leaves (h : Outcome d path mishap d' (.error e)) (hp : d'.files.at? p = some n) :
    d.files.at? p = some n ∨ p ∈ ancestors path ∧ n = .directory ∨
      p = path ∧ ∃ taken f, mishap = some (.writing taken f) ∧ e = .fault f ∧
        taken < (encoded {}).size ∧ n = .file ((encoded {}).extract 0 taken) := by
  cases h with
  | read => exact .inl hp
  | failed hgrows => exact (hgrows.new hp).imp_right .inl
  | @brokenOff _ _ taken f hgrows hb _ hputs =>
    by_cases hpath : p = path
    · subst p
      refine .inr (.inr ⟨rfl, taken, f, hb.mishap_eq, rfl, hb.short, ?_⟩)
      exact Option.some.inj (hp.symm.trans hputs.here)
    · rw [hputs.elsewhere p hpath] at hp
      exact (hgrows.new hp).imp_right .inl

/-! ## Calls one after the other -/

/-- What can be done with the settings of a path, and what goes wrong if they are to be written. -/
inductive Act
  | load (path : String)
  | loadOrCreate (path : String) (mishap : Option Mishap)

def Act.file : Act → String
  | load path | loadOrCreate path _ => path

def perform (d : Disk) : Act → Option (Disk × Except StoreError Config)
  | .load path => some (d, d.load path)
  | .loadOrCreate path mishap => some (d.loadOrCreate path mishap)

abbrev Moment := Rfcomm.Moment Disk Act (Except StoreError Config)

/-- Calls that begin with a disk. -/
def machine (d : Disk) : Machine Disk Act (Except StoreError Config) where
  start := d
  perform := perform

variable {act : Act} {ms : List Moment} {m : Moment} {s : Disk}

theorem keeps_of_perform (h : d.perform act = some (d', r)) : Keeps d d' := by
  cases act with
  | load path =>
    cases h
    exact .refl
  | loadOrCreate path mishap =>
    obtain rfl : (d.loadOrCreate path mishap).1 = d' := congrArg Prod.fst (Option.some.inj h)
    exact (outcome d path mishap).keeps

/-- A call for the settings that are held gets them. -/
theorem Holds.perform (h : d.Holds path content c) (hp : d.perform act = some (d', r))
    (ha : act.file = path) : r = .ok c := by
  cases act with
  | load p =>
    obtain rfl : p = path := ha
    cases hp
    exact h.load
  | loadOrCreate p mishap =>
    obtain rfl : p = path := ha
    obtain rfl : (d.loadOrCreate p mishap).2 = r := congrArg Prod.snd (Option.some.inj hp)
    rw [Disk.loadOrCreate, if_pos h.isThere]
    exact h.load

theorem Holds.of_run (h : d.Holds path content c) (hr : (machine d).Run ms s) :
    s.Holds path content c ∧ ∀ m ∈ ms, m.after.Holds path content c ∧
      (m.act.file = path → m.effect = .ok c) := by
  induction hr with
  | start => exact ⟨h, fun m hm => absurd hm List.not_mem_nil⟩
  | next _ _ hp ih =>
    have hafter := ih.1.later (keeps_of_perform hp)
    refine ⟨hafter, fun m hm => ?_⟩
    rcases List.mem_append.mp hm with hm | hm
    · exact ih.2 m hm
    · obtain rfl := List.mem_singleton.mp hm
      exact ⟨hafter, ih.1.perform hp⟩

/-! ## Where nothing is in the way -/

/-- A place that can be on the way to a file: it is a directory or nothing, and no right is missing. -/
structure Clear (d : Disk) (p : String) : Prop where
  notFile : ∀ content, d.files.at? p ≠ some (.file content)
  notClosed : p ∉ d.closed
  notFixed : p ∉ d.fixed

theorem Clear.cases (h : d.Clear p) : d.files.at? p = none ∨ d.files.at? p = some .directory :=
  match hp : d.files.at? p with
  | none => .inl rfl
  | some .directory => .inr rfl
  | some (.file content) => absurd hp (h.notFile content)

theorem Clear.later (h : d.Clear p) (hg : Grows dirs d d') : d'.Clear p := by
  refine ⟨fun content hp => ?_, hg.closed ▸ h.notClosed, hg.fixed ▸ h.notFixed⟩
  rcases hg.new hp with hp | ⟨-, hp⟩
  · exact h.notFile content hp
  · cases hp

theorem reaches_of_clear (hne : path ≠ "") (h : ∀ q ∈ ancestors path, d.Clear q) :
    d.reaches path = true := by
  rw [reaches, Bool.and_eq_true, List.all_eq_true]
  refine ⟨by simpa using hne, fun q hq => ?_⟩
  simpa using (h q hq).notClosed

/-- A thing can be made where nothing is, in a directory that is there. -/
theorem denial_of_clear (h : ∀ q ∈ ancestors path, d.Clear q) (hn : d.files.at? path = none)
    (hp : d.files.at? (parent path) = some .directory) : d.denial path = none := by
  have hne : path ≠ "" := by
    rintro rfl
    cases hn
  have hmem : parent path ∈ ancestors path := by
    rw [Files.ancestors_of_none hn]
    exact List.mem_cons_self
  have hfree := (h _ hmem).notFixed
  simp [denial, hne, reaches_of_clear hne h, hn, hp, hfree]

theorem makeDirectory_of_parent (h : ∀ q ∈ ancestors path, d.Clear q)
    (hn : d.files.at? path = none) (hp : d.files.at? (parent path) = some .directory) :
    d.makeDirectory path = .ok (d.update path (d.files.set path .directory)) := by
  simp [makeDirectory, denial_of_clear h hn hp, Files.makeDirectory, hn, hp, Except.map]

theorem makeDirectory_of_orphan (h : ∀ q ∈ ancestors path, d.Clear q)
    (hn : d.files.at? path = none) (hp : d.files.at? (parent path) = none) :
    d.makeDirectory path = .error (.status 2) := by
  have hne : path ≠ "" := by
    rintro rfl
    cases hn
  simp [makeDirectory, denial, hne, reaches_of_clear hne h, Files.makeDirectory, hn, hp, Except.map]

theorem makeDirectory_of_directory (hne : path ≠ "") (h : ∀ q ∈ ancestors path, d.Clear q)
    (hp : d.files.at? path = some .directory) : d.makeDirectory path = .error (.status 17) := by
  simp [makeDirectory, denial, hne, reaches_of_clear hne h, Files.makeDirectory, hp, Except.map]

theorem ensureDirectory_of_made (h : d.makeDirectory path = .ok d') :
    d.ensureDirectory path = (d', .ok ()) := by
  rw [ensureDirectory, h]

theorem makeDirectories_of_directory (h : ∀ q ∈ ancestors path, d.Clear q)
    (hp : d.files.at? path = some .directory) :
    d.makeDirectories (path :: dirs) = (d, .ok ()) := by
  obtain rfl | hne := Decidable.em (path = "")
  · rfl
  have hdir : d.isDirectory path = true := by
    rw [isDirectory, reaches_of_clear hne h, hp]
    rfl
  simp [makeDirectories, ensureDirectory, makeDirectory_of_directory hne h hp, hne, hdir]

/-- The directories on a way that is clear are made, and then the last of them is there. -/
theorem makeDirectories_of_clear (h : ∀ q ∈ path :: ancestors path, d.Clear q) :
    (d.makeDirectories (path :: ancestors path)).2 = .ok () ∧
      (d.makeDirectories (path :: ancestors path)).1.files.at? path = some .directory := by
  induction path using Rfcomm.Config.Files.ancestors.induct with
  | case1 path hend =>
    have hdir : d.files.at? path = some .directory := by
      rcases hend with rfl | rfl <;> rfl
    rw [makeDirectories_of_directory (List.forall_mem_cons.mp h).2 hdir]
    exact ⟨rfl, hdir⟩
  | case2 path hend ih =>
    obtain ⟨hself, habove⟩ := List.forall_mem_cons.mp h
    rcases hself.cases with hnone | hdir
    · have hanc := Files.ancestors_of_none hnone
      have hempty : path.isEmpty = false := by simpa using fun he => hend (.inl he)
      rw [makeDirectories, hempty, if_neg Bool.false_ne_true]
      rcases (habove _ (hanc ▸ List.mem_cons_self)).cases with hpar | hpar
      · -- The parent is made first, and nothing comes up at `path` while it is.
        have hgrows : Grows (ancestors path) d (d.makeDirectories (ancestors path)).1 :=
          grows_makeDirectories
        have hmade := ih (hanc ▸ habove)
        rw [← hanc] at hmade
        rw [makeDirectory_of_orphan habove hnone hpar]
        generalize d.makeDirectories (ancestors path) = made at hmade hgrows
        obtain ⟨d', r⟩ := made
        obtain ⟨rfl, hpar'⟩ := hmade
        have hmake := makeDirectory_of_parent (fun q hq => (habove q hq).later hgrows)
          (hgrows.absent hnone Files.not_mem_ancestors) hpar'
        dsimp only
        rw [ensureDirectory_of_made hmake]
        exact ⟨rfl, (grows_makeDirectory hmake).2⟩
      · have hmake := makeDirectory_of_parent habove hnone hpar
        rw [ensureDirectory_of_made hmake, hmake]
        exact ⟨rfl, (grows_makeDirectory hmake).2⟩
    · rw [makeDirectories_of_directory habove hdir]
      exact ⟨rfl, hdir⟩

theorem makeParents_of_clear (hn : d.files.at? path = none) (h : ∀ q ∈ ancestors path, d.Clear q) :
    (d.makeParents path).2 = .ok () ∧
      (d.makeParents path).1.files.at? (parent path) = some .directory := by
  have hanc := Files.ancestors_of_none hn
  rw [hanc] at h
  rw [makeParents, hanc]
  exact makeDirectories_of_clear h

theorem save_default_of_clear (h : ∀ q ∈ ancestors path, d.Clear q) (hn : d.files.at? path = none)
    (hp : d.files.at? (parent path) = some .directory) (hm : ∀ m ∈ mishap, ¬ m.strikes (encoded {})) :
    (d.save path {} mishap).2 = .ok () := by
  obtain ⟨files, hsave, -⟩ := save_of_writable default_fits (.inr ⟨hn, hp⟩) hm
  rw [save_default_of_free (denial_of_clear h hn hp), hsave]

theorem loadOrCreate_of_clear (hn : d.files.at? path = none) (h : ∀ q ∈ ancestors path, d.Clear q)
    (hm : ∀ m ∈ mishap, ¬ m.strikes (encoded {})) : (d.loadOrCreate path mishap).2 = .ok {} := by
  have hgrows : Grows (ancestors path) d (d.makeParents path).1 := grows_makeParents
  obtain ⟨hmade, hparent⟩ := makeParents_of_clear hn h
  have hsaved := save_default_of_clear (fun q hq => (h q hq).later hgrows)
    (hgrows.absent hn Files.not_mem_ancestors) hparent hm
  rw [loadOrCreate_of_made (isThere_of_none hn) hmade, hsaved]
  rfl

/-! ## The promises of a call -/

/-- What a call for the settings of a path promises, whatever goes wrong. -/
structure Spares (d : Disk) (path : String) (mishap : Option Mishap) : Prop where
  /-- What stands anywhere stays as it is, whatever comes of the call. -/
  kept : ∀ p n, d.files.at? p = some n → (d.loadOrCreate path mishap).1.files.at? p = some n
  /-- Where nothing is, the call gives the defaults if it gives anything. -/
  defaults : d.files.at? path = none → ∀ c, (d.loadOrCreate path mishap).2 = .ok c → c = {}
  /-- A call that gave settings left a file at the path. From then on all calls for the path give these
  settings, and no call, for whatever path, changes the file. -/
  settled : ∀ c, (d.loadOrCreate path mishap).2 = .ok c → ∃ content,
    (d.loadOrCreate path mishap).1.files.at? path = some (.file content) ∧
      ∀ ms s, (machine (d.loadOrCreate path mishap).1).Run ms s → ∀ m ∈ ms,
        m.after.files.at? path = some (.file content) ∧ (m.act.file = path → m.effect = .ok c)
  /-- If a directory on the way cannot be made, the call fails for that reason, and no file comes up. -/
  barred : d.files.at? path = none → ∀ f, (d.makeParents path).2 = .error f →
    (d.loadOrCreate path mishap).2 = .error (.fault f) ∧
      (d.loadOrCreate path mishap).1.files.at? path = none
  /-- A call that fails leaves nothing but directories on the way, unless the file for the defaults was
  opened: then it holds what it took of them. -/
  failed : ∀ e, (d.loadOrCreate path mishap).2 = .error e → ∀ p n,
    (d.loadOrCreate path mishap).1.files.at? p = some n →
      d.files.at? p = some n ∨ p ∈ ancestors path ∧ n = .directory ∨
        p = path ∧ ∃ taken f, mishap = some (.writing taken f) ∧ e = .fault f ∧
          taken < (encoded {}).size ∧ n = .file ((encoded {}).extract 0 taken)
  /-- Where nothing is and nothing is in the way, the call succeeds if the defaults can be written. -/
  succeeds : d.files.at? path = none → (∀ q ∈ ancestors path, d.Clear q) →
    (∀ m ∈ mishap, ¬ m.strikes (encoded {})) → (d.loadOrCreate path mishap).2 = .ok {}

/-- Loading damages nothing, and loading again gives the same. -/
theorem files_spared (d : Disk) (path : String) (mishap : Option Mishap) : d.Spares path mishap where
  kept _ _ hp := (outcome d path mishap).keeps.kept hp
  defaults hn _ h := (h ▸ outcome d path mishap).default hn
  settled c h := by
    obtain ⟨content, hholds⟩ := (h ▸ outcome d path mishap).holds
    refine ⟨content, hholds.file, fun ms s hr m hm => ?_⟩
    obtain ⟨hafter, hsame⟩ := (hholds.of_run hr).2 m hm
    exact ⟨hafter.file, hsame⟩
  barred hn f hf := by
    rw [loadOrCreate_of_barred (isThere_of_none hn) hf]
    exact ⟨rfl, grows_makeParents.absent hn Files.not_mem_ancestors⟩
  failed _ h _ _ hp := (h ▸ outcome d path mishap).leaves hp
  succeeds hn h hm := loadOrCreate_of_clear hn h hm

/-- The defaults come to stand in a directory that was missing, and load again; below a file nothing does; a
file that may not be read stays. -/
theorem files_spared_below_missing :
    let d : Disk := { files := ⟨[("f", .file ByteArray.empty)]⟩, unreadable := ["f"] }
    ((d.loadOrCreate "a/c" none).2 = .ok {} ∧ (d.loadOrCreate "a/c" none).1.load "a/c" = .ok {}) ∧
      (d.loadOrCreate "f/c" none).2 = .error (.fault (.status 17)) ∧
      (d.loadOrCreate "f" none).1.files.at? "f" = some (.file ByteArray.empty) := by
  intro d
  have hclear : ∀ q ∈ ancestors "a/c", d.Clear q := by
    have hanc : ancestors "a/c" = ["a", ""] := by simp [ancestors, parent]
    rw [hanc]
    simp only [List.forall_mem_cons]
    exact ⟨⟨nofun, by decide, by decide⟩, ⟨nofun, by decide, by decide⟩, List.forall_mem_nil _⟩
  have hmade := (files_spared d "a/c" none).succeeds rfl hclear Files.not_strikes_of_none
  obtain ⟨content, -, hrun⟩ := (files_spared d "a/c" none).settled _ hmade
  have hloaded := hrun _ _ (.next .start rfl rfl) ⟨_, .load "a/c", _, _⟩ (List.mem_singleton_self _)
  have hfile : (d.makeParents "f/c").2 = .error (.status 17) := by
    simp [d, makeParents, ancestors, parent, makeDirectories, ensureDirectory, makeDirectory, denial,
      reaches, isDirectory, Files.makeDirectory, Files.at?, Except.map]
  exact ⟨⟨hmade, hloaded.2 rfl⟩, ((files_spared d "f/c" none).barred rfl _ hfile).1,
    (files_spared d "f" none).kept _ _ rfl⟩

end Disk

end Rfcomm.Config
