import Rfcomm.Config.Document
import Rfcomm.Config.Location
import Rfcomm.Fault
/-!
Loading and saving settings. A file is read if there is one; where nothing is, the defaults are
written, parents included. Nothing that exists is ever overwritten by loading.
-/
namespace Rfcomm.Config

/-- What a path leads to. -/
inductive Node
  | file (content : ByteArray)
  | directory
deriving Inhabited

/-- The files around: the nodes by path. A place has one path, so a path has no slash at its end, no two in
a row and no dots for parts. The root and the empty path are directories. -/
structure Files where
  nodes : List (String × Node)
deriving Inhabited

namespace Files

def at? (fs : Files) (path : String) : Option Node :=
  if path.isEmpty || path = "/" then some .directory else fs.nodes.lookup path

/-- Puts a node at a path, in place of the one there. -/
def set (fs : Files) (path : String) (n : Node) : Files :=
  ⟨(path, n) :: fs.nodes.filter (·.1 ≠ path)⟩

/-- The path of the directory that a path is in. -/
def parent (path : String) : String :=
  let dir := (path.toList.reverse.dropWhile (· ≠ '/')).drop 1
  if dir.isEmpty && path.startsWith "/" then "/" else String.ofList dir.reverse

theorem length_parent_lt {path : String} (h : path ≠ "") (hroot : path ≠ "/") :
    (parent path).length < path.length := by
  have hpos : 0 < path.toList.length :=
    List.length_pos_iff.mpr fun hnil => h (String.toList_eq_nil_iff.mp hnil)
  have hdrop := (List.dropWhile_sublist (· ≠ '/') (l := path.toList.reverse)).length_le
  rw [List.length_reverse] at hdrop
  unfold parent
  dsimp only
  rw [← String.length_toList (s := path)]
  split
  · rename_i hslash
    have hprefix : ['/'] <+: path.toList :=
      String.startsWith_string_iff.mp (Bool.and_eq_true_iff.mp hslash).2
    obtain ⟨rest, hrest⟩ := hprefix
    rw [← hrest]
    cases rest with
    | nil => exact absurd (String.toList_inj.mp hrest.symm) hroot
    | cons c rest => exact Nat.lt_add_of_pos_left (Nat.succ_pos _)
  · rw [String.length_ofList, List.length_reverse, List.length_drop]
    omega

/-- The directories that a path is in, the nearest first. The root and the empty path are in none. -/
def ancestors (path : String) : List String :=
  if path = "" ∨ path = "/" then [] else parent path :: ancestors (parent path)
termination_by path.length
decreasing_by
  rename_i h
  exact length_parent_lt (fun he => h (.inl he)) (fun he => h (.inr he))

/-- Makes a directory whose parent is there. -/
def makeDirectory (fs : Files) (path : String) : Except Fault Files :=
  match fs.at? path with
  | some _ => .error (.status 17)
  | none =>
    match fs.at? (parent path) with
    | some .directory => .ok (fs.set path .directory)
    | some (.file _) => .error (.status 20)
    | none => .error (.status 2)

def read (fs : Files) (path : String) : Except Fault ByteArray :=
  match fs.at? path with
  | some (.file b) => .ok b
  | some .directory => .error (.status 21)
  | none => .error (.status 2)

/-- Opens a file to be written: one that is there is emptied, one that is missing is made. -/
def create (fs : Files) (path : String) : Except Fault Files :=
  match fs.at? path with
  | some .directory => .error (.status 21)
  | some (.file _) => .ok (fs.set path (.file ByteArray.empty))
  | none =>
    match fs.at? (parent path) with
    | some .directory => .ok (fs.set path (.file ByteArray.empty))
    | some (.file _) => .error (.status 20)
    | none => .error (.status 2)

/-- What can go wrong when a file is written, wherever it is. -/
inductive Mishap
  /-- The file is not opened. -/
  | opening (f : Fault)
  /-- The file was opened, but takes this many bytes only. -/
  | writing (taken : Nat) (f : Fault)
deriving DecidableEq, Repr, Inhabited

/-- Whether a content is kept from being written. A file that took all of it is not asked for more. -/
def Mishap.strikes (content : ByteArray) : Mishap → Bool
  | opening _ => true
  | writing taken _ => taken < content.size

/-- Writes a file as a whole: it is opened, and then takes the content. What was in the file before is gone
once it is opened, also where it then takes a part of the content only. -/
def write (fs : Files) (path : String) (content : ByteArray) (mishap : Option Mishap) :
    Files × Except Fault Unit :=
  match fs.create path, mishap.filter (·.strikes content) with
  | .error f, _ => (fs, .error f)
  | .ok _, some (.opening f) => (fs, .error f)
  | .ok fs, some (.writing taken f) => (fs.set path (.file (content.extract 0 taken)), .error f)
  | .ok fs, none => (fs.set path (.file content), .ok ())

end Files

open Files (Mishap)

/-- Why settings could not be loaded or saved. -/
inductive StoreError
  /-- The file could not be read, or is no text. -/
  | reading (path : String)
  | parsing (path : String)
  | fault (f : Fault)
  /-- The settings have no written form. -/
  | unwritable (reason : String)
deriving DecidableEq, Repr, Inhabited

/-- The wording of a failure to load or save. -/
def StoreError.message : StoreError → String
  | reading path => "reading " ++ path
  | parsing path => "parsing " ++ path
  | fault f => f.text
  | unwritable reason => reason

def ofBytes (path : String) (content : ByteArray) : Except StoreError Config :=
  match String.fromUTF8? content with
  | none => .error (.reading path)
  | some text =>
    match parse? text with
    | some c => .ok c
    | none => .error (.parsing path)

def load (fs : Files) (path : String) : Except StoreError Config :=
  match fs.read path with
  | .error _ => .error (.reading path)
  | .ok content => ofBytes path content

/-- Writes the settings to a file. The files afterwards are given in both cases. -/
def save (fs : Files) (path : String) (c : Config) (mishap : Option Mishap) :
    Files × Except StoreError Unit :=
  match c.render with
  | .error reason => (fs, .error (.unwritable reason))
  | .ok text =>
    match fs.write path text.toUTF8 mishap with
    | (fs, .ok ()) => (fs, .ok ())
    | (fs, .error f) => (fs, .error (.fault f))

/-! ## Rights -/

/-- Files, and what may not be done with them. -/
structure Disk where
  files : Files
  /-- Files that may not be read. -/
  unreadable : List String := []
  /-- Directories in which nothing may be made. -/
  fixed : List String := []
  /-- Directories in which nothing may be looked up. -/
  closed : List String := []
deriving Inhabited

namespace Disk

def denied : Fault := .status 13

/-- Whether a path can be followed. The empty path leads nowhere. -/
def reaches (d : Disk) (path : String) : Bool :=
  !path.isEmpty && (Files.ancestors path).all fun p => !d.closed.contains p

def isThere (d : Disk) (path : String) : Bool := d.reaches path && (d.files.at? path).isSome

def isDirectory (d : Disk) (path : String) : Bool :=
  d.reaches path && (d.files.at? path) matches some .directory

/-- Why nothing can be changed at a path, as far as that is a matter of rights. -/
def denial (d : Disk) (path : String) : Option Fault :=
  if path.isEmpty then some (.status 2)
  else if !d.reaches path then some denied
  else
    match d.files.at? path, d.files.at? (Files.parent path) with
    | none, some .directory => if d.fixed.contains (Files.parent path) then some denied else none
    | _, _ => none

/-- The disk after a change at a path. A file that is new there may be read by who made it. -/
def update (d : Disk) (path : String) (files : Files) : Disk :=
  match d.files.at? path, files.at? path with
  | none, some _ => { d with files, unreadable := d.unreadable.filter (· ≠ path) }
  | _, _ => { d with files }

def makeDirectory (d : Disk) (path : String) : Except Fault Disk :=
  match d.denial path with
  | some f => .error f
  | none => (d.files.makeDirectory path).map (d.update path)

/-- Makes a directory. One that is there already is fine. -/
def ensureDirectory (d : Disk) (path : String) : Disk × Except Fault Unit :=
  match d.makeDirectory path with
  | .ok d => (d, .ok ())
  | .error f => (d, if d.isDirectory path then .ok () else .error f)

/-- Makes a directory and those that it is in, given from the nearest on. Those that were made stay if
another one cannot be made. -/
def makeDirectories (d : Disk) : List String → Disk × Except Fault Unit
  | [] => (d, .error (.explained .uncategorized "failed to create whole tree"))
  | path :: above =>
    if path.isEmpty then (d, .ok ())
    else
      match d.makeDirectory path with
      | .error (.status 2) =>
        match d.makeDirectories above with
        | (d, .ok ()) => d.ensureDirectory path
        | (d, .error f) => (d, .error f)
      | _ => d.ensureDirectory path

/-- Makes the directories that a path is in. -/
def makeParents (d : Disk) (path : String) : Disk × Except Fault Unit :=
  match Files.ancestors path with
  | [] => (d, .ok ())
  | dirs => d.makeDirectories dirs

def load (d : Disk) (path : String) : Except StoreError Config :=
  if d.reaches path && !d.unreadable.contains path then Config.load d.files path
  else .error (.reading path)

def save (d : Disk) (path : String) (c : Config) (mishap : Option Mishap) :
    Disk × Except StoreError Unit :=
  match c.render, d.denial path with
  | .ok _, some f => (d, .error (.fault f))
  | _, _ =>
    let (files, result) := Config.save d.files path c mishap
    (d.update path files, result)

/-- Reads the settings of a file, or writes the defaults where nothing is. The disk afterwards is given
in both cases. -/
def loadOrCreate (d : Disk) (path : String) (mishap : Option Mishap) :
    Disk × Except StoreError Config :=
  if d.isThere path then (d, d.load path)
  else
    match d.makeParents path with
    | (d, .error f) => (d, .error (.fault f))
    | (d, .ok ()) =>
      match d.save path {} mishap with
      | (d, .ok ()) => (d, .ok {})
      | (d, .error e) => (d, .error e)

end Disk

/-- The same where everything may be done and nothing goes wrong. -/
def loadOrCreate (fs : Files) (path : String) : Files × Except StoreError Config :=
  let (d, result) := Disk.loadOrCreate { files := fs } path none
  (d.files, result)

end Rfcomm.Config
