import Rfcomm.Toml.Lexical
/-!
Reading a settings document: lines that add a key to the table at hand, and headers that begin
another one.
-/
namespace Rfcomm.Toml

/-! ## Values -/

/-- The items of an array up to its closing bracket; one comma may stand behind the last. -/
def items (item : List Char → Option (Value × List Char)) :
    Nat → List Char → Option (List Value × List Char)
  | 0, _ => none
  | n + 1, cs => do
    match ← skipLines (cs.length + 1) cs with
    | ']' :: r => some ([], r)
    | cs => do
      let (v, r) ← item cs
      match ← skipLines (r.length + 1) r with
      | ',' :: r => do
        let (vs, r) ← items item n r
        some (v :: vs, r)
      | ']' :: r => some ([v], r)
      | _ => none

/-- A key with its value, blanks around both. -/
def pair? (value : List Char → Option (Value × List Char)) (cs : List Char) :
    Option ((List String × String × Value) × List Char) := do
  let ((parents, k), r) ← key? cs
  match r with
  | '=' :: r => do
    let (v, r) ← value (skipBlanks r)
    some ((parents, k, v), r)
  | _ => none

/-- The pairs of a table up to its closing brace, with commas between them. -/
def pairs (value : List Char → Option (Value × List Char)) :
    Nat → Draft → List Char → Option (Draft × List Char)
  | 0, _, _ => none
  | n + 1, d, cs => do
    let ((parents, k, v), r) ← pair? value cs
    let d ← d.add parents k v
    match skipBlanks r with
    | ',' :: r => pairs value n d r
    | '}' :: r => some (d, r)
    | _ => none

/-- Quoted text or a scalar. -/
def flat? (cs : List Char) : Option (Value × List Char) :=
  match cs with
  | '"' :: _ | '\'' :: _ => (quoted? cs).map fun (s, r) => (.string (String.ofList s), r)
  | _ => scalar? cs

/-- A value whose arrays and tables are nested at most so deep. -/
def value : (depth : Nat) → List Char → Option (Value × List Char)
  | 0, cs => flat? cs
  | depth + 1, cs =>
    match cs with
    | '[' :: r => (items (value depth) (r.length + 1) r).map fun (vs, r) => (.array vs, r)
    | '{' :: r =>
      match skipBlanks r with
      | '}' :: r => some (.table .braces [], r)
      | r => (pairs (value depth) (r.length + 1) ⟨.braces, []⟩ r).map fun (d, r) =>
        (.table .braces d.entries, r)
    | cs => flat? cs

/-! ## Lines -/

/-- A document while it is read: the finished tables, and the table that lines are added to. -/
structure Reading where
  root : Draft
  /-- Where the table at hand belongs, and whether it is an item of an array. -/
  place : Option (List String × String × Bool)
  current : Draft
deriving Inhabited

namespace Reading

/-- Nothing read yet. -/
def start : Reading := ⟨⟨.header, []⟩, none, ⟨.header, []⟩⟩

/-- Puts the table at hand where it belongs. -/
def finish (s : Reading) : Option Draft :=
  match s.place with
  | none => some s.current
  | some (parents, k, false) => s.root.putTable parents k s.current.entries
  | some (parents, k, true) => s.root.pushTable parents k s.current.entries

def table (s : Reading) (parents : List String) (k : String) : Option Reading := do
  let root ← s.finish
  let (es, root) ← root.takeOut parents k
  some ⟨root, some (parents, k, false), ⟨.header, es⟩⟩

/-- Begins the next item of an array of tables. -/
def item (s : Reading) (parents : List String) (k : String) : Option Reading := do
  let root ← s.finish
  let root ← root.openTables parents k
  some ⟨root, some (parents, k, true), ⟨.header, []⟩⟩

def add (s : Reading) (parents : List String) (k : String) (v : Value) : Option Reading := do
  let current ← s.current.add parents k v
  some { s with current }

def line (s : Reading) (cs : List Char) : Option (Reading × List Char) :=
  match skipBlanks cs with
  | '[' :: '[' :: r => do
    let ((parents, k), r) ← key? r
    match r with
    | ']' :: ']' :: r => do
      let r ← lineEnd? r
      let s ← s.item parents k
      some (s, r)
    | _ => none
  | '[' :: r => do
    let ((parents, k), r) ← key? r
    match r with
    | ']' :: r => do
      let r ← lineEnd? r
      let s ← s.table parents k
      some (s, r)
    | _ => none
  | cs =>
    match lineEnd? cs with
    | some r => some (s, r)
    | none => do
      let ((parents, k, v), r) ← pair? (value (maxDepth - 1)) cs
      let r ← lineEnd? r
      let s ← s.add parents k v
      some (s, r)

/-- Reads all lines. -/
def lines : Nat → Reading → List Char → Option Reading
  | _, s, [] => some s
  | 0, _, _ => none
  | n + 1, s, cs => do
    let (s, r) ← s.line cs
    lines n s r

end Reading

/-- Text without the byte order mark in front. -/
def dropMark : List Char → List Char
  | '\uFEFF' :: cs => cs
  | cs => cs

/-- The entries of a document. -/
def parse? (text : String) : Option Entries := do
  let cs := dropMark text.toList
  let s ← Reading.lines (cs.length + 1) .start cs
  let d ← s.finish
  some d.entries

end Rfcomm.Toml
