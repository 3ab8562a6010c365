/-!
The values of a settings document: scalars, arrays, and tables with their keys in the order of
the text.
-/
namespace Rfcomm.Toml

/-- How a table came to be, which decides what may still be added to it. -/
inductive Origin
  /-- By a header of its own. -/
  | header
  /-- Between braces. -/
  | braces
  /-- As a parent in the header of another table. -/
  | parent
  /-- As a parent in a dotted key. -/
  | dotted
deriving DecidableEq, Repr, Inhabited

/-- A value. Arrays made of `[[headers]]` are kept apart from those between brackets. -/
inductive Value
  | string (s : String)
  | integer (n : Int)
  | float
  | boolean (b : Bool)
  | datetime
  | array (items : List Value)
  | tables (items : List Value)
  | table (origin : Origin) (entries : List (String × Value))
deriving Repr, Inhabited

/-- Keys with their values. -/
abbrev Entries := List (String × Value)

namespace Entries

def get? (es : Entries) (key : String) : Option Value := es.lookup key

/-- Puts a value under a key: in its place if the key is there, else at the end. -/
def put (key : String) (v : Value) : Entries → Entries
  | [] => [(key, v)]
  | (k, w) :: es => if k = key then (key, v) :: es else (k, w) :: put key v es

def erase (key : String) (es : Entries) : Entries := es.filter (·.1 != key)

end Entries

/-- A table while it is being filled. -/
structure Draft where
  origin : Origin
  entries : Entries
deriving Repr, Inhabited

namespace Draft

/-- Applies `f` to the table at the end of a path of keys and passes on what `f` found there.
Parents that are missing are made, as parents of a dotted key or of a header. A path goes on in the
last item of an array of tables. It does not enter a table between braces, and the path of a dotted
key none that has a header. -/
def within {α : Type} (made : Origin) (f : Draft → Option (α × Draft)) :
    List String → Draft → Option (α × Draft)
  | [], d => f d
  | k :: ks, d =>
    match d.entries.get? k with
    | none => do
      let (a, t) ← within made f ks ⟨made, []⟩
      some (a, { d with entries := d.entries.put k (.table t.origin t.entries) })
    | some (.table o es) =>
      if o = .braces ∨ (made = .dotted ∧ o = .header) then none
      else do
        let (a, t) ← within made f ks ⟨o, es⟩
        some (a, { d with entries := d.entries.put k (.table t.origin t.entries) })
    | some (.tables items) =>
      match items.getLast? with
      | some (.table o es) => do
        let (a, t) ← within made f ks ⟨o, es⟩
        let items := items.dropLast ++ [.table t.origin t.entries]
        some (a, { d with entries := d.entries.put k (.tables items) })
      | _ => none
    | some _ => none

/-- Adds a key and value, where the key's parents are given. The key has to be new. A table that is
a parent in dotted keys takes dotted keys alone, and no other table takes them. -/
def add (parents : List String) (key : String) (v : Value) (d : Draft) : Option Draft :=
  (d.within .dotted (fun d =>
    if (d.origin == .dotted) == parents.isEmpty then none
    else match d.entries.get? key with
      | some _ => none
      | none => some ((), { d with entries := d.entries.put key v })) parents).map (·.2)

/-- Takes a table out so that a header can go on with it: a new one, or one that was only a parent
so far. -/
def takeOut (parents : List String) (key : String) (d : Draft) : Option (Entries × Draft) :=
  d.within .parent (fun d =>
    match d.entries.get? key with
    | none => some ([], d)
    | some (.table .parent es) => some (es, { d with entries := d.entries.erase key })
    | some _ => none) parents

/-- Puts the table of a header where it belongs. -/
def putTable (parents : List String) (key : String) (es : Entries) (d : Draft) : Option Draft :=
  (d.within .parent (fun d =>
    some ((), { d with entries := d.entries.put key (.table .header es) })) parents).map (·.2)

/-- The array of tables at a key; none yet counts as empty. -/
def tablesAt? (key : String) (d : Draft) : Option (List Value) :=
  match d.entries.get? key with
  | none => some []
  | some (.tables items) => some items
  | some _ => none

/-- Makes sure that an array of tables is or can be at a key. -/
def openTables (parents : List String) (key : String) (d : Draft) : Option Draft :=
  (d.within .parent (fun d => (d.tablesAt? key).map fun _ => ((), d)) parents).map (·.2)

/-- Appends a table to an array of tables. -/
def pushTable (parents : List String) (key : String) (es : Entries) (d : Draft) : Option Draft :=
  (d.within .parent (fun d => (d.tablesAt? key).map fun items =>
    ((), { d with entries := d.entries.put key (.tables (items ++ [.table .header es])) }))
    parents).map (·.2)

end Draft

end Rfcomm.Toml
