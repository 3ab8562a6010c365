import Rfcomm.Record.Xml
/-!
A reader of XML documents that consist of elements and attributes, with white space alone between the
tags. It goes through the text character by character; what it accepts is well-formed as far as tags
are concerned. The values of attributes are kept as they are written.
-/
namespace Rfcomm.Xml

/-- An element: its name, its attributes with their values as written, and the elements inside it. -/
inductive Node
  | element (name : List Char) (attributes : List (List Char × List Char)) (children : List Node)
deriving Inhabited

def isSpace (c : Char) : Bool := c = ' ' || c = '\t' || c = '\n' || c = '\r'

/-- The characters that a name begins with, as far as this reader goes. -/
def startsName (c : Char) : Bool := c.isAlpha || c = '_'

def isName (c : Char) : Bool := startsName c || c.isDigit || c = '-' || c = '.'

abbrev Attributes := List (List Char × List Char)

/-- Where in the markup a reader is. -/
inductive Place
  | between
  /-- Behind the `<` of a tag. -/
  | tag
  /-- Within `<? ?>`, behind this character. -/
  | instruction (last : Char)
  | closing (name : List Char)
  | opening (name : List Char)
  /-- Behind the name of a tag or a value; white space has to precede an attribute. -/
  | inside (name : List Char) (attributes : Attributes) (spaced : Bool)
  | key (name : List Char) (attributes : Attributes) (key : List Char)
  /-- Behind the `=` of an attribute. -/
  | equals (name : List Char) (attributes : Attributes) (key : List Char)
  | value (name : List Char) (attributes : Attributes) (key : List Char) (quote : Char)
      (text : List Char)
  /-- Behind the `/` of a tag without content. -/
  | slash (name : List Char) (attributes : Attributes)

/-- An element that was opened, with the elements inside it so far. -/
structure Parent where
  name : List Char
  attributes : Attributes
  children : List Node

structure Reader where
  place : Place
  /-- The elements that are open, innermost first. -/
  parents : List Parent
  root : Option Node

namespace Reader

def start : Reader := ⟨.between, [], none⟩

/-- An element is complete. A document has one at the top. -/
def add (r : Reader) (n : Node) : Option Reader :=
  match r.parents with
  | [] => if r.root.isNone then some ⟨.between, [], some n⟩ else none
  | p :: ps => some ⟨.between, { p with children := p.children ++ [n] } :: ps, r.root⟩

def enter (r : Reader) (name : List Char) (attributes : Attributes) : Option Reader :=
  if r.parents.isEmpty && r.root.isSome then none
  else some ⟨.between, ⟨name, attributes, []⟩ :: r.parents, r.root⟩

/-- The tag that closes an element has its name. -/
def leave (r : Reader) (name : List Char) : Option Reader :=
  match r.parents with
  | [] => none
  | p :: ps =>
    if p.name = name then
      { r with parents := ps }.add (.element p.name p.attributes p.children)
    else none

def goTo (r : Reader) (p : Place) : Reader := { r with place := p }

def step (r : Reader) (c : Char) : Option Reader :=
  match r.place with
  | .between => if c = '<' then some (r.goTo .tag) else if isSpace c then some r else none
  | .tag =>
    if c = '/' then some (r.goTo (.closing []))
    else if c = '?' then some (r.goTo (.instruction ' '))
    else if startsName c then some (r.goTo (.opening [c]))
    else none
  | .instruction last =>
    some (r.goTo (if c = '>' ∧ last = '?' then .between else .instruction c))
  | .closing name =>
    if c = '>' then r.leave name
    else if isName c then some (r.goTo (.closing (name ++ [c])))
    else none
  | .opening name =>
    if isName c then some (r.goTo (.opening (name ++ [c])))
    else if isSpace c then some (r.goTo (.inside name [] true))
    else if c = '/' then some (r.goTo (.slash name []))
    else if c = '>' then r.enter name []
    else none
  | .inside name attributes spaced =>
    if isSpace c then some (r.goTo (.inside name attributes true))
    else if c = '/' then some (r.goTo (.slash name attributes))
    else if c = '>' then r.enter name attributes
    else if spaced && startsName c then some (r.goTo (.key name attributes [c]))
    else none
  | .key name attributes key =>
    if isName c then some (r.goTo (.key name attributes (key ++ [c])))
    else if c = '=' then some (r.goTo (.equals name attributes key))
    else none
  | .equals name attributes key =>
    if (c = '"' ∨ c = '\'') ∧ key ∉ attributes.map (·.1) then
      some (r.goTo (.value name attributes key c []))
    else none
  | .value name attributes key quote text =>
    if c = quote then some (r.goTo (.inside name (attributes ++ [(key, text)]) false))
    else if c = '<' then none
    else some (r.goTo (.value name attributes key quote (text ++ [c])))
  | .slash name attributes => if c = '>' then r.add (.element name attributes []) else none

def run (r : Reader) (cs : List Char) : Option Reader := cs.foldlM step r

end Reader

/-- The element that a document consists of. -/
def read? (cs : List Char) : Option Node :=
  (Reader.start.run cs).bind fun r =>
    match r.place, r.parents with
    | .between, [] => r.root
    | _, _ => none

/-! ## Runs -/

namespace Reader

variable {r r' r'' : Reader} {cs ds : List Char} {ps : List Parent} {p : Parent} {root : Option Node}
  {name key text : List Char} {attributes : Attributes}

theorem run_append (h : r.run cs = some r') (h' : r'.run ds = some r'') : r.run (cs ++ ds) = some r'' := by
  rw [run, List.foldlM_append]
  exact Option.bind_eq_some_iff.mpr ⟨r', h, h'⟩

/-- Characters that are collected one by one. -/
theorem run_of_collects (place : List Char → Place) (text : List Char) {q : Char → Prop}
    (hstep : ∀ text c, q c → step ⟨place text, ps, root⟩ c = some ⟨place (text ++ [c]), ps, root⟩)
    (h : ∀ c ∈ cs, q c) : run ⟨place text, ps, root⟩ cs = some ⟨place (text ++ cs), ps, root⟩ := by
  induction cs generalizing text with
  | nil => rw [List.append_nil]; rfl
  | cons c cs ih =>
    rw [List.forall_mem_cons] at h
    rw [run, List.foldlM_cons, hstep text c h.1]
    exact (ih _ h.2).trans (by rw [List.append_assoc]; rfl)

theorem run_spaces (h : ∀ c ∈ cs, isSpace c = true) :
    run ⟨.between, ps, root⟩ cs = some ⟨.between, ps, root⟩ := by
  refine run_of_collects (fun _ => .between) [] (fun _ c hc => ?_) h
  have hlt : c ≠ '<' := by
    rintro rfl
    cases hc
  simp [step, hlt, hc]

theorem run_value {quote : Char} (h : ∀ c ∈ cs, c ≠ quote ∧ c ≠ '<') :
    run ⟨.value name attributes key quote text, ps, root⟩ cs =
      some ⟨.value name attributes key quote (text ++ cs), ps, root⟩ :=
  run_of_collects (fun text => .value name attributes key quote text) text
    (fun _ c hc => by simp [step, hc, goTo]) h

/-- White space around makes no difference between tags. -/
theorem run_line {indent : Nat} (hr : r.place = .between) (hr' : r'.place = .between)
    (h : r.run cs = some r') : r.run (Record.line indent cs) = some r' := by
  obtain ⟨place, ps, root⟩ := r
  obtain ⟨place', ps', root'⟩ := r'
  cases hr
  cases hr'
  have hindent : run ⟨.between, ps, root⟩ (List.replicate indent ' ') = some ⟨.between, ps, root⟩ :=
    run_spaces fun c hc => by rw [List.eq_of_mem_replicate hc]; rfl
  exact run_append (run_append hindent h) rfl

end Reader

/-! ## Elements -/

open Reader

/-- Read between tags, the text adds these elements to the one that is open. -/
def Adds (cs : List Char) (nodes : List Node) : Prop :=
  ∀ p ps root, run ⟨.between, p :: ps, root⟩ cs =
    some ⟨.between, { p with children := p.children ++ nodes } :: ps, root⟩

/-- Read between tags, the text opens an element. -/
def Opens (cs : List Char) (name : List Char) (attributes : Attributes) : Prop :=
  ∀ p ps root, run ⟨.between, p :: ps, root⟩ cs =
    some ⟨.between, ⟨name, attributes, []⟩ :: p :: ps, root⟩

/-- Read between tags, the text closes an element of this name. -/
def Closes (cs : List Char) (name : List Char) : Prop :=
  ∀ attributes children p ps root, run ⟨.between, ⟨name, attributes, children⟩ :: p :: ps, root⟩ cs =
    some ⟨.between, { p with children := p.children ++ [.element name attributes children] } :: ps, root⟩

variable {cs ds es : List Char} {nodes nodes' : List Node} {name : List Char} {attributes : Attributes}
  {indent : Nat}

theorem Adds.append (h : Adds cs nodes) (h' : Adds ds nodes') : Adds (cs ++ ds) (nodes ++ nodes') := by
  intro p ps root
  refine run_append (h p ps root) ((h' _ ps root).trans ?_)
  rw [List.append_assoc]

theorem Adds.line (h : Adds cs nodes) : Adds (Record.line indent cs) nodes := fun p ps root =>
  run_line rfl rfl (h p ps root)

theorem Opens.line (h : Opens cs name attributes) : Opens (Record.line indent cs) name attributes :=
  fun p ps root => run_line rfl rfl (h p ps root)

theorem Closes.line (h : Closes cs name) : Closes (Record.line indent cs) name :=
  fun attributes children p ps root => run_line rfl rfl (h attributes children p ps root)

theorem Opens.element (ho : Opens cs name attributes) (h : Adds ds nodes) (hc : Closes es name) :
    Adds (cs ++ ds ++ es) [.element name attributes nodes] := fun p ps root =>
  run_append (run_append (ho p ps root) (h _ (p :: ps) root)) (hc attributes nodes p ps root)

theorem adds_sequence (h : Adds cs nodes) :
    Adds (Record.sequence indent cs) [.element "sequence".toList [] nodes] := by
  have hopen : Opens "<sequence>".toList "sequence".toList [] := fun p ps root => rfl
  have hclose : Closes "</sequence>".toList "sequence".toList := fun attributes children p ps root => rfl
  exact hopen.line.element h hclose.line

theorem adds_value {tag : String} {value : List Char} (htag : tag = "uuid" ∨ tag = "uint8" ∨ tag = "text")
    (hvalue : ∀ c ∈ value, c ≠ '"' ∧ c ≠ '<') :
    Adds (Record.valueElement tag value) [.element tag.toList [("value".toList, value)] []] := by
  intro p ps root
  have hfront : run ⟨.between, p :: ps, root⟩ ("<" ++ tag ++ " value=\"").toList =
      some ⟨.value tag.toList [] "value".toList '"' [], p :: ps, root⟩ := by
    rcases htag with rfl | rfl | rfl <;> rfl
  exact run_append (run_append hfront (run_value hvalue)) rfl

theorem ne_of_isHex {c : Char} (h : Text.isHex c = true) : c ≠ '"' ∧ c ≠ '<' := by
  constructor <;> rintro rfl <;> cases h

theorem adds_entry {number : Nat} (h : Adds cs nodes) :
    Adds (Record.entry number cs)
      [.element "attribute".toList [("id".toList, "0x".toList ++ Text.lowerHex 4 number)] nodes] := by
  have hopen : Opens ("<attribute id=\"0x".toList ++ Text.lowerHex 4 number ++ "\">".toList)
      "attribute".toList [("id".toList, "0x".toList ++ Text.lowerHex 4 number)] := by
    intro p ps root
    have hfront : run ⟨.between, p :: ps, root⟩ "<attribute id=\"0x".toList =
        some ⟨.value "attribute".toList [] "id".toList '"' "0x".toList, p :: ps, root⟩ := rfl
    exact run_append (run_append hfront
      (run_value fun c hc => ne_of_isHex (Text.isHex_of_mem_lowerHex hc))) rfl
  have hclose : Closes "</attribute>".toList "attribute".toList := fun attributes children p ps root => rfl
  exact hopen.line.element h hclose.line

end Rfcomm.Xml
