import Rfcomm.Record
/-!
The written form of service records: an XML document of six attributes, which are the service
classes, the service id, the protocol stack with the channel, the browse group, the name and the
description.
-/
namespace Rfcomm.Record

/-- What a character is written as between quotes. -/
def escapeChar : Char → List Char
  | '&' => "&amp;".toList
  | '<' => "&lt;".toList
  | '>' => "&gt;".toList
  | '"' => "&quot;".toList
  | '\'' => "&apos;".toList
  | c => [c]

def escape (cs : List Char) : List Char := cs.flatMap escapeChar

/-- The written value of an identifier: its short form where it has one. -/
def uuidValue (u : Uuid) : List Char :=
  match u.short? with
  | some n =>
    if n ≤ 0xFFFF then "0x".toList ++ Text.lowerHex 4 n else "0x".toList ++ Text.lowerHex 8 n
  | none => u.toChars

/-- A line of the document: indentation and content. -/
def line (indent : Nat) (content : List Char) : List Char :=
  List.replicate indent ' ' ++ content ++ ['\n']

/-- An element without content that carries one value. -/
def valueElement (tag : String) (value : List Char) : List Char :=
  ("<" ++ tag ++ " value=\"").toList ++ value ++ "\" />".toList

/-- An attribute of the record, with its number and the lines inside it. -/
def entry (number : Nat) (content : List Char) : List Char :=
  line 2 ("<attribute id=\"0x".toList ++ Text.lowerHex 4 number ++ "\">".toList) ++ content ++
    line 2 "</attribute>".toList

def sequence (indent : Nat) (content : List Char) : List Char :=
  line indent "<sequence>".toList ++ content ++ line indent "</sequence>".toList

/-- The element of a two-octet identifier. -/
def shortElement (n : Nat) : List Char := valueElement "uuid" ("0x".toList ++ Text.lowerHex 4 n)

/-- The identifiers of the protocols underneath and of the public browse group. -/
def l2cap : Nat := 0x0100
def rfcomm : Nat := 0x0003
def publicBrowseGroup : Nat := 0x1002

/-- The attributes of a record, by number. -/
def attributes (r : Record) : List (Nat × List Char) :=
  [(0x0001, sequence 4 (line 6 (valueElement "uuid" (uuidValue r.uuid)))),
   (0x0003, line 4 (valueElement "uuid" (uuidValue r.uuid))),
   (0x0004, sequence 4
      (sequence 6 (line 8 (shortElement l2cap)) ++
       sequence 6 (line 8 (shortElement rfcomm) ++
         line 8 (valueElement "uint8" ("0x".toList ++ Text.lowerHex 2 r.channel.toNat))))),
   (0x0005, sequence 4 (line 6 (shortElement publicBrowseGroup))),
   (0x0100, line 4 (valueElement "text" (escape r.name.toList))),
   (0x0101, line 4 (valueElement "text" (escape r.description.toList)))]

def xmlChars (r : Record) : List Char :=
  "<?xml version=\"1.0\" encoding=\"UTF-8\" ?>\n<record>\n".toList ++
    r.attributes.flatMap (fun a => entry a.1 a.2) ++ "</record>\n".toList

/-- The document that describes a service. -/
def xml (r : Record) : String := String.ofList r.xmlChars

end Rfcomm.Record
