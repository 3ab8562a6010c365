import Rfcomm.Proofs.Record.Escape
import Rfcomm.Proofs.Record.Markup
import Rfcomm.Proofs.Uuid
/-!
The document of a service record, as a reader of XML sees it. Its shape is the same for all records,
and the record can be told from its values.
-/
namespace Rfcomm.Record

open Xml (Node)

/-! ## Shape -/

def valueNode (tag : String) (value : List Char) : Node :=
  .element tag.toList [("value".toList, value)] []

def sequenceNode (nodes : List Node) : Node := .element "sequence".toList [] nodes

def attributeNode (id : String) (nodes : List Node) : Node :=
  .element "attribute".toList [("id".toList, id.toList)] nodes

/-- The attributes of a record with these values, in their order. -/
def attributeNodes (uuid channel name description : List Char) : List Node :=
  [attributeNode "0x0001" [sequenceNode [valueNode "uuid" uuid]],
   attributeNode "0x0003" [valueNode "uuid" uuid],
   attributeNode "0x0004" [sequenceNode
    [sequenceNode [valueNode "uuid" "0x0100".toList],
     sequenceNode [valueNode "uuid" "0x0003".toList, valueNode "uint8" channel]]],
   attributeNode "0x0005" [sequenceNode [valueNode "uuid" "0x1002".toList]],
   attributeNode "0x0100" [valueNode "text" name],
   attributeNode "0x0101" [valueNode "text" description]]

/-- The document of a service record with these values. -/
def document (uuid channel name description : List Char) : Node :=
  .element "record".toList [] (attributeNodes uuid channel name description)

variable {r : Record} {u : Uuid} {c : Char} {cs : List Char}

theorem document_injective {u u' c c' n n' d d' : List Char}
    (h : document u c n d = document u' c' n' d') : u = u' ∧ c = c' ∧ n = n' ∧ d = d' := by
  simp only [document, attributeNodes, attributeNode, sequenceNode, valueNode, Node.element.injEq,
    List.cons.injEq, Prod.mk.injEq, true_and, and_true] at h
  obtain ⟨hu, -, hc, hn, hd⟩ := h
  exact ⟨hu, hc, hn, hd⟩

/-- What the channel is written as. -/
def channelValue (channel : UInt8) : List Char := "0x".toList ++ Text.lowerHex 2 channel.toNat

/-! ## Identifiers -/

/-- Written numbers without the mark of base sixteen. -/
def withoutMark : List Char → List Char
  | '0' :: 'x' :: cs => cs
  | cs => cs

theorem withoutMark_of_not_mem (h : 'x' ∉ cs) : withoutMark cs = cs := by
  unfold withoutMark
  split
  · exact absurd (.tail _ (.head _)) h
  · rfl

/-- An identifier can be told from its written value. -/
theorem parse_uuidValue (u : Uuid) : Uuid.parse (String.ofList (withoutMark (uuidValue u))) = .ok u := by
  unfold uuidValue
  cases hs : u.short? with
  | some n =>
    obtain ⟨hn, rfl⟩ := Uuid.short?_eq_some_iff.mp hs
    dsimp only
    split
    · exact Uuid.parse_lowerHex (.inl rfl) (by omega)
    · exact Uuid.parse_lowerHex (.inr rfl) (by omega)
  | none =>
    have hx : 'x' ∉ u.toChars := fun h => by
      rcases Uuid.mem_toChars h with h | h
      · cases h
      · exact absurd h (by decide)
    rw [withoutMark_of_not_mem hx, Uuid.parse_ofList]
    exact Uuid.ofChars?_toChars u

/-- The mark of base sixteen. -/
theorem mem_mark : c ∈ "0x".toList ↔ c = '0' ∨ c = 'x' := by
  have hmark : "0x".toList = ['0', 'x'] := rfl
  rw [hmark, List.mem_cons, List.mem_singleton]

theorem mem_uuidValue (h : c ∈ uuidValue u) : c = '-' ∨ c = 'x' ∨ c ∈ Uuid.lowerCase.toList := by
  have hmark : ∀ {w n}, c ∈ "0x".toList ++ Text.lowerHex w n →
      c = 'x' ∨ c ∈ Uuid.lowerCase.toList := by
    intro w n h
    rcases List.mem_append.mp h with h | h
    · rcases mem_mark.mp h with rfl | rfl
      · exact .inr (Uuid.lowerDigit_mem 0 (by decide))
      · exact .inl rfl
    · obtain ⟨d, hd, rfl⟩ := Text.mem_hexDigits h
      exact .inr (Uuid.lowerDigit_mem d hd)
  unfold uuidValue at h
  split at h
  · split at h <;> exact .inr (hmark h)
  · exact (Uuid.mem_toChars h).imp_right .inr

/-! ## Reading -/

theorem ne_of_mem_escape (h : c ∈ escape cs) : c ≠ '"' ∧ c ≠ '<' := by
  obtain ⟨hlt, -, hq, -⟩ := (Xml.inert_escape cs).plain c h
  exact ⟨hq, hlt⟩

theorem adds_uuidValue (u : Uuid) :
    Xml.Adds (valueElement "uuid" (uuidValue u)) [valueNode "uuid" (uuidValue u)] := by
  refine Xml.adds_value (.inl rfl) fun c hc => ?_
  rcases mem_uuidValue hc with rfl | rfl | h
  · decide
  · decide
  · exact Xml.ne_of_isHex (Uuid.isHex_iff.mpr (Uuid.mem_eitherCase c h))

theorem adds_hexValue {tag : String} {width n : Nat} (htag : tag = "uuid" ∨ tag = "uint8" ∨ tag = "text") :
    Xml.Adds (valueElement tag ("0x".toList ++ Text.lowerHex width n))
      [valueNode tag ("0x".toList ++ Text.lowerHex width n)] := by
  refine Xml.adds_value htag fun c hc => ?_
  rcases List.mem_append.mp hc with hc | hc
  · rcases mem_mark.mp hc with rfl | rfl <;> decide
  · exact Xml.ne_of_isHex (Text.isHex_of_mem_lowerHex hc)

theorem adds_text (cs : List Char) :
    Xml.Adds (valueElement "text" (escape cs)) [valueNode "text" (escape cs)] :=
  Xml.adds_value (.inr (.inr rfl)) fun _ hc => ne_of_mem_escape hc

theorem adds_attributes (r : Record) :
    Xml.Adds (r.attributes.flatMap fun a => entry a.1 a.2)
      (attributeNodes (uuidValue r.uuid) (channelValue r.channel) (escape r.name.toList)
        (escape r.description.toList)) := by
  have hclass : Xml.Adds (entry 0x0001 (sequence 4 (line 6 (valueElement "uuid" (uuidValue r.uuid)))))
      [attributeNode "0x0001" [sequenceNode [valueNode "uuid" (uuidValue r.uuid)]]] :=
    Xml.adds_entry (Xml.adds_sequence (adds_uuidValue r.uuid).line)
  have hid : Xml.Adds (entry 0x0003 (line 4 (valueElement "uuid" (uuidValue r.uuid))))
      [attributeNode "0x0003" [valueNode "uuid" (uuidValue r.uuid)]] :=
    Xml.adds_entry (adds_uuidValue r.uuid).line
  have hl2cap : Xml.Adds (sequence 6 (line 8 (shortElement l2cap)))
      [sequenceNode [valueNode "uuid" "0x0100".toList]] :=
    Xml.adds_sequence (adds_hexValue (.inl rfl)).line
  have hrfcomm : Xml.Adds (sequence 6 (line 8 (shortElement rfcomm) ++
      line 8 (valueElement "uint8" (channelValue r.channel))))
      [sequenceNode [valueNode "uuid" "0x0003".toList, valueNode "uint8" (channelValue r.channel)]] :=
    Xml.adds_sequence ((adds_hexValue (.inl rfl)).line.append (adds_hexValue (.inr (.inl rfl))).line)
  have hstack : Xml.Adds (entry 0x0004 (sequence 4 (sequence 6 (line 8 (shortElement l2cap)) ++
      sequence 6 (line 8 (shortElement rfcomm) ++
        line 8 (valueElement "uint8" (channelValue r.channel))))))
      [attributeNode "0x0004" [sequenceNode [sequenceNode [valueNode "uuid" "0x0100".toList],
        sequenceNode [valueNode "uuid" "0x0003".toList, valueNode "uint8" (channelValue r.channel)]]]] :=
    Xml.adds_entry (Xml.adds_sequence (hl2cap.append hrfcomm))
  have hgroup : Xml.Adds (entry 0x0005 (sequence 4 (line 6 (shortElement publicBrowseGroup))))
      [attributeNode "0x0005" [sequenceNode [valueNode "uuid" "0x1002".toList]]] :=
    Xml.adds_entry (Xml.adds_sequence (adds_hexValue (.inl rfl)).line)
  have hname : Xml.Adds (entry 0x0100 (line 4 (valueElement "text" (escape r.name.toList))))
      [attributeNode "0x0100" [valueNode "text" (escape r.name.toList)]] :=
    Xml.adds_entry (adds_text _).line
  have hdescription :
      Xml.Adds (entry 0x0101 (line 4 (valueElement "text" (escape r.description.toList))))
        [attributeNode "0x0101" [valueNode "text" (escape r.description.toList)]] :=
    Xml.adds_entry (adds_text _).line
  have hall := hclass.append (hid.append (hstack.append (hgroup.append (hname.append hdescription))))
  simp only [attributes, List.flatMap_cons, List.flatMap_nil, List.append_nil]
  exact hall

theorem read?_xml (r : Record) :
    Xml.read? r.xml.toList = some (document (uuidValue r.uuid) (channelValue r.channel)
      (escape r.name.toList) (escape r.description.toList)) := by
  have hfront : Xml.Reader.start.run
      "<?xml version=\"1.0\" encoding=\"UTF-8\" ?>\n<record>\n".toList =
        some ⟨.between, [⟨"record".toList, [], []⟩], none⟩ := rfl
  have hback (children : List Node) :
      Xml.Reader.run ⟨.between, [⟨"record".toList, [], children⟩], none⟩ "</record>\n".toList =
        some ⟨.between, [], some (.element "record".toList [] children)⟩ := rfl
  have hrun : Xml.Reader.start.run r.xmlChars = some ⟨.between, [], some (document (uuidValue r.uuid)
      (channelValue r.channel) (escape r.name.toList) (escape r.description.toList))⟩ :=
    Xml.Reader.run_append (Xml.Reader.run_append hfront (adds_attributes r _ [] none)) (hback _)
  rw [xml, String.toList_ofList, Xml.read?, hrun]
  rfl

/-! ## Telling records apart -/

theorem hexNat?_channel (channel : UInt8) :
    Text.hexNat? (Text.lowerHex 2 channel.toNat) = some channel.toNat := by
  have hlt := channel.toNat_lt
  exact Text.hexNat?_lowerHex (by decide) (by omega)

theorem xml_injective : Function.Injective xml := by
  intro r r' h
  have hread := read?_xml r
  rw [h, read?_xml r', Option.some.injEq] at hread
  obtain ⟨huuid, hchannel, hname, hdescription⟩ := document_injective hread.symm
  have hu : r.uuid = r'.uuid := by
    have := (parse_uuidValue r.uuid).symm.trans (huuid ▸ parse_uuidValue r'.uuid)
    exact Except.ok.inj this
  have hc : r.channel = r'.channel := by
    have hdigits := List.append_cancel_left hchannel
    have := (hexNat?_channel r.channel).symm.trans (hdigits ▸ hexNat?_channel r'.channel)
    exact UInt8.toNat_inj.mp (Option.some.inj this)
  have htext : ∀ {s t : String}, escape s.toList = escape t.toList → s = t := fun he => by
    have := congrArg Xml.expand he
    rwa [Xml.expand_escape, Xml.expand_escape, String.toList_inj] at this
  cases r
  cases r'
  cases hu
  cases hc
  cases htext hname
  cases htext hdescription
  rfl

/-- Whatever a record holds, a reader of its document finds the same six attributes with the values of
the record: the identifier, twice; the channel; the name and the description, which are free of markup
as they are written and are got back by replacing the predefined entities. So different records have
different documents. -/
theorem xml_tells_record :
    (∀ r : Record, ∃ uuid channel name description,
      Xml.read? r.xml.toList = some (document uuid channel name description) ∧
      Uuid.parse (String.ofList (withoutMark uuid)) = .ok r.uuid ∧
      (∃ digits, channel = "0x".toList ++ digits ∧ Text.hexNat? digits = some r.channel.toNat) ∧
      (Xml.Inert name ∧ Xml.expand name = r.name.toList) ∧
      (Xml.Inert description ∧ Xml.expand description = r.description.toList)) ∧
    Function.Injective xml :=
  ⟨fun r => ⟨_, _, _, _, read?_xml r, parse_uuidValue r.uuid, ⟨_, rfl, hexNat?_channel r.channel⟩,
    ⟨Xml.inert_escape _, Xml.expand_escape _⟩, Xml.inert_escape _, Xml.expand_escape _⟩, xml_injective⟩

/-! ## What a reader makes of the values -/

open Xml (isAllowed)

theorem all_line (indent : Nat) (cs : List Char) : (line indent cs).all isAllowed = cs.all isAllowed := by
  have hblanks : (List.replicate indent ' ').all isAllowed = true := by
    rw [List.all_replicate]
    split <;> rfl
  have hbreak : ['\n'].all isAllowed = true := rfl
  rw [line, List.all_append, List.all_append, hblanks, hbreak, Bool.true_and, Bool.and_true]

theorem all_valueElement {tag : String} {value : List Char}
    (htag : tag.toList.all isAllowed = true) :
    (valueElement tag value).all isAllowed = value.all isAllowed := by
  have hfront : "<".toList.all isAllowed = true := rfl
  have hmiddle : " value=\"".toList.all isAllowed = true := by decide
  have hback : "\" />".toList.all isAllowed = true := by decide
  simp only [valueElement, String.toList_append, List.all_append, hfront, htag, hmiddle, hback,
    Bool.true_and, Bool.and_true]

theorem all_sequence (indent : Nat) (cs : List Char) :
    (sequence indent cs).all isAllowed = cs.all isAllowed := by
  have hfront : "<sequence>".toList.all isAllowed = true := by decide
  have hback : "</sequence>".toList.all isAllowed = true := by decide
  simp only [sequence, List.all_append, all_line, hfront, hback, Bool.true_and, Bool.and_true]

/-- Digits are allowed, and so is what else an identifier is written with. -/
theorem isAllowed_of_isHex (h : Text.isHex c = true) : isAllowed c = true := by
  have hc := Uuid.isHex_iff.mp h
  exact List.all_eq_true.mp (by decide : Uuid.eitherCase.toList.all isAllowed = true) c hc

theorem all_lowerHex (width n : Nat) : (Text.lowerHex width n).all isAllowed = true :=
  List.all_eq_true.mpr fun _ hc => isAllowed_of_isHex (Text.isHex_of_mem_lowerHex hc)

theorem all_uuidValue (u : Uuid) : (uuidValue u).all isAllowed = true := by
  refine List.all_eq_true.mpr fun c hc => ?_
  rcases mem_uuidValue hc with rfl | rfl | h
  · decide
  · decide
  · exact isAllowed_of_isHex (Uuid.isHex_iff.mpr (Uuid.mem_eitherCase c h))

theorem all_entry (number : Nat) (cs : List Char) :
    (entry number cs).all isAllowed = cs.all isAllowed := by
  have hfront : "<attribute id=\"0x".toList.all isAllowed = true := by decide
  have hmiddle : "\">".toList.all isAllowed = true := by decide
  have hback : "</attribute>".toList.all isAllowed = true := by decide
  simp only [entry, List.all_append, all_line, all_lowerHex, hfront, hmiddle, hback, Bool.true_and,
    Bool.and_true]

/-- The characters of the document are allowed unless the name or the description has others. -/
theorem all_xmlChars (r : Record) :
    r.xmlChars.all isAllowed = (r.name.toList.all isAllowed && r.description.toList.all isAllowed) := by
  have hfront : "<?xml version=\"1.0\" encoding=\"UTF-8\" ?>\n<record>\n".toList.all isAllowed = true := by
    rfl
  have hback : "</record>\n".toList.all isAllowed = true := by decide
  have hmark : "0x".toList.all isAllowed = true := by decide
  have huuid : "uuid".toList.all isAllowed = true := by decide
  have huint : "uint8".toList.all isAllowed = true := by decide
  have htext : "text".toList.all isAllowed = true := by decide
  unfold xmlChars attributes shortElement
  -- The texts become variables: as they stand, every rewriting would try to evaluate them.
  generalize r.name.toList = name, r.description.toList = description
  simp only [List.flatMap_cons, List.flatMap_nil, List.all_append, List.all_nil, all_entry,
    all_sequence, all_line, all_valueElement huuid, all_valueElement huint, all_valueElement htext,
    all_uuidValue, all_lowerHex, Xml.all_escape, hmark, hfront, hback, Bool.true_and, Bool.and_true]

/-- What a reader of the document makes of it. Its characters are allowed if and only if those of the
name and the description are, and the values it finds for these two are the texts themselves if and
only if they have neither tabs nor line breaks. -/
theorem xml_normalizes_iff (r : Record) : ∃ uuid channel name description,
    Xml.read? r.xml.toList = some (document uuid channel name description) ∧
    ((∀ c ∈ r.xml.toList, isAllowed c) ↔
      ∀ c ∈ r.name.toList ++ r.description.toList, isAllowed c) ∧
    (Xml.normalize name = r.name.toList ↔ ∀ c ∈ r.name.toList, c ≠ '\t' ∧ c ≠ '\n' ∧ c ≠ '\r') ∧
    (Xml.normalize description = r.description.toList ↔
      ∀ c ∈ r.description.toList, c ≠ '\t' ∧ c ≠ '\n' ∧ c ≠ '\r') := by
  refine ⟨_, _, _, _, read?_xml r, ?_, Xml.normalize_escape_eq_iff, Xml.normalize_escape_eq_iff⟩
  rw [xml, String.toList_ofList, ← List.all_eq_true, all_xmlChars, ← List.all_append, List.all_eq_true]

/-- A tab in a name is read as a blank, and a control character there is not allowed at all. -/
theorem xml_loses_tab_of_name : ∃ uuid channel name description,
    Xml.read? (create .serialPort 7 "a\tb").xml.toList =
      some (document uuid channel name description) ∧
    Xml.normalize name = "a b".toList ∧
    ¬ ∀ c ∈ (create .serialPort 7 "a\x01b").xml.toList, isAllowed c := by
  refine ⟨_, _, _, _, read?_xml _, by decide, ?_⟩
  rw [xml, String.toList_ofList, ← List.all_eq_true, all_xmlChars]
  decide

end Rfcomm.Record
