import Rfcomm.Toml.Value
import Rfcomm.Text.Hex
/-!
The parts that settings documents are made of: blanks, line ends, comments, quoted text, keys, and
the words that stand for numbers, dates and truth values.
-/
namespace Rfcomm.Toml

/-! ## Blanks and lines -/

def isBlank (c : Char) : Bool := c = ' ' || c = '\t'

/-- Characters that may stand in a line as they are: no control characters but the tab. -/
def isPlain (c : Char) : Bool := c = '\t' || (c.toNat ≥ 0x20 && c.toNat ≠ 0x7F)

def skipBlanks (cs : List Char) : List Char := cs.dropWhile isBlank

/-- Takes a line break, with or without a carriage return. -/
def newline? : List Char → Option (List Char)
  | '\n' :: cs => some cs
  | '\r' :: '\n' :: cs => some cs
  | _ => none

/-- Takes a comment, which ends before the line break. -/
def skipComment : List Char → List Char
  | '#' :: cs => cs.dropWhile isPlain
  | cs => cs

/-- Takes blanks, a comment and the line break or the end of the text. -/
def lineEnd? (cs : List Char) : Option (List Char) :=
  match skipComment (skipBlanks cs) with
  | [] => some []
  | cs => newline? cs

/-- Skips blanks, comments and line breaks; a comment has to end with a line break. -/
def skipLines : Nat → List Char → Option (List Char)
  | 0, _ => none
  | n + 1, cs =>
    let cs := skipBlanks cs
    match newline? cs with
    | some r => skipLines n r
    | none =>
      match cs with
      | '#' :: r => (newline? (r.dropWhile isPlain)).bind (skipLines n)
      | _ => some cs

/-! ## Quoted text -/

/-- The character of a code written in hexadecimal. -/
def codePoint? (digits : List Char) : Option Char :=
  (Text.hexNat? digits).bind fun n =>
    if n < 0xD800 ∨ (0xDFFF < n ∧ n < 0x110000) then some (Char.ofNat n) else none

/-- The character that a letter stands for behind a backslash. -/
def escaped? : Char → Option Char
  | 'b' => some '\x08'
  | 't' => some '\t'
  | 'n' => some '\n'
  | 'f' => some '\x0c'
  | 'r' => some '\r'
  | '"' => some '"'
  | '\\' => some '\\'
  | _ => none

/-- The text up to the closing quote, and what follows it. -/
def basicBody : List Char → Option (List Char × List Char)
  | [] => none
  | '"' :: cs => some ([], cs)
  | '\\' :: 'u' :: a :: b :: c :: d :: cs => do
    let x ← codePoint? [a, b, c, d]
    let (s, r) ← basicBody cs
    some (x :: s, r)
  | '\\' :: 'U' :: a :: b :: c :: d :: e :: f :: g :: h :: cs => do
    let x ← codePoint? [a, b, c, d, e, f, g, h]
    let (s, r) ← basicBody cs
    some (x :: s, r)
  | '\\' :: x :: cs => do
    let x ← escaped? x
    let (s, r) ← basicBody cs
    some (x :: s, r)
  | c :: cs =>
    if isPlain c && c ≠ '\\' then do
      let (s, r) ← basicBody cs
      some (c :: s, r)
    else none

/-- Whether a backslash in front of these characters joins two lines. -/
def joinsLines (cs : List Char) : Bool := (newline? (skipBlanks cs)).isSome

/-- The text of several lines up to the three closing quotes, of which two more may stand in front.
After a backslash at the end of a line, blanks and line breaks are left out (`joining`). -/
def basicLines : (joining : Bool) → List Char → Option (List Char × List Char)
  | _, [] => none
  | true, '\n' :: cs => basicLines true cs
  | true, '\r' :: '\n' :: cs => basicLines true cs
  | true, ' ' :: cs => basicLines true cs
  | true, '\t' :: cs => basicLines true cs
  | _, '"' :: '"' :: '"' :: '"' :: '"' :: cs => some (['"', '"'], cs)
  | _, '"' :: '"' :: '"' :: '"' :: cs => some (['"'], cs)
  | _, '"' :: '"' :: '"' :: cs => some ([], cs)
  | _, '\n' :: cs => (basicLines false cs).map fun (s, r) => ('\n' :: s, r)
  | _, '\r' :: '\n' :: cs => (basicLines false cs).map fun (s, r) => ('\n' :: s, r)
  | _, '\\' :: 'u' :: a :: b :: c :: d :: cs => do
    let x ← codePoint? [a, b, c, d]
    let (s, r) ← basicLines false cs
    some (x :: s, r)
  | _, '\\' :: 'U' :: a :: b :: c :: d :: e :: f :: g :: h :: cs => do
    let x ← codePoint? [a, b, c, d, e, f, g, h]
    let (s, r) ← basicLines false cs
    some (x :: s, r)
  | _, '\\' :: x :: cs =>
    if joinsLines (x :: cs) then
      basicLines true (x :: cs)
    else do
      let x ← escaped? x
      let (s, r) ← basicLines false cs
      some (x :: s, r)
  | _, c :: cs =>
    if isPlain c && c ≠ '\\' then (basicLines false cs).map fun (s, r) => (c :: s, r) else none

/-- The text up to the closing apostrophe. -/
def literalBody : List Char → Option (List Char × List Char)
  | [] => none
  | '\'' :: cs => some ([], cs)
  | c :: cs => if isPlain c then (literalBody cs).map fun (s, r) => (c :: s, r) else none

/-- The text of several lines up to the three closing apostrophes, of which two more may stand in
front. -/
def literalLines : List Char → Option (List Char × List Char)
  | [] => none
  | '\'' :: '\'' :: '\'' :: '\'' :: '\'' :: cs => some (['\'', '\''], cs)
  | '\'' :: '\'' :: '\'' :: '\'' :: cs => some (['\''], cs)
  | '\'' :: '\'' :: '\'' :: cs => some ([], cs)
  | '\n' :: cs => (literalLines cs).map fun (s, r) => ('\n' :: s, r)
  | '\r' :: '\n' :: cs => (literalLines cs).map fun (s, r) => ('\n' :: s, r)
  | c :: cs => if isPlain c then (literalLines cs).map fun (s, r) => (c :: s, r) else none

/-- Text without the line break at its front. -/
def dropNewline (cs : List Char) : List Char := (newline? cs).getD cs

def quoted? : List Char → Option (List Char × List Char)
  | '"' :: '"' :: '"' :: cs => basicLines false (dropNewline cs)
  | '"' :: cs => basicBody cs
  | '\'' :: '\'' :: '\'' :: cs => literalLines (dropNewline cs)
  | '\'' :: cs => literalBody cs
  | _ => none

/-! ## Keys -/

/-- The characters of keys without quotes. -/
def isBare (c : Char) : Bool := c.isAlphanum || c = '-' || c = '_'

/-- A key: bare, or quoted within a line. -/
def simpleKey? : List Char → Option (String × List Char)
  | '"' :: cs => (basicBody cs).map fun (s, r) => (String.ofList s, r)
  | '\'' :: cs => (literalBody cs).map fun (s, r) => (String.ofList s, r)
  | cs =>
    let k := cs.takeWhile isBare
    if k.isEmpty then none else some (String.ofList k, cs.dropWhile isBare)

/-- Keys joined by dots, blanks around each. -/
def dottedKeys : Nat → List Char → Option (List String × List Char)
  | 0, _ => none
  | n + 1, cs => do
    let (k, r) ← simpleKey? (skipBlanks cs)
    match skipBlanks r with
    | '.' :: r => do
      let (ks, r) ← dottedKeys n r
      some (k :: ks, r)
    | r => some ([k], r)

/-- The most levels that keys and values may be nested. -/
def maxDepth : Nat := 80

/-- A dotted key: its parents and its last part. -/
def key? (cs : List Char) : Option ((List String × String) × List Char) := do
  let (ks, r) ← dottedKeys (cs.length + 1) cs
  if ks.length < maxDepth then
    let k ← ks.getLast?
    some ((ks.dropLast, k), r)
  else none

/-! ## Words -/

/-- The characters of numbers, dates and truth values. -/
def isWord (c : Char) : Bool := c.isAlphanum || c = '_' || c = '+' || c = '-' || c = '.' || c = ':'

/-- Digits with single underscores between them. -/
def separated (digit : Char → Bool) : List Char → Bool
  | [] => false
  | [c] => digit c
  | c :: '_' :: cs => digit c && separated digit cs
  | c :: cs => digit c && separated digit cs

/-- Digits after the underscores are taken out. -/
def digitsOf (cs : List Char) : List Nat :=
  (cs.filter (· ≠ '_')).filterMap Text.hexDigit?

/-- Splits off a sign: whether it is a minus, and the rest. -/
def signed : List Char → Bool × List Char
  | '+' :: cs => (false, cs)
  | '-' :: cs => (true, cs)
  | cs => (false, cs)

/-- Whether these are the digits of a decimal number, without zeros in front. -/
def isDecimal (cs : List Char) : Bool :=
  separated Char.isDigit cs && (cs.length == 1 || cs.head? != some '0')

def isOctal (c : Char) : Bool := '0' ≤ c && c ≤ '7'

def isBinary (c : Char) : Bool := c = '0' || c = '1'

/-- The bounds of integers: 64 bits with a sign. -/
def inRange (n : Int) : Bool := -9223372036854775808 ≤ n && n ≤ 9223372036854775807

/-- An integer in base ten with a sign, or in base sixteen, eight or two without. -/
def integer? (cs : List Char) : Option Int := do
  let n : Int ← match cs with
    | '0' :: 'x' :: ds => if separated Text.isHex ds then some (Text.ofDigits 16 (digitsOf ds)) else none
    | '0' :: 'o' :: ds => if separated isOctal ds then some (Text.ofDigits 8 (digitsOf ds)) else none
    | '0' :: 'b' :: ds => if separated isBinary ds then some (Text.ofDigits 2 (digitsOf ds)) else none
    | _ =>
      let (minus, ds) := signed cs
      if isDecimal ds then
        let n : Int := Text.ofDigits 10 (digitsOf ds)
        some (if minus then -n else n)
      else none
  if inRange n then some n else none

/-- The least magnitude that rounds to infinity among 64-bit floating-point numbers. -/
def overflowBound : Nat := (Nat.pow 2 54 - 1) * Nat.pow 2 970

/-- Whether `m · 10 ^ e / 10 ^ f` rounds to infinity. -/
def overflows (m : Nat) (minusExp : Bool) (e f : Nat) : Bool :=
  if m = 0 then false
  else if minusExp then
    let k := f + e
    if k > Nat.log2 m then false else m ≥ overflowBound * Nat.pow 10 k
  else if e > f + 400 then true
  else m * Nat.pow 10 e ≥ overflowBound * Nat.pow 10 f

/-- The exponent of a floating-point number: sign and digits. -/
def exponent? : List Char → Option (Bool × Nat)
  | c :: cs =>
    if c = 'e' || c = 'E' then
      let (minus, ds) := signed cs
      if separated Char.isDigit ds then some (minus, Text.ofDigits 10 (digitsOf ds)) else none
    else none
  | [] => none

/-- Whether this is a floating-point number: decimal digits with a fraction, an exponent or both,
below infinity, or one of the special names. A negative number may exceed the range. -/
def isFloat (cs : List Char) : Bool :=
  let (minus, ds) := signed cs
  if ds = "inf".toList || ds = "nan".toList then true
  else
    let isPart (c : Char) : Bool := c.isDigit || c = '_'
    let whole := ds.takeWhile isPart
    let rest := ds.dropWhile isPart
    isDecimal whole &&
      match rest with
      | '.' :: r =>
        let frac := r.takeWhile isPart
        let rest := r.dropWhile isPart
        let m := Text.ofDigits 10 (digitsOf (whole ++ frac))
        separated Char.isDigit frac &&
          (if rest.isEmpty then minus || !overflows m false 0 (digitsOf frac).length
           else match exponent? rest with
            | some (minusExp, e) => minus || !overflows m minusExp e (digitsOf frac).length
            | none => false)
      | r =>
        match exponent? r with
        | some (minusExp, e) =>
          minus || !overflows (Text.ofDigits 10 (digitsOf whole)) minusExp e 0
        | none => false

/-- A number of `width` digits at the front, and what follows. -/
def fixedDigits? (width : Nat) (cs : List Char) : Option (Nat × List Char) :=
  let ds := cs.take width
  if ds.length = width && ds.all Char.isDigit then
    some (Text.ofDigits 10 (digitsOf ds), cs.drop width)
  else none

/-- Takes one of the characters at the front. -/
def oneOf? (options : List Char) : List Char → Option (List Char)
  | c :: cs => if options.contains c then some cs else none
  | [] => none

def monthDays (year month : Nat) : Nat :=
  if month = 2 then
    if year % 4 = 0 ∧ (year % 100 ≠ 0 ∨ year % 400 = 0) then 29 else 28
  else if month = 4 ∨ month = 6 ∨ month = 9 ∨ month = 11 then 30
  else 31

def date? (cs : List Char) : Option (List Char) := do
  let (year, cs) ← fixedDigits? 4 cs
  let cs ← oneOf? ['-'] cs
  let (month, cs) ← fixedDigits? 2 cs
  let cs ← oneOf? ['-'] cs
  let (day, cs) ← fixedDigits? 2 cs
  if 1 ≤ month ∧ month ≤ 12 ∧ 1 ≤ day ∧ day ≤ monthDays year month then some cs else none

/-- Takes a time of day: hour, minute, second (a leap second too) and digits of a fraction. -/
def time? (cs : List Char) : Option (List Char) := do
  let (hour, cs) ← fixedDigits? 2 cs
  let cs ← oneOf? [':'] cs
  let (minute, cs) ← fixedDigits? 2 cs
  let cs ← oneOf? [':'] cs
  let (second, cs) ← fixedDigits? 2 cs
  if hour ≤ 23 ∧ minute ≤ 59 ∧ second ≤ 60 then
    match cs with
    | '.' :: c :: r => if c.isDigit then some (r.dropWhile Char.isDigit) else some cs
    | _ => some cs
  else none

/-- Takes a distance from universal time, if there is one. -/
def skipOffset (cs : List Char) : List Char :=
  match cs with
  | 'Z' :: r | 'z' :: r => r
  | _ =>
    let offset := do
      let r ← oneOf? ['+', '-'] cs
      let (hour, r) ← fixedDigits? 2 r
      let r ← oneOf? [':'] r
      let (minute, r) ← fixedDigits? 2 r
      if hour ≤ 23 ∧ minute ≤ 59 then some r else none
    offset.getD cs

/-- Takes a date with or without a time of day, or a time of day. -/
def datetime? (cs : List Char) : Option (List Char) :=
  match date? cs with
  | some r =>
    match (oneOf? ['T', 't', ' '] r).bind time? with
    | some r => some (skipOffset r)
    | none => some r
  | none => time? cs

def word? (w : List Char) : Option Value :=
  if w = "true".toList then some (.boolean true)
  else if w = "false".toList then some (.boolean false)
  else match integer? w with
    | some n => some (.integer n)
    | none => if isFloat w then some .float else none

/-- A scalar that is not quoted, and what follows. A date may go on with a time behind a blank. -/
def scalar? (cs : List Char) : Option (Value × List Char) :=
  match datetime? cs with
  | some r => if (r.head?.map isWord).getD false then none else some (.datetime, r)
  | none => (word? (cs.takeWhile isWord)).map fun v => (v, cs.dropWhile isWord)

end Rfcomm.Toml
