/-!
Quoting of text in settings documents. Of the four ways to quote, the first that needs no escape
and no look at the surroundings is taken: between quotes, between apostrophes, on lines of its own
between three quotes, on lines of its own between three apostrophes. Text for which all of these
fail is written with escapes between quotes, or between three quotes if it has line breaks.
-/
namespace Rfcomm.Toml

/-- What stands around quoted text. -/
inductive Quoting
  | basic | literal | basicLines | literalLines
deriving DecidableEq, Repr, Inhabited

namespace Quoting

/-- The characters in front of the text and behind it. -/
def mark : Quoting → List Char
  | basic => "\"".toList
  | literal => "'".toList
  | basicLines => "\"\"\"".toList
  | literalLines => "'''".toList

/-- Whether text stands on lines of its own. -/
def onLines : Quoting → Bool
  | basicLines | literalLines => true
  | basic | literal => false

def escapes : Quoting → Bool
  | basic | basicLines => true
  | literal | literalLines => false

end Quoting

def longestRun (c : Char) (cs : List Char) : Nat := go 0 cs
where
  go (run : Nat) : List Char → Nat
    | [] => run
    | x :: xs => if x = c then go (run + 1) xs else max run (go 0 xs)

/-- A control character that only an escape can stand for. -/
def isControl (c : Char) : Bool :=
  (c.toNat ≤ 0x1F && c ≠ '\t' && c ≠ '\n') || c.toNat = 0x7F

/-- The quoting that a text is written in. -/
def quotingOf (cs : List Char) : Quoting :=
  let control := cs.any isControl
  let backslash := cs.contains '\\'
  let quotes := longestRun '"' cs
  let apostrophes := longestRun '\'' cs
  let newline := cs.contains '\n'
  if !control && !backslash && quotes = 0 && !newline then .basic
  else if !control && apostrophes = 0 && !newline then .literal
  else if !control && !backslash && quotes ≤ 2 then .basicLines
  else if !control && apostrophes ≤ 2 then .literalLines
  else if newline then .basicLines
  else .basic

/-- The digit of a code between zero and fifteen, in upper case. -/
def codeDigit (n : Nat) : Char :=
  if n < 10 then Char.ofNat (48 + n) else Char.ofNat (55 + n)

/-- What a character other than a quote is written as where escapes are allowed. -/
def escapeChar (lines : Bool) (c : Char) : List Char :=
  if c = '\x08' then ['\\', 'b']
  else if c = '\t' then ['\\', 't']
  else if c = '\n' then (if lines then ['\n'] else ['\\', 'n'])
  else if c = '\x0c' then ['\\', 'f']
  else if c = '\r' then ['\\', 'r']
  else if c = '\\' then ['\\', '\\']
  else if isControl c then
    ['\\', 'u', '0', '0', codeDigit (c.toNat / 16), codeDigit (c.toNat % 16)]
  else [c]

/-- Text with escapes. Of the quotes in a row every third one is escaped on lines of its own, and
every one within a line; `quotes` counts those just written. -/
def escapeText (lines : Bool) : (quotes : Nat) → List Char → List Char
  | _, [] => []
  | quotes, c :: cs =>
    if c = '"' then
      if quotes < (if lines then 2 else 0) then '"' :: escapeText lines (quotes + 1) cs
      else '\\' :: '"' :: escapeText lines 0 cs
    else escapeChar lines c ++ escapeText lines 0 cs

def Quoting.write (q : Quoting) (cs : List Char) : List Char :=
  q.mark ++ (if q.onLines && cs.contains '\n' then ['\n'] else []) ++
    (if q.escapes then escapeText q.onLines 0 cs else cs) ++ q.mark

def quote (cs : List Char) : List Char := (quotingOf cs).write cs

end Rfcomm.Toml
