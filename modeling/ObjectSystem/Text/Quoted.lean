/-
# Quoted text

A text in quotation marks on one line: quotation marks and backslashes get a
backslash in front, common control characters have a letter each, and every
other character that would not show, or would change the one before it, is
written by its code point.
-/

import ObjectSystem.Text.GraphemeExtend
import ObjectSystem.Text.Unprintable

namespace ObjectSystem.Text

/-- A number in base sixteen, in small letters. -/
def hexadecimal (n : Nat) : String :=
  String.ofList (Nat.toDigits 16 n)

/-- Whether a character is written by its code point. -/
def needsCodePoint (c : Char) : Bool :=
  if ' ' ≤ c && c ≤ '~' then false else isCombining c || isUnprintable c

/-- How one character is written inside quotation marks. -/
def quotedChar (c : Char) : String :=
  match c with
  | '\x00' => "\\0"
  | '\t' => "\\t"
  | '\r' => "\\r"
  | '\n' => "\\n"
  | '"' => "\\\""
  | '\\' => "\\\\"
  | c => if needsCodePoint c then s!"\\u\x7b{hexadecimal c.toNat}\x7d" else c.toString

/-- A text in quotation marks. -/
def quoted (text : String) : String :=
  "\"" ++ String.join (text.toList.map quotedChar) ++ "\""

/-- Items between brackets, with commas. -/
def bracketed (items : List String) : String :=
  "[" ++ String.intercalate ", " items ++ "]"

end ObjectSystem.Text
