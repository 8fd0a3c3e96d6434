import LexGen.CodeSet.Order
import LexGen.Regex.Basic
import LexGen.Text.Unprintable

/-!
# Written form of regular expressions

Braces stand for repetition, brackets for an option and parentheses for
sequences and alternatives, whose items are set apart by spaces or bars.

A text is written in double quotes.  The quote, the backslash and four controls
have escapes of two characters, and every other unprintable character is written
by its code point.  What is written for a character depends on nothing else.
-/

namespace LexGen

namespace Text

/-- The lower case hexadecimal digits of a number, without padding. -/
def hexadecimal (value : Nat) : String :=
  String.ofList (Nat.toDigits 16 value)

def quotedCharacter (character : Char) : String :=
  match character.toNat with
  | 0x00 => "\\0"
  | 0x09 => "\\t"
  | 0x0a => "\\n"
  | 0x0d => "\\r"
  | 0x22 => "\\\""
  | 0x5c => "\\\\"
  | code =>
      if isUnprintable character then "\\u\x7b" ++ hexadecimal code ++ "\x7d"
      else String.singleton character

def quoted (text : String) : String :=
  "\"" ++ String.join (text.toList.map quotedCharacter) ++ "\""

end Text

namespace Regex

mutual

def render : Regex → String
  | .oneOf set => set.render
  | .literal text => Text.quoted text
  | .many inner => "\x7b" ++ render inner ++ "\x7d"
  | .optional inner => "[" ++ render inner ++ "]"
  | .sequence items => "(" ++ String.intercalate " " (renderAll items) ++ ")"
  | .alternative items =>
      "(" ++ String.intercalate " | " (renderAll items) ++ ")"

def renderAll : List Regex → List String
  | [] => []
  | item :: items => render item :: renderAll items

end

end Regex

end LexGen
