import Directive.Text.Unprintable

/-!
# Quoted texts in reports

A text as a report shows it: between double quotes, with a backslash before quotes and backslashes,
short escapes for the null character, tabs and line ends, and the number of any other character
that is not printable.
-/

namespace Directive.Text

/-- A character as a quoted text shows it. -/
def showChar (c : Char) : List Char :=
  match c with
  | '\x00' => ['\\', '0']
  | '\t' => ['\\', 't']
  | '\r' => ['\\', 'r']
  | '\n' => ['\\', 'n']
  | '\x22' => ['\\', '\x22']
  | '\\' => ['\\', '\\']
  | c =>
    if isUnprintable c then '\\' :: 'u' :: '\x7b' :: Nat.toDigits 16 c.toNat ++ ['\x7d'] else [c]

/-- A text between double quotes, for a report. -/
def quotedForReport (text : String) : String :=
  String.ofList ('\x22' :: text.toList.flatMap showChar ++ ['\x22'])

end Directive.Text
