import ExprLang.Text.Hidden

/-!
# Quoted text

The form in which a token listing shows text: between double quotes, with short escapes for the
quote, the backslash and four controls, and every other hidden character by its number.
-/

namespace ExprLang.Text

/-- A character by number: `\u`, then its code point in lower-case hexadecimal between braces. -/
def escapeByNumber (c : Char) : List Char :=
  ['\\', 'u', '\x7b'] ++ Nat.toDigits 16 c.toNat ++ ['\x7d']

/-- One character of quoted text. -/
def quoteChar (c : Char) : List Char :=
  match c with
  | '"' => ['\\', '"']
  | '\\' => ['\\', '\\']
  | '\n' => ['\\', 'n']
  | '\t' => ['\\', 't']
  | '\r' => ['\\', 'r']
  | '\x00' => ['\\', '0']
  | c => if isHidden c then escapeByNumber c else [c]

/-- Text between double quotes. -/
def quoted (s : String) : String :=
  String.ofList ('"' :: s.toList.flatMap quoteChar ++ ['"'])

example : quoted "a\"b\u0301\u200b'é" = "\"a\\\"b\\u\x7b301\x7d\\u\x7b200b\x7d'é\"" := by
  decide +kernel

end ExprLang.Text
