import ModuleHost.Text.Extender
import ModuleHost.Text.Numeral
import ModuleHost.Text.Printable

/-!
# Quoted text

Text between quotes that shows every character: a quote and a backslash are escaped, the common
controls have short escapes, and what cannot be shown as it is or would join the character before
it is written by its code point.
-/

namespace ModuleHost.Text

def codePointEscape (c : Char) : List Char := ['\\', 'u', '\x7b'] ++ lowerHex c.toNat ++ ['\x7d']

def quoteChar (c : Char) : List Char :=
  match c with
  | '\x00' => ['\\', '0']
  | '\t' => ['\\', 't']
  | '\n' => ['\\', 'n']
  | '\r' => ['\\', 'r']
  | '"' => ['\\', '"']
  | '\\' => ['\\', '\\']
  | c => if isExtender c || !isPrintable c then codePointEscape c else [c]

def quote (text : String) : String :=
  String.ofList ('"' :: text.toList.flatMap quoteChar ++ ['"'])

end ModuleHost.Text
