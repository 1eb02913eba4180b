import KeypadCalc.Text
import KeypadCalc.Text.Escaped

/-!
Quoted texts, the form in which messages cite what was typed: between double quotes, on one line,
with every character that would not be seen as itself written as an escape.
-/
namespace KeypadCalc.Text

/-- One character inside quotes. Backslash, double quote, tab, line feed, carriage return and NUL
have short escapes; other escaped characters give their number in hexadecimal. -/
def quoteChar (c : Char) : Text :=
  match c with
  | '\x00' => ['\\', '0']
  | '\t' => ['\\', 't']
  | '\r' => ['\\', 'r']
  | '\n' => ['\\', 'n']
  | '\\' => ['\\', '\\']
  | '"' => ['\\', '"']
  | _ =>
    if isEscaped c then ['\\', 'u', '\x7b'] ++ Nat.toDigits 16 c.toNat ++ ['\x7d']
    else [c]

def quote (s : Text) : Text :=
  ['"'] ++ s.flatMap quoteChar ++ ['"']

end KeypadCalc.Text
