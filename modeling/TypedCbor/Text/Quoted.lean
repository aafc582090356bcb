import TypedCbor.Text.Hex
import TypedCbor.Text.Printable

namespace TypedCbor.Text

def codePointEscape (c : Char) : String := "\\u\x7b" ++ hexNumber c.toNat ++ "\x7d"

-- Only the quote that encloses the text needs a backslash.
def escaped (quote c : Char) : String :=
  match c with
  | '\x00' => "\\0"
  | '\t' => "\\t"
  | '\r' => "\\r"
  | '\n' => "\\n"
  | '\\' => "\\\\"
  | c =>
    if c = quote then String.ofList ['\\', c]
    else if isPrintable c then c.toString
    else codePointEscape c

def quotedText (text : String) : String := "\"" ++ String.join (text.toList.map (escaped '"')) ++ "\""

def quotedChar (c : Char) : String := "'" ++ escaped '\'' c ++ "'"

end TypedCbor.Text
