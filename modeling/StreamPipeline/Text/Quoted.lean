import StreamPipeline.Text.Printable
import StreamPipeline.Text.Decimal

/-!
# A single character in a message

A character is shown between single quotes, by a short escape if it has one, by its number if it
has no visible form, and as itself otherwise.
-/

namespace StreamPipeline.Text

/-- A character between single quotes, in a form that can be read. -/
def quotedChar (c : Char) : String :=
  let body :=
    if c == '\x00' then "\\0"
    else if c == '\t' then "\\t"
    else if c == '\r' then "\\r"
    else if c == '\n' then "\\n"
    else if c == '\'' then "\\'"
    else if c == '\\' then "\\\\"
    else if isPrintable c then String.singleton c
    else "\\u\x7b" ++ hex c.toNat ++ "\x7d"
  "'" ++ body ++ "'"

end StreamPipeline.Text
