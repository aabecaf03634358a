import CollectionRunner.Text.Hex
import CollectionRunner.Text.Printable

/-!
Texts in quotes, as they stand within a sentence: a quote, a backslash and the characters that are
not shown as themselves are written as escapes.
-/

namespace CollectionRunner.Text

/-- A character within quotes. -/
def quotedChar (c : Char) : List Char :=
  if c = '"' then ['\\', '"']
  else if c = '\\' then ['\\', '\\']
  else if c = '\n' then ['\\', 'n']
  else if c = '\r' then ['\\', 'r']
  else if c = '\t' then ['\\', 't']
  else if c = '\x00' then ['\\', '0']
  else if isShown c then [c]
  else '\\' :: 'u' :: '\x7b' :: toHex c.toNat ++ ['\x7d']

/-- A text in quotes. -/
def quoted (s : String) : String :=
  String.ofList ('"' :: s.toList.flatMap quotedChar ++ ['"'])

example : quoted "a \"b\"\x1b" = "\"a \\\"b\\\"\\u\x7b1b\x7d\"" := by decide

end CollectionRunner.Text
