-- A text in double quotes, as error messages show it: quotes, backslashes and
-- characters that would not be seen are escaped.
import CodeSurvey.Text.Casing
import CodeSurvey.Text.Number
import CodeSurvey.Text.Quoted.Table

namespace CodeSurvey.Text

/-- One character as it stands between the quotes. -/
def quotedChar (c : Char) : List Char :=
  if c = '"' then ['\\', '"']
  else if c = '\\' then ['\\', '\\']
  else if c = '\n' then ['\\', 'n']
  else if c = '\r' then ['\\', 'r']
  else if c = '\t' then ['\\', 't']
  else if c.toNat = 0 then ['\\', '0']
  else if c.toNat < 0x20 || onRows hiddenRows c then
    ['\\', 'u', '\x7b'] ++ hexText c.toNat ++ ['\x7d']
  else [c]

def quoted (s : String) : String :=
  String.ofList ('"' :: s.toList.flatMap quotedChar ++ ['"'])

end CodeSurvey.Text
