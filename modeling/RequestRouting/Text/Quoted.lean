import RequestRouting.Text.Numeral
import RequestRouting.Unicode.Property

/-!
Texts in double quotes, for messages and reports.

Quotes and backslashes are escaped, as are the line characters, and every character that does not
show: controls, formats, separators other than the space, private and unassigned characters, and
characters that only extend the one before them.
-/

namespace RequestRouting.Text

/-- Categories of the characters that do not show. -/
def hiddenCategories : List Unicode.Category :=
  [.control, .format, .surrogate, .privateUse, .unassigned, .lineSeparator, .paragraphSeparator,
   .spaceSeparator]

/-- Characters beyond ASCII that are written by their code. -/
def hidden : CharSet := (Unicode.Category.setOf hiddenCategories).union Unicode.graphemeExtend

def isShown (c : Char) : Bool :=
  if c.toNat < 128 then 32 ≤ c.toNat && c.toNat < 127 else !hidden.contains c

def quoteChar (c : Char) : List Char :=
  if c = '"' then ['\\', '"']
  else if c = '\\' then ['\\', '\\']
  else if c = '\n' then ['\\', 'n']
  else if c = '\r' then ['\\', 'r']
  else if c = '\t' then ['\\', 't']
  else if c.toNat = 0 then ['\\', '0']
  else if isShown c then [c]
  else ['\\', 'u', '\x7b'] ++ hexDigits c.toNat ++ ['\x7d']

/-- The text in double quotes. -/
def quote (s : String) : String :=
  String.ofList ('"' :: s.toList.flatMap quoteChar ++ ['"'])

end RequestRouting.Text
