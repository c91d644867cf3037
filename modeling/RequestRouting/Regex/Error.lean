/-!
Why an expression is refused, and the wording of each reason.
-/

namespace RequestRouting.Regex

/-- A reason to refuse an expression. -/
inductive Error where
  | captureNameEmpty
  | captureNameInvalid
  | captureNameDuplicate
  | captureNameUnfinished
  | groupUnclosed
  | groupUnopened
  | classUnclosed
  | classEscapeInvalid
  | classRangeInvalid
  | classRangeBound
  | countEmpty
  | countInvalid
  | countUnclosed
  | countRangeInvalid
  | repetitionMissing
  | escapeUnfinished
  | escapeUnknown
  | hexEmpty
  | hexDigitInvalid
  | hexNotScalar
  | backreference
  | lookAround
  | flagUnknown
  | flagDuplicate
  | flagNegationRepeated
  | flagNegationDangling
  | flagsUnfinished
  | wordBoundaryUnclosed
  | wordBoundaryUnknown
  | wordBoundaryUnfinished
  | propertyClassInvalid
  | propertyUnknown
  | propertyValueUnknown
  | unicodeNotAllowed
  | matchesInvalidUtf8
  | nestingTooDeep
  | programTooBig
deriving DecidableEq, Repr, Inhabited

/-- The wording of a reason. -/
def Error.message : Error → String
  | captureNameEmpty => "empty capture group name"
  | captureNameInvalid => "invalid capture group character"
  | captureNameDuplicate => "duplicate capture group name"
  | captureNameUnfinished => "unclosed capture group name"
  | groupUnclosed => "unclosed group"
  | groupUnopened => "unopened group"
  | classUnclosed => "unclosed character class"
  | classEscapeInvalid => "invalid escape sequence found in character class"
  | classRangeInvalid => "invalid character class range, the start must be <= the end"
  | classRangeBound => "invalid range boundary, must be a literal"
  | countEmpty => "repetition quantifier expects a valid decimal"
  | countInvalid => "decimal literal invalid"
  | countUnclosed => "unclosed counted repetition"
  | countRangeInvalid => "invalid repetition count range, the start must be <= the end"
  | repetitionMissing => "repetition operator missing expression"
  | escapeUnfinished => "incomplete escape sequence, reached end of pattern prematurely"
  | escapeUnknown => "unrecognized escape sequence"
  | hexEmpty => "hexadecimal literal empty"
  | hexDigitInvalid => "invalid hexadecimal digit"
  | hexNotScalar => "hexadecimal literal is not a Unicode scalar value"
  | backreference => "backreferences are not supported"
  | lookAround => "look-around, including look-ahead and look-behind, is not supported"
  | flagUnknown => "unrecognized flag"
  | flagDuplicate => "duplicate flag"
  | flagNegationRepeated => "flag negation operator repeated"
  | flagNegationDangling => "dangling flag negation operator"
  | flagsUnfinished => "expected flag but got end of regex"
  | wordBoundaryUnclosed =>
    "special word boundary assertion is either unclosed or contains an invalid character"
  | wordBoundaryUnknown =>
    "unrecognized special word boundary assertion, " ++
      "valid choices are: start, end, start-half or end-half"
  | wordBoundaryUnfinished =>
    "found either the beginning of a special word boundary or a bounded repetition " ++
      "on a \\b with an opening brace, but no closing brace"
  | propertyClassInvalid => "invalid Unicode character class"
  | propertyUnknown => "Unicode property not found"
  | propertyValueUnknown => "Unicode property value not found"
  | unicodeNotAllowed => "Unicode not allowed here"
  | matchesInvalidUtf8 => "pattern can match invalid UTF-8"
  | nestingTooDeep => "exceed the maximum number of nested parentheses/brackets (250)"
  | programTooBig => "Compiled regex exceeds size limit of 10485760 bytes."

end RequestRouting.Regex
