/-!
The ways in which a text can fail to be YAML, and their wording.
-/

namespace FieldLine
namespace Yaml

/-- A place in a text: lines count from one, columns from zero. -/
structure Mark where
  line : Nat
  column : Nat
deriving DecidableEq, Repr

inductive Cause where
  | aliasUnknown
  | anchorNameMissing
  | blockEntryInFlow
  | blockEntryMisplaced
  | blockEntrySeparatedByTab
  | blockHeaderTrailing
  | blockIndentZero
  | blockLineShallow
  | blockStartsWithTab
  | commentNotSeparated
  | directiveAfterContent
  | directiveNameMalformed
  | directiveNameMissing
  | directiveTrailing
  | documentEndTrailing
  | documentStartMissing
  | escapeHexMissing
  | escapeNotCharacter
  | escapeUnknown
  | flowIndentShallow
  | flowMappingUnterminated
  | flowSequenceUnterminated
  | indentShallow
  | keyMisplaced
  | keyNotSeparated
  | keySeparatedByTab
  | keyWithoutValue
  | keyWithoutValueAtEnd
  | mappingKeyMissing
  | nestingTooDeep
  | nodeMissing
  | plainEmpty
  | plainStartsWithDash
  | plainTab
  | quotedAtDocumentIndicator
  | quotedIndentShallow
  | quotedTab
  | quotedTrailing
  | quotedUnterminated
  | reservedCharacter (c : Char)
  | sequenceEntryMissing
  | tabInIndentation
  | tagDirectiveTrailing
  | tagHandleMissing
  | tagHandleUndeclared
  | tagHandleUnterminated
  | tagOctetLeading
  | tagOctetMissing
  | tagOctetNotCharacter
  | tagOctetTrailing
  | tagPrefixMissing
  | tagSuffixMissing
  | tagTrailing
  | tagUnterminated
  | valueMisplaced
  | valueOnLaterLine
  | valueSeparatedByTab
  | versionMalformed
  | versionNumberMissing
  | versionNumberTooLong
  | versionRepeated
deriving DecidableEq, Repr

def Cause.message : Cause → String
  | aliasUnknown => "while parsing node, found unknown anchor"
  | anchorNameMissing =>
      "while scanning an anchor or alias, did not find expected alphabetic or numeric character"
  | blockEntryInFlow => "\"-\" is only valid inside a block"
  | blockEntryMisplaced => "block sequence entries are not allowed in this context"
  | blockEntrySeparatedByTab => "'-' must be followed by a valid YAML whitespace"
  | blockHeaderTrailing =>
      "while scanning a block scalar, did not find expected comment or line break"
  | blockIndentZero =>
      "while scanning a block scalar, found an indentation indicator equal to 0"
  | blockLineShallow => "wrongly indented line in block scalar"
  | blockStartsWithTab => "a block scalar content cannot start with a tab"
  | commentNotSeparated => "comments must be separated from other tokens by whitespace"
  | directiveAfterContent => "missing explicit document end marker before directive"
  | directiveNameMalformed =>
      "while scanning a directive, found unexpected non-alphabetical character"
  | directiveNameMissing => "while scanning a directive, could not find expected directive name"
  | directiveTrailing =>
      "while scanning a directive, did not find expected comment or line break"
  | documentEndTrailing => "invalid content after document end marker"
  | documentStartMissing => "did not find expected <document start>"
  | escapeHexMissing =>
      "while parsing a quoted scalar, did not find expected hexadecimal number"
  | escapeNotCharacter =>
      "while parsing a quoted scalar, found invalid Unicode character escape code"
  | escapeUnknown => "while parsing a quoted scalar, found unknown escape character"
  | flowIndentShallow => "invalid indentation in flow construct"
  | flowMappingUnterminated =>
      "while parsing a flow mapping, did not find expected ',' or '\x7d'"
  | flowSequenceUnterminated => "while parsing a flow sequence, expected ',' or ']'"
  | indentShallow => "invalid indentation"
  | keyMisplaced => "mapping keys are not allowed in this context"
  | keyNotSeparated => "expected whitespace"
  | keySeparatedByTab => "tabs disallowed in this context"
  | keyWithoutValue => "simple key expect ':'"
  | keyWithoutValueAtEnd => "simple key expected"
  | mappingKeyMissing => "while parsing a block mapping, did not find expected key"
  | nestingTooDeep => "recursion limit exceeded"
  | nodeMissing => "while parsing a node, did not find expected node content"
  | plainEmpty => "unexpected end of plain scalar"
  | plainStartsWithDash => "plain scalar cannot start with '-' followed by ,[]\x7b\x7d"
  | plainTab => "while scanning a plain scalar, found a tab"
  | quotedAtDocumentIndicator =>
      "while scanning a quoted scalar, found unexpected document indicator"
  | quotedIndentShallow => "invalid indentation in quoted scalar"
  | quotedTab => "tab cannot be used as indentation"
  | quotedTrailing => "invalid trailing content after double-quoted scalar"
  | quotedUnterminated => "while scanning a quoted scalar, found unexpected end of stream"
  | reservedCharacter c => "unexpected character: `" ++ c.toString ++ "'"
  | sequenceEntryMissing =>
      "while parsing a block collection, did not find expected '-' indicator"
  | tabInIndentation => "tabs disallowed within this context (block indentation)"
  | tagDirectiveTrailing =>
      "while scanning TAG, did not find expected whitespace or line break"
  | tagHandleMissing => "while scanning a tag, did not find expected '!'"
  | tagHandleUndeclared => "the handle wasn't declared"
  | tagHandleUnterminated => "while parsing a tag directive, did not find expected '!'"
  | tagOctetLeading => "while parsing a tag, found an incorrect leading UTF-8 octet"
  | tagOctetMissing => "while parsing a tag, did not find URI escaped octet"
  | tagOctetNotCharacter => "while parsing a tag, found an invalid UTF-8 codepoint"
  | tagOctetTrailing => "while parsing a tag, found an incorrect trailing UTF-8 octet"
  | tagPrefixMissing => "invalid global tag character"
  | tagSuffixMissing => "while parsing a tag, did not find expected tag URI"
  | tagTrailing => "while scanning a tag, did not find expected whitespace or line break"
  | tagUnterminated => "while scanning a verbatim tag, did not find the expected '>'"
  | valueMisplaced => "mapping values are not allowed in this context"
  | valueOnLaterLine => "illegal placement of ':' indicator"
  | valueSeparatedByTab => "':' must be followed by a valid YAML whitespace"
  | versionMalformed =>
      "while scanning a YAML directive, did not find expected digit or '.' character"
  | versionNumberMissing =>
      "while scanning a YAML directive, did not find expected version number"
  | versionNumberTooLong =>
      "while scanning a YAML directive, found extremely long version number"
  | versionRepeated => "duplicate version directive"

structure Fault where
  mark : Mark
  cause : Cause
deriving DecidableEq, Repr

end Yaml
end FieldLine
