import LocaleLint.Yaml.Token.Basic
import LocaleLint.Text.Quoted
import LocaleLint.Text.Base64
import LocaleLint.Encoding.Utf8

set_option autoImplicit false

namespace LocaleLint.Yaml

open LocaleLint.Text
open LocaleLint.Encoding.Utf8 (BadOctets)

inductive NodeKind
  | scalar
  | sequence
  | mapping
deriving Repr, DecidableEq, Inhabited

def NodeKind.name : NodeKind → String
  | .scalar => "scalar"
  | .sequence => "sequence"
  | .mapping => "mapping"

inductive Activity
  | token
  | simpleKey
  | directive
  | directiveName
  | alias
  | anchor
  | tag
  | tagName
  | blockScalar
  | doubleQuotedScalar
  | quotedScalar
  | node
  | blockNode
  | flowNode
  | blockCollection
  | blockMapping
  | flowSequence
  | flowMapping
  | singleDocument
  | anchorAgain (name : String)
  | mappingValue
  | orderedMap
  | pairs
deriving Repr, DecidableEq, Inhabited

def Activity.text : Activity → String
  | .token => "while scanning for the next token"
  | .simpleKey => "while scanning a simple key"
  | .directive => "while scanning a directive"
  | .directiveName => "while parsing a directive"
  | .alias => "while scanning an alias"
  | .anchor => "while scanning an anchor"
  | .tag => "while scanning a tag"
  | .tagName => "while parsing a tag"
  | .blockScalar => "while scanning a block scalar"
  | .doubleQuotedScalar => "while scanning a double-quoted scalar"
  | .quotedScalar => "while scanning a quoted scalar"
  | .node => "while parsing a node"
  | .blockNode => "while parsing a block node"
  | .flowNode => "while parsing a flow node"
  | .blockCollection => "while parsing a block collection"
  | .blockMapping => "while parsing a block mapping"
  | .flowSequence => "while parsing a flow sequence"
  | .flowMapping => "while parsing a flow mapping"
  | .singleDocument => "expected a single document in the stream"
  | .anchorAgain name => "found duplicate anchor " ++ quoted name ++ "; first occurrence"
  | .mappingValue => "while constructing a mapping"
  | .orderedMap => "while constructing an ordered map"
  | .pairs => "while constructing pairs"

def octetsText (bad : BadOctets) : String :=
  let place := match bad.octets with
    | [octet] =>
        "byte 0x" ++ String.ofList (hexDigits 2 octet.toNat) ++ " in position " ++
          toString bad.start
    | octets =>
        "bytes in position " ++ toString bad.start ++ "-" ++
          toString (bad.start + octets.length - 1)
  "'utf-8' codec can't decode " ++ place ++ ": " ++ bad.reason

def base64Text : Base64.Failure → String
  | .padding => "Incorrect padding"
  | .danglingCharacter characters =>
      "Invalid base64-encoded string: number of data characters (" ++ toString characters ++
        ") cannot be 1 more than a multiple of 4"

inductive Cause
  | noTokenStart (found : Char)
  | colonExpected
  | entryNotAllowed
  | keyNotAllowed
  | valueNotAllowed
  | nameExpected (found : Char)
  | digitOrDotExpected (found : Char)
  | digitOrSpaceExpected (found : Char)
  | digitExpected (found : Char)
  | spaceExpected (found : Char)
  | lineEndExpected (found : Char)
  | exclamationExpected (found : Char)
  | closingAngleExpected (found : Char)
  | uriExpected (found : Char)
  | uriEscapeExpected (found : Char)
  | uriOctets (bad : BadOctets)
  | indentationZero
  | blockHeaderExpected (found : Char)
  | hexExpected (count : Nat) (found : Char)
  | unknownEscape (found : Char)
  | unexpectedEnd
  | unexpectedSeparator
  | documentStartExpected (found : Lexeme)
  | secondVersion
  | incompatibleVersion
  | secondHandle (handle : String)
  | undefinedHandle (handle : String)
  | nodeExpected (found : Lexeme)
  | blockEndExpected (found : Lexeme)
  | sequenceNextExpected (found : Lexeme)
  | mappingNextExpected (found : Lexeme)
  | anotherDocument
  | undefinedAlias (name : String)
  | secondAnchor
  | recursiveNode
  | unhashableKey
  | mergeSourceExpected (found : NodeKind)
  | mergeSourcesExpected (found : NodeKind)
  | scalarExpected (found : NodeKind)
  | unknownTag (tag : String)
  | sequenceExpected (found : NodeKind)
  | singlePairExpected (found : NodeKind)
  | itemsExpected (count : Nat)
  | badBase64 (bad : Base64.Failure)
  -- Only ASCII may stand where the text goes on.
  | notAscii (bad : CodePoint.Unencodable)
deriving Repr, DecidableEq, Inhabited

def quotedChar (c : Char) : String := String.ofList (quotedChars [c])

def Cause.text : Cause → String
  | .noTokenStart c => "found character " ++ quotedChar c ++ " that cannot start any token"
  | .colonExpected => "could not find expected ':'"
  | .entryNotAllowed => "sequence entries are not allowed here"
  | .keyNotAllowed => "mapping keys are not allowed here"
  | .valueNotAllowed => "mapping values are not allowed here"
  | .nameExpected c => "expected alphabetic or numeric character, but found " ++ quotedChar c
  | .digitOrDotExpected c => "expected a digit or '.', but found " ++ quotedChar c
  | .digitOrSpaceExpected c => "expected a digit or ' ', but found " ++ quotedChar c
  | .digitExpected c => "expected a digit, but found " ++ quotedChar c
  | .spaceExpected c => "expected ' ', but found " ++ quotedChar c
  | .lineEndExpected c => "expected a comment or a line break, but found " ++ quotedChar c
  | .exclamationExpected c => "expected '!', but found " ++ quotedChar c
  | .closingAngleExpected c => "expected '>', but found " ++ quotedChar c
  | .uriExpected c => "expected URI, but found " ++ quotedChar c
  | .uriEscapeExpected c =>
      "expected URI escape sequence of 2 hexadecimal numbers, but found " ++ quotedChar c
  | .uriOctets bad => octetsText bad
  | .indentationZero => "expected indentation indicator in the range 1-9, but found 0"
  | .blockHeaderExpected c =>
      "expected chomping or indentation indicators, but found " ++ quotedChar c
  | .hexExpected count c =>
      "expected escape sequence of " ++ toString count ++ " hexadecimal numbers, but found " ++
        quotedChar c
  | .unknownEscape c => "found unknown escape character " ++ quotedChar c
  | .unexpectedEnd => "found unexpected end of stream"
  | .unexpectedSeparator => "found unexpected document separator"
  | .documentStartExpected t => "expected '<document start>', but found " ++ quoted t.name
  | .secondVersion => "found duplicate YAML directive"
  | .incompatibleVersion => "found incompatible YAML document (version 1.* is required)"
  | .secondHandle handle => "duplicate tag handle " ++ quoted handle
  | .undefinedHandle handle => "found undefined tag handle " ++ quoted handle
  | .nodeExpected t => "expected the node content, but found " ++ quoted t.name
  | .blockEndExpected t => "expected <block end>, but found " ++ quoted t.name
  | .sequenceNextExpected t => "expected ',' or ']', but got " ++ quoted t.name
  | .mappingNextExpected t => "expected ',' or '\x7d', but got " ++ quoted t.name
  | .anotherDocument => "but found another document"
  | .undefinedAlias name => "found undefined alias " ++ quoted name
  | .secondAnchor => "second occurrence"
  | .recursiveNode => "found unconstructable recursive node"
  | .unhashableKey => "found unhashable key"
  | .mergeSourceExpected kind => "expected a mapping for merging, but found " ++ kind.name
  | .mergeSourcesExpected kind =>
      "expected a mapping or list of mappings for merging, but found " ++ kind.name
  | .scalarExpected kind => "expected a scalar node, but found " ++ kind.name
  | .unknownTag tag => "could not determine a constructor for the tag " ++ quoted tag
  | .sequenceExpected kind => "expected a sequence, but found " ++ kind.name
  | .singlePairExpected kind => "expected a mapping of length 1, but found " ++ kind.name
  | .itemsExpected count =>
      "expected a single mapping item, but found " ++ toString count ++ " items"
  | .badBase64 bad => "failed to decode base64 data: " ++ base64Text bad
  | .notAscii bad =>
      "failed to convert base64 data into ascii: " ++ bad.text "ascii" "ordinal not in range(128)"

structure Fault where
  activity : Option Activity
  since : Option Position
  cause : Cause
  place : Position
deriving Repr, DecidableEq, Inhabited

inductive Breakdown
  | badNumeral
  | emptyNumeral
  | scaleTooLarge
  | impossibleDate
  | codePointBeyondUnicode
  | codePointTooLarge
  | notATruthWord
  | notATimestamp
  | timestampOfCollection
  | sequenceOfAnotherKind
  | mappingOfSequence
  | mappingOfText
  | endlessDefault
  -- A key that has to be written is too long a number.
  | keyTooLong
deriving Repr, DecidableEq, Inhabited

inductive Stop
  -- A character that no document may hold.
  | unacceptable (found : Char) (index : Nat)
  | fault (fault : Fault)
  | breakdown (breakdown : Breakdown)
deriving Repr, DecidableEq, Inhabited

end LocaleLint.Yaml
