import LocaleLint.Yaml.Fault
import LocaleLint.File.Access
import LocaleLint.Record.Issue

set_option autoImplicit false

namespace LocaleLint

inductive Abort
  | unreadableValue (breakdown : Yaml.Breakdown)
  -- What a parser fails with has no text, or its class makes no copy under another file's name.
  | unwritten (cause : Yaml.Unwritten)
  | uncopiable
  -- A parser that was given gave up.
  | parserFailed
  -- A rejection was to be made without a message.
  | emptyMessage
  | unknownEncoding (name : String)
  | nulInEncoding
  | undefinedEncoding
  | notUtf8
  | inaccessible (failure : AccessFailure)
  | linkLoop
  -- A failure that no record can hold.
  | unrecordable (issues : List Issue)
deriving Repr, DecidableEq, Inhabited

end LocaleLint
