import LocaleLint.Yaml.Value.Build
import LocaleLint.Yaml.Node.Compose

set_option autoImplicit false

namespace LocaleLint.Yaml

def isAcceptable (c : Char) : Bool :=
  c == '\t' || c == '\n' || c == '\r' || (decide (' ' ≤ c) && decide (c ≤ '~')) || c == '\x85' ||
    (decide ('\xa0' ≤ c) && decide (c ≤ '\ufffd')) || decide ('\ufffd' < c && 0x10000 ≤ c.toNat)

def firstUnacceptable (source : List Char) : Option (Char × Nat) :=
  let acceptable := source.takeWhile isAcceptable
  (source.drop acceptable.length).head?.map fun c => (c, acceptable.length)

-- The first code point that no document may hold and where it
-- stands, in a text with halves of pairs.
def unacceptablePoint (points : List Text.CodePoint) : Nat × Nat :=
  let acceptable := points.takeWhile fun point => !point.isHalf && isAcceptable point.toChar
  (((points.drop acceptable.length).head?.map (·.code)).getD 0, acceptable.length)

def graphOfSource (source : List Char) : Except Stop (Option Graph) :=
  match firstUnacceptable source with
  | some (c, index) => .error (.unacceptable c index)
  | none => graphOf (eventsOf (tokensOf source))

def read (channel : Channel) (source : List Char) : Reading :=
  match graphOfSource source with
  | .error stop => ⟨[], .error (.stop stop)⟩
  | .ok none => ⟨[], .ok (.scalar .null)⟩
  | .ok (some graph) => graph.read channel

end LocaleLint.Yaml
