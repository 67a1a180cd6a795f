set_option autoImplicit false

namespace LocaleLint.Number

-- Longer integers are not written in decimal.
def maxWrittenDigits : Nat := 4300

def isWritable (i : Int) : Bool := decide (i.natAbs < Nat.pow 10 maxWrittenDigits)

theorem isWritable_iff (i : Int) : isWritable i = true ↔
    i.natAbs < Nat.pow 10 maxWrittenDigits := by
  simp [isWritable]

end LocaleLint.Number
