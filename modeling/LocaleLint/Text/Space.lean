set_option autoImplicit false

namespace LocaleLint.Text

def isSpace (c : Char) : Bool :=
  (decide ('\x09' ≤ c) && decide (c ≤ '\x0d')) || (decide ('\x1c' ≤ c) && decide (c ≤ ' ')) ||
    c == '\x85' || c == '\xa0' || c == '\u1680' ||
    (decide ('\u2000' ≤ c) && decide (c ≤ '\u200a')) ||
    c == '\u2028' || c == '\u2029' || c == '\u202f' || c == '\u205f' || c == '\u3000'

def isSeparator (c : Char) : Bool := decide ('\x1c' ≤ c) && decide (c ≤ '\x1f')

def isWhite (c : Char) : Bool := isSpace c && !isSeparator c

def isAsciiBlank (c : Char) : Bool :=
  c == ' ' || (decide ('\x09' ≤ c) && decide (c ≤ '\x0d'))

def dropRightWhile (drop : Char → Bool) (text : List Char) : List Char :=
  (text.reverse.dropWhile drop).reverse

def strip (drop : Char → Bool) (text : List Char) : List Char :=
  dropRightWhile drop (text.dropWhile drop)

-- White space at the end, at both ends.
def trimRight (text : List Char) : List Char := dropRightWhile isSpace text

def trim (text : List Char) : List Char := strip isSpace text

end LocaleLint.Text
