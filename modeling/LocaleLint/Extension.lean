import LocaleLint.Text.CodePoint

set_option autoImplicit false

namespace LocaleLint.Extension

def dropPoints (text : List Char) : List Char := text.dropWhile (· == '.')

def bare (extension : String) : String := String.ofList (dropPoints extension.toList)

def barePoints (extension : List Text.CodePoint) : List Text.CodePoint :=
  extension.dropWhile (· == .char '.')

def suffix (extension : String) : String := "." ++ bare extension

def defaults : List String := ["yml", "yaml"]

end LocaleLint.Extension
