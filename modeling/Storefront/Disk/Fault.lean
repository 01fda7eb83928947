import Storefront.Text.Utf8
/-! Why a file cannot be read or written. -/

namespace Storefront

inductive FileFault where
  | notFound
  | isFolder
  | notFolder
  | nameTooLong
  | notUnicode
  | other (text : String)
  deriving DecidableEq, Repr

namespace FileFault

def message : FileFault → String
  | .notFound => "No such file or directory (os error 2)"
  | .isFolder => "Is a directory (os error 21)"
  | .notFolder => "Not a directory (os error 20)"
  | .nameTooLong => "File name too long (os error 36)"
  | .notUnicode => "stream did not contain valid UTF-8"
  | .other text => text

def textOf (bytes : Except FileFault (List UInt8)) : Except FileFault String := do
  match Utf8.toString? (← bytes) with
  | some s => .ok s
  | none => .error .notUnicode

end FileFault

end Storefront
