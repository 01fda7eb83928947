import Storefront.Entries
/-! The files of a theme: paths with contents, in the order of their first insertion. -/

namespace Storefront

structure Bundle where
  files : Entries (List UInt8)
  deriving DecidableEq

namespace Bundle

def empty : Bundle := ⟨[]⟩

def insert (b : Bundle) (path : String) (content : List UInt8) : Bundle := ⟨b.files.put path content⟩

def get? (b : Bundle) (path : String) : Option (List UInt8) := b.files.get? path

def paths (b : Bundle) : List String := b.files.keys

def layoutPath : String := "layout/theme.liquid"
def manifestPath : String := "templates/index.json"
def settingsPath : String := "config/settings_schema.json"

def sectionPath (type : String) : String := "sections/" ++ type ++ ".liquid"

def isSectionPath (path : String) : Bool := "sections/".toList.isPrefixOf path.toList

def sectionPaths (b : Bundle) : List String := b.paths.filter isSectionPath

end Bundle

end Storefront
