/-! Pieces of Liquid templates, in which braces and percent signs set off what is computed. -/

namespace Storefront.Liquid

/-- Prints an expression. -/
def output (e : String) : String := "\x7b\x7b " ++ e ++ " \x7d\x7d"

def tag (e : String) : String := "\x7b% " ++ e ++ " %\x7d"

/-- A tag that also takes away the white space before it. -/
def trimTag (e : String) : String := "\x7b%- " ++ e ++ " %\x7d"

def instanceId : String := output "section.id"

/-- The expression of a setting of the instance. -/
def setting (id : String) : String := "section.settings." ++ id

def value (id : String) : String := output (setting id)

def styles (declarations : String) : String := "\x7b " ++ declarations ++ " \x7d"

/-- What opens and closes a block of style declarations on lines of their own. -/
def opened : String := " \x7b"
def closed : String := "  \x7d"

def lines (l : List String) : String := String.join (l.map (· ++ "\n"))

end Storefront.Liquid
