import Storefront.Validation.Violation
import Storefront.Catalog.Basic
/-!
The rules for pages. A rule goes over a page block by block and keeps the ids that it has seen; a
report holds what all rules found, in the order of positions and then of rules.
-/

namespace Storefront

inductive Rule where
  | knownType
  | variant
  | uniqueId
  | settingKeys
  | settingKind
  deriving DecidableEq, Repr

namespace Rule

def all : List Rule := [.knownType, .variant, .uniqueId, .settingKeys, .settingKind]

def name : Rule → String
  | .knownType => "known_type"
  | .variant => "variant"
  | .uniqueId => "unique_id"
  | .settingKeys => "setting_keys"
  | .settingKind => "setting_kind"

/-- A value as messages show it: a text in quotes as it is, anything else as a document. -/
def describe : Json → String
  | .str s => "\"" ++ s ++ "\""
  | j => j.print

def violation (r : Rule) (i : Nat) (b : Block) (kind : Violation.Kind) (message : String) : Violation :=
  { rule := r.name, kind, severity := .error, position := i, blockId := b.id, settingId := none,
    message, expected := none, actual := none }

def unknownType (i : Nat) (b : Block) : Violation :=
  { violation .knownType i b .unknownType ("Unknown section type '" ++ b.type ++ "'") with
    actual := some b.type }

def unknownVariant (s : Section) (i : Nat) (b : Block) : Violation :=
  { violation .variant i b .unknownVariant ("Unknown variant for section type '" ++ s.type ++ "'") with
    expected := some (" | ".intercalate (s.variants.map (·.id)))
    actual := some b.variant }

def repeatedId (i : Nat) (b : Block) : Violation :=
  violation .uniqueId i b .repeatedId "Section id appears more than once on the page"

def missingSetting (i : Nat) (b : Block) (d : Setting) : Violation :=
  { violation .settingKeys i b .badSetting "Declared setting is missing" with
    settingId := some d.id
    expected := some d.kind.name }

def strangeSetting (s : Section) (i : Nat) (b : Block) (k : String) : Violation :=
  { violation .settingKeys i b .badSetting
      ("Setting is not declared by section type '" ++ s.type ++ "'") with
    settingId := some k
    actual := some k }

def badValue (i : Nat) (b : Block) (d : Setting) (value : Json) (severity : Violation.Severity)
    (message : String) : Violation :=
  { violation .settingKind i b .badSetting message with
    severity
    settingId := some d.id
    expected := some d.kind.name
    actual := some (describe value) }

def checkValue (i : Nat) (b : Block) (d : Setting) : Option Violation := do
  let value ← b.settings.get? d.id
  match d.kind.judge value with
  | .accepted => none
  | .offStep x step min => some (badValue i b d value .warning (Setting.offStepMessage x step min))
  | .mismatch m => some (badValue i b d value .error m.message)

def missingSettings (s : Section) (i : Nat) (b : Block) : List Violation :=
  (s.settings.filter fun d => !b.settings.has d.id).map (missingSetting i b)

def strangeSettings (s : Section) (i : Nat) (b : Block) : List Violation :=
  (b.settings.keys.filter fun k => (s.setting? k).isNone).map (strangeSetting s i b)

/-- What a rule finds at the block `b`, which stands at position `i` after blocks with the ids `seen`.
All but two rules pass over blocks of unknown types. -/
def check (r : Rule) (c : Catalog) (seen : List String) (i : Nat) (b : Block) : List Violation :=
  match r, c.section? b.type with
  | .knownType, none => [unknownType i b]
  | .knownType, some _ => []
  | .uniqueId, _ => if b.id ∈ seen then [repeatedId i b] else []
  | _, none => []
  | .variant, some s => if s.hasVariant b.variant then [] else [unknownVariant s i b]
  | .settingKeys, some s => missingSettings s i b ++ strangeSettings s i b
  | .settingKind, some s => s.settings.filterMap (checkValue i b)

def checkFrom (r : Rule) (c : Catalog) (seen : List String) (i : Nat) : List Block → List Violation
  | [] => []
  | b :: later =>
    r.check c seen i b ++ checkFrom r c (if b.id ∈ seen then seen else b.id :: seen) (i + 1) later

def checkPage (r : Rule) (c : Catalog) (p : Page) : List Violation := checkFrom r c [] 0 p.blocks

end Rule

namespace Report

def insertByPosition (v : Violation) : List Violation → List Violation
  | [] => [v]
  | w :: r => if v.position ≤ w.position then v :: w :: r else w :: insertByPosition v r

/-- The violations by position; at one position their order stays. -/
def sortByPosition (l : List Violation) : List Violation := l.foldr insertByPosition []

def ofPage (c : Catalog) (p : Page) : Report :=
  let violations := sortByPosition (Rule.all.flatMap fun r => r.checkPage c p)
  { valid := !violations.any (·.isError), violations, checked := p.blocks.length }

end Report

end Storefront
