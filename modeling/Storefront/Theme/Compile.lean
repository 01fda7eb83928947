import Storefront.Archive.Packing
import Storefront.Page.Basic
import Storefront.Theme.Config
import Storefront.Theme.Manifest
import Storefront.Theme.Stamp
import Storefront.Validation.Rule
/-!
Themes compiled from pages. A page is compiled only if its report holds no error; its first error is
the reason for the rejection otherwise.
-/

namespace Storefront

/-- The record of an export, which is no part of the archive. -/
structure Receipt where
  stamp : Stamp
  engineVersion : String
  pageHash : String
  sectionCount : Nat
  templates : List String
  warnings : Nat
  deriving DecidableEq, Repr

def Receipt.toJson (r : Receipt) : Json :=
  .obj [("export_id", .str r.stamp.exportId), ("created_at", .str r.stamp.createdAt),
    ("engine_version", .str r.engineVersion), ("page_hash", .str r.pageHash),
    ("section_count", .ofNat r.sectionCount), ("templates", .ofStrings r.templates),
    ("warnings", .ofNat r.warnings)]

structure Theme where
  bundle : Bundle
  receipt : Receipt
  deriving DecidableEq

namespace Theme

def addTemplates (c : Catalog) (b : Bundle) : List String → Except Rejection Bundle
  | [] => .ok b
  | type :: types =>
    match c.entry? type with
    | some e => addTemplates c (b.insert (Bundle.sectionPath type) (Utf8.ofString e.template)) types
    | none => .error (.unknownType "" type)

def ofPage (c : Catalog) (about : About) (stamp : Stamp) (p : Page) : Except Rejection Theme :=
  let report := Report.ofPage c p
  match report.firstError? with
  | some v => .error (.ofViolation v)
  | none => do
    let manifest ← Manifest.ofPage c p
    let base := (Bundle.empty.insert Bundle.layoutPath (Utf8.ofString layout)).insert
      Bundle.manifestPath (Utf8.ofString manifest.toJson.pretty)
    let b ← addTemplates c base p.types
    let receipt : Receipt := {
      stamp, engineVersion
      pageHash := p.hash engineVersion
      sectionCount := p.blocks.length
      templates := p.types.map Bundle.sectionPath
      warnings := report.warnings.length }
    return ⟨b.insert Bundle.settingsPath (Utf8.ofString about.settingsSchema.pretty), receipt⟩

def archive (deflate : List UInt8 → List UInt8) (t : Theme) : Except Archive.PackFault (List UInt8) :=
  Archive.pack deflate t.bundle

end Theme

end Storefront
