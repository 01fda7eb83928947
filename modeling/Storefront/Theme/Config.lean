import Storefront.Disk.Fault
import Storefront.Setting.Acceptance
import Storefront.Text.Characters
import Storefront.Theme.About
import Storefront.Toml.Reader
/-!
The configuration of a theme: what it tells about itself, and how its archive is handed out. What a
configuration leaves out has its standard value, and what it does not know it passes over.
-/

namespace Storefront

/-- How an archive is handed out: bytes in a chunk, and chunks that wait to be taken. -/
structure Chunking where
  size : Nat
  buffered : Nat
  deriving DecidableEq, Repr

def Chunking.standard : Chunking := ⟨16384, 4⟩

structure Config where
  about : Theme.About
  chunking : Chunking
  deriving DecidableEq, Repr

namespace Config

def standard : Config := ⟨.standard, .standard⟩

inductive Wanted where
  | text
  | count
  | version
  | about
  | chunking
  deriving DecidableEq, Repr

def Wanted.name : Wanted → String
  | .text => "a string"
  | .count => "usize"
  | .version => "semver version"
  | .about => "struct ThemeInfo"
  | .chunking => "struct StreamConfig"

inductive Unfit where
  | type (found : Toml.Node) (wanted : Wanted)
  | negative (i : Int)
  | version (fault : Version.Fault)

def showReal : Toml.Real → String
  | .finite x =>
    let s := Setting.messageLayout.write x
    String.ofList (if s.contains '.' then s else s ++ ['.', '0'])
  | .infinite negative => if negative then "-inf" else "inf"
  | .nan => "NaN"

def showNode : Toml.Node → String
  | .scalar (.text s) => "string " ++ Text.showText s
  | .scalar (.integer i) => "integer `" ++ toString i ++ "`"
  | .scalar (.real x) => "floating point `" ++ showReal x ++ "`"
  | .scalar (.bool b) => "boolean `" ++ toString b ++ "`"
  | .scalar .time | .closed _ | .table .. => "map"
  | .array _ | .tables _ => "sequence"

def Unfit.message : Unfit → String
  | .type found wanted => "invalid type: " ++ showNode found ++ ", expected " ++ wanted.name
  | .negative i => "invalid value: integer `" ++ toString i ++ "`, expected " ++ Wanted.count.name
  | .version fault => fault.message

def text : Toml.Node → Except Unfit String
  | .scalar (.text s) => .ok s
  | v => .error (.type v .text)

def count : Toml.Node → Except Unfit Nat
  | .scalar (.integer i) => if 0 ≤ i then .ok i.toNat else .error (.negative i)
  | v => .error (.type v .count)

def version : Toml.Node → Except Unfit Version
  | .scalar (.text s) => (Version.ofText s).mapError .version
  | v => .error (.type v .version)

structure Part (α : Type) where
  key : String
  set : α → Toml.Node → Except Unfit α

/-- A record from a table, entry by entry in their order, or from an array, part by part. A time is a
table without known keys. -/
def record {α : Type} (wanted : Wanted) (parts : List (Part α)) (a : α) : Toml.Node → Except Unfit α
  | .closed t | .table _ t => fromTable a t
  | .array items => fromItems a items
  | .tables elements => fromItems a (elements.map (.table .written))
  | .scalar .time => .ok a
  | v => .error (.type v wanted)
where
  fromTable (a : α) (t : Toml.Table) : Except Unfit α :=
    t.foldlM (fun a e =>
      match parts.find? (·.key == e.1) with
      | some part => part.set a e.2
      | none => .ok a) a
  fromItems (a : α) (items : List Toml.Node) : Except Unfit α :=
    (parts.zip items).foldlM (fun a e => e.1.set a e.2) a

def aboutParts : List (Part Theme.About) :=
  [⟨"name", fun a v => do return { a with name := ← text v }⟩,
    ⟨"version", fun a v => do return { a with version := ← version v }⟩,
    ⟨"author", fun a v => do return { a with author := ← text v }⟩,
    ⟨"documentation_url", fun a v => do return { a with documentationUrl := ← text v }⟩,
    ⟨"support_url", fun a v => do return { a with supportUrl := ← text v }⟩]

def chunkingParts : List (Part Chunking) :=
  [⟨"chunk_size", fun c v => do return { c with size := ← count v }⟩,
    ⟨"buffer_chunks", fun c v => do return { c with buffered := ← count v }⟩]

def parts : List (Part Config) :=
  [⟨"theme", fun c v => do return { c with about := ← record .about aboutParts .standard v }⟩,
    ⟨"stream", fun c v => do return { c with chunking := ← record .chunking chunkingParts .standard v }⟩]

inductive Fault where
  | unreadable (fault : FileFault)
  | notToml
  | unfit (unfit : Unfit)
  | emptyName
  | noChunkSize
  | noBuffer

def Fault.message : Fault → String
  | .unreadable fault => "Failed to read config: " ++ fault.message
  | .notToml => "Failed to parse config: not a TOML document"
  | .unfit u => "Failed to parse config: " ++ u.message
  | .emptyName => "Invalid config: theme.name must not be empty"
  | .noChunkSize => "Invalid config: stream.chunk_size must be > 0"
  | .noBuffer => "Invalid config: stream.buffer_chunks must be > 0"

/-- The name has to show, and no number may be zero. -/
def check (c : Config) : Except Fault Config :=
  if Text.isBlankText c.about.name then .error .emptyName
  else if c.chunking.size = 0 then .error .noChunkSize
  else if c.chunking.buffered = 0 then .error .noBuffer
  else .ok c

def ofText (text : String) : Except Fault Config :=
  match Toml.ofText? text with
  | none => .error .notToml
  | some t =>
    match record.fromTable parts standard t with
    | .error unfit => .error (.unfit unfit)
    | .ok c => c.check

def ofFile (bytes : Except FileFault (List UInt8)) : Except Fault Config :=
  match FileFault.textOf bytes with
  | .ok text => ofText text
  | .error fault => .error (.unreadable fault)

end Config

end Storefront
