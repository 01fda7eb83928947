import Storefront.Bytes
import Storefront.Command.Arguments
import Storefront.Disk.Tree
import Storefront.Theme.Export
/-!
What the commands answer. All files are read before and given as sources; the answer is a text with an
exit code, or a file to be written first.
-/

namespace Storefront.Command

/-- What a call reads. What it does not name is absent; a page that is not named is not found. -/
structure Sources where
  config : Option (Except FileFault (List UInt8))
  folder : Option Folder
  page : Except FileFault (List UInt8)

structure Fresh where
  stamp : Stamp
  id : Nat → String

/-- A text, and how the program ends: 0 for success, 1 if something cannot be read or written, 2 for
wrong use and for pages with errors. -/
structure Output where
  exit : Nat
  text : String
  deriving DecidableEq, Repr

inductive Reply where
  | output (o : Output)
  | write (path : String) (content : Except String (List UInt8)) (finish : Except FileFault Nat → Output)

def Task.pagePath? : Task → Option String
  | .validate page | .compile page _ => some page
  | _ => none

def Sources.ofDisk (d : Disk) (working : List String) (c : Call) : Sources where
  config := c.configFile.map (d.fileAt working)
  folder := c.sectionsFolder.map (d.folderAt working)
  page := match c.task.pagePath? with
    | some path => d.fileAt working path
    | none => .error .notFound

def line (exit : Nat) (text : String) : Output := ⟨exit, text ++ "\n"⟩

def failure (message : String) : Output :=
  line 1 (Json.obj [("success", .bool false), ("error", .str message)]).print

def rejected (f : Theme.Failure) : Output :=
  line 2 (Json.obj [("success", .bool false), ("kind", .str f.kind), ("error", .str f.message)]).print

def sectionJson (s : Section) : Json :=
  .obj [("type", .str s.type), ("name", .str s.name), ("variants", .arr (s.variants.map Variant.toJson)),
    ("settings", .ofStrings (s.settings.map (·.id)))]

def loadPage (path : String) (bytes : Except FileFault (List UInt8)) : Except String Page :=
  match FileFault.textOf bytes with
  | .error fault => .error ("Failed to read page " ++ path ++ ": " ++ fault.message)
  | .ok text => (Page.ofText text).mapError fun fault => "Invalid page: " ++ fault.message

def answerValidate (c : Catalog) (p : Page) : Output :=
  let report := Report.ofPage c p
  line (if report.valid then 0 else 2) report.toJson.pretty

def compiled (r : Receipt) (archive : List (String × Json)) : Output :=
  line 0 (Json.obj ([("success", .bool true), ("receipt", r.toJson)] ++ archive)).pretty

def embedded (r : Receipt) : Except String (List UInt8) → Output
  | .ok archive => compiled r [("archive_base64", .str (Base64.encode archive))]
  | .error message => failure ("Failed to build archive: " ++ message)

def saved (r : Receipt) (path : String) : Except FileFault Nat → Output
  | .ok count => compiled r [("archive_path", .str path), ("archive_bytes", .ofNat count)]
  | .error fault => failure ("Failed to write archive: " ++ fault.message)

def answerCompile (deflate : List UInt8 → List UInt8) (c : Catalog) (cfg : Config) (stamp : Stamp) (p : Page)
    (out : Option String) : Reply :=
  match Theme.streamOf deflate c cfg stamp p with
  | .error f => .output (rejected f)
  | .ok (receipt, stream) =>
    let archive := stream.collect.1.map List.flatten
    match out with
    | none => .output (embedded receipt archive)
    | some path => .write path archive (saved receipt path)

def addAll (c : Catalog) (ids : Nat → String) (p : Page) : List String → Except String Page
  | [] => .ok p
  | type :: types =>
    match c.addBlock? p type (ids p.blocks.length) with
    | some p => addAll c ids p types
    | none => .error type

def answerNewPage (c : Catalog) (ids : Nat → String) (types : List String) : Output :=
  match addAll c ids .empty types with
  | .ok p => line 0 p.toJson.pretty
  | .error type => failure ("Unknown section type '" ++ type ++ "'")

def Task.run (deflate : List UInt8 → List UInt8) (t : Task) (c : Catalog) (cfg : Config) (s : Sources)
    (fresh : Fresh) : Reply :=
  match t with
  | .sections => .output (line 0 (Json.arr (c.sections.map sectionJson)).print)
  | .validate path =>
    match loadPage path s.page with
    | .error message => .output (failure message)
    | .ok p => .output (answerValidate c p)
  | .compile path out =>
    match loadPage path s.page with
    | .error message => .output (failure message)
    | .ok p => answerCompile deflate c cfg fresh.stamp p out
  | .newPage types => .output (answerNewPage c fresh.id types)

def loadConfig (s : Sources) : Except String Config :=
  match s.config with
  | none => .ok .standard
  | some bytes => (Config.ofFile bytes).mapError (·.message)

def loadCatalog (s : Sources) : Except String Catalog :=
  match s.folder with
  | none => .ok .stock
  | some folder =>
    match Catalog.stock.extend folder with
    | (c, .ok _) => .ok c
    | (_, .error fault) => .error ("Failed to load sections: " ++ fault.message)

/-- Answers a call: first the configuration is read, then the sections, then what the task needs. -/
def Call.run (deflate : List UInt8 → List UInt8) (call : Call) (s : Sources) (fresh : Fresh) : Reply :=
  match loadConfig s with
  | .error message => .output (failure message)
  | .ok cfg =>
    match loadCatalog s with
    | .error message => .output (failure message)
    | .ok c => call.task.run deflate c cfg s fresh

def misuse : Output := ⟨2, ""⟩

/-- Finishes an answer in a tree of files. A file that cannot be filled is taken away again. -/
def Reply.onDisk (d : Disk) (working : List String) : Reply → Output × Disk
  | .output o => (o, d)
  | .write path content finish =>
    match d.store working path (content.toOption.getD []), content with
    | .error fault, _ => (finish (.error fault), d)
    | .ok stored, .ok bytes => (finish (.ok bytes.length), stored)
    | .ok stored, .error message => (finish (.error (.other message)), stored.remove working path)

def runOnDisk (deflate : List UInt8 → List UInt8) (args : List String) (d : Disk) (working : List String)
    (fresh : Fresh) : Output × Disk :=
  match Call.read args with
  | none => (misuse, d)
  | some call => (call.run deflate (.ofDisk d working call) fresh).onDisk d working

end Storefront.Command
