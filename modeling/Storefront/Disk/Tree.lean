import Storefront.Catalog.Folder
import Storefront.Disk.Fault
/-!
A tree of files, and paths through it as a command gives them: from the root if they begin with a
slash, else from a working folder, and through `.` and `..`.
-/

namespace Storefront

inductive Disk where
  | file (content : List UInt8)
  | folder (children : List (String × Disk))
  deriving Inhabited

namespace Disk

def nameLimit : Nat := 255

/-- A path has fewer bytes than this. -/
def pathLimit : Nat := 4096

def empty : Disk := .folder []

def child (d : Disk) (name : String) : Except FileFault Disk :=
  match d with
  | .file _ => .error .notFolder
  | .folder children =>
    if nameLimit < Utf8.size name then .error .nameTooLong
    else match children.lookup name with
      | some d => .ok d
      | none => .error .notFound

def find (d : Disk) (names : List String) : Except FileFault Disk := names.foldlM child d

/-- The names that a path leads through once `.` and `..` are gone; `above` are those so far, the last
first. Above the root is the root. -/
def resolveFrom (d : Disk) (above : List String) : List String → Except FileFault (List String)
  | [] => .ok above.reverse
  | part :: parts => do
    match ← d.find above.reverse with
    | .file _ => .error .notFolder
    | .folder children =>
      if part = "" ∨ part = "." then resolveFrom d above parts
      else if part = ".." then resolveFrom d above.tail parts
      else
        let _ ← child (.folder children) part
        resolveFrom d (part :: above) parts

def parts (path : String) : List String :=
  (path.toList.splitOn '/').map String.ofList

def origin (working : List String) (path : String) : List String :=
  if path.toList.head? = some '/' then [] else working

def pathFault? (path : String) : Option FileFault :=
  if path = "" then some .notFound
  else if pathLimit ≤ Utf8.size path then some .nameTooLong
  else none

def resolve (d : Disk) (working : List String) (path : String) : Except FileFault (List String) :=
  match pathFault? path with
  | some fault => .error fault
  | none => resolveFrom d (origin working path).reverse (parts path)

def at? (d : Disk) (working : List String) (path : String) : Except FileFault Disk :=
  d.resolve working path >>= d.find

def has (d : Disk) (working : List String) (path : String) : Bool := (d.at? working path).toBool

def fileAt (d : Disk) (working : List String) (path : String) : Except FileFault (List UInt8) :=
  match d.at? working path with
  | .ok (.file content) => .ok content
  | .ok (.folder _) => .error .isFolder
  | .error fault => .error fault

def join (path name : String) : String :=
  if path.toList.getLast? = some '/' then path ++ name else path ++ "/" ++ name

def folderAt (d : Disk) (working : List String) (path : String) : Folder :=
  match d.at? working path with
  | .ok (.folder children) =>
    .files (children.map fun c => (c.1, (d.fileAt working (join path c.1)).toOption))
  | .ok (.file _) => .notFolder
  | .error _ => .missing

def put (d : Disk) (names : List String) (e : Disk) : Disk :=
  match names with
  | [] => e
  | name :: names =>
    let children : Entries Disk := match d with
      | .folder children => children
      | .file _ => []
    .folder (children.put name (put ((children.get? name).getD empty) names e))

/-- The folder that a file of this path is in, with the name of the file. The folder has to be there, and
a slash at the end of the path asks for a folder instead of a file. -/
def place? (d : Disk) (working : List String) (path : String) :
    Except FileFault (List String × List (String × Disk) × String) := do
  if let some fault := pathFault? path then .error fault
  let ends := (parts path).reverse
  match ends.dropWhile (· == "") with
  | [] => .error .isFolder
  | name :: above =>
    let names ← resolveFrom d (origin working path).reverse above.reverse
    match ← d.find names with
    | .file _ => .error .notFolder
    | .folder children =>
      if ends.head? = some "" ∨ name = "." ∨ name = ".." then .error .isFolder
      match child (.folder children) name with
      | .ok (.folder _) => .error .isFolder
      | .error .nameTooLong => .error .nameTooLong
      | _ => .ok (names, children, name)

def store (d : Disk) (working : List String) (path : String) (content : List UInt8) :
    Except FileFault Disk :=
  (d.place? working path).map fun (names, _, name) => d.put (names ++ [name]) (.file content)

def remove (d : Disk) (working : List String) (path : String) : Disk :=
  match d.place? working path with
  | .ok (names, children, name) => d.put names (.folder (children.filter fun c => c.1 != name))
  | .error _ => d

end Disk

end Storefront
