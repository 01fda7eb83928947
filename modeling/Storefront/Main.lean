import Storefront.Archive.Deflate
import Storefront.Command.Run
/-! The program: reads what a call names, runs it, and prints the answer. -/

open Storefront

namespace Storefront.Main

/-- The number of a failure, which some actions give with its sign turned. -/
def failureNumber (code : UInt32) : UInt32 := min code (-code)

def faultOf : IO.Error → FileFault
  | .noFileOrDirectory .. => .notFound
  | .inappropriateType _ code text =>
    match failureNumber code with
    | 20 => .notFolder
    | 21 => .isFolder
    | _ => .other text
  | .invalidArgument _ code text => if failureNumber code = 36 then .nameTooLong else .other text
  | e => .other (toString e)

def attempt {α : Type} (act : IO α) : IO (Except FileFault α) := do
  match ← act.toBaseIO with
  | .ok a => return .ok a
  | .error e => return .error (faultOf e)

def readFile (path : String) : IO (Except FileFault (List UInt8)) :=
  attempt do return (← IO.FS.readBinFile path).toList

def readFolder (path : String) : IO Folder := do
  match ← attempt (IO.FS.realPath path) with
  | .error _ => return .missing
  | .ok dir =>
    if !(← dir.pathExists) then return .missing
    match ← attempt dir.readDir with
    | .error _ => return .notFolder
    | .ok entries =>
      let files ← entries.toList.mapM fun e => do
        return (e.fileName, (← readFile e.path.toString).toOption)
      return .files files

def readSources (c : Command.Call) : IO Command.Sources := do
  let config ← c.configFile.mapM fun path => readFile path
  let folder ← c.sectionsFolder.mapM fun path => readFolder path
  let page ← match c.task.pagePath? with
    | some path => readFile path
    | none => pure (.error .notFound)
  return { config, folder, page }

/-- The moment of now, which a new file shows. -/
def now : IO String := do
  let (_, path) ← IO.FS.createTempFile
  let t := (← path.metadata).modified
  IO.FS.removeFile path
  return Stamp.momentOf t.sec.toNat t.nsec.toNat

def random (n : USize) : IO (List UInt8) := do return (← IO.getRandomBytes n).toList

def print (o : Command.Output) : IO UInt32 := do
  IO.print o.text
  return o.exit.toUInt32

def finish : Command.Reply → IO UInt32
  | .output o => print o
  | .write path content done => do
    let bytes := content.toOption.getD []
    let stored ← attempt (IO.FS.writeBinFile path ⟨bytes.toArray⟩)
    let result := do
      stored
      (content.mapError FileFault.other).map List.length
    if !result.toBool then
      let _ ← attempt (IO.FS.removeFile path)
    print (done result)

end Storefront.Main

def main (args : List String) : IO UInt32 := do
  match Command.Call.read args with
  | none =>
    IO.eprintln "usage: [-s DIR] [-c FILE] sections | validate -p FILE | compile -p FILE [-o FILE] | new-page [-t TYPES]"
    Main.print Command.misuse
  | some call =>
    let sources ← Main.readSources call
    let seed := Bytes.ofLittleEndian (← Main.random 8)
    let stamp := { exportId := Stamp.idOf (← Main.random 16), createdAt := ← Main.now }
    Main.finish (call.run Deflate.deflate sources { stamp, id := fun n => Block.newId (seed + 0x9E3779B1 * n) })
