/-!
The arguments of the command line: options for the whole program, the name of a command, and the
options of the command.
-/

namespace Storefront.Command

inductive Task where
  | sections
  | validate (page : String)
  | compile (page : String) (out : Option String)
  | newPage (types : List String)
  deriving DecidableEq, Repr

structure Call where
  sectionsFolder : Option String
  configFile : Option String
  task : Task
  deriving DecidableEq, Repr

structure Opt where
  short : Char
  long : String
  deriving DecidableEq, Repr

def sectionsOpt : Opt := ⟨'s', "sections-dir"⟩
def configOpt : Opt := ⟨'c', "config"⟩
def pageOpt : Opt := ⟨'p', "page"⟩
def outOpt : Opt := ⟨'o', "out"⟩
def typesOpt : Opt := ⟨'t', "types"⟩

inductive Word where
  | option (opt : Opt) (value : Option String)
  | unknown
  | escape
  | plain
  deriving DecidableEq, Repr

/-- Reads one argument where the options `opts` are known. The value of an option may be joined to a
long name by `=`, and to a short one by `=` or nothing. -/
def Word.read (opts : List Opt) (arg : String) : Word :=
  match arg.toList with
  | ['-'] => .plain
  | ['-', '-'] => .escape
  | '-' :: '-' :: cs =>
    let (name, value) := cs.span (· != '=')
    match opts.find? (·.long.toList == name) with
    | none => .unknown
    | some opt =>
      match value with
      | [] => .option opt none
      | _ :: v => .option opt (some (String.ofList v))
  | '-' :: c :: cs =>
    match opts.find? (·.short == c), cs with
    | none, _ => .unknown
    | some opt, [] => .option opt none
    | some opt, '=' :: v => .option opt (some (String.ofList v))
    | some opt, v => .option opt (some (String.ofList v))
  | _ => .plain

def isValue (arg : String) : Bool :=
  match arg.toList with
  | '-' :: _ :: _ => false
  | _ => true

def readOptions (opts : List Opt) : List String → Option (List (Opt × String) × List String)
  | [] => some ([], [])
  | arg :: args =>
    match Word.read opts arg with
    | .unknown => none
    | .escape | .plain => some ([], arg :: args)
    | .option opt (some value) =>
      (readOptions opts args).map fun (found, rest) => ((opt, value) :: found, rest)
    | .option opt none =>
      match args with
      | [] => none
      | value :: args =>
        if isValue value then
          (readOptions opts args).map fun (found, rest) => ((opt, value) :: found, rest)
        else none

def valuesOf (opt : Opt) (found : List (Opt × String)) : List String :=
  (found.filter (·.1 == opt)).map Prod.snd

/-- The path that an option gives, if it does. It stands at most once, and the path is not empty. -/
def path? (opt : Opt) (found : List (Opt × String)) : Option (Option String) :=
  match valuesOf opt found with
  | [] => some none
  | [p] => if p = "" then none else some (some p)
  | _ => none

def commandOptions (opts : List Opt) (args : List String) : Option (List (Opt × String)) :=
  match readOptions opts args with
  | some (found, []) => some found
  | some (found, ["--"]) => some found
  | _ => none

def names (list : String) : List String := (list.toList.splitOn ',').map String.ofList

def Task.read (command : String) (args : List String) : Option Task :=
  match command with
  | "sections" => (commandOptions [] args).map fun _ => .sections
  | "validate" => do
    let page ← path? pageOpt (← commandOptions [pageOpt] args)
    return .validate (← page)
  | "compile" => do
    let found ← commandOptions [pageOpt, outOpt] args
    let page ← path? pageOpt found
    let out ← path? outOpt found
    return .compile (← page) out
  | "new-page" => do
    let found ← commandOptions [typesOpt] args
    return .newPage ((valuesOf typesOpt found).flatMap names)
  | _ => none

def Call.read (args : List String) : Option Call := do
  let (found, rest) ← readOptions [sectionsOpt, configOpt] args
  let sectionsFolder ← path? sectionsOpt found
  let configFile ← path? configOpt found
  match rest with
  | command :: args =>
    let task ← Task.read command args
    return { sectionsFolder, configFile, task }
  | [] => none

end Storefront.Command
