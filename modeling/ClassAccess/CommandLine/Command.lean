/-!
# Commands

What a user asks for on the command line:

    fmt FILE...                                          merge directives and write them in order
    dump FILE...                                         merge directives and write them as YAML
    apply --at FILE... [-o|--output FILE | --check] FILE apply directives to a class file
    manifest FILE                                        list the directive files of a manifest

* `Argument.scan` -- the arguments behind the name of a command, sorted by what they are;
* `Command.parse?` -- the command, unless the arguments make none.

Options and files come in any order. An option that takes a file has it behind an equals sign or in
the next argument; the short one also has it directly behind its letter. Behind `--` there are only
files. No file has an empty name.
-/

namespace ClassAccess

/-! ## 1. Arguments -/

/-- An argument with the file that belongs to it. -/
inductive Argument
  | file (path : String)
  | transforms (path : String)
  | output (path : String)
  | check
  deriving DecidableEq, Repr

namespace Argument

/-- How an argument is spelled: a file, an option -- its name with the dashes, and the file given
    with it, if any --, or the mark behind which there are only files. -/
inductive Spelling
  | file (path : String)
  | option (name : String) (given : Option String)
  | separator
  deriving DecidableEq, Repr

/-- A text cut at the first equals sign. -/
def cutValue (text : List Char) : String × Option String :=
  match text.span (· ≠ '=') with
  | (name, _ :: given) => (String.ofList name, some (String.ofList given))
  | (name, []) => (String.ofList name, none)

/-- How an argument is spelled. A single dash is a file. -/
def Spelling.ofText (arg : String) : Spelling :=
  match arg.toList with
  | ['-', '-'] => .separator
  | '-' :: '-' :: rest =>
    let (name, given) := cutValue rest
    .option ("--" ++ name) given
  | '-' :: letter :: rest =>
    let given := match rest with
      | [] => none
      | '=' :: path => some (String.ofList path)
      | path => some (String.ofList path)
    .option (String.ofList ['-', letter]) given
  | _ => .file arg

/-- The option of a name that takes a file. -/
def takingFile? (name : String) : Option (String → Argument) :=
  if name = "--at" then some transforms
  else if name = "--output" || name = "-o" then some output
  else none

/-- The arguments of texts. There are none when an option is unknown, lacks its file or has one too
    many, or when a file has no name. The next argument is the file of an option unless it looks
    like an option itself. -/
def scan : List String → Option (List Argument)
  | [] => some []
  | text :: rest =>
    match Spelling.ofText text with
    | .separator => if rest.contains "" then none else some (rest.map file)
    | .file path => if path.isEmpty then none else (scan rest).map (file path :: ·)
    | .option name given =>
      if name = "--check" then if given.isNone then (scan rest).map (check :: ·) else none
      else
        match takingFile? name with
        | none => none
        | some make =>
          match given with
          | some path => if path.isEmpty then none else (scan rest).map (make path :: ·)
          | none =>
            match rest with
            | [] => none
            | next :: rest =>
              match Spelling.ofText next with
              | .file path => if path.isEmpty then none else (scan rest).map (make path :: ·)
              | _ => none

/-- The file of an argument that is just a file. -/
def file? : Argument → Option String
  | file path => some path
  | _ => none

/-- The file of an argument that names directives. -/
def transforms? : Argument → Option String
  | transforms path => some path
  | _ => none

/-- The file of an argument that names the output. -/
def output? : Argument → Option String
  | output path => some path
  | _ => none

end Argument

/-! ## 2. Commands -/

/-- What a user asks for. -/
inductive Command
  | fmt (files : List String)
  | dump (files : List String)
  | apply (transforms : List String) (input : String) (output : Option String) (check : Bool)
  | manifest (input : String)
  deriving DecidableEq, Repr

namespace Command

/-- Only files, and at least one. -/
def filesOnly? (args : List Argument) : Option (List String) :=
  if args.isEmpty then none else args.mapM Argument.file?

/-- The arguments of `apply`: at least one file of directives, one class file, and at most one of
    the output and the wish to check only. -/
def applyOf? (args : List Argument) : Option Command :=
  let transforms := args.filterMap Argument.transforms?
  match transforms.isEmpty, args.filterMap Argument.file?, args.filterMap Argument.output?,
      args.count .check with
  | false, [input], [], 0 => some (.apply transforms input none false)
  | false, [input], [], 1 => some (.apply transforms input none true)
  | false, [input], [output], 0 => some (.apply transforms input (some output) false)
  | _, _, _, _ => none

/-- **The command that arguments make**, if they make one. -/
def parse? : List String → Option Command
  | [] => none
  | name :: rest => do
    let args ← Argument.scan rest
    match name with
    | "fmt" => return fmt (← filesOnly? args)
    | "dump" => return dump (← filesOnly? args)
    | "apply" => applyOf? args
    | "manifest" =>
      match ← filesOnly? args with
      | [input] => return manifest input
      | _ => none
    | _ => none

end Command

end ClassAccess
