import TypedSheets.Text.Cut

/-!
# Folders of settings

Settings are files of a folder, and a file for an environment is preferred to the common one. The
folder is named from outside, or is the nearest folder `config` above the folder that work is done
in.

## Main definitions

* `FileTree` — files and folders below a root, and the folder that work is done in.
* `FileTree.find` — what stands at a path.
* `SettingsSource` — the folder and the environment that settings are taken from.
* `SettingsSource.named` — a source named from outside, or else found nearby.
* `SettingsSource.content` — the content of a file of settings.
-/

namespace TypedSheets

/-- The names on the way from the root to a file or folder. -/
abbrev Path := List String

/-- Files and folders below a root. Every folder on the way to a file or a folder is there too. -/
structure FileTree where
  /-- The files with their contents. -/
  files : List (Path × String) := []
  /-- Further folders. -/
  folders : List Path := []
  /-- The folder that work is done in, to which relative paths are taken. -/
  workFolder : Path := []
deriving Inhabited

/-- What stands at a path. -/
inductive Found where
  | nothing
  | folder
  | file (content : String)
deriving DecidableEq, Inhabited

namespace FileTree

/-- Whether a folder stands at a path. -/
def isFolder (t : FileTree) (path : Path) : Bool :=
  path.isEmpty || (t.workFolder :: t.folders).any path.isPrefixOf ||
    t.files.any fun f => path.isPrefixOf f.1 && path.length < f.1.length

/-- What stands at a path. -/
def find (t : FileTree) (path : Path) : Found :=
  if t.isFolder path then .folder
  else match t.files.find? (·.1 == path) with
    | some f => .file f.2
    | none => .nothing

/-- The path that names lead to from a folder: `.` and empty names stay, `..` goes up, and any
other name goes into a folder, except for the last, which may be that of a file. -/
def walk (t : FileTree) : (here : Path) → List String → Option Path
  | here, [] => some here
  | here, name :: names =>
    if !t.isFolder here then none
    else if name = "" || name = "." then walk t here names
    else if name = ".." then if here.isEmpty then none else walk t here.dropLast names
    else walk t (here ++ [name]) names

/-- The nearest folder `config` in a folder and those above it, of which `levels` are looked at. -/
def nearestConfig? (t : FileTree) : (levels : Nat) → Path → Option Path
  | 0, _ => none
  | levels + 1, here =>
    if t.isFolder (here ++ ["config"]) then some (here ++ ["config"])
    else if here.isEmpty then none
    else nearestConfig? t levels here.dropLast

end FileTree

/-- The names in a path that is written with slashes. -/
def pathNames (path : String) : List String :=
  (Text.cutAll '/' path.toList).map String.ofList

/-- A folder, by its path from the root or by what is written. -/
inductive FolderRef where
  | rooted (path : Path)
  | written (path : String)
deriving DecidableEq, Inhabited

/-- The text of a folder. -/
def FolderRef.text : FolderRef → String
  | rooted path => Text.joinWith "/" path
  | written path => path

/-- Where settings are taken from. -/
structure SettingsSource where
  /-- The folder. -/
  folder : FolderRef
  /-- The environment whose files are preferred. -/
  environment : Option String := none
deriving DecidableEq, Inhabited

namespace SettingsSource

/-- The source that is named from outside: a folder as it is written, or else the nearest folder
`config` within five levels, or else `config` as it is; and an environment, unless its name is
empty. -/
def named (t : FileTree) (folder environment : Option String) : SettingsSource where
  folder := match folder with
    | some path => .written path
    | none =>
      match t.nearestConfig? 5 t.workFolder with
      | some path => .rooted path
      | none => .written "config"
  environment := environment.filter (· != "")

/-- What stands at a path below the folder of a source. Only a path that starts with a slash is
taken to the root of everything, which is out of reach. -/
def find (s : SettingsSource) (t : FileTree) (name : String) : Found :=
  let path := match s.folder with
    | .rooted path => t.walk path (pathNames name)
    | .written folder =>
      if folder.startsWith "/" then none
      else t.walk t.workFolder (pathNames folder ++ pathNames name)
  match path with
  | some path => t.find path
  | none => .nothing

/-- What stands in place of a file of settings: the file of the environment if there is one, else
the common file. -/
def content (s : SettingsSource) (t : FileTree) (name : String) : Found :=
  let common := s.find t (name ++ ".yaml")
  match s.environment with
  | none => common
  | some environment =>
    match s.find t (name ++ "." ++ environment ++ ".yaml") with
    | .nothing => common
    | found => found

end SettingsSource

end TypedSheets
