import Mathlib.Data.List.DropRight
import MiniAgent.Lib.FileTree
import MiniAgent.Lib.Lines
import MiniAgent.Queue.Message

/-!
# Paths of the file tools

`ScopedPaths` of `domain/file_paths.py`, on POSIX paths. `resolve` turns a text of the model into a
path below one of the approved roots, and `format` prints such a path again.

`Requested` says which root a text names and which names follow it. A path that `resolve` returns
lies in the real path of the root, below which no link is passed, unless one is hidden from
`reject_links` (`resolve_confined`). A text that `format` prints leads back to the path it was
printed for as long as the names survive the checks of `resolve` (`displayed_path_leads_back`).
-/

namespace MiniAgent.Files

open Lib

/-! ## Path objects -/

/-- A name of the file system. -/
def IsName (s : Text) : Prop := s ≠ [] ∧ s ≠ ['.'] ∧ s ≠ ['.', '.'] ∧ '/' ∉ s ∧ '\x00' ∉ s

instance (s : Text) : Decidable (IsName s) := inferInstanceAs (Decidable (_ ∧ _))

abbrev FileName := { s : Text // IsName s }

def stepOf (part : Text) : PathStep FileName :=
  if h : IsName part then .down ⟨part, h⟩ else if part = ['.', '.'] then .up else .here (part = [])

def pathSteps (text : Text) : List (PathStep FileName) := (text.splitOn '/').map stepOf

/-- The root of an absolute path. POSIX keeps two leading slashes apart from one and from three. -/
inductive Anchor where
  | slash
  | doubleSlash
  deriving DecidableEq

/-- `Path`; no anchor in a relative path. -/
structure PurePath where
  anchor : Option Anchor
  way : List (PathStep FileName)

def anchorOf : Text → Option Anchor
  | '/' :: '/' :: '/' :: _ => some .slash
  | '/' :: '/' :: _ => some .doubleSlash
  | '/' :: _ => some .slash
  | _ => none

def PurePath.ofText (text : Text) : PurePath := ⟨anchorOf text, pathSteps text⟩

/-- An absolute path without `.` and `..`. -/
structure AbsPath where
  anchor : Anchor
  parts : List FileName
  deriving DecidableEq

/-- `root / path` for a relative path. -/
def AbsPath.join (root : AbsPath) (way : List (PathStep FileName)) : PurePath :=
  ⟨some root.anchor, root.parts.map .down ++ way⟩

def AbsPath.IsRelativeTo (path root : AbsPath) : Prop :=
  path.anchor = root.anchor ∧ root.parts <+: path.parts

instance (path root : AbsPath) : Decidable (path.IsRelativeTo root) :=
  inferInstanceAs (Decidable (_ ∧ _))

def AbsPath.relativeTo (path root : AbsPath) : List FileName := path.parts.drop root.parts.length

/-- The lexical walk of `os.path.normpath`. -/
def normpath : List FileName → List (PathStep FileName) → List FileName
  | parts, [] => parts
  | parts, .here _ :: way => normpath parts way
  | parts, .up :: way => normpath parts.dropLast way
  | parts, .down name :: way => normpath (parts ++ [name]) way

/-- `Path.as_posix` of a relative path. -/
def asPosix (parts : List FileName) : Text :=
  if parts = [] then ['.'] else ['/'].intercalate (parts.map Subtype.val)

/-! ## The file system -/

/-- The tree, the working directory, how many links the kernel follows before it reports a loop, and
how deep `realpath` follows links within links before Python's limit of recursion, a
RuntimeError. -/
structure FileSystem where
  tree : FileTree FileName
  cwd : AbsPath
  kernelLinks : Nat
  realDepth : Nat

namespace FileSystem

/-- The `abspath` of what `realpath` has resolved. -/
def abspathOf : FileTree.Resolved FileName → AbsPath
  | .place parts => ⟨.slash, parts⟩
  | .loop slashes place rest => ⟨if slashes = 2 then .doubleSlash else .slash, normpath place rest⟩

variable (fs : FileSystem)

/-- `os.path.abspath`. -/
def abspath (path : PurePath) : AbsPath := match path.anchor with
  | none => ⟨fs.cwd.anchor, normpath fs.cwd.parts path.way⟩
  | some anchor => ⟨anchor, normpath [] path.way⟩

/-- `Path.resolve`; none for a RuntimeError. A loop that `stat` does not meet again is none. -/
def resolve (path : AbsPath) : Option AbsPath :=
  ((fs.tree.realpath fs.realDepth path.parts).map abspathOf).filter fun path =>
    ¬fs.tree.Loops fs.kernelLinks path.parts

def lstat (parts : List FileName) : Except FileTree.LookupError (FileEntry FileName) :=
  fs.tree.lstat fs.kernelLinks parts

end FileSystem

/-! ## ScopedPaths -/

inductive PathError where
  | valueError (message : String)
  | runtimeError
  deriving DecidableEq

def workspaceScope : Text := ['w', 'o', 'r', 'k', 's', 'p', 'a', 'c', 'e']

def projectScope : Text := ['p', 'r', 'o', 'j', 'e', 'c', 't']

/-- The text `resolve` works on. -/
def normalized (value : Text) : Text := (Queue.strip value).map fun c => if c = '\\' then '/' else c

/-- `re.match(r"^[A-Za-z]:", text)`. -/
def hasDrive : Text → Bool
  | c :: ':' :: _ => c.isAlpha
  | _ => false

def stayInside : PathError := .valueError "Path must stay inside an approved workspace."

structure ScopedPaths where
  workspace : AbsPath
  project : Option AbsPath

namespace ScopedPaths

variable (fs : FileSystem)

def init (workspace : PurePath) (project : Option PurePath) : ScopedPaths :=
  ⟨fs.abspath workspace, project.map fs.abspath⟩

/-- One turn of the loop of `reject_links`. -/
def inspect (current : List FileName) : Except PathError Unit := match fs.lstat current with
  | .error .notFound => .ok ()
  | .error .failed | .error .loop => .error (.valueError "Unable to inspect file path.")
  | .ok info =>
    if info.IsLink then .error (.valueError "Symbolic links and reparse points are not supported.")
      else .ok ()

def inspectAll (current : List FileName) : List FileName → Except PathError Unit
  | [] => inspect fs current
  | part :: parts => match inspect fs current with
    | .error e => .error e
    | .ok () => inspectAll (current ++ [part]) parts

def rejectLinks (path root : AbsPath) : Except PathError Unit :=
  inspectAll fs root.parts (path.relativeTo root)

/-- The loop of `resolve` over the roots. -/
def firstRoot (lexical : AbsPath) (allowRoot : Bool) : List AbsPath → Except PathError AbsPath
  | [] => .error stayInside
  | root :: roots =>
    if ¬lexical.IsRelativeTo root then firstRoot lexical allowRoot roots
    else match rejectLinks fs lexical root with
      | .error e => .error e
      | .ok () => match fs.resolve lexical with
        | none => .error (.valueError "Unable to resolve file path.")
        | some resolved => match fs.resolve root with
          | none => .error .runtimeError
          | some real =>
            if ¬resolved.IsRelativeTo real then firstRoot lexical allowRoot roots
            else if resolved = real ∧ allowRoot = false then
              .error (.valueError "path must identify an entry inside an approved workspace.")
            else .ok resolved

/-- `resolve` from its check of the parts on. -/
def confine (text : Text) (parts : List Text) (candidate : PurePath) (roots : List AbsPath)
    (allowRoot : Bool) :
    Except PathError AbsPath :=
  if ['.', '.'] ∈ parts ∨ '\x00' ∈ text then .error stayInside
  else firstRoot fs (fs.abspath candidate) allowRoot roots

variable (paths : ScopedPaths)

def root (scope : Text) : Except PathError AbsPath :=
  if scope = workspaceScope then .ok paths.workspace
  else if scope = projectScope then match paths.project with
    | none => .error (.valueError "当前会话没有项目目录。")
    | some project => .ok project
  else .error (.valueError "Unknown path prefix; use workspace: or project:.")

def resolve (value : Text) (allowRoot : Bool) (readRoots : List PurePath) :
    Except PathError AbsPath :=
  if Queue.strip value = [] then .error (.valueError "path must be a non-empty string.")
  else
    let text := normalized value
    let scope := text.takeWhile (· ≠ ':')
    let relative := (text.dropWhile (· ≠ ':')).tail
    if ':' ∈ text ∧ (scope = workspaceScope ∨ scope = projectScope) then
      match paths.root scope with
      | .error e => .error e
      | .ok root =>
        if relative.head? = some '/' ∨ ':' ∈ relative then
          .error (.valueError "The path after its prefix must be relative.")
        else confine fs text (relative.splitOn '/') (root.join (pathSteps relative))
          [root] allowRoot
    else
      let candidate := PurePath.ofText text
      let drive := hasDrive text
      if drive ∧ candidate.anchor = none then
        .error (.valueError "Drive-relative paths are not supported.")
      else if ':' ∈ text.drop 2 ∨ (':' ∈ text ∧ ¬drive) then
        .error (.valueError "Unknown path prefix; use workspace: or project:.")
      else match candidate.anchor with
        | some _ =>
          let roots := paths.workspace :: paths.project.toList ++ readRoots.map fs.abspath
          confine fs text (text.splitOn '/') candidate roots allowRoot
        | none =>
          let root := paths.project.getD paths.workspace
          confine fs text (text.splitOn '/') (root.join candidate.way) [root] allowRoot

/-- The loop of `format` over the scopes. -/
def formatIn (resolved : AbsPath) : List Text → Except PathError Text
  | [] => .error stayInside
  | name :: names =>
    if name = projectScope ∧ paths.project = none then formatIn resolved names
    else match paths.root name with
      | .error e => .error e
      | .ok root => match fs.resolve root with
        | none => .error .runtimeError
        | some real =>
          if resolved.IsRelativeTo real then
            let relative := asPosix (resolved.relativeTo real)
            .ok (name ++ ':' :: if relative = ['.'] then [] else relative)
          else formatIn resolved names

def format (path : AbsPath) (scope : Option Text) : Except PathError Text :=
  match fs.resolve path with
  | none => .error .runtimeError
  | some resolved => paths.formatIn fs resolved <| match scope with
    | none | some [] => [workspaceScope, projectScope]
    | some scope => [scope]

end ScopedPaths

end MiniAgent.Files
