import TapeMachine.Text.Utf8

/-!
# The host

What a command sees of the process it runs in: the environment variables and the files.  A
`FileTree` is a small file system given by its entries, in which paths are followed component by
component from a working directory.
-/

namespace TapeMachine

inductive FileError where
  | notFound
  | isDirectory
  | notADirectory
  | notText
  /-- Any other reason, in the words of the system. -/
  | other (text : String)
  deriving DecidableEq

def FileError.message : FileError → String
  | notFound => "No such file or directory (os error 2)"
  | isDirectory => "Is a directory (os error 21)"
  | notADirectory => "Not a directory (os error 20)"
  | notText => "stream did not contain valid UTF-8"
  | other text => text

structure Host where
  environment : String → Option (List UInt8)
  file : String → Except FileError (List UInt8)

namespace Host

/-- The value of a variable, if it is set and is a well-formed text. -/
def text? (host : Host) (name : String) : Option String :=
  (host.environment name).bind Text.Utf8.decode?

/-- The contents of a file that has to be a well-formed text. -/
def fileText (host : Host) (path : String) : Except FileError String := do
  match Text.Utf8.decode? (← host.file path) with
  | some text => return text
  | none => throw .notText

end Host

def joinPath (directory name : String) : String :=
  if directory.isEmpty || directory.endsWith "/" then directory ++ name
  else directory ++ "/" ++ name

def pathComponents (path : String) : List String :=
  path.splitOn "/"

/-- A file with its contents, or a directory. -/
inductive FileNode where
  | file (content : List UInt8)
  | directory
  deriving DecidableEq

/-- Files and directories by the components of their paths.  The directories on the way to an entry
need no entry of their own. -/
structure FileTree where
  entries : List (List String × FileNode) := []

namespace FileTree

def insert (tree : FileTree) (path : String) (node : FileNode) : FileTree :=
  let place := (pathComponents path).filter fun component => component ≠ "" && component ≠ "."
  { entries := (place, node) :: tree.entries }

def node? (tree : FileTree) (place : List String) : Option FileNode :=
  if place.isEmpty then some .directory
  else
    match tree.entries.lookup place with
    | some node => some node
    | none =>
        if tree.entries.any fun (entry, _) => place.isPrefixOf entry then some .directory else none

/-- Follows the components of a path from a place.  Only directories can be passed through, the
place itself and the places above it included. -/
def follow (tree : FileTree) (place : List String) : List String → Except FileError FileNode
  | [] =>
      match tree.node? place with
      | some node => .ok node
      | none => .error .notFound
  | component :: rest =>
      match tree.node? place with
      | none => .error .notFound
      | some (.file _) => .error .notADirectory
      | some .directory =>
          if component = "" || component = "." then tree.follow place rest
          else if component = ".." then
            if place.isEmpty then .error .notFound else tree.follow place.dropLast rest
          else tree.follow (place ++ [component]) rest

/-- The contents of the file at a path.  An absolute path leads out of the tree, and the empty path
leads nowhere. -/
def read (tree : FileTree) (path : String) : Except FileError (List UInt8) :=
  if path.isEmpty || path.startsWith "/" then .error .notFound
  else
    match tree.follow [] (pathComponents path) with
    | .ok (.file content) => .ok content
    | .ok .directory => .error .isDirectory
    | .error e => .error e

end FileTree

end TapeMachine
