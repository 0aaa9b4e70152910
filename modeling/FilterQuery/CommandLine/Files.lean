namespace FilterQuery.CommandLine

inductive FileError where
  | missing
  | notDirectory
  | isDirectory
  | nameTooLong
  | nullInPath
  | denied
  | notText
deriving DecidableEq, Repr, Inhabited

def FileError.message : FileError → String
  | missing => "No such file or directory (os error 2)"
  | notDirectory => "Not a directory (os error 20)"
  | isDirectory => "Is a directory (os error 21)"
  | nameTooLong => "File name too long (os error 36)"
  | nullInPath => "file name contained an unexpected NUL byte"
  | denied => "Permission denied (os error 13)"
  | notText => "stream did not contain valid UTF-8"

/-- What comes of reading files, by path. -/
abbrev Files :=
  String → Except FileError String

def isStep (part : String) : Bool :=
  part != "" && part != "."

/-- The files in a folder and below it: the names that lead to each, and its text. -/
structure Folder where
  files : List (List String × String)
deriving DecidableEq, Repr, Inhabited

namespace Folder

def ofTexts (texts : List (String × String)) : Folder :=
  ⟨texts.map fun (path, text) => ((path.splitOn "/").filter isStep, text)⟩

inductive Place where
  | directory
  | file (text : String)
deriving DecidableEq, Repr, Inhabited

/-- The place that some names lead to.  The directories are those that hold files. -/
def place? (folder : Folder) (names : List String) : Option Place :=
  match folder.files.lookup names with
  | some text => some (.file text)
  | none =>
      if folder.files.any fun entry => names.isPrefixOf entry.1 then some .directory else none

def nameLimit : Nat := 255

def pathLimit : Nat := 4095

/-- Follows the parts of a path outside of the folder.  Only the directories above it are known. -/
def followOutside (parts : List String) : Except FileError String :=
  if parts.any fun part => isStep part && part != ".." then .error .missing
  else .error .isDirectory

def follow (folder : Folder) (names : List String) : List String → Except FileError String
  | [] => .error .isDirectory
  | part :: rest =>
      if !isStep part then follow folder names rest
      else if part = ".." then
        if names.isEmpty then followOutside rest else follow folder names.dropLast rest
      else if nameLimit < part.utf8ByteSize then .error .nameTooLong
      else
        match folder.place? (names ++ [part]) with
        | none => .error .missing
        | some .directory => follow folder (names ++ [part]) rest
        | some (.file text) => if rest.isEmpty then .ok text else .error .notDirectory

def read (folder : Folder) : Files := fun path =>
  if path.contains '\x00' then .error .nullInPath
  else if path.isEmpty then .error .missing
  else if pathLimit < path.utf8ByteSize then .error .nameTooLong
  else if path.front = '/' then followOutside (path.splitOn "/")
  else folder.follow [] (path.splitOn "/")

end Folder
end FilterQuery.CommandLine
