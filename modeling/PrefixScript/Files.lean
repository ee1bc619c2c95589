import PrefixScript.Report
import PrefixScript.Source

namespace PrefixScript

inductive FileFault where
  | missing
  | folder
  | notFolder
  | nameTooLong
  | notText
  | other (why : String)
  deriving DecidableEq, Repr

def notTextMessage : String :=
  "stream did not contain valid UTF-8"

namespace FileFault

def message : FileFault → String
  | missing => "No such file or directory (os error 2)"
  | folder => "Is a directory (os error 21)"
  | notFolder => "Not a directory (os error 20)"
  | nameTooLong => "File name too long (os error 36)"
  | notText => notTextMessage
  | other why => why

def report (f : FileFault) : Report :=
  { code := 700, message := "cannot read file: " ++ f.message, line := none }

end FileFault

def Source.ofBytes (bytes : ByteArray) : Except FileFault Source :=
  match String.fromUTF8? bytes with
  | some text => .ok (.ofText text)
  | none => .error .notText

/-- A folder with at most one file, given by its name and its bytes. Of the system around it only
the standard folders and the null device are known. -/
structure Folder where
  file : Option (String × ByteArray)

namespace Folder

inductive Place where
  | here
  | root
  | devices
  | elsewhere
  | file (bytes : ByteArray)

def maxName : Nat := 255

def maxPath : Nat := 4095

def standardFolders : List String :=
  ["bin", "boot", "etc", "home", "lib", "mnt", "opt", "proc", "root", "run", "sbin", "srv", "sys",
    "tmp", "usr", "var"]

def find? (f : Folder) (name : String) : Place → Option Place
  | .here => f.file.bind fun file => if name = file.1 then some (.file file.2) else none
  | .root =>
    if name = "dev" then some .devices
    else if name ∈ standardFolders then some .elsewhere
    else none
  | .devices => if name = "null" then some (.file .empty) else none
  | _ => none

def above : Place → Place
  | .root | .devices => .root
  | _ => .elsewhere

def follow (f : Folder) (place : Place) (component : String) : Except FileFault Place :=
  match place with
  | .file _ => .error .notFolder
  | _ =>
    if component ∈ ["", "."] then .ok place
    else if component = ".." then .ok (above place)
    else if maxName < component.utf8ByteSize then .error .nameTooLong
    else
      match f.find? component place with
      | some next => .ok next
      | none => .error .missing

def read (f : Folder) (path : String) : Except FileFault ByteArray := do
  if maxPath < path.utf8ByteSize then .error .nameTooLong
  let components := (Text.cutAt '/' path.toList).map String.ofList
  let start := if path.toList.head? = some '/' then .root else .here
  match ← components.foldlM f.follow start with
  | .file bytes => .ok bytes
  | _ => .error .folder

end Folder

end PrefixScript
