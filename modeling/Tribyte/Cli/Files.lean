import Tribyte.Text

/-!
# A directory of files

The files of one directory by name. It is the root of all paths and the place where they start, so a
path leads to the directory itself, to an entry of it, or to something inside an entry: empty parts,
dots and double dots in front lead nowhere, and a slash behind the name of an entry asks for a
folder. There is no folder beside the directory, so a path that needs one fails: at an entry that is
a file, or because there is no such entry. A new file cannot be made under a name that ends in a
slash. Names have at most 255 bytes and paths fewer than 4096. Writing replaces what was there.
-/

namespace Tribyte.Cli

inductive Place
  | directory
  | entry (name : String) (asFolder : Bool)
  | inside (name : String)
deriving DecidableEq, Repr

namespace Place

def parts (path : Text) : List Text := (path.splitOn '/').filter (· != [])

def ofPath (path : Text) : Place :=
  match (parts path).dropWhile fun part => part == ['.'] || part == ['.', '.'] with
  | [] => .directory
  | [name] => .entry (String.ofList name) (path.getLast? == some '/')
  | name :: _ => .inside (String.ofList name)

end Place

inductive FileError
  | notFound
  | notDirectory
  | isDirectory
  | nameTooLong
  | notUtf8
  | other (reason : String)
deriving DecidableEq, Repr

def FileError.message : FileError → String
  | .notFound => "No such file or directory (os error 2)"
  | .notDirectory => "Not a directory (os error 20)"
  | .isDirectory => "Is a directory (os error 21)"
  | .nameTooLong => "File name too long (os error 36)"
  | .notUtf8 => "stream did not contain valid UTF-8"
  | .other reason => reason

structure Files where
  entries : List (String × List UInt8) := []
deriving DecidableEq, Repr

namespace Files

def get? (fs : Files) (name : String) : Option (List UInt8) := fs.entries.lookup name

def set (fs : Files) (name : String) (bytes : List UInt8) : Files :=
  ⟨(name, bytes) :: fs.entries.filter (·.1 != name)⟩

def locate (path : String) : Except FileError Place :=
  if path.utf8ByteSize < 4096 then .ok (Place.ofPath path.toList) else .error .nameTooLong

def find (fs : Files) (name : String) : Except FileError (Option (List UInt8)) :=
  if name.utf8ByteSize ≤ 255 then .ok (fs.get? name) else .error .nameTooLong

def blocked (fs : Files) (name : String) : FileError :=
  match fs.find name with
  | .error cause => cause
  | .ok none => .notFound
  | .ok (some _) => .notDirectory

def readAt (fs : Files) : Place → Except FileError (List UInt8)
  | .directory => .error .isDirectory
  | .inside name | .entry name true => .error (fs.blocked name)
  | .entry name false =>
    match fs.find name with
    | .error cause => .error cause
    | .ok none => .error .notFound
    | .ok (some bytes) => .ok bytes

def writeAt (fs : Files) (bytes : List UInt8) : Place → Except FileError Files
  | .directory | .entry _ true => .error .isDirectory
  | .inside name => .error (fs.blocked name)
  | .entry name false => (fs.find name).map fun _ => fs.set name bytes

def read (fs : Files) (path : String) : Except FileError (List UInt8) :=
  locate path >>= fs.readAt

def write (fs : Files) (path : String) (bytes : List UInt8) : Except FileError Files :=
  locate path >>= fs.writeAt bytes

/-- The files of `after` that `before` did not hold, or held with other bytes. -/
def changes (before after : Files) : List (String × List UInt8) :=
  after.entries.filter fun (name, bytes) => before.get? name != some bytes

end Files

end Tribyte.Cli
