import FlowText.Command.Path
import FlowText.Keyed
import FlowText.Text.Affix

/-!
# Files

* `Files` — how a command reaches its files; each action may fail with a reason.
* `Files.readText` — reads a file that has to hold a text.
* `Files.replace` — writes a file through a scratch file, so that it is never half written.
* `Directory` — files and folders held in memory, and the folder that paths start from.
-/

namespace FlowText.Command

/-- The actions on files. -/
structure Files (m : Type → Type) where
  /-- the bytes of a file -/
  read : String → m (Except String ByteArray)
  /-- writes bytes to a file, which is created if need be -/
  write : (path : String) → (bytes : ByteArray) → m (Except String Unit)
  /-- gives a file another path, in place of any file that is there -/
  rename : (source target : String) → m (Except String Unit)
  /-- removes a file -/
  remove : String → m (Except String Unit)

/-- Why bytes are no text. -/
def notText : String := "stream did not contain valid UTF-8"

/-- The text that bytes encode. -/
def decode (bytes : ByteArray) : Except String String :=
  (String.fromUTF8? bytes).elim (.error notText) .ok

/-- Why a file was not replaced. -/
inductive ReplaceError where
  /-- the scratch file cannot be written -/
  | write (scratch reason : String)
  /-- the scratch file cannot take the place of the file -/
  | rename (path reason : String)
  deriving DecidableEq, Repr

namespace Files

variable {m : Type → Type} [Monad m]

/-- **Read.** The text of a file. -/
def readText (files : Files m) (path : String) : m (Except String String) := do
  match ← files.read path with
  | .error reason => return .error reason
  | .ok bytes => return decode bytes

/-- **Replace.** Writes a text to a scratch file, which then takes the place of the file. If it
cannot, it is removed. -/
def replace (files : Files m) (path text : String) : m (Except ReplaceError Unit) := do
  let scratch := Path.scratch path
  match ← files.write scratch text.toUTF8 with
  | .error reason => return .error (.write scratch reason)
  | .ok () =>
    match ← files.rename scratch path with
    | .error reason =>
      let _ ← files.remove scratch
      return .error (.rename path reason)
    | .ok () => return .ok ()

end Files

/-- What stands at a place. -/
inductive Entry where
  | file (bytes : ByteArray)
  | folder

instance (e : Option Entry) : Decidable (e = some .folder) :=
  match e with
  | some .folder => isTrue rfl
  | some (.file _) => isFalse nofun
  | none => isFalse nofun

/-- **Directory.** Files and folders, and the folder that paths start from. A place is named by the
path to it from the root, which itself has the empty name. There are no links. -/
structure Directory where
  /-- the folder that paths start from -/
  home : String := "/home"
  /-- what stands at the places other than the root -/
  entries : Keyed (Prod.fst : String × Entry → String) := ⟨[("/home", .folder)], by simp⟩

namespace Directory

/-- Why nothing is found. -/
def missing : String := "No such file or directory (os error 2)"

/-- Why a path does not lead on. -/
def notFolder : String := "Not a directory (os error 20)"

/-- Why there are no bytes. -/
def isFolder : String := "Is a directory (os error 21)"

/-! ### Places -/

/-- What stands at a place. -/
def at? (d : Directory) (place : String) : Option Entry :=
  if place = "" then some .folder else (d.entries.find? place).map Prod.snd

/-- The place of a named thing in a folder. -/
def inside (place name : String) : String := place ++ "/" ++ name

/-- The folder that a place is in. The root is in itself. -/
def parent (place : String) : String :=
  String.ofList ((place.toList.reverse.dropWhile (· ≠ '/')).drop 1).reverse

/-- Where one part of a path leads, from a folder. -/
def next (place : String) (part : List Char) : String :=
  if Path.isHere part then place
  else if part = ['.', '.'] then parent place
  else inside place (String.ofList part)

/-- Goes one part of a path further, from a place that has to be a folder. -/
def step (d : Directory) (place : String) (part : List Char) : Except String String :=
  match d.at? place with
  | none => .error missing
  | some (.file _) => .error notFolder
  | some .folder => .ok (next place part)

/-- **Place.** Where a path leads, be there anything or not. -/
def place (d : Directory) (path : String) : Except String String :=
  if path = "" then .error missing
  else (Path.cut path.toList).foldlM d.step (if Path.isRooted path then "" else d.home)

/-- The place of a file that may be written. -/
def spot (d : Directory) (path : String) : Except String String := do
  let place ← d.place path
  if d.at? place = some .folder then .error isFolder else .ok place

/-- The bytes of what stands at a place, if it is a file. -/
def contents : Option Entry → Except String ByteArray
  | some (.file bytes) => .ok bytes
  | some .folder => .error isFolder
  | none => .error missing

/-- The bytes of the file that a path leads to. -/
def bytes (d : Directory) (path : String) : Except String ByteArray := do
  contents (d.at? (← d.place path))

/-! ### Actions -/

/-- Puts a file at a place. -/
def put (d : Directory) (place : String) (bytes : ByteArray) : Directory :=
  { d with entries := d.entries.insert (place, .file bytes) }

/-- Takes away what stands at a place. -/
def drop (d : Directory) (place : String) : Directory :=
  { d with entries := d.entries.erase place }

/-- A change that may be refused, which then leaves everything as it is. -/
def changing (change : Directory → Except String Directory) :
    StateM Directory (Except String Unit) := fun d =>
  match change d with
  | .ok d' => (.ok (), d')
  | .error reason => (.error reason, d)

/-- A file gets another place, in place of any file that is there. -/
def renamed (d : Directory) (source target : String) : Except String Directory := do
  let bytes ← d.bytes source
  let origin ← d.place source
  let place ← d.spot target
  return if origin = place then d else (d.put place bytes).drop origin

/-- The actions on the files of a directory. -/
def files : Files (StateM Directory) where
  read path := return (← get).bytes path
  write path bytes := changing fun d => return d.put (← d.spot path) bytes
  rename source target := changing (·.renamed source target)
  remove path := changing fun d => do
    let _ ← d.bytes path
    return d.drop (← d.place path)

/-! ### Texts under names -/

/-- Puts a text under a name into the folder that paths start from. -/
def insert (d : Directory) (f : String × String) : Directory :=
  d.put (inside d.home f.1) f.2.toUTF8

/-- The name of a thing in the folder that paths start from, if its place is there. -/
def name? (d : Directory) (place : String) : Option String :=
  ((dropStart? (inside d.home "").toList place.toList).filter ('/' ∉ ·)).map String.ofList

/-- The texts in the folder that paths start from, under their names. -/
def toList (d : Directory) : List (String × String) :=
  d.entries.toList.filterMap fun
    | (place, .file bytes) => do return (← d.name? place, ← String.fromUTF8? bytes)
    | (_, .folder) => none

/-- The text under a name. -/
def find? (d : Directory) (name : String) : Option (String × String) :=
  d.toList.find? (·.1 == name)

end Directory

end FlowText.Command
