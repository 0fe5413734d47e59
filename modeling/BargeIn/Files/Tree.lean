import BargeIn.Files.Path
import BargeIn.Files.Place
import BargeIn.Text.Order

/-! A file tree holds directories and files at their places, and the place that
relative paths start from. A path is followed name by name: each name but
the last has to lead into a directory, a dot stays, two dots go up, and a slash
at the end asks for a directory. A path ends at its first NUL; names over 255
bytes and paths over 4095 are refused. -/

namespace BargeIn

inductive Node
  | directory
  | file (content : Written)
  deriving DecidableEq

structure FileTree where
  nodes : List (Place × Node)
  start : Place
  deriving DecidableEq

/-- What is between a text that is written and its file. A stream holds a text that is
shorter than its buffer until the file is closed, when nobody asks whether it arrived. The
disk has room for so many bytes, if it is short of any. -/
structure Disk where
  buffer : Nat
  room : Option Nat
  deriving DecidableEq

namespace Disk

def ample : Disk := ⟨1024, none⟩

def holds (d : Disk) (size : Nat) : Bool :=
  match d.room with
  | none => true
  | some room => size ≤ room

def keep (d : Disk) (t : Text) : Text :=
  match d.room with
  | none => t
  | some room => t.take room

/-- A text goes to the disk at once, and what does not fit is noticed, when it fills the
buffer. -/
def notices (d : Disk) (t : Text) : Bool := d.buffer ≤ t.length && !d.holds t.length

theorem keep_of_holds {d : Disk} {t : Text} (h : d.holds t.length = true) : d.keep t = t := by
  obtain ⟨buffer, room⟩ := d
  cases room with
  | none => rfl
  | some room => exact List.take_of_length_le (of_decide_eq_true h)

end Disk

inductive SystemFault
  | noSuchPlace
  | notDirectory
  | alreadyThere
  | nameTooLong
  deriving DecidableEq

def SystemFault.text : SystemFault → Text
  | .noSuchPlace => Text.ascii "No such file or directory"
  | .notDirectory => Text.ascii "Not a directory"
  | .alreadyThere => Text.ascii "File exists"
  | .nameTooLong => Text.ascii "File name too long"

/-- Where a path leads: to something there, to a first name that is not there, with
the names behind it, or to a file that more names follow. -/
inductive Lookup
  | present (place : Place) (node : Node)
  | missing (place : Place) (rest : List Text)
  | blocked (rest : List Text)
  | tooLong
  | nowhere
  deriving DecidableEq

namespace FileTree

open Text (ascii)

def node? (t : FileTree) (place : Place) : Option Node :=
  if place = .root then some .directory else Record.get? place t.nodes

def put (t : FileTree) (place : Place) (node : Node) : FileTree :=
  { t with nodes := Record.set place node t.nodes }

def maxName : Nat := 255

def maxPath : Nat := 4095

def follow (t : FileTree) (here : Place) : List Text → Lookup
  | [] => .present here .directory
  | name :: rest =>
    if name = [] ∨ name = ascii "." then follow t here rest
    else if name = ascii ".." then follow t here.parent rest
    else if maxName < name.length then .tooLong
    else match t.node? (here.child name) with
      | some .directory => follow t (here.child name) rest
      | some (.file content) =>
        if rest = [] then .present (here.child name) (.file content) else .blocked rest
      | none => .missing (here.child name) rest

def lookup (t : FileTree) (path : Text) : Lookup :=
  let path := Text.untilNul path
  if path = [] then .nowhere
  else if maxPath < path.length then .tooLong
  else t.follow (if Path.isAbsolute path then .root else t.start) (Path.pieces path)

def has (t : FileTree) (path : Text) : Bool :=
  match t.lookup path with
  | .present _ _ => true
  | _ => false

def isDirectory (t : FileTree) (path : Text) : Bool :=
  match t.lookup path with
  | .present _ .directory => true
  | _ => false

def read? (t : FileTree) (path : Text) : Option Text :=
  match t.lookup path with
  | .present _ (.file content) => some content.text
  | _ => none

def writable? (t : FileTree) (path : Text) : Option Place :=
  match t.lookup path with
  | .present place (.file _) => some place
  | .missing place [] => some place
  | _ => none

def write? (t : FileTree) (disk : Disk) (path content : Text) : Option FileTree :=
  (t.writable? path).map fun place => t.put place (.file (.ofText (disk.keep content)))

def openEnd? (t : FileTree) (path : Text) : Option (Place × FileTree) :=
  (t.writable? path).map fun place =>
    (place, match t.node? place with
      | none => t.put place (.file .empty)
      | some _ => t)

def append (t : FileTree) (place : Place) (text : Text) : FileTree :=
  match t.node? place with
  | some (.file content) => t.put place (.file (content.add text))
  | _ => t

/-- Follows names from a directory and makes each directory that is not there. What
was made stays when a later name is refused. -/
def makeWay (t : FileTree) (here : Place) : List Text → Option SystemFault × FileTree
  | [] => (none, t)
  | name :: rest =>
    if name = [] ∨ name = ascii "." then makeWay t here rest
    else if name = ascii ".." then makeWay t here.parent rest
    else if maxName < name.length then (some .nameTooLong, t)
    else match t.node? (here.child name) with
      | some .directory => makeWay t (here.child name) rest
      | some (.file _) => (some .alreadyThere, t)
      | none => makeWay (t.put (here.child name) .directory) (here.child name) rest

def maxMade : Nat := 1000

def asked (names : List Text) : Nat :=
  (names.filter fun name => name ≠ [] && !Path.isStep name).length

def makeDirectories (t : FileTree) (path : Text) : Option SystemFault × FileTree :=
  match t.lookup path with
  | .present _ .directory => (none, t)
  | .present _ (.file _) => (some .notDirectory, t)
  | .missing place rest =>
    if maxMade < 1 + asked rest then (some .nameTooLong, t)
    else makeWay (t.put place .directory) place rest
  | .blocked rest => (some (if maxMade < asked rest then .nameTooLong else .notDirectory), t)
  | .tooLong => (some .nameTooLong, t)
  | .nowhere => (some .noSuchPlace, t)

/-- Takes away whatever a path leads to, with all that lies in it. A path that ends
in a dot or two dots only empties the directory. -/
def remove (t : FileTree) (path : Text) : FileTree :=
  let stays := Path.isStep (Path.name (Text.untilNul path))
  match t.lookup path with
  | .present place _ =>
    let keeps := fun (other : Place) => !place.isWithin other || (stays && other = place)
    { t with nodes := t.nodes.filter fun n => keeps n.1 }
  | _ => t

theorem node?_put_self {t : FileTree} {place : Place} (h : place ≠ .root) (node : Node) :
    (t.put place node).node? place = some node := by simp [node?, put, h]

theorem node?_put_of_ne {t : FileTree} {place other : Place} (h : other ≠ place)
    (node : Node) : (t.put place node).node? other = t.node? other := by
  simp [node?, put, Record.get?_set_of_ne h]

end FileTree
end BargeIn
