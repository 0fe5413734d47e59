import BargeIn.Text.Words

/-! Paths as users write them: a tilde at the front stands for the home directory,
and a relative path in a configuration is taken from the directory of the file
that holds it. -/

namespace BargeIn.Path

open Text (byte ascii)

def slash : UInt8 := byte '/'

def tilde : UInt8 := byte '~'

def expand (home : Option Text) (path : Text) : Text :=
  match path with
  | [] => []
  | b :: rest =>
    if b = tilde ∧ (rest = [] ∨ rest.head? = some slash) then
      match home with
      | some h => h ++ rest
      | none => path
    else path

def inside (dir name : Text) : Text :=
  if dir = [] ∨ dir.getLast? = some slash then dir ++ name else dir ++ slash :: name

/-- What a path means when it is written in a file of the given directory. -/
def resolve (home : Option Text) (dir path : Text) : Text :=
  match path with
  | [] => []
  | b :: _ => if b = slash ∨ b = tilde then expand home path else inside dir path

def parent (path : Text) : Text :=
  let dir := (path.reverse.dropWhile (· != slash)).reverse
  match dir.dropLast with
  | [] => dir
  | d => d

def pieces : Text → List Text
  | [] => [[]]
  | b :: t =>
    if b = slash then [] :: pieces t
    else match pieces t with
      | [] => [[b]]
      | p :: ps => (b :: p) :: ps

def isAbsolute (path : Text) : Bool := path.head? = some slash

/-- The path and the paths of the directories it runs through, the path itself
first, down to the first name. Each is the path cut behind one of its names, so
repeated slashes between names stay. -/
def lineage (path : Text) : List Text :=
  let names := pieces path
  let ends := (List.range names.length).filter fun n => names[n]? ≠ some []
  (ends.map fun n => Text.join [slash] (names.take (n + 1))).reverse

def name (path : Text) : Text := ((pieces path).filter (· ≠ [])).getLastD []

def isStep (name : Text) : Bool := name = ascii "." || name = ascii ".."

theorem expand_of_not_tilde {home : Option Text} {path : Text}
    (h : path.head? ≠ some tilde) : expand home path = path := by
  cases path with
  | nil => rfl
  | cons b rest =>
    have hb : b ≠ tilde := by simpa using h
    simp [expand, hb]

end BargeIn.Path
