import BargeIn.Json.Binary64
import BargeIn.Text.Order
import BargeIn.Text.Utf8

/-! A document is a JSON value. Numbers written without a fraction or an exponent
are integers, all others doubles; the fields of an object are kept in the byte
order of their keys, one value a key. -/

namespace BargeIn

inductive Json
  | null
  | bool (b : Bool)
  | integer (n : Int)
  | fraction (x : Binary64)
  | string (t : Text)
  | array (items : List Json)
  | object (fields : List (Text × Json))

namespace Json

instance : Inhabited Json := ⟨.null⟩

/-- The object with these members; of two members with one key the later counts. -/
def ofMembers (members : List (Text × Json)) : Json :=
  .object (members.foldl (fun fields m => Record.set m.1 m.2 fields) [])

def isObject : Json → Bool
  | .object _ => true
  | _ => false

def field? (key : Text) : Json → Option Json
  | .object fields => Record.get? key fields
  | _ => none

def text? : Json → Option Text
  | .string t => some t
  | _ => none

def flag? : Json → Option Bool
  | .bool b => some b
  | _ => none

/-- An integer of 64 bits as a signed word; unsigned values too large for one wrap
around. -/
def word? : Json → Option Int
  | .integer n =>
    if -(Nat.pow 2 63 : Int) ≤ n ∧ n < (Nat.pow 2 64 : Int) then some (Int.bmod n (Nat.pow 2 64))
    else none
  | _ => none

def texts : List Json → Except Json (List Text)
  | [] => .ok []
  | .string t :: items => (texts items).map (t :: ·)
  | item :: _ => .error item

def ofTexts (ts : List Text) : Json := .array (ts.map .string)

mutual

def mapText (f : Text → Text) : Json → Json
  | .null => .null
  | .bool b => .bool b
  | .integer n => .integer n
  | .fraction x => .fraction x
  | .string t => .string (f t)
  | .array items => .array (mapTexts f items)
  | .object fields => .object (mapFields f fields)

def mapTexts (f : Text → Text) : List Json → List Json
  | [] => []
  | item :: items => mapText f item :: mapTexts f items

def mapFields (f : Text → Text) : List (Text × Json) → List (Text × Json)
  | [] => []
  | (key, value) :: fields => (f key, mapText f value) :: mapFields f fields

end

mutual

def isUtf8 : Json → Bool
  | .string t => Utf8.valid t
  | .array items => areUtf8 items
  | .object fields => fieldsAreUtf8 fields
  | _ => true

def areUtf8 : List Json → Bool
  | [] => true
  | item :: items => isUtf8 item && areUtf8 items

def fieldsAreUtf8 : List (Text × Json) → Bool
  | [] => true
  | (key, value) :: fields => Utf8.valid key && isUtf8 value && fieldsAreUtf8 fields

end

end Json

/-- What the program asks of the library that reads and prints documents. The library has
words of its own for what it refuses. -/
class JsonLibrary where
  /-- The value at the front of a text. -/
  read : Text → Except Text Json
  /-- A document on one line, unless a text in it is not UTF-8. -/
  compact : Json → Except Text Text
  /-- Over several lines, unless a text in it is not UTF-8. -/
  indented : Json → Except Text Text
  /-- Over several lines, with whatever is not UTF-8 replaced. -/
  replacing : Json → Text

inductive Thrown
  /-- The library refused to print a document, with its words. -/
  | unprintable (what : Text)
  /-- What was opened for reading is a directory. -/
  | directoryRead
  deriving DecidableEq

end BargeIn
