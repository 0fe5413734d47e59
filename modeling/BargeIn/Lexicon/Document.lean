import BargeIn.Json.Value
import BargeIn.Lexicon.Basic

/-! A lexicon document is an object that replaces some word lists and keeps the
others. It is accepted whole or not at all; its keys are looked at in a fixed
order and the first bad one is reported. -/

namespace BargeIn

open Text (ascii)

inductive LexiconFault
  | notObject
  | notList (key : Text)
  | notText (key : Text) (entry : Json)
  | notInteger
  | negative (ms : Int)

namespace LexiconFault

def kind : LexiconFault → FaultKind
  | .negative _ => .invalidConfig
  | _ => .parse

/-- The message shows the entry that is no string, and printing that may throw. -/
def message [JsonLibrary] : LexiconFault → Except Thrown Text
  | .notObject => .ok (ascii "lexicon must be a JSON object")
  | .notList key => .ok (ascii "lexicon." ++ key ++ ascii " must be an array of strings")
  | .notText key entry =>
    match JsonLibrary.compact entry with
    | .ok shown => .ok (ascii "lexicon." ++ key ++ ascii " contains a non-string entry: " ++ shown)
    | .error what => .error (.unprintable what)
  | .notInteger => .ok (ascii "lexicon.debounce_ms must be an integer")
  | .negative ms =>
    .ok (ascii "lexicon.debounce_ms must not be negative (got " ++ Text.ofInt ms ++ ascii ")")

def report [JsonLibrary] (f : LexiconFault) : Except Thrown Fault :=
  f.message.map fun message => ⟨f.kind, message⟩

end LexiconFault

def listUnder (key : Text) (absent : List Text) (doc : Json) :
    Except LexiconFault (List Text) :=
  match doc.field? key with
  | none => .ok absent
  | some (.array items) =>
    match Json.texts items with
    | .ok ts => .ok ts
    | .error entry => .error (.notText key entry)
  | some _ => .error (.notList key)

def debounceUnder (absent : Int) (doc : Json) : Except LexiconFault Int :=
  match doc.field? (ascii "debounce_ms") with
  | none => .ok absent
  | some j =>
    match j.word? with
    | none => .error .notInteger
    | some ms => if ms < 0 then .error (.negative ms) else .ok ms

def WordLists.override (doc : Json) (base : WordLists) : Except LexiconFault WordLists :=
  if doc.isObject then do
    let ignore ← listUnder (ascii "ignore_phrases") base.phrases.ignore doc
    let interrupt ← listUnder (ascii "interrupt_phrases") base.phrases.interrupt doc
    let filler ← listUnder (ascii "filler_phrases") base.phrases.filler doc
    let stop ← listUnder (ascii "stop_words") base.stop doc
    let debounceMs ← debounceUnder base.debounceMs doc
    return ⟨⟨ignore, interrupt, filler⟩, stop, debounceMs⟩
  else .error .notObject

namespace Lexicon

def ofDocument (doc : Json) (base : Lexicon) : Except LexiconFault Lexicon :=
  (base.lists.override doc).map ofLists

/-- What comes back: a lexicon or the report of a fault, unless reporting throws. -/
def ofJson [JsonLibrary] (doc : Json) (base : Lexicon) : Except Thrown (Except Fault Lexicon) :=
  match ofDocument doc base with
  | .ok x => .ok (.ok x)
  | .error f => f.report.map .error

def document (x : Lexicon) : Json :=
  .ofMembers
    [(ascii "ignore_phrases", .ofTexts x.phrases.ignore),
     (ascii "interrupt_phrases", .ofTexts x.phrases.interrupt),
     (ascii "filler_phrases", .ofTexts x.phrases.filler),
     (ascii "stop_words", .ofTexts x.stopWords),
     (ascii "debounce_ms", .integer x.debounceMs)]

end Lexicon
end BargeIn
