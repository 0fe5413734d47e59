import BargeIn.Log.Entry
import BargeIn.Text.Order
import BargeIn.Text.Words

/-! Tokens are the lower-case words of a text without the punctuation at their ends; a word
of punctuation alone gives none. Punctuation inside a word stays, so that contractions and
hyphenated words are one token. A lexicon is compiled from word lists. Stop words drop out
of every phrase and every transcript; a phrase is kept when one to three words are left,
and is stored as those words with one blank between them. The lists as they were given are
stored too, because other stop words later may leave other words of them. -/

namespace BargeIn

open Text (ascii lower quoted spaced strip words)

def isEdgeMark (b : UInt8) : Bool := (ascii ".,!?;:()[]\"'").contains b

def bareWord (w : Text) : Text := strip isEdgeMark w

def tokens (t : Text) : List Text := ((words (lower t)).map bareWord).filter (· ≠ [])

@[simp] theorem tokens_nil : tokens [] = [] := rfl

/-- What a phrase is heard as: agreement, a command, or a connective. -/
inductive PhraseKind
  | ignore
  | interrupt
  | filler
  deriving DecidableEq

def PhraseKind.name : PhraseKind → Text
  | .ignore => ascii "ignore"
  | .interrupt => ascii "interrupt"
  | .filler => ascii "filler"

structure PhraseLists where
  ignore : List Text
  interrupt : List Text
  filler : List Text
  deriving DecidableEq

namespace PhraseLists

def get (p : PhraseLists) : PhraseKind → List Text
  | .ignore => p.ignore
  | .interrupt => p.interrupt
  | .filler => p.filler

def map (f : List Text → List Text) (p : PhraseLists) : PhraseLists :=
  ⟨f p.ignore, f p.interrupt, f p.filler⟩

@[simp] theorem get_map (f : List Text → List Text) (p : PhraseLists) (k : PhraseKind) :
    (p.map f).get k = f (p.get k) := by cases k <;> rfl

end PhraseLists

/-- The lists a lexicon is made from, and the time in milliseconds within which a
second decision counts as a repetition. -/
structure WordLists where
  phrases : PhraseLists
  stop : List Text
  debounceMs : Int
  deriving DecidableEq

structure Lexicon where
  sources : PhraseLists
  stopWords : List Text
  phrases : PhraseLists
  maxWords : Nat
  debounceMs : Int
  deriving DecidableEq

def isStopWord (stop : List Text) (w : Text) : Bool := stop.contains (Text.lower w)

def significant (stop : List Text) (t : Text) : List Text :=
  (tokens t).filter fun w => !isStopWord stop w

def longestPhrase : Nat := 3

def isPhrase (ws : List Text) : Bool := ws ≠ [] && ws.length ≤ longestPhrase

def keptPhrases (stop : List Text) (raws : List Text) : List (List Text) :=
  (raws.map (significant stop)).filter isPhrase

def phraseListing (stop : List Text) (raws : List Text) : List Text :=
  Listing.ofList ((keptPhrases stop raws).map spaced)

def longestOf (phrases : List (List Text)) : Nat :=
  phrases.foldr (fun ws n => max ws.length n) 1

namespace Lexicon

def ofLists (l : WordLists) : Lexicon :=
  let stop := Listing.ofList (l.stop.flatMap tokens)
  { sources := l.phrases
    stopWords := stop
    phrases := l.phrases.map (phraseListing stop)
    maxWords := longestOf
      (keptPhrases stop (l.phrases.ignore ++ l.phrases.interrupt ++ l.phrases.filler))
    debounceMs := l.debounceMs }

/-- The lists that make the same lexicon again. -/
def lists (x : Lexicon) : WordLists := ⟨x.sources, x.stopWords, x.debounceMs⟩

def tokenize (x : Lexicon) (t : Text) : List Text := significant x.stopWords t

def canonicalize (x : Lexicon) (t : Text) : Text := spaced (x.tokenize t)

def has (x : Lexicon) (k : PhraseKind) (t : Text) : Bool :=
  (x.phrases.get k).contains (x.canonicalize t)

def accepts (x : Lexicon) (t : Text) : Bool := x.has .ignore t || x.has .filler t

def overlap (x : Lexicon) : List Text :=
  x.phrases.ignore.filter x.phrases.interrupt.contains

inductive Warning
  | empty (k : PhraseKind) (raw : Text)
  | tooLong (k : PhraseKind) (raw : Text)
  | overlapping (phrase : Text)
  deriving DecidableEq

namespace Warning

def text : Warning → Text
  | .empty k raw => ascii "Dropping empty " ++ k.name ++ ascii " phrase " ++ quoted raw
  | .tooLong k raw =>
    ascii "Dropping " ++ k.name ++ ascii " phrase " ++ quoted raw ++ ascii ": longer than " ++
      Text.ofNat longestPhrase ++ ascii " words"
  | .overlapping phrase =>
    quoted phrase ++
      ascii " is both an ignore and an interrupt phrase; interrupt takes priority"

def entry (w : Warning) : LogEntry := .warn "[Lexicon] " w.text

end Warning

def entryWarning (stop : List Text) (k : PhraseKind) (raw : Text) : List Warning :=
  let ws := significant stop raw
  if ws = [] then [.empty k raw]
  else if longestPhrase < ws.length then [.tooLong k raw]
  else []

def warnings (x : Lexicon) : List Warning :=
  [PhraseKind.ignore, .interrupt, .filler].flatMap (fun k =>
    (x.sources.get k).flatMap (entryWarning x.stopWords k)) ++
  x.overlap.map .overlapping

def log (x : Lexicon) : List LogEntry := x.warnings.map (·.entry)

end Lexicon

namespace WordLists

def defaultDebounceMs : Int := 150

def englishIgnore : List Text :=
  ["yeah", "ok", "okay", "hmm", "uh-huh", "right", "yep", "mmhmm",
   "sure", "understood", "got it", "uh", "um", "ah", "yeah yeah",
   "absolutely", "definitely", "certainly", "sounds good", "i see",
   "i know", "i get it", "makes sense", "got ya", "no kidding",
   "you bet", "for sure", "all right", "alright"].map ascii

def englishInterrupt : List Text :=
  ["stop", "wait", "no", "hold", "cancel", "pause",
   "hold on", "wait wait", "one second", "one sec", "just a sec",
   "hang on", "slow down", "repeat that", "what", "sorry", "excuse me",
   "never mind", "never", "don't", "don't say that"].map ascii

def englishFiller : List Text :=
  ["but", "and", "or", "like", "you know", "i mean", "actually",
   "well", "so", "anyway", "basically", "essentially", "practically",
   "kind of", "sort of", "somehow", "somewhat", "quite", "really",
   "very", "pretty", "honestly", "seriously", "literally"].map ascii

def englishStop : List Text := ["a", "an", "the", "to", "in", "on", "at"].map ascii

def english : WordLists :=
  ⟨⟨englishIgnore, englishInterrupt, englishFiller⟩, englishStop, defaultDebounceMs⟩

end WordLists

def Lexicon.english : Lexicon := .ofLists .english

end BargeIn
