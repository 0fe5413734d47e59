import BargeIn.Classifier.Windows

/-! A ruling says why a transcript is treated as it is; what is to be done follows from
the reason. The content rules look at the tokens only: nothing said is swallowed, whatever
is said to a silent agent is answered, a command anywhere interrupts, agreement and
connectives alone are swallowed and anything else interrupts. Debouncing comes on top of
them while the agent speaks: the last decision of the current epoch, the stretch in which
the agent keeps speaking, is remembered, and one closer to it than the window is a
repetition. A call with the agent silent ends the epoch whatever its transcript. -/

namespace BargeIn

open Text (ascii listed)

/-- Discard the transcript, answer it, or cut the agent off. -/
inductive Action
  | swallow
  | respond
  | interrupt
  deriving DecidableEq

def Action.name : Action → Text
  | .swallow => ascii "SWALLOW"
  | .respond => ascii "RESPOND"
  | .interrupt => ascii "INTERRUPT"

theorem Action.name_inj {a b : Action} : a.name = b.name ↔ a = b := by
  cases a <;> cases b <;> decide

inductive Ruling
  | noTokens
  | agentSilent
  | commands (phrases : List Text)
  | passive (tokens : List Text)
  | mixed (tokens : List Text)
  | debounced (windowMs : Int)
  deriving DecidableEq

namespace Ruling

def action : Ruling → Action
  | .noTokens => .swallow
  | .agentSilent => .respond
  | .commands _ => .interrupt
  | .passive _ => .swallow
  | .mixed _ => .interrupt
  | .debounced _ => .swallow

def reason : Ruling → Text
  | .noTokens => ascii "no tokens"
  | .agentSilent => ascii "agent silent, treat as normal input"
  | .commands phrases => ascii "contains interrupt words: " ++ listed phrases
  | .passive tokens => ascii "only passive/filler words: " ++ listed tokens
  | .mixed tokens => ascii "mixed content detected: " ++ listed tokens
  | .debounced ms =>
    ascii "debounced: duplicate within " ++ Text.ofInt ms ++ ascii "ms of prior decision"

theorem action_eq_respond_iff (r : Ruling) : r.action = .respond ↔ r = .agentSilent := by
  cases r <;> simp [action]

end Ruling

inductive Debounce
  | idle
  | decided (time : Nanos)
  deriving DecidableEq

namespace Debounce

/-- Times and the window are compared as counts of nanoseconds in a word. -/
def isCooling (now : Nanos) (windowMs : Int) : Debounce → Bool
  | .idle => false
  | .decided last => elapsed last now < toWord (windowMs * 1000000)

def isIdle : Debounce → Bool
  | .idle => true
  | .decided _ => false

def last? : Debounce → Option Nanos
  | .idle => none
  | .decided time => some time

@[simp] theorem isCooling_idle (now : Nanos) (windowMs : Int) :
    isCooling now windowMs .idle = false := rfl

theorem isCooling_decided {last now : Nanos} {windowMs : Int} (hnear : InWord (now - last))
    (hwindow : InWord (windowMs * 1000000)) :
    isCooling now windowMs (.decided last) = true ↔ now - last < windowMs * 1000000 := by
  rw [isCooling, decide_eq_true_eq, elapsed_of_inWord hnear, toWord_of_inWord hwindow]

end Debounce

namespace Lexicon

def evaluate (x : Lexicon) (speaking : Bool) (ts : List Text) : Ruling :=
  if ts = [] then .noTokens
  else if speaking then
    match x.commands ts with
    | [] => if x.covers ts then .passive ts else .mixed ts
    | p :: ps => .commands (p :: ps)
  else .agentSilent

theorem evaluate_nil (x : Lexicon) (speaking : Bool) : x.evaluate speaking [] = .noTokens := rfl

theorem evaluate_silent (x : Lexicon) (ts : List Text) :
    x.evaluate false ts = if ts = [] then .noTokens else .agentSilent := by
  simp [evaluate]

theorem evaluate_ne_debounced (x : Lexicon) (speaking : Bool) (ts : List Text) (ms : Int) :
    x.evaluate speaking ts ≠ .debounced ms := by
  unfold evaluate
  split
  · simp
  · split
    · split
      · split <;> simp
      · simp
    · simp

theorem evaluate_speaking_ne_agentSilent (x : Lexicon) (ts : List Text) :
    x.evaluate true ts ≠ .agentSilent := by
  unfold evaluate
  split
  · simp
  · rw [if_pos rfl]
    split
    · split <;> simp
    · simp

def classify (x : Lexicon) (speaking : Bool) (now : Nanos) (text : Text) (d : Debounce) :
    Ruling × Debounce :=
  let ts := x.tokenize text
  let r := x.evaluate speaking ts
  if speaking then
    if ts = [] then (r, d)
    else if d.isCooling now x.debounceMs then (.debounced x.debounceMs, d)
    else (r, .decided now)
  else (r, .idle)

theorem classify_silent (x : Lexicon) (now : Nanos) (text : Text) (d : Debounce) :
    x.classify false now text d = (x.evaluate false (x.tokenize text), .idle) := rfl

theorem classify_no_tokens {x : Lexicon} {text : Text} (hn : x.tokenize text = [])
    (speaking : Bool) (now : Nanos) (d : Debounce) :
    x.classify speaking now text d = (.noTokens, if speaking then d else .idle) := by
  cases speaking <;> simp [classify, hn, evaluate_nil]

theorem classify_content {x : Lexicon} {text : Text} (hne : x.tokenize text ≠ [])
    (now : Nanos) (d : Debounce) : x.classify true now text d =
      if d.isCooling now x.debounceMs then (.debounced x.debounceMs, d)
      else (x.evaluate true (x.tokenize text), .decided now) := by
  simp [classify, hne]

theorem action_classify_silent (x : Lexicon) (now : Nanos) (text : Text) (d : Debounce) :
    (x.classify false now text d).1.action ≠ .interrupt := by
  rw [classify_silent, evaluate_silent]
  split <;> simp [Ruling.action]

theorem action_classify_speaking (x : Lexicon) (now : Nanos) (text : Text) (d : Debounce) :
    (x.classify true now text d).1.action ≠ .respond := by
  rw [ne_eq, Ruling.action_eq_respond_iff]
  by_cases hn : x.tokenize text = []
  · rw [classify_no_tokens hn]
    simp
  · rw [classify_content hn]
    split
    · simp
    · exact evaluate_speaking_ne_agentSilent x _

structure Call where
  speaking : Bool
  time : Nanos
  text : Text
  deriving DecidableEq

def classifyAll (x : Lexicon) (d : Debounce) : List Call → List Ruling × Debounce
  | [] => ([], d)
  | c :: cs =>
    let (r, d) := x.classify c.speaking c.time c.text d
    let (rs, d) := classifyAll x d cs
    (r :: rs, d)

theorem classifyAll_append (x : Lexicon) (d : Debounce) (cs ds : List Call) :
    x.classifyAll d (cs ++ ds) =
      ((x.classifyAll d cs).1 ++ (x.classifyAll (x.classifyAll d cs).2 ds).1,
        (x.classifyAll (x.classifyAll d cs).2 ds).2) := by
  induction cs generalizing d with
  | nil => rfl
  | cons c cs ih => simp [classifyAll, ih]

end Lexicon
end BargeIn
