import BargeIn.Proofs.Recorder.Account
import BargeIn.Proofs.Session.Company
import BargeIn.Proofs.Session.Epochs
import Mathlib.Algebra.GroupWithZero.Nat

/-! Counters, rulings and recorded events agree. A session counts every transcript once, by
the action of the ruling that is returned for it, and a recorder without a limit holds one
decision for each of these and one event for each notice that changed a speech. So the
counters of all sessions together are those of the record. -/

namespace BargeIn

open Text (ascii)

namespace Stats

def get (s : Stats) : Action → Nat
  | .swallow => s.swallowed
  | .respond => s.responded
  | .interrupt => s.interrupted

theorem get_count (s : Stats) (a b : Action) :
    (s.count b).get a = s.get a + if b = a then 1 else 0 := by
  cases a <;> cases b <;> rfl

theorem total_count (s : Stats) (b : Action) : (s.count b).total = s.total + 1 := by
  cases b <;> simp only [total, count] <;> omega

end Stats

def SessionEvent.isTranscript : SessionEvent → Bool
  | .notice _ => false
  | .transcript _ _ => true

def SessionEvent.speaking (before : Bool) : SessionEvent → Bool
  | .notice n => n = .started
  | .transcript _ _ => before

def RecordedEvent.decides (a : Action) (e : RecordedEvent) : Bool :=
  e.type = decisionType && e.action = a.name

structure Taken where
  reading : Reading
  index : Nat
  event : SessionEvent
  ruling : Option Ruling

namespace Taken

def hears (index : Nat) (h : Taken) : Bool := h.index = index && h.event.isTranscript

def returns (index : Nat) (a : Action) (h : Taken) : Bool :=
  h.index = index && h.ruling.map (·.action) = some a

variable {i index : Nat} {r : Reading} {e : SessionEvent} {ruling : Option Ruling} {a : Action}

theorem hears_own : hears i ⟨r, i, e, ruling⟩ = e.isTranscript := by simp [hears]

theorem hears_other (hi : i ≠ index) : hears index ⟨r, i, e, ruling⟩ = false := by
  simp [hears, hi]

theorem returns_own : returns i a ⟨r, i, e, ruling⟩ = decide (ruling.map (·.action) = some a) := by
  simp [returns]

theorem returns_other (hi : i ≠ index) : returns index a ⟨r, i, e, ruling⟩ = false := by
  simp [returns, hi]

/-- What there is to record: every transcript with the ruling on it, and a notice when the
agent was not already doing what it tells. -/
def report? (speaking : Bool) (h : Taken) : Option Report :=
  match h.event with
  | .notice n =>
    if speaking = decide (n = .started) then none else some (.event (Session.noticeType n) [])
  | .transcript text _ => h.ruling.map fun r => .decision text speaking r.action.name r.reason

end Taken

/-- The record of some steps. There is a flag for each session that tells whether its agent
is speaking, and only notices to that session change it. -/
def chronicle (elapsedMs : Nanos → Int) (speaking : List Bool) : List Taken → List RecordedEvent
  | [] => []
  | h :: rest =>
    match speaking[h.index]? with
    | none => chronicle elapsedMs speaking rest
    | some flag =>
      ((h.report? flag).map (·.recorded (elapsedMs h.reading.nanos))).toList ++
        chronicle elapsedMs (speaking.set h.index (h.event.speaking flag)) rest

namespace Session

variable (x : Lexicon) (s : Session) (e : SessionEvent)

theorem ruling_notice (n : Notice) : (s.notice n).ruling = none := by
  rw [notice]
  split <;> rfl

theorem ruling_step : (s.step x e).ruling.isSome = e.isTranscript := by
  cases e with
  | notice n => simp only [step, ruling_notice, SessionEvent.isTranscript, Option.isSome_none]
  | transcript text time => rfl

theorem speaking_step :
    (s.step x e).session.speech.speaking = e.speaking s.speech.speaking := by
  cases e with
  | notice n => exact notice_speaking s n
  | transcript text time => rfl

theorem stats_step : (s.step x e).session.stats =
    (s.step x e).ruling.elim s.stats fun r => s.stats.count r.action := by
  cases e with
  | notice n => simp only [step, notice]; split <;> rfl
  | transcript text time => rfl

theorem get_step (a : Action) : (s.step x e).session.stats.get a =
    s.stats.get a + if (s.step x e).ruling.map (·.action) = some a then 1 else 0 := by
  rw [stats_step]
  cases (s.step x e).ruling with
  | none => simp
  | some r => simpa using Stats.get_count s.stats a r.action

theorem total_step : (s.step x e).session.stats.total =
    s.stats.total + if e.isTranscript then 1 else 0 := by
  rw [stats_step, ← ruling_step x s e]
  cases (s.step x e).ruling with
  | none => simp
  | some r => simpa using Stats.total_count s.stats r.action

theorem report_step (r : Reading) (index : Nat) : (s.step x e).report =
    Taken.report? s.speech.speaking ⟨r, index, e, (s.step x e).ruling⟩ := by
  cases e with
  | transcript text time => rfl
  | notice n =>
    have hchanges := changes_iff s.speech n
    simp only [step, report_notice, Taken.report?]
    by_cases h : s.speech.speaking = decide (n = .started) <;> simp_all

theorem decides_step (a : Action) (elapsedMs : Int) :
    (((s.step x e).report.map (·.recorded elapsedMs)).toList.countP (·.decides a)) =
      if (s.step x e).ruling.map (·.action) = some a then 1 else 0 := by
  cases e with
  | notice n =>
    have htype : decide (noticeType n = decisionType) = false := by cases n <;> decide
    simp only [step, report_notice, ruling_notice]
    split <;> simp [Report.recorded, RecordedEvent.decides, htype]
  | transcript text time =>
    simp [step, transcript, Report.recorded, RecordedEvent.decides, Action.name_inj,
      List.countP_cons]

end Session

namespace Recorder

variable {x y z : Recorder} {told more : List RecordedEvent}

structure Gains (x : Recorder) (more : List RecordedEvent) (y : Recorder) : Prop where
  same : x.SameSession y
  events : y.events = x.events ++ more
  dropped : y.dropped = x.dropped

theorem Gains.refl (x : Recorder) : x.Gains [] x := ⟨.refl x, by simp, rfl⟩

theorem Gains.trans (h : x.Gains told y) (h' : y.Gains more z) : x.Gains (told ++ more) z where
  same := h.same.trans h'.same
  events := by rw [h'.events, h.events, List.append_assoc]
  dropped := h'.dropped.trans h.dropped

theorem gains_record (hactive : x.active = true) (hmax : x.maxEvents = 0) (now : Nanos)
    (what : Report) : x.Gains [what.recorded (x.elapsedMs now)] (x.record now what).1 := by
  have hroom : x.isFull = false := by simp [isFull, hmax]
  refine ⟨sameSession_record now what x, ?_, ?_⟩ <;>
    simp [record_active hactive, push, hroom]

end Recorder

namespace Room

variable {x : Lexicon} {room : Room} {index : Nat} {s : Session} {y : Recorder}

def spoken (room : Room) : List Bool := room.sessions.map (·.speech.speaking)

theorem recorder_step (x : Lexicon) (r : Reading) (e : SessionEvent)
    (hy : room.recorder = some y) (hs : room.sessions[index]? = some s)
    (hactive : y.active = true) (hmax : y.maxEvents = 0) :
    ∃ z, (room.step x r index e).1.recorder = some z ∧
      y.Gains ((s.step x e).report.map (·.recorded (y.elapsedMs r.nanos))).toList z := by
  simp only [step, hs]
  cases (s.step x e).report with
  | none => exact ⟨y, by simp [tell, hy], .refl y⟩
  | some report => exact ⟨_, by simp [tell, hy], Recorder.gains_record hactive hmax r.nanos report⟩

theorem spoken_step (x : Lexicon) (r : Reading) (e : SessionEvent)
    (hs : room.sessions[index]? = some s) : (room.step x r index e).1.spoken =
      room.spoken.set index (e.speaking s.speech.speaking) := by
  simp only [spoken, (sessions_step x r e hs).1, List.map_set, Session.speaking_step]

def chosen (a : Action) (room : Room) : Nat := (room.sessions.map (·.stats.get a)).sum

theorem sum_map_set {α : Type} {f : α → Nat} {l : List α} {i : Nat} {a : α}
    (h : l[i]? = some a) (b : α) : ((l.set i b).map f).sum + f a = (l.map f).sum + f b := by
  induction l generalizing i with
  | nil => simp at h
  | cons c l ih =>
    cases i with
    | zero =>
      have hc : c = a := by simpa using h
      simp only [hc, List.set_cons_zero, List.map_cons, List.sum_cons]
      omega
    | succ i =>
      have hrest := ih (i := i) (by simpa using h)
      simp only [List.set_cons_succ, List.map_cons, List.sum_cons]
      omega

theorem chosen_step (x : Lexicon) (r : Reading) (e : SessionEvent) (a : Action)
    (hs : room.sessions[index]? = some s) : (room.step x r index e).1.chosen a =
      room.chosen a + if (s.step x e).ruling.map (·.action) = some a then 1 else 0 := by
  have hsum := sum_map_set (f := (·.stats.get a)) hs (s.step x e).session
  have hget := Session.get_step x s e a
  simp only [chosen, (sessions_step x r e hs).1]
  omega

def taken (x : Lexicon) (room : Room) (steps : List (Reading × Nat × SessionEvent)) :
    List Taken :=
  List.zipWith (fun step ruling => ⟨step.1, step.2.1, step.2.2, ruling⟩) steps
    (room.run x steps).2

theorem taken_cons (x : Lexicon) (room : Room) (r : Reading) (i : Nat) (e : SessionEvent)
    (steps : List (Reading × Nat × SessionEvent)) : room.taken x ((r, i, e) :: steps) =
      ⟨r, i, e, (room.step x r i e).2⟩ :: (room.step x r i e).1.taken x steps := rfl

theorem run_stats (x : Lexicon) (steps : List (Reading × Nat × SessionEvent))
    (hs : room.sessions[index]? = some s) :
    ∃ last, (room.run x steps).1.sessions[index]? = some last ∧
      last.stats.total = s.stats.total + (room.taken x steps).countP (·.hears index) ∧
      ∀ a, last.stats.get a = s.stats.get a + (room.taken x steps).countP (·.returns index a) := by
  induction steps generalizing room s with
  | nil => exact ⟨s, hs, by simp [taken, run]⟩
  | cons step steps ih =>
    obtain ⟨r, i, e⟩ := step
    by_cases hi : i = index
    · subst hi
      obtain ⟨last, hlast, htotal, hget⟩ := ih (step_own x r e hs)
      refine ⟨last, hlast, ?_, fun a => ?_⟩
      · have hone := Session.total_step x s e
        rw [taken_cons, List.countP_cons, Taken.hears_own]
        omega
      · have hone := Session.get_step x s e a
        have hall := hget a
        rw [taken_cons, List.countP_cons, Taken.returns_own, (sessions_step x r e hs).2]
        simp only [decide_eq_true_eq]
        omega
    · obtain ⟨last, hlast, htotal, hget⟩ := ih ((step_other x r e hi).trans hs)
      refine ⟨last, hlast, ?_, fun a => ?_⟩
      · simp [taken_cons, Taken.hears_other hi, htotal]
      · simp [taken_cons, Taken.returns_other hi, hget a]

theorem chronicle_cons (x : Lexicon) (elapsedMs : Nanos → Int) (r : Reading) (e : SessionEvent)
    (rest : List Taken) (hs : room.sessions[index]? = some s) :
    chronicle elapsedMs room.spoken (⟨r, index, e, (room.step x r index e).2⟩ :: rest) =
      ((s.step x e).report.map (·.recorded (elapsedMs r.nanos))).toList ++
        chronicle elapsedMs (room.step x r index e).1.spoken rest := by
  have hflag : room.spoken[index]? = some s.speech.speaking := by simp [spoken, hs]
  rw [chronicle, hflag, spoken_step x r e hs, (sessions_step x r e hs).2,
    Session.report_step x s e r index]

theorem chronicle_cons_none (elapsedMs : Nanos → Int) (r : Reading) (e : SessionEvent)
    (ruling : Option Ruling) (rest : List Taken) (hs : room.sessions[index]? = none) :
    chronicle elapsedMs room.spoken (⟨r, index, e, ruling⟩ :: rest) =
      chronicle elapsedMs room.spoken rest := by
  have hflag : room.spoken[index]? = none := by simpa [spoken] using hs
  rw [chronicle, hflag]

theorem run_recorder (x : Lexicon) (steps : List (Reading × Nat × SessionEvent))
    (hy : room.recorder = some y) (hactive : y.active = true) (hmax : y.maxEvents = 0) :
    ∃ z, (room.run x steps).1.recorder = some z ∧
      y.Gains (chronicle y.elapsedMs room.spoken (room.taken x steps)) z := by
  induction steps generalizing room y with
  | nil => exact ⟨y, hy, .refl y⟩
  | cons step steps ih =>
    obtain ⟨r, i, e⟩ := step
    rw [taken_cons]
    cases hs : room.sessions[i]? with
    | none =>
      have hsame : (room.step x r i e).1 = room := by rw [sessions_step_none x r e hs]
      obtain ⟨z, hz, hgains⟩ := ih (hsame.symm ▸ hy) hactive hmax
      refine ⟨z, hz, ?_⟩
      rw [chronicle_cons_none y.elapsedMs r e _ _ hs]
      simpa only [hsame] using hgains
    | some s =>
      obtain ⟨z, hz, hgain⟩ := recorder_step x r e hy hs hactive hmax
      obtain ⟨w, hw, hgains⟩ :=
        ih hz (hgain.same.active.trans hactive) (hgain.same.maxEvents.trans hmax)
      refine ⟨w, hw, ?_⟩
      rw [hgain.same.elapsedMs] at hgains
      rw [chronicle_cons x y.elapsedMs r e _ hs]
      exact hgain.trans hgains

theorem run_chosen (x : Lexicon) (room : Room) (elapsedMs : Nanos → Int)
    (steps : List (Reading × Nat × SessionEvent)) (a : Action) :
    (room.run x steps).1.chosen a = room.chosen a +
      (chronicle elapsedMs room.spoken (room.taken x steps)).countP (·.decides a) := by
  induction steps generalizing room with
  | nil => simp [run, taken, chronicle]
  | cons step steps ih =>
    obtain ⟨r, i, e⟩ := step
    have hlast : (room.run x ((r, i, e) :: steps)).1 = ((room.step x r i e).1.run x steps).1 := rfl
    rw [hlast, ih, taken_cons]
    cases hs : room.sessions[i]? with
    | none =>
      rw [chronicle_cons_none elapsedMs r e _ _ hs, sessions_step_none x r e hs]
    | some s =>
      rw [chronicle_cons x elapsedMs r e _ hs, chosen_step x r e a hs, List.countP_append,
        Session.decides_step, Nat.add_assoc]

theorem length_run (x : Lexicon) (room : Room) (steps : List (Reading × Nat × SessionEvent)) :
    (room.run x steps).1.sessions.length = room.sessions.length ∧
      (room.taken x steps).length = steps.length := by
  induction steps generalizing room with
  | nil => exact ⟨rfl, rfl⟩
  | cons step steps ih =>
    obtain ⟨r, i, e⟩ := step
    obtain ⟨hsessions, htaken⟩ := ih (room.step x r i e).1
    refine ⟨hsessions.trans ?_, by rw [taken_cons, List.length_cons, htaken, List.length_cons]⟩
    cases hs : room.sessions[i]? with
    | none => rw [sessions_step_none x r e hs]
    | some s => rw [(sessions_step x r e hs).1, List.length_set]

theorem chosen_ofId (host : Host) (ids : List Text) (recorder : Option Recorder) (a : Action) :
    chosen a ⟨host, ids.map .ofId, recorder⟩ = 0 := by
  induction ids with
  | nil => rfl
  | cons id ids ih =>
    have hfirst : (Session.ofId id).stats.get a = 0 := by cases a <;> rfl
    simpa [chosen, hfirst] using ih

/-- However the steps of some sessions follow each other, each session has counted the
transcripts that it was handed, by the actions that it returned. A recorder that was open
before the first step and has no limit holds a decision for every transcript and an event
for every notice that changed a speech, in the order of the steps; so the decisions with an
action are as many as all sessions have counted. -/
theorem decisions_conserved (x : Lexicon) (ids : List Text) (host : Host)
    (recorder : Option Recorder) (steps : List (Reading × Nat × SessionEvent)) :
    let room : Room := ⟨host, ids.map .ofId, recorder⟩
    let last := (room.run x steps).1
    let taken := room.taken x steps
    last.sessions.length = ids.length ∧ taken.length = steps.length ∧
    (∀ index s, last.sessions[index]? = some s →
      s.stats.total = taken.countP (·.hears index) ∧
      s.stats.swallowed = taken.countP (·.returns index .swallow) ∧
      s.stats.responded = taken.countP (·.returns index .respond) ∧
      s.stats.interrupted = taken.countP (·.returns index .interrupt)) ∧
    ∀ y, recorder = some y → y.active = true → y.maxEvents = 0 →
      ∃ z, last.recorder = some z ∧ z.active = true ∧ z.dropped = y.dropped ∧
        z.events = y.events ++ chronicle y.elapsedMs (ids.map fun _ => false) taken ∧
        ∀ a, z.events.countP (·.decides a) = y.events.countP (·.decides a) +
          (last.sessions.map (·.stats.get a)).sum := by
  intro room last taken
  obtain ⟨hlength, htaken⟩ := length_run x room steps
  refine ⟨by simpa [room] using hlength, htaken, fun index s hs => ?_,
    fun y hy hactive hmax => ?_⟩
  · have hindex : index < ids.length := by
      have hlt := (List.getElem?_eq_some_iff.1 hs).1
      rw [hlength] at hlt
      simpa [room] using hlt
    have hfirst : room.sessions[index]? = some (.ofId ids[index]) := by simp [room, hindex]
    obtain ⟨s', hs', htotal, hget⟩ := run_stats x steps hfirst
    have hsame : s' = s := Option.some.inj (hs'.symm.trans hs)
    subst hsame
    have hnone (a : Action) : (Session.ofId ids[index]).stats.get a = 0 := by cases a <;> rfl
    refine ⟨htotal.trans (Nat.zero_add _), ?_, ?_, ?_⟩
    · exact (hget .swallow).trans (Nat.zero_add _)
    · exact (hget .respond).trans (Nat.zero_add _)
    · exact (hget .interrupt).trans (Nat.zero_add _)
  · have hspoken : room.spoken = ids.map fun _ => false := List.map_map
    have hroom : room.recorder = some y := hy
    obtain ⟨z, hz, hgains⟩ := run_recorder x steps hroom hactive hmax
    have hevents := hspoken ▸ hgains.events
    refine ⟨z, hz, hgains.same.active.trans hactive, hgains.dropped, hevents, fun a => ?_⟩
    have hchosen := run_chosen x room y.elapsedMs steps a
    rw [chosen_ofId, Nat.zero_add] at hchosen
    have hsum : (last.sessions.map (·.stats.get a)).sum = _ := hchosen
    rw [hgains.events, List.countP_append, hsum]

theorem decisions_conserved_debounced :
    let x := Lexicon.ofLists ⟨⟨[], [ascii "stop"], []⟩, [], 150⟩
    let moment : Int → Reading := fun ms => ⟨1000000 * ms, ⟨2025, 1, 1, 12, 0, 0, 0⟩⟩
    let y := (Recorder.ofDir (ascii "rec") 0).opened (ascii "20250101_120000") 0
    let room : Room :=
      ⟨⟨⟨[], .root⟩, none, .off, .empty, .empty⟩, [ascii "a", ascii "b"].map .ofId, some y⟩
    let steps : List (Reading × Nat × SessionEvent) := [(moment 1, 0, .notice .started),
      (moment 2, 0, .transcript (ascii "stop") 0), (moment 3, 1, .transcript (ascii "Stop!") 0),
      (moment 4, 0, .notice .started), (moment 5, 0, .transcript (ascii "stop") 1)]
    let last := (room.run x steps).1
    y.active = true ∧ y.maxEvents = 0 ∧ last.sessions.map (·.stats) = [⟨1, 0, 1⟩, ⟨0, 1, 0⟩] ∧
      ∃ z, last.recorder = some z ∧ z.events =
        [⟨1, ascii "agent_speech_started", [], false, [], []⟩,
          ⟨2, decisionType, ascii "stop", true, ascii "INTERRUPT",
            ascii "contains interrupt words: stop"⟩,
          ⟨3, decisionType, ascii "Stop!", false, ascii "RESPOND",
            ascii "agent silent, treat as normal input"⟩,
          ⟨5, decisionType, ascii "stop", true, ascii "SWALLOW",
            ascii "debounced: duplicate within 150ms of prior decision"⟩] := by
  intro x moment y room steps last
  obtain ⟨-, -, -, hrecord⟩ := decisions_conserved x [ascii "a", ascii "b"]
    ⟨⟨[], .root⟩, none, .off, .empty, .empty⟩ (some y) steps
  obtain ⟨z, hz, -, -, hevents, -⟩ := hrecord y rfl rfl rfl
  exact ⟨rfl, rfl, by decide +kernel, z, hz, hevents.trans (by decide +kernel)⟩

end Room
end BargeIn
