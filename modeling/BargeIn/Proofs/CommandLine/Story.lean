import BargeIn.CommandLine.Console
import BargeIn.Proofs.Classifier.Reasons
import BargeIn.Proofs.Log.Host
import BargeIn.Proofs.Recorder.Sessions
import BargeIn.Proofs.Session.Epochs

/-! What the console prints and what its recorder is told are one story. Both are
told from the lines that were read: the printed line that answers a transcript has
the action and the reason of the decision that is recorded for it, and a command is
recorded when it changes what the agent is doing. -/

namespace BargeIn

open Text (ascii byte)

def tab : UInt8 := byte '\t'

namespace Command

def speechAfter (speaking : Bool) : Command → Bool
  | .speak => true
  | .silent => false
  | .stats | .quit | .transcript _ => speaking

/-- What there is to record of a command and the line printed for it, which has an
action before its first tab and a reason behind it. -/
def report? (speaking : Bool) (answer : Text) : Command → Option Report
  | .speak => if speaking then none else some (.event (ascii "agent_speech_started") [])
  | .silent => if speaking then some (.event (ascii "agent_speech_finished") []) else none
  | .transcript line => some (.decision line speaking (answer.takeWhile (· != tab))
      ((answer.dropWhile (· != tab)).drop 1))
  | .stats | .quit => none

end Command

/-- The events to be recorded of lines and the lines printed for them, at the times
given. -/
def story (elapsedMs : Nat → Int) (speaking : Bool) : List (Text × Text) → List RecordedEvent
  | [] => []
  | (line, answer) :: rest =>
    ((Command.report? speaking answer (.ofLine line)).map (·.recorded (elapsedMs 0))).toList ++
      story (fun n => elapsedMs (n + 1)) (Command.speechAfter speaking (.ofLine line)) rest

namespace Console

variable {s : Recorder} {base : Host} {told : List RecordedEvent} {e : Session}
  {printed : List Text} {c : Console}

structure Running (s : Recorder) (base : Host) (told : List RecordedEvent) (e : Session)
    (printed : List Text) (c : Console) : Prop where
  active : s.active = true
  host : base.Prints (Text.written printed) c.room.host
  sessions : c.room.sessions = [e]
  recorder : ∃ x, c.room.recorder = some x ∧ s.SameSession x ∧ x.Holds told
  oneLine : ∀ l ∈ printed, (10 : UInt8) ∉ l

theorem Running.log (h : Running s base told e printed c) (r : Reading) (entry : LogEntry) :
    Running s base told e printed (c.log r entry) :=
  { h with host := h.host.logs (Host.logs_log _ r entry) }

theorem Running.print (h : Running s base told e printed c) {line : Text}
    (hline : (10 : UInt8) ∉ line) :
    Running s base told e (printed ++ [line]) (c.print line) :=
  { h with
    host := by
      rw [Text.written_concat]
      exact h.host.print _
    oneLine := fun l hl => by
      rcases List.mem_append.1 hl with hl | hl
      · exact h.oneLine l hl
      · rw [List.mem_singleton.1 hl]
        exact hline }

theorem take_eq {x : Recorder} (hs : c.room.sessions = [e]) (hx : c.room.recorder = some x)
    (r : Reading) (event : SessionEvent) :
    let o := e.step c.lexicon event
    c.take r event = (⟨c.lexicon, Room.tell r o.report
      ⟨c.room.host.logAll r o.log, [o.session], some x⟩⟩, o.ruling) := by
  obtain ⟨lexicon, ⟨host, sessions, recorder⟩⟩ := c
  subst hs hx
  rfl

theorem tell_some (r : Reading) (report : Report) (host : Host) (ss : List Session)
    (x : Recorder) : Room.tell r (some report) ⟨host, ss, some x⟩ =
      ⟨host.logAll r (x.record r.nanos report).2, ss, some (x.record r.nanos report).1⟩ := rfl

theorem Running.take (h : Running s base told e printed c) (r : Reading) (event : SessionEvent) :
    Running s base
      (told ++ ((e.step c.lexicon event).report.map (·.recorded (s.elapsedMs r.nanos))).toList)
      (e.step c.lexicon event).session printed (c.take r event).1 := by
  obtain ⟨x, hx, hsame, hholds⟩ := h.recorder
  have hlogged := h.host.logs (Host.logs_logAll c.room.host r (e.step c.lexicon event).log)
  rw [take_eq h.sessions hx]
  cases (e.step c.lexicon event).report with
  | none =>
    rw [Option.map_none, Option.toList_none, List.append_nil]
    exact ⟨h.active, hlogged, rfl, ⟨x, rfl, hsame, hholds⟩, h.oneLine⟩
  | some report =>
    have hactive : x.active = true := hsame.active.trans h.active
    have hrecord : x.record r.nanos report =
        (x.push (report.recorded (s.elapsedMs r.nanos)), x.pushLog) := by
      rw [Recorder.record, if_pos hactive, hsame.elapsedMs]
    have hsame' := hsame.trans (Recorder.sameSession_record r.nanos report x)
    have hholds' := hholds.push (report.recorded (s.elapsedMs r.nanos))
    rw [hrecord] at hsame'
    rw [tell_some, hrecord]
    exact ⟨h.active, hlogged.logs (Host.logs_logAll _ r _), rfl, ⟨_, rfl, hsame', hholds'⟩,
      h.oneLine⟩

theorem take_ruling (hs : c.room.sessions = [e]) (r : Reading) (event : SessionEvent) :
    (c.take r event).2 = (e.step c.lexicon event).ruling := by
  obtain ⟨lexicon, ⟨host, sessions, recorder⟩⟩ := c
  subst hs
  rfl

theorem answer_transcript (hs : c.room.sessions = [e]) (r : Reading) (line : Text) :
    c.answer r (.transcript line) = (c.take r (.transcript line r.nanos)).1.print
      (rulingLine (c.lexicon.classify e.speech.speaking r.nanos line e.debounce).1) := by
  have hruling : (c.take r (.transcript line r.nanos)).2 =
      some (c.lexicon.classify e.speech.speaking r.nanos line e.debounce).1 := take_ruling hs r _
  rw [Console.answer]
  dsimp only
  rw [hruling]

theorem oneLine_name (a : Action) : Text.OneLine a.name ∧ tab ∉ a.name := by
  cases a <;> decide

theorem rulingLine_parts (a : Action) (reason : Text) :
    (a.name ++ tab :: reason).takeWhile (· != tab) = a.name ∧
      ((a.name ++ tab :: reason).dropWhile (· != tab)).drop 1 = reason := by
  -- a reason may quote anything, but the first tab is the one behind the name
  have hname : ∀ b ∈ a.name, (b != tab) = true := fun b hb => by
    rw [bne_iff_ne]
    exact fun he => (oneLine_name a).2 (he ▸ hb)
  have htab : ¬ (tab != tab) = true := by decide
  rw [List.takeWhile_append_of_pos hname, List.dropWhile_append_of_pos hname,
    List.takeWhile_cons, if_neg htab, List.dropWhile_cons, if_neg htab, List.append_nil]
  exact ⟨rfl, rfl⟩

theorem rulingLine_noLineEnd {ruling : Ruling} (h : Text.OneLine ruling.reason) :
    (10 : UInt8) ∉ rulingLine ruling := by
  have hline : rulingLine ruling = ruling.action.name ++ tab :: ruling.reason := rfl
  rw [hline, List.mem_append, List.mem_cons, not_or, not_or]
  exact ⟨(oneLine_name ruling.action).1.noLineEnd, by decide, h.noLineEnd⟩

theorem statsLine_oneLine (stats : Stats) : Text.OneLine (statsLine stats) := by
  have hswallowed : Text.OneLine (ascii "# swallowed=") := by decide
  have hresponded : Text.OneLine (ascii " responded=") := by decide
  have hinterrupted : Text.OneLine (ascii " interrupted=") := by decide
  have htotal : Text.OneLine (ascii " total=") := by decide
  rw [statsLine]
  exact ((((((hswallowed.append (Text.oneLine_ofNat _)).append hresponded).append
    (Text.oneLine_ofNat _)).append hinterrupted).append (Text.oneLine_ofNat _)).append
    htotal).append (Text.oneLine_ofNat _)

theorem report?_notice (e : Session) (answer : Text) :
    Command.report? e.speech.speaking answer .speak = (e.notice .started).report ∧
      Command.report? e.speech.speaking answer .silent = (e.notice .finished).report := by
  have hstarted : e.speech.changes .started = !e.speech.speaking := rfl
  have hfinished : e.speech.changes .finished = e.speech.speaking := rfl
  rw [Session.report_notice, Session.report_notice, hstarted, hfinished]
  cases e.speech.speaking <;> exact ⟨rfl, rfl⟩

theorem Running.transcript (h : Running s base told e printed c) (r : Reading) (line : Text) :
    ∃ answer, Running s base
      (told ++ ((Command.report? e.speech.speaking answer (.transcript line)).map
        (·.recorded (s.elapsedMs r.nanos))).toList)
      (e.step c.lexicon (.transcript line r.nanos)).session (printed ++ [answer])
      (c.answer r (.transcript line)) := by
  have htake := h.take r (.transcript line r.nanos)
  rw [answer_transcript h.sessions]
  generalize hclassify : (c.lexicon.classify e.speech.speaking r.nanos line e.debounce).1 = ruling
  have hone := Lexicon.oneLine_reason c.lexicon e.speech.speaking r.nanos line e.debounce
  rw [hclassify] at hone
  have hreport : (e.step c.lexicon (.transcript line r.nanos)).report =
      some (.decision line e.speech.speaking ruling.action.name ruling.reason) := by
    rw [← hclassify]
    rfl
  obtain ⟨haction, hreason⟩ := rulingLine_parts ruling.action ruling.reason
  change (rulingLine ruling).takeWhile _ = _ at haction
  change ((rulingLine ruling).dropWhile _).drop 1 = _ at hreason
  refine ⟨rulingLine ruling, ?_⟩
  rw [Command.report?, haction, hreason, ← hreport]
  exact htake.print (rulingLine_noLineEnd hone)

theorem Running.answer (h : Running s base told e printed c) (r : Reading) {command : Command}
    (hstays : command ≠ .quit) :
    ∃ line e', e'.speech.speaking = command.speechAfter e.speech.speaking ∧
      Running s base
        (told ++ ((command.report? e.speech.speaking line).map
          (·.recorded (s.elapsedMs r.nanos))).toList)
        e' (printed ++ [line]) (c.answer r command) := by
  cases command with
  | speak =>
    refine ⟨ascii "# agent speaking", (e.notice .started).session,
      Session.notice_speaking e .started, ?_⟩
    rw [(report?_notice e _).1]
    exact (h.take r (.notice .started)).print (by decide)
  | silent =>
    refine ⟨ascii "# agent silent", (e.notice .finished).session,
      Session.notice_speaking e .finished, ?_⟩
    rw [(report?_notice e _).2]
    exact (h.take r (.notice .finished)).print (by decide)
  | stats =>
    have hline := (statsLine_oneLine c.session.stats).noLineEnd
    refine ⟨statsLine c.session.stats, e, rfl, ?_⟩
    rw [Command.report?, Option.map_none, Option.toList_none, List.append_nil]
    exact h.print hline
  | quit => exact absurd rfl hstays
  | transcript line =>
    obtain ⟨answer, hanswered⟩ := h.transcript r line
    exact ⟨answer, (e.step c.lexicon (.transcript line r.nanos)).session, rfl, hanswered⟩

theorem Running.answerAll (h : Running s base told e printed c) (clock : Nat → Reading)
    {lines : List Text} (hstay : ∀ line ∈ lines, quits line = false) :
    ∃ answers e', answers.length = lines.length ∧
      Running s base (told ++ story (fun n => s.elapsedMs (clock n).nanos) e.speech.speaking
        (lines.zip answers)) e' (printed ++ answers) (c.answerAll clock lines) := by
  induction lines generalizing told e printed c clock with
  | nil =>
    refine ⟨[], e, rfl, ?_⟩
    rw [List.zip_nil_left, story, List.append_nil, List.append_nil]
    exact h
  | cons line lines ih =>
    have hquit : Command.ofLine line ≠ .quit := by
      have hline := hstay line List.mem_cons_self
      rw [quits, decide_eq_false_iff_not] at hline
      exact hline
    obtain ⟨answer, e₁, hspeaking, h₁⟩ := h.answer (clock 0) hquit
    obtain ⟨answers, e₂, hlength, h₂⟩ := ih h₁ (fun n => clock (n + 1))
      fun l hl => hstay l (List.mem_cons_of_mem line hl)
    refine ⟨answer :: answers, e₂, by rw [List.length_cons, hlength, List.length_cons], ?_⟩
    rw [hspeaking, List.append_assoc, List.append_assoc, List.singleton_append] at h₂
    rw [List.zip_cons_cons, story]
    exact h₂

theorem openRecorder_eq {r : Reading} {config : Config} {host : Host} {o : Recorder.Outcome}
    (hon : config.recording.enabled = true)
    (ho : (Recorder.ofDir config.recording.dir config.recording.maxEvents).start r host.files = o)
    (hopen : o.fault = none) :
    openRecorder r config host = some (({ host with files := o.files } : Host).logAll r o.log,
      some ((o.recorder.setMetadata (ascii "config")
        (if config.source = [] then ascii "defaults" else config.source)).setMetadata
          (ascii "debounce_ms") (Text.ofInt config.lexicon.debounceMs))) := by
  rw [openRecorder, if_pos hon, Room.withRecorder, ho]
  dsimp only
  rw [hopen]

theorem running_start {r : Reading} {config : Config} {host : Host} {o : Recorder.Outcome}
    (hon : config.recording.enabled = true) (hdir : config.recording.dir ≠ [])
    (ho : (Recorder.ofDir config.recording.dir config.recording.maxEvents).start r host.files = o)
    (hopen : o.fault = none) :
    ∃ c, start? r config host = some c ∧
      Running o.recorder { host with files := o.files } [] (.ofId sessionId) [] c := by
  have hopened : Recorder.Opened o.files o.recorder :=
    ho ▸ Recorder.start_opened hdir (ho ▸ hopen)
  have hlogs := (Host.logs_logAll { host with files := o.files } r o.log).trans
    (Host.logs_logAll _ r [(Session.ofId sessionId).created])
  rw [start?, openRecorder_eq hon ho hopen]
  refine ⟨_, rfl, Running.log ⟨hopened.active, (Host.Prints.refl _).logs hlogs, rfl,
    ⟨_, rfl, ?_, ?_⟩, fun l hl => by cases hl⟩ r _⟩
  · exact (Recorder.sameSession_setMetadata _ _ _).trans (Recorder.sameSession_setMetadata _ _ _)
  · exact (hopened.holds.setMetadata _ _).setMetadata _ _

section

variable [JsonLibrary]

/-- How a console is left: over these files its recorder, as it was then, was closed. The
code is one when the log could not be opened or was noticed not to be written, and
nothing else is written but by the logger. -/
structure Closed (s : Recorder) (base : Host) (disk : Disk) (told : List RecordedEvent)
    (printed : List Text) (t : FileTree) (x : Recorder) (done : Nat × Console) : Prop where
  files : base.files.Adds base.logger.file? t
  same : s.SameSession x
  holds : x.Holds told
  stdout : base.Apart → done.2.room.host.stdout.printed.text =
    base.stdout.printed.text ++ Text.written printed
  written : ∀ place, t.writable? s.logPath = some place →
    done.1 = (if disk.notices x.logText then 1 else 0) ∧
    (t.put place (.file (.ofText (Recorder.keptLog disk x)))).Adds base.logger.file?
      done.2.host.files
  refused : t.writable? s.logPath = none → done.1 = 1 ∧ t.Adds base.logger.file? done.2.host.files

theorem Running.closeRecorder (h : Running s base told e printed c) (r : Reading) (disk : Disk) :
    ∃ t x, Closed s base disk told printed t x (c.closeRecorder r disk) := by
  obtain ⟨x, hx, hsame, hholds⟩ := h.recorder
  have hlogger : c.room.host.logger = base.logger := h.host.logger
  have hfinish := Recorder.finish_active disk c.room.host.files (hsame.active.trans h.active)
  rw [hsame.logPath] at hfinish
  have hlog (files : FileTree) (entry : LogEntry) : files.Adds base.logger.file?
      (({ c.room.host with files } : Host).log r entry).files :=
    hlogger ▸ (Host.logs_log { c.room.host with files } r entry).files
  have hout (files : FileTree) (entry : LogEntry) (ha : base.Apart) :
      (({ c.room.host with files } : Host).log r entry).stdout.printed.text =
        base.stdout.printed.text ++ Text.written printed := by
    have hquiet : ({ c.room.host with files } : Host).Apart := h.host.apart.2 ha
    rw [(Host.logs_log _ r entry).stdout hquiet]
    exact h.host.stdout ha
  refine ⟨c.room.host.files, x, h.host.files, hsame, hholds, fun ha => ?_,
    fun place hw => ?_, fun hw => ?_⟩
  · rw [Console.closeRecorder, hx]
    dsimp only
    rw [Room.withRecorder, hfinish]
    cases c.room.host.files.writable? s.logPath with
    | none => exact hout _ _ ha
    | some place => cases disk.notices x.logText <;> exact hout _ _ ha
  · rw [Console.closeRecorder, hx]
    dsimp only
    rw [Room.withRecorder, hfinish, hw]
    cases disk.notices x.logText <;> exact ⟨rfl, hlog _ _⟩
  · rw [Console.closeRecorder, hx]
    dsimp only
    rw [Room.withRecorder, hfinish, hw]
    exact ⟨rfl, hlog _ _⟩

theorem Running.finish (h : Running s base told e printed c) (r : Reading) (disk : Disk)
    (stopped : Bool) : ∃ t x, Closed s base disk told printed t x (c.finish r disk stopped) := by
  rw [Console.finish]
  cases stopped with
  | false => exact (h.log r _).closeRecorder r disk
  | true => exact ((h.log r _).log r _).closeRecorder r disk

end

end Console
end BargeIn
