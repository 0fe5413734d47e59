import BargeIn.Proofs.Classifier.Reasons
import BargeIn.Proofs.CommandLine.SessionLog
import BargeIn.Proofs.Recorder.FreeName
import BargeIn.Proofs.Session.Conservation

/-! Standard output line by line. Every line of input that is answered is answered by one
line of output, in order: a comment for a command, and for a transcript the name of an
action and a reason with the only tab between them. The counts in a comment are those of
the lines above it, so whoever reads the output can tell all of it apart. -/

namespace BargeIn

open Text (ascii byte)

def named (a : Action) (lines : List Text) : Nat := lines.countP a.name.isPrefixOf

def IsCommand (line : Text) : Prop :=
  Text.trim line ∈ [ascii ":quit", ascii ":speak", ascii ":silent", ascii ":stats"]

instance (line : Text) : Decidable (IsCommand line) := inferInstanceAs (Decidable (_ ∈ _))

/-- The line that answers a line of input, below these lines of output. -/
inductive Answers (above : List Text) (line : Text) : Text → Prop
  | speak (h : Text.trim line = ascii ":speak") : Answers above line (ascii "# agent speaking")
  | silent (h : Text.trim line = ascii ":silent") : Answers above line (ascii "# agent silent")
  | stats (h : Text.trim line = ascii ":stats") :
      Answers above line (ascii "# swallowed=" ++ Text.ofNat (named .swallow above) ++
        ascii " responded=" ++ Text.ofNat (named .respond above) ++ ascii " interrupted=" ++
        Text.ofNat (named .interrupt above) ++ ascii " total=" ++
        Text.ofNat (named .swallow above + named .respond above + named .interrupt above))
  | ruling (h : ¬ IsCommand line) (a : Action) {reason : Text} (hreason : Text.OneLine reason) :
      Answers above line (a.name ++ tab :: reason)

section Rulings

variable {a b : Action} {reason more : Text}

theorem named_concat (lines : List Text) (line : Text) :
    named a (lines ++ [line]) = named a lines + if a.name.isPrefixOf line then 1 else 0 := by
  simp [named, List.countP_append, List.countP_cons]

theorem isPrefixOf_ruling : a.name.isPrefixOf (b.name ++ tab :: reason) = decide (b = a) := by
  cases a <;> cases b <;> rfl

theorem isPrefixOf_comment (rest : Text) : a.name.isPrefixOf (byte '#' :: rest) = false := by
  cases a <;> rfl

theorem ruling_not_comment : (a.name ++ tab :: reason).head? ≠ some (byte '#') := by
  have hfirst : a.name.head? ≠ some (byte '#') := by cases a <;> decide
  cases hname : a.name with
  | nil => cases a <;> cases hname
  | cons b rest => simpa [hname] using hfirst

theorem count_tab_ruling (h : Text.OneLine reason) : (a.name ++ tab :: reason).count tab = 1 := by
  have hreason : reason.count tab = 0 := by
    refine List.count_eq_zero.2 fun ht => ?_
    have hspace := h tab ht (by decide)
    exact absurd hspace (by decide)
  have hname : a.name.count tab = 0 := List.count_eq_zero.2 (Console.oneLine_name a).2
  simp [hreason, hname]

theorem ruling_inj (h : a.name ++ tab :: reason = b.name ++ tab :: more) :
    a = b ∧ reason = more := by
  obtain ⟨hname, hrest⟩ := Console.rulingLine_parts a reason
  obtain ⟨hname', hrest'⟩ := Console.rulingLine_parts b more
  refine ⟨Action.name_inj.1 ?_, ?_⟩
  · rw [← hname, h, hname']
  · rw [← hrest, h, hrest']

theorem Answers.decision {above : List Text} {line answer : Text} (h : Answers above line answer)
    (hline : ¬ IsCommand line) :
    ∃ (a : Action) (reason : Text), answer = a.name ++ tab :: reason ∧ Text.OneLine reason ∧
      answer.count tab = 1 ∧ answer.head? ≠ some (byte '#') ∧
      ∀ (b : Action) more, answer = b.name ++ tab :: more → b = a ∧ more = reason := by
  cases h with
  | speak h => exact absurd (by simp [IsCommand, h]) hline
  | silent h => exact absurd (by simp [IsCommand, h]) hline
  | stats h => exact absurd (by simp [IsCommand, h]) hline
  | ruling _ a hreason =>
    refine ⟨a, _, rfl, hreason, count_tab_ruling hreason, ruling_not_comment, fun b more hb => ?_⟩
    obtain ⟨ha, hmore⟩ := ruling_inj hb
    exact ⟨ha.symm, hmore.symm⟩

end Rulings

theorem Room.logs_tell (room : Room) (r : Reading) (report : Option Report) :
    room.host.Logs (room.tell r report).host := by
  obtain ⟨host, sessions, recorder⟩ := room
  cases recorder with
  | none => exact .refl host
  | some x =>
    cases report with
    | none => exact .refl host
    | some report => exact Host.logs_logAll host r _

theorem Room.logs_step (room : Room) (x : Lexicon) (r : Reading) (index : Nat)
    (e : SessionEvent) : room.host.Logs (room.step x r index e).1.host := by
  rw [step]
  split
  · exact .refl _
  · rename_i s _
    exact (Host.logs_logAll room.host r (s.step x e).log).trans (logs_tell ⟨_, _, _⟩ r _)

namespace Console

variable {base : Host} {printed : List Text} {c : Console} {line : Text}

structure Framed (base : Host) (printed : List Text) (c : Console) : Prop where
  session : ∃ s, c.room.sessions = [s] ∧ ∀ a, s.stats.get a = named a printed
  host : base.Prints (Text.written printed) c.room.host
  oneLine : ∀ l ∈ printed, (10 : UInt8) ∉ l

theorem Framed.print (h : Framed base printed c) {d : Console} {s : Session} {answer : Text}
    (hs : d.room.sessions = [s]) (hd : c.room.host.Logs d.room.host) (hline : (10 : UInt8) ∉ answer)
    (hget : ∀ a, s.stats.get a = named a (printed ++ [answer])) :
    Framed base (printed ++ [answer]) (d.print answer) where
  session := ⟨s, hs, hget⟩
  host := by
    rw [Text.written_concat]
    exact (h.host.logs hd).print _
  oneLine l hl := by
    rcases List.mem_append.1 hl with hl | hl
    · exact h.oneLine l hl
    · exact List.mem_singleton.1 hl ▸ hline

theorem take_session (r : Reading) (e : SessionEvent) {s : Session} (hs : c.room.sessions = [s]) :
    (c.take r e).1.room.sessions = [(s.step c.lexicon e).session] ∧
      c.room.host.Logs (c.take r e).1.room.host := by
  have hfirst : c.room.sessions[0]? = some s := by simp [hs]
  obtain ⟨hsessions, -⟩ := Room.sessions_step c.lexicon r e hfirst
  rw [hs] at hsessions
  exact ⟨hsessions, Room.logs_step c.room c.lexicon r 0 e⟩

theorem get_notice (s : Session) (x : Lexicon) (n : Notice) (a : Action) :
    (s.step x (.notice n)).session.stats.get a = s.stats.get a := by
  have hstep := Session.get_step x s (.notice n) a
  simpa [Session.step, Session.ruling_notice] using hstep

theorem Framed.notice (h : Framed base printed c) (r : Reading) (n : Notice) {rest : Text}
    (hline : (10 : UInt8) ∉ byte '#' :: rest) :
    Framed base (printed ++ [byte '#' :: rest])
      ((c.take r (.notice n)).1.print (byte '#' :: rest)) := by
  obtain ⟨s, hs, hget⟩ := h.session
  obtain ⟨hsessions, hlogs⟩ := take_session r (.notice n) hs
  refine h.print hsessions hlogs hline fun a => ?_
  rw [get_notice, hget, named_concat, isPrefixOf_comment]
  rfl

theorem ofLine_quit : Command.ofLine line = .quit ↔ Text.trim line = ascii ":quit" := by
  simp only [Command.ofLine]
  split <;> simp_all
  repeat' split
  all_goals simp

theorem Framed.stats (h : Framed base printed c) {s : Session} (hs : c.room.sessions = [s])
    (hget : ∀ a, s.stats.get a = named a printed) :
    statsLine s.stats = statsLine ⟨named .swallow printed, named .respond printed,
      named .interrupt printed⟩ ∧
    Framed base (printed ++ [statsLine s.stats]) (c.print (statsLine s.stats)) := by
  have hstats : s.stats = ⟨named .swallow printed, named .respond printed,
      named .interrupt printed⟩ := by
    rw [← hget, ← hget, ← hget]
    rfl
  refine ⟨congrArg statsLine hstats,
    h.print hs (.refl _) (statsLine_oneLine s.stats).noLineEnd fun a => ?_⟩
  have hcomment : a.name.isPrefixOf (statsLine s.stats) = false := isPrefixOf_comment _
  rw [hget, named_concat, hcomment]
  rfl

theorem Framed.transcript (h : Framed base printed c) (r : Reading) (line : Text) :
    ∃ (a : Action) (reason : Text), Text.OneLine reason ∧
      Framed base (printed ++ [a.name ++ tab :: reason])
      (c.answer r (.transcript line)) := by
  obtain ⟨s, hs, hget⟩ := h.session
  obtain ⟨hsessions, hlogs⟩ := take_session r (.transcript line r.nanos) hs
  rw [answer_transcript hs]
  generalize hclassify : (c.lexicon.classify s.speech.speaking r.nanos line s.debounce).1 = ruling
  have hreason : Text.OneLine ruling.reason := by
    rw [← hclassify]
    exact Lexicon.oneLine_reason c.lexicon s.speech.speaking r.nanos line s.debounce
  have hsome : (s.step c.lexicon (.transcript line r.nanos)).ruling = some ruling :=
    congrArg some hclassify
  refine ⟨ruling.action, ruling.reason, hreason, ?_⟩
  refine h.print hsessions hlogs (rulingLine_noLineEnd hreason) fun a => ?_
  have hstep := Session.get_step c.lexicon s (.transcript line r.nanos) a
  rw [hsome] at hstep
  rw [hstep, hget, named_concat, isPrefixOf_ruling]
  simp

theorem Framed.answer (h : Framed base printed c) (r : Reading) (hstays : quits line = false) :
    ∃ answer, Answers printed line answer ∧
      Framed base (printed ++ [answer]) (c.answer r (.ofLine line)) := by
  have hquit : Text.trim line ≠ ascii ":quit" := fun hq => by
    rw [quits, ofLine_quit.2 hq] at hstays
    cases hstays
  simp only [Command.ofLine, if_neg hquit]
  split
  · rename_i hspeak
    exact ⟨_, .speak hspeak, h.notice r .started (by decide)⟩
  · rename_i hspeak
    split
    · rename_i hsilent
      exact ⟨_, .silent hsilent, h.notice r .finished (by decide)⟩
    · rename_i hsilent
      split
      · rename_i hstats
        obtain ⟨s, hs, hget⟩ := h.session
        obtain ⟨hline, hframed⟩ := h.stats hs hget
        have hsession : c.session = s := by rw [Console.session, hs]; rfl
        refine ⟨_, .stats hstats, ?_⟩
        rw [hline] at hframed
        rw [Console.answer, hsession, hline]
        exact hframed
      · rename_i hstats
        obtain ⟨a, reason, hreason, hframed⟩ := h.transcript r line
        exact ⟨_, .ruling (by simp [IsCommand, hquit, hspeak, hsilent, hstats]) a hreason, hframed⟩

theorem Framed.answerAll (h : Framed base printed c) (clock : Nat → Reading) {lines : List Text}
    (hstay : ∀ line ∈ lines, quits line = false) :
    ∃ answers, answers.length = lines.length ∧
      Framed base (printed ++ answers) (c.answerAll clock lines) ∧
      ∀ (n : Nat) line answer, lines[n]? = some line → answers[n]? = some answer →
        Answers (printed ++ answers.take n) line answer := by
  induction lines generalizing printed c clock with
  | nil => exact ⟨[], rfl, by simpa [Console.answerAll] using h, by simp⟩
  | cons line lines ih =>
    obtain ⟨answer, hanswer, hnext⟩ := h.answer (clock 0) (hstay line List.mem_cons_self)
    obtain ⟨answers, hlength, hframed, hall⟩ := ih hnext (fun n => clock (n + 1))
      fun l hl => hstay l (List.mem_cons_of_mem line hl)
    refine ⟨answer :: answers, by simp [hlength],
      by simpa [Console.answerAll] using hframed, ?_⟩
    intro n l a hl ha
    cases n with
    | zero =>
      simp only [List.getElem?_cons_zero, Option.some.injEq] at hl ha
      simpa [← hl, ← ha] using hanswer
    | succ n =>
      simp only [List.getElem?_cons_succ] at hl ha
      simpa using hall n l a hl ha

theorem openRecorder_logs {r : Reading} {config : Config} {host begun : Host}
    {recorder : Option Recorder} (h : openRecorder r config host = some (begun, recorder)) :
    ∃ files, ({ host with files } : Host).Logs begun := by
  rw [openRecorder] at h
  split at h
  · dsimp only [Room.withRecorder] at h
    split at h
    · cases h
    · cases h
      exact ⟨_, (Host.logs_logAll _ r _).trans (Host.logs_log _ r _)⟩
    · cases h
      exact ⟨_, Host.logs_logAll _ r _⟩
  · cases h
    exact ⟨host.files, .refl host⟩

theorem openRecorder_none_iff (r : Reading) (config : Config) (host : Host) :
    openRecorder r config host = none ↔ config.recording.enabled = true ∧
      ∀ n, host.files.has (Path.inside config.recording.dir
        (Recorder.candidate r.wall.compact n)) = true := by
  have hendless := Recorder.start_endless_iff r host.files
    (.ofDir config.recording.dir config.recording.maxEvents)
  change _ ↔ ∀ n, host.files.has (Path.inside config.recording.dir _) = true at hendless
  rw [openRecorder, ← hendless]
  split
  · rename_i hon
    dsimp only [Room.withRecorder]
    split <;> simp_all
  · rename_i hoff
    simp [hoff]

theorem framed_start {r : Reading} {config : Config} {host : Host}
    (h : start? r config host = some c) :
    ∃ files, Framed { host with files } [] c := by
  rw [start?, Option.map_eq_some_iff] at h
  obtain ⟨⟨begun, recorder⟩, hopened, rfl⟩ := h
  obtain ⟨files, hlogs⟩ := openRecorder_logs hopened
  have hentered := (hlogs.trans (Host.logs_logAll _ r [(Session.ofId sessionId).created])).trans
    (Host.logs_log _ r (.info "[Filter] " (ascii "Session " ++ sessionId ++
      ascii " ready; agent silent. Type :speak to start agent speech.")))
  exact ⟨files, ⟨.ofId sessionId, rfl, fun a => by cases a <;> rfl⟩,
    (Host.Prints.refl _).logs hentered, fun l hl => by cases hl⟩

theorem closeRecorder_logs [JsonLibrary] (r : Reading) (disk : Disk) (c : Console) :
    ∃ files, ({ c.room.host with files } : Host).Logs (c.closeRecorder r disk).2.room.host := by
  rw [closeRecorder]
  cases c.room.recorder with
  | none => exact ⟨c.room.host.files, .refl _⟩
  | some x =>
    have hlogs := Host.logs_logAll
      { c.room.host with files := (x.finish disk c.room.host.files).files } r
      (x.finish disk c.room.host.files).log
    dsimp only [Room.withRecorder]
    split <;> exact ⟨_, hlogs.trans (Host.logs_log _ r _)⟩

theorem finish_logs [JsonLibrary] (r : Reading) (disk : Disk) (stopped : Bool) (c : Console) :
    ∃ files, ({ c.room.host with files } : Host).Logs (c.finish r disk stopped).2.room.host := by
  have hclose {d : Console} (hd : c.room.host.Logs d.room.host) :
      ∃ files, ({ c.room.host with files } : Host).Logs (d.closeRecorder r disk).2.room.host := by
    obtain ⟨files, hlogs⟩ := closeRecorder_logs r disk d
    exact ⟨files, (hd.withFiles files).trans hlogs⟩
  rw [finish]
  cases stopped with
  | false => exact hclose (Host.logs_log _ r _)
  | true => exact hclose ((Host.logs_log _ r _).trans (Host.logs_log _ r _))

theorem consumed_eq (stdin : Text) : consumed stdin =
    ((Text.lines stdin).1 ++
        if (Text.lines stdin).2 = [] then [] else [(Text.lines stdin).2]).takeWhile
      fun line => Text.trim line ≠ ascii ":quit" := by
  have hquits (line : Text) : (!quits line) = decide (Text.trim line ≠ ascii ":quit") := by
    simp [quits, ofLine_quit]
  rw [consumed, funext hquits]

end Console

namespace CommandLine

open Console (consumed)

end CommandLine
end BargeIn
