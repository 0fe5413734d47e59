import BargeIn.Proofs.CommandLine.Framing
import BargeIn.Proofs.Log.Interlined

/-! A signal that comes when the input is at its end stops a run that ends by itself. All
lines have been answered by then, the unended one too, and the run closes as it does without
the signal, but for one line of the log that says that it was asked to stop. -/

namespace BargeIn

open Text (ascii)
open Host (Ended)

variable {l : Logger} {shown : Prop} {host : Host}

theorem Room.ended_tell {room : Room} (h : room.host.Ended l shown) (r : Reading)
    (report : Option Report) : (room.tell r report).host.Ended l shown := by
  cases hx : room.recorder with
  | none => simpa [tell, hx] using h
  | some x =>
    cases report with
    | none => simpa [tell, hx] using h
    | some report => simpa [tell, hx] using h.logAll r (x.record r.nanos report).2

theorem Room.ended_step {room : Room} (h : room.host.Ended l shown) (x : Lexicon) (r : Reading)
    (index : Nat) (e : SessionEvent) : (room.step x r index e).1.host.Ended l shown := by
  rw [step]
  split
  · exact h
  · exact ended_tell (h.logAll r _) r _

theorem Host.Ended.print (h : host.Ended l shown) (t : Text) : (host.print t).Ended l shown :=
  ⟨h.logger, h.stderr, h.file⟩

namespace Console

variable {c d : Console} {line : Text}

def stopRemark : LogEntry := .info "[Filter] " (ascii "Stop requested, shutting down")

theorem ended_answer (h : c.room.host.Ended l shown) (r : Reading) (command : Command) :
    (c.answer r command).room.host.Ended l shown := by
  have htake (e : SessionEvent) : (c.take r e).1.room.host.Ended l shown :=
    Room.ended_step h c.lexicon r 0 e
  cases command with
  | speak => exact (htake _).print _
  | silent => exact (htake _).print _
  | stats => exact h.print _
  | quit => exact h
  | transcript line =>
    have htaken := htake (.transcript line r.nanos)
    rw [answer]
    dsimp only
    split
    · exact htaken.print _
    · exact htaken

theorem ended_answerAll (h : c.room.host.Ended l shown) (clock : Nat → Reading)
    (lines : List Text) : (c.answerAll clock lines).room.host.Ended l shown := by
  induction lines generalizing c clock with
  | nil => exact h
  | cons line lines ih => exact ih (ended_answer h (clock 0) _) _

theorem ended_openRecorder (h : host.Ended l shown) {r : Reading} {config : Config}
    {begun : Host} {recorder : Option Recorder}
    (hopened : openRecorder r config host = some (begun, recorder)) : begun.Ended l shown := by
  have hstarted := (h.grows (Recorder.start_grows r host.files
    (.ofDir config.recording.dir config.recording.maxEvents))).logAll r
      (Recorder.start r host.files (.ofDir config.recording.dir config.recording.maxEvents)).log
  rw [openRecorder] at hopened
  split at hopened
  · dsimp only [Room.withRecorder] at hopened
    split at hopened
    · cases hopened
    · cases hopened
      exact hstarted.log r _
    · cases hopened
      exact hstarted
  · cases hopened
    exact h

/-- The console is announced by an entry like the one on a stop: where the one is shown the
other begins a line. -/
theorem ended_start (h : host.Ended l shown) {r : Reading} {config : Config}
    (hc : Console.start? r config host = some c) :
    c.room.host.Ended l (l.shows stopRemark = true) := by
  rw [start?, Option.map_eq_some_iff] at hc
  obtain ⟨⟨begun, recorder⟩, hopened, rfl⟩ := hc
  exact (((ended_openRecorder h hopened).logAll r _).log_shows r _).weaken Or.inr

def logPlace? (c : Console) : Option Place :=
  c.room.recorder.bind fun x => if x.active then c.room.host.files.writable? x.logPath else none

theorem logPlace?_log (c : Console) (r : Reading) (e : LogEntry) :
    (c.log r e).logPlace? = c.logPlace? := by
  simp only [logPlace?, log, withHost, ((Host.logs_log c.room.host r e).files.sameKinds).writable?]

section

variable [JsonLibrary]

theorem closeRecorder_interlined (h : c.room.host.Interlined line none d.room.host)
    (hsame : d.room.recorder = c.room.recorder) (r : Reading) (disk : Disk) :
    (d.closeRecorder r disk).1 = (c.closeRecorder r disk).1 ∧
      (c.closeRecorder r disk).2.room.host.Interlined line c.logPlace?
        (d.closeRecorder r disk).2.room.host := by
  rw [closeRecorder, closeRecorder, logPlace?, hsame]
  cases c.room.recorder with
  | none => exact ⟨rfl, h⟩
  | some x =>
    dsimp only [Room.withRecorder, Option.bind_some]
    cases hactive : x.active with
    | false =>
      rw [Recorder.finish_inactive hactive, Recorder.finish_inactive hactive]
      exact ⟨rfl, h.log r _⟩
    | true =>
      -- the log's path leads to one place on both, or is refused on both
      rw [Recorder.finish_active disk _ hactive, Recorder.finish_active disk _ hactive,
        h.sameKinds.writable?, if_pos rfl]
      cases hplace : c.room.host.files.writable? x.logPath with
      | none => exact ⟨rfl, h.log r _⟩
      | some place =>
        obtain ⟨-, -, hends⟩ := FileTree.writable?_endsAt hplace
        dsimp only
        cases disk.notices x.logText <;> exact ⟨rfl, (h.put hends.ne_root _).log r _⟩

theorem finish_interlined (h : c.room.host.Ended l (l.shows stopRemark = true)) (r : Reading)
    (disk : Disk) (stopped : Bool) :
    (c.finish r disk stopped).1 = (c.finish r disk false).1 ∧
      (c.finish r disk false).2.room.host.Interlined (if stopped then l.shown r stopRemark else [])
        c.logPlace? (c.finish r disk stopped).2.room.host := by
  have hclose {d : Console} {line : Text}
      (hd : c.room.host.Interlined line none d.room.host) (hsession : d.session = c.session)
      (hrecorder : d.room.recorder = c.room.recorder) :
      (d.finish r disk false).1 = (c.finish r disk false).1 ∧
        (c.finish r disk false).2.room.host.Interlined line c.logPlace?
          (d.finish r disk false).2.room.host := by
    have hfinish (e : Console) : e.finish r disk false =
        (e.log r (.info "[Filter] " (finishedText e.session))).closeRecorder r disk := rfl
    rw [hfinish, hfinish, hsession,
      ← logPlace?_log c r (.info "[Filter] " (finishedText c.session))]
    exact closeRecorder_interlined (c := c.log r _) (d := d.log r _) (hd.log r _) hrecorder r disk
  cases stopped with
  | false => exact hclose (h.weaken False.elim).interlined_refl rfl rfl
  | true =>
    have hremarked : c.finish r disk true = (c.log r stopRemark).finish r disk false := rfl
    rw [hremarked]
    exact hclose h.interlined rfl rfl

end

end Console

namespace CommandLine

open Console (consumed stopRemark)

section

variable [JsonLibrary]

/-- The configuration of an interactive run and the console that is started with it; a run
that only shows something, or that does not get so far, has none. -/
def interactive? (program : Program) (r : Reading) (arguments : List Text) (host : Host) :
    Option (Config × Console) :=
  match Invocation.parse arguments with
  | .run o =>
    if o.showConfig || o.check then none
    else match configure program r o.configPath (host.turnOn .info []) with
      | (.ok config, begun) => (Console.start? r config begun).map fun c => (config, c)
      | (.error _, _) => none
  | .help | .unknown _ => none

/-- What a stop adds to the log of a run: nothing unless the run is interactive, reads its
input to the end, and shows entries of that level. -/
def remark (program : Program) (clock : Clock) (arguments : List Text) (stdin : Text)
    (host : Host) : Text :=
  match interactive? program clock.opening arguments host with
  | some (config, _) =>
    if (∀ line ∈ (Text.lines stdin).1, Text.trim line ≠ ascii ":quit") ∧
        (Level.parse .info config.logging.level).rank ≤ Level.info.rank then
      ascii "[INFO ] " ++ clock.closing.wall.stamp ++
        ascii ": [Filter] Stop requested, shutting down\n"
    else []
  | none => []

def sessionLog? (program : Program) (clock : Clock) (arguments : List Text) (stdin : Text)
    (host : Host) : Option Place :=
  (interactive? program clock.opening arguments host).bind fun (_, c) =>
    (c.answerAll clock.line (consumed stdin)).logPlace?

variable {program : Program} {r : Reading} {arguments : List Text} {begun : Host}
  {config : Config} {c : Console}

theorem ended_configure (hoff : host.logger = .off) {named : Text}
    {loaded : Except Thrown Config}
    (h : configure program r named (host.turnOn .info []) = (loaded, begun)) :
    ∃ least file, begun.Ended (.on least file) False ∧
      ∀ config, loaded = .ok config → least = Level.parse .info config.logging.level := by
  have hon : (host.turnOn .info []).logger = .on .info none := by simp [Host.turnOn, hoff]
  rw [configure] at h
  generalize (if (if named = [] then besideProgram program (host.turnOn .info []).files
    else named) = [] then _ else _) = found at h
  have hlogger := ((host.turnOn .info []).logs_logAll r found.log).logger
  split at h
  · cases h
    rw [logConfig]
    split
    · refine ⟨_, none, Host.ended_of_no_file ?_ rfl, fun config hc => by cases hc; rfl⟩
      simp [Host.setLevel, hlogger, hon, Logger.withLevel]
    · obtain ⟨file, hended⟩ := Host.ended_turnOn (h := ((host.turnOn .info []).logAll r
        found.log).turnOff) rfl (Level.parse .info _) _
      exact ⟨_, file, hended, fun config hc => by cases hc; rfl⟩
  · cases h
    exact ⟨_, none, Host.ended_of_no_file (hlogger.trans hon) rfl, fun config hc => by cases hc⟩

theorem interactive?_some (h : interactive? program r arguments host = some (config, c)) :
    ∃ o begun, Invocation.parse arguments = .run o ∧ o.showConfig = false ∧ o.check = false ∧
      configure program r o.configPath (host.turnOn .info []) = (.ok config, begun) ∧
      Console.start? r config begun = some c := by
  rw [interactive?] at h
  split at h
  · rename_i o hparse
    split at h
    · cases h
    · rename_i hplain
      simp only [Bool.or_eq_true, not_or, Bool.not_eq_true] at hplain
      split at h
      · rename_i config' begun hconfigure
        obtain ⟨c', hstart, hc⟩ := Option.map_eq_some_iff.1 h
        cases hc
        exact ⟨o, begun, hparse, hplain.1, hplain.2, hconfigure, hstart⟩
      · cases h
  · cases h
  · cases h

theorem ended_interactive? (hoff : host.logger = .off)
    (h : interactive? program r arguments host = some (config, c)) :
    ∃ file, let l := Logger.on (Level.parse .info config.logging.level) file
      c.room.host.Ended l (l.shows stopRemark = true) := by
  obtain ⟨o, begun, -, -, -, hconfigure, hstart⟩ := interactive?_some h
  obtain ⟨least, file, hended, hleast⟩ := ended_configure hoff hconfigure
  rw [hleast config rfl] at hended
  exact ⟨file, Console.ended_start hended hstart⟩

theorem run_interactive {clock : Clock}
    (h : interactive? program clock.opening arguments host = some (config, c)) (disk : Disk)
    (stdin : Text) (stop : Option StopSignal) :
    run program clock disk arguments stdin stop host =
      let done := (c.answerAll clock.line (consumed stdin)).finish clock.closing disk
        ((Console.Feed.ofText stdin).metEnd && stop.isSome)
      ⟨.exit done.1, done.2.room.host⟩ := by
  obtain ⟨o, begun, hparse, hshow, hcheck, hconfigure, hstart⟩ := interactive?_some h
  simp [run, hparse, hshow, hcheck, hconfigure, interact_eq, hstart]

theorem run_shown {clock : Clock} (hoff : host.logger = .off)
    (h : interactive? program clock.opening arguments host = none) (disk : Disk) (stdin : Text)
    (stop : Option StopSignal) :
    run program clock disk arguments stdin stop host =
      run program clock disk arguments stdin none host ∧
      ∃ l, (run program clock disk arguments stdin none host).host.Ended l False := by
  have hfile : host.logger.file? = none := by rw [hoff]; rfl
  rw [interactive?] at h
  rw [run, run]
  cases hparse : Invocation.parse arguments with
  | help => exact ⟨rfl, _, Host.ended_of_no_file rfl hfile⟩
  | unknown a => exact ⟨rfl, _, Host.ended_of_no_file rfl hfile⟩
  | run o =>
    rw [hparse] at h
    dsimp only at h ⊢
    cases hconfigure : configure program clock.opening o.configPath (host.turnOn .info []) with
    | mk loaded begun =>
      rw [hconfigure] at h
      obtain ⟨least, file, hended, -⟩ := ended_configure hoff hconfigure
      cases loaded with
      | error e => exact ⟨rfl, _, hended⟩
      | ok config =>
        dsimp only at h ⊢
        cases hshow : o.showConfig with
        | true =>
          refine ⟨rfl, .on least file, ?_⟩
          rw [if_pos rfl, list]
          split
          · exact hended
          · exact hended.print _
        | false =>
          cases hcheck : o.check with
          | true => exact ⟨rfl, _, (hended.print _).logAll _ _⟩
          | false =>
            -- the console does not start, so nothing is read either
            simp only [hshow, hcheck, Bool.or_false, Bool.false_eq_true, if_false,
              Option.map_eq_none_iff] at h
            simp only [Bool.false_eq_true, if_false, interact_eq, h]
            exact ⟨trivial, _, hended⟩

end

theorem metEnd_ofText (stdin : Text) : (Console.Feed.ofText stdin).metEnd =
    decide (∀ line ∈ (Text.lines stdin).1, Text.trim line ≠ ascii ":quit") := by
  have hquits (line : Text) : (!Console.quits line) = true ↔ Text.trim line ≠ ascii ":quit" := by
    simp [Console.quits, Console.ofLine_quit]
  simp only [← hquits]
  rw [Console.Feed.ofText]
  generalize Text.lines stdin = cut
  obtain ⟨ended, rest⟩ := cut
  dsimp only
  by_cases hall : ∀ line ∈ ended, (!Console.quits line) = true
  · rw [List.takeWhile_eq_self_iff.2 hall, if_neg (Nat.lt_irrefl _), decide_eq_true hall]
    split <;> rfl
  · have hbefore := List.takeWhile_prefix (fun line => !Console.quits line) (l := ended)
    have hshort := Nat.lt_of_le_of_ne hbefore.length_le fun hlength =>
      hall (List.takeWhile_eq_self_iff.1 (hbefore.eq_of_length hlength))
    rw [if_pos hshort, decide_eq_false hall]

theorem line_stopRemark (r : Reading) (least : Level) (file : Option Place) :
    (Logger.on least file).line r stopRemark = ascii "[INFO ] " ++ r.wall.stamp ++
      ascii ": [Filter] Stop requested, shutting down\n" := by
  have hlabel : Text.byte '[' :: Level.info.label ++ ascii "] " = ascii "[INFO ] " := by decide
  have hmessage : ascii ": " ++ (stopRemark.message ++ [10]) =
      ascii ": [Filter] Stop requested, shutting down\n" := by decide
  rw [← hlabel, ← hmessage]
  simp [Logger.line, stopRemark, LogEntry.info]

theorem remark_interactive [JsonLibrary] {program : Program} {clock : Clock}
    {arguments : List Text} {config : Config} {c : Console}
    (h : interactive? program clock.opening arguments host = some (config, c)) (stdin : Text)
    (file : Option Place) : remark program clock arguments stdin host =
      if (Console.Feed.ofText stdin).metEnd then
        (Logger.on (Level.parse .info config.logging.level) file).shown clock.closing stopRemark
      else [] := by
  have hshows : (Logger.on (Level.parse .info config.logging.level) file).shows stopRemark =
      decide ((Level.parse .info config.logging.level).rank ≤ Level.info.rank) := rfl
  rw [remark, h, metEnd_ofText, Logger.shown, line_stopRemark, hshows]
  simp only [decide_eq_true_eq, ite_and]

end CommandLine
end BargeIn
