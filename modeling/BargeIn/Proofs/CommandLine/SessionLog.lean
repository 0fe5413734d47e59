import BargeIn.CommandLine.Run
import BargeIn.Proofs.CommandLine.Story

/-! The session log of a run of the console tells what standard output tells. It is
written however the input ends, unless its path is one that cannot be opened, and
then the code of the run says so. Where the disk has no room for it the code says so only
if that is noticed in time. -/

namespace BargeIn

open Text (ascii)
open Recorder (Housed Loggable TakesLog keptLog logPlace)

namespace Console

/-- The lines of an input that are answered: an unended last one counts, and nothing
counts from the command to quit on. -/
def consumed (input : Text) : List Text :=
  ((Text.lines input).1 ++
      if (Text.lines input).2 = [] then [] else [(Text.lines input).2]).takeWhile
    fun line => !quits line

theorem feed_lines (input : Text) : (Feed.ofText input).lines = consumed input := by
  rw [Feed.ofText, consumed]
  cases Text.lines input with
  | mk ended rest =>
    have hshort := (List.takeWhile_prefix (fun line => !quits line) (l := ended)).length_le
    dsimp only
    rw [List.takeWhile_append]
    split
    · rename_i hlt
      rw [if_neg (by omega)]
    · rename_i hall
      have hwhole : (ended.takeWhile fun line => !quits line).length = ended.length := by omega
      rw [if_pos hwhole]
      split
      · rename_i hend
        rcases hend with hnil | hquit
        · rw [if_pos hnil, List.takeWhile_nil, List.append_nil]
        · split
          · rw [List.takeWhile_nil, List.append_nil]
          · rw [List.takeWhile_cons, if_neg (by rw [hquit]; decide), List.append_nil]
      · rename_i hgo
        obtain ⟨hsome, hstay⟩ := not_or.1 hgo
        rw [if_neg hsome, List.takeWhile_cons, if_pos (by rw [Bool.eq_false_iff.2 hstay]; rfl),
          List.takeWhile_nil]

theorem quits_of_mem_consumed {input line : Text} (h : line ∈ consumed input) :
    quits line = false := by
  have hstay := List.mem_takeWhile_imp h
  rwa [Bool.not_eq_true'] at hstay

variable {o : Recorder.Outcome} {host : Host} {disk : Disk} {told : List RecordedEvent}
  {printed : List Text} {t : FileTree} {x : Recorder} {done : Nat × Console}

theorem Closed.fate [JsonLibrary] (ho : Recorder.Opened o.files o.recorder)
    (h : Closed o.recorder { host with files := o.files } disk told printed t x done) :
    (Loggable o.files o.recorder → done.1 = (if disk.notices x.logText then 1 else 0) ∧
      ∃ place, o.files.writable? o.recorder.logPath = some place ∧
        (o.files.put place (.file (.ofText (keptLog disk x)))).Adds host.logger.file?
          done.2.host.files ∧
        ∃ more, done.2.host.files.read? o.recorder.logPath = some (keptLog disk x ++ more) ∧
          (host.logger.file? ≠ some place → more = [])) ∧
    (¬ Loggable o.files o.recorder → done.1 = 1 ∧
      o.files.Adds host.logger.file? done.2.host.files) := by
  have hadds : o.files.Adds host.logger.file? t := h.files
  constructor
  · intro hlog
    obtain ⟨d, hd⟩ := ho.housed hlog.noNul
    have hfree := hlog.free hd
    have hfree' : t.node? (logPlace d o.recorder.id) ≠ some .directory :=
      fun hn => hfree ((hadds.directory_iff _).1 hn)
    have hopened := hd.writable?_logPath hlog.short hfree
    obtain ⟨hcode, hwritten⟩ := h.written _
      ((hd.mono hadds.keeps).writable?_logPath hlog.short hfree')
    have hend : Housed done.2.host.files o.recorder d :=
      ((hd.mono hadds.keeps).mono (FileTree.keeps_put_file hfree' _)).mono hwritten.keeps
    have hput : (t.put (logPlace d o.recorder.id) (.file (.ofText (keptLog disk x)))).node?
        (logPlace d o.recorder.id) = some (.file (.ofText (keptLog disk x))) :=
      FileTree.node?_put_self (Place.child_ne_root _ _) _
    refine ⟨hcode, _, hopened, (hadds.put _ _).trans hwritten, ?_⟩
    -- the file of the logger may be this very log, and then it goes on behind it
    rcases hwritten.node (logPlace d o.recorder.id) with hsame | ⟨hfile, old, more, hold, hnew⟩
    · refine ⟨[], ?_, fun _ => rfl⟩
      rw [hend.read?_file hlog.short (hsame.trans hput), Written.text_ofText, List.append_nil]
    · rw [hput] at hold
      cases hold
      refine ⟨more, ?_, fun hapart => absurd hfile hapart⟩
      rw [hend.read?_file hlog.short hnew, Written.text_add, Written.text_ofText]
  · intro hlog
    obtain ⟨hcode, hrest⟩ := h.refused (ho.writable?_none hlog hadds.keeps)
    exact ⟨hcode, hadds.trans hrest⟩

end Console

theorem mem_story {f : Nat → Int} {speaking : Bool} {lines : List (Text × Text)}
    {e : RecordedEvent} (h : e ∈ story f speaking lines) :
    ∃ n, ∃ what : Report, e = what.recorded (f n) := by
  induction lines generalizing f speaking with
  | nil => cases h
  | cons line lines ih =>
    rw [story, List.mem_append] at h
    rcases h with h | h
    · rw [Option.mem_toList] at h
      obtain ⟨what, -, rfl⟩ := Option.map_eq_some_iff.1 h
      exact ⟨0, what, rfl⟩
    · obtain ⟨n, what, he⟩ := ih h
      exact ⟨n + 1, what, he⟩

theorem story_length (f : Nat → Int) (speaking : Bool) (lines : List (Text × Text)) :
    (story f speaking lines).length ≤ lines.length := by
  induction lines generalizing f speaking with
  | nil => exact Nat.le_refl 0
  | cons line lines ih =>
    rw [story, List.length_append, List.length_cons]
    refine (Nat.add_le_add (Option.length_toList_le) (ih _ _)).trans ?_
    omega

theorem Recorder.Holds.countable {s x : Recorder} {clock : Nat → Nanos} {speaking : Bool}
    {lines : List (Text × Text)}
    (h : x.Holds (story (fun n => s.elapsedMs (clock n)) speaking lines))
    (hcount : lines.length < 0x10000000000000000) : x.Countable := by
  have hlength := story_length (fun n => s.elapsedMs (clock n)) speaking lines
  have hcounted := h.counted
  refine ⟨by omega, fun e he => ?_⟩
  obtain ⟨n, what, rfl⟩ := mem_story (h.suffix.mem he)
  exact inRange_recorded s (clock n) what

namespace CommandLine

open Console (consumed)

theorem interact_eq [JsonLibrary] (clock : Clock) (disk : Disk) (config : Config) (stdin : Text)
    (stop : Option StopSignal) (host : Host) : interact clock disk config stdin stop host =
      match Console.start? clock.opening config host with
      | none => ⟨.never, host⟩
      | some c =>
        let done := (c.answerAll clock.line (consumed stdin)).finish clock.closing disk
          ((Console.Feed.ofText stdin).metEnd && stop.isSome)
        ⟨.exit done.1, done.2.room.host⟩ := by
  have hstop : stopRequested (stop.toList.map .arrives) = stop.isSome := by cases stop <;> rfl
  rw [interact, hstop, Console.feed_lines]
  rfl

/-- What the console prints, one line for each line that it consumes, and what its session
log tells are the same story: the log has the last events of it, as many as the limit
allows, and the number of the others. Where its path can be opened and the disk takes it, it
stands in its file and the code is zero. The code is one where the path cannot be opened or
the disk is noticed to be full. Nothing else is written but the log file of the logger. -/
theorem log_agrees_with_stdout [JsonLibrary] (hlib : JsonLibrary.Documented) (clock : Clock)
    (disk : Disk) (config : Config) (stdin : Text) (stop : Option StopSignal) (host : Host)
    {o : Recorder.Outcome} {done : Finish}
    (hon : config.recording.enabled = true) (hdir : config.recording.dir ≠ [])
    (ho : (Recorder.ofDir config.recording.dir config.recording.maxEvents).start clock.opening
      host.files = o)
    (hopen : o.fault = none) (hapart : host.Apart)
    (hcount : (consumed stdin).length < 0x10000000000000000)
    (hdone : interact clock disk config stdin stop host = done) :
    ∃ (printed : List Text) (told : List RecordedEvent) (x : Recorder),
      done.stdout = host.stdout.printed.text ++ Text.written printed ∧
      (∀ l ∈ printed, (10 : UInt8) ∉ l) ∧ printed.length = (consumed stdin).length ∧
      told = story (fun n => o.recorder.elapsedMs (clock.line n).nanos) false
        ((consumed stdin).zip printed) ∧
      x.id = o.recorder.id ∧ x.events = kept config.recording.maxEvents told ∧
      x.dropped + x.events.length = told.length ∧ host.files.Grows o.files ∧
      (Loggable o.files o.recorder →
        done.ending = .exit (if disk.notices x.logText then 1 else 0) ∧
        (TakesLog disk x → done.ending = .exit 0 ∧
          JsonLibrary.read (keptLog disk x) = .ok x.recount) ∧
        ∃ place, o.files.writable? o.recorder.logPath = some place ∧
          (o.files.put place (.file (.ofText (keptLog disk x)))).Adds host.logger.file?
            done.host.files ∧
          ∃ more, done.host.files.read? o.recorder.logPath = some (keptLog disk x ++ more) ∧
            (host.logger.file? ≠ some place → more = [])) ∧
      (¬ Loggable o.files o.recorder → done.ending = .exit 1 ∧
        o.files.Adds host.logger.file? done.host.files) := by
  obtain ⟨c, hc, hstarted⟩ := Console.running_start hon hdir ho hopen
  obtain ⟨printed, e, hlength, hanswered⟩ := hstarted.answerAll clock.line
    fun l (hl : l ∈ consumed stdin) => Console.quits_of_mem_consumed hl
  obtain ⟨t, x, hclosed⟩ := hanswered.finish clock.closing disk
    ((Console.Feed.ofText stdin).metEnd && stop.isSome)
  have hlimit := (Recorder.start_dir clock.opening host.files
    (.ofDir config.recording.dir config.recording.maxEvents)).2
  obtain ⟨hlogged, hrefused⟩ := hclosed.fate (ho ▸ Recorder.start_opened hdir (ho ▸ hopen))
  rw [ho] at hlimit
  have hcountable : x.Countable := by
    refine hclosed.holds.countable ?_
    rw [List.length_zip, hlength, Nat.min_self]
    exact hcount
  have hrun := interact_eq clock disk config stdin stop host
  rw [hc] at hrun
  rw [← hdone, hrun]
  refine ⟨printed, _, x, hclosed.stdout hapart, hanswered.oneLine, hlength, rfl, hclosed.same.id,
    ?_, hclosed.holds.counted, ho ▸ Recorder.start_grows _ _ _, fun hlog => ?_, fun hlog => ?_⟩
  · rw [hclosed.holds.events, hclosed.same.maxEvents, hlimit]
    rfl
  · obtain ⟨hcode, hwritten⟩ := hlogged hlog
    refine ⟨congrArg Ending.exit hcode, fun htakes => ⟨congrArg Ending.exit ?_, ?_⟩, hwritten⟩
    · rw [hcode, Recorder.not_notices_of_takes htakes, if_neg Bool.false_ne_true]
    · exact Recorder.read_keptLog hlib htakes hcountable
  · obtain ⟨hcode, hrest⟩ := hrefused hlog
    exact ⟨congrArg Ending.exit hcode, hrest⟩

theorem log_agrees_with_stdout_two_kept :
    let lib := Json.library []
    let noon : Reading := ⟨0, ⟨2025, 1, 1, 12, 0, 0, 0⟩⟩
    let clock : Clock := ⟨noon, fun n => { noon with nanos := 1000000 * (n + 1) }, noon⟩
    let config : Config := ⟨.ofLists ⟨⟨[], [ascii "stop"], []⟩, [], 150⟩, .standard,
      ⟨true, ascii "rec", 2⟩, []⟩
    let host : Host := ⟨⟨[], .root⟩, none, .off, .empty, .empty⟩
    let done := interact clock .ample config (ascii ":speak\nStop!\n:stats\n:silent") none host
    lib.Documented ∧ done.ending = .exit 0 ∧
      done.stdout = Text.written [ascii "# agent speaking",
        ascii "INTERRUPT\tcontains interrupt words: stop",
        ascii "# swallowed=0 responded=0 interrupted=1 total=1", ascii "# agent silent"] ∧
      ∃ text metadata,
        done.host.files.read? (ascii "rec/20250101_120000/session_log.json") = some text ∧
        JsonLibrary.read text = .ok (.object
          [(ascii "dropped_events", .integer 1),
           (ascii "events", .array
             [.object
               [(ascii "action", .string (ascii "INTERRUPT")),
                (ascii "agent_speaking", .bool true),
                (ascii "data", .string (ascii "Stop!")),
                (ascii "event_type", .string decisionType),
                (ascii "reason", .string (ascii "contains interrupt words: stop")),
                (ascii "timestamp_ms", .integer 2)],
              .object
               [(ascii "data", .string []),
                (ascii "event_type", .string (ascii "agent_speech_finished")),
                (ascii "timestamp_ms", .integer 4)]]),
           (ascii "metadata", metadata),
           (ascii "session_id", .string (ascii "20250101_120000"))]) := by
  intro lib noon clock config host done
  have hlib : lib.Documented := Json.documented_library []
  let o := (Recorder.ofDir (ascii "rec") 2).start noon host.files
  have hpath : o.recorder.logPath = ascii "rec/20250101_120000/session_log.json" := by
    decide +kernel
  have hid : o.recorder.id = ascii "20250101_120000" := by decide +kernel
  have hout : done.stdout = Text.written [ascii "# agent speaking",
      ascii "INTERRUPT\tcontains interrupt words: stop",
      ascii "# swallowed=0 responded=0 interrupted=1 total=1", ascii "# agent silent"] := by
    decide +kernel
  obtain ⟨printed, told, x, hstdout, hends, -, htold, hsame, hevents, hcounted, -, hlogged, -⟩ :=
    log_agrees_with_stdout hlib clock .ample config (ascii ":speak\nStop!\n:stats\n:silent") none
      host rfl (by decide) (rfl : _ = o) (by decide +kernel) rfl (by decide +kernel)
      (rfl : _ = done)
  obtain ⟨-, htaken, place, -, -, more, hread, hmore⟩ :=
    hlogged ⟨by decide +kernel, by rw [hpath]; decide, by decide +kernel⟩
  obtain ⟨hcode, hsays⟩ := htaken rfl
  have hnone : more = [] := hmore (by simp [host, Logger.file?])
  have hprinted : printed = [ascii "# agent speaking",
      ascii "INTERRUPT\tcontains interrupt words: stop",
      ascii "# swallowed=0 responded=0 interrupted=1 total=1", ascii "# agent silent"] := by
    have hlines := Text.lines_written hends
    rw [show Text.written printed = done.stdout from hstdout.symm, hout] at hlines
    exact congrArg Prod.fst (hlines.symm.trans (Text.lines_written (by decide)))
  subst hprinted
  rw [hpath, hnone, List.append_nil] at hread
  have hstory : told = [⟨1, ascii "agent_speech_started", [], false, [], []⟩,
      ⟨2, decisionType, ascii "Stop!", true, ascii "INTERRUPT",
        ascii "contains interrupt words: stop"⟩,
      ⟨4, ascii "agent_speech_finished", [], false, [], []⟩] := htold.trans (by decide +kernel)
  have hkept : x.events = [⟨2, decisionType, ascii "Stop!", true, ascii "INTERRUPT",
        ascii "contains interrupt words: stop"⟩,
      ⟨4, ascii "agent_speech_finished", [], false, [], []⟩] := by
    rw [hevents, hstory]
    rfl
  have hdropped : x.dropped = 1 := by
    rw [hkept, hstory] at hcounted
    exact Nat.add_right_cancel hcounted
  rw [Recorder.recount, hkept, hdropped, hsame, hid] at hsays
  exact ⟨hlib, hcode, hout, _, _, hread, hsays⟩

/-- A directory with a NUL in it: the system makes the part before the NUL, so a session
opens, but no log can be written and the code is one. -/
theorem nul_in_directory_leaves_no_log :
    let _ := Json.library []
    let noon : Reading := ⟨0, ⟨2025, 1, 1, 12, 0, 0, 0⟩⟩
    let program : Program := ⟨ascii "bargein", none⟩
    let name : Text := ascii "filter.json"
    let text : Text := ascii ("\x7b\"recording\": \x7b\"enabled\": true, " ++
      "\"session_log_dir\": \"a\\u0000b\"\x7d\x7d")
    let tree : FileTree := ⟨[(Place.root.child name, .file (.ofText text))], .root⟩
    let host : Host := ⟨tree, none, .off, .empty, .empty⟩
    let dir : Text := [97, 0, 98]
    let done := run program ⟨noon, fun _ => noon, noon⟩ .ample [ascii "--config", name]
      (ascii "hello\n") none host
    (configure program noon name (host.turnOn .info [])).1.toOption.map (·.recording) =
        some ⟨true, dir, 10000⟩ ∧
      ((Recorder.ofDir dir 10000).start noon tree).fault = none ∧
      done.ending = .exit 1 ∧
      done.stdout = Text.written [ascii "RESPOND\tagent silent, treat as normal input"] ∧
      ∀ node ∈ done.host.files.nodes, node ∈ tree.nodes ∨ node.2 = .directory := by
  decide +kernel

end CommandLine
end BargeIn
