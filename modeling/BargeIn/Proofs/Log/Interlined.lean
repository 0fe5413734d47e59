import BargeIn.Proofs.Files.Writing
import BargeIn.Proofs.Log.Host

/-! Two hosts that differ by one line of the log. The line stands between what was written
before it and what was written after it, on standard error and in the logger's file.
A path leads to the same place on both, so what is done alike on both makes no other
difference. -/

namespace BargeIn

namespace Written

variable {v w : Written} {line : Text}

def EndsLine (w : Written) : Prop := w.text.getLast? = some 10

def Spliced (line : Text) (v w : Written) : Prop :=
  ∃ before after, v.text = before ++ after ∧ w.text = before ++ line ++ after

/-- So it does, at the start of a line. -/
def Interlined (line : Text) (v w : Written) : Prop :=
  ∃ before after, v.text = before ++ after ∧ w.text = before ++ line ++ after ∧
    (line ≠ [] → before.getLast? = some 10)

theorem spliced_add (w : Written) (line : Text) : w.Spliced line (w.add line) :=
  ⟨w.text, [], by simp, by simp⟩

theorem Spliced.add (h : v.Spliced line w) (t : Text) : (v.add t).Spliced line (w.add t) := by
  obtain ⟨before, after, hv, hw⟩ := h
  exact ⟨before, after ++ t, by simp [hv], by simp [hw]⟩

theorem interlined_add (h : line ≠ [] → w.EndsLine) : w.Interlined line (w.add line) :=
  ⟨w.text, [], by simp, by simp, h⟩

theorem Interlined.add (h : v.Interlined line w) (t : Text) :
    (v.add t).Interlined line (w.add t) := by
  obtain ⟨before, after, hv, hw, hline⟩ := h
  exact ⟨before, after ++ t, by simp [hv], by simp [hw], hline⟩

theorem endsLine_add {t : Text} (h : t.getLast? = some 10) : (w.add t).EndsLine := by
  simp [EndsLine, List.getLast?_append, h]

end Written

def Node.add (text : Text) : Node → Node
  | .directory => .directory
  | .file content => .file (content.add text)

@[simp] theorem Node.add_nil (node : Node) : node.add [] = node := by cases node <;> rfl

namespace FileTree

variable {t t' : FileTree} {file : Option Place}

theorem node?_append (t : FileTree) (place p : Place) (text : Text) :
    (t.append place text).node? p =
      if p = place then (t.node? p).map (Node.add text) else t.node? p := by
  rw [append]
  by_cases hp : p = place
  · subst hp
    rw [if_pos rfl]
    cases hn : t.node? p with
    | none => simp [hn]
    | some node =>
      cases node with
      | directory => simp [hn, Node.add]
      | file content =>
        have hroot : p ≠ .root := by
          rintro rfl
          simp [node?] at hn
        simp [node?_put_self hroot, Node.add]
  · rw [if_neg hp]
    split
    · exact node?_put_of_ne hp _
    · rfl

structure SameKinds (t t' : FileTree) : Prop where
  start : t'.start = t.start
  node : ∀ p, t'.node? p = t.node? p ∨
    ∃ old new, t.node? p = some (.file old) ∧ t'.node? p = some (.file new)

theorem Adds.sameKinds (h : t.Adds file t') : t.SameKinds t' where
  start := h.start
  node p := by
    rcases h.node p with hsame | ⟨-, old, more, hold, hnew⟩
    · exact Or.inl hsame
    · exact Or.inr ⟨old, _, hold, hnew⟩

theorem SameKinds.sameDirectories (h : t.SameKinds t') : t.SameDirectories t' where
  start := h.start
  node p := by
    rcases h.node p with hsame | ⟨old, new, hold, hnew⟩
    · exact Or.inl hsame
    · exact Or.inr ⟨by rw [hold]; simp, new, hnew⟩

theorem SameKinds.writable? (h : t.SameKinds t') (path : Text) :
    t'.writable? path = t.writable? path := h.sameDirectories.writable? path

end FileTree

def Logger.shown (r : Reading) (e : LogEntry) (l : Logger) : Text :=
  if l.shows e then l.line r e else []

theorem Logger.getLast?_line (r : Reading) (e : LogEntry) (l : Logger) :
    (l.line r e).getLast? = some 10 := by
  cases l <;> exact List.getLast?_concat

theorem Logger.shown_cases (r : Reading) (e : LogEntry) (l : Logger) :
    (l.shows e = false ∧ l.shown r e = []) ∨
      (l.shows e = true ∧ (l.shown r e).getLast? = some 10) := by
  cases hshows : l.shows e with
  | false => exact Or.inl ⟨rfl, by simp [shown, hshows]⟩
  | true => exact Or.inr ⟨rfl, by simpa [shown, hshows] using l.getLast?_line r e⟩

namespace Host

variable {h h' : Host} {l : Logger} {line : Text} {anew : Option Place} {shown : Prop}

@[simp] theorem logger_log (h : Host) (r : Reading) (e : LogEntry) :
    (h.log r e).logger = h.logger := (logs_log h r e).logger

theorem stderr_log (h : Host) (r : Reading) (e : LogEntry) :
    (h.log r e).stderr = h.stderr.add (h.logger.shown r e) := by
  rw [log, Logger.shown]
  split <;> rfl

theorem stdout_log (h : Host) (r : Reading) (e : LogEntry) :
    (h.log r e).stdout = h.stdout.writeAt h.logger.file? (h.logger.shown r e) := by
  rw [log, Logger.shown]
  split
  · rfl
  · rw [Outlet.writeAt]
    split <;> rfl

theorem printed_writeAt_mixed (ha : ¬ h.Apart) (t : Text) :
    (h.stdout.writeAt h.logger.file? t).printed = h.stdout.printed.add t := by
  rw [Outlet.writeAt, if_pos (eq_true_of_ne_false ha)]
  rfl

theorem node?_log (h : Host) (r : Reading) (e : LogEntry) (p : Place) :
    (h.log r e).files.node? p = if h.logger.file? = some p
      then (h.files.node? p).map (Node.add (h.logger.shown r e)) else h.files.node? p := by
  rw [log, Logger.shown]
  split
  · rw [emit]
    cases h.logger.file? with
    | none => rfl
    | some place => simp [FileTree.node?_append, eq_comm]
  · have hsame : Node.add [] = id := funext Node.add_nil
    simp [hsame]

/-- A host with this logger, whose file is there. Under the condition nothing goes on an
unended line. -/
structure Ended (l : Logger) (shown : Prop) (h : Host) : Prop where
  logger : h.logger = l
  stderr : shown → h.stderr.EndsLine
  file : ∀ p, l.file? = some p →
    ∃ content, h.files.node? p = some (.file content) ∧ (shown → content.EndsLine)

theorem Ended.log_shows (hended : h.Ended l shown) (r : Reading) (e : LogEntry) :
    (h.log r e).Ended l (shown ∨ l.shows e = true) := by
  have hadd {w : Written} (hw : shown → w.EndsLine) :
      shown ∨ l.shows e = true → (w.add (l.shown r e)).EndsLine := by
    rcases Logger.shown_cases r e l with ⟨hshows, hnil⟩ | ⟨-, hend⟩
    · simpa [hshows, hnil] using hw
    · exact fun _ => Written.endsLine_add hend
  refine ⟨by rw [logger_log, hended.logger], ?_, fun p hp => ?_⟩
  · rw [stderr_log, hended.logger]
    exact hadd hended.stderr
  · obtain ⟨content, hn, hcontent⟩ := hended.file p hp
    rw [node?_log, hended.logger, if_pos hp, hn]
    exact ⟨_, rfl, hadd hcontent⟩

theorem Ended.weaken (hended : h.Ended l shown) {less : Prop} (hless : less → shown) :
    h.Ended l less where
  logger := hended.logger
  stderr hl := hended.stderr (hless hl)
  file p hp := by
    obtain ⟨content, hn, hcontent⟩ := hended.file p hp
    exact ⟨content, hn, fun hl => hcontent (hless hl)⟩

theorem Ended.log (hended : h.Ended l shown) (r : Reading) (e : LogEntry) :
    (h.log r e).Ended l shown := (hended.log_shows r e).weaken Or.inl

theorem Ended.logAll (hended : h.Ended l shown) (r : Reading) (es : List LogEntry) :
    (h.logAll r es).Ended l shown := by
  induction es generalizing h with
  | nil => exact hended
  | cons e es ih => exact ih (hended.log r e)

theorem Ended.grows (hended : h.Ended l shown) {t : FileTree} (hgrows : h.files.Grows t) :
    ({ h with files := t } : Host).Ended l shown where
  logger := hended.logger
  stderr := hended.stderr
  file p hp := by
    obtain ⟨content, hn, hcontent⟩ := hended.file p hp
    rcases hgrows.node p with hsame | ⟨hnone, -⟩
    · exact ⟨content, hsame.trans hn, hcontent⟩
    · rw [hn] at hnone
      cases hnone

theorem ended_of_no_file (hl : h.logger = l) (hfile : l.file? = none) : h.Ended l False :=
  ⟨hl, False.elim, fun p hp => by simp [hfile] at hp⟩

theorem ended_turnOn (hoff : h.logger = .off) (least : Level) (path : Text) :
    ∃ file, (h.turnOn least path).Ended (.on least file) False := by
  rw [turnOn, hoff]
  dsimp only
  split
  · exact ⟨none, ended_of_no_file rfl rfl⟩
  · cases hopen : h.files.openEnd? path with
    | none => exact ⟨none, ended_of_no_file rfl rfl⟩
    | some opened =>
      rw [FileTree.openEnd?] at hopen
      obtain ⟨place, hplace, rfl⟩ := Option.map_eq_some_iff.1 hopen
      obtain ⟨-, -, hends⟩ := FileTree.writable?_endsAt hplace
      have hroot := hends.ne_root
      obtain ⟨_, _, _, -, -, -, hn⟩ := hends
      refine ⟨some place, rfl, False.elim, fun p hp => ?_⟩
      cases hp
      cases hnode : h.files.node? place with
      | none => exact ⟨.empty, FileTree.node?_put_self hroot _, False.elim⟩
      | some node =>
        cases node with
        | directory => exact absurd hnode hn
        | file content => exact ⟨content, hnode, False.elim⟩

/-- One host has a line more than the other, on standard error and in the logger's file. If
a file was written anew it is the same on both, also when it is the logger's, and so is
all else; standard output too, unless it is the logger's file. -/
structure Interlined (line : Text) (anew : Option Place) (h h' : Host) : Prop where
  logger : h'.logger = h.logger
  home : h'.home = h.home
  places : h'.stdout.places = h.stdout.places
  apart : h.Apart → h'.stdout = h.stdout
  mixed : ¬ h.Apart → h.stdout.printed.Spliced line h'.stdout.printed
  start : h'.files.start = h.files.start
  stderr : h.stderr.Interlined line h'.stderr
  file : ∀ p, h.logger.file? = some p → anew ≠ some p → ∃ old new,
    h.files.node? p = some (.file old) ∧ h'.files.node? p = some (.file new) ∧
      old.Interlined line new
  written : ∀ p, anew = some p → ∃ content,
    h.files.node? p = some (.file content) ∧ h'.files.node? p = some (.file content)
  elsewhere : ∀ p, h.logger.file? ≠ some p → h'.files.node? p = h.files.node? p

theorem Interlined.sameKinds (hi : h.Interlined line anew h') : h.files.SameKinds h'.files where
  start := hi.start
  node p := by
    by_cases hfile : h.logger.file? = some p
    · by_cases hanew : anew = some p
      · obtain ⟨content, hn, hn'⟩ := hi.written p hanew
        exact Or.inr ⟨content, content, hn, hn'⟩
      · obtain ⟨old, new, hold, hnew, -⟩ := hi.file p hfile hanew
        exact Or.inr ⟨old, new, hold, hnew⟩
    · exact Or.inl (hi.elsewhere p hfile)

theorem Ended.interlined {r : Reading} {e : LogEntry} (hended : h.Ended l (l.shows e = true)) :
    h.Interlined (l.shown r e) none (h.log r e) := by
  have hlogs := logs_log h r e
  have hline : l.shown r e ≠ [] → l.shows e = true := by
    rcases Logger.shown_cases r e l with ⟨-, hnil⟩ | ⟨hshows, -⟩
    · simp [hnil]
    · exact fun _ => hshows
  refine ⟨hlogs.logger, hlogs.home, hlogs.places, hlogs.stdout, fun hmixed => ?_,
    hlogs.files.start, ?_, fun p hp _ => ?_, fun p hp => ?_, fun p hp => ?_⟩
  · rw [stdout_log, printed_writeAt_mixed hmixed, hended.logger]
    exact Written.spliced_add _ _
  · rw [stderr_log, hended.logger]
    exact Written.interlined_add fun hne => hended.stderr (hline hne)
  · rw [hended.logger] at hp
    obtain ⟨content, hn, hcontent⟩ := hended.file p hp
    rw [node?_log, hended.logger, if_pos hp, hn]
    exact ⟨content, _, rfl, rfl, Written.interlined_add fun hne => hcontent (hline hne)⟩
  · cases hp
  · rw [node?_log, if_neg hp]

theorem Ended.interlined_refl (hended : h.Ended l False) : h.Interlined [] none h where
  logger := rfl
  home := rfl
  places := rfl
  apart _ := rfl
  mixed _ := ⟨h.stdout.printed.text, [], by simp, by simp⟩
  start := rfl
  stderr := Written.interlined_add (fun hne => absurd rfl hne)
  file p hp _ := by
    rw [hended.logger] at hp
    obtain ⟨content, hn, -⟩ := hended.file p hp
    exact ⟨content, content, hn, hn, Written.interlined_add (fun hne => absurd rfl hne)⟩
  written p hp := by cases hp
  elsewhere _ _ := rfl

theorem Interlined.log (hi : h.Interlined line anew h') (r : Reading) (e : LogEntry) :
    (h.log r e).Interlined line anew (h'.log r e) := by
  have hlogs := logs_log h r e
  have hlogs' := logs_log h' r e
  have hapart : h'.Apart ↔ h.Apart := by rw [Apart, Apart, hi.logger, hi.places]
  refine ⟨?_, ?_, ?_, fun ha => ?_, fun hmixed => ?_, ?_, ?_, fun p hp hanew => ?_,
    fun p hanew => ?_, fun p hp => ?_⟩
  · rw [logger_log, logger_log, hi.logger]
  · rw [hlogs.home, hlogs'.home, hi.home]
  · rw [hlogs.places, hlogs'.places, hi.places]
  · rw [hlogs.apart] at ha
    rw [hlogs.stdout ha, hlogs'.stdout (hapart.2 ha), hi.apart ha]
  · rw [hlogs.apart] at hmixed
    rw [stdout_log, stdout_log, printed_writeAt_mixed hmixed,
      printed_writeAt_mixed (mt hapart.1 hmixed), hi.logger]
    exact (hi.mixed hmixed).add _
  · rw [hlogs.files.start, hlogs'.files.start, hi.start]
  · rw [stderr_log, stderr_log, hi.logger]
    exact hi.stderr.add _
  · rw [logger_log] at hp
    obtain ⟨old, new, hold, hnew, hline⟩ := hi.file p hp hanew
    rw [node?_log, node?_log, hi.logger, if_pos hp, if_pos hp, hold, hnew]
    exact ⟨_, _, rfl, rfl, hline.add _⟩
  · -- a file that was written over the logger's goes on alike on both
    obtain ⟨content, hn, hn'⟩ := hi.written p hanew
    rw [node?_log, node?_log, hi.logger, hn, hn']
    split
    · exact ⟨_, rfl, rfl⟩
    · exact ⟨content, rfl, rfl⟩
  · rw [logger_log] at hp
    rw [node?_log, node?_log, hi.logger, if_neg hp, if_neg hp, hi.elsewhere p hp]

theorem Interlined.put (hi : h.Interlined line none h') {place : Place} (hroot : place ≠ .root)
    (content : Written) :
    ({ h with files := h.files.put place (.file content) } : Host).Interlined line (some place)
      { h' with files := h'.files.put place (.file content) } where
  logger := hi.logger
  home := hi.home
  places := hi.places
  apart := hi.apart
  mixed := hi.mixed
  start := hi.start
  stderr := hi.stderr
  file p hp hanew := by
    have hne : p ≠ place := fun he => hanew (congrArg some he.symm)
    dsimp only
    rw [FileTree.node?_put_of_ne hne, FileTree.node?_put_of_ne hne]
    exact hi.file p hp (by simp)
  written p hp := by
    cases hp
    exact ⟨content, FileTree.node?_put_self hroot _, FileTree.node?_put_self hroot _⟩
  elsewhere p hp := by
    dsimp only
    by_cases hplace : p = place
    · rw [hplace, FileTree.node?_put_self hroot, FileTree.node?_put_self hroot]
    · rw [FileTree.node?_put_of_ne hplace, FileTree.node?_put_of_ne hplace]
      exact hi.elsewhere p hp

end Host
end BargeIn
