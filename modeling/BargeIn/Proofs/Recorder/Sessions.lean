import BargeIn.Proofs.Files.Writing
import BargeIn.Proofs.Recorder.Housing
import BargeIn.Proofs.Recorder.Recount

/-! What becomes of a session over the whole life of its recorder. While it is open
nothing happens to the files, and its log is written when the recorder is asked to
finish or goes away; from then on nobody writes to that log again. Opening another
session in between throws away what was recorded. -/

namespace BargeIn

open Text (ascii)
open FileTree (maxPath)

namespace Recorder

variable {t : FileTree} {x y z : Recorder} {d : Place} {o s : Outcome} {told : List RecordedEvent}

structure SameSession (x y : Recorder) : Prop where
  dir : y.dir = x.dir
  maxEvents : y.maxEvents = x.maxEvents
  id : y.id = x.id
  active : y.active = x.active
  startedAt : y.startedAt = x.startedAt

theorem SameSession.refl (x : Recorder) : x.SameSession x := ⟨rfl, rfl, rfl, rfl, rfl⟩

theorem SameSession.trans (h : x.SameSession y) (h' : y.SameSession z) : x.SameSession z where
  dir := h'.dir.trans h.dir
  maxEvents := h'.maxEvents.trans h.maxEvents
  id := h'.id.trans h.id
  active := h'.active.trans h.active
  startedAt := h'.startedAt.trans h.startedAt

theorem SameSession.logPath (h : x.SameSession y) : y.logPath = x.logPath := by
  rw [logPath_eq, logPath_eq, h.dir, h.id]

theorem SameSession.elapsedMs (h : x.SameSession y) : y.elapsedMs = x.elapsedMs := by
  funext now
  rw [Recorder.elapsedMs, Recorder.elapsedMs, h.startedAt]

theorem SameSession.housed (h : x.SameSession y) (hx : Housed t x d) : Housed t y d where
  dir_ne := h.dir ▸ hx.dir_ne
  noNul := h.dir ▸ hx.noNul
  name := h.id ▸ hx.name
  short := h.id ▸ hx.short
  leads := h.dir ▸ hx.leads
  there := h.id ▸ hx.there

theorem sameSession_record (now : Nanos) (report : Report) (x : Recorder) :
    x.SameSession (x.record now report).1 := by
  rw [record]
  split
  · rw [push]
    split <;> exact ⟨rfl, rfl, rfl, rfl, rfl⟩
  · exact .refl x

theorem sameSession_setMetadata (key value : Text) (x : Recorder) :
    x.SameSession (x.setMetadata key value) := by
  rw [setMetadata]
  split
  · exact ⟨rfl, rfl, rfl, rfl, rfl⟩
  · exact .refl x

theorem start_dir (r : Reading) (t : FileTree) (x : Recorder) :
    (x.start r t).recorder.dir = x.dir ∧ (x.start r t).recorder.maxEvents = x.maxEvents := by
  rcases start_cases r t x with ⟨_, -, hx, -⟩ | ⟨id, -, -, -, ⟨_, _, -, -, hx⟩ | ⟨-, -, hx⟩⟩ <;>
    rw [hx] <;> exact ⟨rfl, rfl⟩

/-- An act that ends the session that is open. -/
def ends (o : Outcome) : Act → Bool
  | .start r => (o.recorder.start r o.files).fault = none
  | .finish _ => true
  | .report _ _ => false
  | .describe _ _ => false

def event? (x : Recorder) : Act → Option RecordedEvent
  | .report now what => some (what.recorded (x.elapsedMs now))
  | .start _ => none
  | .finish _ => none
  | .describe _ _ => none

def recorded (x : Recorder) (acts : List Act) : List RecordedEvent := acts.filterMap (event? x)

theorem recorded_cons (x : Recorder) (act : Act) (acts : List Act) :
    recorded x (act :: acts) = (event? x act).toList ++ recorded x acts := by
  rw [recorded, List.filterMap_cons]
  cases event? x act <;> rfl

theorem Opened.start_endless (h : Opened t x) (hnul : (0 : UInt8) ∈ x.dir) (hy : y.dir = x.dir)
    (r : Reading) : y.start r t = ⟨y, t, [], some .endless⟩ := by
  obtain ⟨place, hl⟩ := h.nul hnul
  have htaken : ∀ name, t.has (Path.inside y.dir name) = true := by
    intro name
    rw [hy, Path.inside]
    split <;> rw [FileTree.has, hl]
  rw [start, freshId, firstFree_none fun n => htaken _]

theorem Opened.start_again {r : Reading} (h : Opened t x) (hy : y.dir = x.dir)
    (hf : (y.start r t).fault ≠ none) :
    (y.start r t).recorder = y ∧ (y.start r t).files = t := by
  by_cases hnul : (0 : UInt8) ∈ x.dir
  · rw [h.start_endless hnul hy]
    exact ⟨rfl, rfl⟩
  · obtain ⟨d, hd⟩ := h.housed hnul
    have hleads := hd.leads
    rw [← hy] at hleads
    rcases start_in_place (r := r) (hy ▸ h.dir_ne) (hy ▸ hnul) hleads with
      ⟨_, -, hx, hfiles⟩ | ⟨_, hnone, -⟩
    · exact ⟨hx, hfiles⟩
    · exact absurd hnone hf

theorem logPlace_ne_child (d : Place) (id id' : Text) : logPlace d id ≠ d.child id' := by
  intro h
  have hdepth := congrArg Place.depth (Place.child_inj.1 h).1
  simp [Place.child] at hdepth

theorem logPlace_inj {id id' : Text} (h : logPlace d id = logPlace d id') : id = id' :=
  (Place.child_inj.1 (Place.child_inj.1 h).1).2

theorem Housed.writable?_place (h : Housed t x d) {place : Place}
    (hw : t.writable? x.logPath = some place) :
    place = logPlace d x.id ∧ t.node? place ≠ some .directory := by
  by_cases hlen : x.logPath.length ≤ maxPath
  · rw [FileTree.writable?, h.lookup_logPath hlen] at hw
    cases hn : t.node? (logPlace d x.id) with
    | none =>
      rw [hn] at hw
      cases hw
      exact ⟨rfl, by rw [hn]; simp⟩
    | some node =>
      rw [hn] at hw
      cases node with
      | directory => cases hw
      | file content =>
        cases hw
        exact ⟨rfl, by rw [hn]; simp⟩
  · rw [FileTree.writable?, h.lookup_long (Nat.not_le.1 hlen)] at hw
    cases hw

theorem Housed.read?_file (h : Housed t x d) (hlen : x.logPath.length ≤ maxPath)
    {content : Written} (hn : t.node? (logPlace d x.id) = some (.file content)) :
    t.read? x.logPath = some content.text := by
  rw [FileTree.read?, h.lookup_logPath hlen, hn]

/-- A session of this recorder is over, its directory is where it was made and the
recorder may be in another session. -/
structure Past (x : Recorder) (d : Place) (t : FileTree) (y : Recorder) : Prop where
  housed : Housed t x d
  dir : y.dir = x.dir
  apart : y.active = true → y.id ≠ x.id ∧ Housed t y d

theorem past_opened {r : Reading} (hx : Housed t x d) (hdir : y.dir = x.dir)
    (hopen : (y.start r t).fault = none) :
    Past x d (y.start r t).files (y.start r t).recorder ∧
      (y.start r t).files.node? (logPlace d x.id) = t.node? (logPlace d x.id) := by
  have hleads := hx.leads
  rw [← hdir] at hleads
  rcases start_in_place (r := r) (hdir ▸ hx.dir_ne) (hdir ▸ hx.noNul) hleads with
    ⟨_, hf, -⟩ | ⟨id, -, hrec, hfree, hfiles, hhoused⟩
  · rw [hopen] at hf
    cases hf
  -- the name was free, and the directory of the session that is over is still there
  have hne : id ≠ x.id := by
    rintro rfl
    rw [hx.there] at hfree
    cases hfree
  have hkeeps := (FileTree.grows_put (Place.child_ne_root d id) hfree).keeps
  refine ⟨⟨?_, (start_dir r t y).1.trans hdir, fun _ => ⟨?_, hhoused⟩⟩, ?_⟩
  · rw [hfiles]
    exact hx.mono hkeeps
  · rw [hrec]
    exact hne
  · rw [hfiles, FileTree.node?_put_of_ne (logPlace_ne_child d x.id id)]

theorem Past.same (h : Past x d t y) (hsame : y.SameSession z) : Past x d t z where
  housed := h.housed
  dir := hsame.dir.trans h.dir
  apart hactive := by
    obtain ⟨hid, hhoused⟩ := h.apart (hsame.active.symm.trans hactive)
    exact ⟨fun he => hid (hsame.id.symm.trans he), hsame.housed hhoused⟩

section

variable [JsonLibrary]

def keptLog (disk : Disk) (x : Recorder) : Text := disk.keep (x.logText ++ [10])

def TakesLog (disk : Disk) (x : Recorder) : Prop := disk.holds (x.logText.length + 1) = true

theorem keptLog_of_takes {disk : Disk} (h : TakesLog disk x) :
    keptLog disk x = x.logText ++ [10] :=
  Disk.keep_of_holds (by rwa [List.length_append, List.length_singleton])

theorem not_notices_of_takes {disk : Disk} (h : TakesLog disk x) :
    disk.notices x.logText = false := by
  obtain ⟨buffer, room⟩ := disk
  cases room with
  | none => simp [Disk.notices, Disk.holds]
  | some room =>
    have hroom : x.logText.length + 1 ≤ room := of_decide_eq_true h
    simp only [Disk.notices, Disk.holds, Bool.and_eq_false_imp, decide_eq_true_eq,
      Bool.not_eq_false', decide_eq_true_eq]
    omega

theorem read_keptLog {disk : Disk} (hlib : JsonLibrary.Documented) (h : TakesLog disk x)
    (hcount : x.Countable) : JsonLibrary.read (keptLog disk x) = .ok x.recount := by
  rw [keptLog_of_takes h, read_logText hlib hcount]

theorem finish_recorder (disk : Disk) (t : FileTree) (x : Recorder) :
    (x.finish disk t).recorder = { x with active := false } := by
  rw [finish]
  split
  · dsimp only
    split <;> rfl
  · rename_i h
    rw [Bool.not_eq_true] at h
    rw [← h]

theorem finish_active (disk : Disk) (t : FileTree) (h : x.active = true) :
    x.finish disk t = match t.writable? x.logPath with
      | some place =>
        ⟨{ x with active := false }, t.put place (.file (.ofText (keptLog disk x))), [],
          if disk.notices x.logText then some (.told (.notWritten x.logPath)) else none⟩
      | none => ⟨{ x with active := false }, t, [], some (.told (.noLogFile x.logPath))⟩ := by
  have hpath : ({ x with active := false } : Recorder).logPath = x.logPath := rfl
  have htext : ({ x with active := false } : Recorder).logText = x.logText := rfl
  rw [finish, if_pos h]
  dsimp only
  rw [hpath, htext, FileTree.write?]
  cases t.writable? x.logPath <;> rfl

theorem finish_fault_none {disk : Disk} (h : x.active = true) :
    (x.finish disk t).fault = none ↔
      t.writable? x.logPath ≠ none ∧ disk.notices x.logText = false := by
  rw [finish_active disk t h]
  cases t.writable? x.logPath with
  | none => simp
  | some place => cases disk.notices x.logText <;> simp

theorem finish_read {disk : Disk} (h : x.active = true) (hw : t.writable? x.logPath ≠ none) :
    (x.finish disk t).files.read? x.logPath = some (keptLog disk x) := by
  obtain ⟨place, hplace⟩ := Option.ne_none_iff_exists'.1 hw
  rw [finish_active disk t h, hplace]
  exact FileTree.read?_write? (by rw [FileTree.write?, hplace]; rfl)

theorem step_dir (t : FileTree) (x : Recorder) (act : Act) :
    (x.step t act).recorder.dir = x.dir ∧ (x.step t act).recorder.maxEvents = x.maxEvents := by
  cases act with
  | start r => exact start_dir r t x
  | finish disk =>
    rw [step, finish_recorder]
    exact ⟨rfl, rfl⟩
  | report now what =>
    have hs := sameSession_record now what x
    exact ⟨hs.dir, hs.maxEvents⟩
  | describe key value =>
    have hs := sameSession_setMetadata key value x
    exact ⟨hs.dir, hs.maxEvents⟩

theorem run_cons (o : Outcome) (act : Act) (acts : List Act) :
    run o (act :: acts) = run (o.next act) acts := rfl

theorem run_append (o : Outcome) (as bs : List Act) : run o (as ++ bs) = run (run o as) bs :=
  List.foldl_append

theorem Outcome.next_of_back (h : o.fault ≠ some .endless) (act : Act) : o.next act =
    { o.recorder.step o.files act with log := o.log ++ (o.recorder.step o.files act).log } :=
  if_neg h

theorem run_endless (h : o.fault = some .endless) (acts : List Act) : run o acts = o := by
  induction acts with
  | nil => rfl
  | cons act acts ih => rw [run_cons, Outcome.next, if_pos h, ih]

theorem back_of_run {acts : List Act} (h : (run o acts).fault ≠ some .endless) :
    o.fault ≠ some .endless := fun he => h (by rw [run_endless he, he])

theorem run_dir (o : Outcome) (acts : List Act) :
    (run o acts).recorder.dir = o.recorder.dir ∧
      (run o acts).recorder.maxEvents = o.recorder.maxEvents := by
  induction acts generalizing o with
  | nil => exact ⟨rfl, rfl⟩
  | cons act acts ih =>
    by_cases h : o.fault = some .endless
    · rw [run_endless h]
      exact ⟨rfl, rfl⟩
    · obtain ⟨hdir, hmax⟩ := step_dir o.files o.recorder act
      obtain ⟨hdir', hmax'⟩ := ih (o.next act)
      rw [Outcome.next_of_back h] at hdir' hmax'
      rw [run_cons, Outcome.next_of_back h]
      exact ⟨hdir'.trans hdir, hmax'.trans hmax⟩

/-- A recorder made for a directory and asked to act. -/
def live (t : FileTree) (dir : Text) (limit : Nat) (acts : List Act) : Outcome :=
  run ⟨ofDir dir limit, t, [], none⟩ acts

def goesOn (o : Outcome) : List Act → Bool
  | [] => true
  | act :: acts => !ends o act && goesOn (o.next act) acts

structure Goes (s : Outcome) (told : List RecordedEvent) (o : Outcome) : Prop where
  files : o.files = s.files
  same : s.recorder.SameSession o.recorder
  holds : o.recorder.Holds told

theorem Goes.step {act : Act} (hs : Opened s.files s.recorder) (h : Goes s told o)
    (hback : o.fault ≠ some .endless) (hact : ends o act = false) :
    Goes s (told ++ (event? s.recorder act).toList) (o.next act) := by
  rw [Outcome.next_of_back hback]
  cases act with
  | start r =>
    have hf : (o.recorder.start r o.files).fault ≠ none := of_decide_eq_false hact
    rw [h.files] at hf
    -- it was not the end of the session, so it failed
    obtain ⟨hx, hfiles⟩ := hs.start_again h.same.dir hf
    rw [← h.files] at hx hfiles
    rw [event?, Option.toList_none, List.append_nil]
    exact ⟨hfiles.trans h.files, hx.symm ▸ h.same, hx.symm ▸ h.holds⟩
  | finish disk => cases hact
  | report now what =>
    have hactive : o.recorder.active = true := h.same.active.trans hs.active
    have hrecord : o.recorder.record now what =
        (o.recorder.push (what.recorded (o.recorder.elapsedMs now)), o.recorder.pushLog) :=
      if_pos hactive
    rw [event?, Option.toList_some, ← h.same.elapsedMs]
    refine ⟨h.files, h.same.trans (sameSession_record now what o.recorder), ?_⟩
    show (o.recorder.record now what).1.Holds _
    rw [hrecord]
    exact h.holds.push _
  | describe key value =>
    rw [event?, Option.toList_none, List.append_nil]
    exact ⟨h.files, h.same.trans (sameSession_setMetadata key value o.recorder),
      h.holds.setMetadata key value⟩

theorem Goes.run {acts : List Act} (hs : Opened s.files s.recorder) (h : Goes s told o)
    (hacts : goesOn o acts = true) (hback : (Recorder.run o acts).fault ≠ some .endless) :
    Goes s (told ++ recorded s.recorder acts) (Recorder.run o acts) := by
  induction acts generalizing o told with
  | nil =>
    rw [recorded, List.filterMap_nil, List.append_nil]
    exact h
  | cons act acts ih =>
    rw [goesOn, Bool.and_eq_true, Bool.not_eq_true'] at hacts
    have hnext := ih (h.step hs (back_of_run hback) hacts.1) hacts.2 hback
    rw [recorded_cons, ← List.append_assoc]
    exact hnext

theorem Past.step (h : Past x d t y) (act : Act) :
    Past x d (y.step t act).files (y.step t act).recorder ∧
      (y.step t act).files.node? (logPlace d x.id) = t.node? (logPlace d x.id) := by
  cases act with
  | start r =>
    have hleads := h.housed.leads
    rw [← h.dir] at hleads
    rcases start_in_place (r := r) (h.dir ▸ h.housed.dir_ne) (h.dir ▸ h.housed.noNul) hleads with
      ⟨_, -, hrec, hfiles⟩ | ⟨_, hopen, -⟩
    · rw [Recorder.step, hrec, hfiles]
      exact ⟨h, rfl⟩
    · exact past_opened h.housed h.dir hopen
  | finish disk =>
    rw [Recorder.step]
    by_cases hactive : y.active = true
    · obtain ⟨hid, hhoused⟩ := h.apart hactive
      rw [finish_active disk t hactive]
      cases hw : t.writable? y.logPath with
      | none => exact ⟨⟨h.housed, h.dir, fun hfalse => by cases hfalse⟩, rfl⟩
      | some place =>
        -- the log that is written now is that of another session, so of another place
        obtain ⟨rfl, hn⟩ := hhoused.writable?_place hw
        have hne : logPlace d x.id ≠ logPlace d y.id := fun he => hid (logPlace_inj he).symm
        have hkeeps := FileTree.keeps_put_file hn (.ofText (keptLog disk y))
        exact ⟨⟨h.housed.mono hkeeps, h.dir, fun hfalse => by cases hfalse⟩,
          FileTree.node?_put_of_ne hne _⟩
    · rw [finish_inactive (Bool.eq_false_iff.2 hactive)]
      exact ⟨h, rfl⟩
  | report now what => exact ⟨h.same (sameSession_record now what y), rfl⟩
  | describe key value => exact ⟨h.same (sameSession_setMetadata key value y), rfl⟩

theorem Past.run (h : Past x d o.files o.recorder) (acts : List Act) :
    Past x d (Recorder.run o acts).files (Recorder.run o acts).recorder ∧
      (Recorder.run o acts).files.node? (logPlace d x.id) = o.files.node? (logPlace d x.id) := by
  induction acts generalizing o with
  | nil => exact ⟨h, rfl⟩
  | cons act acts ih =>
    by_cases hback : o.fault = some .endless
    · rw [run_endless hback]
      exact ⟨h, rfl⟩
    · obtain ⟨hstep, hnode⟩ := h.step act
      have hnext := @ih (o.next act) (by rw [Outcome.next_of_back hback]; exact hstep)
      have hfiles : (o.next act).files = (o.recorder.step o.files act).files := by
        rw [Outcome.next_of_back hback]
      rw [hfiles] at hnext
      exact ⟨hnext.1, hnext.2.trans hnode⟩

def Outcome.left (disk : Disk) (o : Outcome) : FileTree := (o.recorder.close disk o.files).files

theorem Outcome.left_eq (disk : Disk) (h : o.fault ≠ some .endless) :
    o.left disk = (run o [.finish disk]).files := by
  rw [run_cons, Outcome.next_of_back h]
  rfl

theorem finish_logs (hx : Housed o.files x d) (hsame : x.SameSession o.recorder)
    (hactive : o.recorder.active = true) (hback : o.fault ≠ some .endless)
    (hlog : Loggable o.files x) (disk : Disk) (rest : List Act) :
    (run o (.finish disk :: rest)).files.read? x.logPath = some (keptLog disk o.recorder) := by
  have hn := hlog.free hx
  have hfinish := finish_active disk o.files hactive
  rw [hsame.logPath, hx.writable?_logPath hlog.short hn] at hfinish
  have hfiles : (o.next (.finish disk)).files =
      o.files.put (logPlace d x.id) (.file (.ofText (keptLog disk o.recorder))) := by
    rw [Outcome.next_of_back hback, Recorder.step, hfinish]
  have hrec : (o.next (.finish disk)).recorder = { o.recorder with active := false } := by
    rw [Outcome.next_of_back hback, Recorder.step, hfinish]
  have hpast : Past x d (o.next (.finish disk)).files (o.next (.finish disk)).recorder := by
    rw [hfiles, hrec]
    exact ⟨hx.mono (FileTree.keeps_put_file hn _), hsame.dir, fun hfalse => by cases hfalse⟩
  obtain ⟨hend, hnode⟩ := hpast.run rest
  rw [hfiles, logPlace, FileTree.node?_put_self (Place.child_ne_root _ _)] at hnode
  rw [run_cons, hend.housed.read?_file hlog.short hnode, Written.text_ofText]

theorem start_forgets {r : Reading} (hx : Housed o.files x d) (hdir : o.recorder.dir = x.dir)
    (hback : o.fault ≠ some .endless) (hopen : (o.recorder.start r o.files).fault = none)
    (hnone : o.files.read? x.logPath = none) (rest : List Act) :
    (run o (.start r :: rest)).files.read? x.logPath = none := by
  obtain ⟨hpast, hnode⟩ := past_opened hx hdir hopen
  have hnext : (o.next (.start r)).recorder = (o.recorder.start r o.files).recorder ∧
      (o.next (.start r)).files = (o.recorder.start r o.files).files := by
    rw [Outcome.next_of_back hback]
    exact ⟨rfl, rfl⟩
  rw [← hnext.1, ← hnext.2] at hpast
  rw [← hnext.2] at hnode
  obtain ⟨hend, hnode'⟩ := hpast.run rest
  rw [run_cons]
  by_cases hlen : x.logPath.length ≤ maxPath
  · rw [FileTree.read?, hx.lookup_logPath hlen] at hnone
    rw [FileTree.read?, hend.housed.lookup_logPath hlen, hnode', hnode]
    exact hnone
  · rw [FileTree.read?, hend.housed.lookup_long (Nat.not_le.1 hlen)]

theorem live_opened {dir : Text} {limit : Nat} {before : List Act} {r : Reading}
    (hdir : dir ≠ []) (hs : live t dir limit (before ++ [.start r]) = s) (hopen : s.fault = none) :
    Opened s.files s.recorder ∧ s.recorder.maxEvents = limit := by
  have hkept := (run_dir ⟨ofDir dir limit, t, [], none⟩ before).1
  have hlimit := (run_dir ⟨ofDir dir limit, t, [], none⟩ (before ++ [.start r])).2
  rw [live] at hs
  rw [hs] at hlimit
  rw [run_append] at hs
  have hend : (run (run ⟨ofDir dir limit, t, [], none⟩ before) [.start r]).fault ≠
      some .endless := by
    rw [hs, hopen]
    simp
  have hback : (run ⟨ofDir dir limit, t, [], none⟩ before).fault ≠ some .endless :=
    back_of_run hend
  rw [run_cons, Outcome.next_of_back hback] at hs
  subst hs
  exact ⟨start_opened (by rw [hkept]; exact hdir) hopen, hlimit⟩

theorem Goes.finish (hs : Opened s.files s.recorder) (h : Goes s told o) (disk : Disk) :
    (¬ Loggable s.files s.recorder →
      o.recorder.finish disk o.files = ⟨{ o.recorder with active := false }, s.files, [],
        some (.told (.noLogFile s.recorder.logPath))⟩) ∧
    ∀ d, Housed s.files s.recorder d → Loggable s.files s.recorder →
      o.recorder.finish disk o.files = ⟨{ o.recorder with active := false },
        s.files.put (logPlace d s.recorder.id) (.file (.ofText (keptLog disk o.recorder))), [],
        if disk.notices o.recorder.logText then some (.told (.notWritten s.recorder.logPath))
        else none⟩ := by
  have hfinish := finish_active disk o.files (h.same.active.trans hs.active)
  rw [h.same.logPath, h.files] at hfinish
  rw [h.files]
  refine ⟨fun hlog => ?_, fun d hd hlog => ?_⟩
  · rw [hfinish, hs.writable?_none hlog (FileTree.Grows.refl _).keeps]
  · rw [hfinish, hd.writable?_logPath hlog.short (hlog.free hd)]

theorem Goes.finish_fault {disk : Disk} {f : Failure} (hs : Opened s.files s.recorder)
    (h : Goes s told o) (hf : (o.recorder.finish disk o.files).fault = some f) :
    f = .told (.noLogFile s.recorder.logPath) ∧ ¬ Loggable s.files s.recorder ∨
      f = .told (.notWritten s.recorder.logPath) ∧ Loggable s.files s.recorder := by
  obtain ⟨hrefused, hwritten⟩ := h.finish hs disk
  by_cases hlog : Loggable s.files s.recorder
  · obtain ⟨d, hd⟩ := hs.housed hlog.noNul
    rw [hwritten d hd hlog] at hf
    dsimp only at hf
    split at hf
    · exact Or.inr ⟨(Option.some.inj hf).symm, hlog⟩
    · cases hf
  · rw [hrefused hlog] at hf
    exact Or.inl ⟨(Option.some.inj hf).symm, hlog⟩

theorem Goes.finish_fault_iff (hs : Opened s.files s.recorder) (h : Goes s told o) (disk : Disk) :
    (o.recorder.finish disk o.files).fault = none ↔
      Loggable s.files s.recorder ∧ disk.notices o.recorder.logText = false := by
  obtain ⟨hrefused, hwritten⟩ := h.finish hs disk
  by_cases hlog : Loggable s.files s.recorder
  · obtain ⟨d, hd⟩ := hs.housed hlog.noNul
    rw [hwritten d hd hlog]
    cases disk.notices o.recorder.logText <;> simp [hlog]
  · rw [hrefused hlog]
    simp [hlog]

end

theorem Goes.countable {acts : List Act} (h : Goes s (recorded s.recorder acts) o)
    (hcount : acts.length < 0x10000000000000000) : o.recorder.Countable := by
  have hlength : (recorded s.recorder acts).length ≤ acts.length := List.length_filterMap_le _ _
  have hcounted := h.holds.counted
  refine ⟨by omega, fun e he => ?_⟩
  have htold : e ∈ recorded s.recorder acts := h.holds.suffix.mem he
  obtain ⟨act, -, hact⟩ := List.mem_filterMap.1 htold
  cases act with
  | report now what => exact Option.some.inj hact ▸ inRange_recorded s.recorder now what
  | start r => cases hact
  | finish disk => cases hact
  | describe key value => cases hact

/-- A session in the life of a recorder, from the act that opened it to the one that ends
it: the recorder holds what was recorded in it, the last events as many as the limit
allows and the others counted. Finishing, or going away, writes a log that stands there to the
end and, if the disk takes it, is read as just this. A finish tells when the log cannot be
opened or the disk is noticed to be full; opening another session leaves no log. -/
theorem session_fate [JsonLibrary] (hlib : JsonLibrary.Documented) {t : FileTree} {dir : Text}
    {limit : Nat} {before during after : List Act} {r : Reading} {disk : Disk} {s last : Outcome}
    {final : FileTree} (hdir : dir ≠ [])
    (hs : live t dir limit (before ++ [.start r]) = s)
    (hlast : live t dir limit (before ++ .start r :: during) = last)
    (hback : (live t dir limit (before ++ .start r :: (during ++ after))).fault ≠ some .endless)
    (hfinal : (live t dir limit (before ++ .start r :: (during ++ after))).left disk = final)
    (hopen : s.fault = none) (hgoes : goesOn s during = true)
    (hcount : during.length < 0x10000000000000000) :
    last.recorder.id = s.recorder.id ∧
    last.recorder.events = kept limit (recorded s.recorder during) ∧
    last.recorder.dropped + last.recorder.events.length = (recorded s.recorder during).length ∧
    (Loggable s.files s.recorder → ∀ closing,
      (after = [] ∧ closing = disk ∨ ∃ rest, after = .finish closing :: rest) →
        final.read? s.recorder.logPath = some (keptLog closing last.recorder) ∧
        (TakesLog closing last.recorder →
          JsonLibrary.read (keptLog closing last.recorder) = .ok last.recorder.recount)) ∧
    (∀ closing, (last.recorder.finish closing last.files).fault = none ↔
      Loggable s.files s.recorder ∧ closing.notices last.recorder.logText = false) ∧
    (∀ closing f, (last.recorder.finish closing last.files).fault = some f →
      f = .told (.noLogFile s.recorder.logPath) ∧ ¬ Loggable s.files s.recorder ∨
        f = .told (.notWritten s.recorder.logPath) ∧ Loggable s.files s.recorder) ∧
    (∀ r' rest, after = .start r' :: rest →
      (last.recorder.start r' last.files).fault = none →
      s.files.read? s.recorder.logPath = none → final.read? s.recorder.logPath = none) := by
  obtain ⟨hs', hlimit⟩ := live_opened hdir hs hopen
  have hduring : last = run s during := by
    rw [← hlast, ← hs, live, live, ← run_append, List.append_assoc, List.singleton_append]
  have hwhole : live t dir limit (before ++ .start r :: (during ++ after)) = run last after := by
    rw [hduring, ← hs, live, live, ← run_append, ← run_append]
    simp only [List.append_assoc, List.cons_append, List.nil_append]
  rw [hwhole] at hback hfinal
  have hlastBack : last.fault ≠ some .endless := back_of_run hback
  have hafter : final = (run last (after ++ [.finish disk])).files := by
    rw [← hfinal, Outcome.left_eq disk hback, ← run_append]
  have hgone : Goes s (recorded s.recorder during) last :=
    hduring ▸ Goes.run hs' ⟨rfl, .refl _, hs'.holds⟩ hgoes (hduring ▸ hlastBack)
  have hactive : last.recorder.active = true := hgone.same.active.trans hs'.active
  refine ⟨hgone.same.id, ?_, hgone.holds.counted, fun hlog closing hclosed => ?_,
    fun closing => hgone.finish_fault_iff hs' closing,
    fun closing f hf => hgone.finish_fault hs' hf, fun r' rest hnext hreopen hnone => ?_⟩
  · rw [hgone.holds.events, hgone.same.maxEvents, hlimit]
  · obtain ⟨d, hd⟩ := hs'.housed hlog.noNul
    refine ⟨?_, fun htakes => read_keptLog hlib htakes (hgone.countable hcount)⟩
    rw [← hgone.files] at hd hlog
    rw [hafter]
    rcases hclosed with ⟨rfl, rfl⟩ | ⟨rest, rfl⟩
    · exact finish_logs hd hgone.same hactive hlastBack hlog closing []
    · exact finish_logs hd hgone.same hactive hlastBack hlog closing _
  · -- with a NUL in the directory no second session could have been opened
    have hnul : (0 : UInt8) ∉ s.recorder.dir := fun hnul => by
      rw [hgone.files, hs'.start_endless hnul hgone.same.dir] at hreopen
      cases hreopen
    obtain ⟨d, hd⟩ := hs'.housed hnul
    rw [← hgone.files] at hd hnone
    rw [hafter, hnext]
    exact start_forgets hd hgone.same.dir hlastBack hreopen hnone _

theorem session_fate_crowded :
    let lib := Json.library []
    let noon : Reading := ⟨0, ⟨2025, 1, 1, 12, 0, 0, 0⟩⟩
    let told : List Act := [.report 5000000 (.event (ascii "a") []),
      .report 6000000 (.event (ascii "b") []), .report 7000000 (.event (ascii "c") [])]
    let tree : FileTree := ⟨[], .root⟩
    let s := live tree (ascii "rec") 2 [.start noon]
    let last := live tree (ascii "rec") 2 (.start noon :: told)
    lib.Documented ∧ s.fault = none ∧ last.fault ≠ some .endless ∧
      (∃ text, (last.left .ample).read? (ascii "rec/20250101_120000/session_log.json") =
        some text ∧ JsonLibrary.read text = .ok last.recorder.recount) ∧
      last.recorder.events =
        [⟨6, ascii "b", [], false, [], []⟩, ⟨7, ascii "c", [], false, [], []⟩] ∧
      last.recorder.dropped = 1 := by
  intro lib noon told tree s last
  have hlib : lib.Documented := Json.documented_library []
  have hopen : s.fault = none := by decide +kernel
  have hback : last.fault ≠ some .endless := by decide +kernel
  have hpath : s.recorder.logPath = ascii "rec/20250101_120000/session_log.json" := by
    decide +kernel
  have hlog : Loggable s.files s.recorder :=
    ⟨by decide +kernel, by rw [hpath]; decide, by decide +kernel⟩
  have hwhole : live tree (ascii "rec") 2 ([] ++ .start noon :: (told ++ [])) = last := by
    rw [List.append_nil, List.nil_append]
  obtain ⟨-, hevents, hcounted, hlogged, -⟩ := session_fate hlib (by decide)
    (show live tree (ascii "rec") 2 ([] ++ [.start noon]) = s from rfl)
    (show live tree (ascii "rec") 2 ([] ++ .start noon :: told) = last from rfl)
    (hwhole.symm ▸ hback) (congrArg (Outcome.left .ample) hwhole) hopen (by decide +kernel)
    (by decide)
  obtain ⟨hread, hsays⟩ := hlogged hlog .ample (Or.inl ⟨rfl, rfl⟩)
  have hkept : last.recorder.events =
      [⟨6, ascii "b", [], false, [], []⟩, ⟨7, ascii "c", [], false, [], []⟩] :=
    hevents.trans (by decide)
  rw [hpath] at hread
  rw [hkept] at hcounted
  exact ⟨hlib, hopen, hback, ⟨_, hread, hsays rfl⟩, hkept, Nat.add_right_cancel hcounted⟩

/-- An event recorded before another session is opened is in no log and is not counted. -/
theorem reopening_loses_events :
    let _ := Json.library []
    let noon : Reading := ⟨0, ⟨2025, 1, 1, 12, 0, 0, 0⟩⟩
    let told : List Act := [.report 0 (.event (ascii "x") (ascii "1"))]
    let tree : FileTree := ⟨[], .root⟩
    let first := live tree (ascii "rec") 10 (.start noon :: told)
    let whole := live tree (ascii "rec") 10 (.start noon :: told ++ [.start noon, .finish .ample])
    (live tree (ascii "rec") 10 [.start noon]).fault = none ∧
      (live tree (ascii "rec") 10 (.start noon :: told ++ [.start noon])).fault = none ∧
      whole.fault = none ∧ first.recorder.events ≠ [] ∧
      (whole.left .ample).read? first.recorder.logPath = none ∧
      (whole.left .ample).read? whole.recorder.logPath = some (whole.recorder.logText ++ [10]) ∧
      whole.recorder.events = [] ∧ whole.recorder.dropped = 0 := by
  decide +kernel

end Recorder
end BargeIn
