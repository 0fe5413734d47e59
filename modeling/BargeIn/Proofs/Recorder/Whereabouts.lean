import BargeIn.Proofs.Files.Rooted
import BargeIn.Proofs.Recorder.Sessions

/-! Where a session's log is. The directory of a session is made under a composed path and
found again under the text that the recorder shows as its path; for a directory that is
written with at least one byte the two lead to one place, and the log is written there.
An empty directory is taken from the place that relative paths start from when the
session's directory is made, and from the root when its log is written. -/

namespace BargeIn

open Text (ascii)
open FileTree (maxPath)
open BargeIn.Path (pieces inside slash)

namespace Recorder

variable {t : FileTree} {x : Recorder} {d : Place} {o s last : Outcome} {told : List RecordedEvent}

theorem Housed.follow_id (h : Housed t x d) :
    t.follow d [x.id] = .present (d.child x.id) .directory := by
  rw [FileTree.follow_cons, FileTree.turn_isName h.name, if_neg (Nat.not_lt.2 h.short)]
  dsimp only
  rw [h.there]
  rfl

theorem Housed.lookup_inside (h : Housed t x d) (hlen : (inside x.dir x.id).length ≤ maxPath) :
    t.lookup (inside x.dir x.id) = .present (d.child x.id) .directory := by
  have hwhole := untilNul_inside h.noNul h.name
  have hne : inside x.dir x.id ≠ [] := by
    rw [inside]
    split <;> simp [h.dir_ne]
  rw [FileTree.lookup_eq (by rwa [hwhole]) (by rwa [hwhole]), hwhole, origin_inside h.name,
    FileTree.follow_inside h.name h.leads, h.follow_id]

theorem Housed.lookup_path (h : Housed t x d) (hlen : x.path.length ≤ maxPath) :
    t.lookup x.path = .present (d.child x.id) .directory := by
  have hpath : x.path = x.dir ++ slash :: x.id := rfl
  have hwhole : Text.untilNul x.path = x.path := by
    refine Path.untilNul_of_noNul ?_
    rw [hpath, List.mem_append, List.mem_cons, not_or, not_or]
    exact ⟨h.noNul, by decide, h.name.noNul⟩
  have hne : x.path ≠ [] := by simp [hpath]
  rw [FileTree.lookup_eq (by rwa [hwhole]) (by rwa [hwhole]), hwhole, hpath, FileTree.origin,
    isAbsolute_append h.dir_ne, ← FileTree.origin, Path.pieces_append_slash,
    h.leads.follow_append, Path.pieces_of_no_slash h.name.noSlash, h.follow_id]

theorem start_length {r : Reading} (hnul : (0 : UInt8) ∉ x.dir)
    (h : (x.start r t).fault = none) :
    (inside x.dir (x.start r t).recorder.id).length ≤ maxPath := by
  obtain ⟨id, hname, -, hmade, hx⟩ := start_made h
  obtain ⟨-, hlen, -⟩ := FileTree.makeDirectories_leads hmade
  rw [untilNul_inside hnul hname] at hlen
  rw [hx]
  exact hlen

theorem start_new {r : Reading} (hrooted : t.Rooted) (hnul : (0 : UInt8) ∉ x.dir)
    (hup : ascii ".." ∉ pieces x.dir) (h : (x.start r t).fault = none)
    (hd : Housed (x.start r t).files (x.start r t).recorder d) :
    t.node? (d.child (x.start r t).recorder.id) = none ∧
      (x.start r t).files.node? (logPlace d (x.start r t).recorder.id) = none := by
  have hlen := start_length hnul h
  have hlook := hd.lookup_inside ((start_dir r t x).1.symm ▸ hlen)
  rw [(start_dir r t x).1] at hlook
  rcases start_cases r t x with ⟨_, hf, -⟩ | ⟨id, hname, hfree, hfiles, hend⟩
  · rw [h] at hf
    cases hf
  rcases hend with ⟨_, _, -, hf, -⟩ | ⟨hmade, -, hx⟩
  · rw [h] at hf
    cases hf
  have hid : (x.start r t).recorder.id = id := congrArg Recorder.id hx
  rw [hid, hfiles] at hlook ⊢
  have hstays : ascii ".." ∉ pieces (Text.untilNul (inside x.dir id)) := by
    rw [untilNul_inside hnul hname]
    intro hm
    rcases Path.mem_pieces_inside hname.noSlash hm with hm | hm
    · exact hup hm
    · exact hname.ne_dots hm.symm
  obtain ⟨hnone, hmadeAt⟩ := hrooted.makeDirectories_new hstays hfree hmade hlook
  refine ⟨hnone, ?_⟩
  rcases hmadeAt (logPlace d id) with hsame | hin
  · rw [hsame]
    exact hrooted.child_none (by rw [hnone]; simp) _
  · -- the log would lie in the directory that was made last, and so is none of those made
    have hlength := hin.length_le
    simp only [logPlace, Place.child, List.length_cons] at hlength
    omega

section

variable [JsonLibrary]

theorem rooted_step (h : t.Rooted) (x : Recorder) (act : Act) : (x.step t act).files.Rooted := by
  cases act with
  | start r =>
    rcases start_cases r t x with ⟨_, -, -, hfiles⟩ | ⟨id, -, -, hfiles, -⟩
    · rw [step, hfiles]
      exact h
    · rw [step, hfiles]
      exact h.makeDirectories _
  | finish disk =>
    rw [step, finish]
    split
    · dsimp only
      split
      · exact h
      · exact h.write? ‹_›
    · exact h
  | report now what => exact h
  | describe key value => exact h

theorem rooted_run (h : o.files.Rooted) (acts : List Act) : (run o acts).files.Rooted := by
  induction acts generalizing o with
  | nil => exact h
  | cons act acts ih =>
    by_cases hback : o.fault = some .endless
    · rw [run_endless hback]
      exact h
    · rw [run_cons]
      refine ih ?_
      rw [Outcome.next_of_back hback]
      exact rooted_step h o.recorder act

end

theorem Housed.isDirectory_logPath (h : Housed t x d) (hn : t.node? (logPlace d x.id) = none) :
    t.isDirectory x.logPath = false := by
  by_cases hlen : x.logPath.length ≤ maxPath
  · rw [FileTree.isDirectory, h.lookup_logPath hlen, hn]
  · rw [FileTree.isDirectory, h.lookup_long (Nat.not_le.1 hlen)]

/-- The directory that is made for a session is the one that its path names, and finishing
the session puts its log into that directory, whenever the path of the log can be opened
at all. It can when the path has no NUL and is not too long, unless the recorder's
directory goes up again from a place where the log should be. The log says what was recorded if
the disk takes it, and the finish succeeds unless the disk is noticed to be full. -/
theorem log_lies_in_session_directory [JsonLibrary] (hlib : JsonLibrary.Documented)
    {t : FileTree} {dir : Text} {limit : Nat} {before during : List Act} {r : Reading}
    {prior s last : Outcome} (hdir : dir ≠ [])
    (hprior : live t dir limit before = prior)
    (hs : live t dir limit (before ++ [.start r]) = s)
    (hlast : live t dir limit (before ++ .start r :: during) = last)
    (hback : last.fault ≠ some .endless) (hopen : s.fault = none) (hgoes : goesOn s during = true)
    (hcount : during.length < 0x10000000000000000) (disk : Disk) :
    let o := last.recorder.finish disk last.files
    (o.fault = none ↔
      Loggable s.files s.recorder ∧ disk.notices last.recorder.logText = false) ∧
    (TakesLog disk last.recorder → (o.fault = none ↔ Loggable s.files s.recorder)) ∧
    ((0 : UInt8) ∉ dir → ∃ made,
      s.files.lookup (inside dir s.recorder.id) = .present made .directory ∧
      (s.recorder.path.length ≤ maxPath →
        s.files.lookup s.recorder.path = .present made .directory) ∧
      (Loggable s.files s.recorder →
        o.files = s.files.put (made.child (ascii "session_log.json"))
          (.file (.ofText (keptLog disk last.recorder))) ∧
        o.files.read? last.recorder.logPath = some (keptLog disk last.recorder) ∧
        (TakesLog disk last.recorder →
          JsonLibrary.read (keptLog disk last.recorder) = .ok last.recorder.recount)) ∧
      (t.Rooted → ascii ".." ∉ pieces dir →
        prior.files.node? made = none ∧ s.files.isDirectory s.recorder.logPath = false)) ∧
    last.recorder.events = kept limit (recorded s.recorder during) ∧
    last.recorder.dropped + last.recorder.events.length = (recorded s.recorder during).length := by
  intro o
  obtain ⟨hs', hlimit⟩ := live_opened hdir hs hopen
  have hstart : s = prior.next (.start r) := by
    rw [← hs, ← hprior, live, run_append]
    rfl
  have hstartBack : (run prior [.start r]).fault ≠ some .endless := by
    rw [run_cons, ← hstart]
    simp [run, hopen]
  have hpriorBack : prior.fault ≠ some .endless := back_of_run hstartBack
  have hduring : last = run s during := by
    rw [← hlast, ← hs, live, live, ← run_append, List.append_assoc, List.singleton_append]
  have hgone : Goes s (recorded s.recorder during) last :=
    hduring ▸ Goes.run hs' ⟨rfl, .refl _, hs'.holds⟩ hgoes (hduring ▸ hback)
  have hpriorDir : prior.recorder.dir = dir := by rw [← hprior]; exact (run_dir _ before).1
  have hsDir : s.recorder.dir = dir := by rw [← hs]; exact (run_dir _ _).1
  have hfault := hgone.finish_fault_iff hs' disk
  refine ⟨hfault, fun htakes => ?_, fun hnul => ?_, ?_, hgone.holds.counted⟩
  · rw [hfault, not_notices_of_takes htakes, and_iff_left rfl]
  · obtain ⟨d, hd⟩ := hs'.housed (hsDir ▸ hnul)
    have hinside := hd.lookup_inside
    rw [Outcome.next_of_back hpriorBack] at hstart
    have hlength : (inside dir s.recorder.id).length ≤ maxPath := by
      subst hstart
      exact hpriorDir ▸ start_length (hpriorDir ▸ hnul) hopen
    rw [hsDir] at hinside
    refine ⟨d.child s.recorder.id, hinside hlength, hd.lookup_path, fun hlog => ⟨?_, ?_, ?_⟩,
      fun hrooted hup => ?_⟩
    · exact congrArg Outcome.files ((hgone.finish hs' disk).2 d hd hlog)
    · have hw := hd.writable?_logPath hlog.short (hlog.free hd)
      rw [← hgone.files, ← hgone.same.logPath] at hw
      exact finish_read (hgone.same.active.trans hs'.active) (by rw [hw]; simp)
    · exact fun htakes => read_keptLog hlib htakes (hgone.countable hcount)
    · have hkept : prior.files.Rooted := hprior ▸ rooted_run hrooted before
      subst hstart
      obtain ⟨hnew, hempty⟩ := start_new hkept (hpriorDir ▸ hnul) (hpriorDir ▸ hup) hopen hd
      exact ⟨hnew, hd.isDirectory_logPath hempty⟩
  · rw [hgone.holds.events, hgone.same.maxEvents, hlimit]

theorem log_lies_in_session_directory_second :
    let lib := Json.library []
    let noon : Reading := ⟨0, ⟨2025, 1, 1, 12, 0, 0, 0⟩⟩
    let before : List Act := [.start noon, .finish .ample]
    let during : List Act := [.describe [] []]
    let prior := live ⟨[], .root⟩ (ascii "rec/") 2 before
    let s := live ⟨[], .root⟩ (ascii "rec/") 2 (before ++ [.start noon])
    let last := live ⟨[], .root⟩ (ascii "rec/") 2 (before ++ .start noon :: during)
    let o := last.recorder.finish .ample last.files
    lib.Documented ∧ o.fault = none ∧ ∃ made,
      s.files.lookup (ascii "rec/20250101_120000_2") = .present made .directory ∧
      s.files.lookup (ascii "rec//20250101_120000_2") = .present made .directory ∧
      prior.files.node? made = none ∧
      o.files = s.files.put (made.child (ascii "session_log.json"))
        (.file (.ofText (last.recorder.logText ++ [10]))) ∧
      JsonLibrary.read (last.recorder.logText ++ [10]) = .ok last.recorder.recount := by
  intro lib noon before during prior s last o
  have hlib : lib.Documented := Json.documented_library []
  have hid : s.recorder.id = ascii "20250101_120000_2" := by decide +kernel
  have hpath : s.recorder.path = ascii "rec//20250101_120000_2" := by decide +kernel
  have hlog : Loggable s.files s.recorder :=
    ⟨by decide +kernel, by decide +kernel, by decide +kernel⟩
  have hrooted : FileTree.Rooted ⟨[], .root⟩ := .bare
  have hopen : s.fault = none := by decide +kernel
  have hgoes : goesOn s during = true := by decide +kernel
  obtain ⟨-, hdone, hmade, -⟩ := log_lies_in_session_directory hlib (by decide)
    (show _ = prior from rfl) (show _ = s from rfl) (show _ = last from rfl)
    (by decide +kernel) hopen hgoes (by decide) .ample
  obtain ⟨made, hinside, hshown, hfiles, hnew⟩ := hmade (by decide)
  rw [hid] at hinside
  rw [hpath] at hshown
  obtain ⟨hput, -, hsays⟩ := hfiles hlog
  exact ⟨hlib, (hdone rfl).2 hlog, made, hinside, hshown (by decide),
    (hnew hrooted (by decide +kernel)).1, hput, hsays rfl⟩

/-- Without a directory of its own a session has its directory where relative paths start,
while its path, and the log that is to be written under it, begin at the root. -/
theorem empty_directory_loses_log :
    let _ := Json.library []
    let noon : Reading := ⟨0, ⟨2025, 1, 1, 12, 0, 0, 0⟩⟩
    let work : Place := Place.root.child (ascii "work")
    let s := live ⟨[(work, .directory)], work⟩ [] 10 [.start noon]
    let last := live ⟨[(work, .directory)], work⟩ [] 10
      [.start noon, .report 0 (.event (ascii "x") (ascii "1"))]
    s.fault = none ∧
      s.files.node? (work.child (ascii "20250101_120000")) = some .directory ∧
      s.recorder.path = ascii "/20250101_120000" ∧
      s.files.lookup s.recorder.path = .missing (Place.root.child (ascii "20250101_120000")) [] ∧
      (last.recorder.finish .ample last.files).fault =
        some (.told (.noLogFile (ascii "/20250101_120000/session_log.json"))) ∧
      (last.recorder.finish .ample last.files).files = s.files := by
  decide +kernel

end Recorder
end BargeIn
