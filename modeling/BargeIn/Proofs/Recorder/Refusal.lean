import BargeIn.Proofs.Recorder.LogContents

/-! A finish that fails. A recorder closes its session before it opens the log, so when the
log cannot be opened, or not be written, the session is over all the same. What was recorded
stays in the recorder until another session is opened, but nothing writes it any more, and
whoever asks again is told that all went well. -/

namespace BargeIn

open Text (ascii)

namespace Recorder

variable {x : Recorder} {t : FileTree} {later : List Moment}

def opensSession : Act × Outcome → Bool
  | (.start _, o) => o.fault = none
  | (.finish _, _) => false
  | (.report _ _, _) => false
  | (.describe _ _, _) => false

section

variable [JsonLibrary]

theorem step_closed (h : x.active = false) (t : FileTree) (act : Act)
    (hact : opensSession (act, x.step t act) = false) : (x.step t act).recorder = x := by
  cases act with
  | start r =>
    cases hf : (x.start r t).fault with
    | some f => exact start_refused hf
    | none => exact absurd hf (of_decide_eq_false hact)
  | finish disk => rw [step, finish_inactive h]
  | report now what => rw [step, record_inactive h]
  | describe key value => rw [step, setMetadata_inactive h]

theorem through_closed (h : x.active = false)
    (hlater : ∀ e ∈ x.history later, opensSession e = false) : x.through later = x := by
  induction later with
  | nil => rfl
  | cons m later ih =>
    rw [history, List.forall_mem_cons] at hlater
    have hstep := step_closed h m.files m.act hlater.1
    rw [through, hstep]
    exact ih (hstep ▸ hlater.2)

theorem close_inactive (h : x.active = false) (disk : Disk) (t : FileTree) :
    x.close disk t = ⟨x, t, [], none⟩ := by
  rw [close, finish_inactive h]
  rfl

end

/-- Finishing an open session writes its log, with all that the recorder holds if the disk
takes it, or fails because the log cannot be opened, and then leaves the files as they were,
or because the disk is noticed to be full. A failure leaves what is held as it was, but not the
session, which is closed either way. From then on, whatever is asked and whatever happens to
the files, the recorder stays as the finish left it until a session is opened, and to finish
or to go away writes nothing and meets no fault. -/
theorem finish_closes_session [JsonLibrary] (hlib : JsonLibrary.Documented) (dir : Text)
    (limit : Nat) {ms : List Moment} (hcount : ms.length < 0x10000000000000000) (disk : Disk)
    (t : FileTree) :
    let x := (ofDir dir limit).through ms
    let a := Account.ofHistory ((ofDir dir limit).history ms)
    let o := x.finish disk t
    let y := o.recorder
    y = { x with active := false } ∧ y.Holds a.told ∧
    (a.going = true →
      (o.fault = none ↔ t.writable? x.logPath ≠ none ∧ disk.notices x.logText = false) ∧
      (t.writable? x.logPath ≠ none → o.files.read? x.logPath = some (keptLog disk x) ∧
        (TakesLog disk x → o.fault = none ∧
          JsonLibrary.read (keptLog disk x) = .ok x.recount)) ∧
      (t.writable? x.logPath = none → o = ⟨y, t, [], some (.told (.noLogFile x.logPath))⟩) ∧
      (t.writable? x.logPath ≠ none → disk.notices x.logText = true →
        o.fault = some (.told (.notWritten x.logPath)))) ∧
    (a.going = false → o = ⟨x, t, [], none⟩) ∧
    ∀ later, (∀ e ∈ y.history later, opensSession e = false) →
      y.through later = y ∧
      ∀ disk' t', (y.through later).finish disk' t' = ⟨y, t', [], none⟩ ∧
        (y.through later).close disk' t' = ⟨y, t', [], none⟩ := by
  intro x a o y
  have hag : Agrees limit a x := agrees_through dir limit ms
  have hy : y = { x with active := false } := finish_recorder disk t x
  have hclosed : y.active = false := by rw [hy]
  refine ⟨hy, hy ▸ ⟨hag.holds.events, hag.holds.counted⟩, fun hgoing => ?_, fun hidle => ?_,
    fun later hlater => ?_⟩
  · have hactive : x.active = true := hag.active.trans hgoing
    have hfault : o.fault = none ↔
        t.writable? x.logPath ≠ none ∧ disk.notices x.logText = false := finish_fault_none hactive
    have hfinish := finish_active disk t hactive
    refine ⟨hfault, fun hw => ⟨finish_read hactive hw, fun htakes => ⟨?_, ?_⟩⟩, fun hw => ?_,
      fun hw hfull => ?_⟩
    · exact hfault.2 ⟨hw, not_notices_of_takes htakes⟩
    · exact read_keptLog hlib htakes ((measured_through dir limit ms).countable hcount)
    · rw [hw] at hfinish
      rw [hy]
      exact hfinish
    · obtain ⟨place, hplace⟩ := Option.ne_none_iff_exists'.1 hw
      rw [hplace, hfull] at hfinish
      exact congrArg Outcome.fault hfinish
  · exact finish_inactive (hag.active.trans hidle) disk t
  · rw [through_closed hclosed hlater]
    exact ⟨rfl, fun disk' t' => ⟨finish_inactive hclosed disk' t', close_inactive hclosed disk' t'⟩⟩

theorem finish_closes_session_directory_gone :
    let lib := Json.library []
    let noon : Reading := ⟨0, ⟨2025, 1, 1, 12, 0, 0, 0⟩⟩
    let bare : FileTree := ⟨[], .root⟩
    let there : FileTree := ((ofDir (ascii "rec") 2).start noon bare).files
    let told : Moment := ⟨there, .report 0 (.event (ascii "x") (ascii "1"))⟩
    let x := (ofDir (ascii "rec") 2).through [⟨bare, .start noon⟩, told]
    let y := (x.finish .ample bare).recorder
    lib.Documented ∧ x.active = true ∧ (x.finish .ample bare).fault ≠ none ∧
      y.events = x.events ∧ y.events.length = 1 ∧
      (y.through [⟨there, .finish .ample⟩, told]).close .ample there = ⟨y, there, [], none⟩ ∧
      there.read? y.logPath = none := by
  intro lib noon bare there told x y
  have hlib : lib.Documented := Json.documented_library []
  obtain ⟨hy, -, hgoing, -, hlater⟩ := finish_closes_session hlib (ascii "rec") 2
    (show [(⟨bare, .start noon⟩ : Moment), told].length < 0x10000000000000000 by decide)
    .ample bare
  obtain ⟨hiff, -⟩ := hgoing (by decide +kernel)
  have hlost : bare.writable? x.logPath = none := by decide +kernel
  have hclosed : y = { x with active := false } := hy
  refine ⟨hlib, by decide +kernel, fun hnone => (hiff.1 hnone).1 hlost, by rw [hclosed],
    by decide +kernel, ?_, by decide +kernel⟩
  exact ((hlater [⟨there, .finish .ample⟩, told] (by decide +kernel)).2 .ample there).2

/-- The directory of a session is taken away and made again. A finish in between is refused,
and one that comes after it writes no log though it could. -/
theorem second_finish_writes_nothing :
    let _ := Json.library []
    let noon : Reading := ⟨0, ⟨2025, 1, 1, 12, 0, 0, 0⟩⟩
    let bare : FileTree := ⟨[], .root⟩
    let there : FileTree := ((ofDir (ascii "rec") 2).start noon bare).files
    let x := (ofDir (ascii "rec") 2).through
      [⟨bare, .start noon⟩, ⟨there, .report 0 (.event (ascii "x") (ascii "1"))⟩]
    let refused := x.finish .ample bare
    let again := refused.recorder.finish .ample there
    x.active = true ∧
      refused.fault = some (.told (.noLogFile (ascii "rec/20250101_120000/session_log.json"))) ∧
      refused.recorder.active = false ∧ refused.recorder.events = x.events ∧
      (x.finish .ample there).files.read? x.logPath = some (x.logText ++ [10]) ∧
      again.fault = none ∧ again.files = there ∧ there.read? x.logPath = none := by
  decide +kernel

end Recorder
end BargeIn
