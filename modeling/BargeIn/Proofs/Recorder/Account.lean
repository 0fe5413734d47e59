import BargeIn.Proofs.Recorder.Sessions
import BargeIn.Proofs.Text.Records
import Mathlib.Data.List.Induction

/-! The account of a recorder. Whoever uses a recorder sees which acts were refused, and
so knows whether a session is open and what was recorded in each of the sessions so far.
What the recorder holds follows from this account, whatever happens to the files between
its acts: the last events of the newest session, as many as the limit allows. It warns
once in every session that was told more than that. -/

namespace BargeIn

open Text (ascii)

namespace Recorder

structure Moment where
  files : FileTree
  act : Act

section

variable [JsonLibrary]

def through (x : Recorder) : List Moment → Recorder
  | [] => x
  | m :: ms => through (x.step m.files m.act).recorder ms

def history (x : Recorder) : List Moment → List (Act × Outcome)
  | [] => []
  | m :: ms => (m.act, x.step m.files m.act) :: history (x.step m.files m.act).recorder ms

theorem through_append (x : Recorder) (ms ns : List Moment) :
    x.through (ms ++ ns) = (x.through ms).through ns := by
  induction ms generalizing x with
  | nil => rfl
  | cons m ms ih => exact ih _

theorem history_append (x : Recorder) (ms ns : List Moment) :
    x.history (ms ++ ns) = x.history ms ++ (x.through ms).history ns := by
  induction ms generalizing x with
  | nil => rfl
  | cons m ms ih => exact congrArg _ (ih _)

end

/-- What the acts and their faults tell: whether a session is open, when the newest one was
opened, what was recorded in each session, the newest first, and what was said about the
newest. -/
structure Account where
  going : Bool
  startedAt : Nanos
  sessions : List (List RecordedEvent)
  described : List (Text × Text)

namespace Account

def blank : Account := ⟨false, 0, [], []⟩

def told (a : Account) : List RecordedEvent := a.sessions.headD []

def elapsedMs (a : Account) (now : Nanos) : Int := (elapsed a.startedAt now).tdiv 1000000

def after (a : Account) : Act → Option Failure → Account
  | .start r, none => ⟨true, r.nanos, [] :: a.sessions, []⟩
  | .start _, some _ => a
  | .finish _, _ => { a with going := false }
  | .report now what, _ =>
    if a.going then
      { a with sessions := (a.told ++ [what.recorded (a.elapsedMs now)]) :: a.sessions.tail }
    else a
  | .describe key value, _ =>
    if a.going then { a with described := a.described ++ [(key, value)] } else a

def ofHistory (h : List (Act × Outcome)) : Account :=
  h.foldl (fun a happened => a.after happened.1 happened.2.fault) blank

def value? (a : Account) (key : Text) : Option Text :=
  (a.described.filterMap fun d => if d.1 = key then some d.2 else none).getLast?

end Account

def fullWarning (limit : Nat) : LogEntry :=
  .warn "[Recorder] " (ascii "Event buffer full (" ++ Text.ofNat limit ++
    ascii "), dropping oldest events")

def warnings (log : List LogEntry) : List LogEntry := log.filter (·.level = .warn)

def Crowds (limit : Nat) (told : List RecordedEvent) : Prop := 0 < limit ∧ limit < told.length

instance (limit : Nat) (told : List RecordedEvent) : Decidable (Crowds limit told) :=
  inferInstanceAs (Decidable (_ ∧ _))

variable {x : Recorder} {told : List RecordedEvent} {limit : Nat} {a : Account}

theorem start_refused {r : Reading} {t : FileTree} {f : Failure}
    (h : (x.start r t).fault = some f) : (x.start r t).recorder = x := by
  rcases start_cases r t x with ⟨_, -, hx, -⟩ | ⟨_, -, -, -, ⟨_, _, -, -, hx⟩ | ⟨-, hnone, -⟩⟩
  · exact hx
  · exact hx
  · rw [h] at hnone
    cases hnone

theorem warnings_start (r : Reading) (t : FileTree) (x : Recorder) :
    warnings (x.start r t).log = [] := by
  rw [start]
  split
  · rfl
  · dsimp only
    split <;> rfl

theorem warnings_finish [JsonLibrary] (disk : Disk) (t : FileTree) (x : Recorder) :
    warnings (x.finish disk t).log = [] := by
  rw [finish]
  split
  · dsimp only
    split <;> rfl
  · rfl

theorem Holds.overflows_iff (h : x.Holds told) (e : RecordedEvent) :
    (x.isFull = true ∧ x.dropped = 0) ↔
      Crowds x.maxEvents (told ++ [e]) ∧ ¬ Crowds x.maxEvents told := by
  have hlength := h.length
  have hcounted := h.counted
  simp only [isFull, Crowds, Bool.and_eq_true, decide_eq_true_eq, List.length_append,
    List.length_singleton]
  split at hlength <;> omega

theorem warnings_pushLog (x : Recorder) :
    warnings x.pushLog =
      if x.isFull = true ∧ x.dropped = 0 then [fullWarning x.maxEvents] else [] := by
  rw [pushLog]
  split <;> rfl

structure Agrees (limit : Nat) (a : Account) (x : Recorder) : Prop where
  maxEvents : x.maxEvents = limit
  active : x.active = a.going
  startedAt : x.startedAt = a.startedAt
  holds : x.Holds a.told
  nameBytes : ∀ b ∈ x.id, NameByte b
  ordered : Record.Ordered x.metadata
  metadata : ∀ key, Record.get? key x.metadata = a.value? key

theorem agrees_blank (dir : Text) (limit : Nat) : Agrees limit .blank (ofDir dir limit) where
  maxEvents := rfl
  active := rfl
  startedAt := rfl
  holds := ⟨(kept_nil _).symm, rfl⟩
  nameBytes b hb := by cases hb
  ordered := Record.ordered_nil
  metadata _ := rfl

theorem Agrees.start (h : Agrees limit a x) (r : Reading) (t : FileTree) :
    Agrees limit (a.after (.start r) (x.start r t).fault) (x.start r t).recorder := by
  cases hf : (x.start r t).fault with
  | some f =>
    rw [start_refused hf]
    exact h
  | none =>
    have hname : ∀ b ∈ (x.start r t).recorder.id, NameByte b := fun b hb => nameByte_start hf hb
    obtain ⟨id, -, -, -, hx⟩ := start_made hf
    rw [hx] at hname ⊢
    exact ⟨h.maxEvents, rfl, rfl, holds_opened x id r.nanos, hname, Record.ordered_nil,
      fun _ => rfl⟩

theorem Agrees.finish [JsonLibrary] (h : Agrees limit a x) (disk : Disk) (t : FileTree)
    (f : Option Failure) : Agrees limit (a.after (.finish disk) f) (x.finish disk t).recorder := by
  rw [finish_recorder]
  exact ⟨h.maxEvents, rfl, h.startedAt, ⟨h.holds.events, h.holds.counted⟩, h.nameBytes,
    h.ordered, h.metadata⟩

theorem metadata_push (x : Recorder) (e : RecordedEvent) : (x.push e).metadata = x.metadata := by
  rw [push]
  split <;> rfl

theorem dropped_push (x : Recorder) (e : RecordedEvent) :
    (x.push e).dropped = if x.isFull then x.dropped + 1 else x.dropped := by
  rw [push]
  split <;> rfl

theorem record_active (h : x.active = true) (now : Nanos) (what : Report) :
    x.record now what = (x.push (what.recorded (x.elapsedMs now)), x.pushLog) := if_pos h

theorem record_inactive (h : x.active = false) (now : Nanos) (what : Report) :
    x.record now what = (x, []) := if_neg (by rw [h]; exact Bool.false_ne_true)

theorem setMetadata_inactive (h : x.active = false) (key value : Text) :
    x.setMetadata key value = x := if_neg (by rw [h]; exact Bool.false_ne_true)

theorem Agrees.record (h : Agrees limit a x) (now : Nanos) (what : Report)
    (f : Option Failure) :
    Agrees limit (a.after (.report now what) f) (x.record now what).1 := by
  have hsame := sameSession_record now what x
  cases hgoing : a.going with
  | false =>
    rw [record_inactive (h.active.trans hgoing), Account.after, hgoing]
    exact h
  | true =>
    have hactive := h.active.trans hgoing
    have helapsed : x.elapsedMs now = a.elapsedMs now := by
      rw [elapsedMs, Account.elapsedMs, h.startedAt]
    rw [record_active hactive, helapsed] at hsame ⊢
    rw [Account.after, if_pos hgoing]
    exact ⟨hsame.maxEvents.trans h.maxEvents, hsame.active.trans h.active,
      hsame.startedAt.trans h.startedAt, h.holds.push _, hsame.id ▸ h.nameBytes,
      metadata_push x _ ▸ h.ordered, metadata_push x _ ▸ h.metadata⟩

theorem Account.value?_describe (h : a.going = true) (key value : Text)
    (f : Option Failure) (k : Text) :
    (a.after (.describe key value) f).value? k = if k = key then some value else a.value? k := by
  rw [after, if_pos h, value?, value?, List.filterMap_append]
  by_cases hk : key = k
  · simp [hk]
  · simp [hk, Ne.symm hk]

theorem Agrees.describe (h : Agrees limit a x) (key value : Text) (f : Option Failure) :
    Agrees limit (a.after (.describe key value) f) (x.setMetadata key value) := by
  cases hgoing : a.going with
  | false =>
    rw [setMetadata_inactive (h.active.trans hgoing), Account.after, hgoing]
    exact h
  | true =>
    have hactive := h.active.trans hgoing
    have hvalue := Account.value?_describe hgoing key value f
    rw [Account.after, if_pos hgoing] at hvalue ⊢
    rw [setMetadata, if_pos hactive]
    refine ⟨h.maxEvents, h.active, h.startedAt, ⟨h.holds.events, h.holds.counted⟩, h.nameBytes,
      Record.ordered_set h.ordered key value, fun k => ?_⟩
    rw [hvalue, Record.get?_set, h.metadata]

theorem Agrees.step [JsonLibrary] (h : Agrees limit a x) (t : FileTree) (act : Act) :
    Agrees limit (a.after act (x.step t act).fault) (x.step t act).recorder := by
  cases act with
  | start r => exact h.start r t
  | finish disk => exact h.finish disk t _
  | report now what => exact h.record now what _
  | describe key value => exact h.describe key value _

theorem Account.ofHistory_concat (h : List (Act × Outcome)) (act : Act) (o : Outcome) :
    ofHistory (h ++ [(act, o)]) = (ofHistory h).after act o.fault := by
  rw [ofHistory, List.foldl_append]
  rfl

theorem agrees_through [JsonLibrary] (dir : Text) (limit : Nat) (ms : List Moment) :
    Agrees limit (.ofHistory ((ofDir dir limit).history ms)) ((ofDir dir limit).through ms) := by
  induction ms using List.reverseRecOn with
  | nil => exact agrees_blank dir limit
  | append_singleton ms m ih =>
    rw [through_append, history_append]
    exact Account.ofHistory_concat _ _ _ ▸ ih.step m.files m.act

theorem warnings_step [JsonLibrary] (t : FileTree) (x : Recorder) (act : Act) :
    warnings (x.step t act).log =
      if x.dropped = 0 ∧ (x.step t act).recorder.dropped = 1 then [fullWarning x.maxEvents]
      else [] := by
  cases act with
  | start r =>
    have hnever : ¬ (x.dropped = 0 ∧ (x.start r t).recorder.dropped = 1) := by
      rintro ⟨hzero, hone⟩
      cases hf : (x.start r t).fault with
      | some f =>
        rw [start_refused hf, hzero] at hone
        cases hone
      | none =>
        obtain ⟨id, -, -, -, hx⟩ := start_made hf
        rw [hx] at hone
        cases hone
    rw [step, warnings_start, if_neg hnever]
  | finish disk =>
    have hnever : ¬ (x.dropped = 0 ∧ (x.finish disk t).recorder.dropped = 1) := by
      rintro ⟨hzero, hone⟩
      rw [finish_recorder] at hone
      exact absurd (hzero.symm.trans hone) (by decide)
    rw [step, warnings_finish, if_neg hnever]
  | report now what =>
    rw [step]
    dsimp only
    cases hactive : x.active with
    | false =>
      rw [record_inactive hactive, if_neg fun h => absurd (h.1.symm.trans h.2) (by decide)]
      rfl
    | true =>
      rw [record_active hactive, warnings_pushLog, dropped_push]
      by_cases hfull : x.isFull = true
      · have hone : x.dropped + 1 = 1 ↔ x.dropped = 0 := by omega
        simp only [hfull, if_true, true_and, hone, and_self]
      · have hnever : ¬ (x.dropped = 0 ∧ x.dropped = 1) := by omega
        rw [if_neg hfull, if_neg hnever, if_neg fun h => hfull h.1]
  | describe key value =>
    have hdropped : (x.setMetadata key value).dropped = x.dropped := by
      rw [setMetadata]
      split <;> rfl
    rw [step]
    dsimp only
    rw [hdropped, if_neg fun h => absurd (h.1.symm.trans h.2) (by decide)]
    rfl

def Account.crowded (limit : Nat) (a : Account) : Nat :=
  a.sessions.countP fun told => Crowds limit told

theorem Account.crowded_eq (limit : Nat) (a : Account) :
    a.crowded limit = a.sessions.tail.countP (fun told => Crowds limit told) +
      if Crowds limit a.told then 1 else 0 := by
  rw [crowded, told]
  cases a.sessions with
  | nil => simp [Crowds]
  | cons told rest => simp [List.countP_cons]

theorem Agrees.crowded_step [JsonLibrary] (h : Agrees limit a x) (t : FileTree) (act : Act) :
    (a.after act (x.step t act).fault).crowded limit =
      a.crowded limit + (warnings (x.step t act).log).length := by
  cases act with
  | start r =>
    rw [Recorder.step, warnings_start]
    cases (x.start r t).fault with
    | some f => rfl
    | none => simp [Account.after, Account.crowded, Crowds]
  | finish disk =>
    rw [Recorder.step, warnings_finish]
    rfl
  | report now what =>
    rw [Recorder.step]
    dsimp only
    cases hgoing : a.going with
    | false =>
      rw [record_inactive (h.active.trans hgoing), Account.after, hgoing]
      rfl
    | true =>
      let e := what.recorded (a.elapsedMs now)
      have hover : (x.isFull = true ∧ x.dropped = 0) ↔
          Crowds limit (a.told ++ [e]) ∧ ¬ Crowds limit a.told :=
        h.maxEvents ▸ h.holds.overflows_iff e
      have hafter : (a.after (.report now what) none).crowded limit =
          a.sessions.tail.countP (fun told => Crowds limit told) +
            if Crowds limit (a.told ++ [e]) then 1 else 0 := by
        rw [Account.after, if_pos hgoing, Account.crowded_eq]
        rfl
      rw [record_active (h.active.trans hgoing), warnings_pushLog, hafter, Account.crowded_eq]
      simp only [hover]
      by_cases hold : Crowds limit a.told
      · have hnew : Crowds limit (a.told ++ [e]) := ⟨hold.1, Nat.lt_of_lt_of_le hold.2 (by simp)⟩
        simp [hold, hnew]
      · by_cases hnew : Crowds limit (a.told ++ [e]) <;> simp [hold, hnew]
  | describe key value =>
    rw [Recorder.step, Account.after]
    split <;> rfl

theorem warnings_append (log more : List LogEntry) :
    warnings (log ++ more) = warnings log ++ warnings more := List.filter_append log more

theorem warnings_through [JsonLibrary] (dir : Text) (limit : Nat) (ms : List Moment) :
    warnings (((ofDir dir limit).history ms).flatMap (·.2.log)) =
      List.replicate ((Account.ofHistory ((ofDir dir limit).history ms)).crowded limit)
        (fullWarning limit) := by
  induction ms using List.reverseRecOn with
  | nil => rfl
  | append_singleton ms m ih =>
    have hag := agrees_through dir limit ms
    have hnew := warnings_step m.files ((ofDir dir limit).through ms) m.act
    rw [hag.maxEvents] at hnew
    have hone : warnings (((ofDir dir limit).through ms).step m.files m.act).log =
        List.replicate (warnings (((ofDir dir limit).through ms).step m.files m.act).log).length
          (fullWarning limit) := by
      rw [hnew]
      split <;> rfl
    rw [history_append, history, history, List.flatMap_append, warnings_append, ih,
      Account.ofHistory_concat, hag.crowded_step, List.replicate_add, List.flatMap_singleton,
      ← hone]

end Recorder
end BargeIn
