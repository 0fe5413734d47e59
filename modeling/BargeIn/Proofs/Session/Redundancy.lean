import BargeIn.Proofs.Session.Company
import BargeIn.Proofs.Session.Epochs

/-! Notices that tell nothing new. The agent runtime may send a notice as often as it likes:
one that tells a session what its agent is doing already leaves the room as it is, so it may
come or stay away, and all other steps find and show the same. The notices that do tell
something new are starts and finishes in turn, and each start opens the next utterance. -/

namespace BargeIn

open Text (ascii)

namespace Speech

def afterTurns (k : Nat) : Speech := ⟨k % 2 = 1, (k + 1) / 2⟩

/-- What a turn tells, with the utterance that it begins or ends; turns count from zero. -/
def turn (k : Nat) : Notice × Nat := (if k % 2 = 0 then .started else .finished, k / 2 + 1)

theorem changes_afterTurns (k : Nat) (n : Notice) :
    (afterTurns k).changes n = true ↔ n = (turn k).1 := by
  rcases Nat.mod_two_eq_zero_or_one k with hk | hk <;> cases n <;>
    simp [afterTurns, turn, changes, hk]

theorem after_afterTurns {k : Nat} {n : Notice} (h : (afterTurns k).changes n = true) :
    (afterTurns k).after n = afterTurns (k + 1) ∧
      (n, (afterTurns (k + 1)).utterances) = turn k := by
  have hn := (changes_afterTurns k n).1 h
  rw [after.eq_def, if_pos h]
  rcases Nat.mod_two_eq_zero_or_one k with hk | hk
  · have hnext : (k + 1) % 2 = 1 := by omega
    have hcount : (k + 1 + 1) / 2 = (k + 1) / 2 + 1 := by omega
    have hsame : (k + 1) / 2 = k / 2 := by omega
    have hstart : n = .started := by simpa [turn, hk] using hn
    subst hstart
    simp [afterTurns, turn, hk, hnext, hcount, hsame]
  · have hnext : (k + 1) % 2 = 0 := by omega
    have hcount : (k + 1 + 1) / 2 = (k + 1) / 2 := by omega
    have hsame : (k + 1) / 2 = k / 2 + 1 := by omega
    have hfinish : n = .finished := by simpa [turn, hk] using hn
    subst hfinish
    simp [afterTurns, turn, hk, hnext, hcount, hsame]

end Speech

namespace Room

variable {x : Lexicon} {room : Room} {i : Nat} {s : Session} {k : Nat}

def turn? (i : Nat) (room : Room) : Happening → Option (Notice × Nat)
  | .event _ j (.notice n) =>
    if j = i then
      room.sessions[i]?.bind fun s =>
        if s.speech.changes n then some (n, (s.speech.after n).utterances) else none
    else none
  | .event _ _ (.transcript _ _) => none
  | .recorder _ _ => none

def turns [JsonLibrary] (x : Lexicon) (i : Nat) (room : Room) : List Happening → List (Notice × Nat)
  | [] => []
  | h :: course => (room.turn? i h).toList ++ turns x i (room.happen x h).1 course

theorem speech_notice (s : Session) (n : Notice) :
    (s.notice n).session.speech = s.speech.after n := by
  cases hc : s.speech.changes n with
  | true => rw [Session.notice, if_pos hc]
  | false => rw [Session.notice_of_not_changes hc, Speech.after_of_not_changes hc]

theorem turn?_happen [JsonLibrary] (x : Lexicon) (h : Happening) (hs : room.sessions[i]? = some s)
    (hspeech : s.speech = .afterTurns k) :
    ∃ s', (room.happen x h).1.sessions[i]? = some s' ∧
      ((room.turn? i h = none ∧ s'.speech = .afterTurns k) ∨
        (room.turn? i h = some (Speech.turn k) ∧ s'.speech = .afterTurns (k + 1))) := by
  obtain ⟨hnext, -⟩ := happen_seen x h hs
  refine ⟨_, hnext, ?_⟩
  cases h with
  | recorder r act => exact Or.inl ⟨rfl, hspeech⟩
  | event r j e =>
    rw [Happening.event?]
    by_cases hj : j = i
    · rw [if_pos hj]
      cases e with
      | transcript text time => exact Or.inl ⟨rfl, hspeech⟩
      | notice n =>
        have hafter : (s.run x [.notice n]).1.speech = (Speech.afterTurns k).after n := by
          rw [← hspeech]
          exact speech_notice s n
        rw [turn?, if_pos hj, hs, Option.bind_some, hspeech]
        change _ ∨ (_ ∧ (s.run x [.notice n]).1.speech = _)
        cases hc : (Speech.afterTurns k).changes n with
        | false => exact Or.inl ⟨rfl, hafter.trans (Speech.after_of_not_changes hc)⟩
        | true =>
          obtain ⟨hspoken, hturn⟩ := Speech.after_afterTurns hc
          refine Or.inr ⟨?_, hafter.trans hspoken⟩
          rw [if_pos rfl, hspoken, hturn]
    · rw [if_neg hj]
      refine Or.inl ⟨?_, hspeech⟩
      cases e with
      | transcript text time => rfl
      | notice n => exact if_neg hj

theorem turns_alternate [JsonLibrary] (x : Lexicon) (course : List Happening)
    (hs : room.sessions[i]? = some s) (hspeech : s.speech = .afterTurns k) :
    room.turns x i course = (List.range' k (room.turns x i course).length).map Speech.turn ∧
      (room.goOn x course).1.sessions[i]?.map (·.speech) =
        some (.afterTurns (k + (room.turns x i course).length)) := by
  induction course generalizing room s k with
  | nil => exact ⟨rfl, by rw [goOn, hs]; exact congrArg some hspeech⟩
  | cons h course ih =>
    obtain ⟨s', hs', hturn⟩ := turn?_happen x h hs hspeech
    rw [turns, goOn]
    rcases hturn with ⟨hnone, hsame⟩ | ⟨hsome, hnext⟩
    · rw [hnone]
      exact ih hs' hsame
    · obtain ⟨hrest, hlast⟩ := ih hs' hnext
      rw [hsome, Option.toList_some, List.singleton_append, List.length_cons, List.range'_succ,
        List.map_cons, ← hrest, Nat.add_comm _ 1, ← Nat.add_assoc]
      exact ⟨rfl, hlast⟩

/-- The happening tells a session what its agent is doing already. -/
def Redundant (room : Room) : Happening → Prop
  | .event _ i (.notice n) =>
    room.sessions[i]?.map (·.speech.speaking) = some (decide (n = .started))
  | .event _ _ (.transcript _ _) => False
  | .recorder _ _ => False

instance (room : Room) (h : Happening) : Decidable (room.Redundant h) :=
  match h with
  | .event _ i (.notice n) => inferInstanceAs
    (Decidable (room.sessions[i]?.map (·.speech.speaking) = some (decide (n = .started))))
  | .event _ _ (.transcript _ _) => inferInstanceAs (Decidable False)
  | .recorder _ _ => inferInstanceAs (Decidable False)

end Room

inductive Edit
  | kept
  | added
  | removed
  deriving DecidableEq

namespace Room

variable {x : Lexicon} {room : Room} {h : Happening} {i : Nat} {s : Session}

def kept [JsonLibrary] (x : Lexicon) (room : Room) :
    List (Edit × Happening) → List (Room × List (Nat × View))
  | [] => []
  | (.kept, h) :: course => (room, (room.happen x h).2) :: kept x (room.happen x h).1 course
  | (.added, h) :: course => kept x (room.happen x h).1 course
  | (.removed, h) :: course => kept x (room.happen x h).1 course

/-- Each step that is added or removed is redundant where it stands. -/
def RevisedIdly [JsonLibrary] (x : Lexicon) (room : Room) : List (Edit × Happening) → Prop
  | [] => True
  | (edit, h) :: course =>
    (edit ≠ .kept → room.Redundant h) ∧ RevisedIdly x (room.happen x h).1 course

instance decidableRevisedIdly [JsonLibrary] (x : Lexicon) :
    (room : Room) → (course : List (Edit × Happening)) → Decidable (room.RevisedIdly x course)
  | _, [] => inferInstanceAs (Decidable True)
  | room, (edit, h) :: course =>
    have := decidableRevisedIdly x (room.happen x h).1 course
    inferInstanceAs (Decidable
      ((edit ≠ .kept → room.Redundant h) ∧ RevisedIdly x (room.happen x h).1 course))

def original (course : List (Edit × Happening)) : List (Edit × Happening) :=
  course.filter (·.1 ≠ .added)

def revised (course : List (Edit × Happening)) : List (Edit × Happening) :=
  course.filter (·.1 ≠ .removed)

theorem redundant_cases (hr : room.Redundant h) :
    ∃ r i n s, h = .event r i (.notice n) ∧ room.sessions[i]? = some s ∧
      s.speech.speaking = decide (n = .started) := by
  cases h with
  | recorder r act => exact hr.elim
  | event r i e =>
    cases e with
    | transcript text time => exact hr.elim
    | notice n =>
      obtain ⟨s, hs, hspeaking⟩ := Option.map_eq_some_iff.1 hr
      exact ⟨r, i, n, s, rfl, hs, hspeaking⟩

theorem Redundant.happen [JsonLibrary] (hr : room.Redundant h) (x : Lexicon) :
    (room.happen x h).1 = room := by
  obtain ⟨r, i, n, s, rfl, hs, hspeaking⟩ := redundant_cases hr
  have hsame : s.speech.changes n = false := by
    rw [Bool.eq_false_iff, ne_eq, Session.changes_iff, not_not]
    exact hspeaking
  have hset : room.sessions.set i s = room.sessions := by
    obtain ⟨hi, rfl⟩ := List.getElem?_eq_some_iff.1 hs
    exact List.set_getElem_self hi
  rw [Room.happen, step, hs]
  dsimp only [Session.step]
  rw [Session.notice_of_not_changes hsame, hset]
  obtain ⟨host, sessions, recorder⟩ := room
  cases recorder <;> rfl

theorem turn?_eq_none_iff (r : Reading) (n : Notice) (hs : room.sessions[i]? = some s) :
    room.turn? i (.event r i (.notice n)) = none ↔ room.Redundant (.event r i (.notice n)) := by
  rw [turn?, if_pos rfl, Redundant, hs, Option.bind_some, Option.map_some, Option.some_inj]
  cases hc : s.speech.changes n with
  | true => exact iff_of_false (by simp) ((Session.changes_iff s.speech n).1 hc)
  | false =>
    have hsame := mt (Session.changes_iff s.speech n).2 (by simp [hc])
    exact iff_of_true (if_neg (by simp)) (not_not.1 hsame)

theorem goOn_revised [JsonLibrary] (course : List (Edit × Happening))
    (hi : room.RevisedIdly x course) :
    (room.goOn x ((original course).map (·.2))).1 = (room.goOn x ((revised course).map (·.2))).1 ∧
      room.kept x (original course) = room.kept x (revised course) := by
  induction course generalizing room with
  | nil => exact ⟨rfl, rfl⟩
  | cons step course ih =>
    obtain ⟨edit, h⟩ := step
    obtain ⟨hr, hrest⟩ := hi
    obtain ⟨hroom, hkept⟩ := ih hrest
    cases edit with
    | kept => exact ⟨hroom, congrArg ((room, (room.happen x h).2) :: ·) hkept⟩
    | added =>
      have hidle : (room.happen x h).1 = room := (hr (by simp)).happen x
      rw [hidle] at hroom hkept
      refine ⟨hroom.trans ?_, hkept.trans ?_⟩
      · change _ = ((room.happen x h).1.goOn x ((revised course).map (·.2))).1
        rw [hidle]
      · change _ = (room.happen x h).1.kept x (revised course)
        rw [hidle]
    | removed =>
      have hidle : (room.happen x h).1 = room := (hr (by simp)).happen x
      rw [hidle] at hroom hkept
      refine ⟨Eq.trans ?_ hroom, Eq.trans ?_ hkept⟩
      · change ((room.happen x h).1.goOn x ((original course).map (·.2))).1 = _
        rw [hidle]
      · change (room.happen x h).1.kept x (original course) = _
        rw [hidle]

/-- A course may be revised by redundant notices, added and removed at will: it ends in the
same room, with the same sessions, recorder, files and log, and each step that stays finds
the same room and shows the same. A notice that is redundant leaves the room as it is, the
last decision of the session with it. The notices that are not are the session's turns:
starts and finishes alternate, and the utterances are numbered in order. -/
theorem redundant_notices_change_nothing [JsonLibrary] (x : Lexicon) (room : Room) :
    (∀ h, room.Redundant h → (room.happen x h).1 = room) ∧
      (∀ course, room.RevisedIdly x course →
        (room.goOn x ((original course).map (·.2))).1 =
            (room.goOn x ((revised course).map (·.2))).1 ∧
          room.kept x (original course) = room.kept x (revised course)) ∧
      (∀ r i n s, room.sessions[i]? = some s →
        (room.turn? i (.event r i (.notice n)) = none ↔
          room.Redundant (.event r i (.notice n)))) ∧
      ∀ course i s, room.sessions[i]? = some s → s.speech = .silent →
        let turns := room.turns x i course
        turns = (List.range turns.length).map Speech.turn ∧
          (room.goOn x course).1.sessions[i]?.map (·.speech) =
            some (.afterTurns turns.length) := by
  refine ⟨fun h hr => hr.happen x, fun course hi => goOn_revised course hi,
    fun r i n s hs => turn?_eq_none_iff r n hs, fun course i s hs hspeech => ?_⟩
  intro turns
  have hzero : s.speech = .afterTurns 0 := hspeech
  obtain ⟨hturns, hlast⟩ := turns_alternate x course hs hzero
  rw [← List.range_eq_range'] at hturns
  rw [Nat.zero_add] at hlast
  exact ⟨hturns, hlast⟩

theorem redundant_notices_change_nothing_mid_utterance :
    let _ := Json.library []
    let x := Lexicon.ofLists ⟨⟨[], [ascii "stop"], []⟩, [], 150⟩
    let noon : Reading := ⟨0, ⟨2025, 1, 1, 12, 0, 0, 0⟩⟩
    let host : Host := ⟨⟨[], .root⟩, none, .on .debug none, .empty, .empty⟩
    let room : Room := ⟨host, [.ofId (ascii "a"), .ofId (ascii "b")], some (.ofDir (ascii "rec") 9)⟩
    let notice (i : Nat) (n : Notice) : Happening := .event noon i (.notice n)
    let stop (time : Nanos) : Happening := .event noon 0 (.transcript (ascii "stop") time)
    let course : List (Edit × Happening) :=
      [(.kept, .recorder noon (.start noon)), (.removed, notice 1 .finished),
        (.kept, notice 0 .started), (.kept, stop 0), (.added, notice 0 .started),
        (.kept, stop 1), (.kept, notice 0 .finished), (.added, notice 0 .finished),
        (.kept, notice 0 .started), (.kept, stop 2), (.kept, .recorder noon (.finish .ample))]
    let last := room.goOn x ((original course).map (·.2))
    let last' := room.goOn x ((revised course).map (·.2))
    room.RevisedIdly x course ∧ (original course).length = 9 ∧ (revised course).length = 10 ∧
      last'.1 = last.1 ∧
      last.2.filterMap (fun v => v.2.ruling) =
        [.commands [ascii "stop"], .debounced 150, .commands [ascii "stop"]] ∧
      room.turns x 0 ((revised course).map (·.2)) =
        [(.started, 1), (.finished, 1), (.started, 2)] := by
  intro _ x noon host room notice stop course last last'
  obtain ⟨-, hrevised, -, hturns⟩ := redundant_notices_change_nothing x room
  have hidle : room.RevisedIdly x course := by decide +kernel
  have hsilent : room.sessions[0]? = some (.ofId (ascii "a")) := rfl
  have hcount : (room.turns x 0 ((revised course).map (·.2))).length = 3 := by decide +kernel
  obtain ⟨hthree, -⟩ := hturns ((revised course).map (·.2)) 0 _ hsilent rfl
  rw [hcount] at hthree
  exact ⟨hidle, rfl, rfl, (hrevised course hidle).1.symm, by decide +kernel, hthree⟩

end Room
end BargeIn
