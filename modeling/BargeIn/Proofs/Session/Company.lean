import BargeIn.Json.Reader
import BargeIn.Session.Room

/-! Sessions in company. Sessions that share a room have the lexicon and a recorder in
common, and the recorder may be opened, filled and closed while they go on. None of
this reaches a session: whatever happens in the room, it shows what it shows when it
is alone with its own events and nothing is recorded. -/

namespace BargeIn

open Text (ascii)

/-- A session of the room takes an event, or the recorder that it shares is asked to act. -/
inductive Happening
  | event (r : Reading) (index : Nat) (e : SessionEvent)
  | recorder (r : Reading) (act : Recorder.Act)

structure View where
  ruling : Option Ruling
  speaking : Bool
  stats : Stats
  deriving DecidableEq

namespace Session

def shows (ruling : Option Ruling) (s : Session) : View := ⟨ruling, s.speech.speaking, s.stats⟩

def views (x : Lexicon) (s : Session) : List SessionEvent → List View
  | [] => []
  | e :: es => (s.step x e).session.shows (s.step x e).ruling :: views x (s.step x e).session es

theorem length_views (x : Lexicon) (s : Session) (es : List SessionEvent) :
    (s.views x es).length = es.length := by
  induction es generalizing s with
  | nil => rfl
  | cons e es ih => rw [views, List.length_cons, List.length_cons, ih]

end Session

namespace Happening

def event? (index : Nat) : Happening → Option SessionEvent
  | .event _ i e => if i = index then some e else none
  | .recorder _ _ => none

def alone? (index : Nat) : Happening → Option Happening
  | .event r i e => if i = index then some (.event r 0 e) else none
  | .recorder _ _ => none

theorem event?_of_alone? (index : Nat) (h : Happening) :
    (h.alone? index).bind (event? 0) = h.event? index := by
  cases h with
  | event r i e =>
    rw [alone?, event?]
    split <;> rfl
  | recorder r act => rfl

end Happening

namespace Room

variable {x : Lexicon} {room : Room} {index : Nat} {s : Session}

def ask [JsonLibrary] (r : Reading) (act : Recorder.Act) (room : Room) : Room :=
  match room.recorder with
  | none => room
  | some recorder =>
    let (host, recorder, _) := withRecorder r (fun files y => y.step files act) recorder room.host
    { room with host := host, recorder := some recorder }

def happen [JsonLibrary] (x : Lexicon) (room : Room) : Happening → Room × List (Nat × View)
  | .event r i e =>
    let (next, ruling) := room.step x r i e
    (next, (next.sessions[i]?.map fun s => (i, s.shows ruling)).toList)
  | .recorder r act => (room.ask r act, [])

def goOn [JsonLibrary] (x : Lexicon) (room : Room) : List Happening → Room × List (Nat × View)
  | [] => (room, [])
  | h :: course =>
    let (next, shown) := room.happen x h
    let (last, views) := goOn x next course
    (last, shown ++ views)

def viewsOf (index : Nat) (views : List (Nat × View)) : List View :=
  views.filterMap fun v => if v.1 = index then some v.2 else none

def alone (host : Host) (s : Session) : Room := ⟨host, [s], none⟩

theorem sessions_ask [JsonLibrary] (r : Reading) (act : Recorder.Act) (room : Room) :
    (room.ask r act).sessions = room.sessions := by
  rw [ask]
  split <;> rfl

theorem sessions_tell (r : Reading) (report : Option Report) (room : Room) :
    (room.tell r report).sessions = room.sessions := by
  rcases room with ⟨host, sessions, _ | recorder⟩ <;> cases report <;> rfl

theorem sessions_step (x : Lexicon) (r : Reading) (e : SessionEvent)
    (hs : room.sessions[index]? = some s) :
    (room.step x r index e).1.sessions = room.sessions.set index (s.step x e).session ∧
      (room.step x r index e).2 = (s.step x e).ruling := by
  rw [step, hs]
  exact ⟨sessions_tell r _ _, rfl⟩

theorem sessions_step_none (x : Lexicon) (r : Reading) (e : SessionEvent)
    (hs : room.sessions[index]? = none) : room.step x r index e = (room, none) := by
  rw [step, hs]

theorem step_own (x : Lexicon) (r : Reading) (e : SessionEvent)
    (hs : room.sessions[index]? = some s) :
    (room.step x r index e).1.sessions[index]? = some (s.step x e).session := by
  obtain ⟨hlt, -⟩ := List.getElem?_eq_some_iff.1 hs
  rw [(sessions_step x r e hs).1, List.getElem?_set_self hlt]

theorem step_other (x : Lexicon) (r : Reading) (e : SessionEvent) {other : Nat}
    (hne : other ≠ index) :
    (room.step x r other e).1.sessions[index]? = room.sessions[index]? := by
  cases ho : room.sessions[other]? with
  | none => rw [sessions_step_none x r e ho]
  | some o => rw [(sessions_step x r e ho).1, List.getElem?_set_ne hne]

theorem viewsOf_append (index : Nat) (vs ws : List (Nat × View)) :
    viewsOf index (vs ++ ws) = viewsOf index vs ++ viewsOf index ws := List.filterMap_append

theorem happen_seen [JsonLibrary] (x : Lexicon) (h : Happening)
    (hs : room.sessions[index]? = some s) :
    (room.happen x h).1.sessions[index]? = some (s.run x (h.event? index).toList).1 ∧
      viewsOf index (room.happen x h).2 = s.views x (h.event? index).toList := by
  cases h with
  | recorder r act =>
    refine ⟨?_, rfl⟩
    rw [happen, sessions_ask, hs]
    rfl
  | event r i e =>
    rw [Happening.event?]
    by_cases hi : i = index
    · subst hi
      have hown := step_own x r e hs
      rw [if_pos rfl]
      refine ⟨hown, ?_⟩
      rw [happen]
      dsimp only
      rw [hown, (sessions_step x r e hs).2]
      simp [viewsOf, Session.views]
    · rw [if_neg hi]
      have hother : (room.step x r i e).1.sessions[index]? = room.sessions[index]? :=
        step_other x r e hi
      refine ⟨hother.trans hs, ?_⟩
      rw [happen]
      dsimp only
      cases (room.step x r i e).1.sessions[i]? <;> simp [viewsOf, Session.views, hi]

theorem goOn_seen [JsonLibrary] (x : Lexicon) (course : List Happening)
    (hroom : room.sessions[index]? = some s) :
    (room.goOn x course).1.sessions[index]? = some (s.run x (course.filterMap (·.event? index))).1 ∧
      viewsOf index (room.goOn x course).2 = s.views x (course.filterMap (·.event? index)) := by
  induction course generalizing room s with
  | nil => exact ⟨hroom, rfl⟩
  | cons h course ih =>
    obtain ⟨hnext, hshown⟩ := happen_seen x h hroom
    obtain ⟨hlast, hviews⟩ := ih hnext
    rw [goOn]
    dsimp only
    rw [viewsOf_append, hshown, hviews, hlast, List.filterMap_cons]
    cases h.event? index with
    | none => exact ⟨rfl, rfl⟩
    | some e => exact ⟨rfl, rfl⟩

/-- A session in a room with others and a recorder, whatever state that is in and whatever
is asked of it, shows after each of its own events what it shows in a room of its own
where nothing is recorded, and is in the end the same. -/
theorem company_changes_nothing [JsonLibrary] (x : Lexicon) (hroom : room.sessions[index]? = some s)
    (host : Host) (course : List Happening) :
    let together := room.goOn x course
    let apart := (alone host s).goOn x (course.filterMap (·.alone? index))
    viewsOf index together.2 = viewsOf 0 apart.2 ∧
      together.1.sessions[index]? = apart.1.sessions[0]? ∧
      (viewsOf index together.2).length = (course.filterMap (·.event? index)).length := by
  intro together apart
  have hown : (course.filterMap (·.alone? index)).filterMap (·.event? 0) =
      course.filterMap (·.event? index) := by
    rw [List.filterMap_filterMap]
    exact congrArg (course.filterMap ·) (funext (Happening.event?_of_alone? index))
  obtain ⟨hlast, hviews⟩ := goOn_seen x course hroom
  have hsolo : (alone host s).sessions[0]? = some s := rfl
  obtain ⟨hlast', hviews'⟩ := goOn_seen x (course.filterMap (·.alone? index)) hsolo
  rw [hown] at hlast' hviews'
  refine ⟨hviews.trans hviews'.symm, hlast.trans hlast'.symm, ?_⟩
  rw [hviews, Session.length_views]

theorem company_changes_nothing_crowded :
    let _ := Json.library []
    let x := Lexicon.ofLists ⟨⟨[], [ascii "stop"], []⟩, [], 150⟩
    let noon : Reading := ⟨0, ⟨2025, 1, 1, 12, 0, 0, 0⟩⟩
    let host : Host := ⟨⟨[], .root⟩, none, .off, .empty, .empty⟩
    let room : Room := ⟨host, [.ofId (ascii "a"), .ofId (ascii "b")], some (.ofDir (ascii "rec") 1)⟩
    let course : List Happening := [.event noon 1 (.notice .started), .recorder noon (.start noon),
      .event noon 0 (.notice .started), .event noon 1 (.transcript (ascii "stop") 0),
      .event noon 0 (.transcript (ascii "stop") 1), .recorder noon (.finish .ample),
      .event noon 0 (.transcript (ascii "stop") 2)]
    room.sessions[0]? = some (.ofId (ascii "a")) ∧
      (room.goOn x course).1.recorder.map (·.dropped) = some 2 ∧
      viewsOf 0 (room.goOn x course).2 =
        [⟨none, true, ⟨0, 0, 0⟩⟩, ⟨some (.commands [ascii "stop"]), true, ⟨0, 0, 1⟩⟩,
          ⟨some (.debounced 150), true, ⟨1, 0, 1⟩⟩] := by
  intro _ x noon host room course
  have hroom : room.sessions[0]? = some (.ofId (ascii "a")) := rfl
  refine ⟨hroom, by decide +kernel, ?_⟩
  rw [(company_changes_nothing x hroom host course).1]
  decide +kernel

end Room
end BargeIn
