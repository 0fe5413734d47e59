import BargeIn.Proofs.Log.Interlined
import Mathlib.Data.List.DropRight

/-! What a logger leaves behind. It is turned on and off at will and its level changes; what
was asked so far tells alone which level it has and which file it writes to. So it is known
of each line where it goes: to standard error, and to the end of the file that the logger
was turned on with in the period that the line falls in. -/

namespace BargeIn

open Text (ascii)

namespace Host

variable {h g : Host} {t : FileTree} {acts : List Act} {a : Act} {p place : Place}

def obey (h : Host) (acts : List Act) : Host := acts.foldl act h

theorem obey_concat (h : Host) (acts : List Act) (a : Act) :
    h.obey (acts ++ [a]) = (h.obey acts).act a := List.foldl_concat act h a acts

namespace Act

def path? : Act → Option Text
  | .turnOn _ path => some path
  | .turnOff => none
  | .setLevel _ => none
  | .log _ _ => none

def level? : Act → Option Level
  | .turnOn least _ => some least
  | .turnOff => none
  | .setLevel least => some least
  | .log _ _ => none

def sinceOff (acts : List Act) : List Act := acts.rtakeWhile (· ≠ .turnOff)

def openedWith (acts : List Act) : Option Text := (sinceOff acts).findSome? path?

def least? (acts : List Act) : Option Level :=
  -- turning on asks for a level too, so none that was asked for before it is the last
  if openedWith acts = none then none else ((sinceOff acts).filterMap level?).getLast?

theorem sinceOff_turnOff (acts : List Act) : sinceOff (acts ++ [.turnOff]) = [] :=
  List.rtakeWhile_concat_neg _ _ _ (by simp)

theorem sinceOff_concat (acts : List Act) (ha : a ≠ .turnOff) :
    sinceOff (acts ++ [a]) = sinceOff acts ++ [a] :=
  List.rtakeWhile_concat_pos _ _ _ (by simpa using ha)

@[simp] theorem openedWith_turnOff (acts : List Act) : openedWith (acts ++ [.turnOff]) = none := by
  rw [openedWith, sinceOff_turnOff]
  rfl

@[simp] theorem least?_turnOff (acts : List Act) : least? (acts ++ [.turnOff]) = none :=
  if_pos (openedWith_turnOff acts)

theorem openedWith_concat (acts : List Act) (ha : a ≠ .turnOff) :
    openedWith (acts ++ [a]) = (openedWith acts).or a.path? := by
  rw [openedWith, sinceOff_concat acts ha, List.findSome?_append]
  simp [openedWith]

theorem least?_concat (acts : List Act) (ha : a ≠ .turnOff) :
    least? (acts ++ [a]) = if openedWith (acts ++ [a]) = none then none
      else a.level?.or ((sinceOff acts).filterMap level?).getLast? := by
  rw [least?, sinceOff_concat acts ha, List.filterMap_append, List.getLast?_append]
  cases hlevel : a.level? <;> simp [hlevel]

@[simp] theorem openedWith_turnOn (acts : List Act) (least : Level) (path : Text) :
    openedWith (acts ++ [.turnOn least path]) = some ((openedWith acts).getD path) := by
  rw [openedWith_concat acts (by simp)]
  cases openedWith acts <;> rfl

@[simp] theorem least?_turnOn (acts : List Act) (least : Level) (path : Text) :
    least? (acts ++ [.turnOn least path]) = some least := by
  rw [least?_concat acts (by simp), openedWith_turnOn]
  rfl

@[simp] theorem openedWith_setLevel (acts : List Act) (least : Level) :
    openedWith (acts ++ [.setLevel least]) = openedWith acts := by
  rw [openedWith_concat acts (by simp)]
  exact Option.or_none

@[simp] theorem openedWith_log (acts : List Act) (r : Reading) (e : LogEntry) :
    openedWith (acts ++ [.log r e]) = openedWith acts := by
  rw [openedWith_concat acts (by simp)]
  exact Option.or_none

@[simp] theorem least?_log (acts : List Act) (r : Reading) (e : LogEntry) :
    least? (acts ++ [.log r e]) = least? acts := by
  rw [least?_concat acts (by simp), openedWith_log]
  rfl

theorem least?_isSome (acts : List Act) : (least? acts).isSome = (openedWith acts).isSome := by
  induction acts using List.reverseRecOn with
  | nil => rfl
  | append_singleton acts a ih =>
    cases a with
    | turnOn least path => simp
    | turnOff => simp
    | setLevel least =>
      rw [least?_concat acts (by simp), openedWith_setLevel]
      cases openedWith acts <;> rfl
    | log r e => simpa using ih

@[simp] theorem least?_setLevel (acts : List Act) (least : Level) :
    least? (acts ++ [.setLevel least]) = (least? acts).map fun _ => least := by
  have hsome := least?_isSome acts
  rw [least?_concat acts (by simp), openedWith_setLevel]
  cases hpath : openedWith acts <;> cases hleast : least? acts <;>
    simp [hpath, hleast, level?] at hsome ⊢

end Act

open Act (openedWith least?)

def openedAt? (t : FileTree) (past : List Act) : Option Place := (openedWith past).bind t.writable?

def stateAfter (t : FileTree) (past : List Act) : Logger :=
  match least? past with
  | some least => .on least (openedAt? t past)
  | none => .off

def openWarning (path : Text) : Text := ascii "Warning: Failed to open log file: " ++ path ++ [10]

/-- What an act prints when these acts came before it. -/
def printed (t : FileTree) (past : List Act) : Act → Text
  | .turnOn _ path =>
    if openedWith past = none ∧ path ≠ [] ∧ t.writable? path = none then openWarning path else []
  | .turnOff => []
  | .setLevel _ => []
  | .log r e =>
    match least? past with
    | some least => if least.rank ≤ e.level.rank then Logger.line r e (.on least none) else []
    | none => if Level.warn.rank ≤ e.level.rank then e.message ++ [10] else []

/-- What an act adds to the file at a place: a line that is printed in a period of that file. -/
def mirrored (t : FileTree) (place : Place) (past : List Act) : Act → Text
  | .turnOn _ _ => []
  | .turnOff => []
  | .setLevel _ => []
  | .log r e => if openedAt? t past = some place then printed t past (.log r e) else []

/-- The texts of all acts in order, where each depends on the acts before it. -/
def told (f : List Act → Act → Text) (acts : List Act) : Text :=
  (acts.mapIdx fun i a => f (acts.take i) a).flatten

theorem told_concat (f : List Act → Act → Text) (acts : List Act) (a : Act) :
    told f (acts ++ [a]) = told f acts ++ f acts a := by
  have hbefore : (acts.mapIdx fun i b => f ((acts ++ [a]).take i) b) =
      acts.mapIdx fun i b => f (acts.take i) b :=
    List.mapIdx_eq_mapIdx_iff.2 fun i hi => by rw [List.take_append_of_le_length hi.le]
  rw [told, List.mapIdx_concat, hbefore, List.flatten_append]
  simp [told]

def Opened (t : FileTree) (place : Place) (acts : List Act) : Prop :=
  ∃ past, past <+: acts ∧ openedAt? t past = some place

theorem opened_concat : Opened t place (acts ++ [a]) ↔
    openedAt? t (acts ++ [a]) = some place ∨ Opened t place acts := by
  constructor
  · rintro ⟨past, hpast, hopened⟩
    rcases List.prefix_concat_iff.1 hpast with rfl | hpast
    · exact Or.inl hopened
    · exact Or.inr ⟨past, hpast, hopened⟩
  · rintro (hopened | ⟨past, hpast, hopened⟩)
    · exact ⟨_, List.prefix_refl _, hopened⟩
    · exact ⟨past, hpast.trans (List.prefix_append _ _), hopened⟩

theorem stateAfter_off (t : FileTree) (hoff : openedWith acts = none) :
    stateAfter t acts = .off := by
  have hleast : least? acts = none := if_pos hoff
  rw [stateAfter, hleast]

theorem stateAfter_on (t : FileTree) (hon : openedWith acts ≠ none) :
    ∃ least, least? acts = some least ∧ stateAfter t acts = .on least (openedAt? t acts) := by
  have hsome := Act.least?_isSome acts
  rw [Option.isSome_iff_ne_none.2 hon] at hsome
  obtain ⟨least, hleast⟩ := Option.isSome_iff_exists.1 hsome
  exact ⟨least, hleast, by rw [stateAfter, hleast]⟩

theorem file?_stateAfter (t : FileTree) (acts : List Act) :
    (stateAfter t acts).file? = openedAt? t acts := by
  by_cases hoff : openedWith acts = none
  · rw [stateAfter_off t hoff, openedAt?, hoff]
    rfl
  · obtain ⟨least, -, hstate⟩ := stateAfter_on t hoff
    rw [hstate]
    rfl

@[simp] theorem openedAt?_turnOff (t : FileTree) (acts : List Act) :
    openedAt? t (acts ++ [.turnOff]) = none := by
  rw [openedAt?, Act.openedWith_turnOff]
  rfl

@[simp] theorem openedAt?_setLevel (t : FileTree) (acts : List Act) (least : Level) :
    openedAt? t (acts ++ [.setLevel least]) = openedAt? t acts := by
  rw [openedAt?, openedAt?, Act.openedWith_setLevel]

@[simp] theorem openedAt?_log (t : FileTree) (acts : List Act) (r : Reading) (e : LogEntry) :
    openedAt? t (acts ++ [.log r e]) = openedAt? t acts := by
  rw [openedAt?, openedAt?, Act.openedWith_log]

theorem openedAt?_first (t : FileTree) (hoff : openedWith acts = none) (least : Level)
    (path : Text) : openedAt? t (acts ++ [.turnOn least path]) = t.writable? path := by
  rw [openedAt?, Act.openedWith_turnOn, hoff]
  rfl

theorem openedAt?_again (t : FileTree) (hon : openedWith acts ≠ none) (least : Level)
    (path : Text) : openedAt? t (acts ++ [.turnOn least path]) = openedAt? t acts := by
  obtain ⟨first, hfirst⟩ := Option.ne_none_iff_exists'.1 hon
  rw [openedAt?, openedAt?, Act.openedWith_turnOn, hfirst]
  rfl

theorem shown_stateAfter (t : FileTree) (past : List Act) (r : Reading) (e : LogEntry) :
    (stateAfter t past).shown r e = printed t past (.log r e) := by
  rw [stateAfter, Logger.shown, printed]
  cases least? past <;> simp [Logger.shows, Logger.line]

theorem turnOn_on {least : Level} {file : Option Place} (hon : h.logger = .on least file)
    (more : Level) (path : Text) : h.turnOn more path = h.setLevel more := by
  rw [turnOn, setLevel, hon]
  rfl

theorem turnOn_off (hoff : h.logger = .off) (least : Level) (path : Text) :
    let g := h.turnOn least path
    g.logger = .on least (h.files.writable? path) ∧
      g.files.start = h.files.start ∧
      g.stderr = h.stderr.add
        (if path ≠ [] ∧ h.files.writable? path = none then openWarning path else []) ∧
      ∀ p, g.files.node? p = if h.files.writable? path = some p ∧ h.files.node? p = none
        then some (.file .empty) else h.files.node? p := by
  intro g
  have hg : g = h.turnOn least path := rfl
  rw [turnOn, hoff] at hg
  dsimp only at hg
  by_cases hpath : path = []
  · subst hpath
    have hnowhere : h.files.writable? [] = none := rfl
    rw [hg, hnowhere]
    simp
  rw [if_neg hpath] at hg
  cases hopen : h.files.openEnd? path with
  | none =>
    have hrefused : h.files.writable? path = none := by
      simpa [FileTree.openEnd?] using hopen
    rw [hopen] at hg
    rw [hg, hrefused]
    simp [hpath, openWarning]
  | some opened =>
    obtain ⟨place, files⟩ := opened
    obtain ⟨hplace, hstart, hnode⟩ := FileTree.openEnd?_node hopen
    rw [hopen] at hg
    rw [hg, hplace]
    exact ⟨rfl, hstart, by simp, fun p => by simpa using hnode p⟩

theorem mirrored_of_elsewhere (h : openedAt? t acts ≠ some place) (a : Act) :
    mirrored t place acts a = [] := by
  cases a with
  | turnOn least path => rfl
  | turnOff => rfl
  | setLevel least => rfl
  | log r e => exact if_neg h

theorem openedAt?_writable (h : openedAt? t acts = some place) :
    ∃ path, t.writable? path = some place := by
  obtain ⟨path, -, hpath⟩ := Option.bind_eq_some_iff.1 h
  exact ⟨path, hpath⟩

def textAt (t : FileTree) (p : Place) : Text :=
  match t.node? p with
  | some (.file content) => content.text
  | _ => []

/-- A file of some period holds what it held before and the lines of its periods. Any other
place is as it was. -/
def Mirrors (h : Host) (acts : List Act) (g : Host) (p : Place) : Prop :=
  (¬ Opened h.files p acts ∧ told (mirrored h.files p) acts = [] ∧
    g.files.node? p = h.files.node? p) ∨
  (Opened h.files p acts ∧ h.files.node? p ≠ some .directory ∧ ∃ content,
    g.files.node? p = some (.file content) ∧
      content.text = textAt h.files p ++ told (mirrored h.files p) acts)

structure Follows (h : Host) (acts : List Act) (g : Host) : Prop where
  logger : g.logger = stateAfter h.files acts
  start : g.files.start = h.files.start
  stderr : g.stderr.text = h.stderr.text ++ told (printed h.files) acts
  mirrors : ∀ p, h.Mirrors acts g p

theorem follows_nil (hoff : h.logger = .off) : h.Follows [] h where
  logger := hoff
  start := rfl
  stderr := (List.append_nil _).symm
  mirrors p := by
    refine Or.inl ⟨?_, rfl, rfl⟩
    rintro ⟨past, hpast, hopened⟩
    rw [List.prefix_nil.1 hpast] at hopened
    cases hopened

theorem Follows.sameDirectories (hf : h.Follows acts g) : h.files.SameDirectories g.files where
  start := hf.start
  node p := by
    rcases hf.mirrors p with ⟨-, -, hsame⟩ | ⟨-, hold, content, hnew, -⟩
    · exact Or.inl hsame
    · exact Or.inr ⟨hold, content, hnew⟩

theorem Follows.present (hf : h.Follows acts g) (hopened : openedAt? h.files acts = some p) :
    g.files.node? p ≠ none := by
  rcases hf.mirrors p with ⟨hnever, -⟩ | ⟨-, -, content, hn, -⟩
  · exact absurd ⟨acts, List.prefix_refl _, hopened⟩ hnever
  · simp [hn]

theorem Follows.turnOn_first (hf : h.Follows acts g) (hoff : openedWith acts = none)
    (least : Level) (path : Text) :
    let g' := g.act (.turnOn least path)
    g'.logger = .on least (h.files.writable? path) ∧
      g'.stderr = g.stderr.add
        (if path ≠ [] ∧ h.files.writable? path = none then openWarning path else []) ∧
      ∀ p, g'.files.node? p = if h.files.writable? path = some p ∧ g.files.node? p = none
        then some (.file .empty) else g.files.node? p := by
  have hlogger : g.logger = .off := hf.logger.trans (stateAfter_off _ hoff)
  rw [← hf.sameDirectories.writable? path]
  obtain ⟨hstate, -, hrest⟩ := turnOn_off hlogger least path
  exact ⟨hstate, hrest⟩

theorem Follows.turnOn_again (hf : h.Follows acts g) (hon : openedWith acts ≠ none)
    (least : Level) (path : Text) : g.act (.turnOn least path) = g.act (.setLevel least) := by
  obtain ⟨old, -, hstate⟩ := stateAfter_on h.files hon
  exact turnOn_on (hf.logger.trans hstate) least path

theorem Follows.node?_act (hf : h.Follows acts g) (a : Act) (p : Place) :
    (g.act a).files.node? p =
      if openedAt? h.files (acts ++ [a]) = some p ∧ g.files.node? p = none
      then some (.file .empty)
      else (g.files.node? p).map (Node.add (mirrored h.files p acts a)) := by
  have hsame : Node.add [] = id := funext Node.add_nil
  have hthere : ¬ (openedAt? h.files acts = some p ∧ g.files.node? p = none) :=
    fun ⟨hopened, hnone⟩ => hf.present hopened hnone
  cases a with
  | turnOff => simp [act, turnOff, mirrored, hsame]
  | setLevel least => simp [act, setLevel, mirrored, hsame, hthere]
  | log r e =>
    rw [openedAt?_log, if_neg hthere, act, node?_log, hf.logger, file?_stateAfter,
      shown_stateAfter, mirrored]
    split <;> simp [hsame]
  | turnOn least path =>
    rw [mirrored, hsame, Option.map_id, id]
    by_cases hoff : openedWith acts = none
    · obtain ⟨-, -, hnode⟩ := hf.turnOn_first hoff least path
      rw [hnode, openedAt?_first _ hoff]
    · rw [hf.turnOn_again hoff, openedAt?_again _ hoff, if_neg hthere]
      rfl

theorem Follows.logger_act (hf : h.Follows acts g) (a : Act) :
    (g.act a).logger = stateAfter h.files (acts ++ [a]) := by
  cases a with
  | turnOff => exact (stateAfter_off _ (Act.openedWith_turnOff acts)).symm
  | setLevel least =>
    rw [act, setLevel, hf.logger, stateAfter, stateAfter, Act.least?_setLevel]
    cases least? acts with
    | none => rfl
    | some old => simp [Logger.withLevel]
  | log r e =>
    rw [act, logger_log, hf.logger]
    simp [stateAfter]
  | turnOn least path =>
    rw [stateAfter, Act.least?_turnOn]
    by_cases hoff : openedWith acts = none
    · obtain ⟨hlogger, -⟩ := hf.turnOn_first hoff least path
      rw [hlogger, openedAt?_first _ hoff]
    · obtain ⟨old, -, hstate⟩ := stateAfter_on h.files hoff
      rw [hf.turnOn_again hoff, openedAt?_again _ hoff, act, setLevel, hf.logger, hstate]
      rfl

theorem Follows.stderr_act (hf : h.Follows acts g) (a : Act) :
    (g.act a).stderr = g.stderr.add (printed h.files acts a) := by
  cases a with
  | turnOff => rfl
  | setLevel least => rfl
  | log r e => rw [act, stderr_log, hf.logger, shown_stateAfter]
  | turnOn least path =>
    rw [printed]
    by_cases hoff : openedWith acts = none
    · obtain ⟨-, hstderr, -⟩ := hf.turnOn_first hoff least path
      rw [hstderr]
      simp [hoff]
    · rw [hf.turnOn_again hoff, if_neg fun hnone => hoff hnone.1]
      rfl

theorem start_act (g : Host) (a : Act) : (g.act a).files.start = g.files.start := by
  cases a with
  | turnOff => rfl
  | setLevel least => rfl
  | log r e => exact (logs_log g r e).files.start
  | turnOn least path =>
    cases hlogger : g.logger with
    | off => exact (turnOn_off hlogger least path).2.1
    | on old file => exact congrArg (·.files.start) (turnOn_on hlogger least path)

theorem Follows.mirrors_act (hf : h.Follows acts g) (a : Act) (p : Place) :
    h.Mirrors (acts ++ [a]) (g.act a) p := by
  have hnode := hf.node?_act a p
  rw [Mirrors, opened_concat, told_concat]
  rcases hf.mirrors p with ⟨hnever, htold, hsame⟩ | ⟨hopened, hold, content, hn, htext⟩
  · have helsewhere : openedAt? h.files acts ≠ some p := fun hgoes =>
      hnever ⟨acts, List.prefix_refl _, hgoes⟩
    have hnil : told (mirrored h.files p) acts ++ mirrored h.files p acts a = [] := by
      rw [htold, mirrored_of_elsewhere helsewhere]
      rfl
    rw [mirrored_of_elsewhere helsewhere, hsame] at hnode
    rw [hnil, hnode]
    by_cases hopens : openedAt? h.files (acts ++ [a]) = some p
    · -- the first period of this file: it is made now or was there from the beginning
      obtain ⟨path, hpath⟩ := openedAt?_writable hopens
      have hold := FileTree.writable?_not_directory hpath
      refine Or.inr ⟨Or.inl hopens, hold, ?_⟩
      cases hp : h.files.node? p with
      | none => exact ⟨.empty, by simp [hopens], by simp [textAt, hp]⟩
      | some node =>
        cases node with
        | directory => exact absurd hp hold
        | file content => exact ⟨content, by simp [Node.add], by simp [textAt, hp]⟩
    · refine Or.inl ⟨by simp [hopens, hnever], rfl, ?_⟩
      cases h.files.node? p <;> simp [hopens]
  · rw [hn] at hnode
    refine Or.inr ⟨Or.inr hopened, hold, content.add (mirrored h.files p acts a), ?_, ?_⟩
    · rw [hnode]
      simp [Node.add]
    · rw [Written.text_add, htext, List.append_assoc]

theorem Follows.act (hf : h.Follows acts g) (a : Act) : h.Follows (acts ++ [a]) (g.act a) where
  logger := hf.logger_act a
  start := (start_act g a).trans hf.start
  stderr := by rw [hf.stderr_act, Written.text_add, hf.stderr, told_concat, List.append_assoc]
  mirrors := hf.mirrors_act a

theorem follows_obey (hoff : h.logger = .off) (acts : List Act) : h.Follows acts (h.obey acts) := by
  -- the past is read from its end, and the run with it
  induction acts using List.reverseRecOn with
  | nil => exact follows_nil hoff
  | append_singleton acts a ih =>
    rw [obey_concat]
    exact ih.act a

theorem textAt_writable {path : Text} (h : t.writable? path = some place) :
    (t.read? path).getD [] = textAt t place ∧ (t.read? path = none ↔ t.node? place = none) := by
  have hfile := FileTree.writable?_not_directory h
  rw [FileTree.read?_writable h, textAt]
  cases hn : t.node? place with
  | none => exact ⟨rfl, iff_of_true rfl rfl⟩
  | some node =>
    cases node with
    | directory => exact absurd hn hfile
    | file content => exact ⟨rfl, iff_of_false (by simp) (by simp)⟩

/-- What a logger that was off leaves behind is known from what was asked of it. The next act
prints what the period that goes on makes of it: a line when its level is not below the least
one, and a bare message from a warning on when the logger is off. A level that is set while
it is off changes nothing, and turning it on again only sets the level. Each file holds in
the end what it held before and, in order, the lines that were printed in the periods whose
path, however it was written, leads to it; there are no new files but those of the periods,
and nothing else has changed. -/
theorem lines_follow_periods (hoff : h.logger = .off) (acts : List Act) :
    let last := h.obey acts
    (∀ a, (h.obey (acts ++ [a])).stderr = last.stderr.add (printed h.files acts a)) ∧
    last.stderr.text = h.stderr.text ++ told (printed h.files) acts ∧
    (openedWith acts = none → ∀ least, h.obey (acts ++ [.setLevel least]) = last) ∧
    (openedWith acts ≠ none → ∀ least path,
      h.obey (acts ++ [.turnOn least path]) = h.obey (acts ++ [.setLevel least])) ∧
    (∀ path place, h.files.writable? path = some place →
      (last.files.read? path).getD [] =
          (h.files.read? path).getD [] ++ told (mirrored h.files place) acts ∧
        (last.files.read? path ≠ none ↔ h.files.read? path ≠ none ∨ Opened h.files place acts)) ∧
    (∀ path, h.files.writable? path = none → last.files.read? path = h.files.read? path) ∧
    ∀ p, ¬ Opened h.files p acts → last.files.node? p = h.files.node? p := by
  intro last
  have hf : h.Follows acts last := follows_obey hoff acts
  refine ⟨fun a => ?_, hf.stderr, fun hidle least => ?_, fun hon least path => ?_,
    fun path place hplace => ?_, fun path => hf.sameDirectories.read?, fun p hnever => ?_⟩
  · rw [obey_concat]
    exact hf.stderr_act a
  · have hlogger : last.logger = .off := hf.logger.trans (stateAfter_off _ hidle)
    rw [obey_concat, act, setLevel]
    change { last with logger := last.logger.withLevel least } = last
    rw [hlogger, Logger.withLevel, ← hlogger]
  · rw [obey_concat, obey_concat]
    exact hf.turnOn_again hon least path
  · have hplace' : last.files.writable? path = some place :=
      (hf.sameDirectories.writable? path).trans hplace
    obtain ⟨hold, hthere⟩ := textAt_writable hplace
    obtain ⟨hnew, hthere'⟩ := textAt_writable hplace'
    rw [hold, hnew, ne_eq, hthere', ne_eq, hthere]
    rcases hf.mirrors place with ⟨hnever, htold, hsame⟩ | ⟨hopened, -, content, hn, htext⟩
    · rw [textAt, hsame, htold, List.append_nil]
      exact ⟨rfl, by simp [hnever]⟩
    · rw [textAt, hn]
      exact ⟨htext, by simp [hopened]⟩
  · rcases hf.mirrors p with ⟨-, -, hsame⟩ | ⟨hopened, -⟩
    · exact hsame
    · exact absurd hopened hnever

theorem lines_follow_periods_three :
    let noon : Reading := ⟨0, ⟨2025, 1, 1, 12, 0, 0, 0⟩⟩
    let say (level : Level) (message : String) : Act := .log noon ⟨level, ascii message⟩
    let a : Place := Place.root.child (ascii "a")
    let host : Host := ⟨⟨[(a, .file (.ofText (ascii "old\n")))], .root⟩, none, .off, .empty, .empty⟩
    let acts : List Act := [say .warn "one", .setLevel .error, .turnOn .info (ascii "a"),
      say .info "two", .turnOn .error (ascii "b"), say .info "three", say .error "four", .turnOff,
      say .info "five", .turnOn .debug (ascii "./a"), say .debug "six", .setLevel .warn,
      say .info "seven", .turnOff, .turnOn .warn (ascii "a/b"), say .warn "eight"]
    let last := host.obey acts
    (last.files.read? (ascii "a")).getD [] = ascii "old\n[INFO ] 2025-01-01 12:00:00.000: two\n" ++
        ascii "[ERROR] 2025-01-01 12:00:00.000: four\n[DEBUG] 2025-01-01 12:00:00.000: six\n" ∧
      last.files.read? (ascii "b") = none ∧
      last.stderr.text = ascii "one\n[INFO ] 2025-01-01 12:00:00.000: two\n" ++
        ascii "[ERROR] 2025-01-01 12:00:00.000: four\n[DEBUG] 2025-01-01 12:00:00.000: six\n" ++
        ascii "Warning: Failed to open log file: a/b\n" ++
        ascii "[WARN ] 2025-01-01 12:00:00.000: eight\n" := by
  intro noon say a host acts last
  have hoff : host.logger = .off := rfl
  obtain ⟨-, hstderr, -, -, hfiles, -⟩ := lines_follow_periods hoff acts
  have ha : host.files.writable? (ascii "a") = some a := by decide +kernel
  obtain ⟨hcontent, -⟩ := hfiles (ascii "a") a ha
  refine ⟨hcontent.trans ?_, ?_, hstderr.trans ?_⟩
  · decide +kernel
  · decide +kernel
  · decide +kernel

end Host
end BargeIn
