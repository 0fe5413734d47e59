import BargeIn.Proofs.Files.Way

/-! Writing files. A path that may be written leads through directories to one last name,
and it goes on doing so when a file is put there: what was written at a path is read
there. Files that are made or written bar no other path that may be written and open none. -/

namespace BargeIn.FileTree

variable {t t' : FileTree} {here p : Place} {names : List Text} {path content : Text}

/-- Names lead to a directory and one more to a place in it where no directory is. -/
def EndsAt (t : FileTree) (here : Place) (names : List Text) (p : Place) : Prop :=
  ∃ way name d, names = way ++ [name] ∧ t.Leads here way d ∧ turn d name = .enter p ∧
    t.node? p ≠ some .directory

theorem endsAt_of_follow
    (h : t.follow here names = .missing p [] ∨
      ∃ old, t.follow here names = .present p (.file old)) : t.EndsAt here names p := by
  induction names generalizing here with
  | nil => rcases h with h | ⟨_, h⟩ <;> cases h
  | cons name names ih =>
    rw [follow_cons] at h
    cases hturn : turn here name with
    | go q =>
      rw [hturn] at h
      obtain ⟨way, last, d, hnames, hway, hlast⟩ := ih h
      exact ⟨name :: way, last, d, congrArg _ hnames, .go hturn hway, hlast⟩
    | refuse =>
      rw [hturn] at h
      rcases h with h | ⟨_, h⟩ <;> cases h
    | enter q =>
      rw [hturn] at h
      dsimp only at h
      have hhere (hq : t.node? q ≠ some .directory) (hrest : names = []) :
          t.EndsAt here (name :: names) q :=
        ⟨[], name, here, by rw [hrest]; rfl, .here here, hturn, hq⟩
      cases hq : t.node? q with
      | none =>
        rw [hq] at h
        rcases h with h | ⟨_, h⟩ <;> cases h
        exact hhere (by rw [hq]; simp) rfl
      | some node =>
        rw [hq] at h
        cases node with
        | directory =>
          obtain ⟨way, last, d, hnames, hway, hlast⟩ := ih h
          exact ⟨name :: way, last, d, congrArg _ hnames, .enter hturn hq hway, hlast⟩
        | file old =>
          dsimp only at h
          by_cases hrest : names = []
          · rw [if_pos hrest] at h
            rcases h with h | ⟨_, h⟩ <;> cases h
            exact hhere (by rw [hq]; simp) hrest
          · rw [if_neg hrest] at h
            rcases h with h | ⟨_, h⟩ <;> cases h

theorem EndsAt.ne_root (h : t.EndsAt here names p) : p ≠ .root := by
  obtain ⟨_, _, _, -, -, hturn, -⟩ := h
  exact enter_ne_root hturn

theorem EndsAt.follow (h : t.EndsAt here names p) : t.follow here names =
    match t.node? p with
    | some (.file content) => .present p (.file content)
    | _ => .missing p [] := by
  obtain ⟨way, name, d, rfl, hway, hturn, hp⟩ := h
  rw [hway.follow_append, follow_cons, hturn]
  cases hn : t.node? p with
  | none => simp [hn]
  | some node =>
    cases node with
    | directory => exact absurd hn hp
    | file content => simp [hn]

theorem EndsAt.follow_put (h : t.EndsAt here names p) (new : Written) :
    (t.put p (.file new)).follow here names = .present p (.file new) := by
  have hroot := h.ne_root
  obtain ⟨way, name, d, rfl, hway, hturn, hp⟩ := h
  rw [(hway.mono (keeps_put_file hp new)).follow_append, follow_cons, hturn]
  dsimp only
  rw [node?_put_self hroot]
  rfl

theorem writable?_endsAt (h : t.writable? path = some p) :
    Text.untilNul path ≠ [] ∧ (Text.untilNul path).length ≤ maxPath ∧
      t.EndsAt (t.origin (Text.untilNul path)) (Path.pieces (Text.untilNul path)) p := by
  rw [writable?] at h
  split at h
  · rename_i q old hl
    cases h
    obtain ⟨hne, hlen⟩ := lookup_valid (by rw [hl]; simp) (by rw [hl]; simp)
    rw [lookup_eq hne hlen] at hl
    exact ⟨hne, hlen, endsAt_of_follow (Or.inr ⟨old, hl⟩)⟩
  · rename_i q hl
    cases h
    obtain ⟨hne, hlen⟩ := lookup_valid (by rw [hl]; simp) (by rw [hl]; simp)
    rw [lookup_eq hne hlen] at hl
    exact ⟨hne, hlen, endsAt_of_follow (Or.inl hl)⟩
  · cases h

theorem writable?_not_directory (h : t.writable? path = some p) : t.node? p ≠ some .directory := by
  obtain ⟨-, -, _, _, _, -, -, -, hp⟩ := writable?_endsAt h
  exact hp

theorem writable?_ne_root (h : t.writable? path = some p) : p ≠ .root :=
  (writable?_endsAt h).2.2.ne_root

theorem lookup_put_writable (h : t.writable? path = some p) (new : Written) :
    (t.put p (.file new)).lookup path = .present p (.file new) := by
  obtain ⟨hne, hlen, hends⟩ := writable?_endsAt h
  rw [lookup_eq hne hlen]
  exact hends.follow_put new

theorem not_has_iff : t.has path = false ↔ t.isDirectory path = false ∧ t.read? path = none := by
  rw [has, isDirectory, read?]
  cases t.lookup path with
  | present place node => cases node <;> simp
  | _ => simp

theorem isDirectory_of_read? (h : t.read? path = some content) : t.isDirectory path = false := by
  rw [read?] at h
  rw [isDirectory]
  cases hl : t.lookup path with
  | present place node =>
    cases node with
    | directory => simp [hl] at h
    | file old => rfl
  | _ => rfl

theorem read?_of_isDirectory (h : t.isDirectory path = true) : t.read? path = none := by
  refine Option.eq_none_iff_forall_ne_some.2 fun content hread => ?_
  rw [isDirectory_of_read? hread] at h
  cases h

theorem read?_writable (h : t.writable? path = some p) : t.read? path =
    match t.node? p with
    | some (.file content) => some content.text
    | _ => none := by
  obtain ⟨hne, hlen, hends⟩ := writable?_endsAt h
  rw [read?, lookup_eq hne hlen, hends.follow]
  cases t.node? p with
  | none => rfl
  | some node => cases node <;> rfl

theorem read?_write? {disk : Disk} (h : t.write? disk path content = some t') :
    t'.read? path = some (disk.keep content) := by
  obtain ⟨p, hp, rfl⟩ := Option.map_eq_some_iff.1 h
  rw [read?, lookup_put_writable hp]
  exact congrArg some (Written.text_ofText _)

theorem openEnd?_node (h : t.openEnd? path = some (p, t')) :
    t.writable? path = some p ∧ t'.start = t.start ∧ ∀ q, t'.node? q =
      if p = q ∧ t.node? q = none then some (.file .empty) else t.node? q := by
  obtain ⟨place, hplace, hopen⟩ := Option.map_eq_some_iff.1 h
  obtain ⟨rfl, rfl⟩ := Prod.mk.inj hopen
  obtain ⟨-, -, hends⟩ := writable?_endsAt hplace
  cases hn : t.node? place with
  | none =>
    refine ⟨hplace, rfl, fun q => ?_⟩
    by_cases hq : q = place
    · simp [hq, hn, node?_put_self hends.ne_root]
    · simp [node?_put_of_ne hq, Ne.symm hq]
  | some node =>
    refine ⟨hplace, rfl, fun q => ?_⟩
    by_cases hq : q = place
    · simp [hq, hn]
    · simp [Ne.symm hq]

structure SameDirectories (t t' : FileTree) : Prop where
  start : t'.start = t.start
  node : ∀ p, t'.node? p = t.node? p ∨
    (t.node? p ≠ some .directory ∧ ∃ new, t'.node? p = some (.file new))

inductive Filled : Lookup → Lookup → Prop
  | same (l : Lookup) : Filled l l
  | written (p : Place) (old new : Written) :
      Filled (.present p (.file old)) (.present p (.file new))
  | made (p : Place) (new : Written) : Filled (.missing p []) (.present p (.file new))
  | barred (p : Place) (rest : List Text) : rest ≠ [] → Filled (.missing p rest) (.blocked rest)

theorem SameDirectories.follow (h : t.SameDirectories t') (here : Place) (names : List Text) :
    Filled (t.follow here names) (t'.follow here names) := by
  induction names generalizing here with
  | nil => exact .same _
  | cons name rest ih =>
    rw [follow_cons, follow_cons]
    cases turn here name with
    | go p => exact ih p
    | refuse => exact .same _
    | enter p =>
      dsimp only
      rcases h.node p with hsame | ⟨hold, new, hnew⟩
      · rw [hsame]
        cases t.node? p with
        | none => exact .same _
        | some node =>
          cases node with
          | directory => exact ih p
          | file content => exact .same _
      · -- whatever was there before, a file ends the way
        rw [hnew]
        by_cases hrest : rest = []
        · subst hrest
          cases hn : t.node? p with
          | none => exact .made p new
          | some node =>
            cases node with
            | directory => exact absurd hn hold
            | file old => exact .written p old new
        · simp only [if_neg hrest]
          cases hn : t.node? p with
          | none => exact .barred p rest hrest
          | some node =>
            cases node with
            | directory => exact absurd hn hold
            | file old => simpa [hrest] using Filled.same (.blocked rest)

theorem SameDirectories.lookup (h : t.SameDirectories t') (path : Text) :
    Filled (t.lookup path) (t'.lookup path) := by
  rw [FileTree.lookup, FileTree.lookup, h.start]
  by_cases hnowhere : Text.untilNul path = []
  · simpa [hnowhere] using Filled.same .nowhere
  · by_cases hlong : maxPath < (Text.untilNul path).length
    · simpa [hnowhere, hlong] using Filled.same .tooLong
    · simpa [hnowhere, hlong] using h.follow _ _

theorem SameDirectories.writable? (h : t.SameDirectories t') (path : Text) :
    t'.writable? path = t.writable? path := by
  have hfilled := h.lookup path
  rw [FileTree.writable?, FileTree.writable?]
  generalize t.lookup path = l, t'.lookup path = l' at hfilled
  cases hfilled with
  | same => rfl
  | written => rfl
  | made => rfl
  | barred p rest hrest =>
    cases rest with
    | nil => exact absurd rfl hrest
    | cons => rfl

theorem SameDirectories.read? (h : t.SameDirectories t') (hw : t.writable? path = none) :
    t'.read? path = t.read? path := by
  have hfilled := h.lookup path
  rw [FileTree.writable?] at hw
  rw [FileTree.read?, FileTree.read?]
  generalize t.lookup path = l, t'.lookup path = l' at hw hfilled
  cases hfilled with
  | same => rfl
  | written => cases hw
  | made => cases hw
  | barred => rfl

end BargeIn.FileTree
