import BargeIn.Files.Tree
import BargeIn.Proofs.Files.Path

/-! Following paths and making directories. Both go name by name and take the same
turns, so a path that directories were made for leads to a directory. What leads to
a directory goes on doing so while directories stay where they are. -/

namespace BargeIn

open Text (ascii)

/-- Where a name turns to: to a place at once, into a place below, or nowhere. -/
inductive Turn
  | go (place : Place)
  | enter (place : Place)
  | refuse

def turn (here : Place) (name : Text) : Turn :=
  if name = [] ∨ name = ascii "." then .go here
  else if name = ascii ".." then .go here.parent
  else if FileTree.maxName < name.length then .refuse
  else .enter (here.child name)

namespace FileTree

variable {t t' t'' : FileTree} {here place : Place} {names rest : List Text}

theorem follow_cons (t : FileTree) (here : Place) (name : Text) (rest : List Text) :
    t.follow here (name :: rest) = match turn here name with
      | .go p => t.follow p rest
      | .refuse => .tooLong
      | .enter p => match t.node? p with
        | some .directory => t.follow p rest
        | some (.file content) => if rest = [] then .present p (.file content) else .blocked rest
        | none => .missing p rest := by
  rw [follow, turn]
  split
  · rfl
  · split
    · rfl
    · split <;> rfl

theorem makeWay_cons (t : FileTree) (here : Place) (name : Text) (rest : List Text) :
    t.makeWay here (name :: rest) = match turn here name with
      | .go p => t.makeWay p rest
      | .refuse => (some .nameTooLong, t)
      | .enter p => match t.node? p with
        | some .directory => t.makeWay p rest
        | some (.file _) => (some .alreadyThere, t)
        | none => (t.put p .directory).makeWay p rest := by
  rw [makeWay, turn]
  split
  · rfl
  · split
    · rfl
    · split <;> rfl

theorem enter_ne_root {name : Text} (h : turn here name = .enter place) : place ≠ .root := by
  rw [turn] at h
  split at h
  · cases h
  · split at h
    · cases h
    · split at h
      · cases h
      · rw [← Turn.enter.inj h]
        exact Place.child_ne_root here name

structure KeepsDirectories (t t' : FileTree) : Prop where
  start : t'.start = t.start
  directory : ∀ p, t.node? p = some .directory → t'.node? p = some .directory

structure Grows (t t' : FileTree) : Prop where
  start : t'.start = t.start
  node : ∀ p, t'.node? p = t.node? p ∨ (t.node? p = none ∧ t'.node? p = some .directory)

theorem Grows.refl (t : FileTree) : t.Grows t := ⟨rfl, fun _ => Or.inl rfl⟩

theorem Grows.trans (h : t.Grows t') (h' : t'.Grows t'') : t.Grows t'' where
  start := h'.start.trans h.start
  node p := by
    rcases h.node p with hp | ⟨hn, hp⟩
    · rw [← hp]
      exact h'.node p
    · rcases h'.node p with hp' | ⟨hn', -⟩
      · exact Or.inr ⟨hn, hp'.trans hp⟩
      · rw [hp] at hn'
        cases hn'

theorem Grows.keeps (h : t.Grows t') : t.KeepsDirectories t' where
  start := h.start
  directory p hp := by
    rcases h.node p with he | ⟨-, hd⟩
    · exact he.trans hp
    · exact hd

theorem grows_put (hroot : place ≠ .root) (hn : t.node? place = none) :
    t.Grows (t.put place .directory) where
  start := rfl
  node p := by
    by_cases hp : p = place
    · rw [hp]
      exact Or.inr ⟨hn, node?_put_self hroot _⟩
    · exact Or.inl (node?_put_of_ne hp _)

theorem keeps_put_file (hn : t.node? place ≠ some .directory) (content : Written) :
    t.KeepsDirectories (t.put place (.file content)) where
  start := rfl
  directory p hp := by
    have hne : p ≠ place := by
      rintro rfl
      exact hn hp
    rw [node?_put_of_ne hne, hp]

inductive Leads (t : FileTree) : Place → List Text → Place → Prop
  | here (p : Place) : Leads t p [] p
  | go {p q goal : Place} {name : Text} {names : List Text} (hturn : turn p name = .go q)
      (hrest : Leads t q names goal) : Leads t p (name :: names) goal
  | enter {p q goal : Place} {name : Text} {names : List Text} (hturn : turn p name = .enter q)
      (hnode : t.node? q = some .directory) (hrest : Leads t q names goal) :
      Leads t p (name :: names) goal

theorem leads_of_follow (h : t.follow here names = .present place .directory) :
    t.Leads here names place := by
  induction names generalizing here with
  | nil =>
    cases h
    exact .here _
  | cons name names ih =>
    rw [follow_cons] at h
    cases hturn : turn here name with
    | go p =>
      rw [hturn] at h
      exact .go hturn (ih h)
    | refuse =>
      rw [hturn] at h
      cases h
    | enter p =>
      rw [hturn] at h
      dsimp only at h
      split at h
      · rename_i hn
        exact .enter hturn hn (ih h)
      · split at h <;> cases h
      · cases h

theorem Leads.follow_append (h : t.Leads here names place) (rest : List Text) :
    t.follow here (names ++ rest) = t.follow place rest := by
  induction h with
  | here p => rfl
  | go hturn _ ih =>
    rw [List.cons_append, follow_cons, hturn]
    exact ih
  | enter hturn hnode _ ih =>
    rw [List.cons_append, follow_cons, hturn]
    dsimp only
    rw [hnode]
    exact ih

theorem Leads.follow (h : t.Leads here names place) :
    t.follow here names = .present place .directory := by
  have hf := h.follow_append []
  rwa [List.append_nil] at hf

theorem Leads.unique {goal : Place} (h : t.Leads here names place)
    (h' : t.Leads here names goal) : place = goal := by
  have hsame := h.follow.symm.trans h'.follow
  cases hsame
  rfl

theorem Leads.append {goal : Place} (h : t.Leads here names place)
    (hrest : t.Leads place rest goal) : t.Leads here (names ++ rest) goal := by
  induction h with
  | here p => exact hrest
  | go hturn _ ih => exact .go hturn (ih hrest)
  | enter hturn hnode _ ih => exact .enter hturn hnode (ih hrest)

theorem Leads.split (h : t.Leads here (names ++ rest) place) :
    ∃ p, t.Leads here names p ∧ t.Leads p rest place := by
  induction names generalizing here with
  | nil => exact ⟨here, .here here, h⟩
  | cons name names ih =>
    cases h with
    | go hturn hrest =>
      obtain ⟨p, hp, hq⟩ := ih hrest
      exact ⟨p, .go hturn hp, hq⟩
    | enter hturn hnode hrest =>
      obtain ⟨p, hp, hq⟩ := ih hrest
      exact ⟨p, .enter hturn hnode hp, hq⟩

theorem Leads.mono (hk : t.KeepsDirectories t') (h : t.Leads here names place) :
    t'.Leads here names place := by
  induction h with
  | here p => exact .here p
  | go hturn _ ih => exact .go hturn ih
  | enter hturn hnode _ ih => exact .enter hturn (hk.directory _ hnode) ih

theorem leads_append_nil_iff :
    t.Leads here (names ++ [[]]) place ↔ t.Leads here names place := by
  -- a slash at the end leaves an empty name, and an empty name goes nowhere else
  have hstay (p : Place) : turn p [] = .go p := if_pos (Or.inl rfl)
  constructor
  · intro h
    obtain ⟨p, hp, hend⟩ := h.split
    cases hend with
    | go hturn hrest =>
      rw [hstay] at hturn
      cases hturn
      cases hrest
      exact hp
    | enter hturn _ _ =>
      rw [hstay] at hturn
      cases hturn
  · intro h
    exact h.append (.go (hstay place) (.here place))

theorem makeWay_grows (t : FileTree) (here : Place) (names : List Text) :
    t.Grows (t.makeWay here names).2 := by
  induction names generalizing t here with
  | nil => exact .refl t
  | cons name names ih =>
    rw [makeWay_cons]
    cases hturn : turn here name with
    | go p => exact ih t p
    | refuse => exact .refl t
    | enter p =>
      dsimp only
      split
      · exact ih t p
      · exact .refl t
      · rename_i hn
        exact (grows_put (enter_ne_root hturn) hn).trans (ih _ p)

theorem makeWay_leads (h : (t.makeWay here names).1 = none) :
    ∃ place, (t.makeWay here names).2.Leads here names place := by
  induction names generalizing t here with
  | nil => exact ⟨here, .here here⟩
  | cons name names ih =>
    rw [makeWay_cons] at h ⊢
    cases hturn : turn here name with
    | go p =>
      rw [hturn] at h
      obtain ⟨place, hl⟩ := ih h
      exact ⟨place, .go hturn hl⟩
    | refuse =>
      rw [hturn] at h
      cases h
    | enter p =>
      rw [hturn] at h
      dsimp only at h ⊢
      cases hn : t.node? p with
      | none =>
        rw [hn] at h
        obtain ⟨place, hl⟩ := ih h
        -- the directory made here stays while those below it are made
        have hput : (t.put p .directory).node? p = some .directory :=
          node?_put_self (enter_ne_root hturn) _
        exact ⟨place, .enter hturn ((makeWay_grows _ p names).keeps.directory p hput) hl⟩
      | some n =>
        rw [hn] at h
        cases n with
        | file content => cases h
        | directory =>
          obtain ⟨place, hl⟩ := ih h
          exact ⟨place, .enter hturn ((makeWay_grows t p names).keeps.directory p hn) hl⟩

theorem leads_of_missing (hk : t.KeepsDirectories t')
    (h : t.follow here names = .missing place rest) (hmade : t'.node? place = some .directory)
    {goal : Place} (hrest : t'.Leads place rest goal) : t'.Leads here names goal := by
  -- the names before the missing one lead through directories, which were kept
  induction names generalizing here with
  | nil => cases h
  | cons name names ih =>
    rw [follow_cons] at h
    cases hturn : turn here name with
    | go p =>
      rw [hturn] at h
      exact .go hturn (ih h)
    | refuse =>
      rw [hturn] at h
      cases h
    | enter p =>
      rw [hturn] at h
      dsimp only at h
      split at h
      · rename_i hn
        exact .enter hturn (hk.directory p hn) (ih h)
      · split at h <;> cases h
      · cases h
        exact .enter hturn hmade hrest

theorem missing_absent (h : t.follow here names = .missing place rest) :
    place ≠ .root ∧ t.node? place = none := by
  induction names generalizing here with
  | nil => cases h
  | cons name names ih =>
    rw [follow_cons] at h
    cases hturn : turn here name with
    | go p =>
      rw [hturn] at h
      exact ih h
    | refuse =>
      rw [hturn] at h
      cases h
    | enter p =>
      rw [hturn] at h
      dsimp only at h
      split at h
      · exact ih h
      · split at h <;> cases h
      · rename_i hn
        cases h
        exact ⟨enter_ne_root hturn, hn⟩

def origin (t : FileTree) (path : Text) : Place :=
  if Path.isAbsolute path then .root else t.start

theorem KeepsDirectories.origin (h : t.KeepsDirectories t') (path : Text) :
    t'.origin path = t.origin path := by
  rw [FileTree.origin, FileTree.origin, h.start]

theorem lookup_congr {path path' : Text} (h : Text.untilNul path = Text.untilNul path') :
    t.lookup path = t.lookup path' := by
  rw [lookup, lookup, h]

theorem lookup_eq {path : Text} (hne : Text.untilNul path ≠ [])
    (hlen : (Text.untilNul path).length ≤ maxPath) :
    t.lookup path =
      t.follow (t.origin (Text.untilNul path)) (Path.pieces (Text.untilNul path)) := by
  unfold lookup
  rw [if_neg hne, if_neg (Nat.not_lt.2 hlen)]
  rfl

theorem lookup_valid {path : Text} (hnowhere : t.lookup path ≠ .nowhere)
    (htooLong : t.lookup path ≠ .tooLong) :
    Text.untilNul path ≠ [] ∧ (Text.untilNul path).length ≤ maxPath := by
  unfold lookup at hnowhere htooLong
  by_cases hne : Text.untilNul path = []
  · exact absurd (if_pos hne) hnowhere
  · refine ⟨hne, Nat.not_lt.1 fun hlen => htooLong ?_⟩
    rw [if_neg hne, if_pos hlen]

theorem lookup_directory_mono {path : Text} (hk : t.KeepsDirectories t')
    (h : t.lookup path = .present place .directory) :
    t'.lookup path = .present place .directory := by
  obtain ⟨hne, hlen⟩ := lookup_valid (by rw [h]; simp) (by rw [h]; simp)
  rw [lookup_eq hne hlen] at h
  rw [lookup_eq hne hlen, hk.origin, ((leads_of_follow h).mono hk).follow]

theorem makeDirectories_grows (t : FileTree) (path : Text) :
    t.Grows (t.makeDirectories path).2 := by
  rw [makeDirectories]
  split
  · exact .refl t
  · exact .refl t
  · rename_i place rest h
    split
    · exact .refl t
    · obtain ⟨hne, hlen⟩ := lookup_valid (by rw [h]; simp) (by rw [h]; simp)
      rw [lookup_eq hne hlen] at h
      obtain ⟨hroot, hn⟩ := missing_absent h
      exact (grows_put hroot hn).trans (makeWay_grows _ place rest)
  · exact .refl t
  · exact .refl t
  · exact .refl t

theorem makeDirectories_leads {path : Text} (h : (t.makeDirectories path).1 = none) :
    Text.untilNul path ≠ [] ∧ (Text.untilNul path).length ≤ maxPath ∧
      ∃ place, (t.makeDirectories path).2.Leads ((t.makeDirectories path).2.origin
        (Text.untilNul path)) (Path.pieces (Text.untilNul path)) place := by
  rw [(makeDirectories_grows t path).keeps.origin]
  rw [makeDirectories] at h ⊢
  cases hl : t.lookup path with
  | present place node =>
    rw [hl] at h
    obtain ⟨hne, hlen⟩ := lookup_valid (by rw [hl]; simp) (by rw [hl]; simp)
    rw [lookup_eq hne hlen] at hl
    cases node with
    | directory => exact ⟨hne, hlen, place, leads_of_follow hl⟩
    | file content => cases h
  | missing place rest =>
    rw [hl] at h
    dsimp only at h ⊢
    split at h
    · cases h
    · rename_i hmade
      rw [if_neg hmade]
      obtain ⟨hne, hlen⟩ := lookup_valid (by rw [hl]; simp) (by rw [hl]; simp)
      rw [lookup_eq hne hlen] at hl
      obtain ⟨hroot, hn⟩ := missing_absent hl
      obtain ⟨goal, hgoal⟩ := makeWay_leads h
      have hgrows := makeWay_grows (t.put place .directory) place rest
      have hplace := hgrows.keeps.directory place (node?_put_self hroot _)
      exact ⟨hne, hlen, goal,
        leads_of_missing ((grows_put hroot hn).trans hgrows).keeps hl hplace hgoal⟩
  | blocked rest =>
    rw [hl] at h
    cases h
  | tooLong =>
    rw [hl] at h
    cases h
  | nowhere =>
    rw [hl] at h
    cases h

end FileTree
end BargeIn
