import BargeIn.Proofs.Files.Writing

/-! Trees as a system keeps them: whatever is there lies in a directory. Making
directories and writing files keep a tree so. Behind a place where nothing is there is
nothing either, and a path that never goes up leads from there to places that are new. -/

namespace BargeIn

open Text (ascii)

namespace FileTree

variable {t t' : FileTree} {here p q goal : Place} {name path : Text} {names rest : List Text}
  {node : Node}

structure Rooted (t : FileTree) : Prop where
  start : t.node? t.start = some .directory
  parent : ∀ p node, t.node? p = some node → t.node? p.parent = some .directory

theorem node?_root (t : FileTree) : t.node? .root = some .directory := if_pos rfl

theorem Rooted.bare : Rooted ⟨[], .root⟩ where
  start := rfl
  parent p node hp := by
    by_cases hroot : p = .root
    · rw [hroot]
      rfl
    · rw [node?, if_neg hroot] at hp
      cases hp

theorem Rooted.child_none (h : t.Rooted) (hp : t.node? p ≠ some .directory) (name : Text) :
    t.node? (p.child name) = none := by
  cases hn : t.node? (p.child name) with
  | none => rfl
  | some node => exact absurd (h.parent _ node hn) hp

theorem Rooted.none_within (h : t.Rooted) (hp : t.node? p = none) (hq : p.names <:+ q.names) :
    t.node? q = none := by
  obtain ⟨inner, hinner⟩ := hq
  induction inner generalizing q with
  | nil => rwa [← Place.ext hinner]
  | cons name inner ih =>
    obtain ⟨depth, qnames, hdepth⟩ := q
    dsimp only at hinner
    subst hinner
    let outer : Place := ⟨(inner ++ p.names).length, inner ++ p.names, rfl⟩
    have hnone : t.node? outer = none := ih rfl
    have hchild := h.child_none (by rw [hnone]; simp) name
    have hq : (⟨depth, name :: inner ++ p.names, hdepth⟩ : Place) = outer.child name :=
      Place.ext rfl
    rw [hq, hchild]

theorem Rooted.put (h : t.Rooted) (hroot : p ≠ .root) (hparent : t.node? p.parent = some .directory)
    (hsafe : node = .directory ∨ t.node? p ≠ some .directory) : (t.put p node).Rooted := by
  -- a directory that stays one or is new may hold something; a file may not
  have hkeeps : ∀ q, t.node? q = some .directory → (t.put p node).node? q = some .directory := by
    intro q hq
    by_cases hqp : q = p
    · subst hqp
      rw [node?_put_self hroot, hsafe.resolve_right fun hne => hne hq]
    · rw [node?_put_of_ne hqp, hq]
  refine ⟨hkeeps _ h.start, fun q other hq => ?_⟩
  by_cases hqp : q = p
  · exact hqp ▸ hkeeps _ hparent
  · rw [node?_put_of_ne hqp] at hq
    exact hkeeps _ (h.parent q other hq)

theorem child_of_enter (h : turn here name = .enter p) : p = here.child name := by
  rw [turn] at h
  split at h
  · cases h
  · split at h
    · cases h
    · split at h
      · cases h
      · exact (Turn.enter.inj h).symm

theorem parent_of_enter (h : turn here name = .enter p) : p.parent = here := by
  rw [child_of_enter h, Place.parent_child]

theorem Rooted.turn_go (h : t.Rooted) (hhere : t.node? here = some .directory)
    (hturn : turn here name = .go p) : t.node? p = some .directory := by
  rw [turn] at hturn
  split at hturn
  · exact Turn.go.inj hturn ▸ hhere
  · split at hturn
    · exact Turn.go.inj hturn ▸ h.parent here _ hhere
    · split at hturn <;> cases hturn

theorem Rooted.follow_missing (h : t.Rooted) (hhere : t.node? here = some .directory)
    (hf : t.follow here names = .missing p rest) : t.node? p.parent = some .directory := by
  induction names generalizing here with
  | nil => cases hf
  | cons name names ih =>
    rw [follow_cons] at hf
    cases hturn : turn here name with
    | go q =>
      rw [hturn] at hf
      exact ih (h.turn_go hhere hturn) hf
    | refuse =>
      rw [hturn] at hf
      cases hf
    | enter q =>
      rw [hturn] at hf
      dsimp only at hf
      split at hf
      · rename_i hq
        exact ih hq hf
      · split at hf <;> cases hf
      · cases hf
        rwa [parent_of_enter hturn]

theorem Rooted.makeWay (h : t.Rooted) (hhere : t.node? here = some .directory)
    (names : List Text) : (t.makeWay here names).2.Rooted := by
  induction names generalizing t here with
  | nil => exact h
  | cons name names ih =>
    rw [makeWay_cons]
    cases hturn : turn here name with
    | go q => exact ih h (h.turn_go hhere hturn)
    | refuse => exact h
    | enter q =>
      dsimp only
      split
      · rename_i hq
        exact ih h hq
      · exact h
      · have hroot := enter_ne_root hturn
        have hput := h.put hroot (by rwa [parent_of_enter hturn]) (Or.inl rfl)
        exact ih hput (node?_put_self hroot _)

theorem Rooted.origin (h : t.Rooted) (path : Text) :
    t.node? (t.origin path) = some .directory := by
  rw [FileTree.origin]
  split
  · exact node?_root t
  · exact h.start

theorem Rooted.makeDirectories (h : t.Rooted) (path : Text) :
    (t.makeDirectories path).2.Rooted := by
  rw [FileTree.makeDirectories]
  split
  · exact h
  · exact h
  · rename_i p rest hl
    split
    · exact h
    · obtain ⟨hne, hlen⟩ := lookup_valid (by rw [hl]; simp) (by rw [hl]; simp)
      rw [lookup_eq hne hlen] at hl
      obtain ⟨hroot, -⟩ := missing_absent hl
      have hput := h.put hroot (h.follow_missing (h.origin _) hl) (Or.inl rfl)
      exact hput.makeWay (node?_put_self hroot _) rest
  · exact h
  · exact h
  · exact h

theorem Rooted.leads (h : t.Rooted) (hhere : t.node? here = some .directory)
    (hl : t.Leads here names goal) : t.node? goal = some .directory := by
  induction hl with
  | here p => exact hhere
  | go hturn _ ih => exact ih (h.turn_go hhere hturn)
  | enter _ hnode _ ih => exact ih hnode

theorem Rooted.write? {disk : Disk} {content : Text} (h : t.Rooted)
    (hw : t.write? disk path content = some t') : t'.Rooted := by
  obtain ⟨p, hp, rfl⟩ := Option.map_eq_some_iff.1 hw
  obtain ⟨-, -, hends⟩ := writable?_endsAt hp
  have hroot := hends.ne_root
  obtain ⟨_, _, d, -, hway, hturn, hfree⟩ := hends
  refine h.put hroot ?_ (Or.inr hfree)
  rw [parent_of_enter hturn]
  exact h.leads (h.origin _) hway

theorem stay_of_go (hname : name ≠ ascii "..") (h : turn here name = .go p) : p = here := by
  rw [turn] at h
  split at h
  · exact (Turn.go.inj h).symm
  · split at h <;> cases h

theorem Leads.within (hup : ascii ".." ∉ names) (h : t.Leads here names goal) :
    here.names <:+ goal.names := by
  induction h with
  | here p => exact List.suffix_refl _
  | go hturn _ ih =>
    rw [List.mem_cons, not_or] at hup
    exact stay_of_go (Ne.symm hup.1) hturn ▸ ih hup.2
  | enter hturn _ _ ih =>
    rw [List.mem_cons, not_or] at hup
    have hrest := ih hup.2
    rw [child_of_enter hturn] at hrest
    exact (List.suffix_cons _ _).trans hrest

theorem missing_within (hup : ascii ".." ∉ names) (h : t.follow here names = .missing p rest) :
    ascii ".." ∉ rest := by
  induction names generalizing here with
  | nil => cases h
  | cons name names ih =>
    rw [List.mem_cons, not_or] at hup
    rw [follow_cons] at h
    cases hturn : turn here name with
    | go q =>
      rw [hturn] at h
      exact ih hup.2 h
    | refuse =>
      rw [hturn] at h
      cases h
    | enter q =>
      rw [hturn] at h
      dsimp only at h
      split at h
      · exact ih hup.2 h
      · split at h <;> cases h
      · cases h
        exact hup.2

theorem makeWay_made (hup : ascii ".." ∉ names)
    (hl : (t.makeWay here names).2.Leads here names goal) (q : Place) :
    (t.makeWay here names).2.node? q = t.node? q ∨ q.names <:+ goal.names := by
  induction names generalizing t here with
  | nil => exact Or.inl rfl
  | cons name names ih =>
    rw [List.mem_cons, not_or] at hup
    rw [makeWay_cons] at hl ⊢
    cases hl with
    | go hturn hrest =>
      rw [hturn] at hrest ⊢
      exact ih hup.2 hrest
    | @enter _ p _ _ _ hturn _ hrest =>
      rw [hturn] at hrest ⊢
      dsimp only at hrest ⊢
      have hbelow := hrest.within hup.2
      split at hrest
      · exact ih hup.2 hrest
      · exact Or.inl rfl
      · rcases ih hup.2 hrest with hsame | hin
        · by_cases hq : q = p
          · subst hq
            exact Or.inr hbelow
          · exact Or.inl (hsame.trans (node?_put_of_ne hq _))
        · exact Or.inr hin

/-- A path that never goes up and led nowhere gets a new directory, and nothing that is made
for it lies behind that. -/
theorem Rooted.makeDirectories_new (h : t.Rooted)
    (hup : ascii ".." ∉ Path.pieces (Text.untilNul path)) (hfree : t.has path = false)
    (hmade : (t.makeDirectories path).1 = none)
    (hgoal : (t.makeDirectories path).2.lookup path = .present goal .directory) :
    t.node? goal = none ∧
      ∀ q, (t.makeDirectories path).2.node? q = t.node? q ∨ q.names <:+ goal.names := by
  cases hl : t.lookup path with
  | present p node =>
    rw [has, hl] at hfree
    cases hfree
  | missing p rest =>
    obtain ⟨hne, hlen⟩ := lookup_valid (by rw [hl]; simp) (by rw [hl]; simp)
    have hgrows := makeDirectories_grows t path
    rw [FileTree.makeDirectories, hl] at hmade hgoal hgrows ⊢
    dsimp only at hmade hgoal hgrows ⊢
    split at hmade
    · cases hmade
    rename_i hfew
    rw [if_neg hfew] at hgoal hgrows ⊢
    rw [lookup_eq hne hlen] at hl hgoal
    obtain ⟨hroot, hnone⟩ := missing_absent hl
    -- the way goes on from the first place that was missing, and never out of it
    obtain ⟨goal', hrest⟩ := makeWay_leads hmade
    have hplace := (makeWay_grows (t.put p .directory) p rest).keeps.directory p
      (node?_put_self hroot _)
    have hleads := leads_of_missing hgrows.keeps hl hplace hrest
    rw [hgrows.keeps.origin, hleads.follow] at hgoal
    cases hgoal
    have hrise := missing_within hup hl
    have hwithin := hrest.within hrise
    refine ⟨h.none_within hnone hwithin, fun q => ?_⟩
    rcases makeWay_made hrise hrest q with hsame | hin
    · by_cases hq : q = p
      · exact Or.inr (hq ▸ hwithin)
      · exact Or.inl (hsame.trans (node?_put_of_ne hq _))
    · exact Or.inr hin
  | blocked rest =>
    rw [FileTree.makeDirectories, hl] at hmade
    cases hmade
  | tooLong =>
    rw [FileTree.makeDirectories, hl] at hmade
    cases hmade
  | nowhere =>
    rw [FileTree.makeDirectories, hl] at hmade
    cases hmade

end FileTree
end BargeIn
