import BargeIn.Files.Path

/-! Paths as texts. The names of a path are the stretches between its slashes, so the
names of two paths with a slash between them are those of the one and then those of
the other. A path that has been resolved stands for itself wherever it is written. -/

namespace BargeIn.Path

open Text (ascii)

theorem pieces_ne_nil (path : Text) : pieces path ≠ [] := by
  cases path with
  | nil => exact List.cons_ne_nil _ _
  | cons b t =>
    rw [pieces]
    split
    · exact List.cons_ne_nil _ _
    · split <;> exact List.cons_ne_nil _ _

theorem pieces_append_slash (s t : Text) : pieces (s ++ slash :: t) = pieces s ++ pieces t := by
  induction s with
  | nil => rfl
  | cons b s ih =>
    rw [List.cons_append, pieces, pieces, ih]
    by_cases hb : b = slash
    · rw [if_pos hb, if_pos hb, List.cons_append]
    · rw [if_neg hb, if_neg hb]
      obtain ⟨p, ps, hp⟩ := List.exists_cons_of_ne_nil (pieces_ne_nil s)
      rw [hp]
      rfl

theorem pieces_of_no_slash {t : Text} (h : slash ∉ t) : pieces t = [t] := by
  induction t with
  | nil => rfl
  | cons b t ih =>
    have hb : b ≠ slash := fun he => h (he ▸ List.mem_cons_self)
    rw [pieces, if_neg hb, ih fun ht => h (List.mem_cons_of_mem _ ht)]

theorem mem_pieces_inside {dir name n : Text} (hname : slash ∉ name)
    (h : n ∈ pieces (inside dir name)) : n ∈ pieces dir ∨ n = name := by
  rw [inside] at h
  split at h
  · rename_i hend
    rcases List.eq_nil_or_concat dir with rfl | ⟨stem, b, rfl⟩
    · rw [List.nil_append, pieces_of_no_slash hname, List.mem_singleton] at h
      exact Or.inr h
    · have hb : b = slash := by simpa using hend
      subst hb
      rw [List.concat_eq_append, List.append_assoc, List.singleton_append, pieces_append_slash,
        pieces_of_no_slash hname, List.mem_append, List.mem_singleton] at h
      rw [List.concat_eq_append, pieces_append_slash, List.mem_append]
      exact Or.imp_left Or.inl h
  · rw [pieces_append_slash, pieces_of_no_slash hname, List.mem_append, List.mem_singleton] at h
    exact h

theorem untilNul_of_noNul {path : Text} (h : (0 : UInt8) ∉ path) : Text.untilNul path = path := by
  have hall : ∀ b ∈ path, (b != 0) = true := fun b hb => by
    rw [bne_iff_ne]
    exact fun h0 => h (h0 ▸ hb)
  have hwhole : (path ++ []).takeWhile (· != 0) = path ++ [].takeWhile (· != 0) :=
    List.takeWhile_append_of_pos hall
  rwa [List.append_nil, List.takeWhile_nil, List.append_nil] at hwhole

theorem untilNul_append_of_nul {s : Text} (h : (0 : UInt8) ∈ s) (t : Text) :
    Text.untilNul (s ++ t) = Text.untilNul s := by
  induction s with
  | nil => cases h
  | cons b s ih =>
    rw [List.cons_append, Text.untilNul, Text.untilNul, List.takeWhile_cons, List.takeWhile_cons]
    by_cases hb : b = 0
    · rw [hb]
      rfl
    · rw [if_pos (by simpa using hb), if_pos (by simpa using hb)]
      exact congrArg (b :: ·) (ih ((List.mem_cons.1 h).resolve_left (Ne.symm hb)))

/-- What a directory may be given as its own name in a path. -/
structure IsName (name : Text) : Prop where
  ne_nil : name ≠ []
  noSlash : slash ∉ name
  noNul : (0 : UInt8) ∉ name
  ne_dot : name ≠ ascii "."
  ne_dots : name ≠ ascii ".."

theorem resolve_of_not_tilde {home : Option Text} {path : Text} (h : path.head? ≠ some tilde) :
    resolve home [] path = path := by
  cases path with
  | nil => rfl
  | cons b rest =>
    rw [resolve]
    split
    · exact expand_of_not_tilde h
    · rw [inside, if_pos (Or.inl rfl), List.nil_append]

theorem resolve_expand {home : Option Text} (hhome : ∀ h ∈ home, h.head? ≠ some tilde)
    (path : Text) : resolve home [] (expand home path) = expand home path := by
  cases path with
  | nil => rfl
  | cons b rest =>
    by_cases hb : b = tilde ∧ (rest = [] ∨ rest.head? = some slash)
    · cases home with
      | none =>
        have hkeep : expand none (b :: rest) = b :: rest := if_pos hb
        rw [hkeep, resolve, if_pos (Or.inr hb.1), hkeep]
      | some h =>
        have hexpand : expand (some h) (b :: rest) = h ++ rest := if_pos hb
        rw [hexpand]
        refine resolve_of_not_tilde ?_
        cases h with
        | nil =>
          -- an empty home directory leaves the slash, if there is one, at the front
          rcases hb.2 with rfl | hs
          · exact fun hn => by cases hn
          · rw [List.nil_append, hs]
            decide
        | cons c cs => exact hhome (c :: cs) rfl
    · have hkeep : expand home (b :: rest) = b :: rest := if_neg hb
      rw [hkeep, resolve]
      split
      · exact hkeep
      · rw [inside, if_pos (Or.inl rfl), List.nil_append]

theorem resolve_resolve {home : Option Text} (hhome : ∀ h ∈ home, h.head? ≠ some tilde)
    {dir : Text} (hdir : dir.head? ≠ some tilde) (path : Text) :
    resolve home [] (resolve home dir path) = resolve home dir path := by
  cases path with
  | nil => rfl
  | cons b rest =>
    by_cases hb : b = slash ∨ b = tilde
    · rw [resolve, if_pos hb]
      exact resolve_expand hhome _
    · rw [resolve, if_neg hb]
      refine resolve_of_not_tilde ?_
      have hbt : b ≠ tilde := fun h => hb (Or.inr h)
      cases dir with
      | nil => simpa [inside] using hbt
      | cons c cs =>
        rw [inside]
        split <;> simpa using hdir

end BargeIn.Path
