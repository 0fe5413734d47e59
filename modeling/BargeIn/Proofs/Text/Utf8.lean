import BargeIn.Text.Utf8

/-! Repairing in the words of the standard. A character of UTF-8 is one to four bytes, each
in a range of its own. Where no character stands, a text has a stray piece: as many of its
bytes as can start a character, or one byte when none does. Repairing keeps the characters
and puts U+FFFD for each stray piece, and what it gives is UTF-8. -/

namespace BargeIn.Utf8

def Tail (b : UInt8) : Prop := 0x80 ≤ b ∧ b ≤ 0xBF

inductive IsChar : Text → Prop
  | one {a : UInt8} (ha : a ≤ 0x7F) : IsChar [a]
  | two {a b : UInt8} (ha : 0xC2 ≤ a ∧ a ≤ 0xDF) (hb : Tail b) : IsChar [a, b]
  | afterE0 {b c : UInt8} (hb : 0xA0 ≤ b ∧ b ≤ 0xBF) (hc : Tail c) : IsChar [0xE0, b, c]
  | three {a b c : UInt8} (ha : 0xE1 ≤ a ∧ a ≤ 0xEF) (hne : a ≠ 0xED) (hb : Tail b)
      (hc : Tail c) : IsChar [a, b, c]
  | afterED {b c : UInt8} (hb : 0x80 ≤ b ∧ b ≤ 0x9F) (hc : Tail c) : IsChar [0xED, b, c]
  | afterF0 {b c d : UInt8} (hb : 0x90 ≤ b ∧ b ≤ 0xBF) (hc : Tail c) (hd : Tail d) :
      IsChar [0xF0, b, c, d]
  | four {a b c d : UInt8} (ha : 0xF1 ≤ a ∧ a ≤ 0xF3) (hb : Tail b) (hc : Tail c)
      (hd : Tail d) : IsChar [a, b, c, d]
  | afterF4 {b c d : UInt8} (hb : 0x80 ≤ b ∧ b ≤ 0x8F) (hc : Tail c) (hd : Tail d) :
      IsChar [0xF4, b, c, d]

inductive WellFormed : Text → Prop
  | nil : WellFormed []
  | char {c t : Text} (hc : IsChar c) (h : WellFormed t) : WellFormed (c ++ t)

def Due.Fits (due : Due) : Text → Prop
  | [] => due.count = 0
  | b :: t => 0 < due.count ∧ (due.low ≤ b ∧ b ≤ due.high) ∧
      Due.Fits ⟨due.count - 1, 0x80, 0xBF⟩ t

variable {b : UInt8} {c m s t rest : Text} {due : Due}

theorem Due.Fits.length (h : due.Fits t) : t.length = due.count := by
  induction t generalizing due with
  | nil => exact h.symm
  | cons b t ih =>
    have hrest := ih h.2.2
    have hcount := h.1
    dsimp only at hrest
    rw [List.length_cons]
    omega

theorem exists_fits (due : Due) (hrange : due.low ≤ due.high) : ∃ t, due.Fits t := by
  obtain ⟨count, low, high⟩ := due
  induction count generalizing low high with
  | zero => exact ⟨[], rfl⟩
  | succ n ih =>
    obtain ⟨t, ht⟩ := ih 0x80 0xBF (show (0x80 : UInt8) ≤ 0xBF by decide)
    exact ⟨low :: t, Nat.succ_pos n, ⟨UInt8.le_refl low, hrange⟩, ht⟩

theorem lead_range (h : lead b = some due) : due.low ≤ due.high := by
  unfold lead at h
  split at h
  all_goals grind

theorem isChar_cons : IsChar (b :: t) ↔ ∃ due, lead b = some due ∧ due.Fits t := by
  constructor
  · intro h
    cases h with
    | one ha => exact ⟨⟨0, 0x80, 0xBF⟩, by grind [lead], rfl⟩
    | two ha hb => exact ⟨⟨1, 0x80, 0xBF⟩, by grind [lead], Nat.one_pos, hb, rfl⟩
    | afterE0 hb hc => exact ⟨⟨2, 0xA0, 0xBF⟩, rfl, by simp, hb, by simp, hc, rfl⟩
    | three ha hne hb hc => exact ⟨⟨2, 0x80, 0xBF⟩, by grind [lead], by simp, hb, by simp, hc, rfl⟩
    | afterED hb hc => exact ⟨⟨2, 0x80, 0x9F⟩, rfl, by simp, hb, by simp, hc, rfl⟩
    | afterF0 hb hc hd => exact ⟨⟨3, 0x90, 0xBF⟩, rfl, by simp, hb, by simp, hc, by simp, hd, rfl⟩
    | four ha hb hc hd =>
      exact ⟨⟨3, 0x80, 0xBF⟩, by grind [lead], by simp, hb, by simp, hc, by simp, hd, rfl⟩
    | afterF4 hb hc hd => exact ⟨⟨3, 0x80, 0x8F⟩, rfl, by simp, hb, by simp, hc, by simp, hd, rfl⟩
  · rintro ⟨due, hlead, hfits⟩
    have hlen := hfits.length
    unfold lead at hlead
    split at hlead
    · cases hlead
      match t, hlen with
      | [], _ => exact .one (by grind)
    split at hlead
    · cases hlead
    split at hlead
    · cases hlead
      match t, hlen with
      | [_], _ => exact .two (by grind) hfits.2.1
    split at hlead
    · rename_i hb
      cases hlead
      match t, hlen with
      | [_, _], _ => exact hb ▸ .afterE0 hfits.2.1 hfits.2.2.2.1
    split at hlead
    · rename_i hb
      cases hlead
      match t, hlen with
      | [_, _], _ => exact hb ▸ .afterED hfits.2.1 hfits.2.2.2.1
    split at hlead
    · cases hlead
      match t, hlen with
      | [_, _], _ => exact .three (by grind) ‹_› hfits.2.1 hfits.2.2.2.1
    split at hlead
    · rename_i hb
      cases hlead
      match t, hlen with
      | [_, _, _], _ => exact hb ▸ .afterF0 hfits.2.1 hfits.2.2.2.1 hfits.2.2.2.2.2.1
    split at hlead
    · cases hlead
      match t, hlen with
      | [_, _, _], _ => exact .four (by grind) hfits.2.1 hfits.2.2.2.1 hfits.2.2.2.2.2.1
    split at hlead
    · rename_i hb
      cases hlead
      match t, hlen with
      | [_, _, _], _ => exact hb ▸ .afterF4 hfits.2.1 hfits.2.2.2.1 hfits.2.2.2.2.2.1
    · cases hlead

theorem IsChar.eq_of_prefix (hc : IsChar c) (hd : IsChar s) (h : c <+: s) : c = s := by
  cases c with
  | nil => cases hc
  | cons b t =>
    obtain ⟨rest, rfl⟩ := h
    obtain ⟨due, hlead, hfits⟩ := isChar_cons.1 hc
    obtain ⟨due', hlead', hfits'⟩ := isChar_cons.1 hd
    rw [hlead] at hlead'
    cases hlead'
    have hlength := hfits'.length
    rw [← hfits.length] at hlength
    exact (List.prefix_append (b :: t) rest).eq_of_length (congrArg (· + 1) hlength.symm)

def IsStart (s : Text) : Prop := ∃ rest, IsChar (s ++ rest)

/-- The text `m ++ rest` has `m` as a stray piece at its front. -/
structure Stray (m rest : Text) : Prop where
  nonempty : m ≠ []
  noChar : ∀ c, c <+: m ++ rest → ¬ IsChar c
  start : IsStart m ∨ m.length = 1
  longest : ∀ s, s <+: m ++ rest → IsStart s → s.length ≤ m.length

/-- The characters of a text, with U+FFFD for each stray piece. -/
inductive Repairs : Text → Text → Prop
  | nil : Repairs [] []
  | char {c t s : Text} (hc : IsChar c) (h : Repairs t s) : Repairs (c ++ t) (c ++ s)
  | stray {m t s : Text} (hm : Stray m t) (h : Repairs t s) : Repairs (m ++ t) (replacement ++ s)

theorem IsChar.ne_nil (h : IsChar c) : c ≠ [] := by
  cases h <;> exact List.cons_ne_nil _ _

theorem Stray.length_le {n : Text} (hm : Stray m t) (hn : Stray n rest)
    (h : m ++ t = n ++ rest) : m.length ≤ n.length := by
  rcases hm.start with hstart | hone
  · exact hn.longest m (h ▸ List.prefix_append m t) hstart
  · exact hone ▸ List.length_pos_iff.2 hn.nonempty

theorem Stray.not_char (hm : Stray m t) (hc : IsChar c) : m ++ t ≠ c ++ rest := fun h =>
  hm.noChar c (h ▸ List.prefix_append c rest) hc

theorem Repairs.of_nil (h : Repairs [] s) : s = [] := by
  generalize hw : ([] : Text) = w at h
  cases h with
  | nil => rfl
  | char hc _ => exact absurd (List.append_eq_nil_iff.1 hw.symm).1 hc.ne_nil
  | stray hm _ => exact absurd (List.append_eq_nil_iff.1 hw.symm).1 hm.nonempty

theorem Repairs.of_char (hc : IsChar c) (h : Repairs (c ++ t) s) :
    ∃ r, s = c ++ r ∧ Repairs t r := by
  generalize hw : c ++ t = w at h
  cases h with
  | nil => exact absurd (List.append_eq_nil_iff.1 hw).1 hc.ne_nil
  | @char d t' r hd hr =>
    have hsame : c = d := by
      rcases List.prefix_or_prefix_of_prefix (List.prefix_append c t)
        (hw ▸ List.prefix_append d t') with hcd | hdc
      · exact hc.eq_of_prefix hd hcd
      · exact (hd.eq_of_prefix hc hdc).symm
    subst hsame
    rw [List.append_cancel_left hw]
    exact ⟨r, rfl, hr⟩
  | stray hm _ => exact absurd hw.symm (hm.not_char hc)

theorem Repairs.of_stray (hm : Stray m t) (h : Repairs (m ++ t) s) :
    ∃ r, s = replacement ++ r ∧ Repairs t r := by
  generalize hw : m ++ t = w at h
  cases h with
  | nil => exact absurd (List.append_eq_nil_iff.1 hw).1 hm.nonempty
  | char hc _ => exact absurd hw (hm.not_char hc)
  | stray hn hr =>
    have hlength := Nat.le_antisymm (hm.length_le hn hw) (hn.length_le hm hw.symm)
    obtain ⟨-, rfl⟩ := List.append_inj hw hlength
    exact ⟨_, rfl, hr⟩

theorem Repairs.unique {r : Text} (h : Repairs t s) (h' : Repairs t r) : s = r := by
  induction h generalizing r with
  | nil => exact h'.of_nil.symm
  | char hc _ ih =>
    obtain ⟨r, rfl, hr⟩ := h'.of_char hc
    rw [ih hr]
  | stray hm _ ih =>
    obtain ⟨r, rfl, hr⟩ := h'.of_stray hm
    rw [ih hr]

theorem isChar_replacement : IsChar replacement :=
  .three (by decide) (by decide) (by unfold Tail; decide) (by unfold Tail; decide)

theorem Repairs.wellFormed (h : Repairs t s) : WellFormed s := by
  induction h with
  | nil => exact .nil
  | char hc _ ih => exact .char hc ih
  | stray _ _ ih => exact .char isChar_replacement ih

theorem Repairs.eq_of_ascii (h : Repairs t s) (hs : ∀ b ∈ s, b ≤ 0x7F) : t = s := by
  induction h with
  | nil => rfl
  | char _ _ ih => rw [ih fun b hb => hs b (List.mem_append_right _ hb)]
  | stray _ _ _ => exact absurd (hs 0xEF (List.mem_append_left _ (by decide))) (by decide)

/-- Inside a character: the bytes held start one, and what is due ends it. -/
structure Inside (held : Text) (due : Due) : Prop where
  nonempty : held ≠ []
  more : 0 < due.count
  range : due.low ≤ due.high
  char_iff : ∀ t, IsChar (held ++ t) ↔ due.Fits t

def State.Sound : State → Prop
  | .between => True
  | .inside held due => Inside held due

section
variable {held : Text}

theorem inside_lead (h : lead b = some due) (hmore : due.count ≠ 0) : Inside [b] due where
  nonempty := by simp
  more := Nat.pos_of_ne_zero hmore
  range := lead_range h
  char_iff t := by
    rw [List.singleton_append, isChar_cons, h]
    simp

theorem Inside.ends (h : Inside held due) (hb : due.low ≤ b ∧ b ≤ due.high)
    (hlast : due.count ≤ 1) : IsChar (held ++ [b]) := by
  refine (h.char_iff [b]).2 ⟨h.more, hb, ?_⟩
  show due.count - 1 = 0
  omega

theorem Inside.goesOn (h : Inside held due) (hb : due.low ≤ b ∧ b ≤ due.high)
    (hmore : ¬ due.count ≤ 1) : Inside (held ++ [b]) ⟨due.count - 1, 0x80, 0xBF⟩ where
  nonempty := by simp
  more := by dsimp only; omega
  range := show (0x80 : UInt8) ≤ 0xBF by decide
  char_iff t := by
    rw [List.append_assoc, h.char_iff]
    exact ⟨fun hfits => hfits.2.2, fun hfits => ⟨h.more, hb, hfits⟩⟩

theorem Inside.isStart (h : Inside held due) : IsStart held := by
  obtain ⟨t, ht⟩ := exists_fits due h.range
  exact ⟨t, (h.char_iff t).2 ht⟩

theorem Inside.longest (h : Inside held due)
    (hrest : ∀ b ∈ rest.head?, ¬ (due.low ≤ b ∧ b ≤ due.high)) (hs : s <+: held ++ rest)
    (hstart : IsStart s) : s.length ≤ held.length := by
  obtain ⟨more, hmore⟩ := hstart
  rcases List.prefix_or_prefix_of_prefix hs (List.prefix_append held rest) with hshort | ⟨u, rfl⟩
  · exact hshort.length_le
  · cases u with
    | nil => simp
    | cons b u =>
      rw [List.append_assoc, h.char_iff] at hmore
      obtain ⟨t, rfl⟩ := (List.prefix_append_right_inj held).1 hs
      exact absurd hmore.2.1 (hrest b rfl)

theorem Inside.stray (h : Inside held due)
    (hrest : ∀ b ∈ rest.head?, ¬ (due.low ≤ b ∧ b ≤ due.high)) : Stray held rest where
  nonempty := h.nonempty
  noChar c hc hchar := by
    -- a character there would be part of what is held, and that needs more bytes to end
    have hlength : c.length ≤ held.length := h.longest hrest hc ⟨[], by rwa [List.append_nil]⟩
    obtain ⟨t, ht⟩ := h.isStart
    have hwithin : c <+: held :=
      List.prefix_of_prefix_length_le hc (List.prefix_append held rest) hlength
    have heq := hchar.eq_of_prefix ht (hwithin.trans (List.prefix_append held t))
    have hfits := ((h.char_iff t).1 ht).length
    have hmore := h.more
    rw [heq, List.length_append] at hlength
    omega
  start := Or.inl h.isStart
  longest _ hs hstart := h.longest hrest hs hstart

end

theorem not_isStart_of_lead (h : lead b = none) (t : Text) : ¬ IsStart (b :: t) := by
  rintro ⟨rest, hchar⟩
  obtain ⟨due, hlead, -⟩ := isChar_cons.1 hchar
  rw [h] at hlead
  cases hlead

theorem stray_of_lead (h : lead b = none) (t : Text) : Stray [b] t where
  nonempty := by simp
  noChar c hc hchar := by
    cases c with
    | nil => cases hchar
    | cons a c =>
      cases (List.cons_prefix_cons.1 hc).1
      exact not_isStart_of_lead h c ⟨[], by rwa [List.append_nil]⟩
  start := Or.inr rfl
  longest s hs hstart := by
    cases s with
    | nil => simp
    | cons a s =>
      cases (List.cons_prefix_cons.1 hs).1
      exact absurd hstart (not_isStart_of_lead h s)

theorem repairs_cut (s : State) (hs : s.Sound) (t : Text) :
    Repairs (s.held ++ t) ((cut s t).flatMap Piece.repaired) := by
  induction t generalizing s with
  | nil =>
    cases s with
    | between => exact .nil
    | inside held due =>
      have hstray : Stray held [] := Inside.stray hs (by simp)
      exact .stray hstray .nil
  | cons b t ih =>
    -- the byte as the first one of whatever comes next, also after a stray piece
    have hstart : Repairs (b :: t) (((start b).1 ++ cut (start b).2 t).flatMap Piece.repaired) := by
      rw [start]
      cases hlead : lead b with
      | none => exact .stray (stray_of_lead hlead t) (ih .between trivial)
      | some due =>
        dsimp only
        split
        · have hb : IsChar [b] := isChar_cons.2 ⟨due, hlead, ‹_›⟩
          exact .char hb (ih .between trivial)
        · exact ih (.inside [b] due) (inside_lead hlead ‹_›)
    cases s with
    | between => exact hstart
    | inside held due =>
      have hs : Inside held due := hs
      rw [cut, step]
      split
      · rename_i hb
        have hassoc : held ++ b :: t = (held ++ [b]) ++ t := by simp
        rw [State.held, hassoc]
        split
        · exact .char (hs.ends hb ‹_›) (ih .between trivial)
        · exact ih (.inside (held ++ [b]) _) (hs.goesOn hb ‹_›)
      · rename_i hb
        exact .stray (hs.stray (by simpa using hb)) hstart

theorem repairs_repair (t : Text) : Repairs t (repair t) := repairs_cut .between trivial t

theorem repairs_iff : Repairs t s ↔ s = repair t :=
  ⟨fun h => h.unique (repairs_repair t), fun h => h ▸ repairs_repair t⟩

theorem cut_fits {held : Text} (h : due.Fits c) (hmore : 0 < due.count) (t : Text) :
    cut (.inside held due) (c ++ t) = .whole (held ++ c) :: cut .between t := by
  induction c generalizing held due with
  | nil => exact absurd h (Nat.ne_of_gt hmore)
  | cons b c ih =>
    obtain ⟨-, hb, hrest⟩ := h
    rw [List.cons_append, cut, step, if_pos hb]
    split
    · have hnil : c = [] := List.eq_nil_of_length_eq_zero (by rw [hrest.length]; dsimp only; omega)
      rw [hnil]
      rfl
    · have hassoc : held ++ b :: c = (held ++ [b]) ++ c := by simp
      rw [hassoc]
      exact ih hrest (by dsimp only; omega)

theorem pieces_char (hc : IsChar c) (t : Text) : pieces (c ++ t) = .whole c :: pieces t := by
  cases c with
  | nil => cases hc
  | cons b c =>
    obtain ⟨due, hlead, hfits⟩ := isChar_cons.1 hc
    rw [pieces, List.cons_append, cut, step, start, hlead]
    dsimp only
    split
    · have hnil : c = [] := List.eq_nil_of_length_eq_zero (by rw [hfits.length]; assumption)
      rw [hnil]
      rfl
    · exact cut_fits hfits (Nat.pos_of_ne_zero ‹_›) t

theorem valid_of_wellFormed (h : WellFormed t) : valid t = true := by
  induction h with
  | nil => rfl
  | char hc _ ih =>
    rw [valid, pieces_char hc, List.all_cons]
    exact ih

theorem valid_iff : valid t = true ↔ WellFormed t :=
  ⟨fun h => repair_of_valid h ▸ (repairs_repair t).wellFormed, valid_of_wellFormed⟩

theorem wellFormed_ascii (h : ∀ b ∈ t, b ≤ 0x7F) : WellFormed t := by
  induction t with
  | nil => exact .nil
  | cons b t ih =>
    exact .char (.one (h b List.mem_cons_self)) (ih fun a ha => h a (List.mem_cons_of_mem b ha))

theorem repair_of_wellFormed (h : WellFormed t) : repair t = t :=
  repair_of_valid (valid_of_wellFormed h)

theorem repair_eq_ascii (hs : ∀ b ∈ s, b ≤ 0x7F) : repair t = s ↔ t = s := by
  constructor
  · rintro rfl
    exact (repairs_repair t).eq_of_ascii hs
  · rintro rfl
    exact repair_of_wellFormed (wellFormed_ascii hs)

theorem valid_repair (t : Text) : valid (repair t) = true :=
  valid_of_wellFormed (repairs_repair t).wellFormed

end BargeIn.Utf8
