import BargeIn.Lexicon.Basic
import BargeIn.Proofs.Text.Stripping
import BargeIn.Proofs.Text.Words

/-! A token is bare, solid, lower-case and not empty. Tokens come out of any text,
and out of tokens joined by blanks come those tokens. A gap parts the tokens
before it from those after it, and neither letter case nor edge marks around a
piece can be seen in them. -/

namespace BargeIn

open Text (lower words strip spaced isBlank Gap Solid)

structure IsToken (w : Text) : Prop where
  ne_nil : w ≠ []
  solid : Solid w
  lower : Text.lower w = w
  bare : bareWord w = w

theorem IsToken.head {w : Text} (h : IsToken w) : ∀ b ∈ w.head?, isEdgeMark b = false := by
  intro b hb
  rw [← h.bare] at hb
  exact Text.head_strip hb

theorem IsToken.last {w : Text} (h : IsToken w) : ∀ b ∈ w.getLast?, isEdgeMark b = false := by
  intro b hb
  rw [← h.bare] at hb
  exact Text.getLast_strip hb

def EdgeMarks (m : Text) : Prop := ∀ b ∈ m, isEdgeMark b = true

theorem isEdgeMark_iff (b : UInt8) : isEdgeMark b = true ↔
    b.toNat = 46 ∨ b.toNat = 44 ∨ b.toNat = 33 ∨ b.toNat = 63 ∨ b.toNat = 59 ∨ b.toNat = 58 ∨
      b.toNat = 40 ∨ b.toNat = 41 ∨ b.toNat = 91 ∨ b.toNat = 93 ∨ b.toNat = 34 ∨ b.toNat = 39 := by
  simp [isEdgeMark, Text.ascii, Text.byte, ← UInt8.toNat_inj]

theorem isEdgeMark_lowerByte (b : UInt8) : isEdgeMark (Text.lowerByte b) = isEdgeMark b := by
  rw [Bool.eq_iff_iff, isEdgeMark_iff, isEdgeMark_iff, Text.toNat_lowerByte]
  split <;> omega

theorem isBlank_of_isEdgeMark {b : UInt8} (h : isEdgeMark b = true) : isBlank b = false := by
  rw [isEdgeMark_iff] at h
  rw [Bool.eq_false_iff, ne_eq, Text.isBlank_iff]
  omega

theorem edgeMarks_lower {m : Text} (h : EdgeMarks m) : EdgeMarks (lower m) := by
  intro b hb
  obtain ⟨c, hc, rfl⟩ := List.mem_map.1 hb
  rw [isEdgeMark_lowerByte]
  exact h c hc

theorem EdgeMarks.solid {m : Text} (h : EdgeMarks m) : Solid m :=
  fun b hb => isBlank_of_isEdgeMark (h b hb)

theorem bareWord_lower (w : Text) : bareWord (lower w) = lower (bareWord w) := by
  have hmark : isEdgeMark ∘ Text.lowerByte = isEdgeMark := funext isEdgeMark_lowerByte
  simp only [bareWord, strip, Text.stripEnd, lower, List.dropWhile_map, ← List.map_reverse, hmark]

theorem of_mem_tokens {t w : Text} (h : w ∈ tokens t) : IsToken w := by
  obtain ⟨hm, hne⟩ := List.mem_filter.1 h
  obtain ⟨p, hp, rfl⟩ := List.mem_map.1 hm
  obtain ⟨-, hsolid⟩ := Text.of_mem_words hp
  have hlow : lower p = p := by
    rw [Text.words_lower] at hp
    obtain ⟨q, -, rfl⟩ := List.mem_map.1 hp
    exact Text.lower_lower q
  refine ⟨by simpa using hne, fun b hb => ?_, ?_, Text.strip_strip p⟩
  · exact hsolid b ((Text.strip_sublist _ p).subset hb)
  · rw [← bareWord_lower, hlow]

theorem tokens_spaced {ws : List Text} (h : ∀ w ∈ ws, IsToken w) : tokens (spaced ws) = ws := by
  have hlow : lower (spaced ws) = spaced ws := Text.lower_spaced fun w hw => (h w hw).lower
  have hwords : words (spaced ws) = ws :=
    Text.words_spaced fun w hw => ⟨(h w hw).ne_nil, (h w hw).solid⟩
  have hbare : ws.map bareWord = ws :=
    (List.map_congr_left fun w hw => (h w hw).bare).trans (List.map_id ws)
  rw [tokens, hlow, hwords, hbare]
  exact List.filter_eq_self.2 fun w hw => by simpa using (h w hw).ne_nil

theorem spaced_tokens_inj {ws vs : List Text} (hw : ∀ w ∈ ws, IsToken w)
    (hv : ∀ w ∈ vs, IsToken w) : spaced ws = spaced vs ↔ ws = vs :=
  Text.spaced_inj (fun w h => ⟨(hw w h).ne_nil, (hw w h).solid⟩)
    fun w h => ⟨(hv w h).ne_nil, (hv w h).solid⟩

theorem tokens_congr {s t : Text} (h : lower s = lower t) : tokens s = tokens t := by
  rw [tokens, tokens, h]

theorem tokens_append_gap {s : Text} (hs : Gap s) (u v : Text) :
    tokens (u ++ s ++ v) = tokens u ++ tokens v := by
  simp only [tokens, Text.lower_append, Text.words_append_gap (Text.gap_lower hs),
    List.map_append, List.filter_append]

theorem tokens_append_of_ends_blank {u : Text} (hu : ∀ b ∈ u.getLast?, isBlank b = true)
    (t : Text) : tokens (u ++ t) = tokens u ++ tokens t := by
  rcases List.eq_nil_or_concat u with rfl | ⟨u, b, rfl⟩
  · rfl
  · have hb : isBlank b = true := hu b (by simp)
    have hgap : Gap [b] := ⟨List.cons_ne_nil _ _, by simpa [Text.AllBlank] using hb⟩
    have hend : tokens (u ++ [b]) = tokens u := by
      simpa using tokens_append_gap hgap u []
    rw [List.concat_eq_append, hend, tokens_append_gap hgap]

theorem tokens_append_of_starts_blank {v : Text} (hv : ∀ b ∈ v.head?, isBlank b = true)
    (t : Text) : tokens (t ++ v) = tokens t ++ tokens v := by
  cases v with
  | nil => simp
  | cons b v =>
    have hb : isBlank b = true := hv b rfl
    have hgap : Gap [b] := ⟨List.cons_ne_nil _ _, by simpa [Text.AllBlank] using hb⟩
    have hstart : tokens (b :: v) = tokens v := by
      simpa using tokens_append_gap hgap [] v
    rw [hstart, ← tokens_append_gap hgap, List.append_assoc, List.singleton_append]

theorem tokens_solid {t : Text} (h : Solid t) :
    tokens t = if bareWord (lower t) = [] then [] else [bareWord (lower t)] := by
  rw [tokens, Text.words_solid (Text.solid_lower h)]
  by_cases ht : lower t = []
  · rw [ht]
    rfl
  · rw [if_neg ht]
    by_cases hb : bareWord (lower t) = []
    · simp [hb]
    · simp [hb]

theorem solid_around {m q n : Text} (hm : EdgeMarks m) (hn : EdgeMarks n) (hq : Solid q) :
    Solid (m ++ q ++ n) := by
  intro b hb
  rcases List.mem_append.1 hb with hb | hb
  · rcases List.mem_append.1 hb with hb | hb
    · exact hm.solid b hb
    · exact hq b hb
  · exact hn.solid b hb

theorem bareWord_lower_around {m n : Text} (hm : EdgeMarks m) (hn : EdgeMarks n) (q : Text) :
    bareWord (lower (m ++ q ++ n)) = bareWord (lower q) := by
  rw [Text.lower_append, Text.lower_append]
  exact Text.strip_around (edgeMarks_lower hm) (edgeMarks_lower hn) _

theorem tokens_around {m q n : Text} (hm : EdgeMarks m) (hn : EdgeMarks n) (hq : Solid q) :
    tokens (m ++ q ++ n) = tokens q := by
  rw [tokens_solid (solid_around hm hn hq), tokens_solid hq, bareWord_lower_around hm hn]

theorem tokens_edgeMarks {m : Text} (hm : EdgeMarks m) : tokens m = [] := by
  have hb : bareWord (lower m) = [] := Text.strip_eq_nil (edgeMarks_lower hm)
  rw [tokens_solid hm.solid, if_pos hb]

theorem tokens_of_lower_eq {q w : Text} (hw : IsToken w) (h : lower q = w) : tokens q = [w] := by
  rw [tokens_congr (h.trans hw.lower.symm), tokens_solid hw.solid, hw.lower, hw.bare,
    if_neg hw.ne_nil]

end BargeIn
