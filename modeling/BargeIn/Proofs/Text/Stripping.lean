import BargeIn.Text.Basic
import Mathlib.Data.List.DropRight

/-! Stripping looks at the two ends only. Droppable bytes added at an end are
dropped again, stripped text has none left there, and stripping it once more
changes nothing. -/

namespace BargeIn.Text

variable {drop : UInt8 → Bool}

theorem stripEnd_append {m : Text} (hm : ∀ b ∈ m, drop b = true) (t : Text) :
    stripEnd drop (t ++ m) = stripEnd drop t := by
  have hr : ∀ b ∈ m.reverse, drop b = true := fun b hb => hm b (List.mem_reverse.1 hb)
  unfold stripEnd
  rw [List.reverse_append, List.dropWhile_append_of_pos hr]

theorem strip_append_left {m : Text} (hm : ∀ b ∈ m, drop b = true) (t : Text) :
    strip drop (m ++ t) = strip drop t := by
  unfold strip
  rw [List.dropWhile_append_of_pos hm]

theorem strip_append_right {m : Text} (hm : ∀ b ∈ m, drop b = true) (t : Text) :
    strip drop (t ++ m) = strip drop t := by
  unfold strip
  rw [List.dropWhile_append]
  split
  · rename_i h
    have ht : t.dropWhile drop = [] := by simpa using h
    have hn : m.dropWhile drop = [] := List.dropWhile_eq_nil_iff.2 hm
    rw [ht, hn]
  · exact stripEnd_append hm _

theorem strip_around {m n : Text} (hm : ∀ b ∈ m, drop b = true) (hn : ∀ b ∈ n, drop b = true)
    (t : Text) : strip drop (m ++ t ++ n) = strip drop t := by
  rw [strip_append_right hn, strip_append_left hm]

theorem exists_strip (drop : UInt8 → Bool) (t : Text) : ∃ m n, t = m ++ strip drop t ++ n ∧
    (∀ b ∈ m, drop b = true) ∧ ∀ b ∈ n, drop b = true := by
  refine ⟨t.takeWhile drop, (t.dropWhile drop).rtakeWhile drop, ?_,
    fun b hb => List.mem_takeWhile_imp hb, fun b hb => ?_⟩
  · have hend : strip drop t ++ (t.dropWhile drop).rtakeWhile drop = t.dropWhile drop :=
      List.rdropWhile_append_rtakeWhile
    rw [List.append_assoc, hend, List.takeWhile_append_dropWhile]
  · exact List.mem_rtakeWhile_imp hb

theorem strip_eq_nil {m : Text} (hm : ∀ b ∈ m, drop b = true) : strip drop m = [] := by
  simpa using strip_append_left hm []

theorem head_not_drop {b : UInt8} {t u : Text} (h : t.dropWhile drop = b :: u) :
    drop b = false := by
  have hne : t.dropWhile drop ≠ [] := by simp [h]
  have hb : drop ((t.dropWhile drop).head hne) = false := List.head_dropWhile_not drop hne
  simpa only [h, List.head_cons] using hb

theorem dropWhile_strip (t : Text) : (strip drop t).dropWhile drop = strip drop t := by
  cases hs : strip drop t with
  | nil => rfl
  | cons b u =>
    have hp : strip drop t <+: t.dropWhile drop := stripEnd_isPrefix drop _
    rw [hs] at hp
    obtain ⟨v, hv⟩ := hp
    have hb : drop b = false := head_not_drop (by rw [← hv, List.cons_append])
    rw [List.dropWhile_cons, hb]
    rfl

theorem head_strip {b : UInt8} {t : Text} (h : b ∈ (strip drop t).head?) : drop b = false := by
  cases hs : strip drop t with
  | nil =>
    rw [hs] at h
    cases h
  | cons c u =>
    rw [hs] at h
    cases h
    exact head_not_drop ((dropWhile_strip t).trans hs)

theorem getLast_strip {b : UInt8} {t : Text} (h : b ∈ (strip drop t).getLast?) :
    drop b = false := by
  rw [strip, stripEnd, List.getLast?_reverse] at h
  cases hs : (t.dropWhile drop).reverse.dropWhile drop with
  | nil =>
    rw [hs] at h
    cases h
  | cons c u =>
    rw [hs] at h
    cases h
    exact head_not_drop hs

theorem strip_strip (t : Text) : strip drop (strip drop t) = strip drop t := by
  have h : strip drop (strip drop t) = stripEnd drop (strip drop t) :=
    congrArg (stripEnd drop) (dropWhile_strip t)
  rw [h]
  exact List.rdropWhile_idempotent drop _

end BargeIn.Text
