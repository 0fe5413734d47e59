import BargeIn.Recorder.Lifecycle

/-! The buffer of a recorder. However many events it was given, it holds the last of
them, as many as its limit allows, and has counted the others. -/

namespace BargeIn

/-- The last entries of a list, so many at most; zero is no limit. -/
def kept {α : Type} (limit : Nat) (entries : List α) : List α :=
  if limit = 0 then entries else entries.drop (entries.length - limit)

section Kept

variable {α : Type} {limit : Nat} {entries : List α}

theorem kept_nil (limit : Nat) : kept limit ([] : List α) = [] := by
  rw [kept]
  split
  · rfl
  · exact List.drop_nil

theorem kept_concat_of_room (h : limit = 0 ∨ (kept limit entries).length < limit) (e : α) :
    kept limit (entries ++ [e]) = kept limit entries ++ [e] := by
  by_cases hz : limit = 0
  · rw [kept, kept, if_pos hz, if_pos hz]
  · -- below the limit nothing has been left out, and nothing is now
    have hroom := h.resolve_left hz
    rw [kept, if_neg hz, List.length_drop] at hroom
    have hall : entries.length - limit = 0 := by omega
    have hall' : (entries ++ [e]).length - limit = 0 := by
      rw [List.length_append, List.length_singleton]
      omega
    rw [kept, kept, if_neg hz, if_neg hz, hall, hall', List.drop_zero, List.drop_zero]

theorem kept_concat_of_full (hz : limit ≠ 0) (h : limit ≤ (kept limit entries).length) (e : α) :
    kept limit (entries ++ [e]) = (kept limit entries).tail ++ [e] := by
  rw [kept, if_neg hz, List.length_drop] at h
  have hlen : (entries ++ [e]).length - limit = entries.length - limit + 1 := by
    rw [List.length_append, List.length_singleton]
    omega
  rw [kept, kept, if_neg hz, if_neg hz, hlen, List.tail_drop,
    List.drop_append_of_le_length (by omega)]

end Kept

namespace Recorder

variable {x : Recorder} {told : List RecordedEvent}

structure Holds (x : Recorder) (told : List RecordedEvent) : Prop where
  events : x.events = kept x.maxEvents told
  counted : x.dropped + x.events.length = told.length

theorem holds_opened (x : Recorder) (id : Text) (now : Nanos) : (x.opened id now).Holds [] where
  events := (kept_nil _).symm
  counted := rfl

theorem Holds.push (h : x.Holds told) (e : RecordedEvent) : (x.push e).Holds (told ++ [e]) := by
  have hcounted := h.counted
  rw [Recorder.push]
  by_cases hfull : x.isFull = true
  · rw [if_pos hfull]
    simp only [isFull, Bool.and_eq_true, decide_eq_true_eq] at hfull
    obtain ⟨hpos, hlen⟩ := hfull
    constructor
    · show x.events.tail ++ [e] = kept x.maxEvents (told ++ [e])
      rw [h.events] at hlen ⊢
      exact (kept_concat_of_full (by omega) hlen e).symm
    · simp only [List.length_append, List.length_tail, List.length_singleton]
      omega
  · rw [if_neg hfull]
    simp only [isFull, Bool.and_eq_true, decide_eq_true_eq] at hfull
    constructor
    · show x.events ++ [e] = kept x.maxEvents (told ++ [e])
      rw [h.events] at hfull ⊢
      exact (kept_concat_of_room (by omega) e).symm
    · simp only [List.length_append, List.length_singleton]
      omega

theorem Holds.length (h : x.Holds told) :
    x.events.length = if x.maxEvents = 0 then told.length else min told.length x.maxEvents := by
  rw [h.events, kept]
  split
  · rfl
  · rw [List.length_drop]
    omega

theorem Holds.suffix (h : x.Holds told) : x.events <:+ told := by
  rw [h.events, kept]
  split
  · exact List.suffix_refl told
  · exact List.drop_suffix _ told

theorem Holds.setMetadata (h : x.Holds told) (key value : Text) :
    (x.setMetadata key value).Holds told := by
  rw [Recorder.setMetadata]
  split
  · exact ⟨h.events, h.counted⟩
  · exact h

end Recorder
end BargeIn
