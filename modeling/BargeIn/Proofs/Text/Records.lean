import BargeIn.Text.Order
import Mathlib.Data.List.Induction

/-! Records by their keys. A record that grew key by key has its keys in order, so it is
fixed by what it gives for each key; putting in keys that are in order already lists
them one behind the other. -/

namespace BargeIn.Record

theorem get?_set {κ α : Type} [LT κ] [DecidableLT κ] [DecidableEq κ] (k l : κ) (v : α)
    (fs : List (κ × α)) : get? l (set k v fs) = if l = k then some v else get? l fs := by
  split
  · rename_i h
    rw [h, get?_set_self]
  · rename_i h
    exact get?_set_of_ne h v fs

variable {α : Type} {key : Text} {value : α} {fields : List (Text × α)}

def Ordered (fields : List (Text × α)) : Prop := Listing.Sorted (fields.map (·.1))

theorem ordered_nil : Ordered ([] : List (Text × α)) := List.Pairwise.nil

theorem mem_keys_set {k : Text} :
    k ∈ (set key value fields).map (·.1) → k = key ∨ k ∈ fields.map (·.1) := by
  induction fields with
  | nil => simp [set]
  | cons f fields ih =>
    obtain ⟨l, w⟩ := f
    rw [set]
    split
    · simp
    · split
      · intro hk
        exact Or.imp_right (List.mem_cons_of_mem l) (List.mem_cons.1 hk)
      · intro hk
        rcases List.mem_cons.1 hk with hk | hk
        · exact Or.inr (hk ▸ List.mem_cons_self)
        · exact Or.imp_right (List.mem_cons_of_mem l) (ih hk)

theorem ordered_set (h : Ordered fields) (key : Text) (value : α) :
    Ordered (set key value fields) := by
  induction fields with
  | nil => exact List.pairwise_singleton _ _
  | cons f fields ih =>
    obtain ⟨l, w⟩ := f
    obtain ⟨hl, hrest⟩ := List.pairwise_cons.1 h
    rw [set]
    split
    · rename_i hlt
      refine List.pairwise_cons.2 ⟨fun k hk => ?_, h⟩
      rcases List.mem_cons.1 hk with rfl | hk
      · exact hlt
      · exact List.lt_trans hlt (hl k hk)
    · split
      · rename_i heq
        exact heq ▸ h
      · rename_i hlt hne
        refine List.pairwise_cons.2 ⟨fun k hk => ?_, ih hrest⟩
        rcases mem_keys_set hk with rfl | hk
        · exact Decidable.not_not.1 fun hnot => hne (List.le_antisymm hnot hlt)
        · exact hl k hk

theorem set_last (h : ∀ k ∈ fields.map (·.1), k < key) :
    set key value fields = fields ++ [(key, value)] := by
  induction fields with
  | nil => rfl
  | cons f fields ih =>
    obtain ⟨l, w⟩ := f
    have hl : l < key := h l List.mem_cons_self
    have hne : key ≠ l := fun he => List.lt_irrefl l (he ▸ hl)
    rw [set, if_neg (fun hk => List.lt_irrefl l (List.lt_trans hl hk)), if_neg hne,
      ih fun k hk => h k (List.mem_cons_of_mem l hk)]
    rfl

theorem ordered_foldl_set (h : Ordered fields) (more : List (Text × α)) :
    Ordered (more.foldl (fun fs m => set m.1 m.2 fs) fields) := by
  induction more generalizing fields with
  | nil => exact h
  | cons m more ih => exact ih (ordered_set h m.1 m.2)

theorem get?_foldl_set (key : Text) (more : List (Text × α)) :
    get? key (more.foldl (fun fs m => set m.1 m.2 fs) []) =
      (more.filter (·.1 = key)).getLast?.map (·.2) := by
  induction more using List.reverseRecOn with
  | nil => rfl
  | append_singleton more m ih =>
    rw [List.foldl_append, List.foldl_cons, List.foldl_nil, get?_set, ih, List.filter_append]
    by_cases hm : key = m.1
    · rw [if_pos hm, List.filter_cons_of_pos (by simpa using hm.symm)]
      simp
    · rw [if_neg hm, List.filter_cons_of_neg (by simpa using Ne.symm hm)]
      simp

theorem foldl_set_of_ordered {more : List (Text × α)} (h : Ordered (fields ++ more)) :
    more.foldl (fun fs m => set m.1 m.2 fs) fields = fields ++ more := by
  induction more generalizing fields with
  | nil => rw [List.append_nil]; rfl
  | cons m more ih =>
    obtain ⟨k, w⟩ := m
    have hlast : ∀ l ∈ fields.map (·.1), l < k := by
      rw [Ordered, Listing.Sorted, List.map_append, List.pairwise_append] at h
      exact fun l hl => h.2.2 l hl k List.mem_cons_self
    rw [List.foldl_cons, set_last hlast, ih (by rwa [List.append_assoc]), List.append_assoc]
    rfl

theorem get?_of_ordered (h : Ordered fields) (key : Text) :
    get? key fields = (fields.filter (·.1 = key)).getLast?.map (·.2) := by
  have hsame : fields.foldl (fun fs m => set m.1 m.2 fs) [] = [] ++ fields :=
    foldl_set_of_ordered h
  rw [← get?_foldl_set, hsame, List.nil_append]

theorem get?_of_mem {m : Text × α} (h : m ∈ fields) : get? m.1 fields ≠ none := by
  induction fields with
  | nil => cases h
  | cons f fields ih =>
    obtain ⟨l, w⟩ := f
    rw [get?]
    split
    · simp
    · rcases List.mem_cons.1 h with rfl | h
      · exact absurd rfl ‹_›
      · exact ih h

end BargeIn.Record
