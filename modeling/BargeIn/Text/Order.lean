import BargeIn.Text.Basic

/-! Listings are strictly increasing lists of texts in byte order. A listing
stands for a set: it is fixed by its members, so neither the order nor the
repetition of what went in can be seen in it. Records map keys to values in
the order of the keys, one value a key. -/

namespace BargeIn

namespace Listing

def insert (t : Text) : List Text → List Text
  | [] => [t]
  | u :: us => if t < u then t :: u :: us else if t = u then u :: us else u :: insert t us

def ofList (ts : List Text) : List Text := ts.foldr insert []

@[simp] theorem mem_insert {t u : Text} {us : List Text} :
    u ∈ insert t us ↔ u = t ∨ u ∈ us := by
  induction us with
  | nil => simp [insert]
  | cons v vs ih =>
    simp only [insert]
    split
    · simp
    · split
      · rename_i h; subst h; simp
      · simp [ih]; grind

@[simp] theorem mem_ofList {u : Text} {ts : List Text} : u ∈ ofList ts ↔ u ∈ ts := by
  induction ts with
  | nil => simp [ofList]
  | cons t ts ih => rw [ofList, List.foldr_cons, mem_insert, List.mem_cons]; exact or_congr_right ih

def Sorted (ts : List Text) : Prop := ts.Pairwise (· < ·)

theorem sorted_insert {t : Text} {us : List Text} (h : Sorted us) : Sorted (insert t us) := by
  induction us with
  | nil => simp [insert, Sorted]
  | cons u us ih =>
    obtain ⟨hu, hs⟩ := List.pairwise_cons.1 h
    simp only [insert]
    split
    · rename_i htu
      refine List.pairwise_cons.2 ⟨fun v hv => ?_, h⟩
      rcases List.mem_cons.1 hv with rfl | hv
      · exact htu
      · exact List.lt_trans htu (hu v hv)
    · split
      · exact h
      · rename_i htu hne
        refine List.pairwise_cons.2 ⟨fun v hv => ?_, ih hs⟩
        rcases mem_insert.1 hv with rfl | hv
        · exact Decidable.not_not.1 fun hlt => hne (List.le_antisymm hlt htu)
        · exact hu v hv

theorem sorted_ofList (ts : List Text) : Sorted (ofList ts) := by
  induction ts with
  | nil => exact List.Pairwise.nil
  | cons t ts ih => exact sorted_insert ih

theorem sorted_ext {ts us : List Text} (ht : Sorted ts) (hu : Sorted us)
    (h : ∀ v, v ∈ ts ↔ v ∈ us) : ts = us := by
  induction ts generalizing us with
  | nil => cases us with
    | nil => rfl
    | cons u us => simpa using h u
  | cons t ts ih =>
    cases us with
    | nil => simpa using h t
    | cons u us =>
      obtain ⟨ht, hts⟩ := List.pairwise_cons.1 ht
      obtain ⟨hu, hus⟩ := List.pairwise_cons.1 hu
      have htu : t = u := by
        rcases List.mem_cons.1 ((h t).1 List.mem_cons_self) with e | e
        · exact e
        · rcases List.mem_cons.1 ((h u).2 List.mem_cons_self) with f | f
          · exact f.symm
          · exact absurd (List.lt_trans (hu t e) (ht u f)) (List.lt_irrefl u)
      subst htu
      congr 1
      refine ih hts hus fun v => ⟨fun hv => ?_, fun hv => ?_⟩
      · rcases List.mem_cons.1 ((h v).1 (List.mem_cons_of_mem _ hv)) with rfl | e
        · exact absurd (ht v hv) (List.lt_irrefl v)
        · exact e
      · rcases List.mem_cons.1 ((h v).2 (List.mem_cons_of_mem _ hv)) with rfl | e
        · exact absurd (hu v hv) (List.lt_irrefl v)
        · exact e

theorem ofList_eq_of_mem_iff {ts us : List Text} (h : ∀ v, v ∈ ts ↔ v ∈ us) :
    ofList ts = ofList us :=
  sorted_ext (sorted_ofList ts) (sorted_ofList us) fun v => by simp [h v]

theorem ofList_of_sorted {ts : List Text} (h : Sorted ts) : ofList ts = ts :=
  sorted_ext (sorted_ofList ts) h fun _ => mem_ofList

end Listing

namespace Record

variable {κ α : Type} [LT κ] [DecidableLT κ] [DecidableEq κ]

def set (k : κ) (v : α) : List (κ × α) → List (κ × α)
  | [] => [(k, v)]
  | (l, w) :: fs =>
    if k < l then (k, v) :: (l, w) :: fs
    else if k = l then (k, v) :: fs
    else (l, w) :: set k v fs

def get? (k : κ) : List (κ × α) → Option α
  | [] => none
  | (l, w) :: fs => if l = k then some w else get? k fs

@[simp] theorem get?_set_self (k : κ) (v : α) (fs : List (κ × α)) :
    get? k (set k v fs) = some v := by
  induction fs with
  | nil => simp [set, get?]
  | cons f fs ih =>
    obtain ⟨l, w⟩ := f
    simp only [set]
    split
    · simp [get?]
    · split
      · simp [get?]
      · rename_i _ h
        simp [get?, Ne.symm h, ih]

theorem get?_set_of_ne {k l : κ} (h : l ≠ k) (v : α) (fs : List (κ × α)) :
    get? l (set k v fs) = get? l fs := by
  induction fs with
  | nil => simp [set, get?, Ne.symm h]
  | cons f fs ih =>
    obtain ⟨m, w⟩ := f
    simp only [set]
    split
    · simp [get?, Ne.symm h]
    · split
      · rename_i _ hm; subst hm; simp [get?, Ne.symm h]
      · simp [get?, ih]

end Record
end BargeIn
