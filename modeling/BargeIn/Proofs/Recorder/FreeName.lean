import BargeIn.Proofs.Json.Scalars
import BargeIn.Proofs.Recorder.Housing
import Mathlib.Data.List.Nodup
import Mathlib.Data.List.Perm.Subperm

/-! The search for a free name. Names that are taken lead from one directory to places of
their own, and a tree has only so many of these, so one of the first names is free and
the search ends at the first that is. -/

namespace BargeIn

open BargeIn.Path (IsName pieces inside)

theorem Text.ofNat_injective : Function.Injective Text.ofNat := fun m n h => by
  rw [← Json.number_ofNat m, h, Json.number_ofNat]

theorem Record.mem_keys_of_get? {κ α : Type} [DecidableEq κ] {key : κ} {value : α}
    {fields : List (κ × α)} (h : Record.get? key fields = some value) :
    key ∈ fields.map (·.1) := by
  induction fields with
  | nil => cases h
  | cons f fields ih =>
    obtain ⟨l, w⟩ := f
    rw [Record.get?] at h
    rw [List.map_cons, List.mem_cons]
    split at h
    · exact Or.inl (Eq.symm ‹_›)
    · exact Or.inr (ih h)

namespace FileTree

variable {t : FileTree} {here place : Place} {dir name : Text} {names : List Text} {node : Node}

theorem leads_of_follow_concat (h : t.follow here (names ++ [name]) = .present place node) :
    ∃ d, t.Leads here names d := by
  induction names generalizing here with
  | nil => exact ⟨here, .here here⟩
  | cons first names ih =>
    rw [List.cons_append, follow_cons] at h
    cases hturn : turn here first with
    | go p =>
      rw [hturn] at h
      obtain ⟨d, hd⟩ := ih h
      exact ⟨d, .go hturn hd⟩
    | refuse =>
      rw [hturn] at h
      cases h
    | enter p =>
      rw [hturn] at h
      dsimp only at h
      split at h
      · rename_i hnode
        obtain ⟨d, hd⟩ := ih h
        exact ⟨d, .enter hturn hnode hd⟩
      · rw [if_neg (List.append_ne_nil_of_right_ne_nil names (List.cons_ne_nil _ _))] at h
        cases h
      · cases h

theorem node_of_follow_name (hname : IsName name)
    (h : t.follow here [name] = .present place node) : t.node? (here.child name) = some node := by
  rw [follow_cons, turn_isName hname] at h
  split at h
  · rename_i hturn
    split at hturn <;> cases hturn
  · cases h
  · rename_i p hturn
    split at hturn
    · cases hturn
    cases hturn
    split at h
    · rename_i hn
      cases h
      exact hn
    · rename_i content hn
      rw [if_pos rfl] at h
      cases h
      exact hn
    · cases h

theorem has_inside (hnul : (0 : UInt8) ∉ dir) (hname : IsName name)
    (h : t.has (inside dir name) = true) :
    ∃ d, t.Leads (t.origin dir) (pieces dir) d ∧ t.node? (d.child name) ≠ none := by
  have hwhole := Recorder.untilNul_inside hnul hname
  rw [has] at h
  split at h
  case h_2 => cases h
  rename_i place node hl
  obtain ⟨hne, hlen⟩ := lookup_valid (by rw [hl]; simp) (by rw [hl]; simp)
  rw [lookup_eq hne hlen, hwhole, Recorder.origin_inside hname] at hl
  obtain ⟨names, hpieces, hsame⟩ := inside_cases dir hname
  obtain ⟨d, hd⟩ := leads_of_follow_concat (hpieces ▸ hl)
  have hleads := (hsame t _ d).1 hd
  rw [follow_inside hname hleads] at hl
  exact ⟨d, hleads, by rw [node_of_follow_name hname hl]; simp⟩

end FileTree

namespace Recorder

variable {files : FileTree} {dir base : Text}

theorem candidate_injective (base : Text) : Function.Injective (candidate base) := by
  intro m n h
  cases m with
  | zero =>
    cases n with
    | zero => rfl
    | succ n => simp [candidate] at h
  | succ m =>
    cases n with
    | zero => simp [candidate] at h
    | succ n =>
      have hnumber : Text.ofNat (m + 2) = Text.ofNat (n + 2) := by simpa [candidate] using h
      have hsame := Text.ofNat_injective hnumber
      omega

theorem exists_free (hnul : (0 : UInt8) ∉ dir) (files : FileTree) (w : WallTime) :
    ∃ n < files.nodes.length + 1, files.has (inside dir (candidate w.compact n)) = false := by
  by_contra hall
  have htaken : ∀ n < files.nodes.length + 1,
      files.has (inside dir (candidate w.compact n)) = true := fun n hn =>
    eq_true_of_ne_false fun hfree => hall ⟨n, hn, hfree⟩
  have hinside (n : Nat) (hn : n < files.nodes.length + 1) :=
    FileTree.has_inside hnul (isName_candidate w n) (htaken n hn)
  obtain ⟨d, hd, -⟩ := hinside 0 (Nat.succ_pos _)
  let places := (List.range (files.nodes.length + 1)).map fun n => d.child (candidate w.compact n)
  have hdistinct : places.Nodup := List.nodup_range.map fun m n h =>
    candidate_injective _ (Place.child_inj.1 h).2
  have hthere : places ⊆ files.nodes.map (·.1) := by
    intro p hp
    obtain ⟨n, hn, rfl⟩ := List.mem_map.1 hp
    obtain ⟨d', hd', hnode⟩ := hinside n (List.mem_range.1 hn)
    obtain rfl := hd.unique hd'
    obtain ⟨node, hnode⟩ := Option.ne_none_iff_exists'.1 hnode
    rw [FileTree.node?, if_neg (Place.child_ne_root _ _)] at hnode
    exact Record.mem_keys_of_get? hnode
  have hlength := (hdistinct.subperm hthere).length_le
  simp only [places, List.length_map, List.length_range] at hlength
  omega

theorem firstFree_first {fuel n m : Nat} (hn : n ≤ m) (hm : m < n + fuel)
    (hfree : files.has (inside dir (candidate base m)) = false) :
    ∃ k, firstFree files dir base fuel n = some (candidate base k) ∧
      files.has (inside dir (candidate base k)) = false ∧
      ∀ j, n ≤ j → j < k → files.has (inside dir (candidate base j)) = true := by
  induction fuel generalizing n with
  | zero => omega
  | succ fuel ih =>
    rw [firstFree]
    cases hhere : files.has (inside dir (candidate base n)) with
    | false => exact ⟨n, rfl, hhere, fun j hj hlt => by omega⟩
    | true =>
      have hne : n ≠ m := by
        rintro rfl
        rw [hhere] at hfree
        cases hfree
      obtain ⟨k, hk, hkfree, hbefore⟩ := ih (n := n + 1) (by omega) (by omega)
      refine ⟨k, hk, hkfree, fun j hj hlt => ?_⟩
      by_cases hjn : j = n
      · rw [hjn, hhere]
      · exact hbefore j (by omega) hlt

theorem freshId_first (hnul : (0 : UInt8) ∉ dir) (files : FileTree) (w : WallTime) :
    ∃ n, freshId files dir w.compact = some (candidate w.compact n) ∧
      files.has (inside dir (candidate w.compact n)) = false ∧
      ∀ m < n, files.has (inside dir (candidate w.compact m)) = true := by
  obtain ⟨m, hm, hfree⟩ := exists_free hnul files w
  have hroom : m < 0 + (files.nodes.length + 2) := by omega
  obtain ⟨n, hn, hnfree, hbefore⟩ := firstFree_first (Nat.zero_le m) hroom hfree
  exact ⟨n, hn, hnfree, fun j hj => hbefore j (Nat.zero_le j) hj⟩

/-- There is no name just when a search that goes on as long as names are taken never ends. -/
theorem freshId_none_iff (files : FileTree) (dir : Text) (w : WallTime) :
    freshId files dir w.compact = none ↔
      ∀ n, files.has (inside dir (candidate w.compact n)) = true := by
  refine ⟨fun hnone => ?_, fun h => firstFree_none h _ _⟩
  by_cases hnul : (0 : UInt8) ∈ dir
  · -- behind the NUL no name is seen, so all are taken when the first is
    have hsame (name : Text) :
        files.has (inside dir name) = files.has (inside dir (candidate w.compact 0)) := by
      have hcut (name : Text) : Text.untilNul (inside dir name) = Text.untilNul dir := by
        rw [inside]
        split <;> rw [Path.untilNul_append_of_nul hnul]
      rw [FileTree.has, FileTree.has, FileTree.lookup_congr ((hcut _).trans (hcut _).symm)]
    intro n
    rw [hsame]
    by_contra hfree
    have hroom : 0 < 0 + (files.nodes.length + 2) := by omega
    obtain ⟨_, hn, -⟩ := firstFree_first (Nat.le_refl 0) hroom
      (Bool.eq_false_iff.2 hfree)
    rw [freshId, hn] at hnone
    cases hnone
  · obtain ⟨n, hn, -⟩ := freshId_first hnul files w
    rw [hn] at hnone
    cases hnone

theorem start_endless_iff (r : Reading) (t : FileTree) (x : Recorder) :
    (x.start r t).fault = some .endless ↔
      ∀ n, t.has (inside x.dir (candidate r.wall.compact n)) = true := by
  rw [← freshId_none_iff, start]
  cases freshId t x.dir r.wall.compact with
  | none => simp
  | some id =>
    dsimp only
    split <;> simp

end Recorder
end BargeIn
