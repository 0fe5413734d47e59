import BargeIn.Proofs.Files.Writing
import BargeIn.Proofs.Recorder.Account
import BargeIn.Proofs.Text.Utf8

/-! What is read from a session's log. Writing it fails only where its path cannot be
written or the disk is noticed to be full. A log that the disk takes is read as the
session's id, how many events were dropped, an entry for every event that the recorder held
and what was last said about each key, with all texts as they were told as far as they are
UTF-8. -/

namespace BargeIn

open Text (ascii)
open Utf8 (repair)

namespace Recorder

variable {x : Recorder} {a : Account} {limit count : Nat} {t : FileTree}

structure Measured (count : Nat) (x : Recorder) : Prop where
  dropped : x.dropped ≤ count
  times : ∀ e ∈ x.events, Json.InRange e.elapsedMs

theorem Measured.countable (h : Measured count x) (hcount : count < 0x10000000000000000) :
    x.Countable := ⟨Nat.lt_of_le_of_lt h.dropped hcount, h.times⟩

theorem Measured.push (h : Measured count x) {e : RecordedEvent} (he : Json.InRange e.elapsedMs) :
    Measured (count + 1) (x.push e) := by
  have hdropped := h.dropped
  rw [Recorder.push]
  split
  · refine ⟨Nat.succ_le_succ hdropped, fun other hm => ?_⟩
    rcases List.mem_append.1 hm with hm | hm
    · exact h.times other (List.mem_of_mem_tail hm)
    · exact List.mem_singleton.1 hm ▸ he
  · refine ⟨Nat.le_succ_of_le hdropped, fun other hm => ?_⟩
    rcases List.mem_append.1 hm with hm | hm
    · exact h.times other hm
    · exact List.mem_singleton.1 hm ▸ he

theorem Measured.later (h : Measured count x) : Measured (count + 1) x :=
  ⟨Nat.le_succ_of_le h.dropped, h.times⟩

theorem Measured.step [JsonLibrary] (h : Measured count x) (t : FileTree) (act : Act) :
    Measured (count + 1) (x.step t act).recorder := by
  cases act with
  | start r =>
    rw [Recorder.step]
    cases hf : (x.start r t).fault with
    | some f =>
      rw [start_refused hf]
      exact h.later
    | none =>
      obtain ⟨id, -, -, -, hx⟩ := start_made hf
      rw [hx]
      exact ⟨Nat.zero_le _, fun e he => by cases he⟩
  | finish disk =>
    rw [Recorder.step, finish_recorder]
    exact ⟨h.later.dropped, h.later.times⟩
  | report now what =>
    rw [Recorder.step]
    dsimp only
    cases hactive : x.active with
    | false =>
      rw [record_inactive hactive]
      exact h.later
    | true =>
      rw [record_active hactive]
      exact h.push (inRange_recorded x now what)
  | describe key value =>
    rw [Recorder.step, setMetadata]
    dsimp only
    split
    · exact ⟨h.later.dropped, h.later.times⟩
    · exact h.later

theorem measured_through [JsonLibrary] (dir : Text) (limit : Nat) (ms : List Moment) :
    Measured ms.length ((ofDir dir limit).through ms) := by
  induction ms using List.reverseRecOn with
  | nil => exact ⟨Nat.le_refl 0, fun e he => by cases he⟩
  | append_singleton ms m ih =>
    rw [through_append, List.length_append]
    exact ih.step m.files m.act

/-- What a log says about its session: for each key the value last given to it. Of keys that
are one after repairing, which takes one that is not UTF-8, the last counts. -/
structure Described (a : Account) (fields : List (Text × Json)) : Prop where
  ordered : Record.Ordered fields
  value : ∀ key, Utf8.WellFormed key → (∀ d ∈ a.described, repair d.1 = key → d.1 = key) →
    Record.get? key fields = (a.value? key).map fun v => .string (repair v)
  last : ∃ given, Record.Ordered given ∧ (∀ key, Record.get? key given = a.value? key) ∧
    ∀ key, Record.get? key fields =
      (given.filter fun m => repair m.1 = key).getLast?.map fun m => .string (repair m.2)

theorem Account.value?_ne_none {key : Text} (h : a.value? key ≠ none) :
    ∃ d ∈ a.described, d.1 = key := by
  by_contra hnone
  have hnil : (a.described.filterMap fun d => if d.1 = key then some d.2 else none) = [] := by
    refine List.filterMap_eq_nil_iff.2 fun d hd => if_neg fun hkey => hnone ⟨d, hd, hkey⟩
  rw [Account.value?, hnil] at h
  exact h rfl

theorem Agrees.described (h : Agrees limit a x) :
    ∃ fields, Json.ofMembers x.describedFields = .object fields ∧ Described a fields := by
  have hlast : ∀ key, Record.get? key
      (x.describedFields.foldl (fun fs m => Record.set m.1 m.2 fs) []) =
        (x.metadata.filter fun m => repair m.1 = key).getLast?.map
          fun m => .string (repair m.2) := by
    intro key
    rw [Record.get?_foldl_set, describedFields, List.filter_map, List.getLast?_map, Option.map_map]
    rfl
  refine ⟨_, rfl, Record.ordered_foldl_set Record.ordered_nil _, fun key hkey hown => ?_,
    x.metadata, h.ordered, h.metadata, hlast⟩
  -- a key that no other one becomes is looked up as if nothing had been repaired
  have hsame : (x.metadata.filter fun m => repair m.1 = key) = x.metadata.filter (·.1 = key) := by
    refine List.filter_congr fun m hm => ?_
    obtain ⟨d, hd, hdm⟩ := Account.value?_ne_none (h.metadata m.1 ▸ Record.get?_of_mem hm)
    have hiff : repair m.1 = key ↔ m.1 = key := by
      constructor
      · exact fun hrepaired => hdm ▸ hown d hd (hdm ▸ hrepaired)
      · rintro rfl
        exact Utf8.repair_of_wellFormed hkey
    simp only [hiff]
  rw [hlast, hsame, ← h.metadata, Record.get?_of_ordered h.ordered, Option.map_map]
  rfl

theorem Agrees.repair_id (h : Agrees limit a x) : repair x.id = x.id := by
  refine Utf8.repair_of_wellFormed (Utf8.wellFormed_ascii fun b hb => ?_)
  have hname := h.nameBytes b hb
  rw [NameByte] at hname
  exact UInt8.le_iff_toNat_le.2 (show b.toNat ≤ 127 by omega)

end Recorder
end BargeIn
