import BargeIn.Proofs.Json.ReadBack
import BargeIn.Proofs.Text.Utf8

/-! The library that reads and prints documents, known by its documentation only. The reader
and the printer of this project make a library that keeps to it. -/

namespace BargeIn

open Text (ascii byte)

/-- Strings that are read are UTF-8. Printing is refused for what is not UTF-8, and only for
that, unless stray bytes are to be replaced; they become U+FFFD. What is printed is read
back, and of fields with one key the last counts. -/
structure JsonLibrary.Documented [JsonLibrary] : Prop where
  reads_utf8 : ∀ t j, JsonLibrary.read t = .ok j → j.isUtf8 = true
  prints : ∀ j, (∃ t, JsonLibrary.compact j = .ok t) ↔ j.isUtf8 = true
  replaces : ∀ j, JsonLibrary.replacing j = JsonLibrary.replacing (j.mapText Utf8.repair)
  reads_back : ∀ j, j.Readable → JsonLibrary.read (JsonLibrary.replacing j ++ [10]) = .ok j.merged

namespace Json

variable {s t r : Text} {j : Json} {js : List Json} {ms fs : List (Text × Json)} {fuel : Nat}

theorem fieldsAreUtf8_set {key : Text} (hkey : Utf8.valid key = true) (hj : j.isUtf8 = true)
    (hfs : fieldsAreUtf8 fs = true) : fieldsAreUtf8 (Record.set key j fs) = true := by
  induction fs with
  | nil => simp [Record.set, fieldsAreUtf8, hkey, hj]
  | cons f fs ih =>
    obtain ⟨l, w⟩ := f
    simp only [fieldsAreUtf8, Bool.and_eq_true] at hfs
    rw [Record.set]
    split
    · simp [fieldsAreUtf8, hkey, hj, hfs]
    · split <;> simp [fieldsAreUtf8, hkey, hj, hfs, ih hfs.2]

theorem isUtf8_ofMembers (h : fieldsAreUtf8 ms = true) : (ofMembers ms).isUtf8 = true := by
  have hall : ∀ fs, fieldsAreUtf8 fs = true →
      fieldsAreUtf8 (ms.foldl (fun fields m => Record.set m.1 m.2 fields) fs) = true := by
    induction ms with
    | nil => exact fun fs hfs => hfs
    | cons m ms ih =>
      obtain ⟨key, value⟩ := m
      simp only [fieldsAreUtf8, Bool.and_eq_true] at h
      exact fun fs hfs => ih h.2 _ (fieldsAreUtf8_set h.1.1 h.1.2 hfs)
  exact hall [] rfl

theorem isUtf8_ofNumeral {negative : Bool} {whole : Text} {places : Option Text}
    {power : Option Int} (h : ofNumeral negative whole places power = some j) :
    j.isUtf8 = true := by
  have hdecimal {x : Option Binary64} (h : x.map Json.fraction = some j) : j.isUtf8 = true := by
    obtain ⟨_, -, rfl⟩ := Option.map_eq_some_iff.1 h
    rfl
  rw [ofNumeral] at h
  dsimp only at h
  split at h
  · exact hdecimal h
  · split at h <;> split at h
    · cases h
      rfl
    · exact hdecimal h
    · cases h
      rfl
    · exact hdecimal h

theorem isUtf8_numeral (h : numeral t = some (j, r)) : j.isUtf8 = true := by
  rw [numeral.eq_def] at h
  dsimp only at h
  simp only [Option.bind_eq_bind, Option.bind_eq_some_iff, Option.pure_def, Option.some.injEq,
    Prod.mk.injEq] at h
  obtain ⟨_, -, _, -, _, -, _, hj, rfl, -⟩ := h
  exact isUtf8_ofNumeral hj

theorem valid_of_string? (h : string? t = some (s, r)) : Utf8.valid s = true := by
  simp only [string?, Option.bind_eq_bind, Option.bind_eq_some_iff] at h
  obtain ⟨_, -, _, -, h⟩ := h
  split at h
  · obtain ⟨rfl, -⟩ := Prod.mk.inj (Option.some.inj h)
    assumption
  · cases h

theorem isUtf8_literal? {word : Text} {k : Json} (hk : k.isUtf8 = true)
    (h : literal? word k t = some (j, r)) : j.isUtf8 = true := by
  rw [literal?] at h
  split at h
  · cases h
    exact hk
  · cases h

structure ReadsUtf8 (fuel : Nat) : Prop where
  value : ∀ t j r, value? fuel t = some (j, r) → j.isUtf8 = true
  items : ∀ t js r, items? fuel t = some (js, r) → areUtf8 js = true
  members : ∀ t ms r, members? fuel t = some (ms, r) → fieldsAreUtf8 ms = true

theorem isUtf8_value? (ih : ReadsUtf8 fuel) (h : value? (fuel + 1) t = some (j, r)) :
    j.isUtf8 = true := by
  rw [value?] at h
  split at h
  · cases h
  split at h
  · -- an object
    split at h
    · split at h
      · cases h
        rfl
      · obtain ⟨⟨ms, s⟩, hms, hj⟩ := Option.map_eq_some_iff.1 h
        cases hj
        exact isUtf8_ofMembers (ih.members _ ms _ hms)
    · cases h
  split at h
  · -- an array
    split at h
    · split at h
      · cases h
        rfl
      · obtain ⟨⟨js, s⟩, hjs, hj⟩ := Option.map_eq_some_iff.1 h
        cases hj
        exact ih.items _ js _ hjs
    · cases h
  split at h
  · obtain ⟨⟨s, rest⟩, hs, hj⟩ := Option.map_eq_some_iff.1 h
    cases hj
    exact valid_of_string? hs
  split at h
  · exact isUtf8_literal? rfl h
  split at h
  · exact isUtf8_literal? rfl h
  split at h
  · exact isUtf8_literal? rfl h
  · exact isUtf8_numeral h

theorem areUtf8_items? (ih : ReadsUtf8 fuel) (h : items? (fuel + 1) t = some (js, r)) :
    areUtf8 js = true := by
  simp only [items?, Option.bind_eq_bind, Option.bind_eq_some_iff] at h
  obtain ⟨⟨j, s⟩, hj, h⟩ := h
  have hvalue := ih.value _ j s hj
  split at h
  · cases h
  split at h
  · obtain ⟨⟨rest, s'⟩, hrest, hjs⟩ := Option.bind_eq_some_iff.1 h
    cases hjs
    simp [areUtf8, hvalue, ih.items _ rest s' hrest]
  · split at h
    · cases h
      simp [areUtf8, hvalue]
    · cases h

theorem fieldsAreUtf8_members? (ih : ReadsUtf8 fuel) (h : members? (fuel + 1) t = some (ms, r)) :
    fieldsAreUtf8 ms = true := by
  rw [members?] at h
  split at h
  · cases h
  split at h
  case isFalse => cases h
  obtain ⟨⟨key, s⟩, hkey, h⟩ := Option.bind_eq_some_iff.1 h
  have hvalid := valid_of_string? hkey
  dsimp only at h
  split at h
  · cases h
  split at h
  case isFalse => cases h
  obtain ⟨⟨j, s'⟩, hj, h⟩ := Option.bind_eq_some_iff.1 h
  have hvalue := ih.value _ j s' hj
  dsimp only at h
  split at h
  · cases h
  split at h
  · obtain ⟨⟨rest, s''⟩, hrest, hms⟩ := Option.bind_eq_some_iff.1 h
    cases hms
    simp [fieldsAreUtf8, hvalid, hvalue, ih.members _ rest s'' hrest]
  · split at h
    · cases h
      simp [fieldsAreUtf8, hvalid, hvalue]
    · cases h

theorem readsUtf8 (fuel : Nat) : ReadsUtf8 fuel := by
  induction fuel with
  | zero =>
    exact ⟨fun _ _ _ h => by simp [value?] at h, fun _ _ _ h => by simp [items?] at h,
      fun _ _ _ h => by simp [members?] at h⟩
  | succ fuel ih =>
    exact ⟨fun _ _ _ => isUtf8_value? ih, fun _ _ _ => areUtf8_items? ih,
      fun _ _ _ => fieldsAreUtf8_members? ih⟩

theorem isUtf8_read? (h : read? t = some j) : j.isUtf8 = true := by
  obtain ⟨⟨k, r⟩, hk, rfl⟩ := Option.map_eq_some_iff.1 h
  exact (readsUtf8 _).value _ k r hk

theorem areUtf8_eq_true : areUtf8 js = true ↔ ∀ item ∈ js, item.isUtf8 = true := by
  induction js with
  | nil => simp [areUtf8]
  | cons item js ih => simp [areUtf8, ih]

theorem isUtf8_field? {key : Text} {value : Json} (h : j.isUtf8 = true)
    (hvalue : j.field? key = some value) : value.isUtf8 = true := by
  cases j with
  | object fields =>
    rw [isUtf8] at h
    change Record.get? key fields = some value at hvalue
    induction fields with
    | nil => cases hvalue
    | cons f fields ih =>
      obtain ⟨l, w⟩ := f
      simp only [fieldsAreUtf8, Bool.and_eq_true] at h
      rw [Record.get?] at hvalue
      split at hvalue
      · cases hvalue
        exact h.1.2
      · exact ih h.2 hvalue
  | _ => cases hvalue

theorem mapText_of_readable (h : Readable j) : j.mapText Utf8.repair = j := by
  induction h with
  | null => rfl
  | bool b => rfl
  | integer hn => rfl
  | string ht => rw [mapText, Utf8.repair_of_valid ht]
  | @array items _ ih =>
    have hsame : items.map (mapText Utf8.repair) = items.map id := List.map_congr_left ih
    rw [mapText, mapTexts_eq, hsame, List.map_id]
  | @object fields hkeys _ ih =>
    have hsame : fields.map (fun m => (Utf8.repair m.1, mapText Utf8.repair m.2)) =
        fields.map id := by
      refine List.map_congr_left fun m hm => ?_
      rw [Utf8.repair_of_valid (hkeys m hm), ih m hm, id]
    rw [mapText, mapFields_eq, hsame, List.map_id]

theorem repair_repair (t : Text) : Utf8.repair (Utf8.repair t) = Utf8.repair t :=
  Utf8.repair_of_valid (Utf8.valid_repair t)

mutual

theorem mapText_mapText (j : Json) :
    (j.mapText Utf8.repair).mapText Utf8.repair = j.mapText Utf8.repair := by
  cases j with
  | null => rfl
  | bool b => rfl
  | integer n => rfl
  | fraction x => rfl
  | string t => rw [mapText, mapText, repair_repair]
  | array items => rw [mapText, mapText, mapTexts_mapTexts items]
  | object fields => rw [mapText, mapText, mapFields_mapFields fields]

theorem mapTexts_mapTexts (items : List Json) :
    mapTexts Utf8.repair (mapTexts Utf8.repair items) = mapTexts Utf8.repair items := by
  cases items with
  | nil => rfl
  | cons item items =>
    rw [mapTexts, mapTexts, mapText_mapText item, mapTexts_mapTexts items]

theorem mapFields_mapFields (fields : List (Text × Json)) :
    mapFields Utf8.repair (mapFields Utf8.repair fields) = mapFields Utf8.repair fields := by
  cases fields with
  | nil => rfl
  | cons m fields =>
    obtain ⟨key, value⟩ := m
    rw [mapFields, mapFields, repair_repair, mapText_mapText value, mapFields_mapFields fields]

end

theorem read_library (refusal t : Text) (j : Json) :
    (library refusal).read t = .ok j ↔ read? t = some j := by
  unfold library
  dsimp only
  cases read? t <;> simp

theorem documented_library (refusal : Text) : @JsonLibrary.Documented (library refusal) := by
  let _ := library refusal
  have hprints (j : Json) :
      (∃ t, (if j.isUtf8 then .ok j.compact else .error refusal : Except Text Text) = .ok t) ↔
        j.isUtf8 = true := by
    cases j.isUtf8 <;> simp
  refine ⟨fun t j h => isUtf8_read? ((read_library refusal t j).1 h), hprints,
    fun j => congrArg indented (mapText_mapText j).symm, fun j hj => ?_⟩
  have hread : read? (j.indented ++ [10]) = some j.merged :=
    read?_write spaced_indented hj (by
      rintro _ ⟨⟩
      decide)
  refine (read_library refusal _ _).2 ?_
  change read? ((j.mapText Utf8.repair).indented ++ [10]) = _
  rw [mapText_of_readable hj, hread]

end Json
end BargeIn
