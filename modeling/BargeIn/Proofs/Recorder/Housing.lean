import BargeIn.Proofs.Files.Way
import BargeIn.Proofs.Recorder.Buffer
import BargeIn.Proofs.Text.Lines

/-! Where a session lives. Its name has digits and underscores only, so the directory
made for it is the one that its path and the path of its log go through, however
many slashes the recorder's directory is written with. A NUL in that directory
breaks this: the system then sees neither the name nor the log. -/

namespace BargeIn

open Text (ascii)
open FileTree (maxName maxPath)
open BargeIn.Path (IsName pieces inside slash)

def NameByte (b : UInt8) : Prop := (48 ≤ b.toNat ∧ b.toNat ≤ 57) ∨ b.toNat = 95

theorem nameByte_ofNat {n : Nat} {b : UInt8} (h : b ∈ Text.ofNat n) : NameByte b :=
  Or.inl (Text.digit_of_mem_ofNat h)

theorem nameByte_padded {width n : Nat} {b : UInt8} (h : b ∈ Text.padded width n) :
    NameByte b := by
  rcases List.mem_append.1 h with h | h
  · rw [(List.mem_replicate.1 h).2]
    exact Or.inl ⟨by decide, by decide⟩
  · exact nameByte_ofNat h

theorem nameByte_compact {w : WallTime} {b : UInt8} (h : b ∈ w.compact) : NameByte b := by
  simp only [WallTime.compact, List.mem_append, List.mem_cons] at h
  rcases h with ((h | h) | h) | rfl | (h | h) | h
  · exact nameByte_padded h
  · exact nameByte_padded h
  · exact nameByte_padded h
  · exact Or.inr rfl
  · exact nameByte_padded h
  · exact nameByte_padded h
  · exact nameByte_padded h

theorem isName_of_nameBytes {name : Text} (hne : name ≠ []) (h : ∀ b ∈ name, NameByte b) :
    IsName name := by
  have hno {b : UInt8} (hb : ¬ NameByte b) : b ∉ name := fun hm => hb (h b hm)
  have hdot : Text.byte '.' ∉ name := hno (by simp [NameByte, Text.byte])
  refine ⟨hne, hno (by simp [NameByte, slash, Text.byte]), hno (by simp [NameByte]), ?_, ?_⟩
  · rintro rfl
    exact hdot List.mem_cons_self
  · rintro rfl
    exact hdot List.mem_cons_self

theorem nameByte_candidate {w : WallTime} {n : Nat} {b : UInt8}
    (h : b ∈ Recorder.candidate w.compact n) : NameByte b := by
  cases n with
  | zero => exact nameByte_compact h
  | succ n =>
    rcases List.mem_append.1 h with h | h
    · exact nameByte_compact h
    · rcases List.mem_cons.1 h with rfl | h
      · exact Or.inr rfl
      · exact nameByte_ofNat h

theorem isName_candidate (w : WallTime) (n : Nat) :
    IsName (Recorder.candidate w.compact n) := by
  have hunderscore : Text.byte '_' ∈ w.compact := by simp [WallTime.compact]
  refine isName_of_nameBytes (fun h => ?_) fun b hb => nameByte_candidate hb
  cases n with
  | zero =>
    rw [Recorder.candidate] at h
    rw [h] at hunderscore
    cases hunderscore
  | succ n => simp [Recorder.candidate] at h

namespace FileTree

variable {t t' : FileTree} {here d place : Place} {dir name : Text} {rest : List Text}

theorem turn_isName (h : IsName name) (here : Place) :
    turn here name = if maxName < name.length then .refuse else .enter (here.child name) := by
  rw [turn, if_neg (not_or.2 ⟨h.ne_nil, h.ne_dot⟩), if_neg h.ne_dots]

theorem leads_name (h : IsName name) (hl : t.Leads d [name] place) :
    name.length ≤ maxName ∧ place = d.child name ∧ t.node? (d.child name) = some .directory := by
  have hturn := turn_isName h d
  cases hl with
  | go hgo _ =>
    rw [hturn] at hgo
    split at hgo <;> cases hgo
  | enter henter hnode hrest =>
    rw [hturn] at henter
    split at henter
    · cases henter
    · rename_i hlen
      cases henter
      cases hrest
      exact ⟨Nat.not_lt.1 hlen, rfl, hnode⟩

/-- The path of something inside a directory, which may be written with a slash at its
end: what it leads through is the directory all the same. -/
theorem inside_cases (dir : Text) (hname : IsName name) :
    ∃ names, pieces (inside dir name) = names ++ [name] ∧
      ∀ t here d, FileTree.Leads t here names d ↔ t.Leads here (pieces dir) d := by
  rw [inside]
  split
  · rename_i hlast
    rcases List.eq_nil_or_concat dir with rfl | ⟨stem, b, rfl⟩
    · -- no directory at all is one empty name
      rw [List.nil_append, Path.pieces_of_no_slash hname.noSlash]
      exact ⟨[], rfl, fun t here d =>
        Iff.symm (a := t.Leads here ([] ++ [[]]) d) leads_append_nil_iff⟩
    -- the names of the directory end in an empty one, and the name comes in its place
    have hb : b = slash := by simpa using hlast
    subst hb
    rw [List.concat_eq_append, List.append_assoc, List.singleton_append,
      Path.pieces_append_slash, Path.pieces_append_slash,
      Path.pieces_of_no_slash hname.noSlash]
    exact ⟨pieces stem, rfl, fun t here d => leads_append_nil_iff.symm⟩
  · rw [Path.pieces_append_slash, Path.pieces_of_no_slash hname.noSlash]
    exact ⟨pieces dir, rfl, fun _ _ _ => Iff.rfl⟩

theorem leads_inside (hname : IsName name)
    (h : t.Leads here (pieces (inside dir name)) place) :
    ∃ d, t.Leads here (pieces dir) d ∧ name.length ≤ maxName ∧ place = d.child name ∧
      t.node? (d.child name) = some .directory := by
  obtain ⟨names, hpieces, hsame⟩ := inside_cases dir hname
  rw [hpieces] at h
  obtain ⟨d, hd, hrest⟩ := h.split
  exact ⟨d, (hsame t here d).1 hd, leads_name hname hrest⟩

theorem follow_inside (hname : IsName name)
    (h : t.Leads here (pieces dir) d) :
    t.follow here (pieces (inside dir name)) = t.follow d [name] := by
  obtain ⟨names, hpieces, hsame⟩ := inside_cases dir hname
  rw [hpieces]
  exact ((hsame t here d).2 h).follow_append [name]

end FileTree

namespace Recorder

variable {t t' : FileTree} {x : Recorder} {d : Place} {id : Text}

def logPlace (d : Place) (id : Text) : Place := (d.child id).child (ascii "session_log.json")

structure Housed (t : FileTree) (x : Recorder) (d : Place) : Prop where
  dir_ne : x.dir ≠ []
  noNul : (0 : UInt8) ∉ x.dir
  name : IsName x.id
  short : x.id.length ≤ maxName
  leads : t.Leads (t.origin x.dir) (pieces x.dir) d
  there : t.node? (d.child x.id) = some .directory

theorem Housed.mono (h : Housed t x d) (hk : t.KeepsDirectories t') : Housed t' x d where
  dir_ne := h.dir_ne
  noNul := h.noNul
  name := h.name
  short := h.short
  leads := by
    rw [hk.origin]
    exact h.leads.mono hk
  there := hk.directory _ h.there

theorem isAbsolute_append {s : Text} (hs : s ≠ []) (u : Text) :
    Path.isAbsolute (s ++ u) = Path.isAbsolute s := by
  obtain ⟨b, s, rfl⟩ := List.exists_cons_of_ne_nil hs
  rfl

theorem logPath_eq (x : Recorder) :
    x.logPath = x.dir ++ slash :: (x.id ++ slash :: ascii "session_log.json") := by
  rw [logPath, path, List.append_assoc]
  rfl

theorem Housed.untilNul_logPath (h : Housed t x d) : Text.untilNul x.logPath = x.logPath := by
  refine Path.untilNul_of_noNul ?_
  rw [logPath_eq]
  simp only [List.mem_append, List.mem_cons, not_or]
  exact ⟨h.noNul, by decide, h.name.noNul, by decide, by decide⟩

theorem Housed.lookup_logPath (h : Housed t x d) (hlen : x.logPath.length ≤ maxPath) :
    t.lookup x.logPath = match t.node? (logPlace d x.id) with
      | some node => .present (logPlace d x.id) node
      | none => .missing (logPlace d x.id) [] := by
  have hne : x.logPath ≠ [] := by simp [logPath_eq]
  have hwhole := h.untilNul_logPath
  have hlog : IsName (ascii "session_log.json") :=
    ⟨by decide, by decide, by decide, by decide, by decide⟩
  rw [FileTree.lookup_eq (by rwa [hwhole]) (by rwa [hwhole]), hwhole, FileTree.origin, logPath_eq,
    isAbsolute_append h.dir_ne, ← FileTree.origin, Path.pieces_append_slash,
    h.leads.follow_append, Path.pieces_append_slash, Path.pieces_of_no_slash h.name.noSlash,
    Path.pieces_of_no_slash hlog.noSlash, List.singleton_append, FileTree.follow_cons,
    FileTree.turn_isName h.name, if_neg (Nat.not_lt.2 h.short)]
  dsimp only
  rw [h.there]
  dsimp only
  rw [FileTree.follow_cons, FileTree.turn_isName hlog, if_neg (by decide)]
  dsimp only
  rw [logPlace]
  split
  · rename_i hn; rw [hn]; rfl
  · rename_i hn; rw [hn]; rfl
  · rename_i hn; rw [hn]

theorem Housed.lookup_long (h : Housed t x d) (hlong : maxPath < x.logPath.length) :
    t.lookup x.logPath = .tooLong := by
  rw [FileTree.lookup, h.untilNul_logPath, if_neg (by simp [logPath_eq]), if_pos hlong]

theorem firstFree_none {files : FileTree} {dir base : Text}
    (h : ∀ n, files.has (inside dir (candidate base n)) = true) (fuel n : Nat) :
    firstFree files dir base fuel n = none := by
  induction fuel generalizing n with
  | zero => rfl
  | succ fuel ih => rw [firstFree, if_pos (h n), ih]

theorem firstFree_free {files : FileTree} {dir base : Text} {fuel n : Nat}
    (h : firstFree files dir base fuel n = some id) :
    ∃ m, id = candidate base m ∧ files.has (inside dir id) = false := by
  induction fuel generalizing n with
  | zero => cases h
  | succ fuel ih =>
    rw [firstFree] at h
    split at h
    · exact ih h
    · rename_i hfree
      cases h
      exact ⟨n, rfl, Bool.eq_false_iff.2 hfree⟩

theorem start_cases (r : Reading) (t : FileTree) (x : Recorder) :
    (∃ f, (x.start r t).fault = some f ∧ (x.start r t).recorder = x ∧
      (x.start r t).files = t) ∨
    ∃ id, IsName id ∧ t.has (inside x.dir id) = false ∧
      (x.start r t).files = (t.makeDirectories (inside x.dir id)).2 ∧
      ((∃ f cause, (t.makeDirectories (inside x.dir id)).1 = some cause ∧
          (x.start r t).fault = some f ∧ (x.start r t).recorder = x) ∨
        ((t.makeDirectories (inside x.dir id)).1 = none ∧ (x.start r t).fault = none ∧
          (x.start r t).recorder = x.opened id r.nanos)) := by
  rw [start]
  cases hid : freshId t x.dir r.wall.compact with
  | none => exact Or.inl ⟨_, rfl, rfl, rfl⟩
  | some id =>
    obtain ⟨n, hn, hfree⟩ := firstFree_free hid
    refine Or.inr ⟨id, hn ▸ isName_candidate r.wall n, hfree, ?_⟩
    dsimp only
    cases hmade : t.makeDirectories (inside x.dir id) with
    | mk refused files =>
      cases refused with
      | some cause => exact ⟨rfl, Or.inl ⟨_, cause, rfl, rfl, rfl⟩⟩
      | none => exact ⟨rfl, Or.inr ⟨rfl, rfl, rfl⟩⟩

theorem start_made {r : Reading} (h : (x.start r t).fault = none) :
    ∃ id, IsName id ∧ (x.start r t).files = (t.makeDirectories (inside x.dir id)).2 ∧
      (t.makeDirectories (inside x.dir id)).1 = none ∧
      (x.start r t).recorder = x.opened id r.nanos := by
  rcases start_cases r t x with ⟨f, hf, -⟩ | ⟨id, hname, -, hfiles, hend⟩
  · rw [h] at hf
    cases hf
  · rcases hend with ⟨f, _, -, hf, -⟩ | ⟨hmade, -, hx⟩
    · rw [h] at hf
      cases hf
    · exact ⟨id, hname, hfiles, hmade, hx⟩

theorem nameByte_start {r : Reading} (h : (x.start r t).fault = none) {b : UInt8}
    (hb : b ∈ (x.start r t).recorder.id) : NameByte b := by
  rw [start] at h hb
  cases hid : freshId t x.dir r.wall.compact with
  | none =>
    rw [hid] at h
    cases h
  | some id =>
    obtain ⟨n, rfl, -⟩ := firstFree_free hid
    rw [hid] at h hb
    dsimp only at h hb
    split at h
    · cases h
    · rename_i hmade
      rw [hmade] at hb
      exact nameByte_candidate hb

theorem start_grows (r : Reading) (t : FileTree) (x : Recorder) :
    t.Grows (x.start r t).files := by
  rcases start_cases r t x with ⟨_, -, -, hfiles⟩ | ⟨id, -, -, hfiles, -⟩
  · rw [hfiles]
    exact .refl t
  · rw [hfiles]
    exact FileTree.makeDirectories_grows t _

theorem untilNul_inside {dir : Text} (hnul : (0 : UInt8) ∉ dir) (hname : IsName id) :
    Text.untilNul (inside dir id) = inside dir id := by
  refine Path.untilNul_of_noNul ?_
  rw [inside]
  split
  · simpa using ⟨hnul, hname.noNul⟩
  · simpa using ⟨hnul, by decide, hname.noNul⟩

theorem origin_inside {dir : Text} (hname : IsName id) (t : FileTree) :
    t.origin (inside dir id) = t.origin dir := by
  rw [FileTree.origin, FileTree.origin, inside]
  split
  · rename_i hlast
    cases dir with
    | nil =>
      have hrelative : Path.isAbsolute id = false := by
        refine eq_false_of_ne_true fun habsolute => hname.noSlash ?_
        exact List.mem_of_mem_head? (of_decide_eq_true habsolute)
      rw [List.nil_append, hrelative]
      rfl
    | cons b dir => rw [isAbsolute_append (List.cons_ne_nil b dir)]
  · rename_i hlast
    rw [isAbsolute_append fun hnil => hlast (Or.inl hnil)]

theorem start_housed {r : Reading} (hdir : x.dir ≠ []) (hnul : (0 : UInt8) ∉ x.dir)
    (h : (x.start r t).fault = none) :
    ∃ d, Housed (x.start r t).files (x.start r t).recorder d := by
  obtain ⟨id, hname, hfiles, hmade, hx⟩ := start_made h
  obtain ⟨-, -, place, hl⟩ := FileTree.makeDirectories_leads hmade
  rw [untilNul_inside hnul hname, origin_inside hname] at hl
  obtain ⟨d, hd, hlen, -, hthere⟩ := FileTree.leads_inside hname hl
  rw [hx, hfiles]
  exact ⟨d, hdir, hnul, hname, hlen, hd, hthere⟩

theorem start_nul {r : Reading} (hnul : (0 : UInt8) ∈ x.dir)
    (h : (x.start r t).fault = none) :
    ∃ place, ∀ s, (x.start r t).files.lookup (x.dir ++ s) = .present place .directory := by
  obtain ⟨id, -, hfiles, hmade, -⟩ := start_made h
  have hcut : Text.untilNul (inside x.dir id) = Text.untilNul x.dir := by
    rw [inside]
    split <;> rw [Path.untilNul_append_of_nul hnul]
  obtain ⟨hne, hlen, place, hl⟩ := FileTree.makeDirectories_leads hmade
  refine ⟨place, fun s => ?_⟩
  have hsame : Text.untilNul (x.dir ++ s) = Text.untilNul (inside x.dir id) := by
    rw [Path.untilNul_append_of_nul hnul, hcut]
  rw [hfiles, FileTree.lookup_congr hsame, FileTree.lookup_eq hne hlen, hl.follow]

theorem makeDirectories_inside (hdir : x.dir ≠ []) (hnul : (0 : UInt8) ∉ x.dir)
    (hname : IsName id) (hl : t.Leads (t.origin x.dir) (pieces x.dir) d)
    (hfree : t.has (inside x.dir id) = false) :
    (∃ cause, t.makeDirectories (inside x.dir id) = (some cause, t)) ∨
    (t.node? (d.child id) = none ∧
      t.makeDirectories (inside x.dir id) = (none, t.put (d.child id) .directory)) := by
  have hwhole := untilNul_inside hnul hname
  have hne : inside x.dir id ≠ [] := by
    rw [inside]
    split <;> simp [hdir]
  by_cases hlen : (inside x.dir id).length ≤ maxPath
  case neg =>
    have hlook : t.lookup (inside x.dir id) = .tooLong := by
      rw [FileTree.lookup, hwhole, if_neg hne, if_pos (Nat.not_le.1 hlen)]
    exact Or.inl ⟨_, by rw [FileTree.makeDirectories, hlook]⟩
  have hlook : t.lookup (inside x.dir id) = t.follow d [id] := by
    rw [FileTree.lookup_eq (by rwa [hwhole]) (by rwa [hwhole]), hwhole, origin_inside hname,
      FileTree.follow_inside hname hl]
  rw [FileTree.follow_cons, FileTree.turn_isName hname] at hlook
  split at hlook
  · rename_i hturn
    split at hturn <;> cases hturn
  · exact Or.inl ⟨_, by rw [FileTree.makeDirectories, hlook]⟩
  · rename_i p hturn
    split at hturn
    · cases hturn
    cases hturn
    split at hlook
    · rw [FileTree.has, hlook] at hfree
      cases hfree
    · rw [FileTree.has, hlook] at hfree
      cases hfree
    · rename_i hn
      exact Or.inr ⟨hn, by rw [FileTree.makeDirectories, hlook]; rfl⟩

theorem start_in_place {r : Reading} (hdir : x.dir ≠ []) (hnul : (0 : UInt8) ∉ x.dir)
    (hl : t.Leads (t.origin x.dir) (pieces x.dir) d) :
    (∃ f, (x.start r t).fault = some f ∧ (x.start r t).recorder = x ∧
      (x.start r t).files = t) ∨
    ∃ id, (x.start r t).fault = none ∧ (x.start r t).recorder = x.opened id r.nanos ∧
      t.node? (d.child id) = none ∧ (x.start r t).files = t.put (d.child id) .directory ∧
      Housed (x.start r t).files (x.start r t).recorder d := by
  rcases start_cases r t x with hfail | ⟨id, hname, hfree, hfiles, hend⟩
  · exact Or.inl hfail
  have hmake := makeDirectories_inside hdir hnul hname hl hfree
  rcases hend with ⟨f, cause, hmade, hf, hx⟩ | ⟨hmade, hf, hx⟩
  · rcases hmake with ⟨_, hmake⟩ | ⟨-, hmake⟩
    · exact Or.inl ⟨f, hf, hx, by rw [hfiles, hmake]⟩
    · rw [hmake] at hmade
      cases hmade
  · rcases hmake with ⟨cause, hmake⟩ | ⟨hn, hmake⟩
    · rw [hmake] at hmade
      cases hmade
    · rw [hmake] at hfiles
      have hgrows := FileTree.grows_put (Place.child_ne_root d id) hn
      obtain ⟨e, he⟩ := start_housed hdir hnul hf
      -- a path leads to one place only, so the directory it is housed in is this one
      have hleads := hl.mono hgrows.keeps
      have hsame := he.leads
      rw [hx, hfiles] at hsame
      cases hleads.unique hsame
      exact Or.inr ⟨id, hf, hx, hn, hfiles, he⟩

structure Loggable (t : FileTree) (x : Recorder) : Prop where
  noNul : (0 : UInt8) ∉ x.dir
  short : x.logPath.length ≤ maxPath
  noDirectory : t.isDirectory x.logPath = false

theorem Loggable.free (hl : Loggable t x) (h : Housed t x d) :
    t.node? (logPlace d x.id) ≠ some .directory := by
  intro hn
  have hnone := hl.noDirectory
  rw [FileTree.isDirectory, h.lookup_logPath hl.short, hn] at hnone
  cases hnone

theorem Housed.writable?_logPath (h : Housed t x d) (hlen : x.logPath.length ≤ maxPath)
    (hfree : t.node? (logPlace d x.id) ≠ some .directory) :
    t.writable? x.logPath = some (logPlace d x.id) := by
  rw [FileTree.writable?, h.lookup_logPath hlen]
  cases hn : t.node? (logPlace d x.id) with
  | none => rfl
  | some node =>
    cases node with
    | directory => exact absurd hn hfree
    | file content => rfl

/-- A session that was just opened. With a NUL in the recorder's directory the system sees
no more than what stands before it, and that is a directory now. -/
structure Opened (t : FileTree) (x : Recorder) : Prop where
  dir_ne : x.dir ≠ []
  active : x.active = true
  holds : x.Holds []
  housed : (0 : UInt8) ∉ x.dir → ∃ d, Housed t x d
  nul : (0 : UInt8) ∈ x.dir → ∃ place, ∀ s, t.lookup (x.dir ++ s) = .present place .directory

theorem start_opened {r : Reading} (hdir : x.dir ≠ []) (h : (x.start r t).fault = none) :
    Opened (x.start r t).files (x.start r t).recorder := by
  obtain ⟨id, -, -, -, hx⟩ := start_made h
  refine ⟨?_, ?_, ?_, fun hnul => ?_, fun hnul => ?_⟩
  · rw [hx]
    exact hdir
  · rw [hx]
    rfl
  · rw [hx]
    exact holds_opened x id r.nanos
  · rw [hx] at hnul
    exact start_housed hdir hnul h
  · rw [hx] at hnul ⊢
    exact start_nul hnul h

theorem Opened.writable?_none (h : Opened t x) (hlog : ¬ Loggable t x)
    (hk : t.KeepsDirectories t') : t'.writable? x.logPath = none := by
  by_cases hnul : (0 : UInt8) ∈ x.dir
  · obtain ⟨place, hl⟩ := h.nul hnul
    rw [FileTree.writable?, logPath_eq, FileTree.lookup_directory_mono hk (hl _)]
  · obtain ⟨d, hd⟩ := h.housed hnul
    by_cases hlen : x.logPath.length ≤ maxPath
    · have hthere : t.isDirectory x.logPath = true := by
        by_contra hno
        exact hlog ⟨hnul, hlen, Bool.eq_false_iff.2 hno⟩
      rw [FileTree.isDirectory] at hthere
      split at hthere
      · rename_i place hl
        rw [FileTree.writable?, FileTree.lookup_directory_mono hk hl]
      · cases hthere
    · rw [FileTree.writable?, (hd.mono hk).lookup_long (Nat.not_le.1 hlen)]

end Recorder
end BargeIn
