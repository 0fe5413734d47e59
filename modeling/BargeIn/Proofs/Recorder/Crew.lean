import BargeIn.Proofs.Recorder.Account
import BargeIn.Proofs.Recorder.FreeName
import BargeIn.Proofs.Recorder.Whereabouts

/-! Recorders that share a directory. Each acts when it likes, and a session gets a name
that nothing in the directory has, so every session has a directory of its own and its
log is written by nobody else. Nothing that is there is ever changed, unless the way to
the directory has yet to be made and goes up again: then the name of an old session may
look free. -/

namespace BargeIn

open Text (ascii)
open FileTree (maxPath)
open BargeIn.Path (pieces inside)

namespace FileTree

variable {t t' t'' : FileTree} {place : Place} {node : Node}

structure Preserves (t t' : FileTree) : Prop where
  start : t'.start = t.start
  node : ∀ p node, t.node? p = some node → t'.node? p = some node

theorem Grows.preserves (h : t.Grows t') : t.Preserves t' where
  start := h.start
  node p node hp := by
    rcases h.node p with hsame | ⟨hnone, -⟩
    · rw [hsame, hp]
    · rw [hp] at hnone
      cases hnone

theorem preserves_put (hn : t.node? place = none) (node : Node) :
    t.Preserves (t.put place node) where
  start := rfl
  node p other hp := by
    have hne : p ≠ place := by
      rintro rfl
      rw [hn] at hp
      cases hp
    rw [node?_put_of_ne hne, hp]

end FileTree

namespace Recorder

variable {t : FileTree} {x y : Recorder} {d : Place} {dir : Text} {r : Reading}

theorem keeps_step [JsonLibrary] (t : FileTree) (x : Recorder) (act : Act) :
    t.KeepsDirectories (x.step t act).files := by
  cases act with
  | start r => exact (start_grows r t x).keeps
  | finish disk =>
    rw [step, finish]
    split
    · dsimp only
      split
      · exact (FileTree.Grows.refl t).keeps
      · rename_i files hw
        obtain ⟨place, hplace, rfl⟩ := Option.map_eq_some_iff.1 hw
        exact FileTree.keeps_put_file (FileTree.writable?_not_directory hplace) _
    · exact (FileTree.Grows.refl t).keeps
  | report now what => exact (FileTree.Grows.refl t).keeps
  | describe key value => exact (FileTree.Grows.refl t).keeps

theorem housed_step [JsonLibrary] (hdir : x.dir ≠ []) (hnul : (0 : UInt8) ∉ x.dir)
    (hx : x.active = true → ∃ d, Housed t x d) (act : Act)
    (hactive : (x.step t act).recorder.active = true) :
    ∃ d, Housed (x.step t act).files (x.step t act).recorder d := by
  cases act with
  | start r =>
    rw [step] at hactive ⊢
    cases hf : (x.start r t).fault with
    | some f =>
      rw [start_refused hf] at hactive ⊢
      obtain ⟨d, hd⟩ := hx hactive
      exact ⟨d, hd.mono (start_grows r t x).keeps⟩
    | none => exact start_housed hdir hnul hf
  | finish disk =>
    rw [step, finish_recorder] at hactive
    cases hactive
  | report now what =>
    have hsame := sameSession_record now what x
    obtain ⟨d, hd⟩ := hx (hsame.active.symm.trans hactive)
    exact ⟨d, hsame.housed hd⟩
  | describe key value =>
    have hsame := sameSession_setMetadata key value x
    obtain ⟨d, hd⟩ := hx (hsame.active.symm.trans hactive)
    exact ⟨d, hsame.housed hd⟩

theorem start_refused_in_place (hdir : x.dir ≠ []) (hnul : (0 : UInt8) ∉ x.dir)
    (hl : t.Leads (t.origin x.dir) (pieces x.dir) d) (hf : (x.start r t).fault ≠ none) :
    (x.start r t).files = t := by
  rcases start_in_place (r := r) hdir hnul hl with ⟨_, -, -, hfiles⟩ | ⟨_, hnone, -⟩
  · exact hfiles
  · exact absurd hnone hf

theorem start_fresh (hrooted : t.Rooted) (hdir : x.dir ≠ []) (hnul : (0 : UInt8) ∉ x.dir)
    (hway : ascii ".." ∉ pieces x.dir ∨ ∃ d, t.Leads (t.origin x.dir) (pieces x.dir) d)
    (hopen : (x.start r t).fault = none)
    (hd : Housed (x.start r t).files (x.start r t).recorder d) :
    t.node? (d.child (x.start r t).recorder.id) = none ∧
      (x.start r t).files.node? (logPlace d (x.start r t).recorder.id) = none := by
  rcases hway with hup | ⟨e, hl⟩
  · exact start_new hrooted hnul hup hopen hd
  rcases start_in_place (r := r) hdir hnul hl with
    ⟨_, hf, -⟩ | ⟨id, -, hx, hnone, hfiles, he⟩
  · rw [hopen] at hf
    cases hf
  have hid : (x.start r t).recorder.id = id := congrArg Recorder.id hx
  obtain rfl := he.leads.unique hd.leads
  rw [hid, hfiles, FileTree.node?_put_of_ne (logPlace_ne_child e id id)]
  exact ⟨hnone, hrooted.child_none (by rw [hnone]; simp) _⟩

theorem Past.mono {t' : FileTree} (h : Past x d t y) (hk : t.KeepsDirectories t') :
    Past x d t' y where
  housed := h.housed.mono hk
  dir := h.dir
  apart hactive := ⟨(h.apart hactive).1, (h.apart hactive).2.mono hk⟩

structure Crew where
  files : FileTree
  members : Nat → Recorder

namespace Crew

variable {c : Crew} {i j : Nat}

def ofDir (t : FileTree) (dir : Text) (limits : Nat → Nat) : Crew :=
  ⟨t, fun i => .ofDir dir (limits i)⟩

structure Apart (dir : Text) (c : Crew) : Prop where
  dir : ∀ j, (c.members j).dir = dir
  housed : ∀ j, (c.members j).active = true → ∃ d, Housed c.files (c.members j) d
  names : ∀ i j, i ≠ j → (c.members i).active = true → (c.members j).active = true →
    (c.members i).id ≠ (c.members j).id

theorem apart_ofDir (t : FileTree) (dir : Text) (limits : Nat → Nat) :
    (ofDir t dir limits).Apart dir where
  dir _ := rfl
  housed _ hactive := by cases hactive
  names _ _ _ hactive := by cases hactive

theorem Apart.past (h : c.Apart dir) (hij : i ≠ j) (hj : (c.members j).active = true)
    (hd : Housed c.files (c.members j) d) : Past (c.members j) d c.files (c.members i) where
  housed := hd
  dir := (h.dir i).trans (h.dir j).symm
  apart hi := by
    obtain ⟨e, he⟩ := h.housed i hi
    have hleads := he.leads
    rw [h.dir i, ← h.dir j] at hleads
    obtain rfl := hleads.unique hd.leads
    exact ⟨h.names i j hij hi hj, he⟩

/-- The directory can be found or the way to it never goes up, and no open session has a log. -/
structure Pristine (dir : Text) (c : Crew) : Prop where
  rooted : c.files.Rooted
  way : ascii ".." ∉ pieces dir ∨ ∃ d, c.files.Leads (c.files.origin dir) (pieces dir) d
  unlogged : ∀ j d, (c.members j).active = true → Housed c.files (c.members j) d →
    c.files.node? (logPlace d (c.members j).id) = none

theorem pristine_ofDir (hnul : (0 : UInt8) ∉ dir) (hrooted : t.Rooted)
    (hway : ascii ".." ∉ pieces dir ∨ t.isDirectory dir = true) (limits : Nat → Nat) :
    (ofDir t dir limits).Pristine dir where
  rooted := hrooted
  way := by
    refine hway.imp_right fun hthere => ?_
    rw [FileTree.isDirectory] at hthere
    split at hthere
    · rename_i d hl
      obtain ⟨hne, hlen⟩ := FileTree.lookup_valid (by rw [hl]; simp) (by rw [hl]; simp)
      rw [FileTree.lookup_eq hne hlen, Path.untilNul_of_noNul hnul] at hl
      exact ⟨d, FileTree.leads_of_follow hl⟩
    · cases hthere
  unlogged _ _ hactive := by cases hactive

end Crew

structure Deed where
  files : FileTree
  recorder : Recorder
  act : Act

section

variable [JsonLibrary]

namespace Deed

def outcome (e : Deed) : Outcome := e.recorder.step e.files e.act

/-- The deed opens a session whose directory is at this place. -/
structure Opens (e : Deed) (p : Place) : Prop where
  act : ∃ r, e.act = .start r
  done : e.outcome.fault = none
  place : e.outcome.files.lookup (inside e.recorder.dir e.outcome.recorder.id) =
    .present p .directory

/-- The deed writes the log of a session to this place, as much of it as the disk keeps. -/
structure Logs (e : Deed) (p : Place) : Prop where
  active : e.recorder.active = true
  place : ∃ disk, e.act = .finish disk ∧ e.outcome.files.lookup e.recorder.logPath =
    .present p (.file (.ofText (keptLog disk e.recorder)))

variable {e : Deed} {p : Place}

theorem exists_opens (hdir : e.recorder.dir ≠ []) (hnul : (0 : UInt8) ∉ e.recorder.dir)
    (hact : e.act = .start r) (hdone : e.outcome.fault = none) : ∃ p, e.Opens p := by
  obtain ⟨files, x, act⟩ := e
  dsimp only at hact hdir hnul
  subst hact
  obtain ⟨d, hd⟩ := start_housed hdir hnul hdone
  have hlook := hd.lookup_inside ((start_dir r files x).1.symm ▸ start_length hnul hdone)
  rw [(start_dir r files x).1] at hlook
  exact ⟨_, ⟨r, rfl⟩, hdone, hlook⟩

theorem Opens.housed (h : e.Opens p) (hdir : e.recorder.dir ≠ [])
    (hnul : (0 : UInt8) ∉ e.recorder.dir) :
    ∃ d, Housed e.outcome.files e.outcome.recorder d ∧ p = d.child e.outcome.recorder.id := by
  obtain ⟨files, x, act⟩ := e
  obtain ⟨⟨r, hact⟩, hdone, hplace⟩ := h
  dsimp only at hact hdir hnul
  subst hact
  obtain ⟨d, hd⟩ := start_housed hdir hnul hdone
  have hlook := hd.lookup_inside ((start_dir r files x).1.symm ▸ start_length hnul hdone)
  rw [(start_dir r files x).1] at hlook
  have hsame := hlook.symm.trans hplace
  cases hsame
  exact ⟨d, hd, rfl⟩

theorem logs_of_writable {disk : Disk} (hact : e.act = .finish disk)
    (hactive : e.recorder.active = true)
    (hw : e.files.writable? e.recorder.logPath = some p) : e.Logs p := by
  obtain ⟨files, x, act⟩ := e
  dsimp only at hact hactive hw
  subst hact
  refine ⟨hactive, disk, rfl, ?_⟩
  rw [outcome, step, finish_active disk files hactive, hw]
  exact FileTree.lookup_put_writable hw _

theorem Logs.files (h : e.Logs p) : e.files.writable? e.recorder.logPath = some p ∧
    ∃ disk, e.act = .finish disk ∧
      e.outcome.files = e.files.put p (.file (.ofText (keptLog disk e.recorder))) := by
  obtain ⟨files, x, act⟩ := e
  obtain ⟨hactive, disk, hact, hplace⟩ := h
  dsimp only at hact hactive
  subst hact
  have hfinish := finish_active disk files hactive
  rw [outcome, step, hfinish] at hplace ⊢
  cases hw : files.writable? x.logPath with
  | none =>
    -- a file that is there could have been written
    rw [hw] at hplace
    dsimp only at hplace
    rw [FileTree.writable?, hplace] at hw
    cases hw
  | some place =>
    rw [hw] at hplace
    have hsame := (FileTree.lookup_put_writable hw _).symm.trans hplace
    cases hsame
    exact ⟨rfl, disk, rfl, rfl⟩

theorem exists_logs {disk : Disk} (hact : e.act = .finish disk)
    (hactive : e.recorder.active = true) (hdone : e.outcome.fault = none) :
    ∃ p, e.Logs p ∧ (TakesLog disk e.recorder →
      e.outcome.files.node? p = some (.file (.ofText (e.recorder.logText ++ [10])))) := by
  have hfault : (e.recorder.finish disk e.files).fault = none := by
    rw [outcome, hact] at hdone
    exact hdone
  obtain ⟨p, hp⟩ := Option.ne_none_iff_exists'.1 ((finish_fault_none hactive).1 hfault).1
  have hlogs := logs_of_writable hact hactive hp
  obtain ⟨-, disk', hact', hfiles⟩ := hlogs.files
  obtain rfl : disk = disk' := by
    rw [hact] at hact'
    exact Act.finish.inj hact'
  refine ⟨p, hlogs, fun htakes => ?_⟩
  rw [hfiles, keptLog_of_takes htakes, FileTree.node?_put_self (FileTree.writable?_ne_root hp)]

theorem Logs.place_eq (h : e.Logs p) (hd : Housed e.files e.recorder d) :
    p = logPlace d e.recorder.id :=
  (hd.writable?_place h.files.1).1

end Deed

namespace Crew

def deed (c : Crew) (i : Nat) (act : Act) : Deed := ⟨c.files, c.members i, act⟩

def step (c : Crew) (i : Nat) (act : Act) : Crew where
  files := (c.deed i act).outcome.files
  members j := if j = i then (c.deed i act).outcome.recorder else c.members j

def run (c : Crew) : List (Nat × Act) → Crew
  | [] => c
  | (i, act) :: steps => run (c.step i act) steps

def deeds (c : Crew) : List (Nat × Act) → List Deed
  | [] => []
  | (i, act) :: steps => c.deed i act :: deeds (c.step i act) steps

variable {c : Crew} {i j : Nat} {steps : List (Nat × Act)} {e : Deed}

theorem member_step_self (c : Crew) (i : Nat) (act : Act) :
    (c.step i act).members i = (c.deed i act).outcome.recorder := if_pos rfl

theorem member_step_of_ne (act : Act) (h : j ≠ i) :
    (c.step i act).members j = c.members j := if_neg h

theorem mem_deeds (h : e ∈ c.deeds steps) :
    ∃ before i act, e = (c.run before).deed i act := by
  induction steps generalizing c with
  | nil => cases h
  | cons s steps ih =>
    obtain ⟨i, act⟩ := s
    rw [deeds, List.mem_cons] at h
    rcases h with rfl | h
    · exact ⟨[], i, act, rfl⟩
    · obtain ⟨before, j, act', he⟩ := ih h
      exact ⟨(i, act) :: before, j, act', he⟩

theorem Apart.step (hdir : dir ≠ []) (hnul : (0 : UInt8) ∉ dir) (h : c.Apart dir) (i : Nat)
    (act : Act) : (c.step i act).Apart dir := by
  have hother {j : Nat} (hj : j ≠ i) (hactive : (c.members j).active = true) :
      ((c.step i act).members i).active = true →
        ((c.step i act).members i).id ≠ (c.members j).id := by
    obtain ⟨d, hd⟩ := h.housed j hactive
    rw [member_step_self]
    exact fun hi => (((h.past hj.symm hactive hd).step act).1.apart hi).1
  refine ⟨fun j => ?_, fun j hactive => ?_, fun j k hjk hj hk => ?_⟩
  · by_cases hj : j = i
    · rw [hj, member_step_self]
      exact (step_dir c.files (c.members i) act).1.trans (h.dir i)
    · rw [member_step_of_ne act hj, h.dir j]
  · by_cases hj : j = i
    · rw [hj, member_step_self] at hactive ⊢
      exact housed_step (h.dir i ▸ hdir) (h.dir i ▸ hnul) (h.housed i) act hactive
    · rw [member_step_of_ne act hj] at hactive ⊢
      obtain ⟨d, hd⟩ := h.housed j hactive
      exact ⟨d, hd.mono (keeps_step c.files (c.members i) act)⟩
  · by_cases hji : j = i
    · have hki : k ≠ i := fun hki => hjk (hji.trans hki.symm)
      subst hji
      rw [member_step_of_ne act hki] at hk ⊢
      exact hother hki hk hj
    · rw [member_step_of_ne act hji] at hj ⊢
      by_cases hki : k = i
      · subst hki
        exact (hother hji hj hk).symm
      · rw [member_step_of_ne act hki] at hk ⊢
        exact h.names j k hjk hj hk

theorem Apart.run (hdir : dir ≠ []) (hnul : (0 : UInt8) ∉ dir) (h : c.Apart dir)
    (steps : List (Nat × Act)) : (c.run steps).Apart dir := by
  induction steps generalizing c with
  | nil => exact h
  | cons s steps ih => exact ih (h.step hdir hnul s.1 s.2)

theorem Apart.not_opens (hdir : dir ≠ []) (hnul : (0 : UInt8) ∉ dir) (h : c.Apart dir)
    (hx : Housed c.files x d) (hsame : x.dir = dir) (he : e ∈ c.deeds steps) :
    ¬ e.Opens (d.child x.id) := by
  induction steps generalizing c with
  | nil => cases he
  | cons s steps ih =>
    obtain ⟨i, act⟩ := s
    rw [deeds, List.mem_cons] at he
    rcases he with rfl | he
    · intro hopens
      have hmember : (c.members i).dir = dir := h.dir i
      obtain ⟨e, hhoused, hplace⟩ := hopens.housed (hmember ▸ hdir) (hmember ▸ hnul)
      obtain ⟨⟨r, rfl⟩, hdone, -⟩ := hopens
      have hleads := hx.leads
      rw [hsame, ← hmember] at hleads
      rcases start_in_place (r := r) (hmember ▸ hdir) (hmember ▸ hnul) hleads with
        ⟨_, hf, -⟩ | ⟨id, -, hrec, hfree, -⟩
      · rw [Deed.outcome] at hdone
        exact absurd (hf.symm.trans hdone) (by simp)
      · -- the name was free, and the directory that was opened is still there
        have hid : ((c.deed i (.start r)).outcome.recorder).id = id := congrArg Recorder.id hrec
        rw [hid] at hplace
        rw [← (Place.child_inj.1 hplace).2] at hfree
        rw [hx.there] at hfree
        cases hfree
    · exact ih (h.step hdir hnul i act) (hx.mono (keeps_step c.files (c.members i) act)) he

def Over (x : Recorder) (d : Place) (c : Crew) : Prop := ∀ j, Past x d c.files (c.members j)

theorem Over.step (h : c.Over x d) (i : Nat) (act : Act) :
    (c.step i act).Over x d ∧
      (c.step i act).files.node? (logPlace d x.id) = c.files.node? (logPlace d x.id) := by
  obtain ⟨hown, hnode⟩ := (h i).step act
  refine ⟨fun j => ?_, hnode⟩
  by_cases hj : j = i
  · rw [hj, member_step_self]
    exact hown
  · rw [member_step_of_ne act hj]
    exact (h j).mono (keeps_step c.files (c.members i) act)

theorem Over.deeds (h : c.Over x d) (he : e ∈ c.deeds steps) :
    ¬ e.Logs (logPlace d x.id) ∧
      e.outcome.files.node? (logPlace d x.id) = c.files.node? (logPlace d x.id) := by
  induction steps generalizing c with
  | nil => cases he
  | cons s steps ih =>
    obtain ⟨i, act⟩ := s
    rw [Crew.deeds, List.mem_cons] at he
    rcases he with rfl | he
    · refine ⟨fun hlogs => ?_, (h.step i act).2⟩
      obtain ⟨hne, hhoused⟩ := (h i).apart hlogs.active
      exact hne (logPlace_inj (hlogs.place_eq hhoused)).symm
    · obtain ⟨hnot, hnode⟩ := ih (h.step i act).1 he
      exact ⟨hnot, hnode.trans (h.step i act).2⟩

theorem Apart.over (h : c.Apart dir) {act : Act} {p : Place} (hlogs : (c.deed i act).Logs p) :
    ∃ d, p = logPlace d (c.members i).id ∧ (c.step i act).Over (c.members i) d := by
  obtain ⟨d, hd⟩ := h.housed i hlogs.active
  refine ⟨d, hlogs.place_eq hd, fun j => ?_⟩
  obtain ⟨disk, rfl, -⟩ := hlogs.place
  have hkeeps := keeps_step c.files (c.members i) (.finish disk)
  by_cases hj : j = i
  · rw [hj, member_step_self]
    have hrec : (c.deed i (.finish disk)).outcome.recorder =
        { c.members i with active := false } := finish_recorder disk c.files (c.members i)
    rw [hrec]
    exact ⟨hd.mono hkeeps, rfl, fun hactive => by cases hactive⟩
  · rw [member_step_of_ne _ hj]
    exact (h.past hj hlogs.active hd).mono hkeeps

theorem Apart.pairwise (hdir : dir ≠ []) (hnul : (0 : UInt8) ∉ dir) (h : c.Apart dir)
    (steps : List (Nat × Act)) :
    (c.deeds steps).Pairwise fun e e' => ∀ p, (e.Opens p → ¬ e'.Opens p) ∧
      (e.Logs p → ¬ e'.Logs p ∧ e'.outcome.files.node? p = e.outcome.files.node? p) := by
  induction steps generalizing c with
  | nil => exact List.Pairwise.nil
  | cons s steps ih =>
    obtain ⟨i, act⟩ := s
    have hnext := h.step hdir hnul i act
    refine List.Pairwise.cons (fun e he p => ⟨fun hopens => ?_, fun hlogs => ?_⟩) (ih hnext)
    · have hmember : (c.members i).dir = dir := h.dir i
      obtain ⟨d, hd, rfl⟩ := hopens.housed (hmember ▸ hdir) (hmember ▸ hnul)
      exact hnext.not_opens hdir hnul hd ((step_dir c.files (c.members i) act).1.trans hmember) he
    · obtain ⟨d, rfl, hover⟩ := h.over hlogs
      exact hover.deeds he

theorem unlogged_step (hdir : dir ≠ []) (hnul : (0 : UInt8) ∉ dir) (ha : c.Apart dir)
    (h : c.Pristine dir) (act : Act) (hactive : ((c.step i act).members i).active = true)
    (hd : Housed (c.step i act).files ((c.step i act).members i) d) :
    (c.step i act).files.node? (logPlace d ((c.step i act).members i).id) = none := by
  have hmember := ha.dir i
  rw [member_step_self] at hactive hd ⊢
  -- an act that only records something leaves the session as it was
  have hkept (hfiles : (c.step i act).files = c.files)
      (hsame : (c.members i).SameSession (c.deed i act).outcome.recorder) :
      (c.step i act).files.node? (logPlace d (c.deed i act).outcome.recorder.id) = none := by
    have hbefore : (c.members i).active = true := hsame.active.symm.trans hactive
    obtain ⟨e, he⟩ := ha.housed i hbefore
    have hleads := (hsame.housed he).leads
    rw [hfiles] at hd ⊢
    obtain rfl := hleads.unique hd.leads
    rw [hsame.id]
    exact h.unlogged i e hbefore he
  cases act with
  | start r =>
    cases hf : ((c.members i).start r c.files).fault with
    | some f =>
      have hrec : (c.deed i (.start r)).outcome.recorder = c.members i := start_refused hf
      rw [hrec] at hactive
      obtain ⟨e, he⟩ := ha.housed i hactive
      have hrefused : ((c.members i).start r c.files).fault ≠ none := by
        rw [hf]
        simp
      have hfiles : (c.step i (.start r)).files = c.files :=
        start_refused_in_place he.dir_ne he.noNul he.leads hrefused
      exact hkept hfiles (hrec.symm ▸ .refl _)
    | none =>
      have hway := h.way
      rw [← hmember] at hway
      exact (start_fresh h.rooted (hmember ▸ hdir) (hmember ▸ hnul) hway hf hd).2
  | finish disk =>
    have hrec := finish_recorder disk c.files (c.members i)
    rw [Deed.outcome, deed, Recorder.step, hrec] at hactive
    cases hactive
  | report now what => exact hkept rfl (sameSession_record now what _)
  | describe key value => exact hkept rfl (sameSession_setMetadata key value _)

theorem Pristine.step (hdir : dir ≠ []) (hnul : (0 : UInt8) ∉ dir) (ha : c.Apart dir)
    (h : c.Pristine dir) (i : Nat) (act : Act) : (c.step i act).Pristine dir := by
  have hkeeps := keeps_step c.files (c.members i) act
  refine ⟨rooted_step h.rooted (c.members i) act, ?_, fun j d hactive hd => ?_⟩
  · rcases h.way with hup | ⟨d, hl⟩
    · exact Or.inl hup
    · exact Or.inr ⟨d, hkeeps.origin dir ▸ hl.mono hkeeps⟩
  · by_cases hj : j = i
    · subst hj
      exact unlogged_step hdir hnul ha h act hactive hd
    · rw [member_step_of_ne act hj] at hactive hd ⊢
      obtain ⟨e, he⟩ := ha.housed j hactive
      obtain rfl := (he.mono hkeeps).leads.unique hd.leads
      have hother := ((ha.past (Ne.symm hj) hactive he).step act).2
      exact hother.trans (h.unlogged j e hactive he)

theorem Pristine.run (hdir : dir ≠ []) (hnul : (0 : UInt8) ∉ dir) (ha : c.Apart dir)
    (h : c.Pristine dir) (steps : List (Nat × Act)) : (c.run steps).Pristine dir := by
  induction steps generalizing c with
  | nil => exact h
  | cons s steps ih => exact ih (ha.step hdir hnul s.1 s.2) (h.step hdir hnul ha s.1 s.2)

theorem Pristine.preserves (ha : c.Apart dir) (h : c.Pristine dir) (i : Nat) (act : Act) :
    c.files.Preserves (c.deed i act).outcome.files := by
  have hsame : c.files.Preserves c.files := (FileTree.Grows.refl _).preserves
  cases act with
  | start r => exact (start_grows r c.files (c.members i)).preserves
  | finish disk =>
    rw [Deed.outcome, deed, Recorder.step]
    cases hactive : (c.members i).active with
    | false =>
      rw [finish_inactive hactive]
      exact hsame
    | true =>
      rw [finish_active disk c.files hactive]
      cases hw : c.files.writable? (c.members i).logPath with
      | none => exact hsame
      | some place =>
        obtain ⟨d, hd⟩ := ha.housed i hactive
        obtain ⟨rfl, -⟩ := hd.writable?_place hw
        exact FileTree.preserves_put (h.unlogged i d hactive hd) _
  | report now what => exact hsame
  | describe key value => exact hsame

theorem Pristine.fresh (hdir : dir ≠ []) (hnul : (0 : UInt8) ∉ dir) (ha : c.Apart dir)
    (h : c.Pristine dir) {act : Act} {p : Place}
    (hp : (c.deed i act).Opens p ∨ (c.deed i act).Logs p) : c.files.node? p = none := by
  have hmember := ha.dir i
  rcases hp with hopens | hlogs
  · obtain ⟨d, hd, rfl⟩ := hopens.housed (hmember ▸ hdir) (hmember ▸ hnul)
    obtain ⟨⟨r, rfl⟩, hdone, -⟩ := hopens
    have hway := h.way
    rw [← hmember] at hway
    exact (start_fresh h.rooted (hmember ▸ hdir) (hmember ▸ hnul) hway hdone hd).1
  · obtain ⟨d, hd⟩ := ha.housed i hlogs.active
    rw [hlogs.place_eq hd]
    exact h.unlogged i d hlogs.active hd

theorem Pristine.finish_iff (ha : c.Apart dir) (h : c.Pristine dir)
    (hactive : (c.members i).active = true) (disk : Disk) :
    (c.deed i (.finish disk)).outcome.fault = none ↔
      (c.members i).logPath.length ≤ maxPath ∧
        disk.notices (c.members i).logText = false := by
  obtain ⟨d, hd⟩ := ha.housed i hactive
  rw [Deed.outcome, deed, Recorder.step, finish_active disk c.files hactive]
  by_cases hlen : (c.members i).logPath.length ≤ maxPath
  · rw [hd.writable?_logPath hlen (by rw [h.unlogged i d hactive hd]; simp)]
    cases disk.notices (c.members i).logText <;> simp [hlen]
  · rw [FileTree.writable?, hd.lookup_long (Nat.not_le.1 hlen)]
    simp [hlen]

end Crew

end

namespace Crew

/-- However many recorders share a directory and however their acts are mixed, the search for
a name ends at the first one that is free. No two sessions have one directory, and
a log that was written is never written again. Opening a session makes directories where
nothing was and changes nothing else; when it is refused the recorder stays as it was, and
so do the files while it has a session, which goes on as if nothing had been asked. If
the directory is there, or the way to it never goes up, every session gets a directory that
was not there before, its log comes where nothing was and can be written unless its path is
too long or the disk is noticed to be full, and nothing that was ever there is changed. -/
theorem sessions_stay_apart [JsonLibrary] {dir : Text} (hdir : dir ≠ []) (hnul : (0 : UInt8) ∉ dir)
    (t : FileTree) (limits : Nat → Nat) (steps : List (Nat × Act)) :
    let deeds := (ofDir t dir limits).deeds steps
    (deeds.Pairwise fun e e' => ∀ p, (e.Opens p → ¬ e'.Opens p) ∧
      (e.Logs p → ¬ e'.Logs p ∧ e'.outcome.files.node? p = e.outcome.files.node? p)) ∧
    ∀ e ∈ deeds,
      (∀ r, e.act = .start r →
        (∃ n, freshId e.files dir r.wall.compact = some (candidate r.wall.compact n) ∧
          e.files.has (inside dir (candidate r.wall.compact n)) = false ∧
          ∀ m < n, e.files.has (inside dir (candidate r.wall.compact m)) = true) ∧
        e.files.Grows e.outcome.files ∧
        (e.outcome.fault = none → ∃ p, e.Opens p) ∧
        (e.outcome.fault ≠ none → e.outcome.recorder = e.recorder ∧
          (e.recorder.active = true → e.outcome.files = e.files))) ∧
      (∀ disk, e.act = .finish disk → e.recorder.active = true → e.outcome.fault = none →
        ∃ p, e.Logs p ∧ (TakesLog disk e.recorder →
          e.outcome.files.node? p = some (.file (.ofText (e.recorder.logText ++ [10]))))) ∧
      (t.Rooted → (ascii ".." ∉ pieces dir ∨ t.isDirectory dir = true) →
        e.files.Preserves e.outcome.files ∧
        (∀ p, e.Opens p ∨ e.Logs p → e.files.node? p = none) ∧
        (∀ disk, e.act = .finish disk → e.recorder.active = true →
          (e.outcome.fault = none ↔ e.recorder.logPath.length ≤ maxPath ∧
            disk.notices e.recorder.logText = false))) := by
  intro deeds
  have hstart := apart_ofDir t dir limits
  refine ⟨hstart.pairwise hdir hnul steps, fun e he => ?_⟩
  obtain ⟨before, i, act, rfl⟩ := mem_deeds he
  have ha := hstart.run hdir hnul before
  obtain ⟨hdir', hnul'⟩ : (((ofDir t dir limits).run before).members i).dir ≠ [] ∧
      (0 : UInt8) ∉ (((ofDir t dir limits).run before).members i).dir := by
    rw [ha.dir i]
    exact ⟨hdir, hnul⟩
  refine ⟨?_, fun disk => Deed.exists_logs, fun hrooted hway => ?_⟩
  · rintro r rfl
    refine ⟨freshId_first hnul _ r.wall, start_grows r _ _,
      Deed.exists_opens hdir' hnul' rfl, fun hf => ?_⟩
    obtain ⟨f, hrefused⟩ := Option.ne_none_iff_exists'.1 hf
    refine ⟨start_refused hrefused, fun hactive => ?_⟩
    obtain ⟨d, hd⟩ := ha.housed i hactive
    exact start_refused_in_place hd.dir_ne hd.noNul hd.leads hf
  · have hp := (pristine_ofDir hnul hrooted hway limits).run hdir hnul hstart before
    refine ⟨hp.preserves ha i act, fun p => hp.fresh hdir hnul ha, ?_⟩
    rintro disk rfl hactive
    exact hp.finish_iff ha hactive disk

theorem sessions_stay_apart_gap :
    let _ := Json.library []
    let noon : Reading := ⟨0, ⟨2025, 1, 1, 12, 0, 0, 0⟩⟩
    let bare : FileTree := ⟨[], .root⟩
    let t := ((bare.makeDirectories (ascii "rec/20250101_120000")).2.makeDirectories
      (ascii "rec/20250101_120000_3")).2
    let steps : List (Nat × Act) := [(0, .start noon), (1, .start noon), (0, .finish .ample),
      (1, .finish .ample)]
    let deeds := (ofDir t (ascii "rec") fun _ => 2).deeds steps
    let e := (ofDir t (ascii "rec") fun _ => 2).deed 0 (.start noon)
    deeds.map (fun e => e.outcome.recorder.id) = [ascii "20250101_120000_2",
        ascii "20250101_120000_4", ascii "20250101_120000_2", ascii "20250101_120000_4"] ∧
      e ∈ deeds ∧ (∃ p, e.Opens p ∧ e.files.node? p = none) ∧
      e.files.Preserves e.outcome.files := by
  intro _ noon bare t steps deeds e
  have hrooted : t.Rooted := (FileTree.Rooted.bare.makeDirectories _).makeDirectories _
  have hdir : ascii "rec" ≠ [] := by decide
  obtain ⟨-, hall⟩ := sessions_stay_apart hdir (by decide) t (fun _ => 2) steps
  have he : e ∈ deeds := List.mem_cons_self
  obtain ⟨hstart, -, hkept⟩ := hall e he
  obtain ⟨-, -, hopens, -⟩ := hstart noon rfl
  obtain ⟨hpreserves, hfresh, -⟩ := hkept hrooted (Or.inl (by decide +kernel))
  obtain ⟨p, hp⟩ := hopens (by decide +kernel)
  exact ⟨by decide +kernel, he, ⟨p, hp, hfresh p (Or.inl hp)⟩, hpreserves⟩

/-- Three ways in which the conditions fail. With a NUL behind a way that goes up again from a
directory that has yet to be made, an old directory is what a session gets, as the name
behind the NUL is not seen. Without the NUL an old session's directory looks free in
the same way, and its log is written over. With a NUL and a directory that is there,
every name looks taken. -/
theorem old_directory_looks_new :
    let _ := Json.library []
    let noon : Reading := ⟨0, ⟨2025, 1, 1, 12, 0, 0, 0⟩⟩
    let y : Place := Place.root.child (ascii "y")
    let old : Place := logPlace y (ascii "20250101_120000")
    let t : FileTree := ⟨[(y, .directory), (old.parent, .directory),
      (old, .file (.ofText (ascii "old")))], .root⟩
    let upAndNul := ofDir t (ascii "new/../y" ++ 0 :: ascii "z") fun _ => 2
    let up := ofDir t (ascii "new/../y") fun _ => 2
    let nul := ofDir t (ascii "y" ++ 0 :: ascii "z") fun _ => 2
    (upAndNul.deed 0 (.start noon)).outcome.fault = none ∧
      (upAndNul.deed 0 (.start noon)).outcome.files.lookup
        (inside (ascii "new/../y" ++ 0 :: ascii "z")
          (upAndNul.deed 0 (.start noon)).outcome.recorder.id) = .present y .directory ∧
      t.node? y = some .directory ∧
      (up.run [(0, .start noon), (0, .finish .ample)]).files.node? old =
        some (.file (.ofText (((up.run [(0, .start noon)]).members 0).logText ++ [10]))) ∧
      t.node? old = some (.file (.ofText (ascii "old"))) ∧
      freshId nul.files (ascii "y" ++ 0 :: ascii "z") noon.wall.compact = none := by
  decide +kernel

end Crew
end Recorder
end BargeIn
