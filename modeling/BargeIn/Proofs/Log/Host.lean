import BargeIn.Log.Host
import BargeIn.Proofs.Files.Way

/-! Logging on a host. However much is logged, the logger stays as it was turned on,
and nothing changes in the files but the content of the one that it writes to. -/

namespace BargeIn

namespace FileTree

variable {t t' t'' : FileTree} {file : Option Place}

structure Adds (file : Option Place) (t t' : FileTree) : Prop where
  start : t'.start = t.start
  node : ∀ p, t'.node? p = t.node? p ∨ (file = some p ∧
    ∃ old more, t.node? p = some (.file old) ∧ t'.node? p = some (.file (old.add more)))

theorem Adds.refl (file : Option Place) (t : FileTree) : t.Adds file t := ⟨rfl, fun _ => Or.inl rfl⟩

theorem Adds.trans (h : t.Adds file t') (h' : t'.Adds file t'') : t.Adds file t'' where
  start := h'.start.trans h.start
  node p := by
    rcases h.node p with hp | ⟨hfile, old, more, hold, hnew⟩
    · rw [← hp]
      exact h'.node p
    · rcases h'.node p with hp' | ⟨-, old', more', hold', hnew'⟩
      · exact Or.inr ⟨hfile, old, more, hold, hp'.trans hnew⟩
      · rw [hnew] at hold'
        cases hold'
        rw [Written.add_add] at hnew'
        exact Or.inr ⟨hfile, old, more ++ more', hold, hnew'⟩

theorem Adds.directory_iff (h : t.Adds file t') (p : Place) :
    t'.node? p = some .directory ↔ t.node? p = some .directory := by
  rcases h.node p with hp | ⟨-, old, more, hold, hnew⟩
  · rw [hp]
  · rw [hold, hnew]
    simp

theorem Adds.keeps (h : t.Adds file t') : t.KeepsDirectories t' :=
  ⟨h.start, fun p => (h.directory_iff p).2⟩

theorem adds_append (t : FileTree) (place : Place) (text : Text) :
    t.Adds (some place) (t.append place text) := by
  rw [append]
  split
  · rename_i content hn
    refine ⟨rfl, fun p => ?_⟩
    by_cases hp : p = place
    · subst hp
      have hroot : p ≠ .root := by
        rintro rfl
        rw [node?, if_pos rfl] at hn
        cases hn
      exact Or.inr ⟨rfl, content, text, hn, node?_put_self hroot _⟩
    · exact Or.inl (node?_put_of_ne hp _)
  · exact .refl _ t

theorem Adds.put (h : t.Adds file t') (place : Place) (node : Node) :
    (t.put place node).Adds file (t'.put place node) where
  start := h.start
  node p := by
    by_cases hp : p = place
    · subst hp
      by_cases hroot : p = .root
      · exact Or.inl (by rw [node?, node?, if_pos hroot, if_pos hroot])
      · exact Or.inl (by rw [node?_put_self hroot, node?_put_self hroot])
    · rw [node?_put_of_ne hp, node?_put_of_ne hp]
      exact h.node p

end FileTree

namespace Host

variable {h h' h'' : Host}

/-- What is logged is not printed: the log file is not standard output. -/
def Apart (h : Host) : Prop := h.logger.file?.any h.stdout.places.contains = false

instance (h : Host) : Decidable h.Apart := inferInstanceAs (Decidable (_ = _))

theorem writeAt_apart (ha : h.Apart) (t : Text) :
    h.stdout.writeAt h.logger.file? t = h.stdout := by
  rw [Apart] at ha
  rw [Outlet.writeAt, ha, if_neg Bool.false_ne_true]

theorem places_writeAt (o : Outlet) (place : Option Place) (t : Text) :
    (o.writeAt place t).places = o.places := by
  rw [Outlet.writeAt]
  split <;> rfl

structure Logs (h h' : Host) : Prop where
  logger : h'.logger = h.logger
  home : h'.home = h.home
  files : h.files.Adds h.logger.file? h'.files
  places : h'.stdout.places = h.stdout.places
  stdout : h.Apart → h'.stdout = h.stdout

theorem Logs.refl (h : Host) : h.Logs h := ⟨rfl, rfl, .refl _ _, rfl, fun _ => rfl⟩

theorem Logs.apart (hl : h.Logs h') : h'.Apart ↔ h.Apart := by
  rw [Apart, Apart, hl.logger, hl.places]

theorem Logs.trans (hl : h.Logs h') (hl' : h'.Logs h'') : h.Logs h'' where
  logger := hl'.logger.trans hl.logger
  home := hl'.home.trans hl.home
  files := hl.files.trans (hl.logger ▸ hl'.files)
  places := hl'.places.trans hl.places
  stdout ha := (hl'.stdout (hl.apart.2 ha)).trans (hl.stdout ha)

theorem Logs.withFiles (hl : h.Logs h') (files : FileTree) :
    ({ h with files } : Host).Logs { h' with files } :=
  ⟨hl.logger, hl.home, .refl _ _, hl.places, hl.stdout⟩

theorem logs_log (h : Host) (r : Reading) (e : LogEntry) : h.Logs (h.log r e) := by
  rw [log]
  split
  · rw [emit]
    refine ⟨rfl, rfl, ?_, ?_, fun ha => ?_⟩
    · cases h.logger.file? with
      | none => exact .refl _ _
      | some place => exact FileTree.adds_append _ _ _
    · exact places_writeAt _ _ _
    · exact writeAt_apart ha _
  · exact .refl h

theorem logs_logAll (h : Host) (r : Reading) (es : List LogEntry) : h.Logs (h.logAll r es) := by
  induction es generalizing h with
  | nil => exact .refl h
  | cons e es ih => exact (logs_log h r e).trans (ih _)

/-- A text was printed on a host, and anything may have been logged. Where the log is not
printed too, that text is all that standard output has gained. -/
structure Prints (h : Host) (printed : Text) (h' : Host) : Prop where
  logger : h'.logger = h.logger
  files : h.files.Adds h.logger.file? h'.files
  places : h'.stdout.places = h.stdout.places
  stdout : h.Apart → h'.stdout.printed.text = h.stdout.printed.text ++ printed

theorem Prints.refl (h : Host) : h.Prints [] h :=
  ⟨rfl, .refl _ _, rfl, fun _ => (List.append_nil _).symm⟩

theorem Prints.apart {printed : Text} (hp : h.Prints printed h') : h'.Apart ↔ h.Apart := by
  rw [Apart, Apart, hp.logger, hp.places]

theorem Prints.logs {printed : Text} (hp : h.Prints printed h') (hl : h'.Logs h'') :
    h.Prints printed h'' where
  logger := hl.logger.trans hp.logger
  files := hp.files.trans (hp.logger ▸ hl.files)
  places := hl.places.trans hp.places
  stdout ha := by rw [hl.stdout (hp.apart.2 ha), hp.stdout ha]

theorem Prints.print {printed : Text} (hp : h.Prints printed h') (more : Text) :
    h.Prints (printed ++ more) (h'.print more) where
  logger := hp.logger
  files := hp.files
  places := hp.places
  stdout ha := by
    rw [Host.print, Outlet.print, Written.text_add, hp.stdout ha, List.append_assoc]

end Host
end BargeIn
