import BargeIn.Text.Basic

/-! A place is where something may lie in a file tree: the names on the way to it
from the root. The innermost name stands first, so that going in and going out
are one step each, and the number of names stands before them, so that places
of different depths are told apart at once. -/

namespace BargeIn

structure Place where
  depth : Nat
  names : List Text
  depth_eq : depth = names.length
  deriving DecidableEq

namespace Place

def root : Place := ⟨0, [], rfl⟩

def child (p : Place) (name : Text) : Place := ⟨p.depth + 1, name :: p.names, by simp [p.depth_eq]⟩

def parent (p : Place) : Place := ⟨p.depth - 1, p.names.tail, by simp [p.depth_eq]⟩

def descend (p : Place) (names : List Text) : Place := names.foldl child p

def isWithin (outer p : Place) : Bool :=
  outer.depth ≤ p.depth && p.names.drop (p.depth - outer.depth) = outer.names

/-- The names on the way to a place from one that it lies in, the outermost first. -/
def namesFrom (outer p : Place) : List Text := (p.names.take (p.depth - outer.depth)).reverse

instance : LT Place := ⟨fun p q => p.depth < q.depth ∨ p.depth = q.depth ∧ p.names < q.names⟩

instance : DecidableLT Place := fun p q =>
  inferInstanceAs (Decidable (p.depth < q.depth ∨ p.depth = q.depth ∧ p.names < q.names))

@[ext] theorem ext {p q : Place} (h : p.names = q.names) : p = q := by
  obtain ⟨m, ms, hm⟩ := p
  obtain ⟨n, ns, hn⟩ := q
  simp only at h
  subst h hm hn
  rfl

@[simp] theorem parent_child (p : Place) (name : Text) : (p.child name).parent = p := rfl

theorem child_ne_root (p : Place) (name : Text) : p.child name ≠ root := fun h => by
  simpa [child, root] using congrArg names h

theorem child_inj {p q : Place} {m n : Text} : p.child m = q.child n ↔ p = q ∧ m = n := by
  constructor
  · intro h
    have hn : m :: p.names = n :: q.names := congrArg names h
    rw [List.cons.injEq] at hn
    exact ⟨ext hn.2, hn.1⟩
  · rintro ⟨rfl, rfl⟩
    rfl

end Place
end BargeIn
