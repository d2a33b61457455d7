import Mathlib.Algebra.Group.Defs
import Mathlib.Order.Lattice
import RecordDecoding.Decode.Session

namespace RecordDecoding

@[ext]
structure Tally where
  -- Objects that are decoded.
  objects : Nat := 0
  -- Members of them that their types declare, and members that these do not.
  matched : Nat := 0
  skipped : Nat := 0
  -- How deep objects and lists nest.
  depth : Nat := 0
  -- How long the longest list is.
  listLength : Nat := 0
  deriving DecidableEq, Repr

namespace Tally

instance : Zero Tally where
  zero := {}

instance : Add Tally where
  add a b := {
    objects := a.objects + b.objects
    matched := a.matched + b.matched
    skipped := a.skipped + b.skipped
    depth := max a.depth b.depth
    listLength := max a.listLength b.listLength
  }

variable (a b : Tally)

@[simp] theorem objects_zero : (0 : Tally).objects = 0 := rfl

@[simp] theorem matched_zero : (0 : Tally).matched = 0 := rfl

@[simp] theorem skipped_zero : (0 : Tally).skipped = 0 := rfl

@[simp] theorem depth_zero : (0 : Tally).depth = 0 := rfl

@[simp] theorem listLength_zero : (0 : Tally).listLength = 0 := rfl

@[simp] theorem objects_add : (a + b).objects = a.objects + b.objects := rfl

@[simp] theorem matched_add : (a + b).matched = a.matched + b.matched := rfl

@[simp] theorem skipped_add : (a + b).skipped = a.skipped + b.skipped := rfl

@[simp] theorem depth_add : (a + b).depth = max a.depth b.depth := rfl

@[simp] theorem listLength_add : (a + b).listLength = max a.listLength b.listLength := rfl

instance : AddCommMonoid Tally where
  add_assoc a b c := by ext <;> simp [Nat.add_assoc, max_assoc]
  zero_add a := by ext <;> simp
  add_zero a := by ext <;> simp
  add_comm a b := by ext <;> simp [Nat.add_comm, max_comm]
  nsmul := nsmulRec

theorem skipped_add_skipped (m n : Nat) :
    ({ skipped := m } : Tally) + { skipped := n } = { skipped := m + n } := by
  ext <;> simp

theorem depth_add_listLength (d n : Nat) :
    ({ depth := d } : Tally) + { listLength := n } = { depth := d, listLength := n } := by
  ext <;> simp

theorem listLength_of_le {m n : Nat} (h : m ≤ n) :
    ({ listLength := m } : Tally) + { listLength := n } = { listLength := n } := by
  ext <;> simp [h]

end Tally

namespace Session

variable {σ : Type} (s : Session σ)

def tally : Tally where
  objects := s.stats.objects
  matched := s.stats.inOrder + s.stats.dispatched
  skipped := s.stats.skipped
  depth := s.extent.depth
  listLength := s.extent.listLength

-- What the steps that keep account do to the tally.

theorem tally_reachDepth (d : Nat) :
    tally { s with extent := { s.extent with depth := max s.extent.depth d } } =
      s.tally + { depth := d } := by
  ext <;> simp [tally]

theorem tally_reachLength (n : Nat) :
    tally { s with extent := { s.extent with listLength := max s.extent.listLength n } } =
      s.tally + { listLength := n } := by
  ext <;> simp [tally]

theorem tally_object (d : Nat) :
    tally { s with extent := { s.extent with depth := max s.extent.depth d },
                   stats := { s.stats with objects := s.stats.objects + 1 } } =
      s.tally + { objects := 1, depth := d } := by
  ext <;> simp [tally]

theorem tally_dispatched :
    tally { s with stats := { s.stats with dispatched := s.stats.dispatched + 1 } } =
      s.tally + { matched := 1 } := by
  ext <;> simp [tally, Nat.add_assoc]

theorem tally_skipped :
    tally { s with stats := { s.stats with skipped := s.stats.skipped + 1 } } =
      s.tally + { skipped := 1 } := by
  ext <;> simp [tally]

end Session
end RecordDecoding
