import Mathlib.Data.List.AList

/-!
# Maps of bounded size

A map with a fixed number of slots. `insertNew` is the insertion that neither replaces
an entry nor grows a map that is full.
-/

/-- A map with at most `cap` entries. -/
structure BoundedMap (cap : Nat) (κ ν : Type) where
  toAList : AList fun _ : κ => ν
  bounded : toAList.entries.length ≤ cap

namespace BoundedMap

variable {cap : Nat} {κ ν : Type} [DecidableEq κ] {m : BoundedMap cap κ ν} {k k' : κ} {v : ν}

def empty : BoundedMap cap κ ν := ⟨∅, Nat.zero_le _⟩

def lookup (m : BoundedMap cap κ ν) (k : κ) : Option ν := m.toAList.lookup k

def erase (m : BoundedMap cap κ ν) (k : κ) : BoundedMap cap κ ν where
  toAList := m.toAList.erase k
  bounded := Nat.le_trans (List.kerase_sublist k _).length_le m.bounded

def insertNew (m : BoundedMap cap κ ν) (k : κ) (v : ν) : BoundedMap cap κ ν :=
  if h : k ∉ m.toAList ∧ m.toAList.entries.length < cap then
    ⟨m.toAList.insert k v, by rw [AList.entries_insert_of_notMem h.1]; exact h.2⟩
  else m

@[simp] theorem lookup_empty : (empty : BoundedMap cap κ ν).lookup k = none :=
  AList.lookup_empty k

@[simp] theorem lookup_erase_self : (m.erase k).lookup k = none := AList.lookup_erase k _

theorem lookup_erase_ne (h : k' ≠ k) : (m.erase k).lookup k' = m.lookup k' :=
  AList.lookup_erase_ne h

theorem lookup_insertNew_ne (h : k' ≠ k) : (m.insertNew k v).lookup k' = m.lookup k' := by
  unfold insertNew
  split
  · exact AList.lookup_insert_ne h
  · rfl

/-- An entry that is inserted has the new value, unless there was one. -/
theorem lookup_insertNew_self (h : m.lookup k = none) {w : ν}
    (hw : (m.insertNew k v).lookup k = some w) : w = v := by
  unfold insertNew at hw
  split at hw
  · exact (Option.some.inj ((AList.lookup_insert m.toAList).symm.trans hw)).symm
  · cases h.symm.trans hw

end BoundedMap
