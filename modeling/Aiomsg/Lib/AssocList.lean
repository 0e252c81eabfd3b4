import Mathlib.Data.List.AList

/-!
# Association lists as tables

What the proofs about a table of entries need beyond the standard library: taking an entry out
splits it off the list of entries, and applying a function to every value commutes with the
operations.

## Scope

Entries are compared as lists up to order. Where a table is turned into a list to be counted or
summed, its order is nobody's business; where it is looked up, there is one value to a key.
-/

namespace AList

variable {α β γ : Type}

section Split

variable [DecidableEq α]

/-- A table is the entry of a key and the table without it. -/
theorem entries_perm {s : AList fun _ : α => β} {a : α} {b : β} (h : s.lookup a = some b) :
    s.entries.Perm (⟨a, b⟩ :: (s.erase a).entries) := by
  have hmem : a ∈ s.entries.keys := lookup_isSome.mp (by rw [h]; rfl)
  obtain ⟨b', l₁, l₂, -, hsplit, herase⟩ := List.exists_of_kerase hmem
  have hb : s.lookup a = some b' := by
    rw [← Option.mem_def, mem_lookup_iff, hsplit]
    exact List.mem_append_right _ List.mem_cons_self
  obtain rfl : b = b' := Option.some.inj (h.symm.trans hb)
  show s.entries.Perm (⟨a, b⟩ :: s.entries.kerase a)
  rw [herase, hsplit]
  exact List.perm_middle

end Split

/-- Apply a function to every value. -/
def mapVal (f : β → γ) (s : AList fun _ : α => β) : AList fun _ : α => γ where
  entries := s.entries.map fun e => ⟨e.1, f e.2⟩
  nodupKeys := by
    show (List.map _ (List.map _ _)).Nodup
    rw [List.map_map]
    exact s.nodupKeys

variable (f : β → γ)

@[simp] theorem entries_mapVal (s : AList fun _ : α => β) :
    (s.mapVal f).entries = s.entries.map fun e => ⟨e.1, f e.2⟩ := rfl

variable [DecidableEq α]

theorem dlookup_map (a : α) (l : List (Sigma fun _ : α => β)) :
    (l.map fun e => (⟨e.1, f e.2⟩ : Sigma fun _ : α => γ)).dlookup a = (l.dlookup a).map f := by
  induction l with
  | nil => rfl
  | cons e rest ih =>
    obtain ⟨k, v⟩ := e
    by_cases h : a = k
    · subst h
      simp
    · simp only [List.map_cons]
      rw [List.dlookup_cons_ne _ _ h, List.dlookup_cons_ne _ _ h, ih]

@[simp] theorem lookup_mapVal (a : α) (s : AList fun _ : α => β) :
    (s.mapVal f).lookup a = (s.lookup a).map f :=
  dlookup_map f a s.entries

theorem kerase_map (a : α) (l : List (Sigma fun _ : α => β)) :
    (l.map fun e => (⟨e.1, f e.2⟩ : Sigma fun _ : α => γ)).kerase a
      = (l.kerase a).map fun e => ⟨e.1, f e.2⟩ := by
  induction l with
  | nil => rfl
  | cons e rest ih =>
    by_cases h : a = e.1
    · simp [List.kerase_cons_eq, h]
    · simp [List.kerase_cons_ne, h, ih]

@[simp] theorem mapVal_erase (a : α) (s : AList fun _ : α => β) :
    (s.erase a).mapVal f = (s.mapVal f).erase a :=
  ext (kerase_map f a s.entries).symm

@[simp] theorem mapVal_insert (a : α) (b : β) (s : AList fun _ : α => β) :
    (s.insert a b).mapVal f = (s.mapVal f).insert a (f b) := by
  refine ext ?_
  simp only [entries_mapVal, entries_insert, List.map_cons, kerase_map]

end AList
