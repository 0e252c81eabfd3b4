import Mathlib.Data.List.AList

/-!
# Going through a table that is assigned to

A loop over a hash table asks for the key after the last one, again and again. It may clear fields
on the way. But where it assigns to a field that is not there, the table may be laid out anew, and
which keys the loop is given after that is left open.

A `Table` keeps the assignments made to it, so that what a loop may not do can be seen from outside;
the order of its entries is the order in which the keys are given, and a statement about all tables
is one about all orders. `Table.traverse` is such a loop as far as it is determined.

## Main results

* `Table.Clearing.traverse_append` — entries for which the loop clears no more than their own field
  are gone through one by one
* `Table.Clearing.log_behind`, `Table.Clearing.lookup_behind` — the table behind them
* `Table.log_prefix_of_traverse` — the assignments made are not forgotten
-/

/-- One assignment to a field of a table; `none` clears it. -/
structure Assignment (κ ν : Type) where
  key : κ
  /-- The field was there. -/
  present : Bool
  value : Option ν
deriving DecidableEq

/-- A table and the assignments made to it. -/
structure Table (κ ν : Type) where
  entries : AList fun _ : κ => ν
  log : List (Assignment κ ν)

/-- What a loop over a table comes to. -/
inductive Traversal (σ : Type) where
  | finished (s : σ)
  /-- A field that was not there has been assigned to, and the rest is left open. -/
  | undefined (s : σ)

namespace Table

variable {κ ν σ : Type}

/-- Since `t`, a field that was not there has been assigned to. -/
def Strays (t t' : Table κ ν) : Prop := ∃ a ∈ t'.log.drop t.log.length, a.present = false

instance (t t' : Table κ ν) : Decidable (t.Strays t') :=
  inferInstanceAs (Decidable (∃ a ∈ _, _))

theorem not_strays_self (t : Table κ ν) : ¬ t.Strays t := by
  rintro ⟨a, ha, -⟩
  rw [List.drop_length] at ha
  cases ha

theorem strays_iff {t t' : Table κ ν} {more : List (Assignment κ ν)} (h : t'.log = t.log ++ more) :
    t.Strays t' ↔ ∃ a ∈ more, a.present = false := by
  rw [Strays, h, List.drop_left]

variable [DecidableEq κ]

/-- `table[key] = value`. -/
def assign (t : Table κ ν) (key : κ) (value : Option ν) : Table κ ν where
  entries := value.elim (t.entries.erase key) (t.entries.insert key)
  log := t.log ++ [⟨key, decide (key ∈ t.entries), value⟩]

/-- `for key, value in pairs(table) do body end`, with the keys that are still to come. A field that
has been cleared in the meantime is passed by. -/
def traverse (table : σ → Table κ ν) (body : κ → ν → σ → σ) : List κ → σ → Traversal σ
  | [], s => .finished s
  | key :: keys, s =>
    match (table s).entries.lookup key with
    | none => traverse table body keys s
    | some value =>
      if (table s).Strays (table (body key value s)) then .undefined (body key value s)
      else traverse table body keys (body key value s)

/-! ### Assignments -/

section Assign

variable {t : Table κ ν} {key k : κ} {value : Option ν}

@[simp] theorem log_assign :
    (t.assign key value).log = t.log ++ [⟨key, decide (key ∈ t.entries), value⟩] := rfl

theorem lookup_clear_ne (h : k ≠ key) :
    (t.assign key none).entries.lookup k = t.entries.lookup k :=
  AList.lookup_erase_ne h

theorem lookup_clear_self : (t.assign key none).entries.lookup key = none :=
  AList.lookup_erase key t.entries

theorem not_strays_clear (h : key ∈ t.entries) : ¬ t.Strays (t.assign key none) := by
  rw [strays_iff log_assign]
  rintro ⟨a, ha, habsent⟩
  rw [List.mem_singleton.mp ha] at habsent
  exact absurd (decide_eq_false_iff_not.mp habsent) (not_not.mpr h)

end Assign

variable {table : σ → Table κ ν} {body : κ → ν → σ → σ} {s s' : σ}

theorem traverse_cons {key : κ} {value : ν} (h : (table s).entries.lookup key = some value)
    (keys : List κ) : traverse table body (key :: keys) s =
      if (table s).Strays (table (body key value s)) then .undefined (body key value s)
      else traverse table body keys (body key value s) := by
  rw [traverse, h]

/-- **What has been assigned is not forgotten.** -/
theorem log_prefix_of_traverse
    (hbody : ∀ key value s, (table s).log <+: (table (body key value s)).log) {keys : List κ}
    (h : traverse table body keys s = .finished s') : (table s).log <+: (table s').log := by
  induction keys generalizing s with
  | nil =>
    obtain rfl := Traversal.finished.inj h
    exact List.prefix_rfl
  | cons key keys ih =>
    rcases hlookup : (table s).entries.lookup key with _ | value
    · rw [traverse, hlookup] at h
      exact ih h
    · rw [traverse_cons hlookup] at h
      split_ifs at h
      exact (hbody key value s).trans (ih h)

/-! ### Entries still to come -/

/-- Some entries of a table, each of them once. -/
structure Lists (t : Table κ ν) (es : List (Sigma fun _ : κ => ν)) : Prop where
  nodup : (es.map Sigma.fst).Nodup
  lookup : ∀ e ∈ es, t.entries.lookup e.1 = some e.2

variable {t : Table κ ν} {e : Sigma fun _ : κ => ν} {es rest : List (Sigma fun _ : κ => ν)}

theorem lists_entries (t : Table κ ν) : t.Lists t.entries.entries where
  nodup := t.entries.nodupKeys
  lookup _ he := AList.mem_lookup_iff.mpr he

theorem Lists.mem (h : t.Lists (e :: es)) : e.1 ∈ t.entries := by
  rw [← AList.lookup_isSome, h.lookup e List.mem_cons_self]
  rfl

theorem Lists.ne (h : t.Lists (e :: es)) : ∀ e' ∈ es, e'.1 ≠ e.1 := by
  intro e' he' hkey
  have hnodup := h.nodup
  rw [List.map_cons, List.nodup_cons] at hnodup
  exact hnodup.1 (hkey ▸ List.mem_map_of_mem he')

theorem Lists.tail (h : t.Lists (e :: es)) : t.Lists es where
  nodup := (List.nodup_cons.mp h.nodup).2
  lookup e' he' := h.lookup e' (List.mem_cons_of_mem _ he')

theorem Lists.left (h : t.Lists (es ++ rest)) : t.Lists es where
  nodup := by
    have hnodup := h.nodup
    rw [List.map_append] at hnodup
    exact hnodup.of_append_left
  lookup e' he' := h.lookup e' (List.mem_append_left _ he')

/-- Clearing the field of an entry leaves the others. -/
theorem Lists.clear (h : t.Lists (e :: es)) : (t.assign e.1 none).Lists es where
  nodup := h.tail.nodup
  lookup e' he' := (lookup_clear_ne (h.ne e' he')).trans (h.tail.lookup e' he')

/-! ### Loops that clear -/

/-- As long as `I` holds, the loop clears the fields of the entries for which `P` holds, when it
comes to them, and makes no other assignment. -/
structure Clearing (table : σ → Table κ ν) (body : κ → ν → σ → σ) (P : ν → Prop) [DecidablePred P]
    (I : σ → Prop) (es : List (Sigma fun _ : κ => ν)) : Prop where
  keep : ∀ e ∈ es, ∀ s, I s → I (body e.1 e.2 s)
  clear : ∀ e ∈ es, ∀ s, I s →
    table (body e.1 e.2 s) = if P e.2 then (table s).assign e.1 none else table s

/-- The state behind some entries. -/
def behind (body : κ → ν → σ → σ) (es : List (Sigma fun _ : κ => ν)) (s : σ) : σ :=
  es.foldl (fun s e => body e.1 e.2 s) s

namespace Clearing

variable {P : ν → Prop} [DecidablePred P] {I : σ → Prop}

theorem tail (h : Clearing table body P I (e :: es)) : Clearing table body P I es where
  keep e' he' := h.keep e' (List.mem_cons_of_mem _ he')
  clear e' he' := h.clear e' (List.mem_cons_of_mem _ he')

theorem keep_behind (h : Clearing table body P I es) (hI : I s) : I (behind body es s) := by
  induction es generalizing s with
  | nil => exact hI
  | cons e es ih => exact ih h.tail (h.keep e List.mem_cons_self s hI)

theorem lists (h : Clearing table body P I (e :: es)) (hI : I s)
    (hlists : (table s).Lists (e :: rest)) : (table (body e.1 e.2 s)).Lists rest := by
  rw [h.clear e List.mem_cons_self s hI]
  split_ifs
  · exact hlists.clear
  · exact hlists.tail

/-- **Entries of which no more than their own field is cleared are gone through one by one.** -/
theorem traverse_append (h : Clearing table body P I es) (hI : I s)
    (hlists : (table s).Lists (es ++ rest)) :
    traverse table body ((es ++ rest).map Sigma.fst) s
        = traverse table body (rest.map Sigma.fst) (behind body es s) ∧
      (table (behind body es s)).Lists rest := by
  induction es generalizing s with
  | nil => exact ⟨rfl, hlists⟩
  | cons e es ih =>
    have hstays : ¬ (table s).Strays (table (body e.1 e.2 s)) := by
      rw [h.clear e List.mem_cons_self s hI]
      split_ifs
      · exact not_strays_clear hlists.mem
      · exact not_strays_self _
    rw [List.cons_append, List.map_cons, traverse_cons (hlists.lookup e List.mem_cons_self),
      if_neg hstays]
    exact ih h.tail (h.keep e List.mem_cons_self s hI) (h.lists hI hlists)

/-- The assignments made on the way: each entry for which `P` holds is cleared, once. -/
theorem log_behind (h : Clearing table body P I es) (hI : I s) (hlists : (table s).Lists es) :
    (table (behind body es s)).log
      = (table s).log ++ (es.filter fun e => P e.2).map fun e => ⟨e.1, true, none⟩ := by
  induction es generalizing s with
  | nil => exact (List.append_nil _).symm
  | cons e es ih =>
    have hrest := ih h.tail (h.keep e List.mem_cons_self s hI) (h.lists hI hlists)
    rw [behind, List.foldl_cons, ← behind, hrest, h.clear e List.mem_cons_self s hI]
    by_cases hP : P e.2
    · rw [if_pos hP, log_assign, List.filter_cons, if_pos (decide_eq_true hP), List.map_cons,
        List.append_assoc, decide_eq_true hlists.mem]
      rfl
    · rw [if_neg hP, List.filter_cons, if_neg (by rwa [decide_eq_true_eq])]

/-- The table behind them: the entries for which `P` holds are gone, and no other. -/
theorem lookup_behind (h : Clearing table body P I es) (hI : I s) (hlists : (table s).Lists es)
    (k : κ) : (table (behind body es s)).entries.lookup k
      = if ∃ e ∈ es, e.1 = k ∧ P e.2 then none else (table s).entries.lookup k := by
  induction es generalizing s with
  | nil =>
    rw [if_neg]
    · rfl
    · rintro ⟨e, he, -⟩
      cases he
  | cons e es ih =>
    have hrest := ih h.tail (h.keep e List.mem_cons_self s hI) (h.lists hI hlists)
    rw [behind, List.foldl_cons, ← behind, hrest, h.clear e List.mem_cons_self s hI]
    simp only [List.exists_mem_cons_iff]
    by_cases hP : P e.2
    · rw [if_pos hP]
      by_cases hk : e.1 = k
      · rw [← hk, lookup_clear_self, ite_self, if_pos (.inl ⟨rfl, hP⟩)]
      · rw [lookup_clear_ne (Ne.symm hk)]
        exact if_congr (or_iff_right fun hhere => hk hhere.1).symm rfl rfl
    · rw [if_neg hP]
      exact if_congr (or_iff_right fun hhere => hP hhere.2).symm rfl rfl

/-- **A loop that clears** comes to its end, and has gone through all entries. -/
theorem traverse_entries (h : Clearing table body P I (table s).entries.entries) (hI : I s) :
    traverse table body (table s).entries.keys s
      = .finished (behind body (table s).entries.entries s) := by
  have hlists : (table s).Lists ((table s).entries.entries ++ []) := by
    rw [List.append_nil]
    exact lists_entries _
  have happend := h.traverse_append hI hlists
  rw [List.append_nil] at happend
  exact happend.1

theorem lookup_entries (h : Clearing table body P I (table s).entries.entries) (hI : I s) (k : κ) :
    (table (behind body (table s).entries.entries s)).entries.lookup k
      = ((table s).entries.lookup k).filter fun v => ¬ P v := by
  rw [h.lookup_behind hI (lists_entries _)]
  rcases hlookup : (table s).entries.lookup k with _ | v
  · rw [ite_self]
    rfl
  · have hiff : (∃ e ∈ (table s).entries.entries, e.1 = k ∧ P e.2) ↔ P v := by
      constructor
      · rintro ⟨e, he, rfl, hP⟩
        obtain rfl : e.2 = v :=
          Option.some.inj ((AList.mem_lookup_iff.mpr he).symm.trans hlookup)
        exact hP
      · intro hP
        exact ⟨⟨k, v⟩, AList.mem_lookup_iff.mp hlookup, rfl, hP⟩
    rw [Option.filter_some]
    by_cases hP : P v
    · rw [if_pos (hiff.mpr hP), if_neg (by simpa using hP)]
    · rw [if_neg (mt hiff.mp hP), if_pos (by simpa using hP)]

end Clearing

end Table
