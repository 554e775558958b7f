/-
# TaskQueue.Lib.Dict -- dictionaries in insertion order

A dictionary is an `AList`, whose field says that no key occurs twice.  Its entries stand in
the order in which their keys were first set: `set` replaces the value of a key that is
there and puts a new one at the end.

* `lookup_set` and `keys_set`: what setting a key leaves of the values and of the keys.
* `lookup_setAll`: the same of several keys, one after the other.
* `countP_lookup`: in a list of distinct keys that has all keys of a dictionary, there are as
  many whose value passes a test as there are such values.
-/
import Mathlib.Data.List.AList

set_option autoImplicit false

/-- A dictionary in insertion order. -/
abbrev Dict (α β : Type) := AList fun _ : α => β

namespace Dict

variable {α β : Type}

/-- `d.values()`. -/
def values (d : Dict α β) : List β := d.entries.map Sigma.snd

theorem length_values (d : Dict α β) : d.values.length = d.entries.length := List.length_map _

variable [DecidableEq α]

/-- `d[k] = v`. -/
def set (d : Dict α β) (k : α) (v : β) : Dict α β :=
  if mem : k ∈ d then d.replace k v
  else
    { entries := d.entries ++ [⟨k, v⟩]
      nodupKeys := by
        have fresh : k ∉ d.entries.keys := mem
        rw [List.NodupKeys, List.keys_append]
        exact d.nodupKeys.append (List.nodup_singleton k) (by simpa using fresh) }

/-- Setting a key keeps the order of the keys, and puts a new one at the end. -/
theorem keys_set (d : Dict α β) (k : α) (v : β) :
    (d.set k v).keys = if k ∈ d then d.keys else d.keys ++ [k] := by
  unfold set
  split
  · exact AList.keys_replace k v d
  · exact List.keys_append

theorem mem_set {d : Dict α β} {k k' : α} {v : β} : k' ∈ d.set k v ↔ k' = k ∨ k' ∈ d := by
  rw [AList.mem_keys, keys_set]
  split
  · rename_i old
    rw [← AList.mem_keys]
    refine (or_iff_right_of_imp ?_).symm
    rintro rfl
    exact old
  · rw [List.mem_append, List.mem_singleton, or_comm, ← AList.mem_keys]

theorem dlookup_kreplace {k : α} {v : β} {l : List (Sigma fun _ : α => β)} (mem : k ∈ l.keys)
    (k' : α) : (l.kreplace k v).dlookup k' = if k' = k then some v else l.dlookup k' := by
  induction l with
  | nil => cases mem
  | cons x l ih =>
      obtain ⟨a, b⟩ := x
      by_cases here : k = a
      · subst here
        have replaced : List.kreplace k v (⟨k, b⟩ :: l) = ⟨k, v⟩ :: l :=
          List.lookmap_cons_some _ _ (if_pos rfl)
        rw [replaced]
        by_cases same : k' = k
        · subst same
          simp
        · rw [if_neg same, List.dlookup_cons_ne _ _ same, List.dlookup_cons_ne _ _ same]
      · have later : k ∈ l.keys := by
          rw [List.keys_cons, List.mem_cons] at mem
          exact mem.resolve_left here
        have kept : List.kreplace k v (⟨a, b⟩ :: l) = ⟨a, b⟩ :: l.kreplace k v :=
          List.lookmap_cons_none _ _ (if_neg here)
        rw [kept]
        by_cases first : k' = a
        · subst first
          simp [Ne.symm here]
        · rw [List.dlookup_cons_ne _ _ first, List.dlookup_cons_ne _ _ first, ih later]

/-- **What a dictionary holds after `d[k] = v`.** -/
theorem lookup_set (d : Dict α β) (k k' : α) (v : β) :
    (d.set k v).lookup k' = if k' = k then some v else d.lookup k' := by
  unfold set
  split
  · rename_i mem
    exact dlookup_kreplace mem k'
  · rename_i fresh
    apply (List.dlookup_append _ _ k').trans
    by_cases same : k' = k
    · subst same
      have absent : d.entries.dlookup k' = none := List.dlookup_eq_none.2 fresh
      simp [absent]
    · rw [if_neg same, List.dlookup_cons_ne _ _ same, List.dlookup_nil, Option.or_none]
      rfl

/-- `for k, v in rows: d[k] = v`. -/
def setAll (d : Dict α β) (rows : List (α × β)) : Dict α β :=
  rows.foldl (fun d x => d.set x.1 x.2) d

/-- Rows that are the values of a function replace those of their keys. -/
theorem lookup_setAll {f : α → Option β} {rows : List (α × β)}
    (values : ∀ x ∈ rows, f x.1 = some x.2) (d : Dict α β) (k : α) :
    (d.setAll rows).lookup k = if k ∈ rows.map Prod.fst then f k else d.lookup k := by
  induction rows generalizing d with
  | nil => rfl
  | cons x rows ih =>
      obtain ⟨value, values'⟩ := List.forall_mem_cons.1 values
      have rest := ih values' (d.set x.1 x.2)
      rw [lookup_set] at rest
      apply rest.trans
      by_cases later : k ∈ rows.map Prod.fst
      · rw [if_pos later, List.map_cons, if_pos (List.mem_cons_of_mem _ later)]
      · rw [if_neg later]
        by_cases here : k = x.1
        · rw [if_pos here, List.map_cons, here, if_pos List.mem_cons_self, value]
        · rw [if_neg here, List.map_cons, if_neg (by simp [here, later])]

theorem mem_setAll {rows : List (α × β)} {d : Dict α β} {k : α} :
    k ∈ d.setAll rows ↔ k ∈ rows.map Prod.fst ∨ k ∈ d := by
  induction rows generalizing d with
  | nil => simp [setAll]
  | cons x rows ih =>
      apply (ih (d := d.set x.1 x.2)).trans
      rw [mem_set, List.map_cons, List.mem_cons]
      tauto

/-- What holds of the rows that are set holds of what the dictionary has of them. -/
theorem of_lookup_setAll {P : α → β → Prop} {rows : List (α × β)} {d : Dict α β}
    (given : ∀ x ∈ rows, P x.1 x.2) (had : ∀ k v, d.lookup k = some v → P k v) {k : α} {v : β}
    (found : (d.setAll rows).lookup k = some v) : P k v := by
  induction rows generalizing d with
  | nil => exact had k v found
  | cons x rows ih =>
      obtain ⟨first, rest⟩ := List.forall_mem_cons.1 given
      refine ih rest (d := d.set x.1 x.2) (fun k v found => ?_) found
      rw [lookup_set] at found
      split at found
      · rename_i same
        cases found
        rw [same]
        exact first
      · exact had k v found

theorem lookup_entry {d : Dict α β} {x : Sigma fun _ : α => β} (member : x ∈ d.entries) :
    d.lookup x.1 = some x.2 :=
  AList.mem_lookup_iff.2 member

/-- Counting values by their keys. -/
theorem countP_lookup {d : Dict α β} {ks : List α} (distinct : ks.Nodup)
    (all : ∀ k ∈ d, k ∈ ks) (p : β → Bool) :
    (ks.countP fun k => (d.lookup k).any p) = d.values.countP p := by
  have same : (ks.filter (· ∈ d)).Perm d.keys := by
    apply (List.perm_ext_iff_of_nodup (distinct.filter _) d.keys_nodup).2
    intro k
    rw [List.mem_filter, decide_eq_true_iff, ← AList.mem_keys]
    exact and_iff_right_of_imp (all k)
  have inside (k : α) : ((d.lookup k).any p && decide (k ∈ d)) = (d.lookup k).any p := by
    cases found : d.lookup k with
    | none => rfl
    | some v =>
        have mem : k ∈ d := AList.lookup_isSome.1 (by rw [found]; rfl)
        simp [mem]
  calc ks.countP (fun k => (d.lookup k).any p)
      = (ks.filter (· ∈ d)).countP fun k => (d.lookup k).any p := by
        rw [List.countP_filter]
        simp only [inside]
    _ = d.keys.countP fun k => (d.lookup k).any p := same.countP_eq _
    _ = d.entries.countP fun x => (d.lookup x.1).any p := List.countP_map
    _ = d.entries.countP fun x => p x.2 := by
        apply List.countP_congr
        intro x member
        rw [lookup_entry member, Option.any_some]
    _ = d.values.countP p := List.countP_map.symm

end Dict
