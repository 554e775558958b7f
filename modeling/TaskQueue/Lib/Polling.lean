/-
# TaskQueue.Lib.Polling -- polling for what does not change any more

A poll asks for the values of the keys that are still missing, and the loop stops when none
is.  Where a key keeps its value once it has one, the loop finds what a single question at the
last poll would have found: it does not matter that every poll asks for less.

* `gather` is the loop, `Answers` what a poll may return.
* `gather_lookup`: what it has gathered is what the last poll sees.
-/
import TaskQueue.Lib.Dict

set_option autoImplicit false

namespace Polling

variable {K V Q : Type} [DecidableEq K]

/-- Ask for what is missing and stop when nothing is. -/
def gather (ask : Q → Dict K V → List (K × V)) (full : Dict K V → Bool) :
    List Q → Dict K V → Dict K V
  | [], d => d
  | q :: qs, d =>
      let d' := d.setAll (ask q d)
      if full d' then d' else gather ask full qs d'

/-- The rows are those of the keys of `ks` that are missing and have a value. -/
def Answers (look : K → Option V) (ks : List K) (d : Dict K V) (rows : List (K × V)) : Prop :=
  ∀ k v, (k, v) ∈ rows ↔ k ∈ ks ∧ k ∉ d ∧ look k = some v

/-- What there is to gather: the values of the keys of `ks`. -/
def among (ks : List K) (look : K → Option V) (k : K) : Option V :=
  if k ∈ ks then look k else none

/-- A key keeps its value. -/
def Grows (look look' : K → Option V) : Prop := ∀ k v, look k = some v → look' k = some v

section

variable {look look' : K → Option V} {ks : List K} {d : Dict K V} {rows : List (K × V)}

/-- After a poll the dictionary has what the poll sees. -/
theorem lookup_of_answers (grows : Grows look look') (has : ∀ k, d.lookup k = among ks look k)
    (answers : Answers look' ks d rows) (k : K) :
    (d.setAll rows).lookup k = among ks look' k := by
  have values : ∀ x ∈ rows, look' x.1 = some x.2 := fun x member =>
    ((answers x.1 x.2).1 member).2.2
  rw [Dict.lookup_setAll values]
  by_cases wanted : k ∈ ks
  · have missing : k ∉ d ↔ look k = none := by
      rw [← AList.lookup_eq_none, has, among, if_pos wanted]
    rw [among, if_pos wanted]
    split
    · rfl
    · rename_i absent
      rw [has, among, if_pos wanted]
      cases found : look k with
      | some v => exact (grows k v found).symm
      | none =>
          cases seen : look' k with
          | none => rfl
          | some v =>
              have row := (answers k v).2 ⟨wanted, missing.2 found, seen⟩
              exact absurd (List.mem_map_of_mem (f := Prod.fst) row) absent
  · have absent : k ∉ rows.map Prod.fst := by
      rintro member
      obtain ⟨x, row, rfl⟩ := List.mem_map.1 member
      exact wanted ((answers x.1 x.2).1 row).1
    rw [if_neg absent, has, among, if_neg wanted, among, if_neg wanted]

theorem wanted_of_mem (has : ∀ k, d.lookup k = among ks look k) {k : K} (member : k ∈ d) :
    k ∈ ks := by
  by_contra unwanted
  have found := AList.lookup_isSome.2 member
  rw [has, among, if_neg unwanted] at found
  cases found

/-- A dictionary that has every key has what any later poll would see. -/
theorem among_of_full (grows : Grows look look') (all : ∀ k ∈ ks, k ∈ d)
    (has : ∀ k, d.lookup k = among ks look k) (k : K) : among ks look' k = among ks look k := by
  by_cases wanted : k ∈ ks
  · obtain ⟨v, found⟩ := Option.isSome_iff_exists.1 (AList.lookup_isSome.2 (all k wanted))
    rw [has, among, if_pos wanted] at found
    rw [among, among, if_pos wanted, if_pos wanted, found, grows k v found]
  · rw [among, among, if_neg wanted, if_neg wanted]

/-- **Polling finds what one question at the last poll would find.** -/
theorem gather_lookup {ask : Q → Dict K V → List (K × V)} {full : Dict K V → Bool}
    (look : K → Option V) (sees : Q → K → Option V)
    (answers : ∀ q d, Answers (sees q) ks d (ask q d))
    (stops : ∀ d : Dict K V, (∀ k ∈ d, k ∈ ks) → full d = true → ∀ k ∈ ks, k ∈ d) {qs : List Q}
    (before : ∀ q ∈ qs, Grows look (sees q))
    (inOrder : qs.Pairwise fun q q' => Grows (sees q) (sees q'))
    (has : ∀ k, d.lookup k = among ks look k) (k : K) :
    (gather ask full qs d).lookup k = among ks ((qs.getLast?.map sees).getD look) k := by
  induction qs generalizing d look with
  | nil => exact has k
  | cons q qs ih =>
      obtain ⟨first, inOrder'⟩ := List.pairwise_cons.1 inOrder
      have has' := lookup_of_answers (before q List.mem_cons_self) has (answers q d)
      have last : ((q :: qs).getLast?.map sees).getD look =
          (qs.getLast?.map sees).getD (sees q) := by
        cases qs with
        | nil => rfl
        | cons q' qs =>
            rw [List.getLast?_cons_cons]
            obtain ⟨x, final⟩ := Option.isSome_iff_exists.1
              (List.getLast?_isSome.2 (List.cons_ne_nil q' qs))
            rw [final]
            rfl
      rw [last]
      unfold gather
      dsimp only
      split
      · rename_i stopped
        have all := stops _ (fun k member => wanted_of_mem has' member) stopped
        rw [has']
        cases final : qs.getLast? with
        | none => rfl
        | some q' =>
            exact (among_of_full (first q' (List.mem_of_getLast? final)) all has' k).symm
      · exact ih (sees q) first inOrder' has'

end

end Polling
