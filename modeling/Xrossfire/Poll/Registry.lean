import Mathlib

/-! The registry of polling procedures in `poll.c`, a table with room for sixteen.
An access outside the table has no result. `xf_poll_add` does not look at the room
that is left. -/
namespace Xrossfire.Poll

variable {α : Type}

structure Registry (α : Type) where
  nPollings : Nat
  pollings : Vector α 16

def initial (null : α) : Registry α := ⟨0,Vector.replicate 16 null⟩

def store (pollings : Vector α 16) (i : Nat) (obj : α) : Option (Vector α 16) :=
  if room : i < 16 then some (pollings.set i obj) else none

/-- Returns the registry and the error code. -/
def add (r : Registry α) (obj : α) : Option (Registry α × Int) := do
  let pollings ← store r.pollings r.nPollings obj
  return (⟨r.nPollings + 1,pollings⟩,0)

/-- The inner loop of `xf_poll_remove` from `j` on. -/
def shift (pollings : Vector α 16) (n j : Nat) : Option (Vector α 16) :=
  if j + 1 < n then do
    let next ← pollings[j + 1]?
    let pollings ← store pollings j next
    shift pollings n (j + 1)
  else some pollings
termination_by n - j

/-- The outer loop of `xf_poll_remove` from `i` on. -/
def removeFrom [DecidableEq α] (r : Registry α) (obj : α) (i : Nat) : Option (Registry α) :=
  if i < r.nPollings then do
    let entry ← r.pollings[i]?
    if entry = obj then
      let pollings ← shift r.pollings r.nPollings i
      return ⟨r.nPollings - 1,pollings⟩
    else removeFrom r obj (i + 1)
  else some r
termination_by r.nPollings - i

def remove [DecidableEq α] (r : Registry α) (obj : α) : Option (Registry α) := removeFrom r obj 0

/-- The procedures that `xf_poll_process` calls from `i` on, in its order. -/
def processFrom (r : Registry α) (i : Nat) : Option (List α) :=
  if i < r.nPollings then do
    let entry ← r.pollings[i]?
    let rest ← processFrom r (i + 1)
    return entry :: rest
  else some []
termination_by r.nPollings - i

def registered (r : Registry α) : List α := r.pollings.toList.take r.nPollings

@[simp] theorem registered_initial (null : α) : registered (initial null) = [] := rfl

theorem registered_getElem? (r : Registry α) (k : Nat) :
    (registered r)[k]? = if k < r.nPollings then r.pollings[k]? else none := by
  rw [registered,List.getElem?_take,Vector.getElem?_toList]

theorem registered_length (r : Registry α) (fits : r.nPollings ≤ 16) : (registered r).length = r.nPollings := by
  simp only [registered,List.length_take,Vector.length_toList]
  omega

theorem add_of_room (r : Registry α) (obj : α) (room : r.nPollings < 16) :
    ∃ r', add r obj = some (r',0) ∧ r'.nPollings = r.nPollings + 1 ∧ registered r' = registered r ++ [obj] := by
  refine ⟨⟨r.nPollings + 1,r.pollings.set r.nPollings obj⟩,?_,rfl,?_⟩
  · simp only [add,store,dif_pos room]
    rfl
  · apply List.ext_getElem?
    intro k
    rw [registered_getElem?,List.getElem?_append,registered_length r (le_of_lt room),registered_getElem?,
      Vector.getElem?_set]
    grind

theorem add_of_full (r : Registry α) (obj : α) (full : 16 ≤ r.nPollings) : add r obj = none := by
  simp only [add,store,dif_neg (not_lt.mpr full)]
  rfl

theorem shift_spec (pollings : Vector α 16) (n j : Nat) (fits : n ≤ 16) :
    ∃ shifted, shift pollings n j = some shifted ∧
      ∀ k, shifted[k]? = if j ≤ k ∧ k + 1 < n then pollings[k + 1]? else pollings[k]? := by
  induction left : n - j generalizing pollings j with
  | zero =>
    rw [shift,if_neg (by omega)]
    exact ⟨pollings,rfl,fun k => by rw [if_neg (by omega)]⟩
  | succ left ih =>
    rw [shift]
    by_cases next : j + 1 < n
    · have room : j + 1 < 16 := by omega
      obtain ⟨shifted,run,entries⟩ := ih (pollings.set j pollings[j + 1]) (j + 1) (by omega)
      refine ⟨shifted,?_,?_⟩
      · rw [if_pos next,Vector.getElem?_eq_getElem room]
        simp only [store,Option.bind_eq_bind,Option.bind_some]
        rw [dif_pos (by omega)]
        exact run
      · intro k
        rw [entries]
        simp only [Vector.getElem?_set]
        grind
    · rw [if_neg next]
      exact ⟨pollings,rfl,fun k => by rw [if_neg (by omega)]⟩

variable [DecidableEq α]

theorem erase_of_first (xs : List α) (obj : α) (i : Nat) (here : xs[i]? = some obj)
    (passed : ∀ k < i, xs[k]? ≠ some obj) : xs.erase obj = xs.eraseIdx i := by
  apply List.erase_eq_eraseIdx_of_idxOf
  obtain ⟨room,entry⟩ := List.getElem?_eq_some_iff.mp here
  refine (List.findIdx_eq room).mpr ⟨by simp [entry],?_⟩
  intro k earlier
  have other := passed k earlier
  rw [List.getElem?_eq_getElem (by omega)] at other
  simpa using other

theorem removeFrom_spec (r : Registry α) (obj : α) (i : Nat) (fits : r.nPollings ≤ 16)
    (passed : ∀ k < i, (registered r)[k]? ≠ some obj) :
    ∃ r', removeFrom r obj i = some r' ∧ r'.nPollings ≤ 16 ∧ registered r' = (registered r).erase obj := by
  induction left : r.nPollings - i generalizing i with
  | zero =>
    rw [removeFrom,if_neg (by omega)]
    refine ⟨r,rfl,fits,?_⟩
    have absent : obj ∉ registered r := by
      intro member
      obtain ⟨k,here⟩ := List.mem_iff_getElem?.mp member
      have inside : k < r.nPollings := by
        rw [registered_getElem?] at here
        split_ifs at here with inside
        exact inside
      exact passed k (by omega) here
    rw [List.erase_of_not_mem absent]
  | succ left ih =>
    have inside : i < r.nPollings := by omega
    have room : i < 16 := by omega
    rw [removeFrom,if_pos inside,Vector.getElem?_eq_getElem room]
    simp only [Option.bind_eq_bind,Option.bind_some]
    have entry : (registered r)[i]? = some r.pollings[i] := by
      rw [registered_getElem?,if_pos inside,Vector.getElem?_eq_getElem room]
    by_cases same : r.pollings[i] = obj
    · rw [if_pos same]
      rw [same] at entry
      obtain ⟨shifted,run,entries⟩ := shift_spec r.pollings r.nPollings i fits
      rw [run]
      refine ⟨⟨r.nPollings - 1,shifted⟩,rfl,by simp only; omega,?_⟩
      rw [erase_of_first _ obj i entry passed]
      apply List.ext_getElem?
      intro k
      rw [registered_getElem?,List.getElem?_eraseIdx,registered_getElem?,registered_getElem?,entries]
      grind
    · rw [if_neg same]
      refine ih (i + 1) ?_ (by omega)
      intro k earlier
      rcases Nat.lt_succ_iff_lt_or_eq.mp earlier with earlier | rfl
      · exact passed k earlier
      · rw [entry]
        simpa using same

theorem remove_spec (r : Registry α) (obj : α) (fits : r.nPollings ≤ 16) :
    ∃ r', remove r obj = some r' ∧ r'.nPollings ≤ 16 ∧ registered r' = (registered r).erase obj :=
  removeFrom_spec r obj 0 fits (fun k before => absurd before (Nat.not_lt_zero k))

omit [DecidableEq α] in
/-- The loop of `xf_poll_process` calls the registered procedures in their order. -/
theorem processFrom_eq (r : Registry α) (i : Nat) (fits : r.nPollings ≤ 16) :
    processFrom r i = some ((registered r).drop i) := by
  induction left : r.nPollings - i generalizing i with
  | zero =>
    rw [processFrom,if_neg (by omega),List.drop_eq_nil_of_le]
    rw [registered_length r fits]
    omega
  | succ left ih =>
    have room : i < 16 := by omega
    have listed : i < (registered r).length := by
      rw [registered_length r fits]
      omega
    rw [processFrom,if_pos (by omega),Vector.getElem?_eq_getElem room,ih (i + 1) (by omega),
      List.drop_eq_getElem_cons listed]
    have entry : (registered r)[i]? = some r.pollings[i] := by
      rw [registered_getElem?,if_pos (by omega),Vector.getElem?_eq_getElem room]
    rw [List.getElem?_eq_getElem listed] at entry
    rw [Option.some.inj entry]
    rfl

/-! ## Sequences of calls -/

inductive Call (α : Type)
  | add (obj : α)
  | remove (obj : α)

/-- From the registry `r` on, the calls keep it the bounded list that starts as `xs`: an add that returns 0
appends, one that does not fit fails and changes nothing, a removal deletes the first occurrence. -/
def Obeys : List α → Registry α → List (Call α) → Prop
  | xs,r,[] => registered r = xs
  | xs,r,.add obj :: calls => registered r = xs ∧ ∃ r' error, add r obj = some (r',error) ∧
      (xs.length = 16 → error ≠ 0) ∧ (error = 0 → Obeys (xs ++ [obj]) r' calls) ∧
      (error ≠ 0 → r' = r ∧ Obeys xs r' calls)
  | xs,r,.remove obj :: calls => registered r = xs ∧ ∃ r', remove r obj = some r' ∧ Obeys (xs.erase obj) r' calls

def Fits : List α → List (Call α) → Prop
  | _,[] => True
  | xs,.add obj :: calls => xs.length < 16 ∧ Fits (xs ++ [obj]) calls
  | xs,.remove obj :: calls => Fits (xs.erase obj) calls

theorem obeys_iff_fits (calls : List (Call α)) (r : Registry α) (fits : r.nPollings ≤ 16) :
    Obeys (registered r) r calls ↔ Fits (registered r) calls := by
  induction calls generalizing r with
  | nil => simp [Obeys,Fits]
  | cons call calls ih =>
    cases call with
    | add obj =>
      simp only [Obeys,Fits,true_and,registered_length r fits]
      by_cases room : r.nPollings < 16
      · obtain ⟨r',run,size,list⟩ := add_of_room r obj room
        have after := ih r' (by omega)
        rw [list] at after
        constructor
        · intro obeys
          obtain ⟨r₁,error,run₁,-,appended,-⟩ := obeys
          cases run.symm.trans run₁
          exact ⟨room,after.mp (appended rfl)⟩
        · intro rest
          exact ⟨r',0,run,fun full => absurd room (by omega),fun _ => after.mpr rest.2,fun failed => absurd rfl failed⟩
      · rw [add_of_full r obj (by omega)]
        constructor
        · intro obeys
          obtain ⟨r₁,error,run,-⟩ := obeys
          cases run
        · intro rest
          exact absurd rest.1 room
    | remove obj =>
      obtain ⟨r',run,size,list⟩ := remove_spec r obj fits
      have after := ih r' size
      rw [list] at after
      simp only [Obeys,Fits,true_and,run,Option.some.injEq,exists_eq_left']
      exact after

/-- The registry is the bounded list that its calls describe exactly if no call adds a seventeenth procedure. -/
theorem initial_obeys_iff (null : α) (calls : List (Call α)) : Obeys [] (initial null) calls ↔ Fits [] calls :=
  obeys_iff_fits calls (initial null) (Nat.zero_le 16)

/-- The seventeenth add writes past the table. -/
theorem seventeenth_add : ¬Obeys [] (initial 0) (List.replicate 17 (Call.add 1)) := by
  intro obeys
  have fits := (obeys_iff_fits _ (initial 0) (Nat.zero_le 16)).mp obeys
  simp [Fits,List.replicate] at fits

end Xrossfire.Poll
