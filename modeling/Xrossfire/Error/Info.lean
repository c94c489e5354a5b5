import Xrossfire.Library.Fuel

/-! Error infos, from `error.c`: the calls of one thread, and who refers to an info.
The `ref` field is counted up only; nothing in the code reads it. -/
namespace Xrossfire.Error
open Library

abbrev Addr := Nat

/-- A non-NULL `xf_error_info_t *`. -/
inductive Pointer
  | outOfMemory
  | info (a : Addr)
deriving DecidableEq

/-- The fields of `xf_error_info` that the calls work with. -/
structure ErrorInfo where
  ref : Int
  cause : Option Pointer
deriving DecidableEq

abbrev Heap := List (Addr × ErrorInfo)

def Heap.find (heap : Heap) (a : Addr) : Option ErrorInfo := (heap.find? (fun entry => entry.1 = a)).map Prod.snd

def Heap.free (heap : Heap) (a : Addr) : Heap := heap.filter (fun entry => entry.1 ≠ a)

/-- `xf_error_info_add_ref`. A use of freed memory has no result. -/
def addRef (heap : Heap) : Option Pointer → Option Heap
  | none => some heap
  | some .outOfMemory => some heap
  | some (.info a) => do
    let _ ← heap.find a
    return heap.map (fun entry => if entry.1 = a then (a,{entry.2 with ref := entry.2.ref + 1}) else entry)

/-- `xf_error_info_release`. -/
def release : Nat → Heap → Option Pointer → Option Heap
  | _,heap,none => some heap
  | _,heap,some .outOfMemory => some heap
  | 0,_,some (.info _) => none
  | fuel + 1,heap,some (.info a) => do
    let self ← heap.find a
    let heap ← release fuel heap self.cause
    let _ ← heap.find a
    return heap.free a

/-- The memory, the `current` of the thread, and the references its holders have taken and not released. -/
structure State where
  heap : Heap
  current : Option Pointer
  holds : Addr → Nat

/-- `xf_error_set_info`. -/
def setInfo (fuel : Nat) (s : State) (info : Option Pointer) : Option State := do
  let heap ← release fuel s.heap s.current
  let heap ← addRef heap info
  return {s with heap, current := info}

/-- `xf_error_set`; `malloc` is the new memory. -/
def setError (fuel : Nat) (s : State) (cause : Option Pointer) (malloc : Option Addr) : Option State :=
  match malloc with
  | none => setInfo fuel s (some .outOfMemory)
  | some a => setInfo fuel {s with heap := (a,⟨0,cause⟩) :: s.heap} (some (.info a))

inductive Call
  | set (cause : Option Pointer) (malloc : Option Addr)
  | setInfo (info : Option Pointer)
  | get
  | addRef (info : Option Pointer)
  | release (info : Option Pointer)

def pointsTo (p : Option Pointer) (a : Addr) : Nat := if p = some (.info a) then 1 else 0

def perform (fuel : Nat) (s : State) : Call → Option State
  | .set cause malloc => setError fuel s cause malloc
  | .setInfo info => setInfo fuel s info
  | .get => some s
  | .addRef info => do
    let heap ← addRef s.heap info
    return {s with heap, holds := fun a => s.holds a + pointsTo info a}
  | .release info => do
    let heap ← release fuel s.heap info
    return {s with heap, holds := fun a => s.holds a - pointsTo info a}

def start : State := ⟨[],none,fun _ => 0⟩

def run (fuel : Nat) (s : State) (calls : List Call) : Option State := calls.foldlM (perform fuel) s

/-! ## References -/

def Heap.addresses (heap : Heap) : List Addr := heap.map Prod.fst

def Heap.causes (heap : Heap) (a : Addr) : Nat := heap.countP (fun entry => entry.2.cause = some (.info a))

def references (s : State) (a : Addr) : Nat := pointsTo s.current a + s.holds a + s.heap.causes a

def Obeyed (s : State) : Prop := ∀ a, a ∈ s.heap.addresses ↔ 0 < references s a

def Given (s : State) (p : Option Pointer) : Prop := ∀ a, p = some (.info a) → 0 < references s a

/-- Holders release what they took; arguments are referred to; `malloc` returns new memory. -/
def Admissible (s : State) : Call → Prop
  | .set cause malloc => Given s cause ∧ ∀ a, malloc = some a → a ∉ s.heap.addresses
  | .setInfo info => Given s info
  | .get => True
  | .addRef info => Given s info
  | .release info => ∀ a, info = some (.info a) → 0 < s.holds a

inductive Behind (heap : Heap) : Option Pointer → Addr → Prop
  | here (a : Addr) : Behind heap (some (.info a)) a
  | cause {a b : Addr} {self : ErrorInfo} (found : (a,self) ∈ heap) (rest : Behind heap self.cause b) :
      Behind heap (some (.info a)) b

def Sole (s : State) (p : Option Pointer) : Prop := ∀ a, Behind s.heap p a → references s a = 1

def Apart (s : State) (p : Option Pointer) : Prop := ∀ a, p = some (.info a) → ¬ Behind s.heap s.current a

/-- The calls the code serves: what they release has no other reference, and what they are given is not
among it. -/
def Served (s : State) : Call → Prop
  | .set cause malloc => Sole s s.current ∧ (malloc ≠ none → Apart s cause)
  | .setInfo info => Sole s s.current ∧ Apart s info
  | .get => True
  | .addRef _ => True
  | .release info => Sole s info

def Leads (calls : List Call) (s : State) : Prop := ∃ bound, ∀ fuel, bound ≤ fuel → run fuel start calls = some s

structure Ordered (heap : Heap) : Prop where
  distinct : heap.addresses.Nodup
  earlier : ∀ before a self after, heap = before ++ (a,self) :: after → ∀ b, self.cause = some (.info b) →
    b ∈ Heap.addresses after

section Heaps
variable {heap before after : Heap} {a : Addr}

theorem mem_addresses : a ∈ heap.addresses ↔ ∃ self, (a,self) ∈ heap := by
  simp [Heap.addresses]

theorem find_of_mem {self : ErrorInfo} (distinct : heap.addresses.Nodup) (member : (a,self) ∈ heap) :
    heap.find a = some self := by
  induction heap with
  | nil => cases member
  | cons entry heap ih =>
    rw [Heap.addresses,List.map_cons,List.nodup_cons] at distinct
    rcases List.mem_cons.mp member with rfl | inside
    · simp [Heap.find]
    · have other : entry.1 ≠ a := fun same => distinct.1 (same ▸ List.mem_map_of_mem inside)
      have found := ih distinct.2 inside
      simp only [Heap.find,List.find?_cons,decide_eq_false other] at found ⊢
      exact found

def Heap.without (heap : Heap) (gone : List Addr) : Heap := heap.filter (fun entry => entry.1 ∉ gone)

theorem without_nil (heap : Heap) : heap.without [] = heap := by
  simp [Heap.without]

theorem without_free (heap : Heap) (gone : List Addr) (a : Addr) : (heap.without gone).free a =
    heap.without (a :: gone) := by
  simp only [Heap.without,Heap.free,List.filter_filter,List.mem_cons,not_or]
  congr 1
  funext entry
  simp

theorem mem_without {entry : Addr × ErrorInfo} {gone : List Addr} :
    entry ∈ heap.without gone ↔ entry ∈ heap ∧ entry.1 ∉ gone := by
  simp [Heap.without]

theorem addresses_without {gone : List Addr} : a ∈ (heap.without gone).addresses ↔ a ∈ heap.addresses ∧ a ∉ gone := by
  simp only [mem_addresses,mem_without]
  exact ⟨fun ⟨self,member,out⟩ => ⟨⟨self,member⟩,out⟩,fun ⟨⟨self,member⟩,out⟩ => ⟨self,member,out⟩⟩

theorem without_distinct (distinct : heap.addresses.Nodup) (gone : List Addr) : (heap.without gone).addresses.Nodup :=
  distinct.sublist (List.filter_sublist.map Prod.fst)

theorem causes_pos {b : Addr} : 0 < heap.causes b ↔ ∃ a self, (a,self) ∈ heap ∧ self.cause = some (.info b) := by
  rw [Heap.causes,List.countP_pos_iff]
  constructor
  · rintro ⟨⟨a,self⟩,member,cause⟩
    exact ⟨a,self,member,of_decide_eq_true cause⟩
  · rintro ⟨a,self,member,cause⟩
    exact ⟨(a,self),member,decide_eq_true cause⟩

/-- Of two infos with one cause, one of which goes and one of which stays. -/
theorem causes_two {b : Addr} {gone : List Addr} {goes stays : Addr × ErrorInfo} (member : goes ∈ heap)
    (out : goes.1 ∈ gone) (cause : goes.2.cause = some (.info b)) (member' : stays ∈ heap) (stay : stays.1 ∉ gone)
    (cause' : stays.2.cause = some (.info b)) : 2 ≤ heap.causes b := by
  have split := List.countP_eq_countP_filter_add heap (fun entry => decide (entry.2.cause = some (.info b)))
    (fun entry => decide (entry.1 ∈ gone))
  have first : 0 < (heap.filter (fun entry => decide (entry.1 ∈ gone))).countP
      (fun entry => decide (entry.2.cause = some (.info b))) :=
    List.countP_pos_iff.mpr ⟨goes,List.mem_filter.mpr ⟨member,decide_eq_true out⟩,decide_eq_true cause⟩
  have second : 0 < (heap.filter (fun entry => !decide (entry.1 ∈ gone))).countP
      (fun entry => decide (entry.2.cause = some (.info b))) :=
    List.countP_pos_iff.mpr ⟨stays,List.mem_filter.mpr ⟨member',by simpa using stay⟩,decide_eq_true cause'⟩
  rw [Heap.causes,split]
  omega

theorem Ordered.without (ordered : Ordered heap) (gone : List Addr)
    (closed : ∀ a self, (a,self) ∈ heap → a ∉ gone → ∀ b, self.cause = some (.info b) → b ∉ gone) :
    Ordered (heap.without gone) := by
  refine ⟨without_distinct ordered.distinct gone,?_⟩
  intro before a self after same b cause
  obtain ⟨before',after',rfl,-,inside⟩ := List.filter_eq_append_iff.mp same
  obtain ⟨skipped,rest,rfl,none,stays,rfl⟩ := List.filter_eq_cons_iff.mp inside
  have out : a ∉ gone := by simpa using stays
  have later := ordered.earlier (before' ++ skipped) a self rest (by simp) b cause
  have stay := closed a self (by simp) out b cause
  exact addresses_without.mpr ⟨later,stay⟩

end Heaps

section Releases
variable {heap : Heap}

/-- What a release leads to goes, and nothing else. -/
theorem release_without (after before : Heap) (ordered : Ordered (before ++ after)) (p : Option Pointer)
    (inside : ∀ a, p = some (.info a) → a ∈ Heap.addresses after) :
    ∃ gone, (∀ b, b ∈ gone ↔ Behind (before ++ after) p b) ∧ (∀ b ∈ gone, b ∈ Heap.addresses after) ∧
      ∀ fuel, after.length ≤ fuel → release fuel (before ++ after) p = some ((before ++ after).without gone) := by
  induction after generalizing before p with
  | nil =>
    have other : ∀ a, p ≠ some (.info a) := fun a same => absurd (inside a same) List.not_mem_nil
    refine ⟨[],?_,fun b member => absurd member List.not_mem_nil,?_⟩
    · intro b
      refine iff_of_false List.not_mem_nil ?_
      intro behind
      cases behind with
      | here => exact other _ rfl
      | cause => exact other _ rfl
    · intro fuel _
      rw [without_nil]
      match p with
      | none => cases fuel <;> rfl
      | some .outOfMemory => cases fuel <;> rfl
      | some (.info a) => exact absurd rfl (other a)
  | cons entry after ih =>
    obtain ⟨c,self⟩ := entry
    by_cases here : p = some (.info c)
    · subst here
      have shift : before ++ (c,self) :: after = before ++ [(c,self)] ++ after := by simp
      have member : (c,self) ∈ before ++ (c,self) :: after := by simp
      have later := ordered.earlier before c self after rfl
      have out : c ∉ Heap.addresses after := by
        have distinct := ordered.distinct
        simp only [Heap.addresses,List.map_append,List.map_cons,List.nodup_append,List.nodup_cons] at distinct
        exact distinct.2.1.1
      have found := find_of_mem ordered.distinct member
      obtain ⟨gone,behind,sub,runs⟩ := ih (before ++ [(c,self)]) (shift ▸ ordered) self.cause later
      rw [← shift] at behind runs
      have stays : c ∉ gone := fun inside => out (sub c inside)
      refine ⟨c :: gone,?_,?_,?_⟩
      · intro b
        rw [List.mem_cons,behind]
        constructor
        · rintro (rfl | rest)
          · exact .here b
          · exact .cause member rest
        · intro reached
          cases reached with
          | here => exact Or.inl rfl
          | cause member' rest =>
            cases (find_of_mem ordered.distinct member').symm.trans found
            exact Or.inr rest
      · intro b inside'
        rcases List.mem_cons.mp inside' with rfl | inside'
        · exact mem_addresses.mpr ⟨self,List.mem_cons_self⟩
        · obtain ⟨other,present⟩ := mem_addresses.mp (sub b inside')
          exact mem_addresses.mpr ⟨other,List.mem_cons_of_mem _ present⟩
      · intro fuel enough
        obtain ⟨fuel,rfl⟩ := Nat.exists_eq_add_of_le' (Nat.le_trans (Nat.le_add_left 1 after.length) enough)
        have again := find_of_mem (without_distinct ordered.distinct gone) (mem_without.mpr ⟨member,stays⟩)
        rw [release,found]
        simp only [Option.bind_eq_bind,Option.bind_some,runs fuel (by simpa using enough),again,without_free]
        rfl
    · have shift : before ++ (c,self) :: after = before ++ [(c,self)] ++ after := by simp
      have below : ∀ a, p = some (.info a) → a ∈ Heap.addresses after := by
        intro a same
        obtain ⟨other,present⟩ := mem_addresses.mp (inside a same)
        rcases List.mem_cons.mp present with first | rest
        · cases first
          exact absurd same here
        · exact mem_addresses.mpr ⟨other,rest⟩
      obtain ⟨gone,behind,sub,runs⟩ := ih (before ++ [(c,self)]) (shift ▸ ordered) p below
      rw [← shift] at behind runs
      refine ⟨gone,behind,?_,fun fuel enough => runs fuel (Nat.le_of_succ_le enough)⟩
      intro b inside'
      obtain ⟨other,present⟩ := mem_addresses.mp (sub b inside')
      exact mem_addresses.mpr ⟨other,List.mem_cons_of_mem _ present⟩

/-- Where a pointer leads to: its target, or the cause of an info it leads to. -/
theorem behind_cases {p : Option Pointer} {b : Addr} (behind : Behind heap p b) : p = some (.info b) ∨
    ∃ a self, (a,self) ∈ heap ∧ self.cause = some (.info b) ∧ Behind heap p a := by
  induction behind with
  | here a => exact Or.inl rfl
  | @cause a b self found rest ih =>
    right
    rcases ih with cause | ⟨c,other,member,cause,reached⟩
    · exact ⟨a,self,found,cause,.here a⟩
    · exact ⟨c,other,member,cause,.cause found reached⟩

theorem Behind.snoc {p : Option Pointer} {a b : Addr} {self : ErrorInfo} (behind : Behind heap p a)
    (found : (a,self) ∈ heap) (cause : self.cause = some (.info b)) : Behind heap p b := by
  induction behind with
  | here a => exact .cause found (cause ▸ .here b)
  | cause member _ ih => exact .cause member (ih found)

/-- A release of the only reference: `own` are the references that are not causes. -/
theorem release_counted (own : Addr → Nat) (ordered : Ordered heap) (p : Option Pointer)
    (live : ∀ a, a ∈ heap.addresses ↔ 0 < own a + heap.causes a) (owned : ∀ a, p = some (.info a) → 0 < own a)
    (sole : ∀ b, Behind heap p b → own b + heap.causes b = 1) :
    ∃ heap', (∀ fuel, heap.length ≤ fuel → release fuel heap p = some heap') ∧ Ordered heap' ∧
      (∀ a, a ∈ heap'.addresses ↔ 0 < own a - pointsTo p a + heap'.causes a) ∧
      ∀ a, a ∈ heap'.addresses ↔ a ∈ heap.addresses ∧ ¬ Behind heap p a := by
  have inside : ∀ a, p = some (.info a) → a ∈ Heap.addresses heap := by
    intro a same
    have positive := owned a same
    exact (live a).mpr (by omega)
  obtain ⟨gone,behind,sub,runs⟩ := release_without heap [] ordered p inside
  rw [List.nil_append] at behind runs
  have closed : ∀ a self, (a,self) ∈ heap → a ∉ gone → ∀ b, self.cause = some (.info b) → b ∉ gone := by
    intro a self member out b cause present
    have reached := (behind b).mp present
    have one := sole b reached
    have positive := causes_pos.mpr ⟨a,self,member,cause⟩
    -- `b` goes for another reference than this cause
    rcases behind_cases reached with same | ⟨c,other,member',cause',reached'⟩
    · have held := owned b same
      omega
    · have two := @causes_two heap b gone (c,other) (a,self) member' ((behind c).mpr reached') cause' member
        out cause
      omega
  refine ⟨heap.without gone,runs,ordered.without gone closed,?_,?_⟩
  · intro a
    rw [addresses_without]
    constructor
    · rintro ⟨present,out⟩
      have other : pointsTo p a = 0 := by
        refine if_neg (fun same => out ((behind a).mpr ?_))
        rw [same]
        exact .here a
      have positive := (live a).mp present
      rw [other]
      rcases Nat.eq_zero_or_pos (heap.causes a) with none | some
      · omega
      · obtain ⟨c,self,member,cause⟩ := causes_pos.mp some
        have stays : c ∉ gone := fun goes => out ((behind a).mpr (((behind c).mp goes).snoc member cause))
        have kept := causes_pos.mpr ⟨c,self,mem_without.mpr ⟨member,stays⟩,cause⟩
        omega
    · intro positive
      have fewer : (heap.without gone).causes a ≤ heap.causes a := List.filter_sublist.countP_le
      refine ⟨(live a).mpr (by omega),?_⟩
      intro present
      have reached := (behind a).mp present
      have one := sole a reached
      rcases behind_cases reached with same | ⟨c,self,member,cause,reached'⟩
      · have held := owned a same
        have here : pointsTo p a = 1 := if_pos same
        omega
      · have some := causes_pos.mpr ⟨c,self,member,cause⟩
        have kept : 0 < (heap.without gone).causes a := by omega
        obtain ⟨d,other,member',cause'⟩ := causes_pos.mp kept
        obtain ⟨member',stays⟩ := mem_without.mp member'
        exact closed d other member' stays a cause' present
  · intro a
    rw [addresses_without,behind]

/-- Another reference to an info that is there. -/
theorem addRef_kept (ordered : Ordered heap) (q : Option Pointer)
    (present : ∀ a, q = some (.info a) → a ∈ heap.addresses) :
    ∃ heap', addRef heap q = some heap' ∧ heap'.addresses = heap.addresses ∧ (∀ a, heap'.causes a = heap.causes a) ∧
      Ordered heap' := by
  match q with
  | none => exact ⟨heap,rfl,rfl,fun _ => rfl,ordered⟩
  | some .outOfMemory => exact ⟨heap,rfl,rfl,fun _ => rfl,ordered⟩
  | some (.info c) =>
    let count (entry : Addr × ErrorInfo) : Addr × ErrorInfo :=
      if entry.1 = c then (c,{entry.2 with ref := entry.2.ref + 1}) else entry
    have address (entry : Addr × ErrorInfo) : (count entry).1 = entry.1 := by
      simp only [count]
      split
      · next same => exact same.symm
      · rfl
    have cause (entry : Addr × ErrorInfo) : (count entry).2.cause = entry.2.cause := by
      simp only [count]
      split <;> rfl
    have addresses (heap : Heap) : Heap.addresses (heap.map count) = heap.addresses := by
      rw [Heap.addresses,List.map_map]
      exact List.map_congr_left (fun entry _ => address entry)
    obtain ⟨self,member⟩ := mem_addresses.mp (present c rfl)
    have found := find_of_mem ordered.distinct member
    refine ⟨heap.map count,by rw [addRef,found]; rfl,addresses heap,?_,?_⟩
    · intro a
      rw [Heap.causes,List.countP_map]
      refine List.countP_congr (fun entry _ => ?_)
      simp [cause]
    · refine ⟨by rw [addresses]; exact ordered.distinct,?_⟩
      intro before a self after same b caused
      obtain ⟨before',rest,rfl,-,split⟩ := List.map_eq_append_iff.mp same
      obtain ⟨entry,after',rfl,here,rfl⟩ := List.map_eq_cons_iff.mp split
      have caused' : entry.2.cause = some (.info b) := by
        rw [← cause,here]
        exact caused
      rw [addresses]
      exact ordered.earlier before' entry.1 entry.2 after' rfl b caused'

end Releases

structure Counted (s : State) : Prop where
  obeyed : Obeyed s
  ordered : Ordered s.heap

section Calls
variable {s : State}

/-- The current slot changes its info for one that is not lost with it. -/
theorem setInfo_counted (q : Option Pointer) (ordered : Ordered s.heap)
    (live : ∀ a, a ∈ s.heap.addresses ↔ 0 < references s a + pointsTo q a) (sole : Sole s s.current)
    (apart : Apart s q) : ∃ s', (∀ fuel, s.heap.length ≤ fuel → setInfo fuel s q = some s') ∧ Counted s' := by
  have other (b : Addr) (behind : Behind s.heap s.current b) : pointsTo q b = 0 :=
    if_neg (fun same => apart b same behind)
  obtain ⟨heap₁,released,ordered₁,live₁,-⟩ := release_counted
    (fun a => pointsTo s.current a + s.holds a + pointsTo q a) ordered s.current
    (fun a => by rw [live a,references]; omega)
    (fun a same => by simp [pointsTo,same])
    (fun b behind => by
      have one := sole b behind
      have none := other b behind
      simp only [references] at one
      omega)
  have present : ∀ a, q = some (.info a) → a ∈ heap₁.addresses := by
    intro a same
    have here : pointsTo q a = 1 := if_pos same
    exact (live₁ a).mpr (by omega)
  obtain ⟨heap₂,added,addresses,causes,kept⟩ := addRef_kept ordered₁ q present
  refine ⟨{s with heap := heap₂, current := q},?_,?_,kept⟩
  · intro fuel enough
    simp only [setInfo,released fuel enough,Option.bind_eq_bind,Option.bind_some,added]
    rfl
  · intro a
    simp only [references]
    rw [addresses,live₁ a,causes]
    omega

theorem addresses_cons {n : Addr} {self : ErrorInfo} {heap : Heap} {a : Addr} :
    a ∈ Heap.addresses ((n,self) :: heap) ↔ a = n ∨ a ∈ heap.addresses := by
  simp [Heap.addresses]

/-- A new info leads nowhere from elsewhere. -/
theorem behind_new {heap : Heap} {n : Addr} {self : ErrorInfo} {p : Option Pointer} {b : Addr}
    (unreferred : heap.causes n = 0) (elsewhere : p ≠ some (.info n))
    (behind : Behind ((n,self) :: heap) p b) : Behind heap p b := by
  induction behind with
  | here a => exact .here a
  | @cause a b other found rest ih =>
    rcases List.mem_cons.mp found with first | member
    · cases first
      exact absurd rfl elsewhere
    · refine .cause member (ih ?_)
      intro same
      have positive := causes_pos.mpr ⟨a,other,member,same⟩
      omega

theorem given_pos {p : Option Pointer} (given : Given s p) (a : Addr) :
    0 < references s a + pointsTo p a ↔ 0 < references s a := by
  by_cases same : p = some (.info a)
  · have positive := given a same
    omega
  · rw [pointsTo,if_neg same,Nat.add_zero]

/-- A new info refers to its cause, and takes the place of the current one. -/
theorem setError_counted (counted : Counted s) {cause : Option Pointer} {n : Addr} (caused : Given s cause)
    (new : n ∉ s.heap.addresses) (sole : Sole s s.current) (apart : Apart s cause) :
    ∃ s', (∀ fuel, s.heap.length < fuel → setError fuel s cause (some n) = some s') ∧ Counted s' := by
  obtain ⟨obeyed,ordered⟩ := counted
  have unreferred : references s n = 0 := Nat.eq_zero_of_not_pos (fun positive => new ((obeyed n).mpr positive))
  have elsewhere : s.current ≠ some (.info n) := by
    intro same
    simp [references,pointsTo,same] at unreferred
  have causes : s.heap.causes n = 0 := by
    simp only [references] at unreferred
    omega
  let s₁ : State := {s with heap := (n,⟨0,cause⟩) :: s.heap}
  have count (a : Addr) : references s₁ a = references s a + pointsTo cause a := by
    simp only [references,s₁,Heap.causes,List.countP_cons,pointsTo,decide_eq_true_eq]
    omega
  have back {b : Addr} (behind : Behind s₁.heap s.current b) : Behind s.heap s.current b :=
    behind_new causes elsewhere behind
  have ordered₁ : Ordered s₁.heap := by
    refine ⟨List.nodup_cons.mpr ⟨new,ordered.distinct⟩,?_⟩
    intro before a self after same b caused'
    cases before with
    | nil =>
      cases same
      exact (obeyed b).mpr (caused b caused')
    | cons entry before => exact ordered.earlier before a self after (List.cons.inj same).2 b caused'
  have live (a : Addr) : a ∈ s₁.heap.addresses ↔ 0 < references s₁ a + pointsTo (some (.info n)) a := by
    rw [addresses_cons,count a,obeyed a,← given_pos caused a]
    by_cases same : a = n
    · exact iff_of_true (Or.inl same) (by simp [pointsTo,same])
    · have none : pointsTo (some (.info n)) a = 0 := if_neg (fun other => same (by cases other; rfl))
      rw [none,Nat.add_zero,or_iff_right same]
  obtain ⟨s',runs,counted⟩ := @setInfo_counted s₁ (some (.info n)) ordered₁ live
    (by
      intro b behind
      have reached := back behind
      have none : pointsTo cause b = 0 := if_neg (fun same => apart b same reached)
      rw [count b,none,sole b reached])
    (by
      intro a same behind
      cases same
      have one := sole n (back behind)
      omega)
  exact ⟨s',fun fuel enough => runs fuel enough,counted⟩

/-- A served call has its result, and leaves each info as long as something refers to it. -/
theorem perform_counted (counted : Counted s) (call : Call) (admissible : Admissible s call) (served : Served s call) :
    ∃ s', (∀ fuel, s.heap.length < fuel → perform fuel s call = some s') ∧ Counted s' := by
  obtain ⟨obeyed,ordered⟩ := counted
  cases call with
  | get => exact ⟨s,fun _ _ => rfl,obeyed,ordered⟩
  | setInfo info =>
    obtain ⟨sole,apart⟩ := served
    obtain ⟨s',runs,counted⟩ := setInfo_counted info ordered (fun a => (obeyed a).trans (given_pos admissible a).symm)
      sole apart
    exact ⟨s',fun fuel enough => runs fuel (Nat.le_of_lt enough),counted⟩
  | addRef info =>
    obtain ⟨heap',added,addresses,causes,kept⟩ := addRef_kept ordered info
      (fun a same => (obeyed a).mpr (admissible a same))
    refine ⟨{s with heap := heap', holds := fun a => s.holds a + pointsTo info a},?_,?_,kept⟩
    · intro fuel _
      simp only [perform,added]
      rfl
    · intro a
      simp only [references]
      rw [addresses,obeyed a,← given_pos admissible a,causes,references]
      omega
  | release info =>
    obtain ⟨heap',released,ordered',live',-⟩ := release_counted (fun a => pointsTo s.current a + s.holds a) ordered info
      obeyed (fun a same => by have held := admissible a same; omega) served
    refine ⟨{s with heap := heap', holds := fun a => s.holds a - pointsTo info a},?_,?_,ordered'⟩
    · intro fuel enough
      simp only [perform,released fuel (Nat.le_of_lt enough)]
      rfl
    · intro a
      have held : pointsTo info a ≤ s.holds a := by
        unfold pointsTo
        split
        · next same => exact admissible a same
        · exact Nat.zero_le _
      simp only [references]
      rw [live' a]
      omega
  | set cause malloc =>
    obtain ⟨sole,apart⟩ := served
    obtain ⟨caused,fresh⟩ := admissible
    cases malloc with
    | none =>
      obtain ⟨s',runs,counted⟩ := setInfo_counted (some .outOfMemory) ordered
        (fun a => by simp [obeyed a,pointsTo]) sole
        (fun a same => by cases same)
      exact ⟨s',fun fuel enough => runs fuel (Nat.le_of_lt enough),counted⟩
    | some n =>
      exact setError_counted ⟨obeyed,ordered⟩ caused (fresh n rfl) sole (apart (Option.some_ne_none n))

theorem start_counted : Counted start := by
  refine ⟨fun a => by simp [start,Heap.addresses,references,pointsTo,Heap.causes],List.nodup_nil,?_⟩
  intro before a self after same
  simp [start] at same

theorem leads_snoc {calls : List Call} {call : Call} {s' : State} (leads : Leads calls s)
    (step : ∀ fuel, s.heap.length < fuel → perform fuel s call = some s') : Leads (calls ++ [call]) s' := by
  obtain ⟨bound,runs⟩ := leads
  refine ⟨max bound (s.heap.length + 1),?_⟩
  intro fuel enough
  have first : run fuel start calls = some s := runs fuel (Nat.le_trans (Nat.le_max_left _ _) enough)
  have second := step fuel (Nat.le_trans (Nat.le_max_right _ _) enough)
  simp only [run] at first ⊢
  simp [List.foldlM_append,first,second]

/-- As long as every release is of the last reference, infos are there as long as something refers to them. -/
theorem calls_obeyed (calls : List Call) (conform : ∀ before call after, calls = before ++ call :: after →
    ∀ s, Leads before s → Admissible s call ∧ Served s call) : ∃ s, Leads calls s ∧ Obeyed s := by
  have counted : ∃ s, Leads calls s ∧ Counted s := by
    induction calls using List.reverseRecOn with
    | nil => exact ⟨start,⟨0,fun _ _ => rfl⟩,start_counted⟩
    | append_singleton calls call ih =>
      obtain ⟨s,leads,counted⟩ := ih (fun before call' after same => conform before call' (after ++ [call])
        (by rw [same]; simp))
      obtain ⟨admissible,served⟩ := conform calls call [] rfl s leads
      obtain ⟨s',step,counted'⟩ := perform_counted counted call admissible served
      exact ⟨s',leads_snoc leads step,counted'⟩
  obtain ⟨s,leads,counted⟩ := counted
  exact ⟨s,leads,counted.obeyed⟩

theorem leads_unique {calls : List Call} {s' : State} (leads : Leads calls s) (leads' : Leads calls s') : s = s' := by
  obtain ⟨bound,runs⟩ := leads
  obtain ⟨bound',runs'⟩ := leads'
  exact Option.some.inj ((runs _ (Nat.le_max_left bound bound')).symm.trans (runs' _ (Nat.le_max_right _ _)))

theorem leads_start : Leads [] start := ⟨0,fun _ _ => rfl⟩

def once : State := ⟨[(1,⟨1,none⟩)],some (.info 1),fun _ => 0⟩

theorem leads_once : Leads [.set none (some 1)] once := ⟨0,fun fuel _ => by cases fuel <;> rfl⟩

inductive Conforms : State → List Call → Prop
  | nil (s : State) : Conforms s []
  | cons {s s' : State} {call : Call} {calls : List Call} (admissible : Admissible s call) (served : Served s call)
      (step : ∀ fuel, s.heap.length < fuel → perform fuel s call = some s') (rest : Conforms s' calls) :
      Conforms s (call :: calls)

theorem Conforms.call {earlier calls : List Call} (conforms : Conforms s calls) (leads : Leads earlier s)
    (before : List Call) (call : Call) (after : List Call) (same : calls = before ++ call :: after) (s' : State)
    (there : Leads (earlier ++ before) s') : Admissible s' call ∧ Served s' call := by
  induction conforms generalizing earlier before with
  | nil => simp at same
  | cons admissible served step rest ih =>
    cases before with
    | nil =>
      cases same
      rw [List.append_nil] at there
      cases leads_unique leads there
      exact ⟨admissible,served⟩
    | cons first before =>
      cases same
      refine ih (leads_snoc leads step) before rfl ?_
      rwa [List.append_assoc]

/-- An error with the static info for its cause is replaced by one that a holder takes. -/
def replaced : List Call :=
  [.set (some .outOfMemory) (some 1),.set none (some 2),.addRef (some (.info 2)),.get]

theorem replaced_conforms : Conforms start replaced := by
  have caused : Sole ⟨[(1,⟨1,some .outOfMemory⟩)],some (.info 1),fun _ => 0⟩ (some (.info 1)) := by
    intro a behind
    rcases behind_cases behind with here | ⟨b,self,member,cause,-⟩
    · cases here
      decide
    · cases List.mem_singleton.mp member
      cases cause
  have taken : Conforms ⟨[(2,⟨2,none⟩)],some (.info 2),fun a => 0 + pointsTo (some (.info 2)) a⟩ [.get] :=
    .cons trivial trivial (fun _ _ => rfl) (.nil _)
  have second : Conforms ⟨[(2,⟨1,none⟩)],some (.info 2),fun _ => 0⟩ [.addRef (some (.info 2)),.get] := by
    refine .cons ?_ trivial (fun fuel _ => by cases fuel <;> rfl) taken
    intro a here
    cases here
    decide
  have first : Conforms ⟨[(1,⟨1,some .outOfMemory⟩)],some (.info 1),fun _ => 0⟩
      [.set none (some 2),.addRef (some (.info 2)),.get] := by
    refine .cons ⟨fun a none => (by cases none),?_⟩ ⟨caused,fun _ a none => by cases none⟩ ?_ second
    · intro a new
      cases new
      decide
    · intro fuel enough
      obtain ⟨fuel,rfl⟩ := Nat.exists_eq_add_of_le' enough
      cases fuel <;> rfl
  exact .cons ⟨fun a static => (by cases static),fun a _ => List.not_mem_nil⟩
    ⟨fun a behind => (by cases behind),fun _ a static => by cases static⟩ (fun fuel _ => by cases fuel <;> rfl) first

theorem calls_obeyed_replaced : ∃ s, Leads replaced s ∧ Obeyed s :=
  calls_obeyed replaced (replaced_conforms.call leads_start)

def held : List Call := [.set none (some 1),.addRef (some (.info 1)),.release (some (.info 1))]

theorem leads_taken : Leads [.set none (some 1),.addRef (some (.info 1))]
    ⟨[(1,⟨2,none⟩)],some (.info 1),fun a => 0 + pointsTo (some (.info 1)) a⟩ :=
  ⟨0,fun fuel _ => by cases fuel <;> rfl⟩

theorem freed_early : (∀ before call after, held = before ++ call :: after → ∀ s, Leads before s → Admissible s call) ∧
    ∃ s, Leads held s ∧ ¬ Obeyed s := by
  constructor
  · intro before call after same s leads
    match before with
    | [] =>
      cases same
      cases leads_unique leads_start leads
      exact ⟨fun a none => (by cases none),fun a _ => List.not_mem_nil⟩
    | [_] =>
      cases same
      cases leads_unique leads_once leads
      intro a here
      cases here
      decide
    | [_,_] =>
      cases same
      cases leads_unique leads_taken leads
      intro a here
      cases here
      decide
    | _ :: _ :: _ :: before => simp [held] at same
  · refine ⟨⟨[],some (.info 1),fun a => 0 + pointsTo (some (.info 1)) a - pointsTo (some (.info 1)) a⟩,?_,?_⟩
    · refine ⟨1,?_⟩
      intro fuel enough
      obtain ⟨fuel,rfl⟩ := Nat.exists_eq_add_of_le' enough
      cases fuel <;> rfl
    · intro obeyed
      have present := (obeyed 1).mpr (by decide)
      cases present

end Calls

end Xrossfire.Error
