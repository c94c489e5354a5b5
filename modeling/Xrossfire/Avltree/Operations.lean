import Mathlib

/-! The intrusive balanced tree of `avltree.h`, function by function.
Nodes live in memory and are rewritten in place; a child pointer that the code
does not store keeps its old value. A NULL dereference and a recursion deeper
than the given fuel both yield `none`. -/
namespace Xrossfire.Avltree

abbrev Addr := Nat

/-- Node memory, one component for each field of `XF_AVLTREE_NODE_T` the header uses. -/
structure Nodes (κ : Type) where
  left : Addr → Option Addr
  right : Addr → Option Addr
  height : Addr → Int
  key : Addr → κ

variable {κ : Type}

namespace Nodes

def setLeft (m : Nodes κ) (a : Addr) (p : Option Addr) : Nodes κ :=
  {m with left := Function.update m.left a p}

def setRight (m : Nodes κ) (a : Addr) (p : Option Addr) : Nodes κ :=
  {m with right := Function.update m.right a p}

def setHeight (m : Nodes κ) (a : Addr) (h : Int) : Nodes κ :=
  {m with height := Function.update m.height a h}

@[simp] theorem setLeft_left (m : Nodes κ) (a : Addr) (p : Option Addr) :
    (m.setLeft a p).left = Function.update m.left a p := rfl
@[simp] theorem setLeft_right (m : Nodes κ) (a : Addr) (p : Option Addr) :
    (m.setLeft a p).right = m.right := rfl
@[simp] theorem setLeft_height (m : Nodes κ) (a : Addr) (p : Option Addr) :
    (m.setLeft a p).height = m.height := rfl
@[simp] theorem setLeft_key (m : Nodes κ) (a : Addr) (p : Option Addr) :
    (m.setLeft a p).key = m.key := rfl
@[simp] theorem setRight_left (m : Nodes κ) (a : Addr) (p : Option Addr) :
    (m.setRight a p).left = m.left := rfl
@[simp] theorem setRight_right (m : Nodes κ) (a : Addr) (p : Option Addr) :
    (m.setRight a p).right = Function.update m.right a p := rfl
@[simp] theorem setRight_height (m : Nodes κ) (a : Addr) (p : Option Addr) :
    (m.setRight a p).height = m.height := rfl
@[simp] theorem setRight_key (m : Nodes κ) (a : Addr) (p : Option Addr) :
    (m.setRight a p).key = m.key := rfl
@[simp] theorem setHeight_left (m : Nodes κ) (a : Addr) (h : Int) :
    (m.setHeight a h).left = m.left := rfl
@[simp] theorem setHeight_right (m : Nodes κ) (a : Addr) (h : Int) :
    (m.setHeight a h).right = m.right := rfl
@[simp] theorem setHeight_height (m : Nodes κ) (a : Addr) (h : Int) :
    (m.setHeight a h).height = Function.update m.height a h := rfl
@[simp] theorem setHeight_key (m : Nodes κ) (a : Addr) (h : Int) :
    (m.setHeight a h).key = m.key := rfl

@[simp] theorem setLeft_same (m : Nodes κ) (a : Addr) : m.setLeft a (m.left a) = m := by
  simp [setLeft]

@[simp] theorem setRight_same (m : Nodes κ) (a : Addr) : m.setRight a (m.right a) = m := by
  simp [setRight]

end Nodes

def getHeight (m : Nodes κ) : Option Addr → Int
  | none => 0
  | some a => m.height a

def max_ (a b : Int) : Int := if a < b then b else a

def refresh (m : Nodes κ) (node : Addr) : Nodes κ :=
  m.setHeight node (max_ (getHeight m (m.left node)) (getHeight m (m.right node)) + 1)

def rotateLeft (m : Nodes κ) (a : Addr) : Option (Nodes κ × Addr) := do
  let c ← m.right a
  let d := m.left c
  let m := m.setLeft c (some a)
  let m := m.setRight a d
  let m := refresh m a
  return (m.setHeight c (m.height a + 1),c)

def rotateRight (m : Nodes κ) (a : Addr) : Option (Nodes κ × Addr) := do
  let b ← m.left a
  let d := m.right b
  let m := m.setRight b (some a)
  let m := m.setLeft a d
  let m := refresh m a
  return (m.setHeight b (m.height a + 1),b)

def rotateLeftRight (m : Nodes κ) (node : Addr) : Option (Nodes κ × Addr) := do
  let left ← m.left node
  let (m,c) ← rotateLeft m left
  rotateRight (m.setLeft node (some c)) node

def rotateRightLeft (m : Nodes κ) (node : Addr) : Option (Nodes κ × Addr) := do
  let right ← m.right node
  let (m,c) ← rotateRight m right
  rotateLeft (m.setRight node (some c)) node

def bias (m : Nodes κ) : Option Addr → Int
  | none => 0
  | some a => getHeight m (m.left a) - getHeight m (m.right a)

/-- The flag is the in-out parameter `*changed`: a rotation leaves it as it was. -/
def balanceLeft (m : Nodes κ) (node : Addr) (changed : Bool) : Option (Nodes κ × Addr × Bool) :=
  let height := m.height node
  let m := refresh m node
  if bias m (some node) ≥ 2 then
    if bias m (m.left node) ≥ 0 then do
      let (m,p) ← rotateRight m node
      return (m,p,changed)
    else do
      let (m,p) ← rotateLeftRight m node
      return (m,p,changed)
  else some (m,node,decide (m.height node ≠ height))

def balanceRight (m : Nodes κ) (node : Addr) (changed : Bool) : Option (Nodes κ × Addr × Bool) :=
  let height := m.height node
  let m := refresh m node
  if bias m (some node) ≤ -2 then
    if bias m (m.right node) ≤ 0 then do
      let (m,p) ← rotateLeft m node
      return (m,p,changed)
    else do
      let (m,p) ← rotateRightLeft m node
      return (m,p,changed)
  else some (m,node,decide (m.height node ≠ height))

/-- Returns the memory, the returned pointer, `*inserted` and `*changed`. -/
def insertNode (compare : κ → κ → Int) :
    Nat → Nodes κ → Option Addr → Addr → Option (Nodes κ × Option Addr × Bool × Bool)
  | 0,_,_,_ => none
  | _ + 1,m,none,newNode => some (m.setHeight newNode 1,some newNode,true,true)
  | fuel + 1,m,some node,newNode =>
    let ret := compare (m.key newNode) (m.key node)
    if ret < 0 then do
      let (m,left,inserted,changed) ← insertNode compare fuel m (m.left node) newNode
      if changed then
        let (m,p,changed) ← balanceLeft (m.setLeft node left) node changed
        return (m,some p,inserted,changed)
      else return (m,some node,inserted,changed)
    else if ret > 0 then do
      let (m,right,inserted,changed) ← insertNode compare fuel m (m.right node) newNode
      -- the right side rebuilds on `*inserted`, the left side on `*changed`
      if inserted then
        let (m,p,changed) ← balanceRight (m.setRight node right) node changed
        return (m,some p,inserted,changed)
      else return (m,some node,inserted,changed)
    else some (m,some node,false,false)

/-- Returns the memory, the returned pointer, `*min` and `*changed`. -/
def popMinNode : Nat → Nodes κ → Addr → Option (Nodes κ × Option Addr × Addr × Bool)
  | 0,_,_ => none
  | fuel + 1,m,node =>
    match m.left node with
    | none => some (m,m.right node,node,true)
    | some l => do
      let (m,left,min,changed) ← popMinNode fuel m l
      if changed then
        let (m,p,changed) ← balanceRight (m.setLeft node left) node changed
        return (m,some p,min,changed)
      else return (m,some node,min,changed)

def popMaxNode : Nat → Nodes κ → Addr → Option (Nodes κ × Option Addr × Addr × Bool)
  | 0,_,_ => none
  | fuel + 1,m,node =>
    match m.right node with
    | none => some (m,m.left node,node,true)
    | some r => do
      let (m,right,max,changed) ← popMaxNode fuel m r
      if changed then
        let (m,p,changed) ← balanceLeft (m.setRight node right) node changed
        return (m,some p,max,changed)
      else return (m,some node,max,changed)

/-- The common end of `remove_node_` and `remove_key_`: the found node is unlinked. -/
def unlink (fuel : Nat) (m : Nodes κ) (node : Addr) : Option (Nodes κ × Option Addr) :=
  match m.left node with
  | none => some (m,m.right node)
  | some l => do
    let (m,left,promotion,changed) ← popMaxNode fuel m l
    let m := m.setLeft promotion left
    let m := m.setRight promotion (m.right node)
    let (m,p,_) ← balanceRight m promotion changed
    return (m,some p)

def removeNode (compare : κ → κ → Int) :
    Nat → Nodes κ → Option Addr → Addr → Option (Nodes κ × Option Addr × Bool)
  | 0,_,_,_ => none
  | _ + 1,m,none,_ => some (m,none,false)
  | fuel + 1,m,some node,delNode =>
    let ret := compare (m.key delNode) (m.key node)
    if ret < 0 then do
      let (m,left,removed) ← removeNode compare fuel m (m.left node) delNode
      let m := m.setLeft node left
      if removed then
        let (m,p,_) ← balanceRight m node false
        return (m,some p,removed)
      else return (m,some node,removed)
    else if ret > 0 then do
      let (m,right,removed) ← removeNode compare fuel m (m.right node) delNode
      let m := m.setRight node right
      if removed then
        let (m,p,_) ← balanceLeft m node false
        return (m,some p,removed)
      else return (m,some node,removed)
    else if node = delNode then do
      let (m,p) ← unlink fuel m node
      return (m,p,true)
    else some (m,some node,false)

/-- Returns the memory, the returned pointer and `*removed`. -/
def removeKey (compare : κ → κ → Int) :
    Nat → Nodes κ → Option Addr → κ → Option (Nodes κ × Option Addr × Option Addr)
  | 0,_,_,_ => none
  | _ + 1,m,none,_ => some (m,none,none)
  | fuel + 1,m,some node,key =>
    let ret := compare key (m.key node)
    if ret < 0 then do
      let (m,left,removed) ← removeKey compare fuel m (m.left node) key
      let m := m.setLeft node left
      if removed.isSome then
        let (m,p,_) ← balanceRight m node false
        return (m,some p,removed)
      else return (m,some node,removed)
    else if ret > 0 then do
      let (m,right,removed) ← removeKey compare fuel m (m.right node) key
      let m := m.setRight node right
      if removed.isSome then
        let (m,p,_) ← balanceLeft m node false
        return (m,some p,removed)
      else return (m,some node,removed)
    else do
      let (m,p) ← unlink fuel m node
      return (m,p,some node)

/-- The loop of `get_min_` from a non-NULL node. -/
def getMinNode : Nat → Nodes κ → Addr → Option Addr
  | 0,_,_ => none
  | fuel + 1,m,node =>
    match m.left node with
    | none => some node
    | some l => getMinNode fuel m l

def getMaxNode : Nat → Nodes κ → Addr → Option Addr
  | 0,_,_ => none
  | fuel + 1,m,node =>
    match m.right node with
    | none => some node
    | some r => getMaxNode fuel m r

/-- Returns the memory, the returned pointer and `*changed`. -/
def removeMinNode : Nat → Nodes κ → Addr → Option (Nodes κ × Option Addr × Bool)
  | 0,_,_ => none
  | fuel + 1,m,node =>
    match m.left node with
    | none => some (m,m.right node,true)
    | some l => do
      let (m,left,changed) ← removeMinNode fuel m l
      if changed then
        let (m,p,changed) ← balanceRight (m.setLeft node left) node changed
        return (m,some p,changed)
      else return (m,some node,changed)

def removeMaxNode : Nat → Nodes κ → Addr → Option (Nodes κ × Option Addr × Bool)
  | 0,_,_ => none
  | fuel + 1,m,node =>
    match m.right node with
    | none => some (m,m.left node,true)
    | some r => do
      let (m,right,changed) ← removeMaxNode fuel m r
      if changed then
        let (m,p,changed) ← balanceLeft (m.setRight node right) node changed
        return (m,some p,changed)
      else return (m,some node,changed)

def countNode : Nat → Nodes κ → Option Addr → Option Int
  | 0,_,_ => none
  | _ + 1,_,none => some 0
  | fuel + 1,m,some node => do
    let left ← countNode fuel m (m.left node)
    let right ← countNode fuel m (m.right node)
    return left + right + 1

/-! ## The operations on a tree -/

/-- `XF_AVLTREE_T` together with the memory its nodes live in. -/
structure Store (κ : Type) where
  nodes : Nodes κ
  root : Option Addr

def init (s : Store κ) : Store κ := {s with root := none}

def insert (compare : κ → κ → Int) (fuel : Nat) (s : Store κ) (node : Addr) :
    Option (Store κ × Bool) := do
  let (m,root,inserted,_) ← insertNode compare fuel s.nodes s.root node
  return (⟨m,root⟩,inserted)

def remove (compare : κ → κ → Int) (fuel : Nat) (s : Store κ) (key : κ) :
    Option (Store κ × Option Addr) := do
  let (m,root,removed) ← removeKey compare fuel s.nodes s.root key
  return (⟨m,root⟩,removed)

/-- `get_min`: `none` for exhausted fuel, `some none` for the NULL of an empty tree. -/
def getMin (fuel : Nat) (s : Store κ) : Option (Option Addr) :=
  match s.root with
  | none => some none
  | some node => (getMinNode fuel s.nodes node).map some

def getMax (fuel : Nat) (s : Store κ) : Option (Option Addr) :=
  match s.root with
  | none => some none
  | some node => (getMaxNode fuel s.nodes node).map some

/-- The code dereferences the root without a test, so an empty tree has no result. -/
def removeMin (fuel : Nat) (s : Store κ) : Option (Store κ) := do
  let node ← s.root
  let (m,root,_) ← removeMinNode fuel s.nodes node
  return ⟨m,root⟩

def removeMax (fuel : Nat) (s : Store κ) : Option (Store κ) := do
  let node ← s.root
  let (m,root,_) ← removeMaxNode fuel s.nodes node
  return ⟨m,root⟩

def popMin (fuel : Nat) (s : Store κ) : Option (Store κ × Option Addr) :=
  match s.root with
  | none => some (s,none)
  | some node => do
    let (m,root,min,_) ← popMinNode fuel s.nodes node
    return (⟨m,root⟩,some min)

def popMax (fuel : Nat) (s : Store κ) : Option (Store κ × Option Addr) :=
  match s.root with
  | none => some (s,none)
  | some node => do
    let (m,root,max,_) ← popMaxNode fuel s.nodes node
    return (⟨m,root⟩,some max)

def count (fuel : Nat) (s : Store κ) : Option Int := countNode fuel s.nodes s.root

end Xrossfire.Avltree
