import Crossbow.Kernel.Machine

/-! Epoch-based reclamation. A live `allocator` object is a guard and counts in the
active counter; the destructor of a guard rotates three counters and three
lists when nobody is left in the two older ones, and deletes the oldest list.
Every atomic access is one step. -/
namespace Crossbow.Allocator
open Kernel

def numLists : Nat := 64

/-- `node::next`: the mark `0x1` of a node nobody has freed, null, or a node. -/
inductive Link (Node : Type) where
  | mark
  | null
  | node (target : Node)
  deriving DecidableEq, Repr

def Link.ofHead {Node : Type} : Option Node → Link Node
  | none => .null
  | some target => .node target

/-- The six global pointers, as numbers of counters and of lists, and the number of
the list that `new lists()` creates next. -/
structure Globals where
  activeCnt : Nat
  oldCnt : Nat
  oldestCnt : Nat
  activeList : Nat
  oldList : Nat
  oldestList : Nat
  nextList : Nat
  deriving DecidableEq, Repr

/-- A live `allocator` object: its `cnt_`, the thread it belongs to and the epoch in
which it was created. -/
structure Guard (Thread : Type) where
  id : Nat
  thread : Thread
  cnt : Nat
  epoch : Nat
  deriving DecidableEq, Repr

/-- The body of `~allocator` behind the successful exchange. -/
inductive Rotation where
  | loadActive
  | loadOldest (activecnt : Nat)
  | storeActive (activecnt value : Nat)
  | loadOld (activecnt : Nat)
  | storeOldest (activecnt value : Nat)
  | storeOld (activecnt : Nat)
  | loadOldestList
  | loadOldList (todelete : Nat)
  | storeOldestList (todelete value : Nat)
  | loadActiveList (todelete : Nat)
  | storeOldList (todelete value : Nat)
  | storeActiveList (todelete : Nat)
  | loadCnt (todelete : Nat)
  | increment (todelete cnt : Nat)
  deriving DecidableEq, Repr

/-- A thread inside the constructor (`enter`), the destructor (`leave`, `rotate` and
the deletion of the list, `destroy`) or `free` (`own` and `append`). -/
inductive Pc (Node : Type) where
  | idle
  | enterLoad
  | enterRead (cnt : Nat)
  | enterSwap (cnt mycnt : Nat)
  | leaveOld
  | leaveOldest (oldcnt : Nat)
  | leaveActive (oldcnt oldestcnt : Nat)
  | leaveValue (oldcnt oldestcnt ac : Nat)
  | leaveCheckOldest (oldcnt oldestcnt ac oac : Nat)
  | leaveCheckOld (oldcnt ac oac : Nat)
  | leaveSwap (ac oac : Nat)
  | rotate (rotation : Rotation)
  | destroyHead (list remaining : Nat)
  | destroyWalk (list remaining : Nat) (current : Option Node) (stack : List Node)
  | ownLoad (list : Nat) (node : Node) (bucket : Fin numLists)
  | ownSwap (list : Nat) (node : Node) (bucket : Fin numLists)
  | appendHead (list : Nat) (node : Node) (bucket : Fin numLists)
  | appendNext (list : Nat) (node : Node) (bucket : Fin numLists) (head : Option Node)
  | appendSwap (list : Nat) (node : Node) (bucket : Fin numLists) (head : Option Node)
  deriving DecidableEq, Repr

/-- No step reads the history: the epoch counts the successful exchanges of
`~allocator`, `rotor` is the thread that is rotating, `home` the list a node
was freed into and `destroyed` the nodes whose destructor ran. -/
structure State (Thread Node : Type) where
  count : Nat → Nat
  globals : Globals
  next : Node → Link Node
  head : Nat → Nat → Option Node
  pc : Thread → Pc Node
  guards : List (Guard Thread)
  nextGuard : Nat
  epoch : Nat
  rotor : Option Thread
  home : Node → Option Nat
  destroyed : List Node

inductive Label (Thread Node : Type) where
  | enter (thread : Thread)
  | leave (thread : Thread) (guard : Guard Thread)
  | free (thread : Thread) (node : Node) (bucket : Fin numLists)
  | step (thread : Thread)
  deriving DecidableEq, Repr

variable {Thread Node : Type} [DecidableEq Thread] [DecidableEq Node]

def State.goto (state : State Thread Node) (thread : Thread) (pc : Pc Node) :
    State Thread Node :=
  { state with pc := Function.update state.pc thread pc }

def State.setCount (state : State Thread Node) (cnt value : Nat) : State Thread Node :=
  { state with count := Function.update state.count cnt value }

/-- The rotation on the globals alone: the pointers after the step and the next
access. The last one adds to a counter and is not part of it. -/
def Rotation.advance (globals : Globals) : Rotation → Globals × Rotation
  | .loadActive => (globals, .loadOldest globals.activeCnt)
  | .loadOldest activecnt => (globals, .storeActive activecnt globals.oldestCnt)
  | .storeActive activecnt value => ({ globals with activeCnt := value }, .loadOld activecnt)
  | .loadOld activecnt => (globals, .storeOldest activecnt globals.oldCnt)
  | .storeOldest activecnt value => ({ globals with oldestCnt := value }, .storeOld activecnt)
  | .storeOld activecnt => ({ globals with oldCnt := activecnt }, .loadOldestList)
  | .loadOldestList => (globals, .loadOldList globals.oldestList)
  | .loadOldList todelete => (globals, .storeOldestList todelete globals.oldList)
  | .storeOldestList todelete value =>
      ({ globals with oldestList := value }, .loadActiveList todelete)
  | .loadActiveList todelete => (globals, .storeOldList todelete globals.activeList)
  | .storeOldList todelete value => ({ globals with oldList := value }, .storeActiveList todelete)
  | .storeActiveList todelete =>
      ({ globals with activeList := globals.nextList, nextList := globals.nextList + 1 },
        .loadCnt todelete)
  | .loadCnt todelete => (globals, .increment todelete globals.activeCnt)
  | .increment todelete cnt => (globals, .increment todelete cnt)

def stepRotation (state : State Thread Node) (thread : Thread) : Rotation → State Thread Node
  | .increment todelete cnt =>
      { (state.setCount cnt (state.count cnt + 1)).goto thread (.destroyHead todelete numLists) with
        rotor := none }
  | rotation =>
      let (globals, after) := rotation.advance state.globals
      { state.goto thread (.rotate after) with globals := globals }

/-- `delete todelete`: the last list of the array first, and in each list the tail
of a node before the node. Following the mark `0x1` is undefined. -/
def stepDestroy (state : State Thread Node) (thread : Thread) (list remaining : Nat)
    (current : Option Node) (stack : List Node) : Option (State Thread Node) :=
  match current, stack with
  | some node, stack =>
      match state.next node with
      | .mark => none
      | .null => some (state.goto thread (.destroyWalk list remaining none (node :: stack)))
      | .node target =>
          some (state.goto thread (.destroyWalk list remaining (some target) (node :: stack)))
  | none, node :: stack =>
      some { state.goto thread (.destroyWalk list remaining none stack) with
        destroyed := state.destroyed ++ [node] }
  | none, [] => some (state.goto thread (.destroyHead list remaining))

def stepThread (state : State Thread Node) (thread : Thread) : Option (State Thread Node) :=
  match state.pc thread with
  | .idle => none
  | .enterLoad => some (state.goto thread (.enterRead state.globals.activeCnt))
  | .enterRead cnt =>
      if state.count cnt % 2 = 1 then
        some (state.goto thread (.enterSwap cnt (state.count cnt)))
      else some (state.goto thread .enterLoad)
  | .enterSwap cnt mycnt =>
      if state.count cnt = mycnt then
        some { (state.setCount cnt (mycnt + 2)).goto thread .idle with
          guards := ⟨state.nextGuard, thread, cnt, state.epoch⟩ :: state.guards
          nextGuard := state.nextGuard + 1 }
      else some (state.goto thread .enterLoad)
  | .leaveOld => some (state.goto thread (.leaveOldest state.globals.oldCnt))
  | .leaveOldest oldcnt => some (state.goto thread (.leaveActive oldcnt state.globals.oldestCnt))
  | .leaveActive oldcnt oldestcnt =>
      some (state.goto thread (.leaveValue oldcnt oldestcnt state.globals.activeCnt))
  | .leaveValue oldcnt oldestcnt ac =>
      some (state.goto thread (.leaveCheckOldest oldcnt oldestcnt ac (state.count ac)))
  | .leaveCheckOldest oldcnt oldestcnt ac oac =>
      if state.count oldestcnt = 0 then some (state.goto thread (.leaveCheckOld oldcnt ac oac))
      else some (state.goto thread .idle)
  | .leaveCheckOld oldcnt ac oac =>
      if state.count oldcnt = 0 ∧ oac % 2 = 1 then some (state.goto thread (.leaveSwap ac oac))
      else some (state.goto thread .idle)
  | .leaveSwap ac oac =>
      if state.count ac = oac then
        some { (state.setCount ac (oac - 1)).goto thread (.rotate .loadActive) with
          epoch := state.epoch + 1
          rotor := some thread }
      else some (state.goto thread .idle)
  | .rotate rotation => some (stepRotation state thread rotation)
  | .destroyHead _ 0 => some (state.goto thread .idle)
  | .destroyHead list (remaining + 1) =>
      some (state.goto thread (.destroyWalk list remaining (state.head list remaining) []))
  | .destroyWalk list remaining current stack =>
      stepDestroy state thread list remaining current stack
  | .ownLoad list node bucket =>
      if state.next node = .mark then some (state.goto thread (.ownSwap list node bucket))
      else some (state.goto thread .idle)
  | .ownSwap list node bucket =>
      if state.next node = .mark then
        some { state.goto thread (.appendHead list node bucket) with
          next := Function.update state.next node .null
          home := Function.update state.home node (some list) }
      else some (state.goto thread (.ownLoad list node bucket))
  | .appendHead list node bucket =>
      some (state.goto thread (.appendNext list node bucket (state.head list bucket)))
  | .appendNext list node bucket head =>
      some { state.goto thread (.appendSwap list node bucket head) with
        next := Function.update state.next node (.ofHead head) }
  | .appendSwap list node bucket head =>
      if state.head list bucket = head then
        some { state.goto thread .idle with
          head := Function.update state.head list
            (Function.update (state.head list) bucket (some node)) }
      else some (state.goto thread (.appendHead list node bucket))

/-- A call makes its first access at once, the constructor excepted. Only the thread
that holds a guard destroys it, and `free` needs a guard. -/
def next (state : State Thread Node) : Label Thread Node → Option (State Thread Node)
  | .enter thread =>
      if state.pc thread = .idle then some (state.goto thread .enterLoad) else none
  | .leave thread guard =>
      if state.pc thread = .idle ∧ guard ∈ state.guards ∧ guard.thread = thread then
        some { (state.setCount guard.cnt (state.count guard.cnt - 2)).goto thread .leaveOld with
          guards := state.guards.erase guard }
      else none
  | .free thread node bucket =>
      if state.pc thread = .idle ∧ ∃ guard ∈ state.guards, guard.thread = thread then
        some (state.goto thread (.ownLoad state.globals.activeList node bucket))
      else none
  | .step thread => stepThread state thread

/-- `allocator::init`, with all nodes allocated and none freed. -/
def start : State Thread Node where
  count := fun cnt => if cnt = 0 then 1 else 0
  globals := ⟨0, 2, 1, 2, 1, 0, 3⟩
  next := fun _ => .mark
  head := fun _ _ => none
  pc := fun _ => .idle
  guards := []
  nextGuard := 0
  epoch := 0
  rotor := none
  home := fun _ => none
  destroyed := []

def machine : Machine (State Thread Node) (Label Thread Node) where
  initial := fun state => state = start
  next := next

end Crossbow.Allocator
