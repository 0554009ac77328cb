import Crossbow.Allocator.EpochAllocator
import Crossbow.Kernel.Word
import Mathlib.Data.List.Perm.Basic

/-! The allocator with each of its operations as one step. A list is a chain of nodes that
is pushed at the front and destroyed from the back; nodes of all lists together are
destroyed list by list. -/
namespace Crossbow.Allocator.Ordered
open Kernel

structure Free (Node D : Type) where
  node : Node
  destruct : D
  inOrder : Bool
  deriving DecidableEq, Repr

/-- `guards` are the counters of the live guards, `ran` the nodes that were destroyed with the
function that ran. -/
structure State (Node D : Type) where
  count : Nat → Nat
  globals : Globals
  next : Node → Link Node
  destruct : Node → Option D
  head : Nat → Nat → Option Node
  guards : List Nat
  calls : List (Free Node D)
  ran : List (Node × Option D)
  finished : Bool

/-- What a node's `next` points to; following the mark `0x1` is undefined. -/
def linkTarget {Node : Type} : Link Node → Option (Option Node)
  | .mark => none
  | .null => some none
  | .node target => some (some target)

/-- `list::destruct`: the nodes in the order of their destruction. -/
def destructNodes {Node : Type} (next : Node → Link Node) : Nat → Option Node → Option (List Node)
  | _, none => some []
  | 0, some _ => none
  | fuel + 1, some node =>
      (linkTarget (next node)).bind fun rest =>
        (destructNodes next fuel rest).map (· ++ [node])

/-- The destructor of the array of lists, which begins with the last one. -/
def destructLists {Node : Type} (next : Node → Link Node) (fuel : Nat) (heads : Nat → Option Node) :
    Nat → Option (List Node)
  | 0 => some []
  | bucket + 1 =>
      (destructNodes next fuel (heads bucket)).bind fun last =>
        (destructLists next fuel heads bucket).map (last ++ ·)

def rotate (globals : Globals) : Globals where
  activeCnt := globals.oldestCnt
  oldestCnt := globals.oldCnt
  oldCnt := globals.activeCnt
  oldestList := globals.oldList
  oldList := globals.activeList
  activeList := globals.nextList
  nextList := globals.nextList + 1

theorem rotate_eq_advance (globals : Globals) :
    ((fun step : Globals × Rotation => step.2.advance step.1)^[13] (globals, .loadActive)).1 =
      rotate globals := rfl

variable {Node D : Type} [DecidableEq Node]

/-- `lists::append` on the active lists; only the first call on a node owns it. -/
def State.append (state : State Node D) (node : Node) (mycnt : Nat) (destruct : D) :
    State Node D :=
  let list := state.globals.activeList
  let bucket := mycnt % numLists
  match state.next node with
  | .mark =>
      { state with
        next := Function.update state.next node (.ofHead (state.head list bucket))
        destruct := Function.update state.destruct node (some destruct)
        head := Function.update state.head list
          (Function.update (state.head list) bucket (some node)) }
  | .null | .node _ => state

def State.reclaim (state : State Node D) (nodes : List Node) : State Node D :=
  { state with ran := state.ran ++ nodes.map fun node => (node, state.destruct node) }

def State.deleteList (state : State Node D) (fuel list : Nat) : Option (State Node D) :=
  (destructLists state.next fuel (state.head list) numLists).map state.reclaim

inductive Label (Node D : Type) where
  | enter
  | leave (index fuel : Nat)
  | free (node : Node) (mycnt : Nat) (destruct : D)
  | freeInOrder (node : Node) (destruct : D)
  | destroy (fuel : Nat)

def State.release (state : State Node D) (cnt index : Nat) : State Node D :=
  { state with
    count := Function.update state.count cnt (wrapSub (state.count cnt) 2)
    guards := state.guards.eraseIdx index }

/-- The rest of `~allocator`. -/
def State.tryRotate (state : State Node D) (fuel : Nat) : Option (State Node D) :=
  let globals := state.globals
  let oac := state.count globals.activeCnt
  if state.count globals.oldestCnt = 0 ∧ state.count globals.oldCnt = 0 ∧ oac % 2 = 1 then
    let left := Function.update state.count globals.activeCnt (oac - 1)
    let active := (rotate globals).activeCnt
    State.deleteList { state with
      globals := rotate globals
      count := Function.update left active (wrap (left active + 1)) } fuel globals.oldestList
  else some state

/-- A constructor that finds an even counter would not return, and a pointer that was
reclaimed must not be freed again. -/
def perform (state : State Node D) : Label Node D → Option (State Node D)
  | .enter =>
      let cnt := state.globals.activeCnt
      if state.count cnt % 2 = 1 then
        some { state with
          count := Function.update state.count cnt (wrap (state.count cnt + 2))
          guards := state.guards ++ [cnt] }
      else none
  | .leave index fuel =>
      match state.guards[index]? with
      | some cnt => (state.release cnt index).tryRotate fuel
      | none => none
  | .free node mycnt destruct =>
      if node ∈ state.ran.map Prod.fst then none
      else some { state.append node mycnt destruct with
        calls := state.calls ++ [⟨node, destruct, false⟩] }
  | .freeInOrder node destruct =>
      if node ∈ state.ran.map Prod.fst then none
      else some { state.append node 0 destruct with
        calls := state.calls ++ [⟨node, destruct, true⟩] }
  | .destroy fuel =>
      (state.deleteList fuel state.globals.oldestList).bind fun state =>
        (state.deleteList fuel state.globals.oldList).bind fun state =>
          (state.deleteList fuel state.globals.activeList).map fun state =>
            { state with finished := true }

def next (state : State Node D) (label : Label Node D) : Option (State Node D) :=
  if state.finished then none else perform state label

def start : State Node D where
  count := fun cnt => if cnt = 0 then 1 else 0
  globals := ⟨0, 2, 1, 2, 1, 0, 3⟩
  next := fun _ => .mark
  destruct := fun _ => none
  head := fun _ _ => none
  guards := []
  calls := []
  ran := []
  finished := false

def machine : Machine (State Node D) (Label Node D) where
  initial := fun state => state = start
  next := next

def firstFrees : List (Free Node D) → List (Free Node D)
  | [] => []
  | call :: calls => call :: (firstFrees calls).filter fun later => later.node ≠ call.node

def Free.entry (call : Free Node D) : Node × Option D := (call.node, some call.destruct)

section Chains

variable {next : Node → Link Node} {head : Option Node} {nodes : List Node} {fuel : Nat}

/-- The nodes that hang on a head, the last one that was pushed first. -/
def Chain (next : Node → Link Node) : Option Node → List Node → Prop
  | head, [] => head = none
  | head, node :: rest =>
      head = some node ∧ ∃ tail, next node = .ofHead tail ∧ Chain next tail rest

def flat (chains : Nat → List Node) : Nat → List Node
  | 0 => []
  | bucket + 1 => chains bucket ++ flat chains bucket

omit [DecidableEq Node] in
theorem linkTarget_ofHead (head : Option Node) : linkTarget (.ofHead head) = some head := by
  cases head <;> rfl

theorem Chain.update (hchain : Chain next head nodes) {node : Node} (hnode : node ∉ nodes)
    (link : Link Node) : Chain (Function.update next node link) head nodes := by
  induction nodes generalizing head with
  | nil => exact hchain
  | cons first rest ih =>
      obtain ⟨hhead, tail, hnext, hrest⟩ := hchain
      rw [List.mem_cons, not_or] at hnode
      refine ⟨hhead, tail, ?_, ih hrest hnode.2⟩
      rw [Function.update_of_ne (Ne.symm hnode.1), hnext]

omit [DecidableEq Node] in
theorem Chain.destructNodes_eq (hchain : Chain next head nodes) :
    destructNodes next fuel head = if nodes.length ≤ fuel then some nodes.reverse else none := by
  induction nodes generalizing head fuel with
  | nil =>
      rw [show head = none from hchain, destructNodes]
      simp
  | cons node rest ih =>
      obtain ⟨rfl, tail, hnext, hrest⟩ := hchain
      cases fuel with
      | zero => simp [destructNodes]
      | succ fuel =>
          rw [destructNodes, hnext, linkTarget_ofHead, Option.bind_some, ih hrest]
          by_cases hfuel : rest.length ≤ fuel
          · simp [hfuel]
          · simp [hfuel]

variable {heads : Nat → Option Node} {chains : Nat → List Node} {order : List Node}

omit [DecidableEq Node] in
theorem destructLists_order {count : Nat}
    (hchains : ∀ bucket < count, Chain next (heads bucket) (chains bucket).reverse)
    (horder : destructLists next fuel heads count = some order) :
    order = flat chains count := by
  induction count generalizing order with
  | zero => exact (Option.some.inj horder).symm
  | succ bucket ih =>
      rw [destructLists, (hchains bucket (Nat.lt_succ_self _)).destructNodes_eq] at horder
      split at horder
      · rw [Option.bind_some] at horder
        obtain ⟨rest, hrest, rfl⟩ := Option.map_eq_some_iff.mp horder
        rw [flat, List.reverse_reverse, ih (fun below hbelow => hchains below (by omega)) hrest]
      · contradiction

omit [DecidableEq Node] in
theorem destructLists_isSome {count : Nat}
    (hchains : ∀ bucket < count, Chain next (heads bucket) (chains bucket).reverse)
    (hfuel : (flat chains count).length ≤ fuel) : (destructLists next fuel heads count).isSome := by
  induction count with
  | zero => rfl
  | succ bucket ih =>
      rw [flat, List.length_append] at hfuel
      rw [destructLists, (hchains bucket (Nat.lt_succ_self _)).destructNodes_eq,
        List.length_reverse, if_pos (by omega), Option.bind_some, Option.isSome_map]
      exact ih (fun below hbelow => hchains below (by omega)) (by omega)

omit [DecidableEq Node] in
theorem mem_flat {bucket count : Nat} (hbucket : bucket < count) {node : Node}
    (hnode : node ∈ chains bucket) : node ∈ flat chains count := by
  induction count with
  | zero => contradiction
  | succ last ih =>
      rw [flat, List.mem_append]
      by_cases hlast : bucket = last
      · subst hlast
        exact .inl hnode
      · exact .inr (ih (by omega))

omit [DecidableEq Node] in
theorem flat_of_empty (hempty : ∀ bucket, chains bucket = []) (count : Nat) :
    flat chains count = [] := by
  induction count with
  | zero => rfl
  | succ bucket ih => rw [flat, hempty, ih, List.append_nil]

omit [DecidableEq Node] in
theorem flat_update (chains : Nat → List Node) {bucket count : Nat} (hbucket : bucket < count)
    (node : Node) :
    (flat (Function.update chains bucket (chains bucket ++ [node])) count).Perm
        (node :: flat chains count) ∧
      (flat chains count).Sublist
        (flat (Function.update chains bucket (chains bucket ++ [node])) count) := by
  have hbelow : ∀ below ≤ bucket,
      flat (Function.update chains bucket (chains bucket ++ [node])) below = flat chains below := by
    intro below hbelow
    induction below with
    | zero => rfl
    | succ below ih =>
        rw [flat, flat, ih (by omega), Function.update_of_ne (by omega)]
  induction count with
  | zero => contradiction
  | succ last ih =>
      rw [flat, flat]
      by_cases hlast : bucket = last
      · subst hlast
        rw [Function.update_self, hbelow bucket (Nat.le_refl _), List.append_assoc]
        exact ⟨List.perm_middle, (List.sublist_cons_self _ _).append_left _⟩
      · rw [Function.update_of_ne (Ne.symm hlast)]
        obtain ⟨hperm, hsublist⟩ := ih (by omega)
        exact ⟨(hperm.append_left _).trans List.perm_middle, hsublist.append_left _⟩

omit [DecidableEq Node] in
theorem flat_update_zero (chains : Nat → List Node) (count : Nat) (node : Node) :
    flat (Function.update chains 0 (chains 0 ++ [node])) (count + 1) =
      flat chains (count + 1) ++ [node] := by
  induction count with
  | zero => simp [flat]
  | succ count ih =>
      rw [flat, flat.eq_2 chains (count + 1), ih, Function.update_of_ne (by omega),
        List.append_assoc]

end Chains

section Calls

theorem firstFrees_append (calls : List (Free Node D)) (call : Free Node D) :
    firstFrees (calls ++ [call]) =
      if call.node ∈ calls.map Free.node then firstFrees calls else firstFrees calls ++ [call] := by
  induction calls with
  | nil => simp [firstFrees]
  | cons first calls ih =>
      rw [List.cons_append, firstFrees, ih, firstFrees, List.map_cons]
      by_cases hsame : call.node = first.node
      · simp only [hsame, List.mem_cons, true_or, if_true]
        split
        · rfl
        · simp [hsame]
      · by_cases hlater : call.node ∈ calls.map Free.node
        · simp [hlater]
        · rw [if_neg hlater, if_neg (by simp [hsame, hlater])]
          simp [hsame]

theorem mem_firstFrees (calls : List (Free Node D)) (node : Node) :
    node ∈ (firstFrees calls).map Free.node ↔ node ∈ calls.map Free.node := by
  induction calls with
  | nil => rfl
  | cons first calls ih =>
      rw [firstFrees, List.map_cons, List.map_cons, List.mem_cons, List.mem_cons, ← ih]
      by_cases hsame : node = first.node
      · simp [hsame]
      · simp only [hsame, false_or, List.mem_map, List.mem_filter, decide_eq_true_eq]
        constructor
        · rintro ⟨call, ⟨hcall, _⟩, rfl⟩
          exact ⟨call, hcall, rfl⟩
        · rintro ⟨call, hcall, rfl⟩
          exact ⟨call, ⟨hcall, hsame⟩, rfl⟩

theorem nodup_firstFrees (calls : List (Free Node D)) :
    ((firstFrees calls).map Free.node).Nodup := by
  induction calls with
  | nil => exact List.nodup_nil
  | cons first calls ih =>
      rw [firstFrees, List.map_cons, List.nodup_cons]
      constructor
      · simp
      · exact ih.sublist ((List.filter_sublist ..).map _)

theorem length_firstFrees_le (calls : List (Free Node D)) :
    (firstFrees calls).length ≤ calls.length := by
  induction calls with
  | nil => exact Nat.le_refl _
  | cons first calls ih =>
      rw [firstFrees, List.length_cons, List.length_cons]
      exact Nat.succ_le_succ ((List.length_filter_le _ _).trans ih)

end Calls

end Crossbow.Allocator.Ordered
