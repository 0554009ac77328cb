import Crossbow.Allocator.EpochAllocator

/-! The invariant of the epoch allocator, as long as every exchange of a destructor
finds the two older counters empty. Epoch `e` counts its guards in counter
`e % 3` and collects its nodes in list `e + 2`. -/
namespace Crossbow.Allocator
open Kernel

def settled (epoch : Nat) : Globals where
  activeCnt := epoch % 3
  oldCnt := (epoch + 2) % 3
  oldestCnt := (epoch + 1) % 3
  activeList := epoch + 2
  oldList := epoch + 1
  oldestList := epoch
  nextList := epoch + 3

/-- What the rotation out of `epoch` finds in the globals and has in its locals
before each access. -/
def Rotation.Expects (epoch : Nat) (globals : Globals) : Rotation → Prop
  | .loadActive => globals = settled epoch
  | .loadOldest activecnt => globals = settled epoch ∧ activecnt = epoch % 3
  | .storeActive activecnt value =>
      globals = settled epoch ∧ activecnt = epoch % 3 ∧ value = (epoch + 1) % 3
  | .loadOld activecnt =>
      globals = { settled epoch with activeCnt := (epoch + 1) % 3 } ∧ activecnt = epoch % 3
  | .storeOldest activecnt value =>
      globals = { settled epoch with activeCnt := (epoch + 1) % 3 } ∧
        activecnt = epoch % 3 ∧ value = (epoch + 2) % 3
  | .storeOld activecnt =>
      globals = { settled epoch with
        activeCnt := (epoch + 1) % 3
        oldestCnt := (epoch + 2) % 3 } ∧ activecnt = epoch % 3
  | .loadOldestList =>
      globals = { settled (epoch + 1) with
        activeList := epoch + 2
        oldList := epoch + 1
        oldestList := epoch
        nextList := epoch + 3 }
  | .loadOldList todelete =>
      globals = { settled (epoch + 1) with
        activeList := epoch + 2
        oldList := epoch + 1
        oldestList := epoch
        nextList := epoch + 3 } ∧ todelete = epoch
  | .storeOldestList todelete value =>
      globals = { settled (epoch + 1) with
        activeList := epoch + 2
        oldList := epoch + 1
        oldestList := epoch
        nextList := epoch + 3 } ∧ todelete = epoch ∧ value = epoch + 1
  | .loadActiveList todelete =>
      globals = { settled (epoch + 1) with
        activeList := epoch + 2
        oldList := epoch + 1
        nextList := epoch + 3 } ∧ todelete = epoch
  | .storeOldList todelete value =>
      globals = { settled (epoch + 1) with
        activeList := epoch + 2
        oldList := epoch + 1
        nextList := epoch + 3 } ∧ todelete = epoch ∧ value = epoch + 2
  | .storeActiveList todelete =>
      globals = { settled (epoch + 1) with
        activeList := epoch + 2
        nextList := epoch + 3 } ∧ todelete = epoch
  | .loadCnt todelete => globals = settled (epoch + 1) ∧ todelete = epoch
  | .increment todelete cnt =>
      globals = settled (epoch + 1) ∧ todelete = epoch ∧ cnt = (epoch + 1) % 3

theorem Rotation.Expects.advance {epoch : Nat} {globals : Globals} {rotation : Rotation}
    (hexpects : rotation.Expects epoch globals) :
    (rotation.advance globals).2.Expects epoch (rotation.advance globals).1 := by
  have hcycle : (epoch + 1 + 2) % 3 = epoch % 3 := by omega
  have hcycle' : (epoch + 1 + 1) % 3 = (epoch + 2) % 3 := rfl
  cases rotation <;>
    simp_all [Rotation.Expects, Rotation.advance, settled]

theorem Rotation.Expects.activeList {epoch : Nat} {globals : Globals} {rotation : Rotation}
    (hexpects : rotation.Expects epoch globals) : epoch + 2 ≤ globals.activeList := by
  cases rotation <;> simp_all [Rotation.Expects, settled]

variable {Thread Node : Type}

def activeBit (rotating : Bool) (epoch cnt : Nat) : Nat :=
  if rotating = false ∧ cnt = epoch % 3 then 1 else 0

/-- Guards are at most one epoch old, and while a rotation is under way none can be
created in the new epoch. Each counter counts its guards twice. -/
structure Counted (guards : List (Guard Thread)) (nextGuard epoch : Nat) (rotating : Bool)
    (count : Nat → Nat) : Prop where
  guard : ∀ guard ∈ guards, guard.cnt = guard.epoch % 3 ∧ guard.id < nextGuard ∧
    guard.epoch ≤ epoch ∧ epoch ≤ guard.epoch + 1
  fresh : rotating = true → ∀ guard ∈ guards, guard.epoch ≠ epoch
  count : ∀ cnt, count cnt =
    2 * guards.countP (fun guard => guard.cnt = cnt) + activeBit rotating epoch cnt

structure Linked (next : Node → Link Node) (home : Node → Option Nat)
    (head : Nat → Nat → Option Node) (destroyed : List Node) (epoch : Nat) : Prop where
  mark : ∀ node, next node = .mark ↔ home node = none
  link : ∀ node target, next node = .node target → home target = home node
  head : ∀ list bucket node, head list bucket = some node → home node = some list
  destroyed : ∀ node ∈ destroyed, ∃ list, home node = some list ∧ list < epoch

def PcOk (state : State Thread Node) (thread : Thread) : Pc Node → Prop
  | .enterSwap _ value | .leaveSwap _ value => value % 2 = 1
  | .rotate rotation => state.rotor = some thread ∧
      ∃ epoch, state.epoch = epoch + 1 ∧ rotation.Expects epoch state.globals
  | .destroyHead list _ => list < state.epoch
  | .destroyWalk list _ current stack => list < state.epoch ∧
      (∀ node, current = some node → state.home node = some list) ∧
      ∀ node ∈ stack, state.home node = some list
  | .ownLoad list _ _ | .ownSwap list _ _ =>
      ∃ guard ∈ state.guards, guard.thread = thread ∧ guard.epoch + 2 ≤ list
  | .appendHead list node _ => state.home node = some list
  | .appendNext list node _ head | .appendSwap list node _ head =>
      state.home node = some list ∧ ∀ target, head = some target → state.home target = some list
  | _ => True

structure Inv (state : State Thread Node) : Prop where
  counted : Counted state.guards state.nextGuard state.epoch state.rotor.isSome state.count
  linked : Linked state.next state.home state.head state.destroyed state.epoch
  settled : state.rotor = none → state.globals = settled state.epoch
  rotor : ∀ thread, state.rotor = some thread → ∃ rotation, state.pc thread = .rotate rotation
  pcs : ∀ thread, PcOk state thread (state.pc thread)

theorem PcOk.frame {before after : State Thread Node} {thread : Thread} {pc : Pc Node}
    (hpc : PcOk before thread pc)
    (hguards : ∀ guard ∈ before.guards, guard.thread = thread → guard ∈ after.guards)
    (hhome : ∀ node list, before.home node = some list → after.home node = some list)
    (hepoch : before.epoch ≤ after.epoch)
    (hrotor : before.rotor = some thread → after.rotor = some thread ∧
      after.epoch = before.epoch ∧ after.globals = before.globals) :
    PcOk after thread pc := by
  cases pc with
  | enterSwap cnt value | leaveSwap cnt value => exact hpc
  | rotate rotation =>
      obtain ⟨hmine, epoch, hsucc, hexpects⟩ := hpc
      obtain ⟨hstill, hsame, hglobals⟩ := hrotor hmine
      exact ⟨hstill, epoch, hsame.trans hsucc, hglobals ▸ hexpects⟩
  | destroyHead list remaining => exact Nat.lt_of_lt_of_le hpc hepoch
  | destroyWalk list remaining current stack =>
      obtain ⟨hlist, hcurrent, hstack⟩ := hpc
      exact ⟨Nat.lt_of_lt_of_le hlist hepoch, fun node hnode => hhome _ _ (hcurrent node hnode),
        fun node hnode => hhome _ _ (hstack node hnode)⟩
  | ownLoad list node bucket | ownSwap list node bucket =>
      obtain ⟨guard, hmem, hthread, hlist⟩ := hpc
      exact ⟨guard, hguards guard hmem hthread, hthread, hlist⟩
  | appendHead list node bucket => exact hhome _ _ hpc
  | appendNext list node bucket head | appendSwap list node bucket head =>
      exact ⟨hhome _ _ hpc.1, fun target htarget => hhome _ _ (hpc.2 target htarget)⟩
  | _ => trivial

theorem inv_start : Inv (start : State Thread Node) where
  counted := by
    refine ⟨fun _ hmem => (nomatch hmem), fun hrotor => (nomatch hrotor), ?_⟩
    intro cnt
    simp [start, activeBit]
  linked := ⟨fun _ => ⟨fun _ => rfl, fun _ => rfl⟩, fun _ _ hlink => (nomatch hlink),
    fun _ _ _ hhead => (nomatch hhead), fun _ hmem => (nomatch hmem)⟩
  settled := fun _ => rfl
  rotor := fun _ hrotor => (nomatch hrotor)
  pcs := fun _ => trivial

theorem Inv.activeList {state : State Thread Node} (hinv : Inv state) {guard : Guard Thread}
    (hmem : guard ∈ state.guards) : guard.epoch + 2 ≤ state.globals.activeList := by
  obtain ⟨_, _, hlow, _⟩ := hinv.counted.guard guard hmem
  cases hrotor : state.rotor with
  | none =>
      rw [hinv.settled hrotor]
      exact Nat.add_le_add_right hlow 2
  | some rotor =>
      obtain ⟨rotation, hrotation⟩ := hinv.rotor rotor hrotor
      have hrotating := hinv.pcs rotor
      rw [hrotation] at hrotating
      obtain ⟨_, epoch, hepoch, hexpects⟩ := hrotating
      have hlist := hexpects.activeList
      have hfresh := hinv.counted.fresh (by rw [hrotor]; rfl) guard hmem
      omega

section Counters
variable {guards : List (Guard Thread)} {nextGuard epoch : Nat} {rotating : Bool}
  {count : Nat → Nat}

section Guards

variable (hcounted : Counted guards nextGuard epoch rotating count)
include hcounted

theorem Counted.of_odd {cnt : Nat}
    (hodd : count cnt % 2 = 1) : rotating = false ∧ cnt = epoch % 3 := by
  rw [hcounted.count cnt, activeBit] at hodd
  split at hodd
  · assumption
  · omega

theorem Counted.enter {cnt : Nat} (hodd : count cnt % 2 = 1) (thread : Thread) :
    Counted (⟨nextGuard, thread, cnt, epoch⟩ :: guards) (nextGuard + 1) epoch rotating
      (Function.update count cnt (count cnt + 2)) := by
  obtain ⟨hidle, hactive⟩ := hcounted.of_odd hodd
  refine ⟨?_, ?_, ?_⟩
  · intro guard hmem
    rcases List.mem_cons.mp hmem with rfl | hold
    · exact ⟨hactive, Nat.lt_succ_self _, Nat.le_refl _, Nat.le_succ _⟩
    · obtain ⟨hcnt, hid, hlow, hhigh⟩ := hcounted.guard guard hold
      exact ⟨hcnt, Nat.lt_succ_of_lt hid, hlow, hhigh⟩
  · intro hrotating
    rw [hidle] at hrotating
    contradiction
  · intro other
    rw [List.countP_cons]
    by_cases hsame : other = cnt
    · rw [hsame, Function.update_self, hcounted.count cnt, if_pos (decide_eq_true rfl)]
      omega
    · rw [Function.update_of_ne hsame, hcounted.count other,
        if_neg (fun hcnt => hsame (of_decide_eq_true hcnt).symm), Nat.add_zero]

theorem Counted.leave [DecidableEq Thread] {guard : Guard Thread} (hmem : guard ∈ guards) :
    Counted (guards.erase guard) nextGuard epoch rotating
      (Function.update count guard.cnt (count guard.cnt - 2)) := by
  refine ⟨?_, ?_, ?_⟩
  · intro other hother
    exact hcounted.guard other (List.mem_of_mem_erase hother)
  · intro hrotating other hother
    exact hcounted.fresh hrotating other (List.mem_of_mem_erase hother)
  · intro other
    have hcount := hcounted.count other
    rw [(List.perm_cons_erase hmem).countP_eq, List.countP_cons] at hcount
    by_cases hsame : other = guard.cnt
    · rw [hsame, if_pos (decide_eq_true rfl)] at hcount
      rw [hsame, Function.update_self, hcount]
      omega
    · rw [if_neg (fun hcnt => hsame (of_decide_eq_true hcnt).symm), Nat.add_zero] at hcount
      rw [Function.update_of_ne hsame, hcount]

/-- The exchange of the destructor opens the next epoch. Nobody is left in the
epoch before the current one, so all guards are of the current one. -/
theorem Counted.rotate {cnt : Nat} (hodd : count cnt % 2 = 1) (hold : count ((epoch + 2) % 3) = 0) :
    Counted guards nextGuard (epoch + 1) true (Function.update count cnt (count cnt - 1)) := by
  obtain ⟨hidle, hactive⟩ := hcounted.of_odd hodd
  have hcurrent : ∀ guard ∈ guards, guard.epoch = epoch := by
    intro guard hmem
    obtain ⟨hcnt, _, hlow, hhigh⟩ := hcounted.guard guard hmem
    have hnone : guards.countP (fun guard => guard.cnt = (epoch + 2) % 3) = 0 := by
      have hcount := hcounted.count ((epoch + 2) % 3)
      omega
    have hother := List.countP_eq_zero.mp hnone guard hmem
    rw [decide_eq_true_eq, hcnt] at hother
    omega
  refine ⟨?_, ?_, ?_⟩
  · intro guard hmem
    obtain ⟨hcnt, hid, hlow, _⟩ := hcounted.guard guard hmem
    have hsame := hcurrent guard hmem
    exact ⟨hcnt, hid, Nat.le_succ_of_le hlow, Nat.succ_le_succ (Nat.le_of_eq hsame.symm)⟩
  · intro _ guard hmem
    rw [hcurrent guard hmem]
    exact Nat.ne_of_lt (Nat.lt_succ_self epoch)
  · intro other
    have hcount := hcounted.count other
    by_cases hsame : other = cnt
    · rw [hsame, activeBit, if_pos ⟨hidle, hactive⟩] at hcount
      rw [hsame, Function.update_self, hcount]
      rfl
    · rw [activeBit, if_neg (fun hboth => hsame (hboth.2.trans hactive.symm))] at hcount
      rw [Function.update_of_ne hsame, hcount]
      rfl

end Guards

theorem Counted.finish (hcounted : Counted guards nextGuard epoch true count) :
    Counted guards nextGuard epoch false
      (Function.update count (epoch % 3) (count (epoch % 3) + 1)) := by
  refine ⟨hcounted.guard, (nomatch ·), ?_⟩
  intro other
  have hcount := hcounted.count other
  by_cases hsame : other = epoch % 3
  · rw [hsame] at hcount ⊢
    rw [Function.update_self, hcount]
    simp [activeBit]
  · rw [Function.update_of_ne hsame, hcount]
    simp [activeBit, hsame]

end Counters

section Lists
variable {next : Node → Link Node} {home : Node → Option Nat}
  {head : Nat → Nat → Option Node} {destroyed : List Node} {epoch : Nat}

variable (hlinked : Linked next home head destroyed epoch)
include hlinked

theorem Linked.own [DecidableEq Node] {node : Node} (hmark : next node = .mark) (list : Nat) :
    Linked (Function.update next node .null) (Function.update home node (some list)) head
      destroyed epoch := by
  have hnone := (hlinked.mark node).mp hmark
  have hother : ∀ other, home other ≠ none → other ≠ node := by
    intro other hhome hsame
    exact hhome (hsame ▸ hnone)
  refine ⟨?_, ?_, ?_, ?_⟩
  · intro other
    by_cases hsame : other = node
    · simp [hsame]
    · simp [hsame, hlinked.mark other]
  · intro other target hlink
    by_cases hsame : other = node
    · simp [hsame] at hlink
    · rw [Function.update_of_ne hsame] at hlink
      have hhome : home other ≠ none := by
        rw [Ne, ← hlinked.mark other, hlink]
        exact fun hmark => nomatch hmark
      have htarget := hlinked.link other target hlink
      rw [Function.update_of_ne hsame, Function.update_of_ne (hother target (htarget ▸ hhome)),
        htarget]
  · intro other bucket target hhead
    have htarget := hlinked.head other bucket target hhead
    rw [Function.update_of_ne (hother target (htarget ▸ Option.some_ne_none other)), htarget]
  · intro other hmem
    obtain ⟨place, hplace, hepoch⟩ := hlinked.destroyed other hmem
    refine ⟨place, ?_, hepoch⟩
    rw [Function.update_of_ne (hother other (hplace ▸ Option.some_ne_none place)), hplace]

theorem Linked.setNext [DecidableEq Node] {node : Node} {list : Nat} {first : Option Node}
    (hnode : home node = some list)
    (hfirst : ∀ target, first = some target → home target = some list) :
    Linked (Function.update next node (.ofHead first)) home head destroyed epoch := by
  refine ⟨?_, ?_, hlinked.head, hlinked.destroyed⟩
  · intro other
    by_cases hsame : other = node
    · cases first <;> simp [hsame, hnode, Link.ofHead]
    · simp [hsame, hlinked.mark other]
  · intro other target hlink
    by_cases hsame : other = node
    · rw [hsame, Function.update_self] at hlink
      cases first with
      | none => cases hlink
      | some first =>
          cases hlink
          rw [hsame, hnode, hfirst target rfl]
    · rw [Function.update_of_ne hsame] at hlink
      exact hlinked.link other target hlink

theorem Linked.push {node : Node} {list : Nat} (hnode : home node = some list) (bucket : Nat) :
    Linked next home
      (Function.update head list (Function.update (head list) bucket (some node)))
      destroyed epoch := by
  refine ⟨hlinked.mark, hlinked.link, ?_, hlinked.destroyed⟩
  intro other place target hhead
  by_cases hlist : other = list
  · rw [hlist, Function.update_self] at hhead
    by_cases hbucket : place = bucket
    · rw [hbucket, Function.update_self] at hhead
      cases hhead
      rw [hlist, hnode]
    · rw [Function.update_of_ne hbucket] at hhead
      exact hlist ▸ hlinked.head list place target hhead
  · rw [Function.update_of_ne hlist] at hhead
    exact hlinked.head other place target hhead

theorem Linked.destroy {node : Node} {list : Nat} (hnode : home node = some list)
    (hlist : list < epoch) :
    Linked next home head (destroyed ++ [node]) epoch := by
  refine ⟨hlinked.mark, hlinked.link, hlinked.head, ?_⟩
  intro other hmem
  rcases List.mem_append.mp hmem with hold | hnew
  · exact hlinked.destroyed other hold
  · rw [List.mem_singleton.mp hnew]
    exact ⟨list, hnode, hlist⟩

end Lists

end Crossbow.Allocator
