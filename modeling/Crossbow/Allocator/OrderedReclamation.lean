import Crossbow.Allocator.OrderedAllocator

/-! Order of reclamation. A rotation destroys what was freed first; so the nodes that wait,
taken in the order in which they would be destroyed, only change when a node is freed. -/
namespace Crossbow.Allocator.Ordered
open Kernel

variable {Node D : Type} [DecidableEq Node]

/-- The lists that the pointers name and the nodes that hang on them, in the order of their
calls. -/
structure Placed (state : State Node D) (chains : Nat → Nat → List Node) : Prop where
  odd : state.count state.globals.activeCnt % 2 = 1
  oldList : state.globals.oldList = state.globals.oldestList + 1
  activeList : state.globals.activeList = state.globals.oldestList + 2
  nextList : state.globals.nextList = state.globals.oldestList + 3
  chain : ∀ list, state.globals.oldestList ≤ list → ∀ bucket < numLists,
    Chain state.next (state.head list bucket) (chains list bucket).reverse
  empty : ∀ list, state.globals.nextList ≤ list → ∀ bucket, chains list bucket = []

/-- The nodes that wait, in the order in which `destroy` would reclaim them. -/
def waiting (globals : Globals) (chains : Nat → Nat → List Node) : List Node :=
  flat (chains globals.oldestList) numLists ++
    (flat (chains globals.oldList) numLists ++ flat (chains globals.activeList) numLists)

/-- What was reclaimed and what waits are the first calls, those in order as they came. -/
structure Recorded (state : State Node D) (waiting : List Node) : Prop where
  marks : ∀ node, state.next node = .mark ↔ node ∉ state.calls.map Free.node
  nodes : (state.ran.map Prod.fst ++ waiting).Perm ((firstFrees state.calls).map Free.node)
  ordered : (((firstFrees state.calls).filter Free.inOrder).map Free.node).Sublist
    (state.ran.map Prod.fst ++ waiting)
  assigned : ∀ call ∈ firstFrees state.calls, state.destruct call.node = some call.destruct
  logged : ∀ entry ∈ state.ran, entry.2 = state.destruct entry.1

section Reclaiming

variable {state after : State Node D} {chains : Nat → Nat → List Node}

theorem Recorded.reclaim {nodes rest : List Node} (hrecorded : Recorded state (nodes ++ rest)) :
    Recorded (state.reclaim nodes) rest := by
  have hmoved : (state.reclaim nodes).ran.map Prod.fst ++ rest =
      state.ran.map Prod.fst ++ (nodes ++ rest) := by
    simp [State.reclaim, Function.comp_def]
  constructor
  · exact hrecorded.marks
  · rw [hmoved]
    exact hrecorded.nodes
  · rw [hmoved]
    exact hrecorded.ordered
  · exact hrecorded.assigned
  · intro entry hentry
    rcases List.mem_append.mp hentry with hold | hnew
    · exact hrecorded.logged entry hold
    · obtain ⟨node, _, rfl⟩ := List.mem_map.mp hnew
      rfl

omit [DecidableEq Node] in
theorem deleteList_eq {fuel list : Nat} {lists : Nat → List Node}
    (hdelete : state.deleteList fuel list = some after)
    (hchains : ∀ bucket < numLists,
      Chain state.next (state.head list bucket) (lists bucket).reverse) :
    after = state.reclaim (flat lists numLists) := by
  obtain ⟨order, horder, rfl⟩ := Option.map_eq_some_iff.mp hdelete
  rw [destructLists_order hchains horder]

theorem Placed.destroy (hplaced : Placed state chains)
    (hrecorded : Recorded state (waiting state.globals chains)) {fuel : Nat}
    (hnext : perform state (.destroy fuel) = some after) :
    after.finished = true ∧ Recorded after [] := by
  obtain ⟨first, hfirst, hnext⟩ := Option.bind_eq_some_iff.mp hnext
  obtain ⟨second, hsecond, hnext⟩ := Option.bind_eq_some_iff.mp hnext
  obtain ⟨third, hthird, rfl⟩ := Option.map_eq_some_iff.mp hnext
  have hold := hplaced.oldList
  have hactive := hplaced.activeList
  cases deleteList_eq hfirst (hplaced.chain _ (Nat.le_refl _))
  cases deleteList_eq hsecond (hplaced.chain state.globals.oldList (by omega))
  cases deleteList_eq hthird (hplaced.chain state.globals.activeList (by omega))
  have hlast := hrecorded.reclaim.reclaim
  rw [← List.append_nil (flat (chains state.globals.activeList) numLists)] at hlast
  have hdone := hlast.reclaim
  exact ⟨rfl, hdone.marks, hdone.nodes, hdone.ordered, hdone.assigned, hdone.logged⟩

theorem Placed.tryRotate (hplaced : Placed state chains)
    (hrecorded : Recorded state (waiting state.globals chains)) {fuel : Nat}
    (hrotate : state.tryRotate fuel = some after) :
    Placed after chains ∧ Recorded after (waiting after.globals chains) := by
  simp only [State.tryRotate] at hrotate
  split at hrotate
  · rename_i hzero
    obtain ⟨hoac, _, _⟩ := hzero
    have hold := hplaced.oldList
    have hactive := hplaced.activeList
    have hlast := hplaced.nextList
    cases deleteList_eq hrotate (hplaced.chain _ (Nat.le_refl _))
    constructor
    · constructor
      · -- the counter that becomes the active one was zero
        have hother : state.globals.oldestCnt ≠ state.globals.activeCnt := by
          intro hsame
          have hodd := hplaced.odd
          rw [← hsame, hoac] at hodd
          contradiction
        simp only [State.reclaim, rotate, Function.update_self, Function.update_of_ne hother, hoac]
        rw [wrap_of_lt (by decide)]
      · show state.globals.activeList = state.globals.oldList + 1
        omega
      · show state.globals.nextList = state.globals.oldList + 2
        omega
      · show state.globals.nextList + 1 = state.globals.oldList + 3
        omega
      · intro list (hlist : state.globals.oldList ≤ list)
        exact hplaced.chain list (by omega)
      · intro list (hlist : state.globals.nextList + 1 ≤ list)
        exact hplaced.empty list (by omega)
    · have hnew : flat (chains state.globals.nextList) numLists = [] :=
        flat_of_empty (hplaced.empty _ (Nat.le_refl _)) _
      have hwaiting : waiting (rotate state.globals) chains =
          flat (chains state.globals.oldList) numLists ++
            flat (chains state.globals.activeList) numLists := by
        simp only [waiting, rotate, hnew, List.append_nil]
      have hreclaimed := hrecorded.reclaim
      rw [← hwaiting] at hreclaimed
      exact ⟨hreclaimed.marks, hreclaimed.nodes, hreclaimed.ordered, hreclaimed.assigned,
        hreclaimed.logged⟩
  · cases hrotate
    exact ⟨hplaced, hrecorded⟩

omit [DecidableEq Node] in
theorem tryRotate_finished {fuel : Nat} (hfinished : state.finished = false)
    (hrotate : state.tryRotate fuel = some after) : after.finished = false := by
  simp only [State.tryRotate] at hrotate
  split at hrotate
  · obtain ⟨nodes, _, rfl⟩ := Option.map_eq_some_iff.mp hrotate
    exact hfinished
  · cases hrotate
    exact hfinished

omit [DecidableEq Node] in
theorem Placed.setCount (hplaced : Placed state chains) {count : Nat → Nat} (guards : List Nat)
    (hodd : count state.globals.activeCnt % 2 = 1) :
    Placed { state with count := count, guards := guards } chains :=
  ⟨hodd, hplaced.oldList, hplaced.activeList, hplaced.nextList, hplaced.chain, hplaced.empty⟩

theorem Recorded.setCount {nodes : List Node} (hrecorded : Recorded state nodes)
    (count : Nat → Nat) (guards : List Nat) :
    Recorded { state with count := count, guards := guards } nodes :=
  ⟨hrecorded.marks, hrecorded.nodes, hrecorded.ordered, hrecorded.assigned, hrecorded.logged⟩

end Reclaiming

section Freeing

variable {state : State Node D} {chains : Nat → Nat → List Node} {node : Node} {destruct : D}
  {mycnt : Nat}

theorem append_of_mark (hmark : state.next node = .mark) :
    state.append node mycnt destruct = { state with
      next := Function.update state.next node
        (.ofHead (state.head state.globals.activeList (mycnt % numLists)))
      destruct := Function.update state.destruct node (some destruct)
      head := Function.update state.head state.globals.activeList
        (Function.update (state.head state.globals.activeList) (mycnt % numLists)
          (some node)) } := by
  simp only [State.append, hmark]

theorem append_of_owned (howned : state.next node ≠ .mark) :
    state.append node mycnt destruct = state := by
  unfold State.append
  split
  · contradiction
  · rfl
  · rfl

def push (globals : Globals) (chains : Nat → Nat → List Node) (bucket : Nat) (node : Node) :
    Nat → Nat → List Node :=
  Function.update chains globals.activeList (Function.update (chains globals.activeList) bucket
    (chains globals.activeList bucket ++ [node]))

omit [DecidableEq Node] in
theorem Placed.mem_waiting (hplaced : Placed state chains) {list bucket : Nat}
    (hlist : state.globals.oldestList ≤ list) (hbucket : bucket < numLists)
    (hnode : node ∈ chains list bucket) : node ∈ waiting state.globals chains := by
  have hold := hplaced.oldList
  have hactive := hplaced.activeList
  have hlast := hplaced.nextList
  have hcase : list = state.globals.oldestList ∨ list = state.globals.oldList ∨
      list = state.globals.activeList ∨ state.globals.nextList ≤ list := by
    omega
  simp only [waiting, List.mem_append]
  rcases hcase with rfl | rfl | rfl | hnew
  · exact .inl (mem_flat hbucket hnode)
  · exact .inr (.inl (mem_flat hbucket hnode))
  · exact .inr (.inr (mem_flat hbucket hnode))
  · rw [hplaced.empty list hnew] at hnode
    contradiction

theorem Placed.append (hplaced : Placed state chains) (hmark : state.next node = .mark)
    (hfresh : node ∉ waiting state.globals chains) (calls : List (Free Node D)) :
    Placed { state.append node mycnt destruct with calls := calls }
      (push state.globals chains (mycnt % numLists) node) := by
  have hactive := hplaced.activeList
  have hlast := hplaced.nextList
  have habsent : ∀ list, state.globals.oldestList ≤ list → ∀ bucket < numLists,
      node ∉ (chains list bucket).reverse := by
    intro list hlist bucket hbucket hnode
    exact hfresh (hplaced.mem_waiting hlist hbucket (List.mem_reverse.mp hnode))
  rw [append_of_mark hmark]
  refine ⟨hplaced.odd, hplaced.oldList, hplaced.activeList, hplaced.nextList, ?_, ?_⟩
  · intro list hlist bucket hbucket
    have hframe := (hplaced.chain list hlist bucket hbucket).update
      (habsent list hlist bucket hbucket)
      (.ofHead (state.head state.globals.activeList (mycnt % numLists)))
    by_cases hother : list = state.globals.activeList
    · subst hother
      by_cases hsame : bucket = mycnt % numLists
      · subst hsame
        simp only [push, Function.update_self, List.reverse_append, List.reverse_singleton,
          List.singleton_append]
        exact ⟨rfl, _, Function.update_self .., hframe⟩
      · simp only [push, Function.update_self, Function.update_of_ne hsame]
        exact hframe
    · simp only [push, Function.update_of_ne hother]
      exact hframe
  · intro list (hlist : state.globals.nextList ≤ list) bucket
    rw [push, Function.update_of_ne (by omega)]
    exact hplaced.empty list hlist bucket

omit [DecidableEq Node] in
theorem Placed.waiting_push (hplaced : Placed state chains) (bucket : Nat) (node : Node) :
    waiting state.globals (push state.globals chains bucket node) =
      flat (chains state.globals.oldestList) numLists ++
        (flat (chains state.globals.oldList) numLists ++
          flat (Function.update (chains state.globals.activeList) bucket
            (chains state.globals.activeList bucket ++ [node])) numLists) := by
  have hold := hplaced.oldList
  have hactive := hplaced.activeList
  simp only [waiting, push, Function.update_self]
  rw [Function.update_of_ne (show state.globals.oldestList ≠ state.globals.activeList by omega),
    Function.update_of_ne (show state.globals.oldList ≠ state.globals.activeList by omega)]

theorem Recorded.append {before after : List Node} (hrecorded : Recorded state before)
    (hmark : state.next node = .mark) (mycnt : Nat) (destruct : D) (inOrder : Bool)
    (hperm : after.Perm (node :: before))
    (hsublist : before.Sublist after) (hend : inOrder = true → after = before ++ [node]) :
    Recorded { state.append node mycnt destruct with
      calls := state.calls ++ [⟨node, destruct, inOrder⟩] } after := by
  have hnew := (hrecorded.marks node).mp hmark
  have hfirst : firstFrees (state.calls ++ [⟨node, destruct, inOrder⟩]) =
      firstFrees state.calls ++ [⟨node, destruct, inOrder⟩] := by
    rw [firstFrees_append, if_neg hnew]
  have hother : ∀ other ∈ (firstFrees state.calls).map Free.node, other ≠ node := by
    rintro other hmem rfl
    exact hnew ((mem_firstFrees _ _).mp hmem)
  rw [append_of_mark hmark]
  constructor
  · intro other
    by_cases hsame : other = node
    · subst hsame
      cases state.head state.globals.activeList (mycnt % numLists) <;> simp [Link.ofHead]
    · simp [hsame, hrecorded.marks other]
  · rw [hfirst, List.map_append]
    calc state.ran.map Prod.fst ++ after
        |>.Perm (state.ran.map Prod.fst ++ (node :: before)) := hperm.append_left _
      _ |>.Perm (node :: (state.ran.map Prod.fst ++ before)) := List.perm_middle
      _ |>.Perm (node :: (firstFrees state.calls).map Free.node) := hrecorded.nodes.cons node
      _ |>.Perm _ := (List.perm_append_singleton node _).symm
  · rw [hfirst, List.filter_append, List.map_append]
    cases inOrder with
    | false =>
        rw [List.filter_cons_of_neg (by simp), List.filter_nil, List.map_nil, List.append_nil]
        exact hrecorded.ordered.trans (hsublist.append_left _)
    | true =>
        rw [hend rfl, ← List.append_assoc]
        exact hrecorded.ordered.append (List.Sublist.refl _)
  · intro call hcall
    rw [hfirst] at hcall
    rcases List.mem_append.mp hcall with hold | hlast
    · have hne := hother call.node (List.mem_map_of_mem hold)
      simp only [Function.update_of_ne hne]
      exact hrecorded.assigned call hold
    · cases List.mem_singleton.mp hlast
      simp
  · intro entry hentry
    have hran : entry.1 ∈ (firstFrees state.calls).map Free.node :=
      hrecorded.nodes.subset (List.mem_append_left _ (List.mem_map_of_mem hentry))
    simp only [Function.update_of_ne (hother _ hran)]
    exact hrecorded.logged entry hentry

theorem Recorded.repeated {nodes : List Node} (hrecorded : Recorded state nodes)
    (howned : state.next node ≠ .mark) (mycnt : Nat) (destruct : D) (inOrder : Bool) :
    Recorded { state.append node mycnt destruct with
      calls := state.calls ++ [⟨node, destruct, inOrder⟩] } nodes := by
  have hknown : node ∈ state.calls.map Free.node := by
    by_contra hnew
    exact howned ((hrecorded.marks node).mpr hnew)
  have hfirst : firstFrees (state.calls ++ [⟨node, destruct, inOrder⟩]) =
      firstFrees state.calls := by
    rw [firstFrees_append, if_pos hknown]
  rw [append_of_owned howned]
  refine ⟨?_, ?_, ?_, ?_, hrecorded.logged⟩
  · intro other
    rw [hrecorded.marks, List.map_append, List.mem_append, not_or]
    refine ⟨fun hother => ⟨hother, ?_⟩, And.left⟩
    rintro hsame
    cases List.mem_singleton.mp hsame
    exact hother hknown
  · rw [hfirst]
    exact hrecorded.nodes
  · rw [hfirst]
    exact hrecorded.ordered
  · rw [hfirst]
    exact hrecorded.assigned

end Freeing

/-- Before `destroy` every first call was reclaimed or waits, afterwards all were reclaimed. -/
def Inv (state : State Node D) : Prop :=
  (state.finished = false ∧
      ∃ chains, Placed state chains ∧ Recorded state (waiting state.globals chains)) ∨
    (state.finished = true ∧ Recorded state [])

theorem inv_start : Inv (start : State Node D) := by
  refine .inl ⟨rfl, fun _ _ => [], ⟨rfl, rfl, rfl, rfl, fun _ _ _ _ => rfl, fun _ _ _ => rfl⟩, ?_⟩
  have hnone : ∀ globals : Globals, waiting globals (fun _ _ => ([] : List Node)) = [] := by
    intro globals
    simp only [waiting, flat_of_empty fun _ => rfl, List.append_nil]
  rw [hnone]
  exact ⟨by simp [start], .nil, .slnil, by simp [start, firstFrees], by simp [start]⟩

section Steps

variable {state after : State Node D} {chains : Nat → Nat → List Node}

theorem Inv.free (hplaced : Placed state chains)
    (hrecorded : Recorded state (waiting state.globals chains)) (hfinished : state.finished = false)
    (node : Node) (mycnt : Nat) (destruct : D) {inOrder : Bool}
    (horder : inOrder = true → mycnt % numLists = 0) :
    Inv { state.append node mycnt destruct with
      calls := state.calls ++ [⟨node, destruct, inOrder⟩] } := by
  have hbucket : mycnt % numLists < numLists := Nat.mod_lt _ (by decide)
  by_cases hmark : state.next node = .mark
  · have hfresh : node ∉ waiting state.globals chains := by
      intro hwaits
      have hfirst := hrecorded.nodes.subset (List.mem_append_right _ hwaits)
      exact (hrecorded.marks node).mp hmark ((mem_firstFrees _ _).mp hfirst)
    have hpushed := hplaced.waiting_push (mycnt % numLists) node
    obtain ⟨hperm, hsublist⟩ := flat_update (chains state.globals.activeList) hbucket node
    have hglobals : (state.append node mycnt destruct).globals = state.globals := by
      rw [append_of_mark hmark]
    have hopen : (state.append node mycnt destruct).finished = false := by
      rw [append_of_mark hmark, hfinished]
    refine .inl ⟨hopen, push state.globals chains (mycnt % numLists) node,
      hplaced.append hmark hfresh _, ?_⟩
    have hstep : Recorded { state.append node mycnt destruct with
        calls := state.calls ++ [⟨node, destruct, inOrder⟩] }
        (waiting state.globals (push state.globals chains (mycnt % numLists) node)) := by
      rw [hpushed]
      apply hrecorded.append hmark mycnt destruct inOrder
      · have hinner := (hperm.append_left (flat (chains state.globals.oldList) numLists)).trans
          List.perm_middle
        exact (hinner.append_left _).trans List.perm_middle
      · exact (hsublist.append_left _).append_left _
      · intro hcall
        rw [horder hcall, show numLists = 63 + 1 from rfl, flat_update_zero, waiting]
        simp only [List.append_assoc]
        rfl
    simpa only [hglobals] using hstep
  · have hrepeated := hrecorded.repeated hmark mycnt destruct inOrder
    rw [append_of_owned hmark] at hrepeated ⊢
    exact .inl ⟨hfinished, chains, ⟨hplaced.odd, hplaced.oldList, hplaced.activeList,
      hplaced.nextList, hplaced.chain, hplaced.empty⟩, hrepeated⟩

theorem Inv.next {label : Label Node D} (hinv : Inv state)
    (hnext : next state label = some after) : Inv after := by
  rcases hinv with ⟨hfinished, chains, hplaced, hrecorded⟩ | ⟨hfinished, _⟩
  · rw [Ordered.next, if_neg (by simp [hfinished])] at hnext
    cases label with
    | enter =>
        simp only [perform] at hnext
        split at hnext
        · cases hnext
          refine .inl ⟨hfinished, chains, hplaced.setCount _ ?_, hrecorded.setCount _ _⟩
          rw [Function.update_self, wrap_mod_two, Nat.add_mod_right]
          exact hplaced.odd
        · contradiction
    | leave index fuel =>
        simp only [perform] at hnext
        split at hnext
        · rename_i cnt _
          have hodd : (state.release cnt index).count state.globals.activeCnt % 2 = 1 := by
            simp only [State.release, Function.update_apply]
            split
            · rename_i hsame
              rw [wrapSub_two_mod_two, ← hsame]
              exact hplaced.odd
            · exact hplaced.odd
          obtain ⟨hplaced, hrecorded⟩ := (hplaced.setCount _ hodd).tryRotate
            (hrecorded.setCount _ _) hnext
          have hopen : (state.release cnt index).finished = false := hfinished
          exact .inl ⟨tryRotate_finished hopen hnext, chains, hplaced, hrecorded⟩
        · contradiction
    | free node mycnt destruct =>
        simp only [perform] at hnext
        split at hnext
        · contradiction
        · cases hnext
          exact .free hplaced hrecorded hfinished node mycnt destruct (by simp)
    | freeInOrder node destruct =>
        simp only [perform] at hnext
        split at hnext
        · contradiction
        · cases hnext
          exact .free hplaced hrecorded hfinished node 0 destruct fun _ => rfl
    | destroy fuel => exact .inr (hplaced.destroy hrecorded hnext)
  · simp [Ordered.next, hfinished] at hnext

theorem inv_of_reachable (hreach : machine.Reachable state) : Inv state := by
  apply hreach.invariant Inv
  · rintro _ rfl
    exact inv_start
  · intro before label after hinv _ hnext
    exact hinv.next hnext

end Steps

section Results

variable {state : State Node D} {chains : Nat → Nat → List Node} {fuel : Nat}

omit [DecidableEq Node] in
theorem deleteList_isSome {list : Nat} {lists : Nat → List Node}
    (hchains : ∀ bucket < numLists,
      Chain state.next (state.head list bucket) (lists bucket).reverse)
    (hfuel : (flat lists numLists).length ≤ fuel) : (state.deleteList fuel list).isSome := by
  rw [State.deleteList, Option.isSome_map]
  exact destructLists_isSome hchains hfuel

theorem Recorded.length_le {nodes : List Node} (hrecorded : Recorded state nodes) :
    nodes.length ≤ state.calls.length := by
  have hlength := hrecorded.nodes.length_eq
  have hfirst := length_firstFrees_le state.calls
  simp only [List.length_append, List.length_map] at hlength
  omega

theorem Placed.leave_isSome (hplaced : Placed state chains)
    (hrecorded : Recorded state (waiting state.globals chains)) (hfuel : state.calls.length ≤ fuel)
    {index : Nat} (hindex : index < state.guards.length) :
    (perform state (.leave index fuel)).isSome := by
  have hlength := hrecorded.length_le
  simp only [waiting, List.length_append] at hlength
  simp only [perform, List.getElem?_eq_getElem hindex, State.tryRotate]
  split
  · have henough : (flat (chains state.globals.oldestList) numLists).length ≤ fuel := by omega
    exact deleteList_isSome (hplaced.chain _ (Nat.le_refl _)) henough
  · rfl

theorem Placed.destroy_isSome (hplaced : Placed state chains)
    (hrecorded : Recorded state (waiting state.globals chains))
    (hfuel : state.calls.length ≤ fuel) : (perform state (.destroy fuel)).isSome := by
  have hlength := hrecorded.length_le
  simp only [waiting, List.length_append] at hlength
  have hold := hplaced.oldList
  have hactive := hplaced.activeList
  obtain ⟨first, hfirst⟩ := Option.isSome_iff_exists.mp
    (deleteList_isSome (hplaced.chain _ (Nat.le_refl _)) (show _ ≤ fuel by omega))
  cases deleteList_eq hfirst (hplaced.chain _ (Nat.le_refl _))
  have hchainsOld := hplaced.chain state.globals.oldList (by omega)
  obtain ⟨second, hsecond⟩ := Option.isSome_iff_exists.mp
    (@deleteList_isSome _ _ (state.reclaim (flat (chains state.globals.oldestList) numLists)) fuel
      state.globals.oldList _ hchainsOld (by omega))
  cases deleteList_eq hsecond hchainsOld
  have hchainsActive := hplaced.chain state.globals.activeList (by omega)
  simp only [perform, hfirst, Option.bind_some]
  rw [show (state.reclaim (flat (chains state.globals.oldestList) numLists)).globals.oldList =
    state.globals.oldList from rfl, hsecond, Option.bind_some, Option.isSome_map]
  exact deleteList_isSome hchainsActive (by omega)

theorem Recorded.count_ran (hrecorded : Recorded state []) (node : Node) :
    (state.ran.map Prod.fst).count node = if node ∈ state.calls.map Free.node then 1 else 0 := by
  have hnodes := hrecorded.nodes
  rw [List.append_nil] at hnodes
  rw [hnodes.count_eq, (nodup_firstFrees state.calls).count]
  simp only [mem_firstFrees]

theorem Recorded.entry_of_ran (hrecorded : Recorded state []) {entry : Node × Option D}
    (hentry : entry ∈ state.ran) : ∃ call ∈ firstFrees state.calls, entry = call.entry := by
  have hmem : entry.1 ∈ (firstFrees state.calls).map Free.node :=
    hrecorded.nodes.subset (List.mem_append_left _ (List.mem_map_of_mem hentry))
  obtain ⟨call, hcall, hnode⟩ := List.mem_map.mp hmem
  refine ⟨call, hcall, Prod.ext hnode.symm ?_⟩
  rw [hrecorded.logged entry hentry, ← hnode, hrecorded.assigned call hcall]
  rfl

theorem Recorded.ran_in_order (hrecorded : Recorded state []) :
    (((firstFrees state.calls).filter Free.inOrder).map Free.entry).Sublist state.ran := by
  have hordered := hrecorded.ordered.map fun node => (node, state.destruct node)
  rw [List.append_nil, List.map_map, List.map_map] at hordered
  have hran : state.ran.map ((fun node => (node, state.destruct node)) ∘ Prod.fst) = state.ran := by
    rw [List.map_congr_left, List.map_id]
    intro entry hentry
    exact Prod.ext rfl (hrecorded.logged entry hentry).symm
  have hcalls : ((firstFrees state.calls).filter Free.inOrder).map
      ((fun node => (node, state.destruct node)) ∘ Free.node) =
      ((firstFrees state.calls).filter Free.inOrder).map Free.entry := by
    apply List.map_congr_left
    intro call hcall
    exact Prod.ext rfl (hrecorded.assigned call (List.mem_of_mem_filter hcall))
  rwa [hran, hcalls] at hordered

end Results

/-- All operations return. After `destroy` each pointer that was freed was reclaimed once, with
the function of its first call, and the calls in order in the order of the calls. -/
theorem reclaimed_once_in_order (state : State Node D) (hreach : machine.Reachable state) :
    (state.finished = false → (next state .enter).isSome ∧
      ∀ fuel, state.calls.length ≤ fuel → (next state (.destroy fuel)).isSome ∧
        ∀ index < state.guards.length, (next state (.leave index fuel)).isSome) ∧
    (state.finished = true →
      (∀ node, (state.ran.map Prod.fst).count node =
        if node ∈ state.calls.map Free.node then 1 else 0) ∧
      (∀ entry ∈ state.ran, ∃ call ∈ firstFrees state.calls, entry = call.entry) ∧
      (((firstFrees state.calls).filter Free.inOrder).map Free.entry).Sublist state.ran) := by
  constructor
  · intro hopen
    rcases inv_of_reachable hreach with ⟨_, chains, hplaced, hrecorded⟩ | ⟨hfinished, _⟩
    · have hnext : ∀ label, next state label = perform state label := by
        intro label
        rw [next, if_neg (by simp [hopen])]
      simp only [hnext]
      refine ⟨?_, fun fuel hfuel => ⟨hplaced.destroy_isSome hrecorded hfuel, fun index hindex =>
        hplaced.leave_isSome hrecorded hfuel hindex⟩⟩
      simp only [perform, if_pos hplaced.odd]
      rfl
    · simp [hopen] at hfinished
  · intro hfinished
    rcases inv_of_reachable hreach with ⟨hopen, _⟩ | ⟨_, hrecorded⟩
    · simp [hopen] at hfinished
    · exact ⟨hrecorded.count_ran, fun entry => hrecorded.entry_of_ran, hrecorded.ran_in_order⟩

/-- Node 0 is freed twice, and a guard that leaves rotates the lists between the calls. -/
def acrossRotations : List (Label Nat Nat) :=
  [.enter, .freeInOrder 0 10, .free 1 5 11, .freeInOrder 0 12, .leave 0 3, .enter,
    .freeInOrder 2 13, .leave 0 4, .enter, .free 3 64 14, .freeInOrder 4 15, .destroy 6]

theorem across_rotations_in_order :
    ∃ state : State Nat Nat, machine.Reachable state ∧
      state.ran = [(1, some 11), (0, some 10), (2, some 13), (3, some 14), (4, some 15)] ∧
      [(0, some 10), (2, some 13), (4, some 15)].Sublist state.ran ∧
      (state.ran.map Prod.fst).count 0 = 1 := by
  obtain ⟨state, hreach, htest⟩ := Machine.exists_reachable_of_replay machine start acrossRotations
    (fun state : State Nat Nat => decide (state.finished = true ∧
      state.ran = [(1, some 11), (0, some 10), (2, some 13), (3, some 14), (4, some 15)] ∧
      ((firstFrees state.calls).filter Free.inOrder).map Free.entry =
        [(0, some 10), (2, some 13), (4, some 15)] ∧
      0 ∈ state.calls.map Free.node))
    rfl (by decide +kernel)
  obtain ⟨hfinished, hran, hfirst, hfreed⟩ := of_decide_eq_true htest
  obtain ⟨hcount, _, hordered⟩ := (reclaimed_once_in_order state hreach).2 hfinished
  rw [hfirst] at hordered
  exact ⟨state, hreach, hran, hordered, (hcount 0).trans (if_pos hfreed)⟩

end Crossbow.Allocator.Ordered
