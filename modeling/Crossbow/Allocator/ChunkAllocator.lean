import Crossbow.Allocator.ChunkMemoryPool

/-! `ChunkAllocator`. The number of bytes is a product that wraps, and the pool adds
it to a pointer that wraps as well. Blocks are recorded here with the number of
bytes that was asked for. -/
namespace Crossbow.Allocator.ChunkAllocator
open Kernel ChunkMemoryPool

/-- `allocate(n)` for objects of `sizeofT` bytes. `supply` is what `new char[]`
returns, should the call need it; without one it throws. -/
structure Call where
  sizeofT : Nat
  n : Nat
  supply : Option Nat
  deriving DecidableEq, Repr

def Call.size (call : Call) : Nat := wrap (call.sizeofT * call.n)

/-- The call needs a block from `new char[]`, and there is none. -/
def Throws (pool : Pool) (call : Call) : Prop :=
  requested call.size pool ≠ none ∧ call.supply = none

instance (pool : Pool) (call : Call) : Decidable (Throws pool call) :=
  inferInstanceAs (Decidable (_ ∧ _))

/-- The pool after the call, and the address unless the call has thrown. -/
def allocate (pool : Pool) (call : Call) : Pool × Option Nat :=
  if Throws pool call then (pool, none)
  else
    let result := ChunkMemoryPool.allocate call.size (call.supply.getD 0) pool
    (result.1, some result.2)

def maxSize : Nat := wordRange - 1

def Call.block (call : Call) (address : Nat) : Block := ⟨address, call.sizeofT * call.n⟩

def next (state : ChunkMemoryPool.State) (call : Call) : Option ChunkMemoryPool.State :=
  let result := allocate state.pool call
  some ⟨result.1, state.returned ++ (result.2.map call.block).toList⟩

def machine : Machine ChunkMemoryPool.State Call where
  initial := ChunkMemoryPool.machine.initial
  next := next

/-- What `new char[]` returns is a fresh block. -/
def Supplied (state : ChunkMemoryPool.State) (call : Call) : Prop :=
  ∀ length ∈ requested call.size state.pool, ∀ address ∈ call.supply,
    Fresh state.pool.live ⟨address, length⟩

instance (state : ChunkMemoryPool.State) (call : Call) : Decidable (Supplied state call) := by
  unfold Supplied
  infer_instance

/-- The call throws, or returns a block inside of a live chunk that shares no byte
with the blocks returned earlier. -/
def Faithful (state : ChunkMemoryPool.State) (call : Call) : Prop :=
  ∀ address ∈ (allocate state.pool call).2,
    (∃ chunk ∈ (allocate state.pool call).1.live, (call.block address).Inside chunk) ∧
      ∀ earlier ∈ state.returned, Disjoint earlier.bytes (call.block address).bytes

def Fits (state : ChunkMemoryPool.State) (call : Call) : Prop :=
  Throws state.pool call ∨
    call.sizeofT * call.n < wordRange ∧
      (requested call.size state.pool ≠ none ∨
        state.pool.mCurrent + call.sizeofT * call.n < wordRange)

instance (state : ChunkMemoryPool.State) (call : Call) : Decidable (Fits state call) :=
  inferInstanceAs (Decidable (_ ∨ _))

structure Inv (state : ChunkMemoryPool.State) : Prop extends ChunkMemoryPool.State.Inv state where
  bounded : ∀ chunk ∈ state.pool.live, chunk.address + chunk.size < wordRange

variable {state : ChunkMemoryPool.State} {call : Call}

theorem allocate_throws {pool : Pool} (hthrows : Throws pool call) :
    allocate pool call = (pool, none) := if_pos hthrows

theorem supplied_getD (hsupplied : Supplied state call) (hreturns : ¬ Throws state.pool call) :
    ∀ length ∈ requested call.size state.pool,
      Fresh state.pool.live ⟨call.supply.getD 0, length⟩ := by
  intro length hlength
  cases hsupply : call.supply with
  | none => exact absurd ⟨Option.ne_none_iff_exists'.mpr ⟨length, hlength⟩, hsupply⟩ hreturns
  | some address => exact hsupplied length hlength address hsupply

theorem live_allocate {size address : Nat} {pool : Pool} {chunk : Block}
    (hchunk : chunk ∈ (ChunkMemoryPool.allocate size address pool).1.live) :
    chunk ∈ pool.live ∨ ∃ length ∈ requested size pool, chunk = ⟨address, length⟩ := by
  by_cases hfull : wrap (pool.mCurrent + size) > pool.mEnd
  · have hrequested : requested size pool = some (max size pool.mChunkSize) := by
      rw [requested, if_pos hfull]
    rw [ChunkMemoryPool.allocate, if_pos hfull] at hchunk
    by_cases hlarge : size > pool.mChunkSize
    · rw [Nat.max_eq_left (Nat.le_of_lt hlarge)] at hrequested
      rw [if_pos hlarge] at hchunk
      exact (List.mem_append.mp hchunk).imp_right fun hnew =>
        ⟨size, hrequested, List.mem_singleton.mp hnew⟩
    · rw [Nat.max_eq_right (Nat.le_of_not_lt hlarge)] at hrequested
      rw [if_neg hlarge, advance_live] at hchunk
      exact (List.mem_append.mp hchunk).imp_right fun hnew =>
        ⟨pool.mChunkSize, hrequested, List.mem_singleton.mp hnew⟩
  · rw [ChunkMemoryPool.allocate, if_neg hfull, advance_live] at hchunk
    exact Or.inl hchunk

theorem Inv.bounded_allocate (hinv : Inv state) (hsupplied : Supplied state call) :
    ∀ chunk ∈ (allocate state.pool call).1.live, chunk.address + chunk.size < wordRange := by
  unfold allocate
  split
  · exact hinv.bounded
  · rename_i hreturns
    intro chunk hchunk
    rcases live_allocate hchunk with hold | ⟨length, hlength, rfl⟩
    · exact hinv.bounded chunk hold
    · have hfresh := supplied_getD hsupplied hreturns length hlength
      have hend := hfresh.2.1
      dsimp only at hend ⊢
      omega

theorem Inv.next {after : ChunkMemoryPool.State} (hinv : Inv state)
    (hsupplied : Supplied state call) (hfits : Fits state call)
    (hnext : next state call = some after) : Inv after := by
  have hbounded := hinv.bounded_allocate hsupplied
  cases hnext
  refine ⟨?_, hbounded⟩
  by_cases hthrows : Throws state.pool call
  · rw [allocate_throws hthrows, Option.map_none, Option.toList_none, List.append_nil]
    exact hinv.toInv
  · obtain ⟨hproduct, hsum⟩ := hfits.resolve_left hthrows
    have hsize : call.size = call.sizeofT * call.n := wrap_of_lt hproduct
    have hnew := supplied_getD hsupplied hthrows
    rw [allocate, if_neg hthrows]
    dsimp only [Option.map_some, Option.toList_some, Call.block]
    rw [hsize] at hnew hsum ⊢
    exact hinv.toInv.allocate hnew hsum

theorem inv_of_reachable (hreach : machine.ReachableUnder
    (fun state call => Supplied state call ∧ Fits state call) state) : Inv state := by
  apply hreach.invariant Inv
  · rintro _ ⟨chunkSize, address, hfresh, rfl⟩
    have hend := hfresh.2.1
    refine ⟨⟨.construct hfresh, by simp, by simp, .nil⟩, ?_⟩
    intro chunk hchunk
    cases List.mem_singleton.mp hchunk
    dsimp only at hend ⊢
    omega
  · intro before call after hinv hallowed hnext
    exact hinv.next hallowed.1 hallowed.2 hnext

theorem Inv.faithful_iff (hinv : Inv state) (hsupplied : Supplied state call) :
    Faithful state call ↔ Fits state call := by
  constructor
  · intro hfaithful
    by_cases hthrows : Throws state.pool call
    · exact Or.inl hthrows
    have hbounded := hinv.bounded_allocate hsupplied
    have hrun : (allocate state.pool call).2 = some
        (ChunkMemoryPool.allocate call.size (call.supply.getD 0) state.pool).2 := by
      rw [allocate, if_neg hthrows]
    obtain ⟨⟨chunk, hchunk, _, hinside⟩, _⟩ := hfaithful _ hrun
    have hend := hbounded chunk hchunk
    dsimp only [Call.block] at hinside
    refine Or.inr ⟨by omega, ?_⟩
    by_cases hrequested : requested call.size state.pool = none
    · -- the block starts at the pointer
      refine Or.inr ?_
      have haddress : (ChunkMemoryPool.allocate call.size (call.supply.getD 0) state.pool).2 =
          state.pool.mCurrent := by
        have hfits : ¬ wrap (state.pool.mCurrent + call.size) > state.pool.mEnd := by
          intro hfull
          rw [requested, if_pos hfull] at hrequested
          cases hrequested
        rw [ChunkMemoryPool.allocate, if_neg hfits, advance]
      omega
    · exact Or.inl hrequested
  · intro hfits address haddress
    have hafter := hinv.next hsupplied hfits rfl
    have hmem : call.block address ∈
        state.returned ++ ((allocate state.pool call).2.map call.block).toList := by
      rw [haddress]
      simp
    refine ⟨(hafter.placed _ hmem).2, fun earlier hearlier => ?_⟩
    have hdisjoint := hafter.disjoint
    dsimp only at hdisjoint
    rw [haddress, List.pairwise_append] at hdisjoint
    exact hdisjoint.2.2 earlier hearlier _ (by simp)

/-- Every run in which neither the products nor the pointers wrap hands out blocks
of the size that was asked for; and in it, a call is faithful only if its own
product and pointer do not wrap. -/
theorem chunk_allocator_faithful_iff (state : ChunkMemoryPool.State)
    (hreach : machine.ReachableUnder
      (fun state call => Supplied state call ∧ Fits state call) state) :
    (∀ block ∈ state.returned, ∃ chunk ∈ state.pool.live, block.Inside chunk) ∧
      (state.returned.Pairwise fun first second => Disjoint first.bytes second.bytes) ∧
      ∀ call, Supplied state call → (Faithful state call ↔ Fits state call) := by
  have hinv := inv_of_reachable hreach
  exact ⟨fun block hblock => (hinv.placed block hblock).2, hinv.disjoint,
    fun call => hinv.faithful_iff⟩

/-- A pool of chunks of 64 bytes, and two calls that it serves. -/
theorem chunk_allocator_faithful_small :
    ∃ state, machine.ReachableUnder (fun state call => Supplied state call ∧ Fits state call)
        state ∧ state.returned = [⟨1024, 24⟩, ⟨4096, 80⟩] ∧
      Faithful state ⟨8, 5, none⟩ ∧ ¬ Faithful state ⟨8, 2 ^ 61, none⟩ := by
  obtain ⟨state, hreach, htest⟩ := Machine.exists_reachableUnder_of_replay machine
    (fun state call => Supplied state call ∧ Fits state call) ⟨construct 64 1024, []⟩
    [⟨8, 3, none⟩, ⟨16, 5, some 4096⟩]
    (fun state => decide (state.returned = [⟨1024, 24⟩, ⟨4096, 80⟩]) &&
      (decide (Supplied state ⟨8, 5, none⟩) && decide (Fits state ⟨8, 5, none⟩)) &&
      (decide (Supplied state ⟨8, 2 ^ 61, none⟩) && decide (¬ Fits state ⟨8, 2 ^ 61, none⟩)))
    ⟨64, 1024, by decide +kernel, rfl⟩ (by decide +kernel)
  simp only [Bool.and_eq_true, decide_eq_true_eq] at htest
  obtain ⟨⟨hreturned, hsmall, hfits⟩, hlarge, hwraps⟩ := htest
  have hiff := (chunk_allocator_faithful_iff state hreach).2.2
  exact ⟨state, hreach, hreturned, (hiff _ hsmall).mpr hfits, fun hfaithful =>
    hwraps ((hiff _ hlarge).mp hfaithful)⟩

/-- `2 ^ 61` objects of 8 bytes are no bytes at all, and `2 ^ 64 - 16` bytes end in
front of where they start; either call returns the pointer, which stays in the chunk
or goes back to a block that was handed out. -/
theorem wrapped_sizes_returned :
    2 ^ 61 ≤ maxSize ∧ 2 ^ 64 - 16 ≤ maxSize ∧
      allocate (construct 64 1024) ⟨8, 2 ^ 61, none⟩ = (construct 64 1024, some 1024) ∧
      (∀ chunk ∈ (construct 64 1024).live,
        ¬ ((⟨8, 2 ^ 61, none⟩ : Call).block 1024).Inside chunk) ∧
      (machine.replay (fun _ _ => true) ⟨construct 64 1024, []⟩
        [⟨1, 32, none⟩, ⟨1, 2 ^ 64 - 16, none⟩, ⟨1, 8, none⟩]).map ChunkMemoryPool.State.returned =
          some [⟨1024, 32⟩, ⟨1056, 2 ^ 64 - 16⟩, ⟨1040, 8⟩] := by
  refine ⟨by decide, by decide, by decide +kernel, ?_, by decide +kernel⟩
  intro chunk hchunk hinside
  cases List.mem_singleton.mp hchunk
  exact absurd hinside.2 (by decide)

end Crossbow.Allocator.ChunkAllocator
