import Crossbow.Infinio.ByteBuffer
import Crossbow.Kernel.Machine
import Mathlib.Data.List.Pairwise
import Mathlib.Order.CompletePartialOrder
import Mathlib.Order.Interval.Set.Disjoint

/-! `ChunkMemoryPool`. Blocks are cut from the current chunk by a pointer that is rounded up
after each call and may pass the end of the chunk; a block larger than a chunk is a chunk of
its own and leaves the current one in place. -/
namespace Crossbow.Allocator.ChunkMemoryPool
open Kernel Infinio

structure Block where
  address : Nat
  size : Nat
  deriving DecidableEq, Repr

def Block.bytes (block : Block) : Set Nat :=
  Set.Ico block.address (block.address + block.size)

def Block.Inside (block chunk : Block) : Prop :=
  chunk.address ≤ block.address ∧ block.address + block.size ≤ chunk.address + chunk.size

/-- `live` are the blocks that `new char[]` returned to the pool; it deletes none of them. -/
structure Pool where
  mChunkSize : Nat
  mCurrent : Nat
  mEnd : Nat
  mChunks : List Nat
  live : List Block
  deriving DecidableEq, Repr

/-- The constructor, with the address that `new char[mChunkSize]` returns. -/
def construct (chunkSize address : Nat) : Pool where
  mChunkSize := chunkSize
  mCurrent := address
  mEnd := wrap (address + chunkSize)
  mChunks := [address]
  live := [⟨address, chunkSize⟩]

def appendNewChunk (address : Nat) (pool : Pool) : Pool :=
  { pool with
    mCurrent := address
    mEnd := wrap (address + pool.mChunkSize)
    mChunks := pool.mChunks ++ [address]
    live := pool.live ++ [⟨address, pool.mChunkSize⟩] }

/-- The last three lines of `allocate`. -/
def advance (size : Nat) (pool : Pool) : Pool × Nat :=
  ({ pool with mCurrent := align (wrap (pool.mCurrent + size)) 8 }, pool.mCurrent)

/-- `address` is what `new char[]` returns, should the call need it. -/
def allocate (size address : Nat) (pool : Pool) : Pool × Nat :=
  if wrap (pool.mCurrent + size) > pool.mEnd then
    if size > pool.mChunkSize then
      ({ pool with
          mChunks := pool.mChunks ++ [address]
          live := pool.live ++ [⟨address, size⟩] }, address)
    else advance size (appendNewChunk address pool)
  else advance size pool

/-- The argument of `new char[]` in `allocate`. -/
def requested (size : Nat) (pool : Pool) : Option Nat :=
  if wrap (pool.mCurrent + size) > pool.mEnd then some (max size pool.mChunkSize) else none

/-- An aligned block apart from the live ones, at least eight bytes before the end of the
address space: neither its end nor the sum that `align` forms from its end wraps around. -/
def Fresh (live : List Block) (block : Block) : Prop :=
  8 ∣ block.address ∧ block.address + block.size + 8 ≤ wordRange ∧
    ∀ other ∈ live, Disjoint other.bytes block.bytes

structure State where
  pool : Pool
  returned : List Block
  deriving DecidableEq, Repr

structure Call where
  size : Nat
  address : Nat
  deriving DecidableEq, Repr

def next (state : State) (call : Call) : Option State :=
  let result := allocate call.size call.address state.pool
  some ⟨result.1, state.returned ++ [⟨result.2, call.size⟩]⟩

def machine : Machine State Call where
  initial := fun state => ∃ chunkSize address, Fresh [] ⟨address, chunkSize⟩ ∧
    state = ⟨construct chunkSize address, []⟩
  next := next

/-- `new char[]` keeps its contract and `mCurrent + size` does not wrap. -/
def Sound (state : State) (call : Call) : Prop :=
  state.pool.mCurrent + call.size < wordRange ∧
    ∀ length ∈ requested call.size state.pool, Fresh state.pool.live ⟨call.address, length⟩

instance (live : List Block) (block : Block) : Decidable (Fresh live block) :=
  decidable_of_iff (8 ∣ block.address ∧ block.address + block.size + 8 ≤ wordRange ∧
    ∀ other ∈ live, min (other.address + other.size) (block.address + block.size) ≤
      max other.address block.address)
    (and_congr_right fun _ => and_congr_right fun _ =>
      forall₂_congr fun _ _ => Set.Ico_disjoint_Ico.symm)

instance (state : State) (call : Call) : Decidable (Sound state call) :=
  inferInstanceAs (Decidable (_ ∧ _))

def Pool.rest (pool : Pool) : Block := ⟨pool.mCurrent, pool.mEnd - pool.mCurrent⟩

structure Pool.Inv (pool : Pool) : Prop where
  aligned : 8 ∣ pool.mCurrent
  current : ∃ chunk ∈ pool.live, chunk.address ≤ pool.mCurrent ∧
    pool.mEnd = chunk.address + chunk.size
  bounded : pool.mEnd + 8 ≤ wordRange
  recorded : pool.mChunks = pool.live.map Block.address

structure State.Inv (state : State) : Prop where
  pool : state.pool.Inv
  placed : ∀ block ∈ state.returned, 8 ∣ block.address ∧
    ∃ chunk ∈ state.pool.live, block.Inside chunk
  apart : ∀ block ∈ state.returned, Disjoint block.bytes state.pool.rest.bytes
  disjoint : state.returned.Pairwise fun first second => Disjoint first.bytes second.bytes

section Blocks

variable {first second : Block}

theorem Block.Inside.bytes_subset (hinside : first.Inside second) : first.bytes ⊆ second.bytes :=
  Set.Ico_subset_Ico hinside.1 hinside.2

theorem Block.disjoint_of_le (hbefore : first.address + first.size ≤ second.address) :
    Disjoint first.bytes second.bytes := by
  rw [Block.bytes, Block.bytes, Set.Ico_disjoint_Ico]
  exact (min_le_left _ _).trans (hbefore.trans (le_max_right _ _))

theorem Fresh.disjoint {live : List Block} {chunk : Block} (hfresh : Fresh live chunk)
    (hplaced : ∃ outer ∈ live, first.Inside outer) (hinside : second.bytes ⊆ chunk.bytes) :
    Disjoint first.bytes second.bytes := by
  obtain ⟨outer, houter, hin⟩ := hplaced
  exact (hfresh.2.2 outer houter).mono hin.bytes_subset hinside

end Blocks

section Steps

variable {pool : Pool} {state : State} {size address : Nat}

theorem Pool.Inv.construct (hfresh : Fresh [] ⟨address, size⟩) : (construct size address).Inv := by
  obtain ⟨haligned, hbounded, _⟩ := hfresh
  have hend : wrap (address + size) = address + size :=
    wrap_of_lt (by dsimp only at hbounded; omega)
  constructor
  · exact haligned
  · exact ⟨⟨address, size⟩, by simp [ChunkMemoryPool.construct], Nat.le_refl _, hend⟩
  · simpa [ChunkMemoryPool.construct, hend] using hbounded
  · rfl

theorem Pool.Inv.appendNewChunk (hinv : pool.Inv)
    (hfresh : Fresh pool.live ⟨address, pool.mChunkSize⟩) : (appendNewChunk address pool).Inv := by
  obtain ⟨haligned, hbounded, _⟩ := hfresh
  have hend : wrap (address + pool.mChunkSize) = address + pool.mChunkSize :=
    wrap_of_lt (by dsimp only at hbounded; omega)
  constructor
  · exact haligned
  · refine ⟨⟨address, pool.mChunkSize⟩, ?_, Nat.le_refl _, hend⟩
    simp [ChunkMemoryPool.appendNewChunk]
  · simpa [ChunkMemoryPool.appendNewChunk, hend] using hbounded
  · simp [ChunkMemoryPool.appendNewChunk, hinv.recorded]

theorem State.Inv.appendNewChunk (hinv : state.Inv)
    (hfresh : Fresh state.pool.live ⟨address, state.pool.mChunkSize⟩) :
    State.Inv { state with pool := appendNewChunk address state.pool } := by
  have hpool := hinv.pool.appendNewChunk hfresh
  constructor
  · exact hpool
  · intro block hblock
    obtain ⟨haligned, chunk, hchunk, hinside⟩ := hinv.placed block hblock
    exact ⟨haligned, chunk, List.mem_append_left _ hchunk, hinside⟩
  · intro block hblock
    apply hfresh.disjoint (hinv.placed block hblock).2
    apply Set.Ico_subset_Ico (Nat.le_refl _)
    dsimp only [Pool.rest, ChunkMemoryPool.appendNewChunk]
    rw [wrap_of_lt (by have := hfresh.2.1; dsimp only at this; omega)]
    omega
  · exact hinv.disjoint

theorem State.Inv.hand (hinv : state.Inv) {after : Pool} {block : Block} (hpool : after.Inv)
    (hlive : state.pool.live ⊆ after.live) (hrest : after.rest.bytes ⊆ state.pool.rest.bytes)
    (haligned : 8 ∣ block.address) (hplaced : ∃ chunk ∈ after.live, block.Inside chunk)
    (hapart : Disjoint block.bytes after.rest.bytes)
    (hearlier : ∀ earlier ∈ state.returned, Disjoint earlier.bytes block.bytes) :
    State.Inv ⟨after, state.returned ++ [block]⟩ := by
  constructor
  · exact hpool
  · intro other hother
    rcases List.mem_append.mp hother with hold | hnew
    · obtain ⟨hmultiple, chunk, hchunk, hinside⟩ := hinv.placed other hold
      exact ⟨hmultiple, chunk, hlive hchunk, hinside⟩
    · cases List.mem_singleton.mp hnew
      exact ⟨haligned, hplaced⟩
  · intro other hother
    rcases List.mem_append.mp hother with hold | hnew
    · exact (hinv.apart other hold).mono_right hrest
    · cases List.mem_singleton.mp hnew
      exact hapart
  · rw [List.pairwise_append]
    refine ⟨hinv.disjoint, List.pairwise_singleton _ _, ?_⟩
    intro earlier hold other hnew
    cases List.mem_singleton.mp hnew
    exact hearlier earlier hold

theorem advance_live (size : Nat) (pool : Pool) : (advance size pool).1.live = pool.live := by
  -- of a variable, `rfl` would compare the pointers before it comes to the chunks
  cases pool
  unfold advance
  rfl

theorem advance_eq (hbounded : pool.mCurrent + size + 8 ≤ wordRange) :
    advance size pool =
      ({ pool with mCurrent := (pool.mCurrent + size + 7) / 8 * 8 }, pool.mCurrent) := by
  unfold advance
  have hsum : wrap (pool.mCurrent + size) = pool.mCurrent + size := wrap_of_lt (by omega)
  rw [hsum, align_eight hbounded]

theorem State.Inv.advance (hinv : state.Inv)
    (hfits : state.pool.mCurrent + size ≤ state.pool.mEnd) :
    State.Inv ⟨(ChunkMemoryPool.advance size state.pool).1,
      state.returned ++ [⟨(ChunkMemoryPool.advance size state.pool).2, size⟩]⟩ := by
  obtain ⟨chunk, hchunk, hstart, hend⟩ := hinv.pool.current
  have hbounded := hinv.pool.bounded
  have hpast : state.pool.mCurrent + size ≤ (state.pool.mCurrent + size + 7) / 8 * 8 := by
    omega
  rw [advance_eq (by omega)]
  apply hinv.hand
  · constructor
    · exact Nat.dvd_mul_left 8 _
    · exact ⟨chunk, hchunk, hstart.trans ((Nat.le_add_right _ _).trans hpast), hend⟩
    · exact hbounded
    · exact hinv.pool.recorded
  · exact List.Subset.refl _
  · intro byte hbyte
    simp only [Block.bytes, Pool.rest, Set.mem_Ico] at hbyte ⊢
    omega
  · exact hinv.pool.aligned
  · exact ⟨chunk, hchunk, hstart, hfits.trans_eq hend⟩
  · exact Block.disjoint_of_le hpast
  · intro earlier hearlier
    apply (hinv.apart earlier hearlier).mono_right
    exact Set.Ico_subset_Ico (Nat.le_refl _) (by dsimp only [Pool.rest]; omega)

theorem State.Inv.oversize (hinv : state.Inv) (hfresh : Fresh state.pool.live ⟨address, size⟩) :
    State.Inv ⟨{ state.pool with
        mChunks := state.pool.mChunks ++ [address]
        live := state.pool.live ++ [⟨address, size⟩] }, state.returned ++ [⟨address, size⟩]⟩ := by
  obtain ⟨chunk, hchunk, hstart, hend⟩ := hinv.pool.current
  have hnew : (⟨address, size⟩ : Block) ∈ state.pool.live ++ [⟨address, size⟩] := by simp
  apply hinv.hand
  · constructor
    · exact hinv.pool.aligned
    · exact ⟨chunk, List.mem_append_left _ hchunk, hstart, hend⟩
    · exact hinv.pool.bounded
    · simp [hinv.pool.recorded]
  · exact List.subset_append_left _ _
  · exact subset_rfl
  · exact hfresh.1
  · exact ⟨_, hnew, Nat.le_refl _, Nat.le_refl _⟩
  · apply (hfresh.2.2 chunk hchunk).symm.mono_right
    intro byte hbyte
    simp only [Block.bytes, Pool.rest, Set.mem_Ico] at hbyte ⊢
    omega
  · intro earlier hearlier
    exact hfresh.disjoint (hinv.placed earlier hearlier).2 subset_rfl

theorem State.Inv.allocate (hinv : state.Inv)
    (hnew : ∀ length ∈ requested size state.pool, Fresh state.pool.live ⟨address, length⟩)
    (hsum : requested size state.pool ≠ none ∨ state.pool.mCurrent + size < wordRange) :
    State.Inv ⟨(ChunkMemoryPool.allocate size address state.pool).1,
      state.returned ++ [⟨(ChunkMemoryPool.allocate size address state.pool).2, size⟩]⟩ := by
  unfold requested at hnew hsum
  unfold ChunkMemoryPool.allocate
  by_cases hfull : wrap (state.pool.mCurrent + size) > state.pool.mEnd
  · have hfresh := hnew _ (if_pos hfull)
    rw [if_pos hfull]
    split
    · rename_i hlarge
      rw [Nat.max_eq_left (Nat.le_of_lt hlarge)] at hfresh
      exact hinv.oversize hfresh
    · rename_i hsmall
      rw [Nat.max_eq_right (Nat.le_of_not_lt hsmall)] at hfresh
      apply (hinv.appendNewChunk hfresh).advance
      -- an empty chunk takes any block that is not larger
      dsimp only [ChunkMemoryPool.appendNewChunk]
      have hbounded := hfresh.2.1
      rw [wrap_of_lt (by dsimp only at hbounded; omega)]
      omega
  · rw [if_neg hfull] at hsum ⊢
    rw [wrap_of_lt (hsum.resolve_left (not_not_intro rfl))] at hfull
    exact hinv.advance (Nat.le_of_not_lt hfull)

theorem State.Inv.next {call : Call} {after : State} (hinv : state.Inv) (hsound : Sound state call)
    (hnext : next state call = some after) : after.Inv := by
  cases hnext
  exact hinv.allocate hsound.2 (Or.inr hsound.1)

theorem inv_of_reachable (hreach : machine.ReachableUnder Sound state) : state.Inv := by
  apply hreach.invariant State.Inv
  · rintro _ ⟨chunkSize, address, hfresh, rfl⟩
    exact ⟨.construct hfresh, by simp, by simp, .nil⟩
  · intro before call after hinv hsound hnext
    exact hinv.next hsound hnext

end Steps

/-- Every block that was handed out is aligned and lies in one recorded chunk, and no two of
them share a byte. -/
theorem handed_out_disjoint (state : State) (hreach : machine.ReachableUnder Sound state) :
    (∀ block ∈ state.returned, 8 ∣ block.address ∧
        ∃ chunk ∈ state.pool.live, chunk.address ∈ state.pool.mChunks ∧ block.Inside chunk) ∧
      state.returned.Pairwise fun first second => Disjoint first.bytes second.bytes := by
  have hinv := inv_of_reachable hreach
  refine ⟨?_, hinv.disjoint⟩
  intro block hblock
  obtain ⟨haligned, chunk, hchunk, hinside⟩ := hinv.placed block hblock
  refine ⟨haligned, chunk, hchunk, ?_, hinside⟩
  rw [hinv.pool.recorded]
  exact List.mem_map_of_mem hchunk

/-- A chunk of 20 bytes is used up with its pointer past the end, and a block of 30 bytes
comes between. -/
def mixedCalls : List Call :=
  [⟨5, 0⟩, ⟨0, 0⟩, ⟨12, 0⟩, ⟨30, 4096⟩, ⟨0, 8192⟩, ⟨20, 0⟩, ⟨1, 16384⟩]

theorem mixed_calls_disjoint :
    ∃ state, machine.ReachableUnder Sound state ∧
      state.returned.map Block.address = [1024, 1032, 1032, 4096, 8192, 8192, 16384] ∧
      state.returned.Pairwise fun first second => Disjoint first.bytes second.bytes := by
  obtain ⟨state, hreach, htest⟩ := Machine.exists_reachableUnder_of_replay machine Sound
    ⟨construct 20 1024, []⟩ mixedCalls
    (fun state => decide (state.returned.map Block.address =
      [1024, 1032, 1032, 4096, 8192, 8192, 16384]))
    ⟨20, 1024, by decide +kernel, rfl⟩ (by decide +kernel)
  exact ⟨state, hreach, of_decide_eq_true htest, (handed_out_disjoint state hreach).2⟩

/-- A chunk of twelve bytes whose end is four bytes before the end of the address space. No
sum of an address and a size wraps, but the rounding of the end does: the second block is at
address zero, outside of all chunks. -/
theorem rounded_end_wraps :
    8 ∣ 2 ^ 64 - 16 ∧ 2 ^ 64 - 16 + 12 < wordRange ∧
      ∃ state, machine.replay
          (fun state call => decide (state.pool.mCurrent + call.size < wordRange ∧
            requested call.size state.pool = none))
          ⟨construct 12 (2 ^ 64 - 16), []⟩ [⟨12, 0⟩, ⟨1, 0⟩] = some state ∧
        state.returned = [⟨2 ^ 64 - 16, 12⟩, ⟨0, 1⟩] ∧
        ∀ chunk ∈ state.pool.live, ¬ Block.Inside ⟨0, 1⟩ chunk := by
  refine ⟨by decide, by decide, ⟨⟨12, 8, 2 ^ 64 - 4, [2 ^ 64 - 16], [⟨2 ^ 64 - 16, 12⟩]⟩,
    [⟨2 ^ 64 - 16, 12⟩, ⟨0, 1⟩]⟩, ?_, rfl, ?_⟩
  · decide +kernel
  · rintro chunk hchunk ⟨hstart, _⟩
    cases List.mem_singleton.mp hchunk
    contradiction

end Crossbow.Allocator.ChunkMemoryPool
