import Crossbow.Kernel.Machine
import Mathlib.Data.List.Basic
import Mathlib.Data.List.Pairwise

/-! The memory token store of a context and the copy that a remote queue pair reads. An entry
that was unpublished keeps its token, so the searches that ignore `enabled` rest on the order
of the entries. -/
namespace Crossbow.InfinityVerbs.MemoryTokenStore
open Kernel

inductive MemoryRegionType where
  | rdmaBuffer
  | atomicValue
  deriving DecidableEq, Repr

structure MemoryToken where
  userToken : UInt32
  memoryRegionType : MemoryRegionType
  address : UInt64
  key : UInt32
  sizeInBytes : UInt64
  deriving DecidableEq, Repr

structure SerializedMemoryToken where
  enabled : Bool
  userToken : UInt32
  memoryRegionType : MemoryRegionType
  address : UInt64
  key : UInt32
  sizeInBytes : UInt64
  deriving DecidableEq, Repr

/-- The entry after the assignments of `publishTokenData`. -/
def MemoryToken.serialized (memoryToken : MemoryToken) : SerializedMemoryToken :=
  ⟨true, memoryToken.userToken, memoryToken.memoryRegionType, memoryToken.address,
    memoryToken.key, memoryToken.sizeInBytes⟩

def SerializedMemoryToken.memoryToken (entry : SerializedMemoryToken) : MemoryToken :=
  ⟨entry.userToken, entry.memoryRegionType, entry.address, entry.key, entry.sizeInBytes⟩

abbrev Entries := List SerializedMemoryToken

/-- The result is `none` where the assertion about free space ends the process. -/
def publishTokenData (memoryToken : MemoryToken) : Entries → Option Entries
  | [] => none
  | entry :: entries =>
      if entry.enabled = false then some (memoryToken.serialized :: entries)
      else (publishTokenData memoryToken entries).map (entry :: ·)

def unpublishTokenData (userToken : UInt32) : Entries → Entries
  | [] => []
  | entry :: entries =>
      if entry.userToken = userToken then { entry with enabled := false } :: entries
      else entry :: unpublishTokenData userToken entries

def getRemoteMemoryToken (userToken : UInt32) : Entries → Option MemoryToken
  | [] => none
  | entry :: entries =>
      if entry.enabled = true ∧ entry.userToken = userToken then some entry.memoryToken
      else getRemoteMemoryToken userToken entries

def isRemoteMemoryTokenValid (memoryToken : MemoryToken) : Entries → Bool
  | [] => false
  | entry :: entries =>
      if entry.userToken = memoryToken.userToken then entry.enabled
      else isRemoteMemoryTokenValid memoryToken entries

/-- The entry without its life, if it is the live one of the token. -/
def SerializedMemoryToken.withdraw (userToken : UInt32) (entry : SerializedMemoryToken) :
    SerializedMemoryToken :=
  { entry with enabled := entry.enabled && entry.userToken != userToken }

def LiveFirst (entries : Entries) : Prop :=
  entries.Pairwise fun earlier later =>
    later.enabled = true → earlier.userToken ≠ later.userToken

section Entries

variable {entries after : Entries} {memoryToken : MemoryToken} {userToken : UInt32}

theorem getRemoteMemoryToken_eq_none :
    getRemoteMemoryToken userToken entries = none ↔
      ∀ entry ∈ entries, entry.enabled = true → entry.userToken ≠ userToken := by
  induction entries with
  | nil => simp [getRemoteMemoryToken]
  | cons entry entries ih =>
      rw [getRemoteMemoryToken, List.forall_mem_cons]
      split
      · rename_i hmatch
        simp [hmatch]
      · rename_i hmismatch
        rw [ih]
        exact (and_iff_right fun henabled htoken => hmismatch ⟨henabled, htoken⟩).symm

theorem mem_publishTokenData (hpublish : publishTokenData memoryToken entries = some after)
    {entry : SerializedMemoryToken} (hmem : entry ∈ after) :
    entry = memoryToken.serialized ∨ entry ∈ entries := by
  induction entries generalizing after with
  | nil => contradiction
  | cons head entries ih =>
      rw [publishTokenData] at hpublish
      split at hpublish
      · cases hpublish
        rcases List.mem_cons.mp hmem with hnew | hold
        · exact .inl hnew
        · exact .inr (List.mem_cons_of_mem _ hold)
      · obtain ⟨rest, hrest, rfl⟩ := Option.map_eq_some_iff.mp hpublish
        rcases List.mem_cons.mp hmem with rfl | hlater
        · exact .inr List.mem_cons_self
        · exact (ih hrest hlater).imp_right (List.mem_cons_of_mem _)

theorem isSome_publishTokenData :
    (publishTokenData memoryToken entries).isSome ↔ ∃ entry ∈ entries, entry.enabled = false := by
  induction entries with
  | nil => simp [publishTokenData]
  | cons entry entries ih =>
      rw [publishTokenData, List.exists_mem_cons_iff]
      split
      · rename_i hfree
        simp [hfree]
      · rename_i htaken
        rw [Option.isSome_map, ih]
        exact (or_iff_right htaken).symm

theorem LiveFirst.publish (hfirst : LiveFirst entries)
    (hfresh : getRemoteMemoryToken memoryToken.userToken entries = none)
    (hpublish : publishTokenData memoryToken entries = some after) : LiveFirst after := by
  induction entries generalizing after with
  | nil => contradiction
  | cons entry entries ih =>
      obtain ⟨hhead, htail⟩ := List.pairwise_cons.mp hfirst
      rw [getRemoteMemoryToken_eq_none] at hfresh
      obtain ⟨hlive, hrestFresh⟩ := List.forall_mem_cons.mp hfresh
      rw [publishTokenData] at hpublish
      split at hpublish
      · cases hpublish
        refine List.pairwise_cons.mpr ⟨?_, htail⟩
        intro later hlater henabled
        exact (hrestFresh later hlater henabled).symm
      · rename_i henabled
        obtain ⟨rest, hrest, rfl⟩ := Option.map_eq_some_iff.mp hpublish
        refine List.pairwise_cons.mpr
          ⟨?_, ih htail (getRemoteMemoryToken_eq_none.mpr hrestFresh) hrest⟩
        intro later hlater
        rcases mem_publishTokenData hrest hlater with rfl | hold
        · exact fun _ => hlive (by simpa using henabled)
        · exact hhead later hold

theorem getRemoteMemoryToken_publish
    (hfresh : getRemoteMemoryToken memoryToken.userToken entries = none)
    (hpublish : publishTokenData memoryToken entries = some after) (other : UInt32) :
    getRemoteMemoryToken other after =
      if other = memoryToken.userToken then some memoryToken
      else getRemoteMemoryToken other entries := by
  induction entries generalizing after with
  | nil => contradiction
  | cons entry entries ih =>
      rw [publishTokenData] at hpublish
      split at hpublish
      · rename_i hfree
        cases hpublish
        simp [getRemoteMemoryToken, hfree, MemoryToken.serialized,
          SerializedMemoryToken.memoryToken, eq_comm]
      · rename_i henabled
        obtain ⟨rest, hrest, rfl⟩ := Option.map_eq_some_iff.mp hpublish
        have hlive : entry.enabled = true := by simpa using henabled
        simp only [getRemoteMemoryToken, hlive, true_and] at hfresh ⊢
        split at hfresh
        · contradiction
        · rename_i htoken
          rw [ih hfresh hrest]
          split
          · rename_i hsame
            rw [if_neg (hsame ▸ htoken)]
          · rfl

theorem withdraw_of_stale {entry : SerializedMemoryToken}
    (hstale : entry.enabled = true → entry.userToken ≠ userToken) :
    entry.withdraw userToken = entry := by
  unfold SerializedMemoryToken.withdraw
  congr
  cases henabled : entry.enabled with
  | false => rfl
  | true => simpa using hstale henabled

theorem LiveFirst.unpublish_eq (hfirst : LiveFirst entries) (userToken : UInt32) :
    unpublishTokenData userToken entries = entries.map (·.withdraw userToken) := by
  induction entries with
  | nil => rfl
  | cons entry entries ih =>
      obtain ⟨hhead, htail⟩ := List.pairwise_cons.mp hfirst
      rw [unpublishTokenData, List.map_cons]
      split
      · rename_i htoken
        -- an entry behind it that carries the token is stale already
        have hstale : ∀ later ∈ entries, later.withdraw userToken = later := by
          intro later hlater
          apply withdraw_of_stale
          intro henabled
          rw [← htoken]
          exact (hhead later hlater henabled).symm
        rw [List.map_congr_left hstale, List.map_id']
        simp [SerializedMemoryToken.withdraw, htoken]
      · rename_i htoken
        rw [ih htail, withdraw_of_stale fun _ => htoken]

theorem LiveFirst.unpublish (hfirst : LiveFirst entries) (userToken : UInt32) :
    LiveFirst (unpublishTokenData userToken entries) := by
  rw [hfirst.unpublish_eq, LiveFirst, List.pairwise_map]
  apply hfirst.imp
  intro earlier later hother henabled
  exact hother (Bool.and_eq_true_iff.mp henabled).1

theorem LiveFirst.getRemoteMemoryToken_unpublish (hfirst : LiveFirst entries)
    (userToken other : UInt32) :
    getRemoteMemoryToken other (unpublishTokenData userToken entries) =
      if other = userToken then none else getRemoteMemoryToken other entries := by
  rw [hfirst.unpublish_eq]
  clear hfirst
  induction entries with
  | nil => simp [getRemoteMemoryToken]
  | cons entry entries ih =>
      rw [List.map_cons, getRemoteMemoryToken, getRemoteMemoryToken, ih]
      by_cases hsame : other = userToken
      · simp [hsame, SerializedMemoryToken.withdraw]
      · by_cases htoken : entry.userToken = other
        · simp [hsame, htoken, SerializedMemoryToken.withdraw, SerializedMemoryToken.memoryToken]
        · simp [hsame, htoken, SerializedMemoryToken.withdraw]

theorem LiveFirst.isRemoteMemoryTokenValid_eq (hfirst : LiveFirst entries)
    (memoryToken : MemoryToken) :
    isRemoteMemoryTokenValid memoryToken entries =
      (getRemoteMemoryToken memoryToken.userToken entries).isSome := by
  induction entries with
  | nil => rfl
  | cons entry entries ih =>
      obtain ⟨hhead, htail⟩ := List.pairwise_cons.mp hfirst
      rw [isRemoteMemoryTokenValid, getRemoteMemoryToken]
      split
      · rename_i htoken
        cases henabled : entry.enabled with
        | true => simp [htoken]
        | false =>
            have hnone : getRemoteMemoryToken memoryToken.userToken entries = none := by
              rw [getRemoteMemoryToken_eq_none]
              intro later hlater hlive
              rw [← htoken]
              exact (hhead later hlater hlive).symm
            simp [hnone]
      · rename_i htoken
        simp [htoken, ih htail]

end Entries

/-- `published` and `synchronized` say what was last published for the tokens that are
published now, and for those that were when the cache was read. -/
structure State where
  dataBuffer : Entries
  remoteMemoryStoreCache : Entries
  published : UInt32 → Option MemoryToken
  synchronized : UInt32 → Option MemoryToken

inductive Call where
  | publish (memoryToken : MemoryToken)
  | unpublish (userToken : UInt32)
  | synchronize
  deriving DecidableEq, Repr

def next (state : State) : Call → Option State
  | .publish memoryToken =>
      (publishTokenData memoryToken state.dataBuffer).map fun dataBuffer =>
        { state with
          dataBuffer := dataBuffer
          published := Function.update state.published memoryToken.userToken (some memoryToken) }
  | .unpublish userToken =>
      some { state with
        dataBuffer := unpublishTokenData userToken state.dataBuffer
        published := Function.update state.published userToken none }
  | .synchronize =>
      some { state with
        remoteMemoryStoreCache := state.dataBuffer
        synchronized := state.published }

def blank : SerializedMemoryToken := ⟨false, 0, .rdmaBuffer, 0, 0, 0⟩

/-- The constructor only resets `enabled`. -/
def State.Initial (state : State) : Prop :=
  (∀ entry ∈ state.dataBuffer, entry.enabled = false) ∧
    state.remoteMemoryStoreCache = List.replicate state.dataBuffer.length blank ∧
    (∀ userToken, state.published userToken = none) ∧
    ∀ userToken, state.synchronized userToken = none

def machine : Machine State Call where
  initial := State.Initial
  next := next

/-- A token is published again only after it was unpublished. -/
def Fresh (state : State) : Call → Prop
  | .publish memoryToken => state.published memoryToken.userToken = none
  | .unpublish _ | .synchronize => True

instance (state : State) (call : Call) : Decidable (Fresh state call) :=
  match call with
  | .publish _ => inferInstanceAs (Decidable (_ = _))
  | .unpublish _ => inferInstanceAs (Decidable True)
  | .synchronize => inferInstanceAs (Decidable True)

structure Agrees (entries : Entries) (table : UInt32 → Option MemoryToken) : Prop where
  liveFirst : LiveFirst entries
  lookup : ∀ userToken, getRemoteMemoryToken userToken entries = table userToken

theorem Agrees.of_disabled {entries : Entries} {table : UInt32 → Option MemoryToken}
    (hdisabled : ∀ entry ∈ entries, entry.enabled = false)
    (htable : ∀ userToken, table userToken = none) : Agrees entries table := by
  constructor
  · apply List.pairwise_of_forall_mem_list
    intro earlier _ later hlater henabled
    exact absurd (hdisabled later hlater) (by simp [henabled])
  · intro userToken
    rw [htable, getRemoteMemoryToken_eq_none]
    intro entry hentry henabled
    exact absurd (hdisabled entry hentry) (by simp [henabled])

def State.Inv (state : State) : Prop :=
  Agrees state.dataBuffer state.published ∧
    Agrees state.remoteMemoryStoreCache state.synchronized

theorem inv_of_initial {state : State} (hinitial : state.Initial) : state.Inv := by
  obtain ⟨hdisabled, hcache, hpublished, hsynchronized⟩ := hinitial
  refine ⟨.of_disabled hdisabled hpublished, .of_disabled ?_ hsynchronized⟩
  intro entry hentry
  rw [hcache] at hentry
  cases List.eq_of_mem_replicate hentry
  rfl

theorem State.Inv.next {state after : State} {call : Call} (hinv : state.Inv)
    (hfresh : Fresh state call) (hnext : next state call = some after) : after.Inv := by
  obtain ⟨hstore, hcache⟩ := hinv
  cases call with
  | publish memoryToken =>
      obtain ⟨dataBuffer, hpublish, rfl⟩ := Option.map_eq_some_iff.mp hnext
      have hnone := (hstore.lookup memoryToken.userToken).trans hfresh
      refine ⟨⟨hstore.liveFirst.publish hnone hpublish, ?_⟩, hcache⟩
      intro userToken
      rw [getRemoteMemoryToken_publish hnone hpublish, hstore.lookup]
      exact (Function.update_apply _ _ _ _).symm
  | unpublish userToken =>
      cases hnext
      refine ⟨⟨hstore.liveFirst.unpublish userToken, ?_⟩, hcache⟩
      intro other
      rw [hstore.liveFirst.getRemoteMemoryToken_unpublish, hstore.lookup]
      exact (Function.update_apply _ _ _ _).symm
  | synchronize =>
      cases hnext
      exact ⟨hstore, hstore⟩

theorem inv_of_reachable {state : State} (hreach : machine.ReachableUnder Fresh state) :
    state.Inv := by
  apply hreach.invariant State.Inv
  · exact fun _ => inv_of_initial
  · intro before call after hinv hfresh hnext
    exact hinv.next hfresh hnext

/-- The remote side finds what was published when it read the store, the validity check
answers alike, and `unpublishTokenData` disables the live entry of its token alone. -/
theorem reader_agrees_with_publisher (state : State)
    (hreach : machine.ReachableUnder Fresh state) :
    (∀ userToken, getRemoteMemoryToken userToken state.remoteMemoryStoreCache =
        state.synchronized userToken) ∧
      (∀ memoryToken, isRemoteMemoryTokenValid memoryToken state.remoteMemoryStoreCache =
        (getRemoteMemoryToken memoryToken.userToken state.remoteMemoryStoreCache).isSome) ∧
      (∀ userToken, unpublishTokenData userToken state.dataBuffer =
        state.dataBuffer.map (·.withdraw userToken)) ∧
      ∀ memoryToken, (next state (.publish memoryToken)).isSome ↔
        ∃ entry ∈ state.dataBuffer, entry.enabled = false := by
  obtain ⟨hstore, hcache⟩ := inv_of_reachable hreach
  refine ⟨hcache.lookup, hcache.liveFirst.isRemoteMemoryTokenValid_eq,
    hstore.liveFirst.unpublish_eq, ?_⟩
  intro memoryToken
  rw [next, Option.isSome_map, isSome_publishTokenData]

def recycled : State where
  dataBuffer := [⟨false, 6, .rdmaBuffer, 1, 1, 1⟩, ⟨false, 5, .atomicValue, 2, 2, 2⟩]
  remoteMemoryStoreCache := [blank, blank]
  published := fun _ => none
  synchronized := fun _ => none

def republish (first moved : MemoryToken) : List Call :=
  [.publish first, .publish ⟨6, .rdmaBuffer, 32, 8, 64⟩, .unpublish first.userToken,
    .unpublish 6, .publish moved, .synchronize]

theorem republished_token_found :
    ∃ state, machine.ReachableUnder Fresh state ∧
      getRemoteMemoryToken 6 state.remoteMemoryStoreCache =
        some ⟨6, .atomicValue, 96, 9, 8⟩ ∧
      getRemoteMemoryToken 5 state.remoteMemoryStoreCache = none := by
  have hinitial : recycled.Initial :=
    ⟨by simp [recycled], rfl, fun _ => rfl, fun _ => rfl⟩
  obtain ⟨state, hreach, htest⟩ := Machine.exists_reachableUnder_of_replay machine Fresh recycled
    (republish ⟨5, .rdmaBuffer, 16, 7, 32⟩ ⟨6, .atomicValue, 96, 9, 8⟩)
    (fun state => decide (state.synchronized 6 = some ⟨6, .atomicValue, 96, 9, 8⟩ ∧
      state.synchronized 5 = none))
    hinitial (by decide)
  obtain ⟨hmoved, hwithdrawn⟩ := of_decide_eq_true htest
  have hlookup := (reader_agrees_with_publisher state hreach).1
  exact ⟨state, hreach, (hlookup 6).trans hmoved, (hlookup 5).trans hwithdrawn⟩

end Crossbow.InfinityVerbs.MemoryTokenStore
