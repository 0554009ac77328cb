import Crossbow.Kernel.Machine
import Crossbow.Kernel.Word

/-! The striped hash map. A bucket has one inline element and an overflow vector.
`insert` and `exec_on` first call `reserve` with the count they loaded and then
run their section under the mutex of the stripe; both are single steps here. -/
namespace Crossbow.Concurrent.ConcurrentMap
open Kernel

inductive ElemState where
  | unassigned
  | deleted
  | valid
  deriving DecidableEq, Repr

structure KeyValueElement (K V : Type) where
  state : ElemState
  key : K
  value : V
  deriving DecidableEq, Repr

/-- `arr` is an array of a single element, so its loops run once. -/
structure Bucket (K V : Type) where
  arr : KeyValueElement K V
  overflow : List (KeyValueElement K V)
  deriving DecidableEq, Repr

structure Params where
  concurrencyLevel : Nat
  initialCapacity : Nat
  loadFactor : Nat

def defaultParams : Params := ⟨32, 32, 75⟩

structure Map (K V : Type) where
  buckets : List (Bucket K V)
  count : Nat
  upperBound : Nat
  bucketFlag : Nat
  deriving DecidableEq, Repr

variable {K V : Type}

/-- A loop over a vector that acts on the first element passing `test` and stops;
`act` gives what is left in the element's place and the result of the loop. -/
def atFirst {El R : Type} (test : El → Bool) (act : El → List El × R) :
    List El → Option (List El × R)
  | [] => none
  | el :: rest =>
      if test el then some ((act el).1 ++ rest, (act el).2)
      else (atFirst test act rest).map fun found => (el :: found.1, found.2)

section Buckets

variable [BEq K] [Inhabited V]

def KeyValueElement.isValidAndEqual (el : KeyValueElement K V) (key : K) : Bool :=
  decide (el.state = .valid) && el.key == key

def Bucket.insert (bucket : Bucket K V) (key : K) (value : V) : Bucket K V × Bool × V :=
  if bucket.arr.state = .unassigned then
    ({ bucket with arr := ⟨.valid, key, value⟩ }, true, default)
  else if bucket.arr.isValidAndEqual key then
    ({ bucket with arr := { bucket.arr with value := value } }, false, bucket.arr.value)
  else
    -- all elements of the vector are valid, so only the keys are compared
    match atFirst (fun el => el.key == key) (fun el => ([{ el with value := value }], el.value))
        bucket.overflow with
    | some (overflow, old) => ({ bucket with overflow := overflow }, false, old)
    | none => ({ bucket with overflow := bucket.overflow ++ [⟨.valid, key, value⟩] }, true, default)

omit [BEq K] [Inhabited V] in
def Bucket.insertNoDuplicateCheck (bucket : Bucket K V) (element : KeyValueElement K V) :
    Bucket K V :=
  if bucket.arr.state = .unassigned then { bucket with arr := element }
  else { bucket with overflow := bucket.overflow ++ [element] }

omit [BEq K] [Inhabited V] in
/-- `erase` of the inline element: the last overflow element takes its place. The
key and value left in an unassigned element are never read. -/
def Bucket.eraseArr (bucket : Bucket K V) : Bucket K V :=
  match bucket.overflow.getLast? with
  | some last => ⟨last, bucket.overflow.dropLast⟩
  | none => { bucket with arr := { bucket.arr with state := .unassigned } }

def Bucket.erase (bucket : Bucket K V) (key : K) : Bucket K V × Bool × V :=
  if bucket.arr.isValidAndEqual key then (bucket.eraseArr, true, bucket.arr.value)
  else
    match atFirst (fun el => el.key == key) (fun el => ([], el.value)) bucket.overflow with
    | some (overflow, old) => ({ bucket with overflow := overflow }, true, old)
    | none => (bucket, false, default)

def Bucket.at (bucket : Bucket K V) (key : K) : Bool × V :=
  if bucket.arr.isValidAndEqual key then (true, bucket.arr.value)
  else
    match bucket.overflow.find? (·.isValidAndEqual key) with
    | some el => (true, el.value)
    | none => (false, default)

/-- `fn` changes the value in place and says whether to erase it. The last argument
is `_count`, which the section updates. -/
def Bucket.execOn (bucket : Bucket K V) (key : K) (fn : V → V × Bool) (count : Nat) :
    Bucket K V × Nat :=
  if bucket.arr.isValidAndEqual key then
    let result := fn bucket.arr.value
    let changed := { bucket with arr := { bucket.arr with value := result.1 } }
    if result.2 then (changed.eraseArr, wrapSub count 1) else (changed, count)
  else
    match atFirst (·.isValidAndEqual key)
        (fun el => (if (fn el.value).2 then [] else [{ el with value := (fn el.value).1 }],
          (fn el.value).2)) bucket.overflow with
    | some (overflow, erased) =>
        ({ bucket with overflow := overflow }, if erased then wrapSub count 1 else count)
    | none =>
        let result := fn default
        if result.2 then (bucket, count)
        else (bucket.insertNoDuplicateCheck ⟨.valid, key, result.1⟩, wrap (count + 1))

end Buckets

/-- One iteration of `for_each`: the element afterwards and the call made. -/
def KeyValueElement.visit (fn : K → V → V) (el : KeyValueElement K V) :
    KeyValueElement K V × List (K × V) :=
  if el.state = .valid then ({ el with value := fn el.key el.value }, [(el.key, el.value)])
  else (el, [])

def Bucket.forEach (fn : K → V → V) (bucket : Bucket K V) : Bucket K V × List (K × V) :=
  (⟨(bucket.arr.visit fn).1, bucket.overflow.map fun el => (el.visit fn).1⟩,
    (bucket.arr.visit fn).2 ++ bucket.overflow.flatMap fun el => (el.visit fn).2)

section Sections

variable [BEq K] [Inhabited V] (hash : K → UInt64)

omit [BEq K] [Inhabited V] in
def bucketIndex (bucketFlag : Nat) (key : K) : Nat := (hash key).toNat &&& bucketFlag

def Map.insert (map : Map K V) (key : K) (value : V) : Option (Map K V × Bool × V) := do
  let index := bucketIndex hash map.bucketFlag key
  let bucket ← map.buckets[index]?
  let (changed, ret) := bucket.insert key value
  some ({ map with
    buckets := map.buckets.set index changed
    count := if ret.1 then wrap (map.count + 1) else map.count }, ret)

def Map.erase (map : Map K V) (key : K) : Option (Map K V × Bool × V) := do
  let index := bucketIndex hash map.bucketFlag key
  let bucket ← map.buckets[index]?
  let (changed, ret) := bucket.erase key
  some ({ map with
    buckets := map.buckets.set index changed
    count := if ret.1 then wrapSub map.count 1 else map.count }, ret)

def Map.at (map : Map K V) (key : K) : Option (Bool × V) := do
  let bucket ← map.buckets[bucketIndex hash map.bucketFlag key]?
  some (bucket.at key)

def Map.execOn (map : Map K V) (key : K) (fn : V → V × Bool) : Option (Map K V) := do
  let index := bucketIndex hash map.bucketFlag key
  let bucket ← map.buckets[index]?
  let (changed, count) := bucket.execOn key fn map.count
  some { map with buckets := map.buckets.set index changed, count := count }

end Sections

def Map.forEach (fn : K → V → V) (map : Map K V) : Map K V × List (K × V) :=
  ({ map with buckets := map.buckets.map fun bucket => (bucket.forEach fn).1 },
    map.buckets.flatMap fun bucket => (bucket.forEach fn).2)

section Resize

variable [Inhabited K] [Inhabited V] (hash : K → UInt64)

def emptyBucket : Bucket K V := ⟨⟨.unassigned, default, default⟩, []⟩

omit [Inhabited K] [Inhabited V] in
/-- `getBucket(hash_(el.key)).insertNoDuplicateCheck(std::move(el))` -/
def placeElement (bucketFlag : Nat) (buckets : List (Bucket K V)) (el : KeyValueElement K V) :
    Option (List (Bucket K V)) := do
  let index := bucketIndex hash bucketFlag el.key
  let bucket ← buckets[index]?
  some (buckets.set index (bucket.insertNoDuplicateCheck el))

omit [Inhabited K] [Inhabited V] in
/-- Move an old bucket; an unassigned inline element ends the scan of the bucket. -/
def moveBucket (bucketFlag : Nat) (buckets : List (Bucket K V)) (old : Bucket K V) :
    Option (List (Bucket K V)) :=
  if old.arr.state = .unassigned then some buckets
  else (old.arr :: old.overflow).foldlM (placeElement hash bucketFlag) buckets

/-- `(size_t) - 1) % new_size` faults for zero. Memory is taken to be available. -/
def Map.resize (params : Params) (map : Map K V) (newSize : Nat) : Option (Map K V) :=
  if newSize = 0 then none
  else do
    let flag := (wordRange - 1) % newSize
    let buckets ← map.buckets.foldlM (moveBucket hash flag) (List.replicate newSize emptyBucket)
    some { map with
      buckets := buckets
      upperBound := wrap (newSize * params.loadFactor) / 100
      bucketFlag := flag }

/-- The loop that doubles `new_size`; the fuel bounds the number of iterations. -/
def growSize (loadFactor count : Nat) : Nat → Nat → Option Nat
  | 0, _ => none
  | fuel + 1, newSize =>
      if wrap (newSize * loadFactor) / 100 < count then
        growSize loadFactor count fuel (wrap (newSize * 2))
      else some newSize

/-- `none` stands for a call that does not return: after 64 doublings `new_size` is
zero and stays zero. -/
def Map.reserve (params : Params) (map : Map K V) (count : Nat) : Option (Map K V) :=
  if count < map.upperBound then some map
  else do
    let newSize ← growSize params.loadFactor count 65 (wrap (map.buckets.length * 2))
    map.resize hash params newSize

def construct (params : Params) : Map K V where
  buckets := List.replicate params.initialCapacity emptyBucket
  count := 0
  upperBound := wrap (params.initialCapacity * params.loadFactor) / 100
  bucketFlag := (wordRange - 1) % params.initialCapacity

end Resize

/-- A client between the steps of `insert` or `exec_on`; `count` is the value of
`_count` it passes to `reserve`. -/
inductive Pc (K V : Type) where
  | idle
  | insertReserve (key : K) (value : V) (count : Nat)
  | insertSection (key : K) (value : V)
  | execReserve (key : K) (fn : V → V × Bool) (count : Nat)
  | execSection (key : K) (fn : V → V × Bool)

inductive Event (K V : Type) where
  | insert (key : K) (value : V) (ret : Bool × V)
  | erase (key : K) (ret : Bool × V)
  | at (key : K) (ret : Bool × V)
  | execOn (key : K) (fn : V → V × Bool)
  | forEach (fn : K → V → V) (visited : List (K × V))

structure State (Thread K V : Type) where
  map : Map K V
  pc : Thread → Pc K V
  log : List (Event K V)

inductive Label (Thread K V : Type) where
  | insert (thread : Thread) (key : K) (value : V)
  | erase (thread : Thread) (key : K)
  | at (thread : Thread) (key : K)
  | execOn (thread : Thread) (key : K) (fn : V → V × Bool)
  | forEach (thread : Thread) (fn : K → V → V)
  | reserve (thread : Thread) (count : Nat)
  | step (thread : Thread)

section Clients

variable {Thread : Type} [DecidableEq Thread] [BEq K] [Inhabited K] [Inhabited V]
  (params : Params) (hash : K → UInt64)

omit [BEq K] [Inhabited K] [Inhabited V] in
def State.goto (state : State Thread K V) (thread : Thread) (pc : Pc K V) : State Thread K V :=
  { state with pc := Function.update state.pc thread pc }

def advance (state : State Thread K V) (thread : Thread) : Option (State Thread K V) :=
  match state.pc thread with
  | .idle => none
  | .insertReserve key value count => do
      let map ← state.map.reserve hash params count
      some { state.goto thread (.insertSection key value) with map := map }
  | .insertSection key value => do
      let (map, ret) ← state.map.insert hash key value
      some { state.goto thread .idle with
        map := map
        log := state.log ++ [.insert key value ret] }
  | .execReserve key fn count => do
      let map ← state.map.reserve hash params count
      some { state.goto thread (.execSection key fn) with map := map }
  | .execSection key fn => do
      let map ← state.map.execOn hash key fn
      some { state.goto thread .idle with
        map := map
        log := state.log ++ [.execOn key fn] }

def call (state : State Thread K V) : Label Thread K V → Option (State Thread K V)
  | .insert thread key value =>
      some (state.goto thread (.insertReserve key value state.map.count))
  | .execOn thread key fn => some (state.goto thread (.execReserve key fn state.map.count))
  | .erase _ key => do
      let (map, ret) ← state.map.erase hash key
      some { state with map := map, log := state.log ++ [.erase key ret] }
  | .at _ key => do
      let ret ← state.map.at hash key
      some { state with log := state.log ++ [.at key ret] }
  | .forEach _ fn =>
      some { state with
        map := (state.map.forEach fn).1
        log := state.log ++ [.forEach fn (state.map.forEach fn).2] }
  | .reserve _ count => do
      let map ← state.map.reserve hash params count
      some { state with map := map }
  | .step _ => none

omit [DecidableEq Thread] [BEq K] [Inhabited K] [Inhabited V] in
def Label.thread : Label Thread K V → Thread
  | .insert thread _ _ | .erase thread _ | .at thread _ | .execOn thread _ _
  | .forEach thread _ | .reserve thread _ | .step thread => thread

def next (state : State Thread K V) (label : Label Thread K V) : Option (State Thread K V) :=
  match label with
  | .step thread => advance params hash state thread
  | _ =>
      match state.pc label.thread with
      | .idle => call params hash state label
      | _ => none

def machine : Machine (State Thread K V) (Label Thread K V) where
  initial := fun state => state = ⟨construct params, fun _ => .idle, []⟩
  next := next params hash

end Clients

end Crossbow.Concurrent.ConcurrentMap
