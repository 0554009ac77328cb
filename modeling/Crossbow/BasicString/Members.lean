import Crossbow.BasicString.Storage

/-! The members of `basic_string` that construct or change a string. A range, a
list or another string that a member reads is given by its characters, which no
member changes while it reads them. An iterator into the string is the index it
points to; members are undefined for iterators outside of the string. -/
namespace Crossbow.BasicString
open Kernel

/-- `traits_type::length` counts up to the first NUL. -/
def cText (s : List UInt8) : List UInt8 := s.takeWhile (· ≠ 0)

def zeroArr : Memory := fun _ => 0

def init (count : Nat) : Op Unit :=
  if count ≤ maxInBufferSize then do
    editArr (store · 0 [UInt8.ofNat count])
    terminate
  else do
    editArr (store · 0 [nullchar])
    editArr (setSize · count)
    let ptr ← allocate (wrap (count + 1))
    editArr (setCapacity · count)
    editArr (setPtr · ptr)
    terminate

/-- `init`, then the characters and a terminator behind them. -/
def initWith (text : List UInt8) : Op Unit := do
  init text.length
  let mem ← Command.get
  putChars (getPtr mem.arr) 0 text
  write (getPtr mem.arr) text.length 0

/-- `init` and the characters, with the terminator that `init` has placed. -/
def initWithout (text : List UInt8) : Op Unit := do
  init text.length
  let mem ← Command.get
  putChars (getPtr mem.arr) 0 text

def constructDefault : Op Unit := editArr fun _ => zeroArr

def constructFill (count : Nat) (ch : UInt8) : Op Unit := initWith (List.replicate count ch)

def constructSubstring (other : List UInt8) (pos count : Nat) : Op Unit := do
  let osize := other.length
  if pos > osize then Command.throw .outOfRange
  else do
    editArr fun arr => if pos = osize then zeroArr else arr
    initWith ((other.drop pos).take (if osize - pos < count then osize - pos else count))

def constructChars (s : List UInt8) : Op Unit := initWith s

def constructCString (s : List UInt8) : Op Unit := initWithout (cText s)

def constructRange (text : List UInt8) : Op Unit := initWith text

def constructList (linit : List UInt8) : Op Unit := initWithout linit

def constructStd (other : List UInt8) : Op Unit := constructChars other

/-- An inline string is copied with its array, and the text of a string on the
heap, which may have become short, is stored anew. -/
def constructCopy (otherArr : Memory) (other : List UInt8) : Op Unit :=
  if otherArr 0 ≠ nullchar then editArr fun _ => otherArr else initWith other

def destruct : Op Unit := do
  let mem ← Command.get
  if mem.arr 0 = nullchar then do
    deallocate (getPtr mem.arr) (getCapacity mem.arr)
    editArr (store · 0 [0])
  else pure ()

def shrinkToFit : Op Unit := do
  let mem ← Command.get
  let s := getSize mem.arr
  let c := getCapacity mem.arr
  let ptr := getPtr mem.arr
  if s = c then pure ()
  else if c ≤ maxInBufferSize then pure ()
  else if s ≤ maxInBufferSize then do
    editArr (store · 0 [UInt8.ofNat s])
    copyChars ptr 0 .buffer 0 s
    deallocate ptr c
    write .buffer s 0
  else do
    let nptr ← allocate (wrap (s + 1))
    copyChars ptr 0 (.block nptr) 0 s
    write (.block nptr) s 0
    deallocate ptr c
    editArr (setPtr · nptr)
    editArr (setCapacity · s)

/-- The part of `reserve` that gets a larger block. -/
def grow (newCap : Nat) : Op Unit := do
  let mem ← Command.get
  let sz := getSize mem.arr
  let ptr := getPtr mem.arr
  let nptr ← allocate (wrap (newCap + 1))
  if nptr = 0 then Command.throw .badAlloc
  else do
    copyChars ptr 0 (.block nptr) 0 (sz + 1)
    if mem.arr 0 ≠ nullchar then do
      editArr (store · 0 [nullchar])
      editArr (setSize · sz)
    else deallocate ptr (getCapacity mem.arr)
    editArr (setCapacity · newCap)
    editArr (setPtr · nptr)

def reserve (maxSize newCap : Nat) : Op Unit := do
  let mem ← Command.get
  if newCap ≤ getCapacity mem.arr then pure ()
  else if newCap > maxSize then Command.throw .lengthError
  else grow (max (wrap (getCapacity mem.arr * 2)) newCap)

def assignText (maxSize : Nat) (text : List UInt8) : Op Unit := do
  reserve maxSize text.length
  let mem ← Command.get
  putChars (getPtr mem.arr) 0 text
  editArr (setSize · text.length)
  terminate

def operatorAssign (maxSize : Nat) (str : List UInt8) : Op Unit := assignText maxSize str

def operatorAssignCString (maxSize : Nat) (s : List UInt8) : Op Unit := assignText maxSize (cText s)

def operatorAssignList (maxSize : Nat) (ilist : List UInt8) : Op Unit := assignText maxSize ilist

def operatorAssignChar (maxSize : Nat) (ch : UInt8) : Op Unit := do
  reserve maxSize 1
  editArr (setSize · 1)
  let mem ← Command.get
  write (getPtr mem.arr) 0 ch
  terminate

def assignFill (maxSize count : Nat) (ch : UInt8) : Op Unit :=
  assignText maxSize (List.replicate count ch)

def assignChars (maxSize : Nat) (s : List UInt8) : Op Unit := assignText maxSize s

/-- `assign(const basic_string&)` assigns and then flows off its end without
returning the reference that it promises. -/
def assignString (maxSize : Nat) (str : List UInt8) : Op Unit := do
  operatorAssign maxSize str
  Command.undefined

/-- Where `pos + count` wraps the count is not clamped, and `std::copy` runs past
the end of `str`. -/
def assignSubstring (maxSize : Nat) (str : List UInt8) (pos count : Nat) : Op Unit :=
  if pos > str.length then Command.throw .outOfRange
  else do
    let cnt := if wrap (pos + count) > str.length then str.length - pos else count
    if cnt ≤ str.length - pos then assignChars maxSize ((str.drop pos).take cnt)
    else do
      reserve maxSize cnt
      Command.undefined

def assignCString (maxSize : Nat) (s : List UInt8) : Op Unit := operatorAssignCString maxSize s

def assignRange (maxSize : Nat) (text : List UInt8) : Op Unit := assignText maxSize text

def assignList (maxSize : Nat) (ilist : List UInt8) : Op Unit := assignText maxSize ilist

def operatorAssignStd (maxSize : Nat) (o : List UInt8) : Op Unit := assignChars maxSize o

def clear : Op Unit := do
  let mem ← Command.get
  write (getPtr mem.arr) 0 0
  editArr (setSize · 0)

/-- The body of every `insert`, with `index` inside of the string. -/
def insertText (maxSize index : Nat) (text : List UInt8) : Op Unit := do
  let mem ← Command.get
  let sz := getSize mem.arr
  let nsize := wrap (sz + text.length)
  reserve maxSize nsize
  let mem ← Command.get
  let ptr := getPtr mem.arr
  write ptr nsize 0
  moveTail ptr sz nsize 0 (sz - index)
  putChars ptr index text
  editArr (setSize · nsize)

def insertChecked (maxSize index : Nat) (text : List UInt8) : Op Unit := do
  let mem ← Command.get
  if index > getSize mem.arr then Command.throw .outOfRange
  else insertText maxSize index text

def insertFill (maxSize index count : Nat) (ch : UInt8) : Op Unit :=
  insertChecked maxSize index (List.replicate count ch)

def insertChars (maxSize index : Nat) (s : List UInt8) : Op Unit := insertChecked maxSize index s

def insertCString (maxSize index : Nat) (s : List UInt8) : Op Unit :=
  insertChars maxSize index (cText s)

def insertString (maxSize index : Nat) (str : List UInt8) : Op Unit := insertChars maxSize index str

def insertSubstring (maxSize index : Nat) (str : List UInt8) (indexStr count : Nat) : Op Unit :=
  if indexStr > str.length then Command.throw .outOfRange
  else insertChars maxSize index
    ((str.drop indexStr).take (min count (str.length - indexStr)))

def insertCharAt (maxSize pos : Nat) (ch : UInt8) : Op Unit := insertFill maxSize pos 1 ch

def insertFillAt (maxSize pos count : Nat) (ch : UInt8) : Op Unit := insertFill maxSize pos count ch

def insertRange (maxSize pos : Nat) (text : List UInt8) : Op Unit := do
  let mem ← Command.get
  if pos ≤ getSize mem.arr then insertText maxSize pos text else Command.undefined

def insertList (maxSize pos : Nat) (ilist : List UInt8) : Op Unit := insertRange maxSize pos ilist

def erase (first last : Nat) : Op Unit := do
  let mem ← Command.get
  let size := getSize mem.arr
  let ptr := getPtr mem.arr
  if first ≤ last ∧ last ≤ size then do
    copyChars ptr last ptr first (size - last)
    editArr (setSize · (size - (last - first)))
    terminate
  else Command.undefined

def erasePosition (position : Nat) : Op Unit := erase position (position + 1)

def pushBack (maxSize : Nat) (c : UInt8) : Op Unit := do
  let mem ← Command.get
  let size := getSize mem.arr
  if size = getCapacity mem.arr then reserve maxSize (wrap (size + 1)) else pure ()
  let mem ← Command.get
  write (getPtr mem.arr) size c
  editArr (setSize · (wrap (size + 1)))
  terminate

def popBack : Op Unit := do
  let mem ← Command.get
  editArr (setSize · (wrapSub (getSize mem.arr) 1))
  terminate

def appendRange (maxSize : Nat) (text : List UInt8) : Op Unit := do
  let mem ← Command.get
  insertRange maxSize (getSize mem.arr) text

def appendFill (maxSize count : Nat) (ch : UInt8) : Op Unit := do
  let mem ← Command.get
  insertFill maxSize (getSize mem.arr) count ch

def appendString (maxSize : Nat) (str : List UInt8) : Op Unit := appendRange maxSize str

def appendChars (maxSize : Nat) (s : List UInt8) : Op Unit := appendRange maxSize s

def appendCString (maxSize : Nat) (s : List UInt8) : Op Unit := appendRange maxSize (cText s)

def appendList (maxSize : Nat) (ilist : List UInt8) : Op Unit := appendRange maxSize ilist

def operatorAddString (maxSize : Nat) (str : List UInt8) : Op Unit := appendString maxSize str

def operatorAddChar (maxSize : Nat) (ch : UInt8) : Op Unit := appendFill maxSize 1 ch

def operatorAddCString (maxSize : Nat) (s : List UInt8) : Op Unit := appendCString maxSize s

def operatorAddList (maxSize : Nat) (ilist : List UInt8) : Op Unit := appendList maxSize ilist

/-- Overwrite as far as both ranges go, then erase or insert what is left. -/
def replaceRange (maxSize first last : Nat) (text : List UInt8) : Op Unit := do
  let mem ← Command.get
  if first ≤ last ∧ last ≤ getSize mem.arr then do
    let count := min (last - first) text.length
    putChars (getPtr mem.arr) first (text.take count)
    if first + count ≠ last then erase (first + count) last
    else if count ≠ text.length then insertRange maxSize last (text.drop count)
    else pure ()
  else Command.undefined

def replaceString (maxSize first last : Nat) (str : List UInt8) : Op Unit :=
  replaceRange maxSize first last str

def replaceChars (maxSize first last : Nat) (cstr : List UInt8) : Op Unit :=
  replaceRange maxSize first last cstr

def replaceCString (maxSize first last : Nat) (cstr : List UInt8) : Op Unit :=
  replaceChars maxSize first last (cText cstr)

def replaceList (maxSize first last : Nat) (ilist : List UInt8) : Op Unit :=
  replaceRange maxSize first last ilist

/-- `_end` for `count` characters from `pos` on: `_begin + count` if `pos + count` is less than
the size, and otherwise `end()`. Where the sum wraps, the pointer is in front of `pos`. -/
def rangeEnd (size pos count : Nat) : Nat :=
  if size > wrap (pos + count) then wrap (pos + count) else size

/-- The loop of `replace`, with the place it gets to and the characters left over. -/
def overwrite (ptr : Ptr) (index last : Nat) : List UInt8 → Op (Nat × List UInt8)
  | [] => pure (index, [])
  | ch :: rest =>
      if index ≠ last then do
        write ptr index ch
        overwrite ptr (index + 1) last rest
      else pure (index, ch :: rest)

/-- `erase` of a range of pointers that may stand in the wrong order. -/
def erasePointers (first last : Nat) : Op Unit := do
  let mem ← Command.get
  let size := getSize mem.arr
  let ptr := getPtr mem.arr
  copyChars ptr last ptr first (wrapSub size last)
  editArr (setSize · (wrapSub size (wrapSub last first)))
  terminate

def replaceFillPos (maxSize pos count count2 : Nat) (ch : UInt8) : Op Unit := do
  let mem ← Command.get
  let size := getSize mem.arr
  if pos > size then Command.throw .outOfRange
  else do
    let stop := rangeEnd size pos count
    let (index, rest) ← overwrite (getPtr mem.arr) pos stop (List.replicate count2 ch)
    if rest ≠ [] then insertFillAt maxSize index rest.length ch
    else if index ≠ stop then erasePointers index stop
    else pure ()

def replaceFill (maxSize first last count2 : Nat) (ch : UInt8) : Op Unit := do
  let mem ← Command.get
  if first ≤ last ∧ last ≤ getSize mem.arr then
    replaceFillPos maxSize first (last - first) count2 ch
  else Command.undefined

def resize (maxSize count : Nat) (ch : UInt8) : Op Unit := do
  let mem ← Command.get
  let oldSize := getSize mem.arr
  reserve maxSize count
  let mem ← Command.get
  let ptr := getPtr mem.arr
  write ptr count 0
  editArr (setSize · count)
  if oldSize ≥ count then pure ()
  else putChars ptr oldSize (List.replicate (count - oldSize) ch)

def resizeDefault (maxSize count : Nat) : Op Unit := resize maxSize count 0

/-- Move assignment releases its own block before it takes over the array of the
other string, which is then filled with zeros. -/
def moveRelease : Op Unit := do
  let mem ← Command.get
  if mem.arr 0 = nullchar then deallocate (getPtr mem.arr) (getSize mem.arr) else pure ()

end Crossbow.BasicString
