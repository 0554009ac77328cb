import Crossbow.Serializer.Size
import Crossbow.Serializer.RoundTrip

/-! The request frame: eight bytes of total size, four bytes of command id, and the
arguments. The client writes the arguments one by one, the server reads nothing, one
value or a tuple, depending on how many there are. -/
namespace Crossbow.Protocol
open Kernel Serializer

/-- A parameter pack `Args...`. Its values are the argument lists, as nested pairs. -/
inductive Pack : Type → Type 1 where
  | nil : Pack Unit
  | cons {A R : Type} (head : Code .type A) (tail : Pack R) : Pack (A × R)

/-- `ArgSerializer<Args...>::exec`, where `visit c head` stands for `c & head`. -/
def Pack.exec {R C : Type} (visit : {A : Type} → C → Code .type A → A → C) :
    Pack R → C → R → C
  | .nil, c, _ => c
  | .cons head tail, c, args => tail.exec visit (visit c head args.1) args.2

def numberBytes (width value : Nat) : Vector UInt8 width :=
  ⟨(natLE width value).toArray, by simp⟩

variable {R : Type}

def requestSize (pack : Pack R) (command : Nat) (args : R) : Nat :=
  let sizer := sizerAdd 0 (sizePolicy (.pod 8)) (numberBytes 8 0)
  let sizer := sizerAdd sizer (sizePolicy (.pod 4)) (numberBytes 4 command)
  pack.exec (fun sizer code obj => sizerAdd sizer (sizePolicy code) obj) sizer args

def writeRequest (pack : Pack R) (command : Nat) (args : R) (memory : Memory) (buffer : Nat) :
    Archive :=
  let ser := Archive.put ⟨memory, buffer⟩ (serializePolicy (.pod 8))
    (numberBytes 8 (requestSize pack command args))
  let ser := ser.put (serializePolicy (.pod 4)) (numberBytes 4 command)
  pack.exec (fun ser code obj => ser.put (serializePolicy code) obj) ser args

def requestFrame (pack : Pack R) (command : Nat) (args : R) (memory : Memory) (buffer : Nat) :
    List UInt8 :=
  load (writeRequest pack command args memory buffer).memory buffer
    (requestSize pack command args)

/-- `std::tuple` of the types read so far and those of the pack. -/
def Pack.TupleType {R : Type} : Pack R → Type → Type
  | .nil, Init => Init
  | @Pack.cons A _ _ tail, Init => tail.TupleType (Init × A)

def Pack.tupleCode {R Init : Type} :
    (pack : Pack R) → Code (.members .tuple) Init → Code (.members .tuple) (pack.TupleType Init)
  | .nil, init => init
  | .cons head tail, init => tail.tupleCode (.snoc init head)

/-- `argsType<Args...>::type`, with `Unit` for `void`. -/
def Pack.ArgsType {R : Type} : Pack R → Type
  | .nil => Unit
  | @Pack.cons A _ _ .nil => A
  | .cons head (.cons second tail) => (Pack.cons head (.cons second tail)).TupleType Unit

/-- The deserialization in `Server::execute`: the arguments and the cursor behind them. -/
def readArguments {R : Type} : (pack : Pack R) → Memory → Nat → pack.ArgsType × Nat
  | .nil, _, mBuffer => ((), mBuffer + 8 + 4)
  | .cons head .nil, memory, mBuffer => deserialize head head.fresh memory (mBuffer + 8 + 4)
  | .cons head (.cons second tail), memory, mBuffer =>
      let code := Code.tuple ((Pack.cons head (.cons second tail)).tupleCode .noMembers)
      deserialize code code.fresh memory (mBuffer + 8 + 4)

def Pack.ofTuple {R Init : Type} : (pack : Pack R) → pack.TupleType Init → Init × R
  | .nil, init => (init, ())
  | .cons _ tail, obj =>
      let members := tail.ofTuple obj
      (members.1.1, members.1.2, members.2)

def Pack.elements {R : Type} : (pack : Pack R) → pack.ArgsType → R
  | .nil, _ => ()
  | .cons _ .nil, obj => (obj, ())
  | .cons head (.cons second tail), obj =>
      ((Pack.cons head (.cons second tail)).ofTuple obj : Unit × _).2

def Pack.encode {R : Type} : Pack R → R → List UInt8
  | .nil, _ => []
  | .cons head tail, args => head.encode args.1 ++ tail.encode args.2

/-- Every string in the arguments is shorter than `2 ^ 32`. -/
def Pack.Short {R : Type} : Pack R → R → Prop
  | .nil, _ => True
  | .cons head tail, args => head.Short args.1 ∧ tail.Short args.2

def Pack.Valid {R : Type} : Pack R → R → Prop
  | .nil, _ => True
  | .cons head tail, args => head.Valid args.1 ∧ tail.Valid args.2

def Pack.Lawful {R : Type} : Pack R → Prop
  | .nil => True
  | .cons head tail => head.Lawful ∧ tail.Lawful

/-- The default objects that the arguments are read into leave no trace. -/
def Pack.Absorbs {R : Type} : Pack R → R → Prop
  | .nil, _ => True
  | .cons head tail, args => head.Absorbs args.1 head.fresh ∧ tail.Absorbs args.2

def Pack.NeutralKeys {R : Type} : Pack R → Prop
  | .nil => True
  | .cons head tail => head.NeutralKeys ∧ tail.NeutralKeys

def Pack.Equal {R : Type} : Pack R → R → R → Prop
  | .nil, _, _ => True
  | .cons head tail, left, right => head.Equal left.1 right.1 ∧ tail.Equal left.2 right.2

section Writing

theorem encode_numberBytes (width value : Nat) :
    (Code.pod width).encode (numberBytes width value) = natLE width value := by
  simp [Code.encode, numberBytes]

theorem exec_serializer (pack : Pack R) (ser : Archive) (args : R) :
    pack.exec (fun ser code obj => ser.put (serializePolicy code) obj) ser args =
      ser.append (pack.encode args) := by
  induction pack generalizing ser with
  | nil => exact (append_nil ser).symm
  | cons head tail ih =>
      have hhead := put_serializePolicy head ser args.1
      simp only [Kind.put] at hhead
      rw [Pack.exec, ih, hhead, append_append, Pack.encode]

theorem exec_sizer (pack : Pack R) (size : Nat) {args : R} (hshort : pack.Short args) :
    pack.exec (fun sizer code obj => sizerAdd sizer (sizePolicy code) obj) size args =
      size + (pack.encode args).length := by
  induction pack generalizing size with
  | nil => rfl
  | cons head tail ih =>
      have hhead := addSize_sizePolicy head size args.1
      simp only [Kind.addSize] at hhead
      have hlength := (encode_le_iff head args.1).2.mpr hshort.1
      rw [Pack.exec, ih _ hshort.2, hhead, Pack.encode, List.length_append, hlength,
        Nat.add_assoc]

theorem requestSize_eq (pack : Pack R) (command : Nat) {args : R} (hshort : pack.Short args) :
    requestSize pack command args = 8 + 4 + (pack.encode args).length := by
  unfold requestSize
  exact exec_sizer pack _ hshort

theorem writeRequest_eq (pack : Pack R) (command : Nat) (args : R) (memory : Memory)
    (buffer : Nat) :
    writeRequest pack command args memory buffer =
      Archive.append ⟨memory, buffer⟩ (natLE 8 (requestSize pack command args) ++
        natLE 4 command ++ pack.encode args) := by
  have hsize := put_serializePolicy (.pod 8) ⟨memory, buffer⟩
    (numberBytes 8 (requestSize pack command args))
  have hcommand := put_serializePolicy (.pod 4)
    (Archive.append ⟨memory, buffer⟩ (natLE 8 (requestSize pack command args)))
    (numberBytes 4 command)
  simp only [Kind.put, encode_numberBytes] at hsize hcommand
  simp only [writeRequest, hsize, hcommand, exec_serializer, append_append]

theorem requestFrame_eq (pack : Pack R) (command : Nat) {args : R} (hshort : pack.Short args)
    (memory : Memory) (buffer : Nat) :
    requestFrame pack command args memory buffer =
      natLE 8 (requestSize pack command args) ++ natLE 4 command ++ pack.encode args := by
  have hlength : requestSize pack command args =
      (natLE 8 (requestSize pack command args) ++ natLE 4 command ++ pack.encode args).length := by
    rw [List.length_append, List.length_append, length_natLE, length_natLE]
    exact requestSize_eq pack command hshort
  have hload := load_store memory buffer
    (natLE 8 (requestSize pack command args) ++ natLE 4 command ++ pack.encode args)
  rw [← hlength] at hload
  unfold requestFrame
  rw [writeRequest_eq]
  exact hload

end Writing

section Tuples

variable {Init : Type} (init : Code (.members .tuple) Init)

theorem tupleCode_encode (pack : Pack R) (obj : pack.TupleType Init) :
    (pack.tupleCode init).encode obj =
      init.encode (pack.ofTuple obj).1 ++ pack.encode (pack.ofTuple obj).2 := by
  induction pack generalizing Init with
  | nil => exact (List.append_nil _).symm
  | cons head tail ih =>
      exact (ih (init.snoc head) obj).trans (List.append_assoc ..)

theorem tupleCode_lawful (pack : Pack R) (hinit : init.Lawful) (hpack : pack.Lawful) :
    (pack.tupleCode init).Lawful := by
  induction pack generalizing Init with
  | nil => exact hinit
  | cons head tail ih => exact ih (init.snoc head) ⟨hinit, hpack.1⟩ hpack.2

def Pack.toTuple {R Init : Type} : (pack : Pack R) → Init → R → pack.TupleType Init
  | .nil, init, _ => init
  | .cons _ tail, init, args => tail.toTuple (init, args.1) args.2

theorem ofTuple_toTuple (pack : Pack R) (members : Init) (args : R) :
    pack.ofTuple (pack.toTuple members args) = (members, args) := by
  induction pack generalizing Init with
  | nil => rfl
  | cons head tail ih =>
      exact congrArg (fun obj => (obj.1.1, obj.1.2, obj.2)) (ih (members, args.1) args.2)

theorem tupleCode_valid (pack : Pack R) {members : Init} {args : R} (hinit : init.Valid members)
    (hpack : pack.Valid args) : (pack.tupleCode init).Valid (pack.toTuple members args) := by
  induction pack generalizing Init with
  | nil => exact hinit
  | cons head tail ih => exact ih (init.snoc head) ⟨hinit, hpack.1⟩ hpack.2

theorem tupleCode_short (pack : Pack R) {members : Init} {args : R} (hinit : init.Short members)
    (hpack : pack.Short args) : (pack.tupleCode init).Short (pack.toTuple members args) := by
  induction pack generalizing Init with
  | nil => exact hinit
  | cons head tail ih => exact ih (init.snoc head) ⟨hinit, hpack.1⟩ hpack.2

theorem tupleCode_equal_iff (pack : Pack R) (left right : pack.TupleType Init) :
    (pack.tupleCode init).Equal left right ↔
      init.Equal (pack.ofTuple left).1 (pack.ofTuple right).1 ∧
        pack.Equal (pack.ofTuple left).2 (pack.ofTuple right).2 := by
  induction pack generalizing Init with
  | nil => exact (Iff.of_eq (and_true _)).symm
  | cons head tail ih => exact (ih (init.snoc head) left right).trans and_assoc

theorem tupleCode_absorbs_iff (pack : Pack R) (members : Init) (args : R) :
    (pack.tupleCode init).Absorbs (pack.toTuple members args) (pack.tupleCode init).fresh ↔
      init.Absorbs members init.fresh ∧ pack.Absorbs args := by
  induction pack generalizing Init with
  | nil => exact (Iff.of_eq (and_true _)).symm
  | cons head tail ih => exact (ih (init.snoc head) (members, args.1) args.2).trans and_assoc

theorem tupleCode_neutralKeys (pack : Pack R) (hinit : init.NeutralKeys)
    (hpack : pack.NeutralKeys) : (pack.tupleCode init).NeutralKeys := by
  induction pack generalizing Init with
  | nil => exact hinit
  | cons head tail ih => exact ih (init.snoc head) ⟨hinit, hpack.1⟩ hpack.2

end Tuples

section Reading

variable {memory : Memory} {start : Nat}

theorem readArguments_encode (pack : Pack R) (hlawful : pack.Lawful) {args : R}
    (hvalid : pack.Valid args) (hshort : pack.Short args)
    (hload : load memory (start + 8 + 4) (pack.encode args).length = pack.encode args) :
    ∃ result, readArguments pack memory start =
        (result, start + 8 + 4 + (pack.encode args).length) ∧
      (pack.Absorbs args → pack.Equal (pack.elements result) args) ∧
      (pack.NeutralKeys → pack.Equal (pack.elements result) args → pack.Absorbs args) := by
  cases pack with
  | nil => exact ⟨(), rfl, fun _ => trivial, fun _ _ => trivial⟩
  | cons head tail =>
      cases tail with
      | nil =>
          simp only [Pack.encode, List.append_nil] at hload ⊢
          obtain ⟨result, hread, hfate⟩ := deserialize_encode head hlawful.1 hvalid.1 hshort.1
            (fresh_valid head hlawful.1) hload
          exact ⟨result, hread, fun habsorbs => ⟨hfate.equal habsorbs.1, trivial⟩,
            fun hneutral hequal => ⟨hfate.absorbs hneutral.1 hequal.1, trivial⟩⟩
      | cons second tail =>
          have hencode := tupleCode_encode .noMembers (Pack.cons head (.cons second tail))
            (Pack.toTuple _ () args)
          rw [ofTuple_toTuple] at hencode
          replace hencode : (Code.tuple ((Pack.cons head (.cons second tail)).tupleCode
              .noMembers)).encode (Pack.toTuple _ () args) =
            (Pack.cons head (.cons second tail)).encode args := hencode
          rw [← hencode] at hload ⊢
          have hlawful' : (Code.tuple ((Pack.cons head (.cons second tail)).tupleCode
              .noMembers)).Lawful := tupleCode_lawful .noMembers _ trivial hlawful
          obtain ⟨result, hread, hfate⟩ := deserialize_encode _ hlawful'
            (tupleCode_valid .noMembers _ trivial hvalid)
            (tupleCode_short .noMembers _ trivial hshort) (fresh_valid _ hlawful') hload
          have hequal := tupleCode_equal_iff .noMembers _ result (Pack.toTuple _ () args)
          rw [ofTuple_toTuple] at hequal
          have habsorbs := tupleCode_absorbs_iff .noMembers
            (Pack.cons head (.cons second tail)) () args
          exact ⟨result, hread,
            fun hargs => (hequal.mp (hfate.equal (habsorbs.mpr ⟨trivial, hargs⟩))).2,
            fun hneutral hargs => (habsorbs.mp (hfate.absorbs
              (tupleCode_neutralKeys .noMembers _ trivial hneutral) (hequal.mpr ⟨rfl, hargs⟩))).2⟩

end Reading

/-- The frame starts with its own length and the command id, and wherever its bytes have
arrived the server stops reading at the end of the frame. It has the arguments of the
client if the default objects leave no trace, and if the keys are neutral only then. -/
theorem request_frame_agreement (pack : Pack R) (hlawful : pack.Lawful) (command : Nat) (args : R)
    (hvalid : pack.Valid args) (hshort : pack.Short args) (source memory : Memory)
    (buffer start : Nat) (frame : List UInt8)
    (hframe : frame = requestFrame pack command args source buffer)
    (hcopy : load memory start frame.length = frame) :
    frame.take 8 = natLE 8 frame.length ∧ (frame.drop 8).take 4 = natLE 4 command ∧
      ∃ result, readArguments pack memory start = (result, start + frame.length) ∧
        (pack.Absorbs args → pack.Equal (pack.elements result) args) ∧
        (pack.NeutralKeys → pack.Equal (pack.elements result) args → pack.Absorbs args) := by
  have hsize : frame.length = requestSize pack command args := by
    rw [hframe, requestFrame, length_load]
  have hbytes := requestFrame_eq pack command hshort source buffer
  rw [← hframe, ← hsize] at hbytes
  have hlength : frame.length = 8 + 4 + (pack.encode args).length := by
    rw [hsize, requestSize_eq pack command hshort]
  generalize frame.length = total at hbytes hlength hcopy ⊢
  subst hbytes
  refine ⟨?_, ?_, ?_⟩
  · rw [List.append_assoc]
    exact List.take_left' (length_natLE 8 total)
  · rw [List.append_assoc, List.drop_left' (length_natLE 8 total)]
    exact List.take_left' (length_natLE 4 command)
  · subst hlength
    have hload : load memory (start + 8 + 4) (pack.encode args).length = pack.encode args := by
      rw [load_append] at hcopy
      have htail := (List.append_inj hcopy (by simp)).2
      rwa [← Nat.add_assoc] at htail
    obtain ⟨result, hread, hfate⟩ := readArguments_encode pack hlawful hvalid hshort hload
    refine ⟨result, ?_, hfate⟩
    rw [hread, Nat.add_assoc, Nat.add_assoc, Nat.add_assoc]

def samplePack : Pack (List UInt8 × List Bool × Unit) :=
  .cons .crossbowString (.cons (.vector .bool) .nil)

def sampleFrame : List UInt8 :=
  requestFrame samplePack 7 ([104, 105], [true, false], ()) (fun _ => 0) 0

theorem sample_frame_agrees :
    sampleFrame.length = 28 ∧
      ∃ result, readArguments samplePack (store (fun _ => 255) 64 sampleFrame) 64 = (result, 92) ∧
        samplePack.Equal (samplePack.elements result) ([104, 105], [true, false], ()) := by
  have hlength : sampleFrame.length = 28 := by decide
  have hagree := request_frame_agreement samplePack ⟨trivial, trivial, trivial⟩ 7
    ([104, 105], [true, false], ())
    ⟨by simp [Code.Valid, wordRange], ⟨by simp [wordRange], by simp [Code.Valid]⟩, trivial⟩
    ⟨by simp [Code.Short], by simp [Code.Short], trivial⟩ (fun _ => 0)
    (store (fun _ => 255) 64 sampleFrame) 0 64 sampleFrame rfl (load_store _ _ _)
  rw [hlength] at hagree
  obtain ⟨_, _, result, hread, hequal, _⟩ := hagree
  refine ⟨hlength, result, hread, hequal ⟨trivial, ⟨rfl, ?_⟩, trivial⟩⟩
  exact fun _ _ => trivial

def presetPack : Pack (Preset × Unit) :=
  .cons (presetCode ⟨[#v[1], #v[2]], some #v[5]⟩) .nil

/-- The server executes the command with another object than the client sent. -/
theorem server_argument_differs :
    presetPack.elements (readArguments presetPack
        (writeRequest presetPack 7 (⟨[#v[3]], none⟩, ()) (fun _ => 0) 64).memory 64).1 =
      (⟨[#v[1], #v[2], #v[3]], some #v[5]⟩, ()) := by
  decide

end Crossbow.Protocol
