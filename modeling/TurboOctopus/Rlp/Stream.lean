import TurboOctopus.Lib.Rlp
/-!
# The decoding stream

`rlp.Stream` over a `bytes.Reader`, whose length is the input limit. The sizes of the
lists that are open are on a stack, innermost first, and every read is taken off the
innermost one. What `Kind` has read of the value ahead is kept until it is decoded. An
error carries no context here.
-/
namespace TurboOctopus.Rlp

open Lib Lib.Rlp

inductive DecodeError
  | eol
  | expectedString
  | expectedList
  | canonInt
  | canonSize
  | elemTooLarge
  | valueTooLarge
  | moreThanOneValue
  | notInList
  | notAtEOL
  | uintOverflow
  | eof
  | unexpectedEOF
  | stringTooLong
  | stringTooShort
  | wrongEmptyKind
  | tooFewElements
  /-- From the `DecodeRLP` of a type. -/
  | custom (text : String)
  /-- Out of fuel. -/
  | endless
deriving DecidableEq

inductive Kind
  | byte
  | string
  | list
deriving DecidableEq

/-- The value ahead: `kind`, `size`, `byteval` and `kinderr`. -/
structure Ahead where
  kind : Kind
  size : UInt64
  byteval : UInt8
  kinderr : Option DecodeError
deriving DecidableEq

/-- `ahead` is `none` where `kind` is -1. -/
structure Stream where
  input : List UInt8
  remaining : UInt64
  stack : List UInt64
  ahead : Option Ahead
deriving DecidableEq

abbrev StreamM := EStateM DecodeError Stream

/-! ## Reading -/

def Stream.listLimit (s : Stream) : Option UInt64 := s.stack.head?

/-- Taken off the innermost list. The difference wraps. -/
def takeOff (n : UInt64) : List UInt64 → List UInt64
  | [] => []
  | limit :: rest => (limit - n) :: rest

/-- `s.kind = -1`. -/
def rearm : StreamM Unit := modify fun s => { s with ahead := none }

def willRead (n : UInt64) : StreamM Unit := fun s =>
  if s.listLimit.any (· < n) then .error .elemTooLarge { s with ahead := none }
  else if s.remaining < n then
    .error .valueTooLarge { s with stack := takeOff n s.stack, ahead := none }
  else .ok () { s with remaining := s.remaining - n, stack := takeOff n s.stack, ahead := none }

/-- `n` bytes from the reader. -/
def pull (n : Nat) : StreamM (List UInt8) := fun s =>
  if s.input.length < n then .error .unexpectedEOF { s with input := [] }
  else .ok (s.input.take n) { s with input := s.input.drop n }

/-- A byte from the reader. -/
def pullByte : StreamM UInt8 := fun s =>
  match s.input with
  | [] => .error .unexpectedEOF s
  | b :: rest => .ok b { s with input := rest }

def readFull (n : UInt64) : StreamM (List UInt8) := do
  willRead n
  pull n.toNat

def readByte : StreamM UInt8 := do
  willRead 1
  pullByte

/-- At most eight bytes. -/
def readUint (size : UInt8) : StreamM UInt64 :=
  if size = 0 then do
    rearm
    return 0
  else if size = 1 then do
    let b ← readByte
    return b.toUInt64
  else do
    let buffer ← readFull size.toUInt64
    if buffer.head? = some 0 then throw .canonSize
    else return UInt64.ofNat (beNat buffer)

/-! ## The value ahead -/

def readSize (kind : Kind) (sizesize : UInt8) (s : Stream) : Ahead × Stream :=
  match readUint sizesize s with
  | .ok size s => (⟨kind, size, 0, if size < 56 then some .canonSize else none⟩, s)
  | .error e s => (⟨kind, 0, 0, some e⟩, s)

/-- At the top level the end of the input is `io.EOF`. -/
def adjustEOF (s : Stream) (e : DecodeError) : DecodeError :=
  if s.stack = [] ∧ (e = .unexpectedEOF ∨ e = .valueTooLarge) then .eof else e

def readKind (s : Stream) : Ahead × Stream :=
  match readByte s with
  | .error e s => (⟨.byte, 0, 0, some (adjustEOF s e)⟩, s)
  | .ok b s =>
    if b < 0x80 then (⟨.byte, 0, b, none⟩, s)
    else if b < 0xb8 then (⟨.string, (b - 0x80).toUInt64, 0, none⟩, s)
    else if b < 0xc0 then readSize .string (b - 0xb7) s
    else if b < 0xf8 then (⟨.list, (b - 0xc0).toUInt64, 0, none⟩, s)
    else readSize .list (b - 0xf7) s

def Ahead.result (a : Ahead) : StreamM Ahead := fun s =>
  match a.kinderr with
  | none => .ok a s
  | some e => .error e s

/-- The size of the value ahead against the limits: that of the list is the one before
the tag was read. -/
def Ahead.checked (a : Ahead) (limit : Option UInt64) (remaining : UInt64) : Ahead :=
  if a.kinderr ≠ none then a
  else if limit.any (· < a.size) then { a with kinderr := some .elemTooLarge }
  else if remaining < a.size then { a with kinderr := some .valueTooLarge }
  else a

/-- `Stream.Kind`. -/
def kind : StreamM Ahead := fun s =>
  match s.ahead with
  | some a => a.result s
  | none =>
    if s.listLimit = some 0 then .error .eol s
    else
      let (a, t) := readKind s
      let a := a.checked s.listLimit t.remaining
      a.result { t with ahead := some a }

/-! ## Values -/

/-- `Stream.Bytes`. -/
def bytes : StreamM (List UInt8) := do
  let a ← kind
  match a.kind with
  | .byte =>
    rearm
    return [a.byteval]
  | .string =>
    let b ← readFull a.size
    if a.size = 1 ∧ b.head?.any (· < 128) then throw .canonSize
    else return b
  | .list => throw .expectedString

/-- `Stream.List`. -/
def list : StreamM UInt64 := do
  let a ← kind
  if a.kind ≠ .list then throw .expectedList
  else
    modify fun s => { s with stack := a.size :: takeOff a.size s.stack, ahead := none }
    return a.size

def listEnd : StreamM Unit := fun s =>
  match s.stack with
  | [] => .error .notInList s
  | limit :: rest => if 0 < limit then .error .notAtEOL s else .ok () { s with stack := rest, ahead := none }

variable {α β : Type}

def decodeSliceElems (elemdec : StreamM α) : Nat → StreamM (List α)
  | 0 => throw .endless
  | fuel + 1 => fun s =>
    match elemdec s with
    | .error .eol s => .ok [] s
    | .error e s => .error e s
    | .ok a s =>
      match decodeSliceElems elemdec fuel s with
      | .ok l s => .ok (a :: l) s
      | .error e s => .error e s

def decodeListSlice (elemdec : StreamM α) (fuel : Nat) : StreamM (List α) := do
  let size ← list
  if size = 0 then
    listEnd
    return []
  else
    let l ← decodeSliceElems elemdec fuel
    listEnd
    return l

/-- Into an `interface{}`: a `[]byte` or an `[]interface{}`. -/
def decodeInterface : Nat → StreamM Item
  | 0 => throw .endless
  | fuel + 1 => do
    let a ← kind
    if a.kind = .list then
      let l ← decodeListSlice (decodeInterface fuel) fuel
      return .list l
    else
      let b ← bytes
      return .str b

/-! ## Values of a type -/

/-- An error in the digits of an integer is not one of a size. -/
def asCanonInt (x : StreamM α) : StreamM α := fun s =>
  match x s with
  | .error .canonSize t => .error .canonInt t
  | r => r

/-- `Stream.uint`, which `decodeUint` calls with the bits of the type. -/
def uint (maxbits : Nat) : StreamM UInt64 := do
  let a ← kind
  match a.kind with
  | .byte =>
    if a.byteval = 0 then throw .canonInt
    else
      rearm
      return a.byteval.toUInt64
  | .string =>
    if UInt64.ofNat (maxbits / 8) < a.size then throw .uintOverflow
    else
      let v ← asCanonInt (readUint a.size.toUInt8)
      if 0 < a.size ∧ v < 128 then throw .canonSize
      else return v
  | .list => throw .expectedString

/-- The end of `decodeBigInt`. -/
def setBytes (buffer : List UInt8) : StreamM Nat :=
  if buffer.head? = some 0 then throw .canonInt else return beNat buffer

/-- The buffers that the source has for small and for large integers are one here. -/
def decodeBigInt : StreamM Nat := do
  let a ← kind
  match a.kind with
  | .list => throw .expectedString
  | .byte =>
    rearm
    setBytes [a.byteval]
  | .string =>
    if a.size = 0 then
      rearm
      setBytes []
    else
      let buffer ← readFull a.size
      if a.size = 1 ∧ buffer.head?.any (· < 128) then throw .canonSize
      else setBytes buffer

/-- Into an array of `len` bytes. -/
def decodeByteArray (len : Nat) : StreamM (List UInt8) := do
  let a ← kind
  match a.kind with
  | .byte =>
    if len = 0 then throw .stringTooLong
    else if 1 < len then throw .stringTooShort
    else
      rearm
      return [a.byteval]
  | .string =>
    if UInt64.ofNat len < a.size then throw .stringTooLong
    else if a.size < UInt64.ofNat len then throw .stringTooShort
    else
      let slice ← readFull a.size
      if a.size = 1 ∧ slice.head?.any (· < 128) then throw .canonSize
      else return slice
  | .list => throw .expectedString

/-- A pointer with the tag `nil`. -/
def decodeNilPtr (nilKind : Kind) (decoder : StreamM α) : StreamM (Option α) := do
  let a ← kind
  if a.kind ≠ .byte ∧ a.size = 0 then
    if a.kind ≠ nilKind then throw .wrongEmptyKind
    else
      rearm
      return none
  else
    let newval ← decoder
    return some newval

/-- A field of a struct, where the list must not be at its end. -/
def required (decoder : StreamM α) : StreamM α := fun s =>
  match decoder s with
  | .error .eol t => .error .tooFewElements t
  | r => r

/-- A field and the ones after it. -/
def field (decoder : StreamM α) (fields : StreamM β) : StreamM (α × β) := do
  let a ← required decoder
  let rest ← fields
  return (a, rest)

def noFields : StreamM Unit := return ()

/-- A struct without optional fields. -/
def decodeStruct (fields : StreamM α) : StreamM α := do
  let _ ← list
  let a ← fields
  listEnd
  return a

/-- A stream at the start of the bytes. -/
def newStream (b : List UInt8) : Stream := ⟨b, UInt64.ofNat b.length, [], none⟩

/-- `DecodeBytes` with the decoder of a type, which gets as much fuel as there are bytes,
and one more. -/
def decodeBytes (decoder : Nat → StreamM α) (b : List UInt8) : Except DecodeError α :=
  match decoder (b.length + 1) (newStream b) with
  | .ok a s => if 0 < s.input.length then .error .moreThanOneValue else .ok a
  | .error e _ => .error e

end TurboOctopus.Rlp
