import TurboOctopus.Lib.BigEndian
/-!
# The encoder buffer

`rlp.encBuffer` keeps the bytes without the heads of the lists, and the heads beside them
with the place where each belongs. Until a list is closed its head holds the size that
the earlier heads had then. Read out, the buffer has every item in its encoding.
-/
namespace TurboOctopus.Rlp

open Lib Lib.Rlp List

structure ListHead where
  offset : Nat
  size : Nat
deriving DecidableEq

structure EncBuffer where
  str : List UInt8
  lheads : List ListHead
  lhsize : Nat
deriving DecidableEq

namespace EncBuffer

def empty : EncBuffer := ⟨[], [], 0⟩

def size (w : EncBuffer) : Nat := w.str.length + w.lhsize

def append (b : List UInt8) (w : EncBuffer) : EncBuffer := { w with str := w.str ++ b }

def encodeStringHeader (size : Nat) (w : EncBuffer) : EncBuffer := w.append (puthead 0x80 0xb7 size)

def writeBytes (b : List UInt8) (w : EncBuffer) : EncBuffer :=
  match b with
  | [x] => if x ≤ 0x7f then w.append [x] else (w.encodeStringHeader 1).append [x]
  | b => (w.encodeStringHeader b.length).append b

/-- Zero is the empty string. -/
def writeUint64 (i : UInt64) (w : EncBuffer) : EncBuffer :=
  if i = 0 then w.append [0x80]
  else if i < 128 then w.append [i.toUInt8]
  else w.append (.ofNat (0x80 + (beBytes i.toNat).length) :: beBytes i.toNat)

/-- Beyond a word, the words of the integer from the last byte on: its digits. -/
def writeBigInt (i : Nat) (w : EncBuffer) : EncBuffer :=
  if i < 2 ^ 64 then w.writeUint64 (.ofNat i) else (w.encodeStringHeader (beBytes i).length).append (beBytes i)

/-- An array of more than one byte. -/
def writeByteArray (b : List UInt8) (w : EncBuffer) : EncBuffer := (w.encodeStringHeader b.length).append b

/-- The buffer with a new head, and its index. -/
def list (w : EncBuffer) : EncBuffer × Nat :=
  ({ w with lheads := w.lheads ++ [⟨w.str.length, w.lhsize⟩] }, w.lheads.length)

def headsize (size : Nat) : Nat := if size < 56 then 1 else 1 + (beBytes size).length

def listEnd (index : Nat) (w : EncBuffer) : EncBuffer :=
  match w.lheads[index]? with
  | none => w
  | some lh =>
    let size := w.size - lh.offset - lh.size
    { w with lheads := w.lheads.set index { lh with size }, lhsize := w.lhsize + headsize size }

variable {α : Type}

/-- A pointer to a type that is a string. -/
def writePtr (writer : α → EncBuffer → EncBuffer) (val : Option α) (w : EncBuffer) : EncBuffer :=
  match val with
  | some ev => writer ev w
  | none => w.append [0x80]

def writeSlice (writer : α → EncBuffer → EncBuffer) (val : List α) (w : EncBuffer) : EncBuffer :=
  match val with
  | [] => w.append [0xc0]
  | val =>
    let (w, index) := w.list
    (val.foldl (fun w x => writer x w) w).listEnd index

def writeStruct (fields : List (EncBuffer → EncBuffer)) (w : EncBuffer) : EncBuffer :=
  let (w, index) := w.list
  (fields.foldl (fun w field => field w) w).listEnd index

/-- The strings from a position on, with the heads that are left. -/
def copyFrom (str : List UInt8) : Nat → List ListHead → List UInt8
  | strpos, [] => str.drop strpos
  | strpos, head :: lheads =>
    (str.drop strpos).take (head.offset - strpos) ++ puthead 0xc0 0xf7 head.size ++
      copyFrom str (strpos + (head.offset - strpos)) lheads

/-- Copied to a slice of `size` bytes, which is zero at first. -/
def makeBytes (w : EncBuffer) : List UInt8 :=
  let out := copyFrom w.str 0 w.lheads
  out.take w.size ++ List.replicate (w.size - out.length) 0

end EncBuffer

mutual
/-- A `[]byte` or an `[]interface{}`, which has no head if it is empty. -/
def writeInterface : Item → EncBuffer → EncBuffer
  | .str b, w => w.writeBytes b
  | .list [], w => w.append [0xc0]
  | .list (x :: l), w =>
    let (w, index) := w.list
    (writeElems l (writeInterface x w)).listEnd index

def writeElems : List Item → EncBuffer → EncBuffer
  | [], w => w
  | x :: l, w => writeElems l (writeInterface x w)
end

def encodeToBytes (i : Item) : List UInt8 := (writeInterface i .empty).makeBytes

/-! ## What is read out -/

namespace EncBuffer

variable {w w₁ w₂ : EncBuffer} {out out₁ out₂ : List UInt8}

/-- From `w` to `w'` the buffer has got `out` to read: whatever comes later, the new bytes
with the new heads are `out`. -/
structure Adds (w w' : EncBuffer) (out : List UInt8) (str : List UInt8) (lheads : List ListHead) : Prop where
  str_eq : w'.str = w.str ++ str
  lheads_eq : w'.lheads = w.lheads ++ lheads
  size_eq : w'.size = w.size + out.length
  offset : ∀ head ∈ lheads, w.str.length ≤ head.offset
  copy : ∀ (more : List UInt8) (later : List ListHead), (∀ head ∈ later, w'.str.length ≤ head.offset) →
    copyFrom (w'.str ++ more) w.str.length (lheads ++ later) = out ++ copyFrom (w'.str ++ more) w'.str.length later

lemma copyFrom_later {str : List UInt8} {p q : Nat} {lheads : List ListHead} (hp : p ≤ q)
    (hq : ∀ head ∈ lheads, q ≤ head.offset) :
    copyFrom str p lheads = (str.drop p).take (q - p) ++ copyFrom str q lheads := by
  have hdrop : str.drop q = (str.drop p).drop (q - p) := by rw [drop_drop, Nat.add_sub_cancel' hp]
  cases lheads with
  | nil => rw [copyFrom, copyFrom, hdrop, take_append_drop]
  | cons head lheads =>
    have hhead := hq head (by simp)
    have hsplit : head.offset - p = (q - p) + (head.offset - q) := by omega
    rw [copyFrom, copyFrom, hdrop, show p + (head.offset - p) = q + (head.offset - q) by omega, hsplit, take_add]
    simp only [append_assoc]

lemma Adds.append (w : EncBuffer) (b : List UInt8) : Adds w (w.append b) b b [] where
  str_eq := rfl
  lheads_eq := by simp [EncBuffer.append]
  size_eq := by simp [EncBuffer.append, size]; omega
  offset := by simp
  copy more later hlater := by
    rw [nil_append, copyFrom_later (q := (w.append b).str.length) (by simp [EncBuffer.append]) hlater]
    simp [EncBuffer.append]

lemma Adds.nil (w : EncBuffer) : Adds w w [] [] [] := by
  have h := Adds.append w []
  simpa [EncBuffer.append] using h

lemma Adds.trans {w' str₁ str₂ lheads₁ lheads₂} (h₁ : Adds w w₁ out₁ str₁ lheads₁)
    (h₂ : Adds w₁ w' out₂ str₂ lheads₂) : Adds w w' (out₁ ++ out₂) (str₁ ++ str₂) (lheads₁ ++ lheads₂) where
  str_eq := by rw [h₂.str_eq, h₁.str_eq, append_assoc]
  lheads_eq := by rw [h₂.lheads_eq, h₁.lheads_eq, append_assoc]
  size_eq := by rw [h₂.size_eq, h₁.size_eq, length_append, Nat.add_assoc]
  offset head hmem := by
    obtain h | h := mem_append.1 hmem
    · exact h₁.offset head h
    · have hoffset := h₂.offset head h
      simp only [h₁.str_eq, length_append] at hoffset
      omega
  copy more later hlater := by
    have hnext : ∀ head ∈ lheads₂ ++ later, w₁.str.length ≤ head.offset := by
      intro head hmem
      obtain h | h := mem_append.1 hmem
      · exact h₂.offset head h
      · have hoffset := hlater head h
        simp only [h₂.str_eq, length_append] at hoffset
        omega
    have hfirst := h₁.copy (str₂ ++ more) (lheads₂ ++ later) hnext
    rw [← append_assoc, ← h₂.str_eq] at hfirst
    rw [append_assoc lheads₁, hfirst, h₂.copy more later hlater, append_assoc]

lemma length_puthead (small large size : Nat) : (puthead small large size).length = headsize size := by
  unfold puthead headsize
  split
  · rfl
  · simp [Nat.add_comm]

/-- Closing a list puts its head before what was written since. -/
lemma Adds.listEnd {str lheads} (h : Adds w.list.1 w₂ out str lheads) :
    Adds w (w₂.listEnd w.list.2) (puthead 0xc0 0xf7 out.length ++ out) str (⟨w.str.length, out.length⟩ :: lheads) := by
  have hsize : w₂.size - w.str.length - w.lhsize = out.length := by
    rw [h.size_eq]
    simp [EncBuffer.list, size]
    omega
  have hend : w₂.listEnd w.list.2 =
      ⟨w₂.str, w.lheads ++ ⟨w.str.length, out.length⟩ :: lheads, w₂.lhsize + headsize out.length⟩ := by
    simp [EncBuffer.listEnd, EncBuffer.list, hsize, h.lheads_eq]
  rw [hend]
  refine ⟨h.str_eq, rfl, ?_, ?_, ?_⟩
  · have := h.size_eq
    simp only [size, EncBuffer.list, length_append, length_puthead] at this ⊢
    omega
  · intro head hmem
    obtain rfl | hmem := mem_cons.1 hmem
    · exact Nat.le_refl _
    · exact h.offset head hmem
  · intro more later hlater
    have hbody := h.copy more later hlater
    simp only [EncBuffer.list] at hbody
    simp [copyFrom, hbody]

lemma adds_string (w : EncBuffer) (b : List UInt8) :
    ∃ str lheads, Adds w ((w.encodeStringHeader b.length).append b) (puthead 0x80 0xb7 b.length ++ b) str lheads :=
  ⟨_, _, (Adds.append w _).trans (Adds.append _ b)⟩

lemma adds_writeBytes (w : EncBuffer) (b : List UInt8) :
    ∃ str lheads, Adds w (w.writeBytes b) (Rlp.writeBytes b) str lheads := by
  match b with
  | [] => exact adds_string w []
  | [x] =>
    by_cases hx : x ≤ 0x7f
    · simp only [EncBuffer.writeBytes, Rlp.writeBytes, if_pos hx]
      exact ⟨_, _, Adds.append w [x]⟩
    · simp only [EncBuffer.writeBytes, Rlp.writeBytes, if_neg hx]
      exact adds_string w [x]
  | x :: y :: b => exact adds_string w (x :: y :: b)

lemma Adds.makeBytes {str lheads} (h : Adds empty w out str lheads) : w.makeBytes = out := by
  have hcopy := h.copy [] [] (by simp)
  have hout : copyFrom w.str 0 w.lheads = out := by
    rw [h.lheads_eq]
    simpa [empty, copyFrom] using hcopy
  have hsize : w.size = out.length := by
    rw [h.size_eq]
    simp [empty, size]
  simp [EncBuffer.makeBytes, hout, hsize]

/-- A writer appends these bytes, to any buffer. -/
def Writes (f : EncBuffer → EncBuffer) (out : List UInt8) : Prop := ∀ w, ∃ str lheads, Adds w (f w) out str lheads

lemma Writes.makeBytes {f : EncBuffer → EncBuffer} (h : Writes f out) : (f empty).makeBytes = out := by
  obtain ⟨str, lheads, h⟩ := h empty
  exact h.makeBytes

lemma writes_writeBytes (b : List UInt8) : Writes (writeBytes b) (Rlp.writeBytes b) := fun w => w.adds_writeBytes b

lemma writes_writeByteArray {b : List UInt8} (hb : b.length ≠ 1) : Writes (writeByteArray b) (Rlp.writeBytes b) := by
  intro w
  rw [writeBytes_string fun x hx => absurd (by rw [hx]; rfl) hb]
  exact w.adds_string b

lemma writes_writeUint64 (i : UInt64) : Writes (writeUint64 i) (Rlp.writeBytes (beBytes i.toNat)) := by
  intro w
  by_cases h0 : i = 0
  · rw [writeUint64, if_pos h0, h0]
    exact ⟨_, _, Adds.append w _⟩
  · rw [writeUint64, if_neg h0]
    by_cases h128 : i < 128
    · -- the only digit
      have hlt : i.toNat < 128 := UInt64.lt_iff_toNat_lt.1 h128
      have hx : i.toUInt8.toNat = i.toNat := by
        rw [UInt64.toNat_toUInt8]
        omega
      have hx0 : i.toUInt8 ≠ 0 := by
        intro h
        rw [h] at hx
        exact h0 (UInt64.toNat_inj.1 hx.symm)
      rw [if_pos h128, ← hx, beBytes_small hx0, writeBytes_byte (UInt8.lt_iff_toNat_lt.2 (by rwa [hx]))]
      exact ⟨_, _, Adds.append w _⟩
    · have hge : 128 ≤ i.toNat := Nat.not_lt.1 fun h => h128 (UInt64.lt_iff_toNat_lt.2 h)
      have hlen : (beBytes i.toNat).length ≤ 8 := length_beBytes_le (by
        rw [show (256 : Nat) ^ 8 = 2 ^ 64 by norm_num]
        exact i.toNat_lt)
      rw [if_neg h128, writeBytes_string (beBytes_not_small (.inr hge)), puthead, if_pos (by omega)]
      exact ⟨_, _, Adds.append w _⟩

lemma writes_writeBigInt (i : Nat) : Writes (writeBigInt i) (Rlp.writeBytes (beBytes i)) := by
  intro w
  by_cases hi : i < 2 ^ 64
  · have h := writes_writeUint64 (.ofNat i) w
    rw [UInt64.toNat_ofNat_of_lt' hi] at h
    rwa [writeBigInt, if_pos hi]
  · rw [writeBigInt, if_neg hi, writeBytes_string (beBytes_not_small (.inr (by omega)))]
    exact w.adds_string _

variable {α : Type}

lemma writes_writePtr {writer : α → EncBuffer → EncBuffer} {enc : α → List UInt8}
    (h : ∀ a, Writes (writer a) (enc a)) (o : Option α) : Writes (writePtr writer o) (o.elim [0x80] enc) := by
  intro w
  cases o with
  | none => exact ⟨_, _, Adds.append w _⟩
  | some a => exact h a w

lemma writes_foldl {f : α → EncBuffer → EncBuffer} {enc : α → List UInt8} (l : List α)
    (h : ∀ a ∈ l, Writes (f a) (enc a)) : Writes (fun w => l.foldl (fun w a => f a w) w) (l.flatMap enc) := by
  induction l with
  | nil => exact fun w => ⟨_, _, Adds.nil w⟩
  | cons a l ih =>
    intro w
    obtain ⟨str₁, lheads₁, h₁⟩ := h a (by simp) w
    obtain ⟨str₂, lheads₂, h₂⟩ := ih (fun b hb => h b (by simp [hb])) (f a w)
    exact ⟨_, _, h₁.trans h₂⟩

lemma writes_writeSlice {writer : α → EncBuffer → EncBuffer} {enc : α → List UInt8}
    (h : ∀ a, Writes (writer a) (enc a)) (l : List α) :
    Writes (writeSlice writer l) (puthead 0xc0 0xf7 (l.flatMap enc).length ++ l.flatMap enc) := by
  intro w
  cases l with
  | nil => exact ⟨_, _, Adds.append w _⟩
  | cons a l =>
    obtain ⟨str, lheads, hbody⟩ := writes_foldl (a :: l) (fun a _ => h a) w.list.1
    exact ⟨_, _, hbody.listEnd⟩

lemma writes_writeStruct {fields : List (EncBuffer → EncBuffer)} {outs : List (List UInt8)}
    (h : List.Forall₂ Writes fields outs) :
    Writes (writeStruct fields) (puthead 0xc0 0xf7 outs.flatten.length ++ outs.flatten) := by
  intro w
  have hbody : Writes (fun w => fields.foldl (fun w field => field w) w) outs.flatten := by
    induction h with
    | nil => exact fun w => ⟨_, _, Adds.nil w⟩
    | @cons field out fields outs hfield _ ih =>
      intro w
      obtain ⟨str₁, lheads₁, h₁⟩ := hfield w
      obtain ⟨str₂, lheads₂, h₂⟩ := ih (field w)
      exact ⟨_, _, h₁.trans h₂⟩
  obtain ⟨str, lheads, hbody⟩ := hbody w.list.1
  exact ⟨_, _, hbody.listEnd⟩

end EncBuffer

mutual
theorem adds_writeInterface : ∀ (i : Item) (w : EncBuffer), ∃ str lheads, w.Adds (writeInterface i w) i.encode str lheads
  | .str b, w => by
    rw [writeInterface, Item.encode]
    exact w.adds_writeBytes b
  | .list [], w => by
    rw [writeInterface]
    exact ⟨_, _, .append w _⟩
  | .list (x :: l), w => by
    obtain ⟨str₁, lheads₁, h₁⟩ := adds_writeInterface x w.list.1
    obtain ⟨str₂, lheads₂, h₂⟩ := adds_writeElems l (writeInterface x w.list.1)
    rw [writeInterface, Item.encode, encodeItems]
    exact ⟨_, _, (h₁.trans h₂).listEnd⟩

theorem adds_writeElems : ∀ (l : List Item) (w : EncBuffer), ∃ str lheads, w.Adds (writeElems l w) (encodeItems l) str lheads
  | [], w => by
    rw [writeElems, encodeItems]
    exact ⟨_, _, .nil w⟩
  | x :: l, w => by
    obtain ⟨str₁, lheads₁, h₁⟩ := adds_writeInterface x w
    obtain ⟨str₂, lheads₂, h₂⟩ := adds_writeElems l (writeInterface x w)
    rw [writeElems, encodeItems]
    exact ⟨_, _, h₁.trans h₂⟩
end

lemma encodeToBytes_eq (i : Item) : encodeToBytes i = i.encode := by
  obtain ⟨str, lheads, h⟩ := adds_writeInterface i .empty
  exact h.makeBytes

end TurboOctopus.Rlp
