import SpatialIndex.Record.Field

/-!
# Numbers in fields

A number and its bytes determine each other. So a number that was stored in a field is read from it
bit for bit, and two records store the same number in a field exactly when they have the same bytes
there. Storing a number changes no byte outside the field.
-/
namespace SpatialIndex

/-- The patterns of a type are the numbers below the power of 256 that its size gives. -/
theorem Numeric.two_pow_width (numeric : Numeric) : 2 ^ numeric.width = 256 ^ numeric.size :=
  Nat.pow_mul 2 8 numeric.size

namespace Record

/-! ## Bytes of numbers -/

/-- A number is encoded in as many bytes as it is given. -/
@[simp] theorem length_encode (count n : Nat) : (encode count n).length = count := by
  induction count generalizing n with
  | zero => rfl
  | succ count ih => exact congrArg (· + 1) (ih (n / 256))

/-- A number is read from enough of its bytes. -/
theorem decode_encode {count n : Nat} (small : n < 256 ^ count) : decode (encode count n) = n := by
  induction count generalizing n with
  | zero => exact (Nat.lt_one_iff.mp small).symm
  | succ count ih =>
    have rest : n / 256 < 256 ^ count := by
      rw [Nat.pow_succ'] at small
      exact Nat.div_lt_of_lt_mul small
    rw [encode, decode, ih rest, UInt8.toNat_ofNat']
    exact Nat.mod_add_div n 256

/-- A decoded number fits in the bytes that it was decoded from. -/
theorem decode_lt (bytes : Bytes) : decode bytes < 256 ^ bytes.length := by
  induction bytes with
  | nil => exact Nat.one_pos
  | cons byte rest ih =>
    have small := byte.toNat_lt
    rw [decode, List.length_cons, Nat.pow_succ']
    omega

/-- Bytes are those of the number read from them. -/
theorem encode_decode (bytes : Bytes) : encode bytes.length (decode bytes) = bytes := by
  induction bytes with
  | nil => rfl
  | cons byte rest ih =>
    have small := byte.toNat_lt
    have lowest : UInt8.ofNat (byte.toNat + 256 * decode rest) = byte := by
      apply UInt8.toNat_inj.mp
      rw [UInt8.toNat_ofNat']
      omega
    have others : (byte.toNat + 256 * decode rest) / 256 = decode rest := by omega
    rw [List.length_cons, decode, encode, lowest, others, ih]

/-- The pattern of a number is read from its bytes. -/
theorem decode_bits (value : Coordinate) :
    decode (encode value.numeric.size value.bits.toNat) = value.bits.toNat := by
  apply decode_encode
  rw [← value.numeric.two_pow_width]
  exact value.bits.isLt

/-- The pattern read from as many bytes as a type has is the number that they encode. -/
theorem toNat_pattern {numeric : Numeric} {bytes : Bytes} (sized : bytes.length = numeric.size) :
    (BitVec.ofNat numeric.width (decode bytes)).toNat = decode bytes := by
  rw [BitVec.toNat_ofNat, numeric.two_pow_width, ← sized]
  exact Nat.mod_eq_of_lt (decode_lt bytes)

/-- Different bytes have different patterns. -/
theorem pattern_inj {numeric : Numeric} {first second : Bytes}
    (sizedFirst : first.length = numeric.size) (sizedSecond : second.length = numeric.size) :
    BitVec.ofNat numeric.width (decode first) = BitVec.ofNat numeric.width (decode second) ↔
      first = second := by
  refine ⟨fun same => ?_, fun same => by rw [same]⟩
  have decoded := congrArg BitVec.toNat same
  rw [toNat_pattern sizedFirst, toNat_pattern sizedSecond] at decoded
  rw [← encode_decode first, ← encode_decode second, decoded, sizedFirst, sizedSecond]

namespace Field

variable {field other : Field} {numeric : Numeric} {record bytes : Bytes} {value : Coordinate}

/-! ## Bytes of fields -/

/-- A field that stores numbers of a type inside every record of `size` bytes. -/
def Fits (numeric : Numeric) (size : Nat) (field : Field) : Prop :=
  field.Holds numeric ∧ field.offset + field.size ≤ size

/-- A place is one of the places of a field. -/
def Covers (field : Field) (place : Nat) : Prop :=
  field.offset ≤ place ∧ place < field.offset + field.size

/-- One of two fields ends before the other starts. -/
def Apart (field other : Field) : Prop :=
  field.offset + field.size ≤ other.offset ∨ other.offset + other.size ≤ field.offset

/-- Fields that are apart share no place. -/
theorem Apart.not_covers (apart : field.Apart other) {place : Nat} (covers : field.Covers place) :
    ¬ other.Covers place := by
  unfold Apart Covers at *
  omega

/-- A field inside a record has bytes. -/
theorem bytes?_of_le {field : Field} {record : Bytes}
    (inside : field.offset + field.size ≤ record.length) :
    field.bytes? record = some ((record.drop field.offset).take field.size) := if_pos inside

/-- A field has bytes in the records that reach its end. -/
theorem bytes?_eq_some_iff : field.bytes? record = some bytes ↔
    field.offset + field.size ≤ record.length ∧
      (record.drop field.offset).take field.size = bytes := by
  unfold bytes?
  split <;> simp [*]

/-- A field has as many bytes as its size says. -/
theorem length_of_bytes? (stored : field.bytes? record = some bytes) :
    bytes.length = field.size := by
  obtain ⟨inside, rfl⟩ := bytes?_eq_some_iff.mp stored
  rw [List.length_take, List.length_drop]
  omega

/-- The bytes of a field depend on its places alone. -/
theorem bytes?_congr {first second : Bytes} (sized : first.length = second.length)
    (same : ∀ place, field.Covers place → first[place]? = second[place]?) :
    field.bytes? first = field.bytes? second := by
  unfold bytes?
  rw [sized]
  congr 2
  apply List.ext_getElem?
  intro i
  rw [List.getElem?_take, List.getElem?_take, List.getElem?_drop, List.getElem?_drop]
  by_cases near : i < field.size
  · rw [if_pos near, if_pos near, same _ ⟨by omega, by omega⟩]
  · rw [if_neg near, if_neg near]

/-! ## Replaced bytes -/

/-- Replacing the bytes of a field keeps the length of the record. -/
theorem length_replace (inside : field.offset + field.size ≤ record.length)
    (sized : bytes.length = field.size) :
    (field.replace record bytes).length = record.length := by
  simp only [replace, List.length_append, List.length_take, List.length_drop]
  omega

/-- The field has the bytes that replaced its own. -/
theorem bytes?_replace (inside : field.offset + field.size ≤ record.length)
    (sized : bytes.length = field.size) :
    field.bytes? (field.replace record bytes) = some bytes := by
  rw [bytes?_eq_some_iff, length_replace inside sized]
  refine ⟨inside, ?_⟩
  have before : (record.take field.offset).length = field.offset := by
    rw [List.length_take]
    omega
  rw [replace, List.append_assoc, List.drop_left' before, List.take_left' sized]

/-- Every other byte of the record stays. -/
theorem getElem?_replace (inside : field.offset + field.size ≤ record.length)
    (sized : bytes.length = field.size) {place : Nat} (outside : ¬ field.Covers place) :
    (field.replace record bytes)[place]? = record[place]? := by
  have before : (record.take field.offset).length = field.offset := by
    rw [List.length_take]
    omega
  unfold Covers at outside
  rw [replace, List.append_assoc]
  by_cases early : place < field.offset
  · rw [List.getElem?_append_left (by omega), List.getElem?_take, if_pos early]
  · rw [List.getElem?_append_right (by omega), List.getElem?_append_right (by omega),
      List.getElem?_drop]
    congr 1
    omega

/-- Replacing the bytes of a field by themselves changes nothing. -/
theorem replace_self (stored : field.bytes? record = some bytes) :
    field.replace record bytes = record := by
  obtain ⟨-, rfl⟩ := bytes?_eq_some_iff.mp stored
  rw [replace, List.append_assoc, ← List.drop_drop, List.take_append_drop, List.take_append_drop]

/-! ## Reading and writing -/

/-- The number read depends on the bytes of the field alone. -/
theorem read_congr {field : Field} {first second : Bytes}
    (same : field.bytes? first = field.bytes? second) (numeric : Numeric) :
    field.read numeric first = field.read numeric second := by
  unfold read
  rw [same]

/-- A number is read from a field that holds its type and has bytes, and its pattern is that of
the bytes. -/
theorem read_eq_ok_iff : field.read numeric record = .ok value ↔ field.Holds numeric ∧
    ∃ bytes, field.bytes? record = some bytes ∧
      (⟨numeric, BitVec.ofNat _ (decode bytes)⟩ : Coordinate) = value := by
  unfold read
  by_cases holds : field.Holds numeric
  · cases stored : field.bytes? record <;> simp [holds]
  · simp [holds]

/-- A field that fits can be read. -/
theorem Fits.read {numeric : Numeric} {size : Nat} {field : Field} (fits : field.Fits numeric size)
    {record : Bytes} (sized : record.length = size) :
    ∃ value, field.read numeric record = .ok value ∧ value.numeric = numeric := by
  have inside : field.offset + field.size ≤ record.length := by
    rw [sized]
    exact fits.2
  exact ⟨_, read_eq_ok_iff.mpr ⟨fits.1, _, bytes?_of_le inside, rfl⟩, rfl⟩

/-- A number of the right type replaces the bytes of the field. -/
theorem write_eq (fits : field.Fits value.numeric record.length) :
    field.write value record = .ok (field.replace record (encode field.size value.bits.toNat)) := by
  rw [write, if_pos fits.1, if_pos fits.2]

/-- A number of another type is refused. -/
theorem write_of_not_holds (other : ¬ field.Holds value.numeric) :
    field.write value record = .error (.fieldType field.id value.numeric) := if_neg other

/-- What storing a number in a field makes of a record. -/
structure Stored (field : Field) (value : Coordinate) (before after : Bytes) : Prop where
  /-- The record keeps its length. -/
  length : after.length = before.length
  /-- The number is read bit for bit. -/
  read : field.read value.numeric after = .ok value
  /-- No byte outside the field changes. -/
  outside : ∀ {place}, ¬ field.Covers place → after[place]? = before[place]?

/-- A field that fits can be written. -/
theorem Fits.exists_write (fits : field.Fits value.numeric record.length) :
    ∃ after, field.write value record = .ok after ∧ field.Stored value record after := by
  have sized : (encode field.size value.bits.toNat).length = field.size := length_encode _ _
  refine ⟨_, write_eq fits, length_replace fits.2 sized, ?_, getElem?_replace fits.2 sized⟩
  refine read_eq_ok_iff.mpr ⟨fits.1, _, bytes?_replace fits.2 sized, ?_⟩
  rw [fits.1.2, decode_bits, BitVec.ofNat_toNat, BitVec.setWidth_eq]

/-- Writing the number that was read changes nothing. -/
theorem write_of_read (found : field.read numeric record = .ok value) :
    field.write value record = .ok record := by
  obtain ⟨holds, bytes, stored, rfl⟩ := read_eq_ok_iff.mp found
  have inside := (bytes?_eq_some_iff.mp stored).1
  have sized := length_of_bytes? stored
  have same : encode field.size (BitVec.ofNat numeric.width (decode bytes)).toNat = bytes := by
    rw [toNat_pattern (sized.trans holds.2), ← sized, encode_decode]
  rw [write_eq ⟨holds, inside⟩, same, replace_self stored]

/-- Two records have the same bytes in a field exactly when they store the same pattern in it. -/
theorem equalIn_eq {first second : Bytes} (inFirst : field.Fits numeric first.length)
    (inSecond : field.Fits numeric second.length) : ∃ left right : BitVec numeric.width,
      field.read numeric first = .ok ⟨numeric, left⟩ ∧
      field.read numeric second = .ok ⟨numeric, right⟩ ∧
      field.equalIn first second = .ok (left == right) := by
  have holds := inFirst.1
  have storedFirst := bytes?_of_le inFirst.2
  have storedSecond := bytes?_of_le inSecond.2
  have sizedFirst := (length_of_bytes? storedFirst).trans holds.2
  have sizedSecond := (length_of_bytes? storedSecond).trans holds.2
  refine ⟨_, _, read_eq_ok_iff.mpr ⟨holds, _, storedFirst, rfl⟩,
    read_eq_ok_iff.mpr ⟨holds, _, storedSecond, rfl⟩, ?_⟩
  simp only [equalIn, Field.bytes, storedFirst, storedSecond, bind, Except.bind, pure, Except.pure,
    Except.ok.injEq]
  rw [Bool.eq_iff_iff, beq_iff_eq, beq_iff_eq]
  exact (pattern_inj sizedFirst sizedSecond).symm

end Field

end Record

end SpatialIndex
