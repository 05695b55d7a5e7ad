import Mathlib.Algebra.Group.Nat.Defs
import Understudy.Bytes.BigEndian

/-!
Numbers as bytes: writing a number and reading it, and reading bytes and writing them, give back
what one began with, and an overwritten number is the only thing that changes in a buffer.
-/

namespace Understudy.BigEndian

/-! ### The numeral -/

theorem decode_concat (bytes : Bytes) (b : UInt8) :
    decode (bytes ++ [b]) = decode bytes * 256 + b.toNat := by
  rw [decode, List.foldl_append, List.foldl_cons, List.foldl_nil, decode]

/-- Any number that `width` bytes can hold is read as it was written. -/
theorem decode_encode {width n : Nat} (h : n < 256 ^ width) : decode (encode width n) = n := by
  induction width generalizing n with
  | zero =>
    rw [Nat.pow_zero] at h
    rw [Nat.lt_one_iff.mp h]
    rfl
  | succ width ih =>
    rw [Nat.pow_succ] at h
    have hdiv : n / 256 < 256 ^ width := Nat.div_lt_of_lt_mul (by omega)
    have hlow : (UInt8.ofNat n).toNat = n % 256 := UInt8.toNat_ofNat'
    rw [encode, decode_concat, ih hdiv, hlow]
    omega

/-- Any bytes are written as they were read. By induction from the last byte. -/
theorem encode_decode : ∀ {width : Nat} {bytes : Bytes}, bytes.length = width →
    encode width (decode bytes) = bytes
  | 0, bytes, h => (List.eq_nil_of_length_eq_zero h).symm
  | width + 1, bytes, h => by
    obtain ⟨front, b, rfl⟩ := (List.eq_nil_or_concat bytes).resolve_left (by
      rintro rfl
      cases h)
    rw [List.concat_eq_append] at h ⊢
    have hfront : front.length = width := by simpa using h
    have hb := b.toNat_lt
    have hdiv : (decode front * 256 + b.toNat) / 256 = decode front := by omega
    have hlow : UInt8.ofNat (decode front * 256 + b.toNat) = b := by
      refine UInt8.toNat_inj.mp ?_
      rw [UInt8.toNat_ofNat']
      omega
    rw [decode_concat, encode, hdiv, hlow, encode_decode hfront]

theorem decode_lt : ∀ {width : Nat} {bytes : Bytes}, bytes.length = width →
    decode bytes < 256 ^ width
  | 0, bytes, h => by
    rw [List.eq_nil_of_length_eq_zero h]
    decide
  | width + 1, bytes, h => by
    obtain ⟨front, b, rfl⟩ := (List.eq_nil_or_concat bytes).resolve_left (by
      rintro rfl
      cases h)
    rw [List.concat_eq_append] at h ⊢
    have hfront : front.length = width := by simpa using h
    have hlt := decode_lt hfront
    have hb := b.toNat_lt
    rw [decode_concat, Nat.pow_succ]
    omega

/-- Bytes write a number of as many bits as they have. -/
theorem toNat_ofNat_decode {width : Nat} {bytes : Bytes} (h : bytes.length = width) :
    (BitVec.ofNat (8 * width) (decode bytes)).toNat = decode bytes := by
  have hlt := decode_lt h
  rw [BitVec.toNat_ofNat, Nat.pow_mul]
  exact Nat.mod_eq_of_lt hlt

/-- A number of `width` bytes is read as it was written. -/
theorem decode_encode_bitVec {width : Nat} (value : BitVec (8 * width)) :
    decode (encode width value.toNat) = value.toNat := by
  have hlt := value.isLt
  rw [Nat.pow_mul] at hlt
  exact decode_encode hlt

theorem toNat_toUInt16_decode {bytes : Bytes} (h : bytes.length = 2) :
    (decode bytes).toUInt16.toNat = decode bytes := by
  have hlt := decode_lt h
  exact UInt16.toNat_ofNat_of_lt hlt

/-! ### Writing in the middle of a buffer -/

/-- Two buffers are equally long and agree everywhere but in `width` bytes at `offset`. -/
def AgreeOutside (offset width : Nat) (old new : Bytes) : Prop :=
  new.length = old.length ∧ ∀ i, i < offset ∨ offset + width ≤ i → new[i]? = old[i]?

theorem AgreeOutside.widen {offset width wideOffset wideWidth : Nat} {old new : Bytes}
    (h : AgreeOutside offset width old new) (hoffset : wideOffset ≤ offset)
    (hwidth : offset + width ≤ wideOffset + wideWidth) :
    AgreeOutside wideOffset wideWidth old new :=
  ⟨h.1, fun i hi => h.2 i (by omega)⟩

theorem AgreeOutside.trans {offset width : Nat} {old middle new : Bytes}
    (hfirst : AgreeOutside offset width old middle)
    (hsecond : AgreeOutside offset width middle new) : AgreeOutside offset width old new :=
  ⟨hsecond.1.trans hfirst.1, fun i hi => (hsecond.2 i hi).trans (hfirst.2 i hi)⟩

/-- A buffer with other bytes in the place of those at `offset`. -/
def overwrite (buffer : Bytes) (offset : Nat) (bytes : Bytes) : Bytes :=
  buffer.take offset ++ bytes ++ buffer.drop (offset + bytes.length)

section Overwrite

variable {buffer bytes other : Bytes} {offset otherOffset width : Nat}

theorem length_overwrite (h : offset + bytes.length ≤ buffer.length) :
    (overwrite buffer offset bytes).length = buffer.length := by
  simp only [overwrite, List.length_append, List.length_take, List.length_drop]
  omega

theorem length_slice (h : offset + width ≤ buffer.length) :
    ((buffer.drop offset).take width).length = width := by
  rw [List.length_take, List.length_drop]
  omega

/-- What was put into the buffer stands where it was put. -/
theorem slice_overwrite (h : offset + bytes.length ≤ buffer.length) :
    ((overwrite buffer offset bytes).drop offset).take bytes.length = bytes := by
  have hfront : (buffer.take offset).length = offset := List.length_take_of_le (by omega)
  rw [overwrite, List.append_assoc, List.drop_left' hfront, List.take_left]

theorem getElem?_overwrite_of_lt (h : offset + bytes.length ≤ buffer.length) {i : Nat}
    (hi : i < bytes.length) : (overwrite buffer offset bytes)[offset + i]? = bytes[i]? := by
  rw [← List.getElem?_drop, ← List.getElem?_take_of_lt hi, slice_overwrite h]

/-- Overwriting changes nothing else. -/
theorem agreeOutside_overwrite (h : offset + bytes.length ≤ buffer.length) :
    AgreeOutside offset bytes.length buffer (overwrite buffer offset bytes) := by
  have hfront : (buffer.take offset).length = offset := List.length_take_of_le (by omega)
  refine ⟨length_overwrite h, fun i hi => ?_⟩
  rw [overwrite, List.append_assoc]
  rcases hi with hbefore | hbehind
  · rw [List.getElem?_append_left (by omega), List.getElem?_take_of_lt hbefore]
  · rw [List.getElem?_append_right (by omega), List.getElem?_append_right (by omega),
      List.getElem?_drop]
    congr 1
    omega

/-- Putting back what stands there changes nothing. -/
theorem overwrite_slice (h : offset + width ≤ buffer.length) :
    overwrite buffer offset ((buffer.drop offset).take width) = buffer := by
  rw [overwrite, length_slice h, List.append_assoc, ← List.drop_drop, List.take_append_drop,
    List.take_append_drop]

/-- Places that do not meet can be overwritten in any order. -/
theorem overwrite_comm (h : offset + bytes.length ≤ buffer.length)
    (hother : otherOffset + other.length ≤ buffer.length)
    (hapart : offset + bytes.length ≤ otherOffset ∨ otherOffset + other.length ≤ offset) :
    overwrite (overwrite buffer offset bytes) otherOffset other =
      overwrite (overwrite buffer otherOffset other) offset bytes := by
  have hfirst := agreeOutside_overwrite h
  have hsecond := agreeOutside_overwrite hother
  have hthen : AgreeOutside otherOffset other.length (overwrite buffer offset bytes) _ :=
    agreeOutside_overwrite (by rwa [hfirst.1])
  have hthen' : AgreeOutside offset bytes.length (overwrite buffer otherOffset other) _ :=
    agreeOutside_overwrite (by rwa [hsecond.1])
  -- Every byte is in the first place, in the second one, or in neither.
  refine List.ext_getElem? fun i => ?_
  by_cases hin : offset ≤ i ∧ i < offset + bytes.length
  · obtain ⟨j, rfl⟩ := Nat.exists_eq_add_of_le hin.1
    rw [hthen.2 _ (by omega), getElem?_overwrite_of_lt h (by omega),
      getElem?_overwrite_of_lt (by rwa [hsecond.1]) (by omega)]
  by_cases hin' : otherOffset ≤ i ∧ i < otherOffset + other.length
  · obtain ⟨j, rfl⟩ := Nat.exists_eq_add_of_le hin'.1
    rw [hthen'.2 _ (by omega), getElem?_overwrite_of_lt hother (by omega),
      getElem?_overwrite_of_lt (by rwa [hfirst.1]) (by omega)]
  · rw [hthen.2 i (by omega), hthen'.2 i (by omega), hfirst.2 i (by omega), hsecond.2 i (by omega)]

end Overwrite

theorem writeAt_eq (buffer : Bytes) (width offset value : Nat) :
    writeAt buffer width offset value =
      if offset + width ≤ buffer.length then
        .ok (overwrite buffer offset (encode width value), offset + width)
      else .error .outOfBounds := by
  rw [overwrite, length_encode, writeAt]

/-- A write hits the part of the buffer that it is aimed at. -/
theorem writeAt_append {front middle : Bytes} (back : Bytes) {width offset : Nat} (value : Nat)
    (hfront : front.length = offset) (hmiddle : middle.length = width) :
    writeAt (front ++ (middle ++ back)) width offset value =
      .ok (front ++ (encode width value ++ back), offset + width) := by
  subst hfront hmiddle
  rw [writeAt, if_pos (by simp)]
  simp [List.drop_append]

theorem next_of_writeAt {buffer new : Bytes} {width offset value next : Nat}
    (h : writeAt buffer width offset value = .ok (new, next)) : next = offset + width := by
  rw [writeAt] at h
  split at h
  · exact (Prod.mk.inj (Except.ok.inj h)).2.symm
  · cases h

/-- A write changes nothing else. -/
theorem agreeOutside_of_writeAt {buffer new : Bytes} {width offset value next : Nat}
    (h : writeAt buffer width offset value = .ok (new, next)) :
    AgreeOutside offset width buffer new := by
  rw [writeAt_eq] at h
  split at h
  · next hfits =>
    obtain ⟨rfl, -⟩ := Prod.mk.inj (Except.ok.inj h)
    have hlength := length_encode width value
    rw [← hlength] at hfits
    have hagree := agreeOutside_overwrite hfits
    rwa [hlength] at hagree
  · cases h

end Understudy.BigEndian
