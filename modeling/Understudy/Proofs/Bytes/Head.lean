import Understudy.Bytes.Head
import Understudy.Proofs.Bytes.BigEndian

/-!
Numbers read and written at a place that is counted in words. Where so many bytes lie ahead, an
access succeeds, and the place moves behind the number; anywhere else it is refused, and leaves
buffer and place as they are. What was written is read again, what was read can be written back,
nothing else changes, and writes at places that do not meet can change places. Counted without
bound, as the readers and writers of class files do, places come to the same. Main statement:
`reads_match_writes`.
-/

namespace Understudy.Head

variable {buffer : Bytes} {offset width offset' width' : UInt64}

/-! ### Where an access ends -/

theorem toNat_stop (hcounts : buffer.length < 2 ^ 64)
    (hfits : offset.toNat + width.toNat ≤ buffer.length) :
    (offset + width).toNat = offset.toNat + width.toNat := by
  rw [UInt64.toNat_add]
  exact Nat.mod_eq_of_lt (by omega)

theorem stop?_of_fits (hcounts : buffer.length < 2 ^ 64)
    (hfits : offset.toNat + width.toNat ≤ buffer.length) :
    stop? width ⟨buffer, offset⟩ = some (offset + width) := by
  have hstop := toNat_stop hcounts hfits
  refine if_pos ⟨?_, ?_⟩
  · rw [UInt64.le_iff_toNat_le, hstop]
    exact Nat.le_add_right _ _
  · rwa [hstop]

/-- A sum that wraps around is below its first part, so it is not taken for the end. -/
theorem stop?_of_short (hshort : buffer.length < offset.toNat + width.toNat) :
    stop? width ⟨buffer, offset⟩ = none := by
  refine if_neg ?_
  rintro ⟨hle : offset ≤ offset + width, hstop : (offset + width).toNat ≤ buffer.length⟩
  rw [UInt64.le_iff_toNat_le] at hle
  rw [UInt64.toNat_add] at hle hstop
  have hoffset := offset.toNat_lt
  have hwidth := width.toNat_lt
  omega

/-! ### Reading and writing where the bytes are there, and where they are not -/

theorem take_of_fits (hcounts : buffer.length < 2 ^ 64)
    (hfits : offset.toNat + width.toNat ≤ buffer.length) :
    take width ⟨buffer, offset⟩ =
      (.ok ((buffer.drop offset.toNat).take width.toNat), ⟨buffer, offset + width⟩) := by
  rw [take, stop?_of_fits hcounts hfits]
  dsimp only
  rw [toNat_stop hcounts hfits, List.drop_take, Nat.add_sub_cancel_left]

theorem take_of_short (hshort : buffer.length < offset.toNat + width.toNat) :
    take width ⟨buffer, offset⟩ = (.error .outOfBounds, ⟨buffer, offset⟩) := by
  rw [take, stop?_of_short hshort]

theorem read_of_fits (hcounts : buffer.length < 2 ^ 64)
    (hfits : offset.toNat + width.toNat ≤ buffer.length) :
    read width ⟨buffer, offset⟩ =
      (.ok (.ofNat _ (BigEndian.decode ((buffer.drop offset.toNat).take width.toNat))),
        ⟨buffer, offset + width⟩) := by
  rw [read, take_of_fits hcounts hfits]

theorem read_of_short (hshort : buffer.length < offset.toNat + width.toNat) :
    read width ⟨buffer, offset⟩ = (.error .outOfBounds, ⟨buffer, offset⟩) := by
  rw [read, take_of_short hshort]

theorem write_of_fits (hcounts : buffer.length < 2 ^ 64)
    (hfits : offset.toNat + width.toNat ≤ buffer.length) (value : BitVec (8 * width.toNat)) :
    write width value ⟨buffer, offset⟩ =
      (.ok (), ⟨BigEndian.overwrite buffer offset.toNat
        (BigEndian.encode width.toNat value.toNat), offset + width⟩) := by
  rw [write, stop?_of_fits hcounts hfits]
  dsimp only
  rw [toNat_stop hcounts hfits, BigEndian.overwrite, BigEndian.length_encode]

theorem write_of_short (hshort : buffer.length < offset.toNat + width.toNat)
    (value : BitVec (8 * width.toNat)) :
    write width value ⟨buffer, offset⟩ = (.error .outOfBounds, ⟨buffer, offset⟩) := by
  rw [write, stop?_of_short hshort]

theorem write_eq_ok_iff (hcounts : buffer.length < 2 ^ 64) (value : BitVec (8 * width.toNat)) :
    (write width value ⟨buffer, offset⟩).1 = .ok () ↔
      offset.toNat + width.toNat ≤ buffer.length := by
  rcases Nat.lt_or_ge buffer.length (offset.toNat + width.toNat) with hshort | hfits
  · rw [write_of_short hshort]
    exact iff_of_false nofun (Nat.not_le.mpr hshort)
  · rw [write_of_fits hcounts hfits]
    exact iff_of_true rfl hfits

theorem exists_read_eq_ok_iff (hcounts : buffer.length < 2 ^ 64) :
    (∃ found, (read width ⟨buffer, offset⟩).1 = .ok found) ↔
      offset.toNat + width.toNat ≤ buffer.length := by
  rcases Nat.lt_or_ge buffer.length (offset.toNat + width.toNat) with hshort | hfits
  · rw [read_of_short hshort]
    exact iff_of_false nofun (Nat.not_le.mpr hshort)
  · rw [read_of_fits hcounts hfits]
    exact iff_of_true ⟨_, rfl⟩ hfits

/-! ### Places counted without bound -/

theorem readAt_eq_read (hcounts : buffer.length < 2 ^ 64) (offset width : UInt64) :
    BigEndian.readAt buffer width.toNat offset.toNat =
      (read width ⟨buffer, offset⟩).1.map fun found =>
        (found.toNat, (read width ⟨buffer, offset⟩).2.offset.toNat) := by
  rw [BigEndian.readAt]
  split
  · next hfits =>
    rw [read_of_fits hcounts hfits]
    dsimp only [Except.map]
    rw [toNat_stop hcounts hfits, BigEndian.toNat_ofNat_decode (BigEndian.length_slice hfits)]
  · next hshort => rw [read_of_short (Nat.lt_of_not_le hshort), Except.map]

theorem writeAt_eq_write (hcounts : buffer.length < 2 ^ 64) (offset : UInt64)
    (value : BitVec (8 * width.toNat)) :
    BigEndian.writeAt buffer width.toNat offset.toNat value.toNat =
      (write width value ⟨buffer, offset⟩).1.map fun _ =>
        ((write width value ⟨buffer, offset⟩).2.buffer,
          (write width value ⟨buffer, offset⟩).2.offset.toNat) := by
  rw [BigEndian.writeAt_eq]
  split
  · next hfits =>
    rw [write_of_fits hcounts hfits]
    dsimp only [Except.map]
    rw [toNat_stop hcounts hfits]
  · next hshort => rw [write_of_short (Nat.lt_of_not_le hshort), Except.map]

/-! ### One access behind another -/

/-- What a write comes to where the bytes are there, told without the buffer before it. -/
theorem write_eq_ok (hcounts : buffer.length < 2 ^ 64) {value : BitVec (8 * width.toNat)}
    {next : Head} (hwrite : write width value ⟨buffer, offset⟩ = (.ok (), next)) :
    offset.toNat + width.toNat ≤ buffer.length ∧
      next.offset.toNat = offset.toNat + width.toNat ∧
      BigEndian.AgreeOutside offset.toNat width.toNat buffer next.buffer ∧
      (next.buffer.drop offset.toNat).take width.toNat =
        BigEndian.encode width.toNat value.toNat := by
  have hfits : offset.toNat + width.toNat ≤ buffer.length :=
    (write_eq_ok_iff hcounts value).mp (by rw [hwrite])
  rw [write_of_fits hcounts hfits] at hwrite
  obtain rfl := (Prod.mk.inj hwrite).2
  have hlength := BigEndian.length_encode width.toNat value.toNat
  have hroom : offset.toNat + (BigEndian.encode width.toNat value.toNat).length ≤
      buffer.length := by rwa [hlength]
  have hagree := BigEndian.agreeOutside_overwrite hroom
  have hslice := BigEndian.slice_overwrite hroom
  rw [hlength] at hagree hslice
  exact ⟨hfits, toNat_stop hcounts hfits, hagree, hslice⟩

/-- A number that was written is read again. -/
theorem read_of_write (hcounts : buffer.length < 2 ^ 64) {value : BitVec (8 * width.toNat)}
    {next : Head} (hwrite : write width value ⟨buffer, offset⟩ = (.ok (), next)) :
    read width ⟨next.buffer, offset⟩ = (.ok value, next) := by
  obtain ⟨hfits, hstop, hagree, hslice⟩ := write_eq_ok hcounts hwrite
  have hoffset : offset + width = next.offset := by
    rw [← UInt64.toNat_inj, toNat_stop hcounts hfits, hstop]
  rw [← hagree.1] at hcounts hfits
  rw [read_of_fits hcounts hfits, hslice, BigEndian.decode_encode_bitVec, BitVec.ofNat_toNat,
    BitVec.setWidth_eq, hoffset]

/-- What a read comes to where the bytes are there. -/
theorem read_eq_ok (hcounts : buffer.length < 2 ^ 64) {found : BitVec (8 * width.toNat)}
    {next : Head} (hread : read width ⟨buffer, offset⟩ = (.ok found, next)) :
    offset.toNat + width.toNat ≤ buffer.length ∧
      next.offset.toNat = offset.toNat + width.toNat ∧ next.buffer = buffer ∧
      found.toNat = BigEndian.decode ((buffer.drop offset.toNat).take width.toNat) := by
  have hfits : offset.toNat + width.toNat ≤ buffer.length :=
    (exists_read_eq_ok_iff hcounts).mp ⟨found, by rw [hread]⟩
  rw [read_of_fits hcounts hfits] at hread
  obtain ⟨hfound, rfl⟩ := Prod.mk.inj hread
  obtain rfl := Except.ok.inj hfound
  exact ⟨hfits, toNat_stop hcounts hfits, rfl,
    BigEndian.toNat_ofNat_decode (BigEndian.length_slice hfits)⟩

/-- A number that was read can be written back, and nothing changes. -/
theorem write_of_read (hcounts : buffer.length < 2 ^ 64) {found : BitVec (8 * width.toNat)}
    {next : Head} (hread : read width ⟨buffer, offset⟩ = (.ok found, next)) :
    write width found ⟨buffer, offset⟩ = (.ok (), next) := by
  obtain ⟨hfits, hstop, hbuffer, hfound⟩ := read_eq_ok hcounts hread
  have hnext : next = ⟨buffer, offset + width⟩ := by
    rw [read_of_fits hcounts hfits] at hread
    exact (Prod.mk.inj hread).2.symm
  rw [write_of_fits hcounts hfits, hfound, BigEndian.encode_decode (BigEndian.length_slice hfits),
    BigEndian.overwrite_slice hfits, hnext]

/-- A write comes to the same in buffers of one length, but for what it leaves of them. -/
theorem write_congr {changed : Bytes} (hcounts : buffer.length < 2 ^ 64)
    (hlength : changed.length = buffer.length) (offset : UInt64)
    (value : BitVec (8 * width.toNat)) :
    (write width value ⟨changed, offset⟩).1 = (write width value ⟨buffer, offset⟩).1 ∧
      (write width value ⟨changed, offset⟩).2.offset =
        (write width value ⟨buffer, offset⟩).2.offset := by
  rcases Nat.lt_or_ge buffer.length (offset.toNat + width.toNat) with hshort | hfits
  · rw [write_of_short hshort, write_of_short (by rwa [hlength])]
    exact ⟨rfl, rfl⟩
  · rw [write_of_fits hcounts hfits, write_of_fits (by rwa [hlength]) (by rwa [hlength])]
    exact ⟨rfl, rfl⟩

theorem length_write (hcounts : buffer.length < 2 ^ 64) (offset : UInt64)
    (value : BitVec (8 * width.toNat)) :
    (write width value ⟨buffer, offset⟩).2.buffer.length = buffer.length := by
  rcases Nat.lt_or_ge buffer.length (offset.toNat + width.toNat) with hshort | hfits
  · rw [write_of_short hshort]
  · rw [write_of_fits hcounts hfits]
    exact BigEndian.length_overwrite (by rwa [BigEndian.length_encode])

/-- Writes at places that do not meet leave the same buffer in either order, also where one of them
is refused. -/
theorem buffer_write_comm (hcounts : buffer.length < 2 ^ 64) (value : BitVec (8 * width.toNat))
    (value' : BitVec (8 * width'.toNat))
    (hapart : offset.toNat + width.toNat ≤ offset'.toNat ∨
      offset'.toNat + width'.toNat ≤ offset.toNat) :
    (write width' value' ⟨(write width value ⟨buffer, offset⟩).2.buffer, offset'⟩).2.buffer =
      (write width value ⟨(write width' value' ⟨buffer, offset'⟩).2.buffer, offset⟩).2.buffer := by
  have hlength := length_write hcounts offset value
  have hlength' := length_write hcounts offset' value'
  rcases Nat.lt_or_ge buffer.length (offset.toNat + width.toNat) with hshort | hfits
  · have hagain : (write width' value' ⟨buffer, offset'⟩).2.buffer.length <
        offset.toNat + width.toNat := by rwa [hlength']
    rw [write_of_short hshort value, write_of_short hagain value]
  rcases Nat.lt_or_ge buffer.length (offset'.toNat + width'.toNat) with hshort' | hfits'
  · have hagain : (write width value ⟨buffer, offset⟩).2.buffer.length <
        offset'.toNat + width'.toNat := by rwa [hlength]
    rw [write_of_short hshort' value', write_of_short hagain value']
  -- Both are done, whichever comes first.
  have hsecond : offset'.toNat + width'.toNat ≤
      (write width value ⟨buffer, offset⟩).2.buffer.length := by rwa [hlength]
  have hsecond' : offset.toNat + width.toNat ≤
      (write width' value' ⟨buffer, offset'⟩).2.buffer.length := by rwa [hlength']
  rw [write_of_fits (by rwa [hlength]) hsecond, write_of_fits (by rwa [hlength']) hsecond',
    write_of_fits hcounts hfits, write_of_fits hcounts hfits']
  exact BigEndian.overwrite_comm (by rwa [BigEndian.length_encode])
    (by rwa [BigEndian.length_encode]) (by simpa only [BigEndian.length_encode] using hapart)

/-- The laws of reading and writing at a place, for any place, any numbers of bytes and any buffer
that words can count. -/
theorem reads_match_writes (hcounts : buffer.length < 2 ^ 64) (offset width : UInt64)
    (value : BitVec (8 * width.toNat)) :
    let head : Head := ⟨buffer, offset⟩
    let fits := offset.toNat + width.toNat ≤ buffer.length
    ((head.write width value).1 = .ok () ↔ fits) ∧
    ((∃ found, (head.read width).1 = .ok found) ↔ fits) ∧
    (¬ fits → head.write width value = (.error .outOfBounds, head) ∧
      head.read width = (.error .outOfBounds, head)) ∧
    (∀ next, head.write width value = (.ok (), next) →
      next.offset.toNat = offset.toNat + width.toNat ∧
      BigEndian.AgreeOutside offset.toNat width.toNat buffer next.buffer ∧
      read width ⟨next.buffer, offset⟩ = (.ok value, next)) ∧
    (∀ found next, head.read width = (.ok found, next) →
      next.offset.toNat = offset.toNat + width.toNat ∧ next.buffer = buffer ∧
      head.write width found = (.ok (), next)) ∧
    (∀ (offset' width' : UInt64) (value' : BitVec (8 * width'.toNat)),
      (offset.toNat + width.toNat ≤ offset'.toNat ∨
        offset'.toNat + width'.toNat ≤ offset.toNat) →
      let first := head.write width value
      let second := write width' value' ⟨buffer, offset'⟩
      let secondThen := write width' value' ⟨first.2.buffer, offset'⟩
      let firstThen := write width value ⟨second.2.buffer, offset⟩
      secondThen.2.buffer = firstThen.2.buffer ∧
      (secondThen.1 = second.1 ∧ secondThen.2.offset = second.2.offset) ∧
      firstThen.1 = first.1 ∧ firstThen.2.offset = first.2.offset) ∧
    BigEndian.readAt buffer width.toNat offset.toNat =
      ((head.read width).1.map fun found => (found.toNat, (head.read width).2.offset.toNat)) ∧
    BigEndian.writeAt buffer width.toNat offset.toNat value.toNat =
      (head.write width value).1.map fun _ =>
        ((head.write width value).2.buffer, (head.write width value).2.offset.toNat) := by
  intro head fits
  refine ⟨write_eq_ok_iff hcounts value, exists_read_eq_ok_iff hcounts, fun hshort => ?_,
    fun next hwrite => ?_, fun found next hread => ?_, fun offset' width' value' hapart => ?_,
    readAt_eq_read hcounts offset width, writeAt_eq_write hcounts offset value⟩
  · exact ⟨write_of_short (Nat.lt_of_not_le hshort) value,
      read_of_short (Nat.lt_of_not_le hshort)⟩
  · obtain ⟨-, hstop, hagree, -⟩ := write_eq_ok hcounts hwrite
    exact ⟨hstop, hagree, read_of_write hcounts hwrite⟩
  · obtain ⟨-, hstop, hbuffer, -⟩ := read_eq_ok hcounts hread
    exact ⟨hstop, hbuffer, write_of_read hcounts hread⟩
  · exact ⟨buffer_write_comm hcounts value value' hapart,
      write_congr hcounts (length_write hcounts offset value) offset' value',
      write_congr hcounts (length_write hcounts offset' value') offset value⟩

/-- A number is written at the end of six bytes and read again, and one of another width is written
before it or after it; an offset at which the sum wraps around is refused. -/
theorem reads_match_writes_at_end :
    ([1, 2, 3, 4, 5, 6] : Bytes).length < 2 ^ 64 ∧
      read 4 ⟨[1, 2, 0xCA, 0xFE, 0xBA, 0xBE], 2⟩ =
        (.ok 0xCAFEBABE, ⟨[1, 2, 0xCA, 0xFE, 0xBA, 0xBE], 6⟩) ∧
      (write 2 7 ⟨(write 4 0xCAFEBABE ⟨[1, 2, 3, 4, 5, 6], 2⟩).2.buffer, 0⟩).2.buffer =
        (write 4 0xCAFEBABE ⟨(write 2 7 ⟨[1, 2, 3, 4, 5, 6], 0⟩).2.buffer, 2⟩).2.buffer ∧
      read 2 ⟨[1, 2, 3, 4, 5, 6], 18446744073709551615⟩ =
        (.error .outOfBounds, ⟨[1, 2, 3, 4, 5, 6], 18446744073709551615⟩) := by
  have hcounts : ([1, 2, 3, 4, 5, 6] : Bytes).length < 2 ^ 64 := by decide
  obtain ⟨-, -, -, hwritten, -, hcomm, -⟩ := reads_match_writes hcounts 2 4 0xCAFEBABE
  obtain ⟨-, -, hrefused, -⟩ := reads_match_writes hcounts 18446744073709551615 2 0
  exact ⟨hcounts, (hwritten ⟨[1, 2, 0xCA, 0xFE, 0xBA, 0xBE], 6⟩ rfl).2.2,
    (hcomm 0 2 7 (.inr (by decide))).1, (hrefused (by decide)).2⟩

end Understudy.Head
