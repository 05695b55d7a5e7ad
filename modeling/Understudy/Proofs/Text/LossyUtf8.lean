import Mathlib.Algebra.Group.Nat.Defs
import Understudy.Text.LossyUtf8

/-!
Reading text that was written. A text is read as it was written, and a text that is cut at some byte
is read as its characters up to the cut, with one replacement for a character that the cut goes
through. Main statements: `decodeLossy_encode` and `decodeLossy_take_encode`.
-/

namespace Understudy.Utf8

/-! ### The bytes of one character -/

/-- The bytes that follow a leading byte and write the lowest `6 * n` bits of a number. -/
def continuation : Nat → Nat → Bytes
  | 0, _ => []
  | n + 1, v => UInt8.ofNat (v / 64 ^ n % 64 + 0x80) :: continuation n v

/-- The character begun is the one of number `v`, of which `n + 1` bytes are missing. -/
structure Begun.Awaits (begun : Begun) (n v : Nat) : Prop where
  missing : begun.missing = n + 1
  value : begun.value = v / 64 ^ (n + 1)
  low : begun.low.toNat ≤ v / 64 ^ n % 64 + 0x80
  high : v / 64 ^ n % 64 + 0x80 ≤ begun.high.toNat

/-- A leading byte begins the character of number `v`, of which `n + 1` bytes are then missing. -/
def Opens (lead n v : Nat) : Prop :=
  0x80 ≤ lead ∧ lead < 256 ∧ ∃ begun, opening? (UInt8.ofNat lead) = some begun ∧ begun.Awaits n v

/-- What a leading byte announces, by its number. -/
theorem opening?_ofNat {n : Nat} (h : n < 256) : opening? (UInt8.ofNat n) =
    if 0xC2 ≤ n ∧ n ≤ 0xDF then some ⟨1, 0x80, 0xBF, n - 0xC0⟩
    else if n = 0xE0 then some ⟨2, 0xA0, 0xBF, 0⟩
    else if n = 0xED then some ⟨2, 0x80, 0x9F, 0xD⟩
    else if 0xE1 ≤ n ∧ n ≤ 0xEF then some ⟨2, 0x80, 0xBF, n - 0xE0⟩
    else if n = 0xF0 then some ⟨3, 0x90, 0xBF, 0⟩
    else if 0xF1 ≤ n ∧ n ≤ 0xF3 then some ⟨3, 0x80, 0xBF, n - 0xF0⟩
    else if n = 0xF4 then some ⟨3, 0x80, 0x8F, 4⟩
    else none := by
  have hn : (UInt8.ofNat n).toNat = n := UInt8.toNat_ofNat_of_lt h
  simp only [opening?, UInt8.le_iff_toNat_le, ← UInt8.toNat_inj, hn]
  rfl

theorem opens_two {v : Nat} (hlow : 0x80 ≤ v) (hhigh : v ≤ 0x7FF) :
    Opens (v / 64 % 32 + 0xC0) 0 v := by
  have hlead : v / 64 % 32 + 0xC0 < 256 := by omega
  refine ⟨by omega, hlead, ⟨1, 0x80, 0xBF, v / 64⟩, ?_, rfl, rfl, ?_, ?_⟩
  · rw [opening?_ofNat hlead, if_pos (by omega), Nat.add_sub_cancel, Nat.mod_eq_of_lt (by omega)]
  · show 0x80 ≤ _
    omega
  · show _ ≤ 0xBF
    omega

/-- The first of three bytes narrows the range of the second where a smaller second one would be
overlong, and where a larger one would lead to a surrogate. -/
theorem opens_three {v : Nat} (hlow : 0x800 ≤ v) (hhigh : v ≤ 0xFFFF)
    (hvalid : v < 0xD800 ∨ 0xDFFF < v) : Opens (v / 4096 % 16 + 0xE0) 1 v := by
  have hlead : v / 4096 % 16 + 0xE0 < 256 := by omega
  refine ⟨by omega, hlead, ?_⟩
  rw [opening?_ofNat hlead, if_neg (by omega)]
  by_cases hoverlong : v / 4096 = 0
  · rw [if_pos (by omega)]
    refine ⟨_, rfl, rfl, hoverlong.symm, ?_, ?_⟩
    · show 0xA0 ≤ _
      omega
    · show _ ≤ 0xBF
      omega
  · rw [if_neg (by omega)]
    by_cases hsurrogate : v / 4096 = 13
    · rw [if_pos (by omega)]
      refine ⟨_, rfl, rfl, hsurrogate.symm, ?_, ?_⟩
      · show 0x80 ≤ _
        omega
      · show _ ≤ 0x9F
        omega
    · rw [if_neg (by omega), if_pos (by omega)]
      refine ⟨_, rfl, rfl, ?_, ?_, ?_⟩
      · show v / 4096 % 16 + 0xE0 - 0xE0 = v / 4096
        omega
      · show 0x80 ≤ _
        omega
      · show _ ≤ 0xBF
        omega

/-- The first of four bytes narrows the range of the second where a smaller second one would be
overlong, and where a larger one would lead beyond the last character. -/
theorem opens_four {v : Nat} (hlow : 0x10000 ≤ v) (hhigh : v < 0x110000) :
    Opens (v / 262144 % 8 + 0xF0) 2 v := by
  have hlead : v / 262144 % 8 + 0xF0 < 256 := by omega
  refine ⟨by omega, hlead, ?_⟩
  rw [opening?_ofNat hlead, if_neg (by omega), if_neg (by omega), if_neg (by omega),
    if_neg (by omega)]
  by_cases hoverlong : v / 262144 = 0
  · rw [if_pos (by omega)]
    refine ⟨_, rfl, rfl, hoverlong.symm, ?_, ?_⟩
    · show 0x90 ≤ _
      omega
    · show _ ≤ 0xBF
      omega
  · rw [if_neg (by omega)]
    by_cases hlast : v / 262144 = 4
    · rw [if_neg (by omega), if_pos (by omega)]
      refine ⟨_, rfl, rfl, hlast.symm, ?_, ?_⟩
      · show 0x80 ≤ _
        omega
      · show _ ≤ 0x8F
        omega
    · rw [if_pos (by omega)]
      refine ⟨_, rfl, rfl, ?_, ?_, ?_⟩
      · show v / 262144 % 8 + 0xF0 - 0xF0 = v / 262144
        omega
      · show 0x80 ≤ _
        omega
      · show _ ≤ 0xBF
        omega

/-- A character of more than one byte is written as a byte that begins it and the bytes that are
missing then. -/
theorem exists_opens (c : Char) (h : 0x7F < c.val.toNat) : ∃ lead n, Opens lead n c.val.toNat ∧
    String.utf8EncodeChar c = UInt8.ofNat lead :: continuation (n + 1) c.val.toNat := by
  have hvalid : c.val.toNat < 0xD800 ∨ 0xDFFF < c.val.toNat ∧ c.val.toNat < 0x110000 := c.valid
  simp only [String.utf8EncodeChar]
  rw [if_neg (by omega)]
  by_cases htwo : c.val.toNat ≤ 0x7FF
  · rw [if_pos htwo]
    exact ⟨_, 0, opens_two h htwo, by simp [continuation]⟩
  · rw [if_neg htwo]
    by_cases hthree : c.val.toNat ≤ 0xFFFF
    · rw [if_pos hthree]
      exact ⟨_, 1, opens_three (by omega) hthree (by omega), by simp [continuation]⟩
    · rw [if_neg hthree]
      exact ⟨_, 2, opens_four (by omega) (by omega), by simp [continuation]⟩

/-! ### Reading one character -/

/-- The next byte of the character begun completes it or leaves the next one to be awaited. -/
theorem step_of_awaits {begun : Begun} {n v : Nat} (h : begun.Awaits n v) (read : List Char) :
    Reading.step ⟨read, some begun⟩ (UInt8.ofNat (v / 64 ^ n % 64 + 0x80)) =
      if n = 0 then ⟨Char.ofNat v :: read, none⟩
      else ⟨read, some ⟨n, 0x80, 0xBF, v / 64 ^ n⟩⟩ := by
  have hbyte : (UInt8.ofNat (v / 64 ^ n % 64 + 0x80)).toNat = v / 64 ^ n % 64 + 0x80 :=
    UInt8.toNat_ofNat_of_lt (show _ < 256 by omega)
  have hvalue : v / 64 ^ (n + 1) * 64 + v / 64 ^ n % 64 = v / 64 ^ n := by
    rw [Nat.pow_succ, ← Nat.div_div_eq_div_mul]
    omega
  have hrange : begun.low ≤ UInt8.ofNat (v / 64 ^ n % 64 + 0x80) ∧
      UInt8.ofNat (v / 64 ^ n % 64 + 0x80) ≤ begun.high := by
    simp only [UInt8.le_iff_toNat_le, hbyte]
    exact ⟨h.low, h.high⟩
  simp only [Reading.step]
  rw [if_pos hrange, hbyte, Nat.add_sub_cancel, h.value, hvalue, h.missing]
  cases n with
  | zero => simp
  | succ n => simp

theorem awaits_next (n v : Nat) : Begun.Awaits ⟨n + 1, 0x80, 0xBF, v / 64 ^ (n + 1)⟩ n v := by
  refine ⟨rfl, rfl, ?_, ?_⟩
  · show 0x80 ≤ _
    omega
  · show _ ≤ 0xBF
    omega

/-- By induction on the bytes that are missing. -/
theorem foldl_continuation {begun : Begun} {n v : Nat} (h : begun.Awaits n v) (read : List Char) :
    (continuation (n + 1) v).foldl Reading.step ⟨read, some begun⟩ =
      ⟨Char.ofNat v :: read, none⟩ := by
  induction n generalizing begun with
  | zero => rw [continuation, List.foldl_cons, step_of_awaits h, if_pos rfl, continuation,
      List.foldl_nil]
  | succ n ih =>
    rw [continuation, List.foldl_cons, step_of_awaits h, if_neg (Nat.succ_ne_zero n)]
    exact ih (awaits_next n v)

theorem length_continuation (n v : Nat) : (continuation n v).length = n := by
  induction n with
  | zero => rfl
  | succ n ih => rw [continuation, List.length_cons, ih]

/-- As long as a byte is missing, the character stays begun. -/
theorem exists_foldl_take_continuation {begun : Begun} {n v k : Nat} (h : begun.Awaits n v)
    (hk : k ≤ n) (read : List Char) : ∃ later,
      ((continuation (n + 1) v).take k).foldl Reading.step ⟨read, some begun⟩ =
        ⟨read, some later⟩ := by
  induction n generalizing begun k with
  | zero =>
    obtain rfl := Nat.le_zero.mp hk
    exact ⟨begun, rfl⟩
  | succ n ih =>
    cases k with
    | zero => exact ⟨begun, rfl⟩
    | succ k =>
      rw [continuation, List.take_succ_cons, List.foldl_cons, step_of_awaits h,
        if_neg (Nat.succ_ne_zero n)]
      exact ih (awaits_next n v) (Nat.le_of_succ_le_succ hk)

theorem step_of_opens {lead n v : Nat} (h : Opens lead n v) (read : List Char) :
    ∃ begun : Begun, begun.Awaits n v ∧
      Reading.step ⟨read, none⟩ (UInt8.ofNat lead) = ⟨read, some begun⟩ := by
  obtain ⟨hlow, hhigh, begun, hopening, hawaits⟩ := h
  have hbyte : (UInt8.ofNat lead).toNat = lead := UInt8.toNat_ofNat_of_lt hhigh
  have hnot : ¬ UInt8.ofNat lead < 0x80 := by
    rw [UInt8.lt_iff_toNat_lt, hbyte]
    exact Nat.not_lt.mpr hlow
  refine ⟨begun, hawaits, ?_⟩
  simp only [Reading.step, Reading.fresh, if_neg hnot, hopening]

/-- The bytes of a character are read as that character. -/
theorem foldl_utf8EncodeChar (c : Char) (read : List Char) :
    (String.utf8EncodeChar c).foldl Reading.step ⟨read, none⟩ = ⟨c :: read, none⟩ := by
  have hofNat : Char.ofNat c.val.toNat = c := Char.ofNat_toNat c
  by_cases h : c.val.toNat ≤ 0x7F
  · have hbyte : (UInt8.ofNat c.val.toNat).toNat = c.val.toNat :=
      UInt8.toNat_ofNat_of_lt (show _ < 256 by omega)
    have hlow : UInt8.ofNat c.val.toNat < 0x80 := by
      rw [UInt8.lt_iff_toNat_lt, hbyte]
      exact Nat.lt_succ_of_le h
    simp only [String.utf8EncodeChar, if_pos h, List.foldl_cons, List.foldl_nil, Reading.step,
      Reading.fresh, if_pos hlow, hbyte, hofNat]
  · obtain ⟨lead, n, hopens, hbytes⟩ := exists_opens c (Nat.lt_of_not_le h)
    obtain ⟨begun, hawaits, hstep⟩ := step_of_opens hopens read
    rw [hbytes, List.foldl_cons, hstep, foldl_continuation hawaits, hofNat]

/-- Some of the bytes of a character begin it, but not all, unless there are none of them. -/
theorem exists_foldl_take_utf8EncodeChar {c : Char} {k : Nat} (hpos : 0 < k)
    (hk : k < (String.utf8EncodeChar c).length) (read : List Char) : ∃ begun,
      ((String.utf8EncodeChar c).take k).foldl Reading.step ⟨read, none⟩ =
        ⟨read, some begun⟩ := by
  by_cases h : c.val.toNat ≤ 0x7F
  · have hlength : (String.utf8EncodeChar c).length = 1 := by
      simp only [String.utf8EncodeChar, if_pos h, List.length_cons, List.length_nil]
    omega
  · obtain ⟨lead, n, hopens, hbytes⟩ := exists_opens c (Nat.lt_of_not_le h)
    obtain ⟨begun, hawaits, hstep⟩ := step_of_opens hopens read
    rw [hbytes, List.length_cons, length_continuation] at hk
    cases k with
    | zero => omega
    | succ k =>
      rw [hbytes, List.take_succ_cons, List.foldl_cons, hstep]
      exact exists_foldl_take_continuation hawaits (by omega) read

/-! ### Fronts of a text -/

/-- The number of bytes that a text is written in. -/
def size (s : List Char) : Nat := (s.flatMap String.utf8EncodeChar).length

@[simp]
theorem size_nil : size [] = 0 := rfl

@[simp]
theorem size_cons (c : Char) (s : List Char) : size (c :: s) = c.utf8Size + size s := by
  rw [size, List.flatMap_cons, List.length_append, String.length_utf8EncodeChar, size]

theorem length_encode (text : String) : (encode text).length = size text.toList := rfl

theorem size_append (s t : List Char) : size (s ++ t) = size s + size t := by
  rw [size, List.flatMap_append, List.length_append, size, size]

theorem size_replicate (n : Nat) {c : Char} (h : c.utf8Size = 1) :
    size (List.replicate n c) = n := by
  induction n with
  | zero => rfl
  | succ n ih => rw [List.replicate_succ, size_cons, ih, h, Nat.add_comm]

/-- The characters of a text up to the first one that does not fit in `room` bytes. -/
def front : Nat → List Char → List Char
  | _, [] => []
  | room, c :: s => if c.utf8Size ≤ room then c :: front (room - c.utf8Size) s else []

/-- The longest of the fronts of a text that fit in `room` bytes. -/
structure IsLongestFront (room : Nat) (s kept : List Char) : Prop where
  begins : kept <+: s
  fits : size kept ≤ room
  longest : ∀ other, other <+: s → size other ≤ room → other <+: kept

theorem isLongestFront_front (room : Nat) (s : List Char) :
    IsLongestFront room s (front room s) := by
  induction s generalizing room with
  | nil => exact ⟨List.nil_prefix, Nat.zero_le _, fun other hother _ => hother⟩
  | cons c s ih =>
    rw [front]
    split
    · next hfits =>
      obtain ⟨hbegins, hsize, hlongest⟩ := ih (room - c.utf8Size)
      refine ⟨List.prefix_cons_inj c |>.mpr hbegins, by rw [size_cons]; omega, ?_⟩
      rintro (_ | ⟨d, other⟩) hother hroom
      · exact List.nil_prefix
      · obtain ⟨rfl, htail⟩ := List.cons_prefix_cons.mp hother
        rw [size_cons] at hroom
        exact List.prefix_cons_inj d |>.mpr (hlongest other htail (by omega))
    · next hfits =>
      refine ⟨List.nil_prefix, Nat.zero_le _, ?_⟩
      rintro (_ | ⟨d, other⟩) hother hroom
      · exact List.nil_prefix
      · obtain ⟨rfl, -⟩ := List.cons_prefix_cons.mp hother
        rw [size_cons] at hroom
        omega

/-- There is no other front as long. -/
theorem IsLongestFront.eq_front {room : Nat} {s kept : List Char} (h : IsLongestFront room s kept) :
    kept = front room s := by
  have hfront := isLongestFront_front room s
  have hkept : kept <+: front room s := hfront.longest kept h.begins h.fits
  exact hkept.eq_of_length_le (h.longest _ hfront.begins hfront.fits).length_le

/-- A text that fits as a whole is kept as a whole. -/
theorem front_of_size_le {room : Nat} {s : List Char} (h : size s ≤ room) : front room s = s :=
  (IsLongestFront.eq_front ⟨List.prefix_rfl, h, fun _ hother _ => hother⟩).symm

theorem front_append {room : Nat} {s : List Char} (h : size s ≤ room) (t : List Char) :
    front room (s ++ t) = s ++ front (room - size s) t := by
  induction s generalizing room with
  | nil => rfl
  | cons c s ih =>
    rw [size_cons] at h
    rw [List.cons_append, front, if_pos (by omega), ih (by omega), size_cons, Nat.sub_sub,
      List.cons_append]

theorem front_map {f : Char → Char} (hf : ∀ c, (f c).utf8Size = c.utf8Size) (room : Nat)
    (s : List Char) : front room (s.map f) = (front room s).map f := by
  induction s generalizing room with
  | nil => rfl
  | cons c s ih =>
    rw [List.map_cons, front, front, hf, ih]
    split <;> rfl

theorem size_map {f : Char → Char} (hf : ∀ c, (f c).utf8Size = c.utf8Size) (s : List Char) :
    size (s.map f) = size s := by
  induction s with
  | nil => rfl
  | cons c s ih => rw [List.map_cons, size_cons, size_cons, hf, ih]

/-- What a text is read as when the first `room` bytes of it are left. -/
def cutAt (room : Nat) (s : List Char) : List Char :=
  front room s ++ if size (front room s) < min room (size s) then [replacement] else []

/-- Where a text is written in other characters of the same sizes, it is cut alike. -/
theorem cutAt_map {f : Char → Char} (hf : ∀ c, (f c).utf8Size = c.utf8Size)
    (hreplacement : f replacement = replacement) (room : Nat) (s : List Char) :
    (cutAt room s).map f = cutAt room (s.map f) := by
  rw [cutAt, cutAt, front_map hf, size_map hf, size_map hf, List.map_append]
  split
  · rw [List.map_singleton, hreplacement]
  · rfl

theorem cutAt_of_size_le {room : Nat} {s : List Char} (h : size s ≤ room) : cutAt room s = s := by
  rw [cutAt, front_of_size_le h, Nat.min_eq_right h, if_neg (Nat.lt_irrefl _), List.append_nil]

theorem cutAt_cons_of_le {room : Nat} {c : Char} (h : c.utf8Size ≤ room) (s : List Char) :
    cutAt room (c :: s) = c :: cutAt (room - c.utf8Size) s := by
  have hmore : size (c :: front (room - c.utf8Size) s) < min room (size (c :: s)) ↔
      size (front (room - c.utf8Size) s) < min (room - c.utf8Size) (size s) := by
    simp only [size_cons]
    omega
  simp only [cutAt, front, if_pos h, hmore, List.cons_append]

/-- By induction on the text; the cut goes through the first character that does not fit. -/
theorem finish_foldl_take (s : List Char) (room : Nat) (read : List Char) :
    (((s.flatMap String.utf8EncodeChar).take room).foldl Reading.step ⟨read, none⟩).finish =
      read.reverse ++ cutAt room s := by
  induction s generalizing room read with
  | nil => simp [cutAt, front, Reading.finish]
  | cons c s ih =>
    have hlength := String.length_utf8EncodeChar c
    rw [List.flatMap_cons, List.take_append, List.foldl_append, hlength]
    by_cases hfits : c.utf8Size ≤ room
    · rw [List.take_of_length_le (by omega), foldl_utf8EncodeChar, ih, cutAt_cons_of_le hfits,
        List.reverse_cons, List.append_assoc, List.singleton_append]
    · rw [show room - c.utf8Size = 0 by omega, List.take_zero, List.foldl_nil]
      cases room with
      | zero => simp [cutAt, front, hfits, Reading.finish]
      | succ room =>
        obtain ⟨begun, hbegun⟩ := exists_foldl_take_utf8EncodeChar (c := c) (Nat.succ_pos room)
          (by omega) read
        have hcut : size [] < min (room + 1) (size (c :: s)) := by
          rw [size_nil, size_cons]
          omega
        rw [hbegun, cutAt, front, if_neg hfits, if_pos hcut, List.nil_append]
        exact List.reverse_cons

/-- A text that is cut behind `room` bytes is read as the characters that fit, and a replacement if
the cut goes through a character. -/
theorem decodeLossy_take_encode (text : String) (room : Nat) :
    decodeLossy ((encode text).take room) = String.ofList (cutAt room text.toList) := by
  rw [decodeLossy, encode, finish_foldl_take, List.reverse_nil, List.nil_append]

/-- A text is read as it was written. -/
theorem decodeLossy_encode (text : String) : decodeLossy (encode text) = text := by
  have hwhole : (encode text).take (size text.toList) = encode text :=
    List.take_of_length_le (Nat.le_refl _)
  rw [← hwhole, decodeLossy_take_encode, cutAt_of_size_le (Nat.le_refl _), String.ofList_toList]

end Understudy.Utf8
