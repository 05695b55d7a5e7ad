import Mathlib.Tactic.SplitIfs
import Understudy.Proofs.Text.LossyUtf8

/-!
Reading bytes that may be no text. What cannot be read leaves a replacement in the text, so a text
without one was read from the bytes that it is written in, and from no others. Main statement:
`encode_decodeLossy`.
-/

namespace Understudy.Utf8

variable {begun : Begun} {b low high : UInt8} {p q : Bytes} {n v value : Nat} {state : Reading}

/-! ### Characters that are begun -/

/-- A number is that of a character, which is written in these bytes. -/
def Writes (v : Nat) (bytes : Bytes) : Prop :=
  v.isValidChar ∧ String.utf8EncodeChar (Char.ofNat v) = bytes

theorem val_ofNat (h : v.isValidChar) : (Char.ofNat v).val.toNat = v := by
  rw [Char.ofNat, dif_pos h]
  rfl

theorem writes_two (hawaits : Begun.Awaits ⟨1, low, high, value⟩ n v)
    (hb : b.toNat = value + 0xC0) (hmin : 2 ≤ value) (hmax : value ≤ 31) :
    Writes v (b :: continuation (n + 1) v) := by
  obtain rfl : 0 = n := Nat.succ.inj hawaits.missing
  have hvalue : value = v / 64 := hawaits.value
  have hchar : v.isValidChar := .inl (by omega)
  have hlead : v / 64 % 32 + 0xC0 = b.toNat := by omega
  refine ⟨hchar, ?_⟩
  simp only [String.utf8EncodeChar, val_ofNat hchar]
  rw [if_neg (by omega), if_pos (by omega), hlead, UInt8.ofNat_toNat]
  simp only [continuation, Nat.pow_zero, Nat.div_one]

/-- The second of three bytes keeps out what can be written in two, and the surrogates. -/
theorem writes_three (hawaits : Begun.Awaits ⟨2, low, high, value⟩ n v)
    (hb : b.toNat = value + 0xE0) (hmax : value ≤ 15) (hoverlong : value = 0 → 0xA0 ≤ low.toNat)
    (hsurrogate : value = 13 → high.toNat ≤ 0x9F) : Writes v (b :: continuation (n + 1) v) := by
  obtain rfl : 1 = n := Nat.succ.inj hawaits.missing
  have hvalue : value = v / 4096 := hawaits.value
  have hlow : low.toNat ≤ v / 64 % 64 + 0x80 := hawaits.low
  have hhigh : v / 64 % 64 + 0x80 ≤ high.toNat := hawaits.high
  have hmin : 0x800 ≤ v := by
    by_cases hzero : value = 0
    · have hbound := hoverlong hzero
      omega
    · omega
  have hvalid : v < 0xD800 ∨ 0xDFFF < v := by
    by_cases hthirteen : value = 13
    · have hbound := hsurrogate hthirteen
      omega
    · omega
  have hchar : v.isValidChar := hvalid.imp_right fun h => ⟨h, by omega⟩
  have hlead : v / 4096 % 16 + 0xE0 = b.toNat := by omega
  refine ⟨hchar, ?_⟩
  simp only [String.utf8EncodeChar, val_ofNat hchar]
  rw [if_neg (by omega), if_neg (by omega), if_pos (by omega), hlead, UInt8.ofNat_toNat]
  simp only [continuation, Nat.pow_zero, Nat.pow_one, Nat.div_one]

/-- The second of four bytes keeps out what can be written in three, and what is no character. -/
theorem writes_four (hawaits : Begun.Awaits ⟨3, low, high, value⟩ n v)
    (hb : b.toNat = value + 0xF0) (hmax : value ≤ 4) (hoverlong : value = 0 → 0x90 ≤ low.toNat)
    (hlast : value = 4 → high.toNat ≤ 0x8F) : Writes v (b :: continuation (n + 1) v) := by
  obtain rfl : 2 = n := Nat.succ.inj hawaits.missing
  have hvalue : value = v / 262144 := hawaits.value
  have hlow : low.toNat ≤ v / 4096 % 64 + 0x80 := hawaits.low
  have hhigh : v / 4096 % 64 + 0x80 ≤ high.toNat := hawaits.high
  have hmin : 0x10000 ≤ v := by
    by_cases hzero : value = 0
    · have hbound := hoverlong hzero
      omega
    · omega
  have hend : v < 0x110000 := by
    by_cases hfour : value = 4
    · have hbound := hlast hfour
      omega
    · omega
  have hchar : v.isValidChar := .inr ⟨by omega, hend⟩
  have hlead : v / 262144 % 8 + 0xF0 = b.toNat := by omega
  refine ⟨hchar, ?_⟩
  simp only [String.utf8EncodeChar, val_ofNat hchar]
  rw [if_neg (by omega), if_neg (by omega), if_neg (by omega), hlead, UInt8.ofNat_toNat]
  simp only [continuation, Nat.pow_zero, Nat.pow_one, Nat.div_one]
  rfl

/-- What a first byte begins is a character that begins with this byte. -/
theorem writes_of_opening (h : opening? b = some begun) (hawaits : begun.Awaits n v) :
    Writes v (b :: continuation (n + 1) v) := by
  rw [← UInt8.ofNat_toNat (x := b), opening?_ofNat b.toNat_lt] at h
  split_ifs at h <;> obtain rfl := Option.some.inj h
  -- one case for each range of first bytes, in the order of the table
  · exact writes_two hawaits (by omega) (by omega) (by omega)
  · exact writes_three hawaits (by omega) (by omega) (fun _ => Nat.le_refl _) nofun
  · exact writes_three hawaits (by omega) (by omega) nofun (fun _ => Nat.le_refl _)
  · exact writes_three hawaits (by omega) (by omega) (fun _ => by omega) (fun _ => by omega)
  · exact writes_four hawaits (by omega) (by omega) (fun _ => Nat.le_refl _) nofun
  · exact writes_four hawaits (by omega) (by omega) (fun _ => by omega) (fun _ => by omega)
  · exact writes_four hawaits (by omega) (by omega) nofun (fun _ => Nat.le_refl _)

/-- At least one byte is missing of what is begun, and it is to be one that continues a
character. -/
theorem range_of_opening (h : opening? b = some begun) :
    begun.missing ≠ 0 ∧ 0x80 ≤ begun.low.toNat ∧ begun.high.toNat ≤ 0xBF := by
  rw [opening?] at h
  split_ifs at h <;> obtain rfl := Option.some.inj h <;>
    exact ⟨Nat.succ_ne_zero _, Nat.le_of_ble_eq_true rfl, Nat.le_of_ble_eq_true rfl⟩

/-! ### What has been read -/

/-- The bytes begin every character that the character begun may turn out to be. -/
structure Begun.Follows (begun : Begun) (q : Bytes) : Prop where
  missing : begun.missing ≠ 0
  low : 0x80 ≤ begun.low.toNat
  high : begun.high.toNat ≤ 0xBF
  writes : ∀ n v, begun.Awaits n v → Writes v (q ++ continuation (n + 1) v)

/-- If there is no replacement among the characters read, they were read from what they are written
in, and the bytes read since then begin a character. -/
def Reading.Faithful (state : Reading) (p : Bytes) : Prop :=
  replacement ∉ state.read → ∃ q, p = state.read.reverse.flatMap String.utf8EncodeChar ++ q ∧
    match state.begun with
    | none => q = []
    | some begun => begun.Follows q

theorem follows_of_opening (h : opening? b = some begun) : begun.Follows [b] := by
  obtain ⟨hmissing, hlow, hhigh⟩ := range_of_opening h
  exact ⟨hmissing, hlow, hhigh, fun _ _ => writes_of_opening h⟩

/-- A byte in the range is the next one of a character that may still come. -/
theorem Begun.Follows.awaits (h : begun.Follows q) (hlow : begun.low ≤ b) (hhigh : b ≤ begun.high)
    (hmissing : begun.missing = n + 1)
    (hvalue : v / 64 ^ n = begun.value * 64 + (b.toNat - 0x80)) :
    begun.Awaits n v ∧ UInt8.ofNat (v / 64 ^ n % 64 + 0x80) = b := by
  have hbyte := h.low
  have hbyte' := h.high
  rw [UInt8.le_iff_toNat_le] at hlow hhigh
  have hlast : v / 64 ^ n % 64 + 0x80 = b.toNat := by omega
  refine ⟨⟨hmissing, ?_, by omega, by omega⟩, by rw [hlast, UInt8.ofNat_toNat]⟩
  rw [Nat.pow_succ, ← Nat.div_div_eq_div_mul, hvalue]
  omega

/-- A character that is complete is written in the bytes that it was read from. -/
theorem Begun.Follows.complete (h : begun.Follows q) (hlow : begun.low ≤ b)
    (hhigh : b ≤ begun.high) (hmissing : begun.missing = 1) :
    String.utf8EncodeChar (Char.ofNat (begun.value * 64 + (b.toNat - 0x80))) = q ++ [b] := by
  obtain ⟨hawaits, hb⟩ := h.awaits (n := 0) hlow hhigh hmissing (Nat.div_one _)
  rw [(h.writes _ _ hawaits).2, continuation, hb, continuation]

/-- A character that is not complete goes on. -/
theorem Begun.Follows.next (h : begun.Follows q) (hlow : begun.low ≤ b) (hhigh : b ≤ begun.high)
    (hmissing : begun.missing ≠ 1) :
    Begun.Follows ⟨begun.missing - 1, 0x80, 0xBF, begun.value * 64 + (b.toNat - 0x80)⟩
      (q ++ [b]) := by
  have hmore := h.missing
  refine ⟨by dsimp only; omega, Nat.le_refl _, Nat.le_refl _, fun n v hawaits => ?_⟩
  have hleft : begun.missing - 1 = n + 1 := hawaits.missing
  obtain ⟨hearlier, hb⟩ := h.awaits hlow hhigh (by omega) hawaits.value.symm
  rw [← hb, List.append_assoc]
  exact h.writes _ _ hearlier

theorem Reading.mem_fresh {c : Char} {read : List Char} (h : c ∈ read) (b : UInt8) :
    c ∈ (fresh read b).read := by
  rw [fresh]
  split
  · exact List.mem_cons_of_mem _ h
  · split
    · exact h
    · exact List.mem_cons_of_mem _ h

theorem Reading.faithful_fresh {read : List Char}
    (h : replacement ∉ read → p = read.reverse.flatMap String.utf8EncodeChar) (b : UInt8) :
    (fresh read b).Faithful (p ++ [b]) := by
  rw [fresh]
  split
  · next hsmall =>
    intro hnone
    rw [List.mem_cons, not_or] at hnone
    have hb : b.toNat < 0x80 := UInt8.lt_iff_toNat_lt.mp hsmall
    have hchar : b.toNat.isValidChar := .inl (by omega)
    refine ⟨[], ?_, rfl⟩
    rw [h hnone.2, List.reverse_cons, List.flatMap_append, List.flatMap_singleton,
      List.append_nil]
    simp only [String.utf8EncodeChar, val_ofNat hchar]
    rw [if_pos (by omega), UInt8.ofNat_toNat]
  · split
    · next begun hopening => exact fun hnone => ⟨[b], by rw [h hnone], follows_of_opening hopening⟩
    · exact fun hnone => absurd List.mem_cons_self hnone

/-- By cases on what the byte is met in: the bytes before it are those of the characters read, or
begin one more that it continues, or leave a replacement. -/
theorem Reading.Faithful.step (h : state.Faithful p) (b : UInt8) :
    (state.step b).Faithful (p ++ [b]) := by
  obtain ⟨read, _ | begun⟩ := state
  · refine faithful_fresh (fun hnone => ?_) b
    obtain ⟨q, rfl, rfl⟩ := h hnone
    exact List.append_nil _
  · rw [Reading.step]
    dsimp only
    split
    · next hrange =>
      split
      · next hmissing =>
        intro hnone
        rw [List.mem_cons, not_or] at hnone
        obtain ⟨q, rfl, hfollows⟩ := h hnone.2
        refine ⟨[], ?_, rfl⟩
        rw [List.reverse_cons, List.flatMap_append, List.flatMap_singleton, List.append_nil,
          hfollows.complete hrange.1 hrange.2 hmissing, List.append_assoc]
      · next hmissing =>
        intro hnone
        obtain ⟨q, rfl, hfollows⟩ := h hnone
        exact ⟨q ++ [b], List.append_assoc _ _ _, hfollows.next hrange.1 hrange.2 hmissing⟩
    · exact fun hnone => absurd (mem_fresh List.mem_cons_self b) hnone

/-- By induction on the bytes that are still to be read. -/
theorem Reading.Faithful.foldl (h : state.Faithful p) (more : Bytes) :
    (more.foldl Reading.step state).Faithful (p ++ more) := by
  induction more generalizing state p with
  | nil => rwa [List.append_nil]
  | cons b rest ih =>
    rw [List.foldl_cons, List.append_cons]
    exact ih (h.step b)

/-- Bytes that are read without a replacement are those that the text is written in. -/
theorem encode_decodeLossy (h : replacement ∉ (decodeLossy p).toList) :
    encode (decodeLossy p) = p := by
  have hstart : Reading.Faithful ⟨[], none⟩ [] := fun _ => ⟨[], rfl, rfl⟩
  have hread := hstart.foldl p
  rw [decodeLossy, String.toList_ofList] at h
  rw [encode, decodeLossy, String.toList_ofList]
  rw [List.nil_append] at hread
  rcases hstate : p.foldl Reading.step ⟨[], none⟩ with ⟨read, _ | begun⟩
  · rw [hstate] at h hread
    rw [Reading.finish] at h ⊢
    obtain ⟨q, hp, rfl⟩ := hread (mt List.mem_reverse.mpr h)
    rw [hp, List.append_nil]
  · -- a character that is not complete leaves a replacement
    rw [hstate, Reading.finish] at h
    exact absurd (List.mem_reverse.mpr List.mem_cons_self) h

end Understudy.Utf8
