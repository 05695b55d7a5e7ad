import Understudy.Bytes.Request
import Understudy.Proofs.Bytes.Head

/-!
What comes of the requests that are made of a reader, in any order and whatever came of those
before. A request is met just where the bytes that it needs lie ahead, and is answered from these
bytes alone. One that is not met leaves the reader where it stood, but for a text of which only the
length lies ahead: there the reader has moved behind the length. Where places are counted in words,
all of this comes to the same. Main statement: `requests_met`.
-/

namespace Understudy

namespace Cursor.Request

/-- How many bytes a request needs. For a text this is told by the first two bytes ahead. -/
def need (ahead : Bytes) : Request → Nat
  | number width => width.toNat
  | text => 2 + BigEndian.decode (ahead.take 2)
  | bytes count => count.toNat
  | skip count => count.toNat

/-- The answer to a request that is met, from the bytes that it has taken. -/
def reply (used : Bytes) : Request → Reply
  | number _ => .number (BigEndian.decode used)
  | text => .text (Utf8.decodeLossy (used.drop 2))
  | bytes _ => .bytes used
  | skip _ => .done

/-- How far a reader moves on a request that is not met: over the length of a text. -/
def lost (ahead : Bytes) : Request → Nat
  | text => if 2 ≤ ahead.length then 2 else 0
  | _ => 0

theorem lost_eq_zero {request : Request} {ahead : Bytes}
    (h : ¬ (request = text ∧ 2 ≤ ahead.length)) : request.lost ahead = 0 := by
  cases request with
  | text => exact if_neg fun hlength => h ⟨rfl, hlength⟩
  | number width => rfl
  | bytes count => rfl
  | skip count => rfl

theorem lost_le (request : Request) (ahead : Bytes) : request.lost ahead ≤ ahead.length := by
  cases request with
  | text =>
    rw [lost]
    split
    · assumption
    · exact Nat.zero_le _
  | number width => exact Nat.zero_le _
  | bytes count => exact Nat.zero_le _
  | skip count => exact Nat.zero_le _

end Cursor.Request

namespace Cursor

/-- The reader moved on by some bytes. -/
def advance (n : Nat) (c : Cursor) : Cursor := ⟨c.position + n, c.rest.drop n⟩

variable {buffer : Bytes} {c : Cursor} {request : Request}

theorem take_of_le {n : Nat} (h : n ≤ c.rest.length) :
    c.take n = (.ok (c.rest.take n), c.advance n) := by
  rw [take_eq, if_pos h, advance]

theorem take_of_lt {n : Nat} (h : c.rest.length < n) : c.take n = (.error .outOfBounds, c) := by
  rw [take_eq, if_neg (Nat.not_le.mpr h)]

/-- A text that is all there: the bytes behind its length. -/
theorem counted_of_le (h : Request.need c.rest .text ≤ c.rest.length) :
    c.counted = (.ok ((c.rest.take (Request.need c.rest .text)).drop 2),
      c.advance (Request.need c.rest .text)) := by
  rw [Request.need] at h ⊢
  have hahead : BigEndian.decode (c.rest.take 2) ≤ (c.advance 2).rest.length := by
    rw [advance, List.length_drop]
    omega
  rw [counted, number, take_of_le (by omega)]
  dsimp only
  rw [take_of_le hahead, List.drop_take, Nat.add_sub_cancel_left, advance, advance,
    List.drop_drop, Nat.add_assoc]
  rfl

/-- A text that is not all there: what is lost is its length, if that is there. -/
theorem counted_of_lt (h : c.rest.length < Request.need c.rest .text) :
    c.counted = (.error .outOfBounds, c.advance (Request.lost c.rest .text)) := by
  rw [Request.need] at h
  rw [counted, number, Request.lost]
  by_cases hlength : 2 ≤ c.rest.length
  · have hlacks : (c.advance 2).rest.length < BigEndian.decode (c.rest.take 2) := by
      rw [advance, List.length_drop]
      omega
    rw [take_of_le hlength, if_pos hlength]
    exact take_of_lt hlacks
  · rw [take_of_lt (Nat.lt_of_not_le hlength), if_neg hlength]
    rfl

/-- A request that is met. -/
theorem perform_of_le (h : request.need c.rest ≤ c.rest.length) :
    c.perform request = (.ok (request.reply (c.rest.take (request.need c.rest))),
      c.advance (request.need c.rest)) := by
  cases request with
  | number width =>
    have htake : c.take width.toNat = _ := take_of_le h
    rw [perform, number, htake]
    rfl
  | text =>
    rw [perform, counted_of_le h]
    rfl
  | bytes count =>
    have htake : c.take count.toNat = _ := take_of_le h
    rw [perform, htake]
    rfl
  | skip count =>
    have htake : c.take count.toNat = _ := take_of_le h
    rw [perform, skip, htake]
    rfl

/-- A request that is not met. -/
theorem perform_of_lt (h : c.rest.length < request.need c.rest) :
    c.perform request = (.error .outOfBounds, c.advance (request.lost c.rest)) := by
  cases request with
  | number width =>
    have htake : c.take width.toNat = _ := take_of_lt h
    rw [perform, number, htake]
    rfl
  | text =>
    rw [perform, counted_of_lt h]
    rfl
  | bytes count =>
    have htake : c.take count.toNat = _ := take_of_lt h
    rw [perform, htake]
    rfl
  | skip count =>
    have htake : c.take count.toNat = _ := take_of_lt h
    rw [perform, skip, htake]
    rfl

/-! ### Any number of requests -/

/-- The reader stands in the buffer, and what follows there lies ahead. -/
structure Within (c : Cursor) (buffer : Bytes) : Prop where
  position_le : c.position ≤ buffer.length
  ahead : c.rest = buffer.drop c.position

theorem within_start (buffer : Bytes) : (start buffer).Within buffer :=
  ⟨Nat.zero_le _, rfl⟩

theorem Within.length_rest (h : c.Within buffer) :
    c.position + c.rest.length = buffer.length := by
  have hposition := h.position_le
  rw [h.ahead, List.length_drop]
  omega

theorem Within.advance {n : Nat} (h : c.Within buffer) (hn : n ≤ c.rest.length) :
    (c.advance n).Within buffer := by
  have hlength := h.length_rest
  refine ⟨?_, ?_⟩
  · rw [Cursor.advance]
    dsimp only
    omega
  · rw [Cursor.advance, h.ahead, List.drop_drop]

/-- Whatever comes of a request, the reader stays in the buffer. -/
theorem Within.perform (h : c.Within buffer) (request : Request) :
    (c.perform request).2.Within buffer := by
  rcases Nat.lt_or_ge c.rest.length (request.need c.rest) with hlacks | hneed
  · rw [perform_of_lt hlacks]
    exact h.advance (request.lost_le c.rest)
  · rw [perform_of_le hneed]
    exact h.advance hneed

/-- By induction on the requests. -/
theorem Within.after (h : c.Within buffer) (requests : List Request) :
    (c.after requests).Within buffer := by
  induction requests generalizing c with
  | nil => exact h
  | cons request requests ih => exact ih (h.perform request)

/-- A request is met just where the bytes that it needs lie ahead. -/
theorem Within.exists_perform_eq_ok_iff (h : c.Within buffer) (request : Request) :
    (∃ reply, (c.perform request).1 = .ok reply) ↔
      c.position + request.need (buffer.drop c.position) ≤ buffer.length := by
  have hlength := h.length_rest
  rw [← h.ahead]
  rcases Nat.lt_or_ge c.rest.length (request.need c.rest) with hlacks | hneed
  · rw [perform_of_lt hlacks]
    exact iff_of_false nofun (by omega)
  · rw [perform_of_le hneed]
    exact iff_of_true ⟨_, rfl⟩ (by omega)

/-- The bytes that a request takes, and what it answers. -/
theorem Within.perform_eq_ok (h : c.Within buffer) {reply : Reply}
    (hmet : (c.perform request).1 = .ok reply) :
    let need := request.need (buffer.drop c.position)
    (c.perform request).2.position = c.position + need ∧
      reply = request.reply ((buffer.drop c.position).take need) := by
  rw [← h.ahead]
  rcases Nat.lt_or_ge c.rest.length (request.need c.rest) with hlacks | hneed
  · rw [perform_of_lt hlacks] at hmet
    cases hmet
  · rw [perform_of_le hneed] at hmet ⊢
    exact ⟨rfl, (Except.ok.inj hmet).symm⟩

/-- What becomes of a reader whose request is not met. -/
theorem Within.perform_eq_error (h : c.Within buffer) {e : Error}
    (hunmet : (c.perform request).1 = .error e) :
    e = .outOfBounds ∧
      (c.perform request).2 = c.advance (request.lost (buffer.drop c.position)) := by
  rw [← h.ahead]
  rcases Nat.lt_or_ge c.rest.length (request.need c.rest) with hlacks | hneed
  · rw [perform_of_lt hlacks] at hunmet ⊢
    exact ⟨(Except.error.inj hunmet).symm, rfl⟩
  · rw [perform_of_le hneed] at hunmet
    cases hunmet

end Cursor

namespace Head

variable {h : Head}

/-- The cursor at a place that is counted in words. -/
def cursor (h : Head) : Cursor := ⟨h.offset.toNat, h.buffer.drop h.offset.toNat⟩

/-- Taking bytes is the same at a place and at its cursor. -/
theorem take_cursor (hcounts : h.buffer.length < 2 ^ 64) (hin : h.offset.toNat ≤ h.buffer.length)
    (count : UInt64) : h.cursor.take count.toNat = (h.take count).map id cursor := by
  obtain ⟨buffer, offset⟩ := h
  have hrest : (cursor ⟨buffer, offset⟩).rest.length = buffer.length - offset.toNat :=
    List.length_drop
  dsimp only at hin
  rcases Nat.lt_or_ge buffer.length (offset.toNat + count.toNat) with hshort | hfits
  · rw [take_of_short hshort, Cursor.take_of_lt (by rw [hrest]; omega)]
    rfl
  · have hstop : cursor ⟨buffer, offset + count⟩ =
        (cursor ⟨buffer, offset⟩).advance count.toNat := by
      rw [cursor, cursor, Cursor.advance, toNat_stop hcounts hfits, List.drop_drop]
    rw [take_of_fits hcounts hfits, Cursor.take_of_le (by rw [hrest]; omega), ← hstop]
    rfl

theorem read_cursor (hcounts : h.buffer.length < 2 ^ 64) (hin : h.offset.toNat ≤ h.buffer.length)
    (width : UInt64) :
    h.cursor.number width.toNat = (h.read width).map (·.map (·.toNat)) cursor := by
  rw [Cursor.number, take_cursor hcounts hin]
  obtain ⟨buffer, offset⟩ := h
  rcases Nat.lt_or_ge buffer.length (offset.toNat + width.toNat) with hshort | hfits
  · rw [read_of_short hshort, take_of_short hshort]
    rfl
  · rw [read_of_fits hcounts hfits, take_of_fits hcounts hfits]
    have hslice := BigEndian.toNat_ofNat_decode (BigEndian.length_slice hfits)
    exact congrArg (fun value => (Except.ok value, cursor ⟨buffer, offset + width⟩)) hslice.symm

theorem counted_cursor (hcounts : h.buffer.length < 2 ^ 64)
    (hin : h.offset.toNat ≤ h.buffer.length) : h.cursor.counted = h.counted.map id cursor := by
  have hlength : h.cursor.number 2 = (h.read 2).map (·.map (·.toNat)) cursor :=
    read_cursor hcounts hin 2
  rw [Cursor.counted, hlength, counted]
  rcases hread : h.read 2 with ⟨e | length, next⟩
  · rfl
  · obtain ⟨hfits, hstop, hbuffer, -⟩ := read_eq_ok hcounts hread
    have hword : (UInt64.ofBitVec (length.setWidth 64)).toNat = length.toNat := by
      have hlt : length.toNat < 2 ^ 64 := Nat.lt_of_lt_of_le length.isLt (by decide)
      exact (BitVec.toNat_setWidth 64 length).trans (Nat.mod_eq_of_lt hlt)
    have htake := take_cursor (hbuffer ▸ hcounts) (by rw [hstop, hbuffer]; exact hfits)
      (.ofBitVec (length.setWidth 64))
    rw [hword] at htake
    exact htake

theorem skip_cursor (hcounts : h.buffer.length < 2 ^ 64) (hin : h.offset.toNat ≤ h.buffer.length)
    (count : UInt64) : h.cursor.skip count.toNat = (h.skip count).map id cursor := by
  rw [Cursor.skip, take_cursor hcounts hin, take, skip]
  cases h.stop? count <;> rfl

/-- A request comes to the same at a place and at its cursor. -/
theorem perform_cursor (hcounts : h.buffer.length < 2 ^ 64)
    (hin : h.offset.toNat ≤ h.buffer.length) (request : Cursor.Request) :
    h.cursor.perform request = (h.perform request).map id cursor := by
  cases request with
  | number width =>
    rw [Cursor.perform, perform, read_cursor hcounts hin]
    rcases h.read width with ⟨_ | _, _⟩ <;> rfl
  | text =>
    rw [Cursor.perform, perform, counted_cursor hcounts hin]
    rfl
  | bytes count =>
    rw [Cursor.perform, perform, take_cursor hcounts hin]
    rfl
  | skip count =>
    rw [Cursor.perform, perform, skip_cursor hcounts hin]
    rfl

theorem buffer_take (count : UInt64) (h : Head) : (h.take count).2.buffer = h.buffer := by
  rw [take]
  split <;> rfl

theorem buffer_read (width : UInt64) (h : Head) : (h.read width).2.buffer = h.buffer := by
  have htake := buffer_take width h
  rw [read]
  split
  · next heq => rwa [heq] at htake
  · next heq => rwa [heq] at htake

theorem buffer_counted (h : Head) : h.counted.2.buffer = h.buffer := by
  have hread := buffer_read 2 h
  rw [counted]
  split
  · next next heq =>
    rw [buffer_take]
    rwa [heq] at hread
  · next heq => rwa [heq] at hread

theorem buffer_skip (count : UInt64) (h : Head) : (h.skip count).2.buffer = h.buffer := by
  rw [skip]
  split <;> rfl

/-- No request changes the buffer. -/
theorem buffer_perform (h : Head) (request : Cursor.Request) :
    (h.perform request).2.buffer = h.buffer := by
  cases request with
  | number width => exact buffer_read width h
  | text => exact buffer_counted h
  | bytes count => exact buffer_take count h
  | skip count => exact buffer_skip count h

/-- By induction on the requests: the cursor stays in the buffer, so the place does. -/
theorem cursor_after (hcounts : h.buffer.length < 2 ^ 64) (hin : h.cursor.Within h.buffer)
    (requests : List Cursor.Request) :
    (h.after requests).cursor = h.cursor.after requests ∧
      (h.after requests).buffer = h.buffer := by
  induction requests generalizing h with
  | nil => exact ⟨rfl, rfl⟩
  | cons request requests ih =>
    have hbuffer := buffer_perform h request
    have hstep : (h.perform request).2.cursor = (h.cursor.perform request).2 := by
      rw [perform_cursor hcounts hin.position_le]
      rfl
    have hnext := ih (by rwa [hbuffer]) (by rw [hstep, hbuffer]; exact hin.perform request)
    rw [hstep, hbuffer] at hnext
    exact hnext

/-- From the start of a buffer, a request made after others comes to the same. -/
theorem perform_after_start {buffer : Bytes} (hcounts : buffer.length < 2 ^ 64)
    (earlier : List Cursor.Request) (request : Cursor.Request) :
    let h := (start buffer).after earlier
    let c := (Cursor.start buffer).after earlier
    h.cursor = c ∧ c.perform request = (h.perform request).map id cursor := by
  intro h c
  have hin : (start buffer).cursor.Within (start buffer).buffer := Cursor.within_start buffer
  obtain ⟨hcursor, hbuffer⟩ := cursor_after hcounts hin earlier
  have hc : h.cursor = c := hcursor
  have hbound : h.offset.toNat ≤ h.buffer.length := by
    rw [hbuffer]
    exact (hcursor ▸ hin.after earlier).position_le
  have hperform := perform_cursor (hbuffer.symm ▸ hcounts) hbound request
  exact ⟨hc, hc ▸ hperform⟩

end Head

namespace Cursor

/-- What comes of any request, made of a reader after any others. -/
theorem requests_met (buffer : Bytes) (earlier : List Request) (request : Request) :
    let c := (start buffer).after earlier
    let outcome := c.perform request
    let need := request.need (buffer.drop c.position)
    c.position ≤ buffer.length ∧
    ((∃ reply, outcome.1 = .ok reply) ↔ c.position + need ≤ buffer.length) ∧
    (∀ reply, outcome.1 = .ok reply → outcome.2.position = c.position + need ∧
      reply = request.reply ((buffer.drop c.position).take need)) ∧
    (∀ e, outcome.1 = .error e → e = .outOfBounds ∧
      (request = .text ∧ c.position + 2 ≤ buffer.length →
        outcome.2.position = c.position + 2) ∧
      (¬ (request = .text ∧ c.position + 2 ≤ buffer.length) → outcome.2 = c)) ∧
    (buffer.length < 2 ^ 64 →
      let head := (Head.start buffer).after earlier
      head.offset.toNat = c.position ∧ (head.perform request).1 = outcome.1 ∧
        (head.perform request).2.offset.toNat = outcome.2.position) := by
  intro c outcome need
  have hin : c.Within buffer := (within_start buffer).after earlier
  have htwo : 2 ≤ (buffer.drop c.position).length ↔ c.position + 2 ≤ buffer.length := by
    have hposition := hin.position_le
    rw [List.length_drop]
    omega
  refine ⟨hin.position_le, hin.exists_perform_eq_ok_iff request, fun reply => hin.perform_eq_ok,
    fun e hunmet => ?_, fun hcounts => ?_⟩
  · obtain ⟨he, hafter⟩ := hin.perform_eq_error hunmet
    refine ⟨he, fun ⟨htext, hthere⟩ => ?_, fun helse => ?_⟩
    · subst htext
      rw [hafter, Request.lost, if_pos (htwo.mpr hthere)]
      rfl
    · rw [← htwo] at helse
      rw [hafter, Request.lost_eq_zero helse]
      rfl
  · intro head
    obtain ⟨hcursor, hperform⟩ := Head.perform_after_start hcounts earlier request
    refine ⟨congrArg position hcursor, ?_, ?_⟩
    · exact (congrArg Prod.fst hperform).symm
    · exact (congrArg (position ∘ Prod.snd) hperform).symm

/-- Requests made of five bytes. The first text is not all there, and its length is lost; a step
whose end is no word is refused. The three bytes that are left can be read, but not as a text. -/
theorem requests_met_lost :
    let c := (start [0, 5, 97, 98, 99]).after [.text, .skip 18446744073709551615]
    let h := (Head.start [0, 5, 97, 98, 99]).after [.text, .skip 18446744073709551615]
    c.position = 2 ∧ h.offset.toNat = c.position ∧
      (c.perform (.bytes 3)).2.position = 5 ∧ (c.perform .text).2.position = 4 ∧
      (c.perform (.bytes 4)).2 = c := by
  intro c h
  obtain ⟨-, -, hmet, -, hword⟩ := requests_met [0, 5, 97, 98, 99]
    [.text, .skip 18446744073709551615] (.bytes 3)
  obtain ⟨-, -, -, htext, -⟩ := requests_met [0, 5, 97, 98, 99]
    [.text, .skip 18446744073709551615] .text
  obtain ⟨-, -, -, hbytes, -⟩ := requests_met [0, 5, 97, 98, 99]
    [.text, .skip 18446744073709551615] (.bytes 4)
  exact ⟨rfl, (hword (by decide)).1, (hmet (.bytes [97, 98, 99]) rfl).1,
    (htext .outOfBounds rfl).2.1 ⟨rfl, by decide⟩, (hbytes .outOfBounds rfl).2.2 (by decide)⟩

/-- A request that is not met can move the reader. -/
theorem request_unmet_moves :
    ((start [0, 5, 97, 98]).perform .text).1 = .error .outOfBounds ∧
      (start [0, 5, 97, 98]).position = 0 ∧
      ((start [0, 5, 97, 98]).perform .text).2.position = 2 :=
  ⟨rfl, rfl, rfl⟩

end Cursor

end Understudy
