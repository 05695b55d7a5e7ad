import Understudy.Bytes.Cursor
import Understudy.Proofs.Bytes.BigEndian

/-!
What a step of a reader depends on. A step that succeeds has taken some bytes and answered by them
alone: behind any other bytes, and ahead of any others, the same bytes yield the same answer. A step
that fails, unless it does so for want of bytes, fails the same whatever bytes follow.
-/

namespace Understudy.Cursor

variable {α β : Type}

/-- A step takes just these bytes where they lie ahead, and answers `a`. -/
def Takes (step : Cursor → Answer α) (used : Bytes) (a : α) : Prop :=
  ∀ position rest, step ⟨position, used ++ rest⟩ = (.ok a, ⟨position + used.length, rest⟩)

/-- Whatever a step answers is told by the bytes that it takes. -/
def Framed (step : Cursor → Answer α) : Prop :=
  ∀ ⦃c next : Cursor⦄ ⦃a : α⦄, step c = (.ok a, next) →
    ∃ used, c.rest = used ++ next.rest ∧ Takes step used a

/-- A step, and another one behind it that may depend on the answer of the first. -/
def andThen (step : Cursor → Answer α) (after : α → Cursor → Answer β) (c : Cursor) : Answer β :=
  match step c with
  | (.ok a, next) => after a next
  | (.error e, c) => (.error e, c)

/-- A step that answers what `f` makes of the answer of another one. -/
def map (f : α → β) (step : Cursor → Answer α) : Cursor → Answer β :=
  andThen step fun a c => (.ok (f a), c)

/-- The position moves by as many bytes as are taken. -/
theorem Framed.exists_takes {step : Cursor → Answer α} {c next : Cursor} {a : α}
    (hframed : Framed step) (h : step c = (.ok a, next)) :
    ∃ used, Takes step used a ∧ c.rest = used ++ next.rest ∧
      next.position = c.position + used.length := by
  obtain ⟨used, hrest, htakes⟩ := hframed h
  have hc : c = ⟨c.position, used ++ next.rest⟩ := by rw [← hrest]
  rw [hc, htakes] at h
  exact ⟨used, htakes, hrest, by rw [← (Prod.mk.inj h).2]⟩

/-! ### Steps behind one another -/

theorem takes_pure (a : α) : Takes (fun c => (.ok a, c)) [] a := by
  intro position rest
  rfl

theorem framed_pure (a : α) : Framed fun c => (.ok a, c) := by
  intro c next b h
  cases h
  exact ⟨[], rfl, takes_pure a⟩

theorem framed_error (e : Error) : Framed (α := α) fun c => (.error e, c) := by
  intro c next a h
  cases h

theorem Takes.andThen {step : Cursor → Answer α} {after : α → Cursor → Answer β}
    {front back : Bytes} {a : α} {b : β} (hstep : Takes step front a)
    (hafter : Takes (after a) back b) : Takes (andThen step after) (front ++ back) b := by
  intro position rest
  rw [Cursor.andThen, List.append_assoc, hstep]
  show after a _ = _
  rw [hafter, List.length_append, Nat.add_assoc]

theorem Framed.andThen {step : Cursor → Answer α} {after : α → Cursor → Answer β}
    (hstep : Framed step) (hafter : ∀ a, Framed (after a)) : Framed (andThen step after) := by
  intro c next b h
  rw [Cursor.andThen] at h
  split at h
  · next a middle ha =>
    obtain ⟨front, hfront, hfrontTakes⟩ := hstep ha
    obtain ⟨back, hback, hbackTakes⟩ := hafter a h
    refine ⟨front ++ back, ?_, hfrontTakes.andThen hbackTakes⟩
    rw [hfront, hback, List.append_assoc]
  · cases h

theorem Takes.map {step : Cursor → Answer α} {used : Bytes} {a : α} (f : α → β)
    (h : Takes step used a) : Takes (map f step) used (f a) := by
  intro position rest
  rw [Cursor.map, Cursor.andThen, h]

theorem Framed.map {step : Cursor → Answer α} (f : α → β) (h : Framed step) :
    Framed (map f step) :=
  h.andThen fun a => framed_pure (f a)

/-- The bytes ahead leave no choice of what a step takes and answers. -/
theorem Takes.unique {step : Cursor → Answer α} {used other rest otherRest : Bytes} {a b : α}
    (h : Takes step used a) (hother : Takes step other b)
    (heq : used ++ rest = other ++ otherRest) : used = other ∧ a = b ∧ rest = otherRest := by
  have hstart := h 0 rest
  rw [heq, hother 0 otherRest] at hstart
  obtain ⟨hanswer, hnext⟩ := Prod.mk.inj hstart
  obtain rfl := (Cursor.mk.inj hnext).2
  exact ⟨List.append_cancel_right heq, (Except.ok.inj hanswer).symm, rfl⟩

theorem takes_pure_iff {a b : α} {used : Bytes} :
    Takes (fun c => (.ok a, c)) used b ↔ used = [] ∧ a = b := by
  constructor
  · intro h
    obtain ⟨hused, hanswer, -⟩ := h.unique (takes_pure a) (List.append_nil used)
    exact ⟨hused, hanswer.symm⟩
  · rintro ⟨rfl, rfl⟩
    exact takes_pure a

theorem not_takes_error {e : Error} {used : Bytes} {a : α} :
    ¬ Takes (fun c => (.error e, c)) used a := by
  intro h
  have hstart := h 0 []
  cases hstart

/-- What two steps take is what the first takes and what the second takes behind it. -/
theorem Framed.takes_andThen_iff {step : Cursor → Answer α} {after : α → Cursor → Answer β}
    (hstep : Framed step) (hafter : ∀ a, Framed (after a)) {used : Bytes} {b : β} :
    Takes (Cursor.andThen step after) used b ↔
      ∃ front back a, used = front ++ back ∧ Takes step front a ∧ Takes (after a) back b := by
  constructor
  · intro h
    have hstart := h 0 []
    rw [Cursor.andThen] at hstart
    split at hstart
    · next a middle ha =>
      obtain ⟨front, hfront, hfrontTakes⟩ := hstep ha
      obtain ⟨back, hback, hbackTakes⟩ := hafter a hstart
      refine ⟨front, back, a, ?_, hfrontTakes, hbackTakes⟩
      simpa [hback] using hfront
    · cases hstart
  · rintro ⟨front, back, a, rfl, hfront, hback⟩
    exact hfront.andThen hback

theorem Framed.takes_map_iff {step : Cursor → Answer α} {f : α → β} (hstep : Framed step)
    {used : Bytes} {b : β} :
    Takes (Cursor.map f step) used b ↔ ∃ a, Takes step used a ∧ f a = b := by
  rw [Cursor.map, hstep.takes_andThen_iff fun a => framed_pure (f a)]
  constructor
  · rintro ⟨front, back, a, rfl, hfront, hback⟩
    obtain ⟨rfl, rfl⟩ := takes_pure_iff.mp hback
    exact ⟨a, by rwa [List.append_nil], rfl⟩
  · rintro ⟨a, hused, rfl⟩
    exact ⟨used, [], a, (List.append_nil used).symm, hused, takes_pure (f a)⟩

/-! ### The steps of a reader -/

theorem takes_take (used : Bytes) : Takes (take used.length) used used := by
  intro position rest
  rw [take_eq, if_pos (by simp)]
  simp

theorem framed_take (n : Nat) : Framed (take n) := by
  intro c next used h
  rw [take_eq] at h
  split at h
  · next hn =>
    cases h
    refine ⟨c.rest.take n, (List.take_append_drop n c.rest).symm, ?_⟩
    have htakes := takes_take (c.rest.take n)
    rwa [List.length_take, Nat.min_eq_left hn] at htakes
  · cases h

theorem skip_eq (n : Nat) : skip n = map (fun _ => ()) (take n) := by
  funext c
  rw [skip, Cursor.map, Cursor.andThen]
  rcases take n c with ⟨_ | _, _⟩ <;> rfl

theorem number_eq (width : Nat) : number width = map BigEndian.decode (take width) := by
  funext c
  rw [number, Cursor.map, Cursor.andThen]
  rcases take width c with ⟨_ | _, _⟩ <;> rfl

theorem counted_eq : counted = andThen (number 2) take := by
  funext c
  rw [counted, Cursor.andThen]
  rcases number 2 c with ⟨_ | _, _⟩ <;> rfl

theorem framed_skip (n : Nat) : Framed (skip n) := by
  rw [skip_eq]
  exact (framed_take n).map _

theorem framed_number (width : Nat) : Framed (number width) := by
  rw [number_eq]
  exact (framed_take width).map _

theorem framed_counted : Framed counted := by
  rw [counted_eq]
  exact (framed_number 2).andThen framed_take

/-- A number is taken from as many bytes as it is wide, and is what they write. -/
theorem takes_number_iff {width n : Nat} {used : Bytes} :
    Takes (number width) used n ↔ used.length = width ∧ BigEndian.decode used = n := by
  constructor
  · intro h
    have hstart := h 0 []
    rw [number, take_eq, List.append_nil] at hstart
    by_cases hwidth : width ≤ used.length
    · simp only [hwidth, if_true, Nat.zero_add, Prod.mk.injEq, Except.ok.injEq,
        Cursor.mk.injEq] at hstart
      obtain ⟨hvalue, hlength, _⟩ := hstart
      rw [List.take_of_length_le (by omega)] at hvalue
      exact ⟨hlength.symm, hvalue⟩
    · simp [hwidth] at hstart
  · rintro ⟨rfl, rfl⟩
    rw [number_eq]
    exact (takes_take used).map BigEndian.decode

/-- A number that was read is what the bytes in front of the rest write. -/
theorem number_eq_ok {width n : Nat} {c next : Cursor} (h : c.number width = (.ok n, next)) :
    ∃ used, used.length = width ∧ BigEndian.decode used = n ∧ c.rest = used ++ next.rest ∧
      next.position = c.position + width := by
  obtain ⟨used, htakes, hrest, hposition⟩ := (framed_number width).exists_takes h
  obtain ⟨hlength, hvalue⟩ := takes_number_iff.mp htakes
  rw [hlength] at hposition
  exact ⟨used, hlength, hvalue, hrest, hposition⟩

theorem takes_encode {width n : Nat} (h : n < 256 ^ width) :
    Takes (number width) (BigEndian.encode width n) n :=
  takes_number_iff.mpr ⟨BigEndian.length_encode width n, BigEndian.decode_encode h⟩

/-- Two bytes that were read as a number are the encoding of one of sixteen bits. -/
theorem number_two_eq_ok {n : Nat} {c next : Cursor} (h : c.number 2 = (.ok n, next)) :
    ∃ word : UInt16, n = word.toNat ∧ c.rest = BigEndian.encode 2 word.toNat ++ next.rest ∧
      next.position = c.position + 2 := by
  obtain ⟨used, hlength, hvalue, hrest, hposition⟩ := number_eq_ok h
  have hword := BigEndian.toNat_toUInt16_decode hlength
  refine ⟨(BigEndian.decode used).toUInt16, ?_, ?_, hposition⟩
  · rw [hword, hvalue]
  · rw [hword, BigEndian.encode_decode hlength, hrest]

theorem takes_take_iff {n : Nat} {used taken : Bytes} :
    Takes (take n) used taken ↔ used.length = n ∧ taken = used := by
  constructor
  · intro h
    -- whatever is taken is read as a number as well, which tells its length
    have hnumber : Takes (number n) used (BigEndian.decode taken) := by
      rw [number_eq]
      exact h.map BigEndian.decode
    obtain ⟨rfl, -⟩ := takes_number_iff.mp hnumber
    exact ⟨rfl, (h.unique (takes_take used) (rfl : used ++ [] = used ++ [])).2.1⟩
  · rintro ⟨rfl, rfl⟩
    exact takes_take taken

theorem takes_skip_iff {n : Nat} {used : Bytes} {a : Unit} :
    Takes (skip n) used a ↔ used.length = n := by
  rw [skip_eq, (framed_take n).takes_map_iff]
  constructor
  · rintro ⟨taken, htaken, -⟩
    exact (takes_take_iff.mp htaken).1
  · intro h
    exact ⟨used, takes_take_iff.mpr ⟨h, rfl⟩, rfl⟩

/-- A counted run of bytes is its length in two bytes and then the bytes. -/
theorem takes_counted_iff {used taken : Bytes} :
    Takes counted used taken ↔
      taken.length < UInt16.size ∧ used = BigEndian.encode 2 taken.length ++ taken := by
  rw [counted_eq, (framed_number 2).takes_andThen_iff framed_take]
  constructor
  · rintro ⟨front, back, n, rfl, hfront, hback⟩
    obtain ⟨rfl, rfl⟩ := takes_take_iff.mp hback
    obtain ⟨hlength, hvalue⟩ := takes_number_iff.mp hfront
    rw [← hvalue]
    exact ⟨BigEndian.decode_lt hlength, by rw [BigEndian.encode_decode hlength]⟩
  · rintro ⟨hlength, rfl⟩
    exact ⟨_, taken, taken.length, rfl, takes_encode hlength, takes_take taken⟩

/-! ### More bytes behind -/

/-- The same reading position with more bytes behind those that lie ahead. -/
def extend (more : Bytes) (c : Cursor) : Cursor := ⟨c.position, c.rest ++ more⟩

/-- A step that does not lack bytes goes the same way when more of them follow, whether it succeeds
or fails. -/
def Steady (step : Cursor → Answer α) : Prop :=
  ∀ (c : Cursor) (more : Bytes), (step c).1 = .error .outOfBounds ∨
    step (c.extend more) = ((step c).1, (step c).2.extend more)

theorem steady_pure (a : α) : Steady fun c => (.ok a, c) := fun _ _ => .inr rfl

theorem steady_error (e : Error) : Steady (α := α) fun c => (.error e, c) := fun _ _ => .inr rfl

theorem Steady.andThen {step : Cursor → Answer α} {after : α → Cursor → Answer β}
    (hstep : Steady step) (hafter : ∀ a, Steady (after a)) : Steady (andThen step after) := by
  intro c more
  have hfirst := hstep c more
  simp only [Cursor.andThen]
  rcases hc : step c with ⟨e | a, next⟩
  · rw [hc] at hfirst
    rcases hfirst with hlacks | hsame
    · obtain rfl := Except.error.inj hlacks
      exact .inl rfl
    · exact .inr (by rw [hsame])
  · rw [hc] at hfirst
    rcases hfirst with hlacks | hsame
    · cases hlacks
    · rw [hsame]
      exact hafter a next more

theorem Steady.map {step : Cursor → Answer α} (f : α → β) (h : Steady step) :
    Steady (map f step) :=
  h.andThen fun a => steady_pure (f a)

theorem steady_take (n : Nat) : Steady (take n) := by
  intro c more
  simp only [take_eq, extend, List.length_append]
  by_cases h : n ≤ c.rest.length
  · refine .inr ?_
    rw [if_pos h, if_pos (by omega), List.take_append_of_le_length h,
      List.drop_append_of_le_length h]
  · exact .inl (by rw [if_neg h])

theorem steady_skip (n : Nat) : Steady (skip n) := by
  rw [skip_eq]
  exact (steady_take n).map _

theorem steady_number (width : Nat) : Steady (number width) := by
  rw [number_eq]
  exact (steady_take width).map _

theorem steady_counted : Steady counted := by
  rw [counted_eq]
  exact (steady_number 2).andThen steady_take

end Understudy.Cursor
