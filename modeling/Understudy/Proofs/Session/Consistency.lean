import Understudy.Proofs.Session.Growth

/-!
What holds of the tables of every session that can come about. A class lies under its own name in
the table of the loader that it says defined it, and nowhere else; its header is what reading its
bytes gives; and no two classes share an identity. Every class that a request was ever answered with
bears the name asked for and lies where it says: the request leaves it there, and the rest of the
run keeps it. Main statement: `run_consistent`.
-/

namespace Understudy

namespace Session

/-- What a loader's table may hold under a name. -/
structure Stored (id : LoaderId) (name : String) (c : DefinedClass) : Prop where
  name_eq : c.file.name = name
  loader_eq : c.loader = id
  parsed : ClassFile.parse c.file.bytes = .ok c.file
  fingerprint : c.fingerprint = Sha1.hexDigest c.file.bytes
  slashless : '/' ∉ name.toList

/-- The tables of all loaders agree with the classes in them. -/
structure Consistent (s : Session) : Prop where
  stored : ∀ id, ∀ item ∈ s.tableOf id, Stored id item.1 item.2
  names : ∀ id, ((s.tableOf id).map Prod.fst).Nodup
  issued : ∀ id, ∀ item ∈ s.tableOf id, item.2.handle.value < s.nextHandle
  handles : ∀ id, ∀ item ∈ s.tableOf id, ∀ other, ∀ twin ∈ s.tableOf other,
    item.2.handle = twin.2.handle → item.2 = twin.2

theorem Consistent.owned {s : Session} (h : Consistent s) : Owned s := by
  intro id name c hc
  have hstored := h.stored id _ (Keyed.mem_of_find?_eq_some hc)
  exact ⟨hstored.name_eq, hstored.loader_eq⟩

/-- Where there is no class at all there is nothing to disagree about. -/
theorem consistent_of_empty {s : Session} (hempty : ∀ id, s.tableOf id = []) : Consistent s := by
  constructor
  · intro id item hitem
    rw [hempty] at hitem
    cases hitem
  · intro id
    rw [hempty]
    exact List.nodup_nil
  · intro id item hitem
    rw [hempty] at hitem
    cases hitem
  · intro id item hitem
    rw [hempty] at hitem
    cases hitem

theorem consistent_start (files : FileTree) : Consistent (start files) := by
  refine consistent_of_empty ?_
  rintro ⟨n⟩
  cases n <;> rfl

/-- What lies in a table after a class was entered lay there before, or is the class. -/
theorem mem_tableOf_enter {s : Session} {c : DefinedClass} (owner : s.keepsClasses c.loader = true)
    {id : LoaderId} {item : String × DefinedClass} (h : item ∈ (s.enter c).tableOf id) :
    (id = c.loader ∧ item = (c.file.name, c)) ∨ item ∈ s.tableOf id := by
  by_cases hid : id = c.loader
  · subst hid
    rw [tableOf_enter_self owner] at h
    rcases Keyed.mem_insert.mp h with rfl | ⟨-, hold⟩
    · exact .inl ⟨rfl, rfl⟩
    · exact .inr hold
  · rw [tableOf_enter_of_ne s hid] at h
    exact .inr h

/-- Entering a class that was read from its bytes, under the next identity, keeps tables and classes
in agreement: every identity given out so far is a smaller one. -/
theorem Consistent.enter {s : Session} (h : Consistent s) {c : DefinedClass}
    (owner : s.keepsClasses c.loader = true) (handle : c.handle = ⟨s.nextHandle⟩)
    (parsed : ClassFile.parse c.file.bytes = .ok c.file) : Consistent (s.enter c) := by
  have hnext : (s.enter c).nextHandle = s.nextHandle + 1 := rfl
  have hnew : ∀ id, ∀ item ∈ s.tableOf id, item.2.handle ≠ c.handle := by
    intro id item hitem heq
    have hlt := h.issued id item hitem
    rw [heq, handle] at hlt
    exact Nat.lt_irrefl _ hlt
  constructor
  · intro id item hitem
    rcases mem_tableOf_enter owner hitem with ⟨rfl, rfl⟩ | hold
    · exact ⟨rfl, rfl, parsed, rfl, ClassFile.slash_notMem_of_parse parsed⟩
    · exact h.stored id item hold
  · intro id
    by_cases hid : id = c.loader
    · subst hid
      rw [tableOf_enter_self owner]
      exact Keyed.nodup_keys_insert _ _ (h.names _)
    · rw [tableOf_enter_of_ne s hid]
      exact h.names id
  · intro id item hitem
    rw [hnext]
    rcases mem_tableOf_enter owner hitem with ⟨-, rfl⟩ | hold
    · rw [handle]
      exact Nat.lt_succ_self _
    · exact Nat.lt_succ_of_lt (h.issued id item hold)
  · intro id item hitem other twin htwin heq
    rcases mem_tableOf_enter owner hitem with ⟨-, rfl⟩ | hold <;>
      rcases mem_tableOf_enter owner htwin with ⟨-, rfl⟩ | htold
    · rfl
    · exact absurd heq.symm (hnew other twin htold)
    · exact absurd heq (hnew id item hold)
    · exact h.handles id item hold other twin htold heq

theorem Consistent.step {s t : Session} (h : Consistent s) (k : TableStep s t) : Consistent t := by
  cases k with
  | stay same =>
    constructor
    · intro id
      rw [same.tables]
      exact h.stored id
    · intro id
      rw [same.tables]
      exact h.names id
    · intro id
      rw [same.tables, same.next]
      exact h.issued id
    · intro id item hitem other twin htwin
      rw [same.tables] at hitem htwin
      exact h.handles id item hitem other twin htwin
  | enter c owner handle parsed _ => exact h.enter owner handle parsed

theorem Consistent.grows {s t : Session} (h : Consistent s) (k : Grows s t) : Consistent t := by
  induction k with
  | refl => exact h
  | tail _ step ih => exact ih.step step

/-- A class once answered lies in its loader's table ever after, under the name asked for. By
induction on the run. -/
theorem find?_of_mem_replies {s : Session} (h : Consistent s) (ops : List Operation) :
    ∀ reply ∈ (run ops s).1, ∀ c, reply.answer = .ok c →
      c.file.name = reply.request.name ∧
        ((run ops s).2.tableOf c.loader).find? reply.request.name = some c := by
  induction ops generalizing s with
  | nil => exact fun _ hmem => nomatch hmem
  | cons op rest ih =>
    cases op with
    | change change => exact ih (h.grows (sameTables_perform change s).grows)
    | request request =>
      have hsound := sound_perform request s
      intro reply hmem c hc
      rcases List.mem_cons.mp hmem with rfl | hlater
      · obtain ⟨hname, hfind⟩ := hsound.kept h.owned c hc
        exact ⟨hname, (grows_run rest _).find?_tableOf hfind⟩
      · exact ih (h.grows hsound.grows) reply hlater c hc

/-- Whatever happened to a session, its tables are consistent, and every answer lies in one of them
under the name asked for. -/
theorem run_consistent (files : FileTree) (ops : List Operation) :
    Consistent (run ops (start files)).2 ∧
      ∀ reply ∈ (run ops (start files)).1, ∀ c, reply.answer = .ok c →
        c.file.name = reply.request.name ∧
        ((run ops (start files)).2.tableOf c.loader).find? reply.request.name = some c ∧
        ∀ id, ∀ item ∈ (run ops (start files)).2.tableOf id, item.2.handle = c.handle →
          id = c.loader ∧ item = (reply.request.name, c) := by
  have hfinal := (consistent_start files).grows (grows_run ops (start files))
  refine ⟨hfinal, fun reply hmem c hc => ?_⟩
  obtain ⟨hname, hfind⟩ := find?_of_mem_replies (consistent_start files) ops reply hmem c hc
  refine ⟨hname, hfind, fun id item hitem hhandle => ?_⟩
  have hclass : item.2 = c :=
    hfinal.handles id item hitem c.loader _ (Keyed.mem_of_find?_eq_some hfind) hhandle
  have hstored := hfinal.stored id item hitem
  refine ⟨?_, Prod.ext ?_ hclass⟩
  · rw [← hstored.loader_eq, hclass]
  · rw [← hstored.name_eq, hclass, hname]

/-- A selective loader that ignores every name asks a host for the class `A`, and the host finds it
on its class path. -/
def deferring : List Operation :=
  [.change (.addEntry (.single "A" (Stub.encode { name := "A" }))),
    .change (.addHost [⟨0⟩]),
    .change (.addSelective { ignore := Patterns.ofStrings ["*"] }),
    .change (.setDeferred ⟨2⟩ ⟨1⟩),
    .request (.load ⟨2⟩ "A")]

/-- The class that the selective loader answers is the host's. -/
theorem run_consistent_deferring :
    ∃ reply ∈ (run deferring (start .empty)).1, ∃ c, reply.answer = .ok c ∧ c.loader = ⟨1⟩ ∧
      c.file.name = "A" ∧ ((run deferring (start .empty)).2.tableOf ⟨1⟩).find? "A" = some c := by
  have hreplies : (run deferring (start .empty)).1.map (fun reply =>
      (reply.request.name, reply.answer.toOption.map (·.loader))) = [("A", some ⟨1⟩)] := by
    decide +kernel
  obtain ⟨reply, hrun, hreply⟩ := List.map_eq_singleton_iff.mp hreplies
  obtain ⟨hname, hanswer⟩ := Prod.mk.inj hreply
  have hmem : reply ∈ (run deferring (start .empty)).1 := by
    rw [hrun]
    exact List.mem_singleton_self reply
  cases hc : reply.answer with
  | error e =>
    rw [hc] at hanswer
    cases hanswer
  | ok c =>
    rw [hc] at hanswer
    have hloader : c.loader = ⟨1⟩ := Option.some.inj hanswer
    obtain ⟨hfile, hfind, -⟩ := (run_consistent .empty deferring).2 reply hmem c hc
    rw [hname, hloader] at hfind
    exact ⟨reply, hmem, c, hc, hloader, hfile.trans hname, hfind⟩

end Session

end Understudy
