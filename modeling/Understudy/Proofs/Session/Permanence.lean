import Understudy.Proofs.Session.Growth

/-!
Definition is permanent. Once a loader has a class in its table, the class stays there whatever
happens to the session, and loading it is looking it up. Nothing else is consulted, no policy,
chain, interceptor, class path or file and no other loader, and nothing but a count changes. Main
statement: `definition_permanent`.
-/

namespace Understudy

namespace Session

/-- Two sessions that differ at most in one count: if the loader is a selective one, it has counted
one more answer from its table. -/
structure CountsHit (id : LoaderId) (s t : Session) : Prop where
  files : t.files = s.files
  holdings : t.holdings = s.holdings
  nextHandle : t.nextHandle = s.nextHandle
  visits : t.visits = s.visits
  others : ∀ other, other ≠ id → t.loader? other = s.loader? other
  host : ∀ host, s.loader? id = some (.host host) → t.loader? id = some (.host host)
  selective : ∀ loader, s.loader? id = some (.selective loader) →
    t.loader? id = some (.selective
      { loader with stats := { loader.stats with cacheHits := loader.stats.cacheHits + 1 } })

theorem countsHit_count (id : LoaderId) (s : Session) : CountsHit id s (s.count id .cacheHit) where
  files := rfl
  holdings := rfl
  nextHandle := rfl
  visits := rfl
  others other h := loader?_updateLoader_of_ne s _ h
  host host h := by rw [count, loader?_updateLoader_self, h]; rfl
  selective loader h := by rw [count, loader?_updateLoader_self, h]; rfl

/-- Counting for a loader that keeps no counts does nothing. -/
theorem count_of_host {s : Session} {id : LoaderId} {host : HostLoader} (event : LoadEvent)
    (h : s.loader? id = some (.host host)) : s.count id event = s := by
  have hloaders : s.loaders.modify id.value (·.mapSelective fun m =>
      { m with stats := m.stats.count event }) = s.loaders := by
    refine List.ext_getElem? fun i => ?_
    by_cases hi : id.value = i
    · subst hi
      rw [List.getElem?_modify_eq]
      rw [loader?] at h
      rw [h]
      rfl
    · rw [List.getElem?_modify_ne _ _ hi]
  rw [count, updateLoader, hloaders]

/-- A loader answers for a class in its table out of the table, however others would answer. -/
theorem loadAsking_of_find? {s : Session} {id : LoaderId} {name : String} {c : DefinedClass}
    (h : (s.tableOf id).find? name = some c) (ask : Asking) :
    loadAsking ask id name s = (.ok c, s.count id .cacheHit) := by
  rw [loadAsking]
  cases hid : s.loader? id with
  | none =>
    rw [tableOf, hid] at h
    cases h
  | some loader =>
    rw [tableOf, hid] at h
    cases loader with
    | host host =>
      have htable : host.table.find? name = some c := h
      simp only [loadFromHost, htable, count_of_host .cacheHit hid]
    | selective loader =>
      have htable : loader.table.find? name = some c := h
      simp only [loadFromSelective, htable]
    | resources loader => cases h

/-- A loader that has a table is one of the session, so there is a first question to ask. -/
theorem load_of_find? {s : Session} {id : LoaderId} {name : String} {c : DefinedClass}
    (h : (s.tableOf id).find? name = some c) :
    load id name s = (.ok c, s.count id .cacheHit) := by
  rw [load]
  cases hlength : s.loaders.length with
  | zero =>
    rw [tableOf, loader?, List.eq_nil_of_length_eq_zero hlength] at h
    cases h
  | succ depth => exact loadAsking_of_find? h (loadWithin depth)

/-- A class that lies in the table of a loader lies there after everything that can happen, and is
what loading it answers. -/
theorem definition_permanent {s : Session} {id : LoaderId} {name : String} {c : DefinedClass}
    (h : (s.tableOf id).find? name = some c) (ops : List Operation) :
    ((run ops s).2.tableOf id).find? name = some c ∧
      (load id name (run ops s).2).1 = .ok c ∧
      CountsHit id (run ops s).2 (load id name (run ops s).2).2 ∧
      ∀ (t : Session) (ask : Asking), (t.tableOf id).find? name = some c →
        loadAsking ask id name t = (.ok c, t.count id .cacheHit) := by
  have hkept := (grows_run ops s).find?_tableOf h
  refine ⟨hkept, ?_, ?_, fun t ask ht => loadAsking_of_find? ht ask⟩
  · rw [load_of_find? hkept]
  · rw [load_of_find? hkept]
    exact countsHit_count id _

/-- A session in which a selective loader has defined the class `A`. -/
def defining : Session :=
  (run [.change (.addSelective {}),
    .request (.define ⟨1⟩ (.whole "A" (Stub.encode { name := "A" }) {}))] (start .empty)).2

/-- It still serves its class when it has come to ignore every name and the class has been looked
for once more. -/
theorem definition_permanent_ignored :
    ∃ c, (defining.tableOf ⟨1⟩).find? "A" = some c ∧
      (load ⟨1⟩ "A" (run [.change (.addIgnores ⟨1⟩ ["*"]), .request (.find ⟨1⟩ "A")]
        defining).2).1 = .ok c := by
  have hdefined : ((defining.tableOf ⟨1⟩).find? "A").isSome = true := by decide +kernel
  obtain ⟨c, hc⟩ := Option.isSome_iff_exists.mp hdefined
  exact ⟨c, hc, (definition_permanent hc _).2.1⟩

end Session

end Understudy
