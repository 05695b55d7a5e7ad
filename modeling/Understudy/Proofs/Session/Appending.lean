import Understudy.Proofs.ClassFile.Stub
import Understudy.Proofs.ClassPath.Appending
import Understudy.Proofs.Session.Absence
import Understudy.Proofs.Session.Use

/-!
Class paths only grow at their ends, whatever is done with the loaders that they belong to. So what
is appended is asked last, and an answer that was there before is there afterwards, as long as the
entries that it came from answer alike.

A class path is looked along by its front and then by its back: the first answer to a search for a
class, be it a failure, is the answer; the first location is the location; all locations follow each
other; and a class is there if it is in front or behind. Main statement: `lookups_of_appended`.
-/

namespace Understudy

namespace Session

variable {s t u : Session} {id : LoaderId}

/-! ### Class paths grow at their ends -/

/-- The entries of every loader are those that it had, with more behind them. -/
def Lengthens (s t : Session) : Prop := ∀ id, s.entriesOf id <+: t.entriesOf id

theorem Lengthens.refl (s : Session) : Lengthens s s := fun _ => List.prefix_refl _

theorem Lengthens.trans (h : Lengthens s t) (k : Lengthens t u) : Lengthens s u :=
  fun id => (h id).trans (k id)

theorem Lengthens.of_eq (h : ∀ id, t.entriesOf id = s.entriesOf id) : Lengthens s t :=
  fun id => h id ▸ List.prefix_refl _

/-- A loader that is the same has the same entries. -/
theorem entriesOf_congr (h : t.loader? id = s.loader? id) : t.entriesOf id = s.entriesOf id := by
  rw [entriesOf, h, entriesOf]

theorem lengthens_updateLoader (s : Session) (target : LoaderId) {f : Loader → Loader}
    (hf : ∀ l, (f l).entries = l.entries) : Lengthens s (s.updateLoader target f) :=
  .of_eq fun id => entriesOf_updateLoader s target id hf

theorem lengthens_mapSelective (s : Session) (target : LoaderId)
    {f : SelectiveLoader → SelectiveLoader} (hf : ∀ m, (f m).entries = m.entries) :
    Lengthens s (s.updateLoader target (·.mapSelective f)) :=
  lengthens_updateLoader s target fun
    | .selective m => hf m
    | .host _ => rfl
    | .resources _ => rfl

theorem lengthens_appendTo (s : Session) (target : LoaderId) (entry : EntryId) :
    Lengthens s (s.appendTo target entry) := by
  intro id
  by_cases hid : id = target
  · rw [hid, entriesOf, entriesOf, appendTo, loader?_updateLoader_self]
    rcases s.loader? target with _ | _ | _ | _
    · exact List.prefix_refl _
    · exact List.prefix_append _ _
    · exact List.prefix_append _ _
    · exact List.prefix_refl _
  · exact entriesOf_congr (loader?_updateLoader_of_ne s _ hid) ▸ List.prefix_refl _

theorem lengthens_addLoader (s : Session) (l : Loader) : Lengthens s (s.addLoader l).2 := by
  intro id
  by_cases hid : id = (s.addLoader l).1
  · have hnone : s.loader? (s.addLoader l).1 = none := List.getElem?_eq_none (Nat.le_refl _)
    rw [hid, entriesOf, hnone]
    exact List.nil_prefix
  · exact entriesOf_congr (loader?_addLoader_of_ne s l hid) ▸ List.prefix_refl _

theorem AddsEntries.lengthens (h : AddsEntries s t) : Lengthens s t := by
  obtain ⟨more, rfl⟩ := h
  exact .refl s

theorem lengthens_enter (s : Session) (c : DefinedClass) : Lengthens s (s.enter c) :=
  lengthens_updateLoader s c.loader (f := (·.mapTable (·.insert c.file.name c)))
    fun l => by cases l <;> rfl

theorem Searches.lengthens {among : LoaderId → Prop} {name : String} {success : Bool}
    (h : Searches among name success s t) : Lengthens s t :=
  .of_eq h.entriesOf_eq

theorem lengthens_define (id : LoaderId) (d : Definition) (s : Session) :
    Lengthens s (define id d s).2 := by
  cases h : (define id d s).1 with
  | error e =>
    rw [define_of_error h]
    exact .refl s
  | ok c =>
    rcases (define_of_ok h).2.2 with hafter | hafter
    · rw [hafter]
      exact lengthens_enter s c
    · rw [hafter]
      exact (lengthens_enter s c).trans (lengthens_appendTo _ id _)

theorem lengthens_request (request : Request) (s : Session) :
    Lengthens s (request.perform s).2 := by
  cases request with
  | load id name => exact (searches_load id name s).lengthens
  | find id name => exact (searches_find id name s).lengthens
  | define id d => exact lengthens_define id d s

theorem lengthens_change (change : Change) (s : Session) : Lengthens s (change.perform s) := by
  cases change with
  | putFiles _ => exact .refl s
  | addEntry _ => exact .refl s
  | insertClass _ _ _ => exact .refl s
  | insertResource _ _ _ => exact .refl s
  | addHost _ => exact lengthens_addLoader s _
  | addResourceLoader _ _ => exact lengthens_addLoader s _
  | addSelective config =>
    have hspec := addSelective_spec config s
    rw [Change.perform]
    rcases hadded : s.addSelective config with ⟨e | new, t⟩
    · rw [hadded] at hspec
      exact AddsEntries.lengthens hspec
    · rw [hadded] at hspec
      obtain ⟨u, entries, hentries, hnew⟩ := hspec
      obtain ⟨-, rfl⟩ := Prod.mk.inj hnew
      exact hentries.lengthens.trans (lengthens_addLoader u _)
  | appendTo id entry => exact lengthens_appendTo s id entry
  | setChain id _ => exact lengthens_mapSelective s id fun _ => rfl
  | setDeferred id _ => exact lengthens_mapSelective s id fun _ => rfl
  | addInterceptor id _ => exact lengthens_mapSelective s id fun _ => rfl
  | addIgnores id _ => exact lengthens_mapSelective s id fun _ => rfl

/-- By induction on the operations. -/
theorem lengthens_run (ops : List Operation) (s : Session) : Lengthens s (run ops s).2 := by
  induction ops generalizing s with
  | nil => exact .refl s
  | cons op rest ih =>
    cases op with
    | request request => exact (lengthens_request request s).trans (ih _)
    | change change => exact (lengthens_change change s).trans (ih _)

theorem lengthens_append (s : Session) (id : LoaderId) (addition : Addition) :
    Lengthens s (s.append id addition) := by
  cases addition with
  | fresh holding => exact lengthens_appendTo (s.addEntry holding).2 id _
  | known entry => exact lengthens_appendTo s id entry
  | again position =>
    rw [append]
    split
    · exact lengthens_appendTo s id _
    · exact .refl s

theorem lengthens_updateOwn (s : Session) (id : LoaderId) (position : Nat)
    (f : Holding → Holding) : Lengthens s (s.updateOwn id position f) := by
  rw [updateOwn]
  split
  · exact .refl s
  · exact .refl s

theorem lengthens_act (act : Act) (id : LoaderId) (s : Session) :
    Lengthens s (act.perform id s).2 := by
  cases act with
  | load name => exact (searches_load id name s).lengthens
  | find name => exact (searches_find id name s).lengthens
  | define d => exact lengthens_define id d s
  | isDefined _ => exact .refl s
  | resource _ => exact .refl s
  | resources _ => exact .refl s
  | addIgnores patterns => exact lengthens_change (.addIgnores id patterns) s
  | append addition => exact lengthens_append s id addition
  | synthesize name => exact lengthens_append s id (.fresh _)
  | insertClass position name bytes => exact lengthens_updateOwn s id position _
  | insertResource position path bytes => exact lengthens_updateOwn s id position _

/-- By induction on the uses. -/
theorem lengthens_use (ops : List (LoaderId × Act)) (s : Session) : Lengthens s (use ops s).2 := by
  induction ops generalizing s with
  | nil => exact .refl s
  | cons op rest ih => exact (lengthens_act op.2 op.1 s).trans (ih _)

/-- A class path that is edited only gets longer. By induction on the edits. -/
theorem prefix_of_edit {edits : List ClassPathEdit} {entries later : List EntryId}
    (h : edit edits entries s = (.ok later, t)) : entries <+: later := by
  induction edits generalizing entries s with
  | nil =>
    cases h
    exact List.prefix_refl _
  | cons e rest ih =>
    rw [edit] at h
    split at h
    · cases h
    · next entry _ _ => exact (List.prefix_append _ [entry]).trans (ih h)

/-! ### Answers of entries -/

/-- Entries answer a question as they did. -/
def AnswerAlike {α : Type} (ask : FileTree → Entry → α) (s t : Session) (entries : List EntryId) :
    Prop :=
  ∀ entry ∈ entries, (t.entryAt? entry).map (ask t.files) = (s.entryAt? entry).map (ask s.files)

theorem AnswerAlike.map_eq {α : Type} {ask : FileTree → Entry → α} {entries : List EntryId}
    (h : AnswerAlike ask s t entries) :
    (t.classPathOf entries).entries.map (ask t.files) =
      (s.classPathOf entries).entries.map (ask s.files) := by
  rw [classPathOf, classPathOf, List.map_filterMap, List.map_filterMap]
  exact List.filterMap_congr h

/-- What is asked of an entry for a class. -/
def classAsked (name : String) (tree : FileTree) (entry : Entry) : Except Error (Option Bytes) :=
  entry.classBytes tree name

/-- What is asked of an entry for a resource. -/
def resourceAsked (path : String) (tree : FileTree) (entry : Entry) : Option Resource :=
  entry.resource? tree path

/-- The ways for a class path to come to have more entries: things happen to the loader that it
belongs to, or are done with it, or the class path is set up by edits. -/
inductive Appends (s : Session) : Session → List EntryId → List EntryId → Prop
  | run (ops : List Operation) (id : LoaderId) :
    Appends s (run ops s).2 (s.entriesOf id) ((run ops s).2.entriesOf id)
  | use (ops : List (LoaderId × Act)) (id : LoaderId) :
    Appends s (use ops s).2 (s.entriesOf id) ((use ops s).2.entriesOf id)
  | edit {edits : List ClassPathEdit} {entries later : List EntryId} {t : Session}
    (h : edit edits entries s = (.ok later, t)) : Appends s t entries later

variable {entries later : List EntryId}

theorem Appends.isPrefix (h : Appends s t entries later) : entries <+: later := by
  cases h with
  | run ops id => exact lengthens_run ops s id
  | use ops id => exact lengthens_use ops s id
  | edit h => exact prefix_of_edit h

/-- Look-ups along a class path to which entries are appended, and along all those that any
operations have appended to. -/
theorem lookups_of_appended :
    (∀ tree front back, ClassPath.Continues tree ⟨front⟩ ⟨back⟩ ⟨front ++ back⟩) ∧
    (∀ tree cp name, ClassPath.Coherent tree cp name) ∧
    ∀ s t entries later, Appends s t entries later → ∃ behind, later = entries ++ behind ∧
      ClassPath.Continues t.files (t.classPathOf entries) (t.classPathOf behind)
        (t.classPathOf later) ∧
      (∀ name, AnswerAlike (classAsked name) s t entries →
        (t.classPathOf entries).find t.files name = (s.classPathOf entries).find s.files name ∧
        (t.classPathOf entries).contains t.files name =
          (s.classPathOf entries).contains s.files name) ∧
      ∀ path, AnswerAlike (resourceAsked path) s t entries →
        (t.classPathOf entries).resource? t.files path =
          (s.classPathOf entries).resource? s.files path ∧
        (t.classPathOf entries).resources t.files path =
          (s.classPathOf entries).resources s.files path := by
  refine ⟨ClassPath.continues_append, ClassPath.coherent, fun s t entries later h => ?_⟩
  obtain ⟨behind, rfl⟩ := h.isPrefix
  refine ⟨behind, rfl, ?_, fun name halike => ?_, fun path halike => ?_⟩
  · have hwhole : t.classPathOf (entries ++ behind) =
        ⟨(t.classPathOf entries).entries ++ (t.classPathOf behind).entries⟩ :=
      congrArg ClassPath.mk (entries_classPathOf_append t entries behind)
    rw [hwhole]
    exact ClassPath.continues_append t.files _ _
  · exact ⟨ClassPath.find_congr_answers halike.map_eq,
      ClassPath.contains_congr_answers halike.map_eq⟩
  · exact ⟨ClassPath.resource?_congr_answers halike.map_eq,
      ClassPath.resources_congr_answers halike.map_eq⟩

/-- A host whose only entry holds what is no class, under the name `A`. -/
def overMalformed : Session :=
  { start .empty with
    holdings := [.single "A" [1]]
    loaders := [.host { entries := [] }, .host { entries := [⟨0⟩] }] }

/-- The class `A` is synthesized behind it, and a class `B` as well. -/
def syntheses : List (LoaderId × Act) := [(⟨1⟩, .synthesize "A"), (⟨1⟩, .synthesize "B")]

/-- What is no class stays in front of the class, and the other class is found. -/
theorem lookups_of_appended_synthesized :
    let t := (use syntheses overMalformed).2
    let whole := t.classPathOf (t.entriesOf ⟨1⟩)
    whole.find t.files "A" = .error .outOfBounds ∧ whole.contains t.files "A" = true ∧
      whole.find t.files "B" = .ok (some (Stub.file { name := "B" })) := by
  intro t whole
  obtain ⟨-, hcoherent, hgrown⟩ := lookups_of_appended
  obtain ⟨behind, hlater, hcontinues, hclasses, -⟩ :=
    hgrown overMalformed t [⟨0⟩] (t.entriesOf ⟨1⟩) (.use syntheses ⟨1⟩)
  have hpath : t.entriesOf ⟨1⟩ = [⟨0⟩] ++ [⟨1⟩, ⟨2⟩] := rfl
  obtain rfl := List.append_cancel_left (hpath.symm.trans hlater)
  have halike : ∀ name, AnswerAlike (classAsked name) overMalformed t [⟨0⟩] := by
    rintro name _ (_ | ⟨_, ⟨⟩⟩)
    rfl
  have hfront : (overMalformed.classPathOf [⟨0⟩]).find .empty "A" = .error .outOfBounds := rfl
  have hfound : whole.find t.files "A" = .error .outOfBounds := by
    rw [hcontinues.find, (hclasses "A" (halike "A")).1]
    exact hfront
  refine ⟨hfound, (hcoherent t.files whole "A").unparsed _ hfound nofun, ?_⟩
  rw [hcontinues.find, (hclasses "B" (halike "B")).1]
  decide +kernel

end Session

end Understudy
