import Mathlib.Data.List.Basic
import Mathlib.Data.Prod.Lex
import Mathlib.Logic.Relation
import Understudy.Files.Tree
import Understudy.Proofs.Files.Path

/-!
How a path is looked up, move by move, and how that can end. A walk moves as long as it stands in a
directory that has the next name; it halts where it has arrived, or else with the fault of the place
where it cannot go on. A name is only missing where a directory is asked for it and does not have
it: where something other than a directory stands in the way, the fault is another one. Main
statement: `resolve_eq_iff`.
-/

namespace Understudy

namespace FileTree

/-- Where a walk stands: how many links it may still pass, the place, and the steps that are
left. -/
structure Walker where
  links : Nat
  here : Place
  steps : List String

/-- What a directory is asked for by this step is a name. -/
structure IsName (step : String) : Prop where
  notSelf : step ≠ "."
  notUp : step ≠ ".."
  short : Path.byteLength step ≤ maxNameLength

/-- The moves of a walk. Every one of them starts in a directory. -/
inductive Moves (tree : FileTree) : Walker → Walker → Prop
  | stay {links : Nat} {here : Place} {rest : List String}
    (inside : tree.node? here = some .directory) :
    Moves tree ⟨links, here, "." :: rest⟩ ⟨links, here, rest⟩
  | up {links : Nat} {here : Place} {rest : List String}
    (inside : tree.node? here = some .directory) :
    Moves tree ⟨links, here, ".." :: rest⟩ ⟨links, here.dropLast, rest⟩
  | down {links : Nat} {here : Place} {name : String} {rest : List String} {node : FileNode}
    (inside : tree.node? here = some .directory) (named : IsName name)
    (there : tree.node? (here ++ [name]) = some node) (plain : ∀ target, node ≠ .link target) :
    Moves tree ⟨links, here, name :: rest⟩ ⟨links, here ++ [name], rest⟩
  | through {links : Nat} {here : Place} {name target : String} {rest : List String}
    (inside : tree.node? here = some .directory) (named : IsName name)
    (there : tree.node? (here ++ [name]) = some (.link target)) (leads : target ≠ "") :
    Moves tree ⟨links + 1, here, name :: rest⟩
      ⟨links, if Path.isAbsolute target then [] else here, Path.steps target ++ rest⟩

/-- The walk asks a directory for a name that it does not have, or has as a link to nowhere. -/
structure Misses (tree : FileTree) (w : Walker) : Prop where
  inside : tree.node? w.here = some .directory
  lacks : ∃ name rest, w.steps = name :: rest ∧ IsName name ∧
    (tree.node? (w.here ++ [name]) = none ∨ tree.node? (w.here ++ [name]) = some (.link ""))

/-- Where a walk halts, and with what. -/
inductive Halts (tree : FileTree) : Walker → Except FileFault Place → Prop
  | arrived {links : Nat} {here : Place} : Halts tree ⟨links, here, []⟩ (.ok here)
  | outside {links : Nat} {here : Place} {name : String} {rest : List String}
    (outside : tree.node? here ≠ some .directory) :
    Halts tree ⟨links, here, name :: rest⟩ (.error .notDirectory)
  | overlong {links : Nat} {here : Place} {name : String} {rest : List String}
    (inside : tree.node? here = some .directory) (notSelf : name ≠ ".") (notUp : name ≠ "..")
    (long : maxNameLength < Path.byteLength name) :
    Halts tree ⟨links, here, name :: rest⟩ (.error .nameTooLong)
  | missing {w : Walker} (misses : Misses tree w) : Halts tree w (.error .notFound)
  | spent {here : Place} {name target : String} {rest : List String}
    (inside : tree.node? here = some .directory) (named : IsName name)
    (there : tree.node? (here ++ [name]) = some (.link target)) (leads : target ≠ "") :
    Halts tree ⟨0, here, name :: rest⟩ (.error .tooManyLinks)

/-- What comes of a walk. -/
def Walker.result (tree : FileTree) (w : Walker) : Except FileFault Place :=
  walkLinks tree (fun _ => true) w.links w.here w.steps

/-- What comes of a walk from a link on, where so many may still be passed. -/
def onward (tree : FileTree) : Nat → Place → List String → Except FileFault Place
  | 0 => fun _ _ => .error .tooManyLinks
  | links + 1 => walkLinks tree (fun _ => true) links

variable {tree : FileTree} {w w' : Walker} {result : Except FileFault Place} {path : String}

/-! ### One move -/

theorem Walker.result_eq (tree : FileTree) (links : Nat) (here : Place) (steps : List String) :
    (Walker.mk links here steps).result tree =
      walk tree (fun _ => true) (onward tree links) here steps := by
  cases links <;> rfl

/-- A directory is asked for a name. -/
theorem Walker.result_of_isName {here : Place} {name : String}
    (inside : tree.node? here = some .directory) (named : IsName name) (links : Nat)
    (rest : List String) :
    (Walker.mk links here (name :: rest)).result tree = match tree.node? (here ++ [name]) with
      | none => .error .notFound
      | some (.link target) => if target = "" then .error .notFound else
          onward tree links (if Path.isAbsolute target then [] else here)
            (Path.steps target ++ rest)
      | some _ => (Walker.mk links (here ++ [name]) rest).result tree := by
  rw [result_eq, walk, if_neg (not_not.mpr inside), if_neg named.notSelf, if_neg named.notUp,
    if_neg named.short.not_gt, if_neg (by decide)]
  split <;> simp only [result_eq, *]

theorem Moves.result_eq (h : Moves tree w w') : w.result tree = w'.result tree := by
  cases h with
  | stay inside =>
    rw [Walker.result_eq, Walker.result_eq, walk, if_neg (not_not.mpr inside), if_pos rfl]
  | up inside =>
    rw [Walker.result_eq, Walker.result_eq, walk, if_neg (not_not.mpr inside), if_neg (by decide),
      if_pos rfl]
  | @down _ _ _ _ node inside named there plain =>
    rw [Walker.result_of_isName inside named, there]
    cases node with
    | link target => exact absurd rfl (plain target)
    | directory => rfl
    | file _ => rfl
  | through inside named there leads =>
    rw [Walker.result_of_isName inside named, there]
    exact if_neg leads

theorem Halts.result_eq (h : Halts tree w result) : w.result tree = result := by
  cases h with
  | arrived => rw [Walker.result_eq, walk]
  | outside outside => rw [Walker.result_eq, walk, if_pos outside]
  | overlong inside notSelf notUp long =>
    rw [Walker.result_eq, walk, if_neg (not_not.mpr inside), if_neg notSelf, if_neg notUp,
      if_pos long]
  | missing misses =>
    obtain ⟨links, here, steps⟩ := w
    obtain ⟨name, rest, rfl, named, hnone | hnowhere⟩ := misses.lacks
    · rw [Walker.result_of_isName misses.inside named, hnone]
    · rw [Walker.result_of_isName misses.inside named, hnowhere]
      rfl
  | spent inside named there leads =>
    rw [Walker.result_of_isName inside named, there]
    exact if_neg leads

/-- A walk moves on unless it halts. -/
theorem exists_moves_or_halts (tree : FileTree) (w : Walker) :
    (∃ w', Moves tree w w') ∨ ∃ result, Halts tree w result := by
  obtain ⟨links, here, _ | ⟨name, rest⟩⟩ := w
  · exact .inr ⟨_, .arrived⟩
  · by_cases inside : tree.node? here = some .directory
    · by_cases notSelf : name = "."
      · subst notSelf
        exact .inl ⟨_, .stay inside⟩
      by_cases notUp : name = ".."
      · subst notUp
        exact .inl ⟨_, .up inside⟩
      by_cases long : maxNameLength < Path.byteLength name
      · exact .inr ⟨_, .overlong inside notSelf notUp long⟩
      have named : IsName name := ⟨notSelf, notUp, Nat.le_of_not_lt long⟩
      rcases there : tree.node? (here ++ [name]) with _ | ⟨_ | _ | target⟩
      · exact .inr ⟨_, .missing ⟨inside, name, rest, rfl, named, .inl there⟩⟩
      · exact .inl ⟨_, .down inside named there nofun⟩
      · exact .inl ⟨_, .down inside named there nofun⟩
      · by_cases leads : target = ""
        · subst leads
          exact .inr ⟨_, .missing ⟨inside, name, rest, rfl, named, .inr there⟩⟩
        · cases links with
          | zero => exact .inr ⟨_, .spent inside named there leads⟩
          | succ links => exact .inl ⟨_, .through inside named there leads⟩
    · exact .inr ⟨_, .outside inside⟩

/-- A move takes a step, or a link. -/
theorem Moves.lt (h : Moves tree w w') :
    toLex (w'.links, w'.steps.length) < toLex (w.links, w.steps.length) := by
  rw [Prod.Lex.toLex_lt_toLex]
  cases h with
  | stay _ => exact .inr ⟨rfl, Nat.lt_succ_self _⟩
  | up _ => exact .inr ⟨rfl, Nat.lt_succ_self _⟩
  | down _ _ _ _ => exact .inr ⟨rfl, Nat.lt_succ_self _⟩
  | through _ _ _ _ => exact .inl (Nat.lt_succ_self _)

/-! ### Whole walks -/

/-- Every walk comes to a halt, with what comes of it. By induction on the links and steps that are
left. -/
theorem exists_halts (tree : FileTree) (w : Walker) :
    ∃ last, Relation.ReflTransGen (Moves tree) w last ∧ Halts tree last (w.result tree) := by
  induction hleft : toLex (w.links, w.steps.length) using WellFoundedLT.induction
    generalizing w with
  | ind left ih =>
    subst hleft
    rcases exists_moves_or_halts tree w with ⟨next, hmoves⟩ | ⟨result, hhalts⟩
    · obtain ⟨last, hwalk, hhalts⟩ := ih _ hmoves.lt next rfl
      rw [hmoves.result_eq]
      exact ⟨last, .head hmoves hwalk, hhalts⟩
    · rw [hhalts.result_eq]
      exact ⟨w, .refl, hhalts⟩

theorem result_eq_of_reaches (h : Relation.ReflTransGen (Moves tree) w w') :
    w.result tree = w'.result tree := by
  induction h with
  | refl => rfl
  | tail _ hmoves ih => rw [ih, hmoves.result_eq]

/-- What comes of a walk is what it halts with. -/
theorem result_eq_iff :
    w.result tree = result ↔ ∃ last, Relation.ReflTransGen (Moves tree) w last ∧
      Halts tree last result := by
  constructor
  · rintro rfl
    exact exists_halts tree w
  · rintro ⟨last, hwalk, hhalts⟩
    rw [result_eq_of_reaches hwalk, hhalts.result_eq]

/-- The start of the walk along a path. -/
def setOut (path : String) : Walker := ⟨maxLinks, [], Path.steps path⟩

/-- Texts of which the walk along them is taken. -/
structure IsWalkable (path : String) : Prop where
  noNul : '\x00' ∉ path.toList
  someName : path ≠ ""
  short : Path.byteLength path < maxPathLength

theorem resolveThrough_eq (h : IsWalkable path) (tree : FileTree) (passes : Place → Bool) :
    tree.resolveThrough passes path = walkLinks tree passes maxLinks [] (Path.steps path) := by
  rw [resolveThrough, if_neg (by simpa using h.noNul), if_neg h.someName,
    if_neg (Nat.not_le.mpr h.short)]

theorem resolve_eq_result (h : IsWalkable path) :
    tree.resolve path = (setOut path).result tree :=
  resolveThrough_eq h tree _

/-- A path that is none for a walk is at fault itself, unless it is empty. -/
theorem exists_fault_of_not_isWalkable (h : ¬ IsWalkable path) (hsome : path ≠ "") :
    ∃ fault, fault ≠ .notFound ∧ tree.resolve path = .error fault := by
  by_cases hnul : '\x00' ∈ path.toList
  · exact ⟨.nulInPath, nofun, if_pos (by simpa using hnul)⟩
  · have hlong : maxPathLength ≤ Path.byteLength path :=
      Nat.le_of_not_lt fun hshort => h ⟨hnul, hsome, hshort⟩
    refine ⟨.nameTooLong, nofun, ?_⟩
    rw [resolve, resolveThrough, if_neg (by simpa using hnul), if_neg hsome, if_pos hlong]

/-- What a path leads to is where the walk along it halts. -/
theorem resolve_eq_iff (h : IsWalkable path) :
    tree.resolve path = result ↔ ∃ last, Relation.ReflTransGen (Moves tree) (setOut path) last ∧
      Halts tree last result := by
  rw [resolve_eq_result h, result_eq_iff]

/-- Nothing is where the path leads: it is no path, or the walk along it comes to a directory that
lacks what it is asked for. -/
def Missing (tree : FileTree) (path : String) : Prop :=
  path = "" ∨ IsWalkable path ∧
    ∃ last, Relation.ReflTransGen (Moves tree) (setOut path) last ∧ Misses tree last

theorem resolve_eq_notFound_iff : tree.resolve path = .error .notFound ↔ tree.Missing path := by
  by_cases hempty : path = ""
  · subst hempty
    exact iff_of_true rfl (.inl rfl)
  by_cases hwalkable : IsWalkable path
  · rw [resolve_eq_iff hwalkable]
    constructor
    · rintro ⟨last, hwalk, hhalts⟩
      cases hhalts with
      | missing misses => exact .inr ⟨hwalkable, last, hwalk, misses⟩
    · rintro (rfl | ⟨-, last, hwalk, hmisses⟩)
      · exact absurd rfl hempty
      · exact ⟨last, hwalk, .missing hmisses⟩
  · obtain ⟨fault, hfault, hresolve⟩ :
        ∃ fault, fault ≠ .notFound ∧ tree.resolve path = .error fault :=
      exists_fault_of_not_isWalkable hwalkable hempty
    refine iff_of_false (fun heq => ?_) ?_
    · rw [hresolve] at heq
      exact hfault (Except.error.inj heq)
    · rintro (rfl | ⟨hwalkable', -⟩)
      · exact hempty rfl
      · exact hwalkable hwalkable'

/-! ### Behind something that is no directory -/

/-- A move takes no notice of the steps behind the one it makes. -/
theorem Moves.append (h : Moves tree w w') (more : List String) :
    Moves tree ⟨w.links, w.here, w.steps ++ more⟩ ⟨w'.links, w'.here, w'.steps ++ more⟩ := by
  cases h with
  | stay inside => exact .stay inside
  | up inside => exact .up inside
  | down inside named there plain => exact .down inside named there plain
  | through inside named there leads =>
    rw [List.append_assoc]
    exact .through inside named there leads

/-- A walk that arrives at something that is no directory goes no further. -/
theorem result_append_of_arrives {place : Place} (h : w.result tree = .ok place)
    (houtside : tree.node? place ≠ some .directory) {more : List String} (hmore : more ≠ []) :
    (Walker.mk w.links w.here (w.steps ++ more)).result tree = .error .notDirectory := by
  obtain ⟨last, hwalk, hhalts⟩ := result_eq_iff.mp h
  have hlonger : Relation.ReflTransGen (Moves tree) ⟨w.links, w.here, w.steps ++ more⟩
      ⟨last.links, last.here, last.steps ++ more⟩ := by
    clear hhalts
    induction hwalk with
    | refl => exact .refl
    | tail _ hmoves ih => exact ih.tail (hmoves.append more)
  refine result_eq_iff.mpr ⟨_, hlonger, ?_⟩
  cases hhalts with
  | arrived =>
    obtain ⟨name, rest, rfl⟩ := List.exists_cons_of_ne_nil hmore
    exact .outside houtside

/-- Below something that is no directory nothing is found, and it is not found missing either. -/
theorem exists_fault_of_join {base : String} {place : Place} (hbase : tree.resolve base = .ok place)
    (houtside : tree.node? place ≠ some .directory) (hend : base.toList.getLast? ≠ some '/')
    (hrelative : Path.isAbsolute path = false) (hnames : Path.names path ≠ []) :
    ∃ fault, fault ≠ .notFound ∧ tree.resolve (Path.join base path) = .error fault := by
  have hpath : path ≠ "" := by
    rintro rfl
    exact hnames rfl
  have hsome : base ≠ "" := by
    rintro rfl
    cases hbase
  have hwalkable : IsWalkable base := by
    by_contra h
    obtain ⟨fault, -, hfault⟩ := exists_fault_of_not_isWalkable h hsome
    rw [hfault] at hbase
    cases hbase
  have hopen : Path.steps base = Path.names base := if_neg (by simpa using hend)
  have hsteps := Path.steps_join hsome hrelative hpath
  by_cases hjoined : IsWalkable (Path.join base path)
  · refine ⟨.notDirectory, nofun, ?_⟩
    rw [resolve_eq_result hjoined, setOut, hsteps, ← hopen]
    rw [resolve_eq_result hwalkable] at hbase
    exact result_append_of_arrives hbase houtside (Path.steps_ne_nil hnames)
  · exact exists_fault_of_not_isWalkable hjoined (Path.join_ne_empty hpath)

/-! ### Reading a file -/

variable {place : Place} {content : Bytes}

theorem node?_of_contentAt (h : tree.contentAt place = .ok content) :
    tree.node? place = some (.file content) := by
  rw [contentAt] at h
  split at h
  · next hfile => rw [hfile, Except.ok.inj h]
  · cases h
  · cases h

theorem exists_of_read (h : tree.read path = .ok content) :
    ∃ place, tree.resolve path = .ok place ∧ tree.node? place = some (.file content) := by
  rw [read] at h
  split at h
  · next place hresolve => exact ⟨place, hresolve, node?_of_contentAt h⟩
  · cases h

end FileTree

end Understudy
