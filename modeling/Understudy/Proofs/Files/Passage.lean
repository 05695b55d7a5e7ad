import Understudy.Proofs.Files.Descent

/-!
What a look-up comes by. A walk asks a directory for one place after the other, be there a
directory, a file or a link. A walk that goes only through what is accepted stops at the first place
that is not; so it arrives exactly if it would arrive anyway and asks for nothing else. Main
statement: `resolveThrough_eq_ok_iff`.
-/

namespace Understudy

namespace FileTree

variable {tree : FileTree} {w w' : Walker} {passes : Place → Bool} {path : String} {place : Place}

/-! ### What a walk asks for -/

/-- The next step of a walk asks for a place by its name. -/
def Walker.AsksFor (w : Walker) (place : Place) : Prop :=
  ∃ name rest, w.steps = name :: rest ∧ IsName name ∧ place = w.here ++ [name]

/-- A walk comes by a place: sooner or later it asks for it. -/
def ComesBy (tree : FileTree) (w : Walker) (place : Place) : Prop :=
  ∃ last, Relation.ReflTransGen (Moves tree) w last ∧ last.AsksFor place

/-- What comes of a walk that goes only through what `passes` accepts. -/
def Walker.resultThrough (tree : FileTree) (passes : Place → Bool) (w : Walker) :
    Except FileFault Place :=
  walkLinks tree passes w.links w.here w.steps

/-- A walk goes on where it turns to. -/
theorem Walker.resultThrough_of_turn {here next : Place} {name : String}
    (hturn : tree.turn passes here name = .on next) (links : Nat) (rest : List String) :
    (Walker.mk links here (name :: rest)).resultThrough tree passes =
      (Walker.mk links next rest).resultThrough tree passes := by
  obtain ⟨beyond, hwalk⟩ := exists_walkLinks_eq tree passes links
  rw [resultThrough, resultThrough, hwalk, walk_cons, hturn]
  rfl

/-- The turn where a directory is asked for what is accepted. -/
theorem turn_of_isName {here : Place} {name : String} (inside : tree.node? here = some .directory)
    (named : IsName name) (hpasses : passes (here ++ [name]) = true) :
    tree.turn passes here name = match tree.node? (here ++ [name]) with
      | none => .stop .notFound
      | some (.link target) =>
        if target = "" then .stop .notFound
        else .through (if Path.isAbsolute target then [] else here) (Path.steps target)
      | some _ => .on (here ++ [name]) := by
  rw [turn, if_neg (not_not.mpr inside), if_neg named.notSelf, if_neg named.notUp,
    if_neg named.short.not_gt]
  refine (if_neg (by simp [hpasses])).trans ?_
  rcases tree.node? (here ++ [name]) with _ | _ | _ | _ <;> rfl

/-- A walk stops where it asks for what it must not go through. -/
theorem Walker.AsksFor.exists_fault (h : w.AsksFor place) (hpasses : passes place = false)
    (tree : FileTree) : ∃ fault, w.resultThrough tree passes = .error fault := by
  obtain ⟨links, here, steps⟩ := w
  obtain ⟨name, rest, rfl, named, rfl⟩ := h
  obtain ⟨beyond, hwalk⟩ := exists_walkLinks_eq tree passes links
  have hstop : (!passes (here ++ [name])) = true := by rw [hpasses]; rfl
  rw [resultThrough, hwalk, walk_cons, turn, if_neg named.notSelf, if_neg named.notUp,
    if_neg named.short.not_gt, if_pos hstop]
  dsimp only
  split
  · exact ⟨_, rfl⟩
  · exact ⟨_, rfl⟩

/-- So a walk that arrives has asked for nothing else. -/
theorem Walker.AsksFor.passes_of_ok {found : Place} (h : w.AsksFor place)
    (hok : w.resultThrough tree passes = .ok found) : passes place = true := by
  by_contra hpasses
  obtain ⟨fault, hfault⟩ := h.exists_fault (Bool.eq_false_of_not_eq_true hpasses) tree
  rw [hok] at hfault
  cases hfault

/-- A move through what is accepted changes nothing about what comes of the walk. -/
theorem Moves.resultThrough_eq (h : Moves tree w w')
    (hpasses : ∀ place, w.AsksFor place → passes place = true) :
    w.resultThrough tree passes = w'.resultThrough tree passes := by
  cases h with
  | stay inside =>
    exact Walker.resultThrough_of_turn (by rw [turn, if_neg (not_not.mpr inside), if_pos rfl]) _ _
  | up inside =>
    refine Walker.resultThrough_of_turn ?_ _ _
    rw [turn, if_neg (not_not.mpr inside), if_neg (by decide), if_pos rfl]
  | @down _ _ _ _ node inside named there plain =>
    refine Walker.resultThrough_of_turn ?_ _ _
    rw [turn_of_isName inside named (hpasses _ ⟨_, _, rfl, named, rfl⟩), there]
    cases node with
    | link target => exact absurd rfl (plain target)
    | directory => rfl
    | file _ => rfl
  | through inside named there leads =>
    rw [Walker.resultThrough, walkLinks, walk_cons,
      turn_of_isName inside named (hpasses _ ⟨_, _, rfl, named, rfl⟩), there]
    dsimp only
    rw [if_neg leads]
    rfl

theorem resultThrough_of_reaches (h : Relation.ReflTransGen (Moves tree) w w')
    (hok : w.resultThrough tree passes = .ok place) :
    w'.resultThrough tree passes = .ok place := by
  induction h with
  | refl => exact hok
  | tail _ hmoves ih =>
    rw [← hmoves.resultThrough_eq fun _ hasks => hasks.passes_of_ok ih]
    exact ih

/-- A walk that goes only through what is accepted arrives if it would anyway, and comes by nothing
else. -/
theorem resultThrough_eq_ok_iff :
    w.resultThrough tree passes = .ok place ↔
      w.result tree = .ok place ∧ ∀ passed, ComesBy tree w passed → passes passed = true := by
  constructor
  · intro hok
    refine ⟨walkLinks_all hok, fun passed hcomes => ?_⟩
    obtain ⟨last, hwalk, hasks⟩ := hcomes
    exact hasks.passes_of_ok (resultThrough_of_reaches hwalk hok)
  · rintro ⟨hok, hpasses⟩
    obtain ⟨last, hwalk, hhalts⟩ := result_eq_iff.mp hok
    clear hok
    -- From where it arrives back to where it starts: each move is through what is accepted.
    induction hwalk using Relation.ReflTransGen.head_induction_on with
    | refl =>
      cases hhalts with
      | @arrived links here => cases links <;> rfl
    | head hmoves hbehind ih =>
      rw [hmoves.resultThrough_eq fun asked hasks => hpasses asked ⟨_, .refl, hasks⟩]
      refine ih fun passed ⟨last', hwalk', hasks⟩ => hpasses passed ⟨last', ?_, hasks⟩
      exact .head hmoves hwalk'

/-- A path leads to a place by way of what is accepted if it leads there, and the look-up comes by
nothing else. -/
theorem resolveThrough_eq_ok_iff :
    tree.resolveThrough passes path = .ok place ↔
      tree.resolve path = .ok place ∧
        ∀ passed, ComesBy tree (setOut path) passed → passes passed = true := by
  by_cases hwalkable : IsWalkable path
  · have hthrough : tree.resolveThrough passes path = (setOut path).resultThrough tree passes :=
      resolveThrough_eq hwalkable tree passes
    rw [hthrough, resolve_eq_result hwalkable, resultThrough_eq_ok_iff]
  · exact iff_of_false (fun h => hwalkable (isWalkable_of_resolveThrough h))
      fun h => hwalkable (isWalkable_of_resolveThrough h.1)

end FileTree

end Understudy
