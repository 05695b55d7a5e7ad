import Understudy.Proofs.Files.Lookup

/-!
Looking up what lies below a directory. Along a path below a root, a look-up goes first where the
root leads, and from there on along the path. If there is no link below the root and the path does
not go up, it comes only by places below the root, and takes no notice of anything else. Main
statements: `place_eq_of_join` and `SameBelow.resolveThrough_join`.
-/

namespace Understudy

/-- Whether a node is a link. -/
def FileNode.isLink : FileNode → Bool
  | link _ => true
  | _ => false

namespace FileTree

/-- What one step of a walk comes to: the walk stops, goes on from a place, or goes on from where a
link is taken from, along other steps first. -/
inductive Turn where
  | stop (fault : FileFault)
  | on (place : Place)
  | through (place : Place) (steps : List String)

/-- The turn that a walk takes at a place. -/
def turn (tree : FileTree) (passes : Place → Bool) (here : Place) (name : String) : Turn :=
  if tree.node? here ≠ some .directory then .stop .notDirectory
  else if name = "." then .on here
  else if name = ".." then .on here.dropLast
  else if maxNameLength < Path.byteLength name then .stop .nameTooLong
  else if !passes (here ++ [name]) then .stop .nameTooLong
  else match tree.node? (here ++ [name]) with
    | none => .stop .notFound
    | some (.link target) =>
      if target = "" then .stop .notFound
      else .through (if Path.isAbsolute target then [] else here) (Path.steps target)
    | some _ => .on (here ++ [name])

/-- Going on after a turn. -/
def Turn.follow (onward : Place → List String → Except FileFault Place)
    (beyond : Place → List String → Except FileFault Place) (rest : List String) :
    Turn → Except FileFault Place
  | stop fault => .error fault
  | on place => onward place rest
  | through place steps => beyond place (steps ++ rest)

variable {tree other : FileTree} {passes : Place → Bool}
  {beyond : Place → List String → Except FileFault Place} {here top : Place}

theorem walk_cons (tree : FileTree) (passes : Place → Bool)
    (beyond : Place → List String → Except FileFault Place) (here : Place) (name : String)
    (rest : List String) :
    walk tree passes beyond here (name :: rest) =
      (tree.turn passes here name).follow (walk tree passes beyond) beyond rest := by
  rw [walk, turn]
  split_ifs
  · rfl
  · rfl
  · rfl
  · rfl
  · rfl
  · rcases tree.node? (here ++ [name]) with _ | _ | _ | target
    · rfl
    · rfl
    · rfl
    · dsimp only
      split_ifs <;> rfl

/-! ### Along steps put behind others -/

/-- Along some steps and then others, this way of walking fails as it does along the first ones, or
goes on from the place where they lead. -/
def GoesOn (tree : FileTree) (passes : Place → Bool)
    (onward : Place → List String → Except FileFault Place) : Prop :=
  ∀ here first, (∀ fault, onward here first = .error fault → ∀ rest,
      onward here (first ++ rest) = .error fault) ∧
    ∀ place, onward here first = .ok place → ∃ links, ∀ rest,
      onward here (first ++ rest) = walkLinks tree passes links place rest

theorem goesOn_walk (hbeyond : GoesOn tree passes beyond) (links : Nat)
    (hlinks : walkLinks tree passes links = walk tree passes beyond) :
    GoesOn tree passes (walk tree passes beyond) := by
  intro here first
  induction first generalizing here with
  | nil =>
    refine ⟨nofun, fun place h => ⟨links, fun rest => ?_⟩⟩
    obtain rfl : here = place := Except.ok.inj h
    rw [hlinks, List.nil_append]
  | cons name first ih =>
    simp only [List.cons_append, walk_cons]
    cases tree.turn passes here name with
    | stop fault => exact ⟨fun _ h _ => h, nofun⟩
    | on place => exact ih place
    | through place steps =>
      have hthrough := hbeyond place (steps ++ first)
      simp only [List.append_assoc] at hthrough
      exact hthrough

/-- By induction on the links that may still be passed. -/
theorem goesOn_walkLinks (tree : FileTree) (passes : Place → Bool) (links : Nat) :
    GoesOn tree passes (walkLinks tree passes links) := by
  induction links with
  | zero => exact goesOn_walk (fun _ _ => ⟨fun _ h _ => h, nofun⟩) 0 rfl
  | succ links ih => exact goesOn_walk ih (links + 1) rfl

/-! ### Where less is passed -/

/-- What is passed where not everything is, is passed where everything is. -/
theorem turn_all (tree : FileTree) (passes : Place → Bool) (here : Place) (name : String) :
    (∃ fault, tree.turn passes here name = .stop fault) ∨
      tree.turn (fun _ => true) here name = tree.turn passes here name := by
  by_cases hpasses : passes (here ++ [name]) = true
  · exact .inr (by rw [turn, turn, hpasses])
  · rw [Bool.not_eq_true] at hpasses
    simp only [turn, hpasses, Bool.not_false, if_true]
    split_ifs
    · exact .inl ⟨_, rfl⟩
    · exact .inr rfl
    · exact .inr rfl
    all_goals exact .inl ⟨_, rfl⟩

theorem walk_all {beyond' : Place → List String → Except FileFault Place}
    (hbeyond : ∀ here steps place, beyond here steps = .ok place → beyond' here steps = .ok place)
    {steps : List String} {place : Place} (h : walk tree passes beyond here steps = .ok place) :
    walk tree (fun _ => true) beyond' here steps = .ok place := by
  induction steps generalizing here with
  | nil => exact h
  | cons name rest ih =>
    rw [walk_cons] at h ⊢
    rcases tree.turn_all passes here name with ⟨fault, hstop⟩ | hturn
    · rw [hstop] at h
      cases h
    · rw [hturn]
      cases hcase : tree.turn passes here name with
      | stop fault =>
        rw [hcase] at h
        cases h
      | on next =>
        rw [hcase] at h
        exact ih h
      | through next steps =>
        rw [hcase] at h
        exact hbeyond _ _ _ h

theorem walkLinks_all {links : Nat} {steps : List String} {place : Place}
    (h : walkLinks tree passes links here steps = .ok place) :
    walkLinks tree (fun _ => true) links here steps = .ok place := by
  induction links generalizing here steps place with
  | zero => exact walk_all (fun _ _ _ h => h) h
  | succ links ih => exact walk_all (fun _ _ _ => ih) h

/-! ### Below a directory without links -/

/-- There is no link below a place. -/
def LinkFree (tree : FileTree) (top : Place) : Prop :=
  ∀ name below target, tree.node? (top ++ name :: below) ≠ some (.link target)

/-- Two trees are the same at a place and below it. -/
def SameAt (tree other : FileTree) (top : Place) : Prop :=
  ∀ below, other.node? (top ++ below) = tree.node? (top ++ below)

theorem mem_nodes_of_node? {place : Place} {node : FileNode} (hbelow : place ≠ [])
    (h : tree.node? place = some node) : (place, node) ∈ tree.nodes := by
  rw [node?, if_neg hbelow, Option.map_eq_some_iff] at h
  obtain ⟨entry, hfind, rfl⟩ := h
  obtain rfl : entry.1 = place := by simpa using List.find?_some hfind
  exact List.mem_of_find?_eq_some hfind

theorem linkFree_of_nodes
    (h : ∀ entry ∈ tree.nodes, top.isPrefixOf entry.1 = true → entry.2.isLink = false) :
    tree.LinkFree top := by
  intro name below target hlink
  have hprefix : top.isPrefixOf (top ++ name :: below) = true :=
    List.isPrefixOf_iff_prefix.mpr (List.prefix_append _ _)
  exact Bool.noConfusion (h _ (mem_nodes_of_node? (by simp) hlink) hprefix)

theorem LinkFree.below (h : tree.LinkFree top) (name : String) : tree.LinkFree (top ++ [name]) := by
  intro next below target
  rw [List.append_assoc]
  exact h name (next :: below) target

theorem find?_filter_isPrefixOf (nodes : List (Place × FileNode)) (top below : Place) :
    (nodes.filter (top.isPrefixOf ·.1)).find? (·.1 == top ++ below) =
      nodes.find? (·.1 == top ++ below) := by
  rw [List.find?_filter]
  congr 1
  funext entry
  by_cases heq : entry.1 = top ++ below
  · simp [heq]
  · simp [heq]

theorem sameAt_of_nodes (h : other.nodes.filter (top.isPrefixOf ·.1) =
    tree.nodes.filter (top.isPrefixOf ·.1)) : tree.SameAt other top := by
  intro below
  rw [node?, node?, ← find?_filter_isPrefixOf other.nodes, ← find?_filter_isPrefixOf tree.nodes, h]

theorem SameAt.below (h : tree.SameAt other top) (name : String) :
    tree.SameAt other (top ++ [name]) := by
  intro below
  rw [List.append_assoc]
  exact h (name :: below)

theorem SameAt.turn_eq (h : tree.SameAt other here) (passes : Place → Bool) (name : String) :
    other.turn passes here name = tree.turn passes here name := by
  have hhere : other.node? here = tree.node? here := by simpa using h []
  rw [turn, turn, hhere, h [name]]

/-- Without links, a step that does not go up stays or goes down. -/
theorem LinkFree.turn_cases (h : tree.LinkFree here) (passes : Place → Bool) {name : String}
    (hname : name ≠ "..") :
    (∃ fault, tree.turn passes here name = .stop fault) ∨
      name = "." ∧ tree.turn passes here name = .on here ∨
      name ≠ "." ∧ tree.turn passes here name = .on (here ++ [name]) := by
  rw [turn]
  split_ifs with hdirectory hself hup hlong
  · exact .inl ⟨_, rfl⟩
  · exact .inr (.inl ⟨hself, rfl⟩)
  · exact .inl ⟨_, rfl⟩
  · exact .inl ⟨_, rfl⟩
  · split
    · exact .inl ⟨_, rfl⟩
    · next target hlink => exact absurd hlink (h name [] target)
    · exact .inr (.inr ⟨hself, rfl⟩)

/-- Without links, steps that do not go up lead down by just their names. -/
theorem LinkFree.eq_of_walk (h : tree.LinkFree here) {steps : List String} (hdown : ".." ∉ steps)
    {place : Place} (hwalk : walk tree passes beyond here steps = .ok place) :
    place = here ++ steps.filter (· != ".") := by
  induction steps generalizing here with
  | nil => simpa using (Except.ok.inj hwalk).symm
  | cons name rest ih =>
    rw [List.mem_cons, not_or] at hdown
    rw [walk_cons] at hwalk
    rcases h.turn_cases passes (Ne.symm hdown.1) with ⟨fault, hturn⟩ | ⟨rfl, hturn⟩ | ⟨hname, hturn⟩
    · rw [hturn] at hwalk
      cases hwalk
    · rw [hturn] at hwalk
      exact ih h hdown.2 hwalk
    · rw [hturn] at hwalk
      rw [ih (h.below name) hdown.2 hwalk, List.filter_cons_of_pos (by simpa using hname),
        List.append_assoc, List.singleton_append]

/-- Without links, a walk that does not go up takes no notice of anything that is not below, nor of
how many links it may pass. -/
theorem LinkFree.walk_congr {beyond' : Place → List String → Except FileFault Place}
    (h : tree.LinkFree here) (hsame : tree.SameAt other here) {steps : List String}
    (hdown : ".." ∉ steps) :
    walk other passes beyond' here steps = walk tree passes beyond here steps := by
  induction steps generalizing here with
  | nil => rfl
  | cons name rest ih =>
    rw [List.mem_cons, not_or] at hdown
    rw [walk_cons, walk_cons, hsame.turn_eq]
    rcases h.turn_cases passes (Ne.symm hdown.1) with ⟨fault, hturn⟩ | ⟨-, hturn⟩ | ⟨-, hturn⟩
    · rw [hturn]
      rfl
    · rw [hturn]
      exact ih h hsame hdown.2
    · rw [hturn]
      exact ih (h.below name) (hsame.below name) hdown.2

/-! ### Below a root -/

variable {root path : String}

theorem IsWalkable.of_join (h : IsWalkable (Path.join root path)) (hsome : root ≠ "")
    (hrelative : Path.isAbsolute path = false) : IsWalkable root := by
  obtain ⟨more, hjoin⟩ : ∃ more, Path.join root path = root ++ more := by
    obtain ⟨front, rfl | rfl, hjoin⟩ := Path.exists_join_eq hsome hrelative
    · exact ⟨_, hjoin.trans (String.append_assoc ..)⟩
    · exact ⟨_, hjoin⟩
  rw [hjoin] at h
  refine ⟨fun hnul => h.noNul ?_, hsome, lt_of_le_of_lt ?_ h.short⟩
  · rw [String.toList_append]
    exact List.mem_append_left _ hnul
  · rw [Path.byteLength_append]
    exact Nat.le_add_right _ _

theorem isWalkable_of_resolveThrough {place : Place}
    (h : tree.resolveThrough passes path = .ok place) : IsWalkable path := by
  rw [resolveThrough] at h
  split_ifs at h with hnul hempty hlong
  exact ⟨by simpa using hnul, hempty, Nat.lt_of_not_le hlong⟩

/-- Where no walk is taken, the tree does not matter. -/
theorem resolveThrough_congr (h : ¬ IsWalkable path) (tree other : FileTree)
    (passes : Place → Bool) :
    other.resolveThrough passes path = tree.resolveThrough passes path := by
  rw [resolveThrough, resolveThrough]
  split_ifs with hnul hempty hlong
  · rfl
  · rfl
  · rfl
  · exact absurd ⟨by simpa using hnul, hempty, Nat.lt_of_not_le hlong⟩ h

theorem walkLinks_outside (houtside : tree.node? here ≠ some .directory) (links : Nat)
    {steps : List String} (hsteps : steps ≠ []) :
    walkLinks tree passes links here steps = .error .notDirectory := by
  obtain ⟨name, rest, rfl⟩ := List.exists_cons_of_ne_nil hsteps
  cases links <;> exact if_pos houtside

theorem walkLinks_self (hinside : tree.node? here = some .directory) (links : Nat) :
    walkLinks tree passes links here ["."] = .ok here := by
  cases links <;> simp [walkLinks, walk, hinside]

/-- Along a path below a root, the look-up fails as it does at the root, or goes on from where the
root leads. -/
theorem resolveThrough_join (hwalkable : IsWalkable (Path.join root path)) (hsome : root ≠ "")
    (hrelative : Path.isAbsolute path = false) (hnames : Path.names path ≠ []) (tree : FileTree)
    (passes : Place → Bool) :
    (∀ fault, tree.resolveThrough passes root = .error fault →
      tree.resolveThrough passes (Path.join root path) = .error fault) ∧
    ∀ top, tree.resolveThrough passes root = .ok top → ∃ links,
      tree.resolveThrough passes (Path.join root path) =
        walkLinks tree passes links top (Path.steps path) := by
  have hpath : path ≠ "" := by
    rintro rfl
    exact hnames rfl
  rw [resolveThrough_eq hwalkable, resolveThrough_eq (hwalkable.of_join hsome hrelative),
    Path.steps_join hsome hrelative hpath]
  obtain ⟨hfails, hleads⟩ := goesOn_walkLinks tree passes maxLinks [] (Path.names root)
  rcases Path.steps_eq_or root with hopen | hclosed
  · rw [hopen]
    refine ⟨fun fault h => hfails fault h _, fun top h => ?_⟩
    obtain ⟨links, honward⟩ := hleads top h
    exact ⟨links, honward _⟩
  -- The point after the slash at the end keeps nothing but a directory.
  · rw [hclosed]
    cases hroot : walkLinks tree passes maxLinks [] (Path.names root) with
    | error fault =>
      rw [hfails fault hroot, hfails fault hroot]
      exact ⟨fun _ h => h, nofun⟩
    | ok place =>
      obtain ⟨links, honward⟩ := hleads place hroot
      rw [honward, honward]
      by_cases hinside : tree.node? place = some .directory
      · rw [walkLinks_self hinside]
        refine ⟨nofun, fun top h => ⟨links, ?_⟩⟩
        rw [Except.ok.inj h]
      · rw [walkLinks_outside hinside links (by simp),
          walkLinks_outside hinside links (Path.steps_ne_nil hnames)]
        exact ⟨fun _ h => h, nofun⟩

theorem resolve_of_resolveThrough {place : Place}
    (h : tree.resolveThrough passes path = .ok place) : tree.resolve path = .ok place := by
  have hwalkable := isWalkable_of_resolveThrough h
  rw [resolveThrough_eq hwalkable] at h
  rw [resolve, resolveThrough_eq hwalkable]
  exact walkLinks_all h

theorem exists_walkLinks_eq (tree : FileTree) (passes : Place → Bool) (links : Nat) :
    ∃ beyond, walkLinks tree passes links = walk tree passes beyond := by
  cases links <;> exact ⟨_, rfl⟩

/-- There is no link below where a root leads. -/
def PlainBelow (tree : FileTree) (root : String) : Prop :=
  ∀ top, tree.resolve root = .ok top → tree.LinkFree top

/-- A path that leads downwards from a root without links leads to a place below it. -/
theorem place_eq_of_join (hsome : root ≠ "") (hplain : tree.PlainBelow root)
    (hdown : Path.Downward path) {place : Place}
    (h : tree.resolveThrough passes (Path.join root path) = .ok place) :
    ∃ top, tree.resolveThrough passes root = .ok top ∧ place = top ++ Path.plainNames path := by
  obtain ⟨hfails, hleads⟩ := resolveThrough_join (isWalkable_of_resolveThrough h) hsome
    hdown.relative hdown.names_ne_nil tree passes
  cases hroot : tree.resolveThrough passes root with
  | error fault =>
    rw [hfails fault hroot] at h
    cases h
  | ok top =>
    obtain ⟨links, honward⟩ := hleads top hroot
    obtain ⟨beyond, hwalk⟩ := exists_walkLinks_eq tree passes links
    rw [honward, hwalk] at h
    refine ⟨top, rfl, ?_⟩
    rw [(hplain top (resolve_of_resolveThrough hroot)).eq_of_walk hdown.noUp h, Path.filter_steps]

/-- Two trees that are the same to who starts at a root and goes down: it leads to the same in both,
and they are the same there and below. -/
structure SameBelow (tree other : FileTree) (passes : Place → Bool) (root : String) : Prop where
  resolved : other.resolveThrough passes root = tree.resolveThrough passes root
  same : ∀ top, tree.resolveThrough passes root = .ok top → tree.SameAt other top

/-- What lies elsewhere is not noticed. -/
theorem SameBelow.resolveThrough_join (hsame : tree.SameBelow other passes root) (hsome : root ≠ "")
    (hplain : tree.PlainBelow root) (hdown : Path.Downward path) :
    other.resolveThrough passes (Path.join root path) =
      tree.resolveThrough passes (Path.join root path) := by
  by_cases hwalkable : IsWalkable (Path.join root path)
  · obtain ⟨hfails, hleads⟩ := FileTree.resolveThrough_join hwalkable hsome hdown.relative
      hdown.names_ne_nil tree passes
    obtain ⟨hfails', hleads'⟩ := FileTree.resolveThrough_join hwalkable hsome hdown.relative
      hdown.names_ne_nil other passes
    cases hroot : tree.resolveThrough passes root with
    | error fault => rw [hfails fault hroot, hfails' fault (hsame.resolved.trans hroot)]
    | ok top =>
      obtain ⟨links, honward⟩ := hleads top hroot
      obtain ⟨links', honward'⟩ := hleads' top (hsame.resolved.trans hroot)
      obtain ⟨beyond, hwalk⟩ := exists_walkLinks_eq tree passes links
      obtain ⟨beyond', hwalk'⟩ := exists_walkLinks_eq other passes links'
      rw [honward, honward', hwalk, hwalk']
      exact (hplain top (resolve_of_resolveThrough hroot)).walk_congr (hsame.same top hroot)
        hdown.noUp
  · exact resolveThrough_congr hwalkable tree other passes

end FileTree

end Understudy
