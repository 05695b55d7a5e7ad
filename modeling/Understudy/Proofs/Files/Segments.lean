import Mathlib.Data.List.Flatten
import Understudy.Proofs.Files.Naming

/-!
The segments of a path: what stands between its slashes, be it nothing at all. An empty segment is
no step, and a point before a further name takes a walk nowhere. So a path that leads downwards to a
file leads there as well when it is rid of both, and the only ones that do harm stand first or last.
Main statement: `file?_join_iff`.
-/

namespace Understudy

namespace Path

variable {path tidy segment : String}

/-- What stands between the slashes of a path. -/
def segments (path : String) : List String := Pieces.ofString '/' path

/-- A segment that names nothing: it is empty or a point. -/
def isIdle (segment : String) : Bool := segment == "" || segment == "."

/-- The first segment names something. -/
def BeginsWithName (path : String) : Prop :=
  ∀ segment, (segments path).head? = some segment → isIdle segment = false

/-- The last segment names something. -/
def EndsWithName (path : String) : Prop :=
  ∀ segment, (segments path).getLast? = some segment → isIdle segment = false

theorem isIdle_eq_false_iff : isIdle segment = false ↔ segment ≠ "" ∧ segment ≠ "." := by
  simp [isIdle]

theorem plainNames_eq (path : String) : plainNames path = (segments path).filter (!isIdle ·) := by
  rw [plainNames, names, ← segments, List.filter_filter]
  refine List.filter_congr fun segment _ => ?_
  rw [isIdle, Bool.not_or, Bool.and_comm]
  rfl

theorem segments_ne_nil (path : String) : segments path ≠ [] := by
  rw [segments, Pieces.ofString, Ne, List.map_eq_nil_iff]
  exact Pieces.cut_ne_nil '/' path.toList

theorem isCut_segments (path : String) :
    Pieces.IsCut '/' path.toList ((segments path).map String.toList) := by
  have hback : (segments path).map String.toList = Pieces.cut '/' path.toList := by
    rw [segments, Pieces.ofString, List.map_map]
    simp [Function.comp_def]
  rw [hback]
  exact Pieces.isCut_cut '/' path.toList

theorem notMem_of_mem_segments (h : segment ∈ segments path) : '/' ∉ segment.toList :=
  (isCut_segments path).unmarked _ (List.mem_map_of_mem h)

/-- With slashes between them, the segments are the path. -/
theorem intercalate_segments (path : String) : "/".intercalate (segments path) = path := by
  rw [← String.toList_inj, String.toList_intercalate]
  exact (isCut_segments path).joined

theorem segments_intercalate {l : List String} (hsome : l ≠ [])
    (h : ∀ segment ∈ l, '/' ∉ segment.toList) : segments ("/".intercalate l) = l := by
  have hcut : Pieces.IsCut '/' ("/".intercalate l).toList (l.map String.toList) := by
    rw [String.toList_intercalate]
    exact ⟨by simpa using hsome, rfl, List.forall_mem_map.mpr h⟩
  rw [segments, Pieces.ofString, ← hcut.eq_cut, List.map_map]
  simp [Function.comp_def]

/-! ### The first segment -/

theorem isAbsolute_of_segments {rest : List String} (h : segments path = "" :: rest)
    (hsome : path ≠ "") : isAbsolute path = true := by
  have hpath := intercalate_segments path
  rw [h] at hpath
  cases rest with
  | nil => exact absurd (hpath.symm.trans String.intercalate_singleton) hsome
  | cons next rest =>
    rw [← hpath, isAbsolute, String.toList_intercalate, List.map_cons, List.map_cons,
      List.intercalate_cons_cons]
    rfl

theorem head?_segments_of_isAbsolute (h : isAbsolute path = true) :
    (segments path).head? = some "" := by
  obtain ⟨rest, hpath⟩ : ∃ rest, path.toList = '/' :: rest := by
    rw [isAbsolute, beq_iff_eq, List.head?_eq_some_iff] at h
    exact h
  rw [segments, Pieces.ofString, hpath, Pieces.cut_cons_self]
  rfl

theorem head?_names_of_segments {first : String} {rest : List String}
    (h : segments path = first :: rest) (hsome : first ≠ "") :
    (names path).head? = some first := by
  rw [names, ← segments, h, List.filter_cons_of_pos (by simpa using hsome), List.head?_cons]

theorem BeginsWithName.ne_empty (h : BeginsWithName path) : path ≠ "" := by
  rintro rfl
  cases h "" rfl

theorem BeginsWithName.relative (h : BeginsWithName path) : isAbsolute path = false := by
  rw [← Bool.not_eq_true]
  intro habsolute
  cases h "" (head?_segments_of_isAbsolute habsolute)

/-- A path leads downwards just if it begins with a name and never goes up. -/
theorem isDownward_iff :
    isDownward path = true ↔ BeginsWithName path ∧ ".." ∉ segments path := by
  obtain ⟨first, rest, hsegments⟩ := List.exists_cons_of_ne_nil (segments_ne_nil path)
  have hfirst : (segments path).head? = some first := by rw [hsegments, List.head?_cons]
  have hup : ".." ∈ plainNames path ↔ ".." ∈ segments path := by
    rw [plainNames_eq, List.mem_filter]
    exact and_iff_left rfl
  have hdownward : isDownward path = true ↔ isAbsolute path = false ∧
      (names path).head? ≠ some "." ∧ plainNames path ≠ [] ∧ ".." ∉ segments path := by
    rw [← hup, isDownward, ← plainNames]
    simp [and_assoc]
  rw [hdownward]
  constructor
  · rintro ⟨hrelative, hpoint, hnamed, hnoUp⟩
    refine ⟨fun segment hsegment => ?_, hnoUp⟩
    obtain rfl : first = segment := Option.some.inj (hfirst.symm.trans hsegment)
    have hempty : first ≠ "" := by
      rintro rfl
      have hpath : path ≠ "" := by
        rintro rfl
        exact hnamed rfl
      rw [isAbsolute_of_segments hsegments hpath] at hrelative
      cases hrelative
    refine isIdle_eq_false_iff.mpr ⟨hempty, fun hself => hpoint ?_⟩
    rw [head?_names_of_segments hsegments hempty, hself]
  · rintro ⟨hbegins, hnoUp⟩
    have hname := hbegins first hfirst
    obtain ⟨hempty, hself⟩ := isIdle_eq_false_iff.mp hname
    refine ⟨hbegins.relative, ?_, ?_, hnoUp⟩
    · rw [head?_names_of_segments hsegments hempty]
      exact fun hpoint => hself (Option.some.inj hpoint)
    · rw [plainNames_eq, hsegments, List.filter_cons_of_pos (by simpa using hname)]
      exact List.cons_ne_nil _ _

/-! ### The last segment -/

/-- A path ends in a slash just if its last segment is empty. -/
theorem getLast?_eq_slash_iff {front : List String} {last : String}
    (h : segments path = front ++ [last]) (hsome : path ≠ "") :
    path.toList.getLast? = some '/' ↔ last = "" := by
  have hpath : "/".intercalate (front ++ [last]) = path := h ▸ intercalate_segments path
  have hmem : last ∈ segments path := by
    rw [h]
    exact List.mem_concat_self
  by_cases hfront : front = []
  · subst hfront
    rw [List.nil_append, String.intercalate_singleton] at hpath
    subst hpath
    refine iff_of_false (fun hslash => ?_) hsome
    exact notMem_of_mem_segments hmem (List.mem_of_getLast? hslash)
  · rw [String.intercalate_append_of_ne_nil hfront (List.cons_ne_nil _ _),
      String.intercalate_singleton] at hpath
    rw [← hpath]
    by_cases hempty : last = ""
    · simp [hempty]
    · have hlast : last.toList ≠ [] := fun hnil => hempty (String.toList_eq_nil_iff.mp hnil)
      rw [String.toList_append, List.getLast?_append_of_ne_nil _ hlast]
      refine iff_of_false (fun hslash => ?_) hempty
      exact notMem_of_mem_segments hmem (List.mem_of_getLast? hslash)

/-- A path asks for a point at its end unless it ends with a name. -/
theorem getLast?_steps_ne_point_iff (hsome : path ≠ "") :
    (steps path).getLast? ≠ some "." ↔ EndsWithName path := by
  obtain ⟨front, last, hsegments⟩ :=
    (List.eq_nil_or_concat' (segments path)).resolve_left (segments_ne_nil path)
  have hslash := getLast?_eq_slash_iff hsegments hsome
  have hends : EndsWithName path ↔ last ≠ "" ∧ last ≠ "." := by
    simp [EndsWithName, hsegments, isIdle_eq_false_iff]
  rw [hends, steps]
  by_cases hempty : last = ""
  · rw [if_pos (by simpa using hslash.mpr hempty), List.getLast?_concat]
    exact iff_of_false (fun h => h rfl) fun h => h.1 hempty
  · rw [if_neg (by simpa using mt hslash.mp hempty), names, ← segments, hsegments,
      List.filter_append, List.filter_cons_of_pos (by simpa using hempty)]
    simp [hempty]

/-! ### Without the idle segments -/

/-- The other path has the segments of the path that name something. -/
def IsTidied (path tidy : String) : Prop :=
  segments tidy = (segments path).filter (!isIdle ·)

theorem exists_isTidied (h : plainNames path ≠ []) : ∃ tidy, IsTidied path tidy := by
  refine ⟨"/".intercalate (plainNames path), ?_⟩
  rw [IsTidied, ← plainNames_eq]
  refine segments_intercalate h fun segment hsegment => ?_
  rw [plainNames_eq] at hsegment
  exact notMem_of_mem_segments (List.mem_of_mem_filter hsegment)

namespace IsTidied

variable (h : IsTidied path tidy)
include h

theorem isIdle_eq_false (hsegment : segment ∈ segments tidy) : isIdle segment = false := by
  rw [h] at hsegment
  simpa using List.of_mem_filter hsegment

theorem beginsWithName : BeginsWithName tidy := fun _ hfirst =>
  h.isIdle_eq_false (List.mem_of_head? hfirst)

theorem endsWithName : EndsWithName tidy := fun _ hlast =>
  h.isIdle_eq_false (List.mem_of_getLast? hlast)

/-- The steps of the other path are the names. -/
theorem steps_eq : steps tidy = plainNames path := by
  have hnames : names tidy = plainNames path := by
    rw [plainNames_eq, ← h, names, ← segments, List.filter_eq_self]
    exact fun segment hsegment => by
      simpa using (isIdle_eq_false_iff.mp (h.isIdle_eq_false hsegment)).1
  rcases steps_eq_or tidy with heq | heq
  · rw [heq, hnames]
  · refine absurd ?_ ((getLast?_steps_ne_point_iff h.beginsWithName.ne_empty).mpr h.endsWithName)
    rw [heq, List.getLast?_concat]

theorem isDownward (hup : ".." ∉ segments path) : isDownward tidy = true := by
  refine isDownward_iff.mpr ⟨h.beginsWithName, fun hmem => hup ?_⟩
  rw [h] at hmem
  exact List.mem_of_mem_filter hmem

theorem sublist : tidy.toList.Sublist path.toList := by
  rw [← intercalate_segments tidy, ← intercalate_segments path, h, String.toList_intercalate,
    String.toList_intercalate]
  exact Pieces.intercalate_sublist _ (List.filter_sublist.map _)

/-- No character but points and slashes is left out. -/
theorem mem_of_mem {c : Char} (hc : c ∈ path.toList) (hslash : c ≠ '/') (hpoint : c ≠ '.') :
    c ∈ tidy.toList := by
  obtain ⟨segment, hsegment, hmem⟩ : ∃ segment ∈ segments path, c ∈ segment.toList := by
    rcases (isCut_segments path).mem_piece_or_eq hc with ⟨piece, hpiece, hmem⟩ | heq
    · obtain ⟨segment, hsegment, rfl⟩ := List.mem_map.mp hpiece
      exact ⟨segment, hsegment, hmem⟩
    · exact absurd heq hslash
  have hname : isIdle segment = false := by
    rw [isIdle_eq_false_iff]
    refine ⟨?_, ?_⟩
    · rintro rfl
      cases hmem
    · rintro rfl
      exact hpoint (List.mem_singleton.mp hmem)
  have hkept : segment ∈ segments tidy := by
    rw [h]
    exact List.mem_filter.mpr ⟨hsegment, by simpa using hname⟩
  exact (isCut_segments tidy).mem_of_mem_piece (List.mem_map_of_mem hkept) hmem

end IsTidied

/-! ### Below another path -/

/-- Relative paths are put behind one and the same text. -/
theorem exists_join_front (base : String) :
    ∃ front, ∀ path, isAbsolute path = false → join base path = front ++ path := by
  by_cases hslash : base.toList.getLast?.any (· != '/') = true
  · exact ⟨base ++ "/", fun path h => by rw [join, if_neg (by simp [h]), if_pos hslash]⟩
  · exact ⟨base, fun path h => by rw [join, if_neg (by simp [h]), if_neg hslash]⟩

theorem steps_join_of_relative (base : String) (hrelative : isAbsolute path = false)
    (hsome : path ≠ "") : steps (join base path) = names base ++ steps path := by
  by_cases hbase : base = ""
  · subst hbase
    rw [join, if_neg (by simp [hrelative])]
    exact congrArg steps (String.empty_append)
  · exact steps_join hbase hrelative hsome

end Path

namespace FileTree

variable {tree : FileTree} {passes : Place → Bool} {here place : Place} {root path tidy : String}
  {beyond : Place → List String → Except FileFault Place}

/-! ### Walks past points -/

/-- Walking this way, points before a further name may be left out behind whatever steps. Where a
link is passed, the steps of its target come in front, and keep theirs. -/
def SparesPoints (onward : Place → List String → Except FileFault Place) : Prop :=
  ∀ here front rest, rest.getLast? ≠ some "." →
    onward here (front ++ rest.filter (· != ".")) = onward here (front ++ rest)

theorem walk_point (inside : tree.node? here = some .directory) (rest : List String) :
    walk tree passes beyond here ("." :: rest) = walk tree passes beyond here rest := by
  rw [walk, if_neg (not_not.mpr inside), if_pos rfl]

theorem walk_outside (outside : tree.node? here ≠ some .directory) {steps : List String}
    (hsteps : steps ≠ []) : walk tree passes beyond here steps = .error .notDirectory := by
  obtain ⟨name, rest, rfl⟩ := List.exists_cons_of_ne_nil hsteps
  rw [walk, if_pos outside]

theorem filter_ne_nil_of_getLast? {rest : List String} (hsome : rest ≠ [])
    (hlast : rest.getLast? ≠ some ".") : rest.filter (· != ".") ≠ [] := by
  have heq := List.getLast?_eq_some_getLast hsome
  have hname : rest.getLast hsome ≠ "." := fun hpoint => hlast (hpoint ▸ heq)
  exact List.ne_nil_of_mem (List.mem_filter.mpr ⟨List.getLast_mem hsome, by simpa using hname⟩)

/-- By induction on the steps. A point is left out where a name comes after it, which asks for a
directory as well. -/
theorem walk_filter (hbeyond : SparesPoints beyond) {rest : List String}
    (hlast : rest.getLast? ≠ some ".") :
    walk tree passes beyond here (rest.filter (· != ".")) = walk tree passes beyond here rest := by
  induction rest generalizing here with
  | nil => rfl
  | cons name rest ih =>
    have hrest : rest.getLast? ≠ some "." := fun h => hlast (by rw [List.getLast?_cons, h]; rfl)
    by_cases hpoint : name = "."
    · subst hpoint
      have hsome : rest ≠ [] := by
        rintro rfl
        exact hlast rfl
      rw [List.filter_cons_of_neg (by simp)]
      by_cases inside : tree.node? here = some .directory
      · rw [walk_point inside, ih hrest]
      · rw [walk_outside inside (filter_ne_nil_of_getLast? hsome hrest),
          walk_outside inside (List.cons_ne_nil _ _)]
    · rw [List.filter_cons_of_pos (by simpa using hpoint), walk_cons, walk_cons]
      cases tree.turn passes here name with
      | stop fault => rfl
      | on next => exact ih hrest
      | through next steps => exact hbeyond next steps rest hrest

theorem sparesPoints_walk (hbeyond : SparesPoints beyond) :
    SparesPoints (walk tree passes beyond) := by
  intro here front rest hlast
  induction front generalizing here with
  | nil => exact walk_filter hbeyond hlast
  | cons name front ih =>
    rw [List.cons_append, List.cons_append, walk_cons, walk_cons]
    cases tree.turn passes here name with
    | stop fault => rfl
    | on next => exact ih next
    | through next steps =>
      have hthrough := hbeyond next (steps ++ front) rest hlast
      rwa [List.append_assoc, List.append_assoc] at hthrough

/-- By induction on the links that may still be passed. -/
theorem sparesPoints_walkLinks (tree : FileTree) (passes : Place → Bool) (links : Nat) :
    SparesPoints (walkLinks tree passes links) := by
  induction links with
  | zero => exact sparesPoints_walk fun _ _ _ _ => rfl
  | succ links ih => exact sparesPoints_walk ih

/-- Where a walk ends with a point, there is a directory. -/
theorem node?_of_walkLinks_point {links : Nat} {front : List String}
    (h : walkLinks tree passes links here (front ++ ["."]) = .ok place) :
    tree.node? place = some .directory := by
  obtain ⟨hfails, hleads⟩ := goesOn_walkLinks tree passes links here front
  cases hfront : walkLinks tree passes links here front with
  | error fault =>
    rw [hfails fault hfront] at h
    cases h
  | ok next =>
    obtain ⟨left, honward⟩ := hleads next hfront
    rw [honward] at h
    by_cases inside : tree.node? next = some .directory
    · rw [walkLinks_self inside] at h
      rw [← Except.ok.inj h, inside]
    · rw [walkLinks_outside inside left (List.cons_ne_nil _ _)] at h
      cases h

/-! ### Files below a root -/

/-- A path that leads to a file ends with a name. -/
theorem endsWithName_of_file? (hbegins : Path.BeginsWithName path)
    (h : tree.file? (Path.join root path) = some place) : Path.EndsWithName path := by
  rw [← Path.getLast?_steps_ne_point_iff hbegins.ne_empty]
  intro hpoint
  obtain ⟨hresolve, ⟨content, hfile⟩, -⟩ := file?_eq_some_iff.mp h
  obtain ⟨front, hsteps⟩ := List.getLast?_eq_some_iff.mp hpoint
  rw [resolve, resolveThrough_eq (isWalkable_of_resolveThrough hresolve),
    Path.steps_join_of_relative root hbegins.relative hbegins.ne_empty, hsteps,
    ← List.append_assoc] at hresolve
  rw [node?_of_walkLinks_point hresolve] at hfile
  cases hfile

section Tidied

variable (htidy : Path.IsTidied path tidy) (hbegins : Path.BeginsWithName path)
include htidy hbegins

/-- A path is walked along just if it is short, and is walked along without the idle segments. -/
theorem isWalkable_join_iff : IsWalkable (Path.join root path) ↔
    Path.byteLength (Path.join root path) < maxPathLength ∧ IsWalkable (Path.join root tidy) := by
  obtain ⟨front, hfront⟩ := Path.exists_join_front root
  have hpath := hfront path hbegins.relative
  have htidied := hfront tidy htidy.beginsWithName.relative
  have hless : (Path.join root tidy).toList.Sublist (Path.join root path).toList := by
    rw [hpath, htidied, String.toList_append, String.toList_append]
    exact (List.Sublist.refl _).append htidy.sublist
  constructor
  · intro h
    have hshort : Path.byteLength (Path.join root tidy) ≤ Path.byteLength (Path.join root path) :=
      (hless.flatMap String.utf8EncodeChar).length_le
    exact ⟨h.short, fun hnul => h.noNul (hless.subset hnul),
      Path.join_ne_empty htidy.beginsWithName.ne_empty, Nat.lt_of_le_of_lt hshort h.short⟩
  · rintro ⟨hshort, h⟩
    refine ⟨fun hnul => h.noNul ?_, Path.join_ne_empty hbegins.ne_empty, hshort⟩
    rw [hpath, String.toList_append] at hnul
    rw [htidied, String.toList_append]
    rcases List.mem_append.mp hnul with hbefore | hbehind
    · exact List.mem_append_left _ hbefore
    · exact List.mem_append_right _ (htidy.mem_of_mem hbehind (by decide) (by decide))

/-- Without its idle segments a path leads to the same, unless it ends in one. -/
theorem resolveThrough_tidied (hwalkable : IsWalkable (Path.join root path))
    (hends : Path.EndsWithName path) :
    tree.resolveThrough passes (Path.join root tidy) =
      tree.resolveThrough passes (Path.join root path) := by
  have hopen := (Path.getLast?_steps_ne_point_iff hbegins.ne_empty).mpr hends
  rw [resolveThrough_eq hwalkable,
    resolveThrough_eq ((isWalkable_join_iff htidy hbegins).mp hwalkable).2,
    Path.steps_join_of_relative root hbegins.relative hbegins.ne_empty,
    Path.steps_join_of_relative root htidy.beginsWithName.relative htidy.beginsWithName.ne_empty,
    htidy.steps_eq, ← Path.filter_steps]
  exact sparesPoints_walkLinks tree passes maxLinks [] (Path.names root) (Path.steps path) hopen

/-- A path below a root leads to a file just if it ends with a name, it is short, and it leads to
the file without its idle segments. -/
theorem file?_join_iff : tree.file? (Path.join root path) = some place ↔
    Path.EndsWithName path ∧ Path.byteLength (Path.join root path) < maxPathLength ∧
      tree.file? (Path.join root tidy) = some place := by
  have hwalkable {p : String} (h : tree.file? p = some place) : IsWalkable p :=
    isWalkable_of_resolveThrough (file?_eq_some_iff.mp h).1
  have hsame (h : IsWalkable (Path.join root path)) (hends : Path.EndsWithName path) :
      tree.file? (Path.join root tidy) = tree.file? (Path.join root path) := by
    rw [file?, file?, resolveThrough_tidied htidy hbegins h hends]
  constructor
  · intro h
    have hends := endsWithName_of_file? hbegins h
    exact ⟨hends, (hwalkable h).short, (hsame (hwalkable h) hends).trans h⟩
  · rintro ⟨hends, hshort, h⟩
    have hjoined := (isWalkable_join_iff htidy hbegins).mpr ⟨hshort, hwalkable h⟩
    exact (hsame hjoined hends).symm.trans h

end Tidied

end FileTree

end Understudy
