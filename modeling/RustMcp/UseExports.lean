import RustMcp.UseTrees

/-! The exports of a use statement in a module file: what Rust's leaves are called and stand
for there, what the source scan of `crate_re_exports` makes of them, and where both agree. -/
namespace RustMcp.UseExports
open Str ReExports Splitting UseTrees

/-- `crate::` is the crate's root and `self::` the module itself; other paths stay as they are. -/
def resolve (crateName : Ident) (modules : List Ident) : List Ident → List Ident
  | first::next::rest =>
      if first = crateIdent then crateName::next::rest
      else if first = selfIdent then crateName::(modules ++ next::rest)
      else first::next::rest
  | path => path

structure Export where
  name : Text
  canonicalPath : Text
  target : Text
  deriving DecidableEq

def exported (crateName : Ident) (modules : List Ident) (leaf : Leaf) : Export :=
  ⟨leaf.name.val,pathText (crateName::modules ++ [leaf.name]),pathText (resolve crateName modules leaf.path)⟩

inductive ModuleFile where
  | root
  | dir (dirs : List Ident) (some_ : dirs ≠ [])
  | file (dirs : List Ident) (name : Ident) (other : name.val ≠ "mod".toList ∧ (dirs = [] → name.val ≠ "lib".toList))

def filePath (dirs : List Ident) (fileName : Text) : Text := "src/".toList ++ join "/".toList (dirs.map Ident.val ++ [fileName])

def ModuleFile.path : ModuleFile → Text
  | .root => "src/lib.rs".toList
  | .dir dirs _ => filePath dirs "mod.rs".toList
  | .file dirs name _ => filePath dirs (name.val ++ ".rs".toList)

def ModuleFile.dirs : ModuleFile → List Ident
  | .root => []
  | .dir dirs _ => dirs
  | .file dirs _ _ => dirs

def ModuleFile.modules : ModuleFile → List Ident
  | .root => []
  | .dir dirs _ => dirs
  | .file dirs name _ => dirs ++ [name]

/-- A statement on a line of its own, indented or not, with a comment behind it or none. -/
structure Statement where
  tree : UseTree
  valid : tree.Valid []
  indent : Text
  blank : ∀ c ∈ indent, isWhiteSpace c = true
  comment : Option Text

def Statement.line (statement : Statement) : Text :=
  statement.indent ++ ("pub use ".toList ++ (statement.tree.text ++ ';'::behind statement.comment))

/-- What the scan makes of a line: the names and paths of its entries. -/
def scanned (crateName : Text) (file : ModuleFile) (line : Text) (lineNo : Nat) : List Export :=
  (parsePubUseStatement line lineNo).map fun entry =>
    ⟨entry.exportedName,modulePrefixFromPath crateName file.path ++ "::".toList ++ entry.exportedName,
      normalizeTargetPath crateName entry.targetPath⟩

/-- The scan's own entries have these paths. -/
theorem scannedEntries {lower : Text → Text} {D : Type} (data : Data lower D) (crateName : Text) (version : Nat) (file : ModuleFile)
    (line : Text) (lineNo : Nat) :
    ((parsePubUseStatement line lineNo).filterMap (scannedEntry data crateName version none file.path)).map
      (fun entry => (entry.canonicalPath,entry.originalDefinitionPath)) =
        (scanned crateName file line lineNo).map fun made => (made.canonicalPath,made.target) := by
  rw [scanned,List.map_map,List.map_filterMap,← List.filterMap_eq_map]
  exact congrArg (List.filterMap · _) (funext fun entry => rfl)

/-! The file. -/

def srcIdent : Ident := ⟨"src".toList,by decide,rfl⟩

/-- The modules that the scan takes a file for: directories named `src` are dropped from its path. -/
def ModuleFile.scannedModules : ModuleFile → List Ident
  | .root => []
  | .dir dirs _ => dirs.dropWhile (· = srcIdent)
  | .file dirs name _ => dirs.dropWhile (· = srcIdent) ++ [name]

theorem fileRead (crateName : Text) (dirs : List Ident) {fileName : Text} (clean : '/' ∉ fileName)
    (other : dirs = [] → fileName ≠ "lib.rs".toList) :
    modulePrefixFromPath crateName (filePath dirs fileName) =
      let kept := (dirs.dropWhile (· = srcIdent)).map Ident.val
      let filtered := (if fileName = "mod.rs".toList then kept else kept ++ [(stripSuffix ".rs".toList fileName).getD fileName]).filter (· ≠ [])
      if filtered = [] then crateName else crateName ++ "::".toList ++ join "::".toList filtered := by
  have all : ∀ part ∈ dirs.map Ident.val ++ [fileName], '/' ∉ part := by
    intro part mem
    rcases List.mem_append.mp mem with inside | last
    · obtain ⟨dir,-,rfl⟩ := List.mem_map.mp inside
      exact dir.lacks rfl
    · rwa [List.mem_singleton.mp last]
  have relative : trimStartMatches "./".toList (filePath dirs fileName) = filePath dirs fileName :=
    trimStartBare (stripPrefixOther (by decide) _ _)
  have notRoot : filePath dirs fileName ≠ "src/lib.rs".toList := by
    intro same
    have tails : join "/".toList (dirs.map Ident.val ++ [fileName]) = join "/".toList ["lib.rs".toList] := List.append_cancel_left same
    have parts := congrArg (split "/".toList) tails
    rw [show "/".toList = ['/'] from rfl,splitJoin '/' [] (by simp) all,splitJoin '/' [] (by simp) (by decide)] at parts
    cases dirs with
    | nil => exact other rfl (List.cons.inj parts).1
    | cons dir dirs => simpa using congrArg List.length parts
  have dropped : trimStartMatches "src/".toList (filePath dirs fileName) =
      join "/".toList ((dirs.dropWhile (· = srcIdent)).map Ident.val ++ [fileName]) := by
    have whole : filePath dirs fileName = join "/".toList ("src".toList::dirs.map Ident.val ++ [fileName]) := by
      cases dirs <;> (rw [List.map,List.cons_append]; exact (joinCons "/".toList "src".toList _ _).symm)
    have inside : ∀ part ∈ "src".toList::dirs.map Ident.val ++ [fileName], '/' ∉ part := by
      rw [List.cons_append,List.forall_mem_cons]
      exact ⟨by decide,all⟩
    have same : (dirs.map Ident.val).dropWhile (· = "src".toList) = (dirs.dropWhile (· = srcIdent)).map Ident.val := by
      rw [List.dropWhile_map]
      refine congrArg (fun p => (dirs.dropWhile p).map Ident.val) (funext fun dir => ?_)
      exact decide_eq_decide.mpr ⟨fun same => identEq same,fun same => by rw [same]; rfl⟩
    have trimmed : trimStartMatches "src/".toList (join "/".toList ("src".toList::dirs.map Ident.val ++ [fileName])) =
        join "/".toList (("src".toList::dirs.map Ident.val).dropWhile (· = "src".toList) ++ [fileName]) :=
      headTrimmed (show '/' ∉ "src".toList by decide) inside
    rw [whole,trimmed,List.dropWhile_cons_of_pos (by decide),same]
  have kept : ∀ part ∈ (dirs.dropWhile (· = srcIdent)).map Ident.val ++ [fileName], '/' ∉ part := by
    intro part mem
    refine all part ?_
    rcases List.mem_append.mp mem with inside | last
    · exact List.mem_append_left _ (((List.dropWhile_sublist _).map _).subset inside)
    · exact List.mem_append_right _ last
  have parts : split "/".toList (join "/".toList ((dirs.dropWhile (· = srcIdent)).map Ident.val ++ [fileName])) =
      (dirs.dropWhile (· = srcIdent)).map Ident.val ++ [fileName] := splitJoin '/' [] (by simp) kept
  unfold modulePrefixFromPath
  simp only [relative,notRoot,dropped,parts,List.getLast?_concat,List.dropLast_concat]
  rfl

theorem prefixOf (crateName : Ident) (modules : List Ident) :
    (if (modules.map Ident.val).filter (· ≠ []) = [] then crateName.val
      else crateName.val ++ "::".toList ++ join "::".toList ((modules.map Ident.val).filter (· ≠ []))) =
      pathText (crateName::modules) := by
  have all : (modules.map Ident.val).filter (· ≠ []) = modules.map Ident.val := by
    refine List.filter_eq_self.mpr fun part mem => ?_
    obtain ⟨module_,-,rfl⟩ := List.mem_map.mp mem
    simpa using module_.some_
  rw [all]
  cases modules with
  | nil => exact (pathSingle crateName).symm
  | cons first rest => rw [if_neg (by simp),List.append_assoc]; exact (pathCons _ _ _).symm

theorem moduleRead (crateName : Ident) (file : ModuleFile) :
    modulePrefixFromPath crateName.val file.path = pathText (crateName::file.scannedModules) := by
  cases file with
  | root =>
    have relative : trimStartMatches "./".toList "src/lib.rs".toList = "src/lib.rs".toList := by decide
    change modulePrefixFromPath crateName.val "src/lib.rs".toList = pathText [crateName]
    rw [pathSingle]
    unfold modulePrefixFromPath
    rw [relative]
    exact if_pos rfl
  | dir dirs some_ =>
    have made := prefixOf crateName (dirs.dropWhile (· = srcIdent))
    change modulePrefixFromPath crateName.val (filePath dirs "mod.rs".toList) = _
    rw [fileRead crateName.val dirs (by decide) fun none_ => absurd none_ some_]
    simp only [if_true]
    exact made
  | file dirs name other =>
    have clean : '/' ∉ name.val ++ ".rs".toList := by
      simp only [List.mem_append,not_or]
      exact ⟨name.lacks rfl,by decide⟩
    have lib : dirs = [] → name.val ++ ".rs".toList ≠ "lib.rs".toList := by
      intro none_ same
      rw [show "lib.rs".toList = "lib".toList ++ ".rs".toList by decide] at same
      exact other.2 none_ (List.append_cancel_right same)
    have notMod : name.val ++ ".rs".toList ≠ "mod.rs".toList := by
      intro same
      rw [show "mod.rs".toList = "mod".toList ++ ".rs".toList by decide] at same
      exact other.1 (List.append_cancel_right same)
    have made := prefixOf crateName (dirs.dropWhile (· = srcIdent) ++ [name])
    rw [List.map_append] at made
    change modulePrefixFromPath crateName.val (filePath dirs (name.val ++ ".rs".toList)) = _
    rw [fileRead crateName.val dirs clean lib]
    simp only [if_neg notMod,stripSuffixAppend]
    exact made

/-! Exports. -/

/-- What the scan makes of a leaf that it reads. -/
def made (crateName : Ident) (file : ModuleFile) (leaf : Leaf) : Export :=
  ⟨leaf.name.val,pathText (crateName::file.scannedModules ++ [leaf.name]),pathText (rootResolved crateName leaf.path)⟩

theorem exportMade (crateName : Ident) (file : ModuleFile) (leaf : Leaf) :
    (⟨leaf.name.val,modulePrefixFromPath crateName.val file.path ++ "::".toList ++ leaf.name.val,
      normalizeTargetPath crateName.val (pathText leaf.path)⟩ : Export) = made crateName file leaf := by
  rw [made,moduleRead,targetRead,pathAppend (List.cons_ne_nil _ _) (List.cons_ne_nil _ _),pathSingle]

theorem bodyOf : ∀ tree : UseTree, tree.Valid [] → Body tree.text
  | .leaf first rest rename,_ => leafBody first rest rename
  | .self_ _,valid => absurd rfl (by rw [UseTree.Valid] at valid; exact valid.1)
  | .group path trees,_ => groupBody path trees

theorem lineRead (crateName : Ident) (file : ModuleFile) (statement : Statement) (lineNo : Nat) :
    scanned crateName.val file statement.line lineNo = (bodyEntries lineNo statement.tree.text).map fun entry =>
      ⟨entry.exportedName,modulePrefixFromPath crateName.val file.path ++ "::".toList ++ entry.exportedName,
        normalizeTargetPath crateName.val entry.targetPath⟩ := by
  rw [scanned,Statement.line,bodyRead (bodyOf statement.tree statement.valid) statement.blank statement.comment lineNo]

def Flat : UseTree → Prop
  | .group _ trees => ∀ tree ∈ trees, ∃ leaf, readLeaf tree = some leaf
  | _ => True

theorem flatScanned (crateName : Ident) (file : ModuleFile) (statement : Statement) (lineNo : Nat) (flat : Flat statement.tree) :
    scanned crateName.val file statement.line lineNo = (readLeaves statement.tree).map (made crateName file) := by
  rw [lineRead]
  have valid := statement.valid
  generalize statement.tree = tree at *
  cases tree with
  | leaf first rest rename =>
    have written := (readWritten (show readLeaf (.leaf first rest rename) = some _ from rfl)).2.1
    rw [bodyEntries,leafBraces,written]
    exact congrArg (fun made_ => [made_]) (exportMade crateName file
      ⟨rename.getD ((first::rest).getLast (List.cons_ne_nil _ _)),first::rest⟩)
  | self_ rename => exact absurd rfl (by rw [UseTree.Valid] at valid; exact valid.1)
  | group path trees =>
    rw [bodyEntries,groupBraces]
    dsimp only
    rw [flatRead flat,prefixRead,readLeaves,List.map_map,List.map_map,List.map_map]
    refine List.map_congr_left fun leaf mem => ?_
    obtain ⟨tree,-,read⟩ := List.mem_filterMap.mp mem
    have some_ := (readWritten read).2.2.2
    have target : (if pathText path = [] then pathText leaf.path else pathText path ++ "::".toList ++ pathText leaf.path) =
        pathText (path ++ leaf.path) := by
      by_cases none_ : path = []
      · rw [none_]; rfl
      · rw [if_neg (pathSome none_),pathAppend none_ some_]
    simp only [Function.comp_apply,target]
    exact exportMade crateName file ⟨leaf.name,path ++ leaf.path⟩

/-! Lengths. -/

def weight (path : List Ident) : Nat := (path.map fun segment => segment.val.length + 2).sum

theorem pathLength (path : List Ident) (some_ : path ≠ []) : (pathText path).length + 2 = weight path := by
  induction path with
  | nil => exact absurd rfl some_
  | cons first rest ih =>
    cases rest with
    | nil => rw [pathSingle]; simp [weight]
    | cons next more =>
      have later := ih (List.cons_ne_nil _ _)
      rw [weight] at later
      rw [pathCons,weight,List.map_cons,List.sum_cons,← later]
      simp only [List.length_append]
      have sep : "::".toList.length = 2 := rfl
      omega

theorem weightAppend (a b : List Ident) : weight (a ++ b) = weight a + weight b := by simp [weight]

theorem weightSome {path : List Ident} (some_ : path ≠ []) : 0 < weight path := by
  cases path with
  | nil => exact absurd rfl some_
  | cons first rest => simp [weight]

def Export.length (made_ : Export) : Nat := made_.canonicalPath.length + made_.target.length

/-- A path from `self::` on. -/
def SelfRelative (path : List Ident) : Prop := ∃ next rest, path = selfIdent::next::rest

/-- A leaf that the scan, reading it, gives its paths. -/
def PlacedAt (file : ModuleFile) (leaf : Leaf) : Prop :=
  file.dirs.head? ≠ some srcIdent ∧ (file.modules ≠ [] → ¬ SelfRelative leaf.path)

theorem modulesDropped (file : ModuleFile) :
    file.modules = file.dirs.takeWhile (· = srcIdent) ++ file.scannedModules := by
  cases file with
  | root => rfl
  | dir dirs some_ => exact List.takeWhile_append_dropWhile.symm
  | file dirs name other =>
    change dirs ++ [name] = dirs.takeWhile _ ++ (dirs.dropWhile _ ++ [name])
    rw [← List.append_assoc,List.takeWhile_append_dropWhile]

theorem droppedNone {dirs : List Ident} : dirs.takeWhile (· = srcIdent) = [] ↔ dirs.head? ≠ some srcIdent := by
  cases dirs with
  | nil => simp
  | cons dir dirs => by_cases src : dir = srcIdent <;> simp [src]

theorem targetLength (crateName : Ident) (modules path : List Ident) :
    (pathText (rootResolved crateName path)).length ≤ (pathText (resolve crateName modules path)).length ∧
    ((pathText (rootResolved crateName path)).length = (pathText (resolve crateName modules path)).length ↔
      (modules ≠ [] → ¬ SelfRelative path)) ∧
    ((modules ≠ [] → ¬ SelfRelative path) → rootResolved crateName path = resolve crateName modules path) := by
  rcases path with _ | ⟨first,_ | ⟨next,rest⟩⟩
  · simp [rootResolved,resolve,SelfRelative]
  · simp [rootResolved,resolve,SelfRelative]
  · by_cases root : first = crateIdent
    · have other : ¬ SelfRelative (first::next::rest) := by
        rintro ⟨_,_,same⟩
        rw [root] at same
        exact absurd (List.cons.inj same).1 (by decide)
      simp [rootResolved,resolve,root,show crateIdent ≠ selfIdent by decide,root ▸ other]
    · by_cases self : first = selfIdent
      · have relative : SelfRelative (first::next::rest) := ⟨next,rest,by rw [self]⟩
        have long := pathLength (crateName::(modules ++ next::rest)) (List.cons_ne_nil _ _)
        have short := pathLength (crateName::next::rest) (List.cons_ne_nil _ _)
        rw [← List.singleton_append,weightAppend,weightAppend] at long
        rw [← List.singleton_append,weightAppend] at short
        have there : resolve crateName modules (first::next::rest) = crateName::(modules ++ next::rest) := by
          rw [resolve,if_neg root,if_pos self]
        have here : rootResolved crateName (first::next::rest) = crateName::next::rest := by
          rw [rootResolved,if_pos (Or.inr self)]
        rw [there,here]
        simp only [List.singleton_append] at long short
        refine ⟨by omega,⟨fun same some_ => ?_,fun placed => ?_⟩,fun placed => ?_⟩
        · have longer := weightSome some_
          omega
        · rw [not_ne_iff.mp fun some_ => placed some_ relative,List.nil_append]
        · rw [not_ne_iff.mp fun some_ => placed some_ relative,List.nil_append]
      · have other : ¬ SelfRelative (first::next::rest) := by
          rintro ⟨_,_,same⟩
          exact self (List.cons.inj same).1
        simp [rootResolved,resolve,root,self,other]

theorem madeLength (crateName : Ident) (file : ModuleFile) (leaf : Leaf) :
    (made crateName file leaf).length ≤ (exported crateName file.modules leaf).length ∧
    ((made crateName file leaf).length = (exported crateName file.modules leaf).length ↔ PlacedAt file leaf) ∧
    (PlacedAt file leaf → made crateName file leaf = exported crateName file.modules leaf) := by
  obtain ⟨least,same,equal⟩ := targetLength crateName file.modules leaf.path
  have long := pathLength (crateName::file.modules ++ [leaf.name]) (List.cons_ne_nil _ _)
  have short := pathLength (crateName::file.scannedModules ++ [leaf.name]) (List.cons_ne_nil _ _)
  rw [← List.singleton_append,weightAppend,weightAppend] at long short
  have modules := congrArg weight (modulesDropped file)
  rw [weightAppend] at modules
  have none_ : weight (file.dirs.takeWhile (· = srcIdent)) = 0 ↔ file.dirs.head? ≠ some srcIdent := by
    rw [← droppedNone]
    refine ⟨fun zero => ?_,fun none_ => by rw [none_]; rfl⟩
    by_contra some_
    have more := weightSome some_
    omega
  simp only [Export.length,made,exported,PlacedAt,List.singleton_append] at long short ⊢
  refine ⟨by omega,⟨fun sum => ⟨none_.mp (by omega),same.mp (by omega)⟩,fun placed => ?_⟩,fun placed => ?_⟩
  · have first := none_.mpr placed.1
    have second := same.mpr placed.2
    omega
  · have kept : file.scannedModules = file.modules := by
      have whole := modulesDropped file
      rw [droppedNone.mpr placed.1,List.nil_append] at whole
      exact whole.symm
    rw [kept,equal placed.2]

/-- Smaller values with the same sum are the same values. -/
theorem placedIff (crateName : Ident) (file : ModuleFile) (leaves : List Leaf) :
    (leaves.map (made crateName file)).Perm (leaves.map (exported crateName file.modules)) ↔ ∀ leaf ∈ leaves, PlacedAt file leaf := by
  constructor
  · intro perm
    have sums := (perm.map Export.length).sum_eq
    rw [List.map_map,List.map_map] at sums
    have each := sameSum (fun leaf _ => (madeLength crateName file leaf).1) sums
    exact fun leaf mem => (madeLength crateName file leaf).2.1.mp (each leaf mem)
  · intro placed
    exact .of_eq (List.map_congr_left fun leaf mem => (madeLength crateName file leaf).2.2 (placed leaf mem))

/-! What goes wrong. -/

theorem exportClean (crateName : Ident) (modules : List Ident) (leaf : Leaf) :
    '\x7d' ∉ (exported crateName modules leaf).name ∧ '\x7d' ∉ (exported crateName modules leaf).target :=
  ⟨leaf.name.lacks rfl,pathLacks rfl (by decide)⟩

theorem targetKeeps {c : Char} {crateName target : Text} (kept : isWhiteSpace c = false)
    (plain : c ∉ "crate::".toList ∧ c ∉ "self::".toList) (mem : c ∈ target) : c ∈ normalizeTargetPath crateName target := by
  have inside := trimMem kept mem
  unfold normalizeTargetPath
  dsimp only
  cases stripped : (stripPrefix "crate::".toList (trim target)).or (stripPrefix "self::".toList (trim target)) with
  | none => exact inside
  | some rest =>
    refine List.mem_append_right _ ?_
    rcases Option.or_eq_some_iff.mp stripped with atCrate | ⟨-,atSelf⟩
    · rw [stripPrefixIff.mp atCrate] at inside
      exact (List.mem_append.mp inside).resolve_left plain.1
    · rw [stripPrefixIff.mp atSelf] at inside
      exact (List.mem_append.mp inside).resolve_left plain.2

/-- The braces of a group in a group are left in an entry. -/
theorem nestedBraces (crateName : Text) (path : List Ident) {trees : List UseTree} (lineNo : Nat) {inner : List Ident}
    {innerTrees : List UseTree} (mem : .group inner innerTrees ∈ trees) :
    ∃ entry ∈ bodyEntries lineNo (UseTree.group path trees).text,
      '\x7d' ∈ entry.exportedName ∨ '\x7d' ∈ normalizeTargetPath crateName entry.targetPath := by
  have written : (UseTree.group inner innerTrees).text ∈ texts trees := by
    clear path
    induction trees with
    | nil => cases mem
    | cons tree trees ih =>
      rw [texts]
      rcases List.mem_cons.mp mem with rfl | later
      · exact List.mem_cons_self
      · exact List.mem_cons_of_mem _ (ih later)
  have brace : '\x7d' ∈ (UseTree.group inner innerTrees).text := by simp [UseTree.text]
  have piece : (UseTree.group inner innerTrees).text <:+: join ", ".toList (texts trees) := infixJoin written
  have inside := trimMem rfl (piece.subset brace)
  rw [← joinSplit ',' [] (trim (join ", ".toList (texts trees)))] at inside
  -- It is in one of the pieces between the commas.
  obtain ⟨piece,member,there⟩ : ∃ piece ∈ split ",".toList (trim (join ", ".toList (texts trees))), '\x7d' ∈ piece := by
    by_contra none_
    exact joinClean (by decide) (fun piece member there => none_ ⟨piece,member,there⟩) inside
  obtain ⟨target,name,read,kept⟩ := aliasKeeps (c := '\x7d') rfl (by decide) there
  have entry := List.mem_filterMap.mpr ⟨piece,member,read⟩
  rw [bodyEntries,groupBraces]
  refine ⟨_,List.mem_map.mpr ⟨(target,name),entry,rfl⟩,?_⟩
  rcases kept with inTarget | inName
  · refine Or.inr (targetKeeps rfl (by decide) ?_)
    dsimp only
    split
    · exact inTarget
    · exact List.mem_append_right _ inTarget
  · exact Or.inl inName

/-- A path does not end in `self`, whatever it is resolved to. -/
theorem resolvedEnd (crateName : Ident) (modules : List Ident) {path : List Ident} (valid : selfIdent ∉ path.tail) :
    ¬ ∃ first middle, resolve crateName modules path = first::(middle ++ [selfIdent]) := by
  rintro ⟨first,middle,same⟩
  rcases path with _ | ⟨head,_ | ⟨next,rest⟩⟩
  · cases same
  · simpa using congrArg List.length (show [head] = first::(middle ++ [selfIdent]) from same)
  · have last : (resolve crateName modules (head::next::rest)).getLast? = (next::rest).getLast? := by
      rw [resolve]
      split
      · rfl
      · split
        · rw [← List.cons_append,List.getLast?_append_of_ne_nil _ (List.cons_ne_nil _ _)]
        · rfl
    rw [same,← List.cons_append,List.getLast?_concat] at last
    exact valid (List.mem_of_getLast? last.symm)

mutual
theorem leavesValid : ∀ (tree : UseTree) (under : List Ident), tree.Valid under → ∀ leaf ∈ tree.leaves under,
    leaf.path ≠ [] ∧ selfIdent ∉ leaf.path.tail
  | .leaf first rest rename,under,valid,leaf,mem => by
    rw [UseTree.leaves] at mem
    rw [UseTree.Valid] at valid
    rw [List.mem_singleton.mp mem]
    exact ⟨by simp,valid⟩
  | .self_ rename,under,valid,leaf,mem => by
    rw [UseTree.leaves] at mem
    rw [UseTree.Valid] at valid
    obtain ⟨name,-,rfl⟩ := Option.map_eq_some_iff.mp (Option.mem_toList.mp mem)
    exact valid
  | .group path trees,under,valid,leaf,mem => by
    rw [UseTree.leaves] at mem
    rw [UseTree.Valid] at valid
    exact leavesValidAll trees (under ++ path) valid leaf mem
theorem leavesValidAll : ∀ (trees : List UseTree) (under : List Ident), ValidAll under trees → ∀ leaf ∈ leavesOf under trees,
    leaf.path ≠ [] ∧ selfIdent ∉ leaf.path.tail
  | [],under,valid,leaf,mem => by
    rw [leavesOf] at mem
    cases mem
  | tree::trees,under,valid,leaf,mem => by
    rw [leavesOf] at mem
    rw [ValidAll] at valid
    rcases List.mem_append.mp mem with here | later
    · exact leavesValid tree under valid.1 leaf here
    · exact leavesValidAll trees under valid.2 leaf later
end

theorem validMember {under : List Ident} {trees : List UseTree} (valid : ValidAll under trees) {tree : UseTree} (mem : tree ∈ trees) :
    tree.Valid under := by
  induction trees with
  | nil => cases mem
  | cons first rest ih =>
    rw [ValidAll] at valid
    rcases List.mem_cons.mp mem with rfl | later
    · exact valid.1
    · exact ih valid.2 later

theorem leavesRead {path : List Ident} {trees : List UseTree} (only : ∀ tree ∈ trees, ∃ first rest rename, tree = .leaf first rest rename) :
    leavesOf path trees = readLeaves (.group path trees) := by
  rw [readLeaves]
  induction trees with
  | nil => rfl
  | cons tree trees ih =>
    obtain ⟨⟨first,rest,rename,rfl⟩,later⟩ := List.forall_mem_cons.mp only
    rw [leavesOf,ih later]
    rfl

/-- In braces stand paths only, no groups and no `self`. -/
def OnlyLeaves : UseTree → Prop
  | .group _ trees => ∀ tree ∈ trees, ∃ first rest rename, tree = .leaf first rest rename
  | _ => True

/-- What the scan can do: no group in a group and no `self` in braces, and none of the leaves in
a module that it misplaces, or from `self::` on outside the root of the crate. -/
def Handled (file : ModuleFile) (tree : UseTree) : Prop := OnlyLeaves tree ∧ ∀ leaf ∈ tree.leaves [], PlacedAt file leaf

/-- The `self` of a group is read as a segment of its path. -/
theorem selfLost {crateName : Ident} {file : ModuleFile} {path : List Ident} {trees : List UseTree} {rename : Option Ident}
    (valid : UseTree.Valid [] (.group path trees)) (mem : .self_ rename ∈ trees) :
    ¬ ((readLeaves (.group path trees)).map (made crateName file)).Perm
      ((UseTree.leaves [] (.group path trees)).map (exported crateName file.modules)) := by
  intro perm
  have inside : made crateName file ⟨rename.getD selfIdent,path ++ [selfIdent]⟩ ∈
      (readLeaves (.group path trees)).map (made crateName file) :=
    List.mem_map_of_mem (List.mem_map.mpr ⟨⟨rename.getD selfIdent,[selfIdent]⟩,List.mem_filterMap.mpr ⟨_,mem,rfl⟩,rfl⟩)
  obtain ⟨leaf,there,same⟩ := List.mem_map.mp (perm.mem_iff.mp inside)
  obtain ⟨some_,plain⟩ := leavesValid _ _ valid leaf there
  have under : path ≠ [] := by
    rw [UseTree.Valid] at valid
    have own := validMember valid mem
    rw [UseTree.Valid] at own
    exact own.1
  obtain ⟨first,middle,rfl⟩ := List.exists_cons_of_ne_nil under
  obtain ⟨head,read⟩ : ∃ head, rootResolved crateName (first::middle ++ [selfIdent]) = head::(middle ++ [selfIdent]) := by
    cases middle <;> exact ⟨_,rfl⟩
  have resolvedSome : resolve crateName file.modules leaf.path ≠ [] := by
    generalize leaf.path = path at some_
    rcases path with _ | ⟨head,_ | ⟨next,rest⟩⟩
    · exact absurd rfl some_
    · exact List.cons_ne_nil _ _
    · rw [resolve]
      split
      · exact List.cons_ne_nil _ _
      · split <;> exact List.cons_ne_nil _ _
  have targets := congrArg Export.target same
  rw [made] at targets
  dsimp only [exported] at targets
  rw [read] at targets
  exact resolvedEnd crateName file.modules plain ⟨head,middle,pathInj resolvedSome (List.cons_ne_nil _ _) targets⟩

/-- For every use tree: the scan yields one entry a leaf, with its name and its paths, for the
trees it can handle and for no other. -/
theorem exportsIff (crateName : Ident) (file : ModuleFile) (statement : Statement) (lineNo : Nat) :
    (scanned crateName.val file statement.line lineNo).Perm
      ((statement.tree.leaves []).map (exported crateName file.modules)) ↔ Handled file statement.tree := by
  have read := flatScanned crateName file statement lineNo
  have line := lineRead crateName file statement lineNo
  have valid := statement.valid
  generalize statement.tree = tree at *
  cases tree with
  | leaf first rest rename =>
    rw [read trivial]
    exact (placedIff crateName file _).trans (and_iff_right trivial).symm
  | self_ rename => exact absurd rfl (by rw [UseTree.Valid] at valid; exact valid.1)
  | group path trees =>
    by_cases nested : ∃ inner innerTrees, .group inner innerTrees ∈ trees
    · obtain ⟨inner,innerTrees,mem⟩ := nested
      refine iff_of_false (fun perm => ?_) fun handled => ?_
      · obtain ⟨entry,there,brace⟩ := nestedBraces crateName.val path lineNo mem
        have inside := perm.mem_iff.mp (line ▸ List.mem_map_of_mem there)
        obtain ⟨leaf,-,same⟩ := List.mem_map.mp inside
        have clean := exportClean crateName file.modules leaf
        rw [same] at clean
        exact brace.elim clean.1 clean.2
      · obtain ⟨first,rest,rename,same⟩ := handled.1 _ mem
        cases same
    · have flat : Flat (.group path trees) := by
        intro tree mem
        cases tree with
        | leaf first rest rename => exact ⟨_,rfl⟩
        | self_ rename => exact ⟨_,rfl⟩
        | group inner innerTrees => exact absurd ⟨inner,innerTrees,mem⟩ nested
      rw [read flat]
      by_cases selfs : ∃ rename, .self_ rename ∈ trees
      · obtain ⟨rename,mem⟩ := selfs
        refine iff_of_false (selfLost valid mem) fun handled => ?_
        obtain ⟨first,rest,rename,same⟩ := handled.1 _ mem
        cases same
      · have only : OnlyLeaves (.group path trees) := by
          intro tree mem
          cases tree with
          | leaf first rest rename => exact ⟨first,rest,rename,rfl⟩
          | self_ rename => exact absurd ⟨rename,mem⟩ selfs
          | group inner innerTrees => exact absurd ⟨inner,innerTrees,mem⟩ nested
        have leaves : UseTree.leaves [] (.group path trees) = readLeaves (.group path trees) := by
          rw [UseTree.leaves]
          exact leavesRead only
        rw [Handled,leaves]
        exact (placedIff crateName file _).trans (and_iff_right only).symm

/-! Three statements, in the root of a crate and in a module of it. -/

def ident (text : Text) (some_ : text ≠ []) (chars : text.all identChar = true) : Ident := ⟨text,some_,chars⟩

def demo : Ident := ident "demo".toList (by decide) rfl
def a : Ident := ident "a".toList (by decide) rfl
def b : Ident := ident "b".toList (by decide) rfl
def thing : Ident := ident "Thing".toList (by decide) rfl

def plain (tree : UseTree) (valid : tree.Valid []) : Statement := ⟨tree,valid,[],by simp,none⟩

def nestedGroup : Statement := plain (.group [crateIdent] [.group [a] [.leaf thing [] none],.leaf b [] none])
  (by simp only [UseTree.Valid,ValidAll]; decide)
def selfInGroup : Statement := plain (.group [a] [.self_ none,.leaf b [] none]) (by simp only [UseTree.Valid,ValidAll]; decide)
def selfRelative : Statement := plain (.leaf selfIdent [b] none) (by simp only [UseTree.Valid]; decide)

theorem leavesLost :
    (nestedGroup.line = "pub use crate::\x7ba::\x7bThing\x7d, b\x7d;".toList ∧
      ¬ (scanned demo.val .root nestedGroup.line 1).Perm ((nestedGroup.tree.leaves []).map (exported demo []))) ∧
    (selfInGroup.line = "pub use a::\x7bself, b\x7d;".toList ∧
      ¬ (scanned demo.val .root selfInGroup.line 1).Perm ((selfInGroup.tree.leaves []).map (exported demo []))) ∧
    (selfRelative.line = "pub use self::b;".toList ∧
      ¬ (scanned demo.val (.dir [a] (List.cons_ne_nil _ _)) selfRelative.line 1).Perm
        ((selfRelative.tree.leaves []).map (exported demo [a]))) := by
  decide +kernel

end RustMcp.UseExports
