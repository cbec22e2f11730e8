import RustMcp.ReExports
import RustMcp.Splitting

/-! Use trees as Rust has them, how one is written, and how the source scan of
`crate_re_exports` reads the line. -/
namespace RustMcp.UseTrees
open Str ReExports Splitting

/-- Neither white space nor what separates identifiers, paths and file names. -/
def identChar (c : Char) : Bool := !isWhiteSpace c && !":,\x7b\x7d;/.".toList.contains c

structure Ident where
  val : Text
  some_ : val ≠ []
  chars : val.all identChar = true
  deriving DecidableEq

def crateIdent : Ident := ⟨"crate".toList,by decide,rfl⟩
def selfIdent : Ident := ⟨"self".toList,by decide,rfl⟩

inductive UseTree where
  | leaf (first : Ident) (rest : List Ident) (rename : Option Ident)
  /-- `self` in the braces of a group -/
  | self_ (rename : Option Ident)
  | group (path : List Ident) (trees : List UseTree)

def pathText (path : List Ident) : Text := join "::".toList (path.map Ident.val)

def renamed : Option Ident → Text
  | none => []
  | some name => " as ".toList ++ name.val

mutual
def UseTree.text : UseTree → Text
  | .leaf first rest rename => pathText (first::rest) ++ renamed rename
  | .self_ rename => selfIdent.val ++ renamed rename
  | .group path trees => path.flatMap (fun segment => segment.val ++ "::".toList) ++ '\x7b'::(join ", ".toList (texts trees) ++ ['\x7d'])
def texts : List UseTree → List Text
  | [] => []
  | tree::trees => tree.text::texts trees
end

/-- What a leaf brings into scope: a name, and the path it stands for. -/
structure Leaf where
  name : Ident
  path : List Ident

mutual
def UseTree.leaves (under : List Ident) : UseTree → List Leaf
  | .leaf first rest rename => [⟨rename.getD ((first::rest).getLast (List.cons_ne_nil _ _)),under ++ first::rest⟩]
  | .self_ rename => ((rename.or under.getLast?).map fun name => ⟨name,under⟩).toList
  | .group path trees => leavesOf (under ++ path) trees
def leavesOf (under : List Ident) : List UseTree → List Leaf
  | [] => []
  | tree::trees => tree.leaves under ++ leavesOf under trees
end

mutual
/-- `self` stands at the start of a path, or in the braces behind one. -/
def UseTree.Valid (under : List Ident) : UseTree → Prop
  | .leaf first rest _ => selfIdent ∉ (under ++ first::rest).tail
  | .self_ _ => under ≠ [] ∧ selfIdent ∉ under.tail
  | .group path trees => ValidAll (under ++ path) trees
def ValidAll (under : List Ident) : List UseTree → Prop
  | [] => True
  | tree::trees => tree.Valid under ∧ ValidAll under trees
end

def behind : Option Text → Text
  | none => []
  | some comment => " //".toList ++ comment

/-! Identifiers and paths. -/

theorem identEq {a b : Ident} (same : a.val = b.val) : a = b := by
  cases a
  cases b
  cases same
  rfl

theorem Ident.char (ident : Ident) {c : Char} (mem : c ∈ ident.val) : identChar c = true := List.all_eq_true.mp ident.chars c mem

theorem charKept {c : Char} (inside : identChar c = true) : isWhiteSpace c = false := by
  simp only [identChar,Bool.and_eq_true,Bool.not_eq_true'] at inside
  exact inside.1

theorem Ident.lacks (ident : Ident) {c : Char} (mark : identChar c = false) : c ∉ ident.val := by
  intro mem
  rw [ident.char mem] at mark
  contradiction

theorem pathSingle (ident : Ident) : pathText [ident] = ident.val := by
  rw [pathText,join,List.map_singleton,List.intercalate_singleton]

theorem pathCons (first next : Ident) (rest : List Ident) :
    pathText (first::next::rest) = first.val ++ ("::".toList ++ pathText (next::rest)) := joinCons _ _ _ _

theorem pathSplit {path : List Ident} (some_ : path ≠ []) : split "::".toList (pathText path) = path.map Ident.val := by
  refine splitJoin ':' ":".toList (fun none_ => some_ (List.map_eq_nil_iff.mp none_)) ?_
  intro part mem
  obtain ⟨ident,-,rfl⟩ := List.mem_map.mp mem
  exact ident.lacks rfl

theorem pathInj {a b : List Ident} (aSome : a ≠ []) (bSome : b ≠ []) (same : pathText a = pathText b) : a = b := by
  have parts := congrArg (split "::".toList) same
  rw [pathSplit aSome,pathSplit bSome] at parts
  exact List.map_injective_iff.mpr (fun _ _ => identEq) parts

theorem pathChars {path : List Ident} {c : Char} (mem : c ∈ pathText path) : identChar c = true ∨ c = ':' := by
  induction path with
  | nil => cases mem
  | cons first rest ih =>
    cases rest with
    | nil =>
      rw [pathSingle] at mem
      exact Or.inl (first.char mem)
    | cons next more =>
      rw [pathCons] at mem
      rcases List.mem_append.mp mem with here | later
      · exact Or.inl (first.char here)
      · rcases List.mem_append.mp later with colon | behind
        · exact Or.inr (by simpa using colon)
        · exact ih behind

theorem pathKept {path : List Ident} {c : Char} (mem : c ∈ pathText path) : isWhiteSpace c = false := by
  rcases pathChars mem with inside | rfl
  · exact charKept inside
  · rfl

theorem pathLacks {path : List Ident} {c : Char} (mark : identChar c = false) (other : c ≠ ':') : c ∉ pathText path := by
  intro mem
  rcases pathChars mem with inside | colon
  · rw [inside] at mark
    contradiction
  · exact other colon

theorem pathSome {path : List Ident} (some_ : path ≠ []) : pathText path ≠ [] := by
  intro none_
  have parts := pathSplit some_
  rw [none_] at parts
  cases path with
  | nil => exact some_ rfl
  | cons first rest => exact first.some_ (List.cons.inj parts).1.symm

/-! One entry. -/

theorem pathTrim (path : List Ident) : trim (pathText path) = pathText path := trimClean fun _ mem => pathKept mem

theorem identTrim (ident : Ident) : trim ident.val = ident.val := trimClean fun _ mem => charKept (ident.char mem)

/-- What the scan makes of a path: `crate::` and `self::` are the root of the crate. -/
def rootResolved (crateName : Ident) : List Ident → List Ident
  | first::next::rest => (if first = crateIdent ∨ first = selfIdent then crateName else first)::next::rest
  | path => path

theorem leadRead (lead first : Ident) (text : Text) :
    stripPrefix (lead.val ++ "::".toList) (first.val ++ ("::".toList ++ text)) = if first = lead then some text else none := by
  by_cases same : first = lead
  · rw [if_pos same,same,← List.append_assoc]
    exact stripPrefixIff.mpr rfl
  · rw [if_neg same,Option.eq_none_iff_forall_ne_some]
    intro rest stripped
    have cut := stripPrefixIff.mp stripped
    have here := splitOnceAppend (lead.lacks (c := ':') rfl) (':'::rest)
    have there := splitOnceAppend (first.lacks (c := ':') rfl) (':'::text)
    rw [List.append_assoc] at cut
    have lead_ := Option.some.inj (here.symm.trans ((congrArg (splitOnce ':') cut).symm.trans there))
    exact same (identEq (Prod.ext_iff.mp lead_).1.symm)

theorem leadAbsent (lead ident : Ident) : stripPrefix (lead.val ++ "::".toList) ident.val = none := by
  rw [Option.eq_none_iff_forall_ne_some]
  intro rest stripped
  exact ident.lacks (c := ':') rfl (by rw [stripPrefixIff.mp stripped]; simp)

theorem targetRead (crateName : Ident) (path : List Ident) :
    normalizeTargetPath crateName.val (pathText path) = pathText (rootResolved crateName path) := by
  unfold normalizeTargetPath
  rw [pathTrim]
  rcases path with _ | ⟨ident,_ | ⟨next,rest⟩⟩
  · rfl
  · have atCrate : stripPrefix "crate::".toList ident.val = none := leadAbsent crateIdent ident
    have atSelf : stripPrefix "self::".toList ident.val = none := leadAbsent selfIdent ident
    rw [pathSingle]
    dsimp only
    rw [atCrate,atSelf]
    exact (pathSingle ident).symm
  · have atCrate : stripPrefix "crate::".toList _ = _ := leadRead crateIdent ident (pathText (next::rest))
    have atSelf : stripPrefix "self::".toList _ = _ := leadRead selfIdent ident (pathText (next::rest))
    rw [pathCons]
    dsimp only
    rw [atCrate,atSelf,rootResolved]
    by_cases root : ident = crateIdent
    · simp [root,pathCons]
    · by_cases self : ident = selfIdent
      · simp [self,pathCons,show selfIdent ≠ crateIdent from by decide]
      · simp [root,self,pathCons]

theorem lastRead {path : List Ident} (some_ : path ≠ []) :
    trim (((split "::".toList (pathText path)).getLast?).getD (pathText path)) = (path.getLast some_).val := by
  rw [pathSplit some_,List.getLast?_map,List.getLast?_eq_some_getLast some_]
  exact identTrim _

/-- A path is read as it is written, with the name behind `as` or its last segment. -/
theorem aliasRead {path : List Ident} (some_ : path ≠ []) (rename : Option Ident) :
    splitAlias (pathText path ++ renamed rename) = some (pathText path,(rename.getD (path.getLast some_)).val) := by
  have space : ' ' ∉ pathText path := pathLacks rfl (by decide)
  cases rename with
  | none =>
    rw [renamed,List.append_nil,splitAlias,pathTrim,if_neg (pathSome some_)]
    have uncut : splitOnceAt " as ".toList (pathText path) = none := cutAbsent _ space
    rw [uncut]
    exact congrArg (fun name => some (pathText path,name)) (lastRead some_)
  | some name =>
    have kept : trim (pathText path ++ renamed (some name)) = pathText path ++ renamed (some name) := by
      refine trimKept (fun c first => ?_) fun c last => ?_
      · rw [List.head?_append_of_ne_nil _ (pathSome some_)] at first
        exact pathKept (List.mem_of_mem_head? first)
      · rw [renamed,← List.append_assoc,List.getLast?_append_of_ne_nil _ name.some_] at last
        exact charKept (name.char (List.mem_of_getLast? last))
    have cut : splitOnceAt " as ".toList (pathText path ++ renamed (some name)) = some (pathText path,name.val) :=
      cutHere _ space name.val
    rw [splitAlias,kept,if_neg (by simp [pathSome some_]),cut]
    simp [Option.filter,pathTrim,identTrim,pathSome some_,name.some_]

theorem aliasPadded (text : Text) : splitAlias (' '::text) = splitAlias text := by
  unfold splitAlias
  rw [show trim (' '::text) = trim text from rfl]

/-- Whatever is made of an entry, a character of it that marks no renaming is in its target or its name. -/
theorem aliasKeeps {c : Char} {entry : Text} (kept : isWhiteSpace c = false) (plain : c ∉ " as ".toList) (mem : c ∈ entry) :
    ∃ target name, splitAlias entry = some (target,name) ∧ (c ∈ target ∨ c ∈ name) := by
  have inside := trimMem kept mem
  rw [splitAlias]
  dsimp only
  rw [if_neg (List.ne_nil_of_mem inside)]
  cases cut : splitOnceAt " as ".toList (trim entry) with
  | none => exact ⟨_,_,rfl,Or.inl inside⟩
  | some pair =>
    obtain ⟨left,right⟩ := pair
    by_cases both : trim left ≠ [] ∧ trim right ≠ []
    · refine ⟨trim left,trim right,by simp [Option.filter,both],?_⟩
      rw [cutWhole cut] at inside
      rcases List.mem_append.mp inside with here | later
      · exact Or.inl (trimMem kept here)
      · exact Or.inr (trimMem kept ((List.mem_append.mp later).resolve_left plain))
    · refine ⟨trim entry,trim (((split "::".toList (trim entry)).getLast?).getD (trim entry)),?_,Or.inl inside⟩
      simp only [Option.map_some,Option.filter]
      rw [if_neg (by simpa using both)]

/-! The statement. -/

/-- What is between `pub use` and the semicolon. -/
structure Body (text : Text) : Prop where
  some_ : text ≠ []
  first : ∀ c ∈ text.head?, isWhiteSpace c = false
  last : ∀ c ∈ text.getLast?, isWhiteSpace c = false ∧ c ≠ ';'
  slash : '/' ∉ text
  once : ¬ "pub use ".toList <+: text ++ [';']

def bodyEntries (lineNo : Nat) (body : Text) : List ParsedReExport :=
  match betweenBraces body with
  | some (lead,inner) =>
      let lead := trim (trimEndMatches "::".toList (trim lead))
      ((split ",".toList (trim inner)).filterMap splitAlias).map fun (target,exportedName) =>
        ⟨if lead = [] then target else lead ++ "::".toList ++ target,exportedName,lineNo⟩
  | none => (splitAlias body).toList.map fun (targetPath,exportedName) => ⟨targetPath,exportedName,lineNo⟩

theorem trimIndent {indent : Text} (blank : ∀ c ∈ indent, isWhiteSpace c = true) (text : Text) : trim (indent ++ text) = trim text := by
  rw [trim,trim,trimStart,List.dropWhile_append_of_pos blank,← trimStart]

/-- A comment is cut off, with what is blank before it. -/
theorem commentCut {text : Text} (body : Body text) (comment : Option Text) : ∃ line,
    trim ("pub use ".toList ++ (text ++ ';'::behind comment)) = line ∧
      ((splitOnceAt "//".toList line = none ∧ line = "pub use ".toList ++ (text ++ [';'])) ∨
        ∃ left right, splitOnceAt "//".toList line = some (left,right) ∧ trim left = "pub use ".toList ++ (text ++ [';'])) := by
  have ended (tail : Text) : trim ("pub use ".toList ++ (text ++ ';'::tail)) = "pub use ".toList ++ (text ++ ';'::trimEnd tail) := by
    have kept := trimEndAppend (c := ';') rfl ("pub use ".toList ++ text) tail
    rw [List.append_assoc,List.append_assoc] at kept
    rw [trim,show trimStart ("pub use ".toList ++ (text ++ ';'::tail)) = _ from trimStartKept rfl _]
    exact kept
  refine ⟨_,ended _,?_⟩
  cases comment with
  | none =>
    have plain : '/' ∉ "pub use ".toList ++ (text ++ [';']) := by simp [body.slash]
    exact Or.inl ⟨cutAbsent ['/'] plain,rfl⟩
  | some comment =>
    have tail : trimEnd (behind (some comment)) = " /".toList ++ '/'::trimEnd comment := trimEndAppend (c := '/') rfl " /".toList comment
    have clean : '/' ∉ "pub use ".toList ++ (text ++ [';',' ']) := by simp [body.slash]
    have cut := cutHere ['/'] clean (trimEnd comment)
    rw [tail]
    refine Or.inr ⟨_,trimEnd comment,?_,(ended [' ']).trans (by rw [show trimEnd [' '] = [] from rfl])⟩
    rw [← cut]
    simp

theorem bodyRead {text : Text} (body : Body text) {indent : Text} (blank : ∀ c ∈ indent, isWhiteSpace c = true)
    (comment : Option Text) (lineNo : Nat) :
    parsePubUseStatement (indent ++ ("pub use ".toList ++ (text ++ ';'::behind comment))) lineNo = bodyEntries lineNo text := by
  have bare : stripPrefix "pub use ".toList (text ++ [';']) = none := by
    rw [Option.eq_none_iff_forall_ne_some]
    exact fun rest stripped => body.once ⟨rest,(stripPrefixIff.mp stripped).symm⟩
  have statement : trim (text ++ [';']) = text ++ [';'] := trimKept
    (fun c first => body.first c (by rwa [List.head?_append_of_ne_nil _ body.some_] at first))
    fun c last => by
      rw [List.getLast?_concat] at last
      cases last
      rfl
  have ended : (text ++ [';']).rdropWhile (· = ';') = text := by
    rw [List.rdropWhile_concat_pos _ _ _ (by decide),List.rdropWhile_eq_self_iff]
    intro some_
    simpa using (body.last _ (List.getLast?_eq_some_getLast some_)).2
  have kept : trim text = text := trimKept body.first fun c last => (body.last c last).1
  have opens : startsWith "pub use ".toList ("pub use ".toList ++ (text ++ [';'])) = true := startsWithIff.mpr (List.prefix_append _ _)
  obtain ⟨line,trimmed,⟨uncut,rfl⟩ | ⟨left,right,cut,lead⟩⟩ := commentCut body comment
  · simp only [parsePubUseStatement,trimIndent blank,trimmed,uncut,opens,trimStartOnce (by decide) bare,statement,ended,kept,body.some_]
    rfl
  · simp only [parsePubUseStatement,trimIndent blank,trimmed,cut,lead,opens,trimStartOnce (by decide) bare,statement,ended,kept,
      body.some_]
    rfl

/-! Trees as they are written. -/

mutual
theorem textSlash : ∀ tree : UseTree, '/' ∉ tree.text
  | .leaf first rest none => by
    simp only [UseTree.text,renamed,List.append_nil]
    exact pathLacks rfl (by decide)
  | .leaf first rest (some name) => by
    simp only [UseTree.text,renamed,List.mem_append,not_or]
    exact ⟨pathLacks rfl (by decide),by decide,name.lacks rfl⟩
  | .self_ none => by simp only [UseTree.text]; decide
  | .self_ (some name) => by
    simp only [UseTree.text,renamed,List.mem_append,not_or]
    exact ⟨by decide,by decide,name.lacks rfl⟩
  | .group path trees => by
    have inner : '/' ∉ join ", ".toList (texts trees) := joinClean (by decide) (textsSlash trees)
    simp only [UseTree.text,List.mem_append,List.mem_cons,List.mem_flatMap,not_or]
    refine ⟨?_,by decide,inner,by decide,by simp⟩
    rintro ⟨segment,-,inside | colon⟩
    · exact segment.lacks rfl inside
    · exact absurd colon (by decide)
theorem textsSlash : ∀ trees : List UseTree, ∀ part ∈ texts trees, '/' ∉ part
  | [] => by simp [texts]
  | tree::trees => by
    simp only [texts,List.forall_mem_cons]
    exact ⟨textSlash tree,textsSlash trees⟩
end

/-- The prefix of a group, with the separator behind each segment. -/
def lead (path : List Ident) : Text := path.flatMap fun segment => segment.val ++ "::".toList

theorem leadChars {path : List Ident} {c : Char} (mem : c ∈ lead path) : identChar c = true ∨ c = ':' := by
  obtain ⟨segment,-,inside⟩ := List.mem_flatMap.mp mem
  rcases List.mem_append.mp inside with here | colon
  · exact Or.inl (segment.char here)
  · exact Or.inr (by simpa using colon)

theorem leadLacks {path : List Ident} {c : Char} (mark : identChar c = false) (other : c ≠ ':') : c ∉ lead path := by
  intro mem
  rcases leadChars mem with inside | colon
  · rw [inside] at mark
    contradiction
  · exact other colon

theorem leadKept {path : List Ident} {c : Char} (mem : c ∈ lead path) : isWhiteSpace c = false := by
  rcases leadChars mem with inside | rfl
  · exact charKept inside
  · rfl

/-- A text without a space before a character that `pub use` lacks does not start with it. -/
theorem startsOther {piece rest : Text} {c : Char} (space : ' ' ∉ piece) (foreign : c ∉ "pub use ".toList) :
    ¬ "pub use ".toList <+: piece ++ c::rest := by
  rintro ⟨tail,same⟩
  rcases List.append_eq_append_iff.mp same with ⟨middle,rfl,-⟩ | ⟨middle,start,more⟩
  · exact space (by simp)
  · cases middle with
    | nil => exact space (by rw [List.append_nil] at start; rw [← start]; decide)
    | cons d middle =>
      obtain ⟨rfl,-⟩ := List.cons.inj more
      exact foreign (by rw [start]; simp)

theorem leafBody (first : Ident) (rest : List Ident) (rename : Option Ident) : Body (UseTree.leaf first rest rename).text := by
  have some_ : pathText (first::rest) ≠ [] := pathSome (List.cons_ne_nil _ _)
  have space : ' ' ∉ pathText (first::rest) := pathLacks rfl (by decide)
  have slash := textSlash (.leaf first rest rename)
  rw [UseTree.text] at slash ⊢
  refine ⟨by simp [some_],fun c opens => ?_,fun c ends => ?_,slash,?_⟩
  · rw [List.head?_append_of_ne_nil _ some_] at opens
    exact pathKept (List.mem_of_mem_head? opens)
  · cases rename with
    | none =>
      rw [renamed,List.append_nil] at ends
      have mem := List.mem_of_getLast? ends
      exact ⟨pathKept mem,fun semi => pathLacks (c := ';') rfl (by decide) (semi ▸ mem)⟩
    | some name =>
      rw [renamed,← List.append_assoc,List.getLast?_append_of_ne_nil _ name.some_] at ends
      have mem := List.mem_of_getLast? ends
      exact ⟨charKept (name.char mem),fun semi => name.lacks (c := ';') rfl (semi ▸ mem)⟩
  · cases rename with
    | none =>
      rw [renamed,List.append_nil]
      exact startsOther space (by decide)
    | some name =>
      rintro ⟨tail,same⟩
      -- The first space stands before `as`, not before `use`.
      have clean : ' ' ∉ "pub".toList := by decide
      have here := splitOnceAppend clean ("use ".toList ++ tail)
      have there := splitOnceAppend space ("as ".toList ++ (name.val ++ [';']))
      rw [renamed,List.append_assoc,List.append_assoc] at same
      have cut := Option.some.inj (here.symm.trans ((congrArg (splitOnce ' ') same).trans there))
      exact absurd (List.cons.inj (Prod.ext_iff.mp cut).2).1 (by decide)

theorem groupBody (path : List Ident) (trees : List UseTree) : Body (UseTree.group path trees).text := by
  have slash := textSlash (.group path trees)
  rw [UseTree.text] at slash ⊢
  rw [← lead] at slash ⊢
  refine ⟨by simp,fun c opens => ?_,fun c ends => ?_,slash,?_⟩
  · cases path with
    | nil =>
      cases opens
      rfl
    | cons first rest =>
      have some_ : lead (first::rest) ≠ [] := by simp [lead,first.some_]
      rw [List.head?_append_of_ne_nil _ some_] at opens
      exact leadKept (List.mem_of_mem_head? opens)
  · rw [← List.cons_append,← List.append_assoc,List.getLast?_concat] at ends
    cases ends
    decide
  · rw [List.append_assoc]
    exact startsOther (leadLacks rfl (by decide)) (by decide)

/-! What the scan reads. -/

/-- An entry of a group as the scan reads it: `self` is a name like others. -/
def readLeaf : UseTree → Option Leaf
  | .leaf first rest rename => some ⟨rename.getD ((first::rest).getLast (List.cons_ne_nil _ _)),first::rest⟩
  | .self_ rename => some ⟨rename.getD selfIdent,[selfIdent]⟩
  | .group _ _ => none

def readLeaves : UseTree → List Leaf
  | .group path trees => (trees.filterMap readLeaf).map fun leaf => ⟨leaf.name,path ++ leaf.path⟩
  | tree => (readLeaf tree).toList

theorem readWritten {tree : UseTree} {leaf : Leaf} (read : readLeaf tree = some leaf) :
    Body tree.text ∧ splitAlias tree.text = some (pathText leaf.path,leaf.name.val) ∧ ',' ∉ tree.text ∧ leaf.path ≠ [] := by
  have written (first : Ident) (rest : List Ident) (rename : Option Ident) :
      ',' ∉ (UseTree.leaf first rest rename).text := by
    simp only [UseTree.text,List.mem_append,not_or]
    refine ⟨pathLacks rfl (by decide),?_⟩
    cases rename with
    | none => simp [renamed]
    | some name => simpa [renamed] using name.lacks (c := ',') rfl
  cases tree with
  | leaf first rest rename =>
    cases read
    exact ⟨leafBody first rest rename,aliasRead (List.cons_ne_nil _ _) rename,written first rest rename,List.cons_ne_nil _ _⟩
  | self_ rename =>
    cases read
    have same : (UseTree.self_ rename).text = (UseTree.leaf selfIdent [] rename).text := by
      rw [UseTree.text,UseTree.text,pathSingle]
    rw [same]
    exact ⟨leafBody selfIdent [] rename,aliasRead (List.cons_ne_nil _ _) rename,written selfIdent [] rename,List.cons_ne_nil _ _⟩
  | group path trees => cases read

theorem leadPath {path : List Ident} (some_ : path ≠ []) : lead path = pathText path ++ "::".toList := by
  induction path with
  | nil => exact absurd rfl some_
  | cons first rest ih =>
    cases rest with
    | nil => rw [pathSingle,lead,List.flatMap_singleton]
    | cons next more =>
      have later := ih (List.cons_ne_nil _ _)
      rw [pathCons,lead,List.flatMap_cons,← lead,later]
      simp

theorem pathAppend {a b : List Ident} (aSome : a ≠ []) (bSome : b ≠ []) :
    pathText (a ++ b) = pathText a ++ "::".toList ++ pathText b := by
  induction a with
  | nil => exact absurd rfl aSome
  | cons first rest ih =>
    cases rest with
    | nil =>
      obtain ⟨next,more,rfl⟩ := List.exists_cons_of_ne_nil bSome
      rw [pathSingle,List.singleton_append,pathCons,List.append_assoc]
    | cons next more =>
      have later := ih (List.cons_ne_nil _ _)
      rw [List.cons_append] at later
      rw [List.cons_append,List.cons_append,pathCons,later,pathCons]
      simp

theorem pathLast {path : List Ident} : ∀ c ∈ (pathText path).getLast?, c ≠ ':' := by
  induction path with
  | nil => exact fun c ends => by cases ends
  | cons first rest ih =>
    intro c ends
    cases rest with
    | nil =>
      rw [pathSingle] at ends
      rintro rfl
      exact first.lacks (c := ':') rfl (List.mem_of_getLast? ends)
    | cons next more =>
      rw [pathCons,← List.append_assoc,List.getLast?_append_of_ne_nil _ (pathSome (List.cons_ne_nil _ _))] at ends
      exact ih c ends

theorem prefixRead (path : List Ident) : trim (trimEndMatches "::".toList (trim (lead path))) = pathText path := by
  rw [trimClean fun c mem => leadKept mem]
  by_cases none_ : path = []
  · rw [none_]
    rfl
  · have bare : stripPrefix "::".toList (pathText path).reverse = none := by
      rw [Option.eq_none_iff_forall_ne_some]
      intro rest stripped
      have ends : (pathText path).getLast? = some ':' := by
        rw [← List.head?_reverse,stripPrefixIff.mp stripped]
        rfl
      exact pathLast ':' ends rfl
    have once := trimStartOnce (show "::".toList ≠ [] by decide) bare
    rw [leadPath none_,trimEndMatches,List.reverse_append,show "::".toList.reverse = "::".toList from rfl,once,List.reverse_reverse,
      pathTrim]

theorem groupBraces (path : List Ident) (trees : List UseTree) :
    betweenBraces (UseTree.group path trees).text = some (lead path,join ", ".toList (texts trees)) := by
  have clean : '\x7b' ∉ lead path := leadLacks rfl (by decide)
  have opened := splitOnceAppend clean (join ", ".toList (texts trees) ++ ['\x7d'])
  rw [UseTree.text,← lead,betweenBraces,opened]
  simp [splitOnce]

theorem leafBraces (first : Ident) (rest : List Ident) (rename : Option Ident) :
    betweenBraces (UseTree.leaf first rest rename).text = none := by
  have absent : '\x7b' ∉ (UseTree.leaf first rest rename).text := by
    simp only [UseTree.text,List.mem_append,not_or]
    refine ⟨pathLacks rfl (by decide),?_⟩
    cases rename with
    | none => simp [renamed]
    | some name => simpa [renamed] using name.lacks (c := '\x7b') rfl
  rw [betweenBraces,splitOnceNone.mpr absent]
  rfl

/-- The parts of a list, the later ones behind a space. -/
def padded : List Text → List Text
  | [] => []
  | part::parts => part::parts.map (' '::·)

theorem paddedJoin (parts : List Text) : join ", ".toList parts = join [','] (padded parts) := by
  induction parts with
  | nil => rfl
  | cons part parts ih =>
    cases parts with
    | nil => simp [padded,join]
    | cons next more =>
      rw [joinCons,ih,padded,padded,List.map_cons,joinCons]
      cases more with
      | nil => simp [join]
      | cons last rest => simp only [List.map_cons,joinCons]; simp

theorem paddedRead (parts : List Text) : (padded parts).filterMap splitAlias = parts.filterMap splitAlias := by
  cases parts with
  | nil => rfl
  | cons part parts =>
    rw [padded,List.filterMap_cons,List.filterMap_cons,List.filterMap_map]
    have same : splitAlias ∘ (' '::·) = splitAlias := funext aliasPadded
    rw [same]

theorem joinKept {parts : List Text} (bodies : ∀ part ∈ parts, Body part) : trim (join ", ".toList parts) = join ", ".toList parts := by
  refine trimKept (fun c first => ?_) fun c last => ?_
  · cases parts with
    | nil => cases first
    | cons part parts =>
      have body := bodies part List.mem_cons_self
      refine body.first c ?_
      cases parts with
      | nil => simpa [join] using first
      | cons next more => rwa [joinCons,List.head?_append_of_ne_nil _ body.some_] at first
  · induction parts with
    | nil => cases last
    | cons part parts ih =>
      have body := bodies part List.mem_cons_self
      cases parts with
      | nil => exact (body.last c (by simpa [join] using last)).1
      | cons next more =>
        refine ih (fun part mem => bodies part (List.mem_cons_of_mem _ mem)) ?_
        have some_ : join ", ".toList (next::more) ≠ [] := fun none_ =>
          (bodies next (by simp)).some_ (List.infix_nil.mp (none_ ▸ infixJoin List.mem_cons_self))
        rwa [joinCons,← List.append_assoc,List.getLast?_append_of_ne_nil _ some_] at last

/-- A group without groups is read entry by entry. -/
theorem flatRead {trees : List UseTree} (flat : ∀ tree ∈ trees, ∃ leaf, readLeaf tree = some leaf) :
    (split ",".toList (trim (join ", ".toList (texts trees)))).filterMap splitAlias =
      (trees.filterMap readLeaf).map fun leaf => (pathText leaf.path,leaf.name.val) := by
  have same : texts trees = trees.map UseTree.text := by
    clear flat
    induction trees with
    | nil => rfl
    | cons tree trees ih => rw [texts,ih,List.map_cons]
  have each : ∀ part ∈ texts trees, Body part ∧ ',' ∉ part := by
    intro part mem
    rw [same] at mem
    obtain ⟨tree,inside,rfl⟩ := List.mem_map.mp mem
    obtain ⟨leaf,read⟩ := flat tree inside
    exact ⟨(readWritten read).1,(readWritten read).2.2.1⟩
  rw [joinKept fun part mem => (each part mem).1]
  cases trees with
  | nil => rfl
  | cons tree trees =>
    have clean : ∀ part ∈ padded (texts (tree::trees)), ',' ∉ part := by
      intro part mem
      rcases List.mem_cons.mp mem with rfl | later
      · exact (each _ List.mem_cons_self).2
      · obtain ⟨text,inside,rfl⟩ := List.mem_map.mp later
        simpa using (each text (List.mem_cons_of_mem _ inside)).2
    have some_ : padded (texts (tree::trees)) ≠ [] := List.cons_ne_nil _ _
    rw [paddedJoin,show ",".toList = [','] from rfl,splitJoin ',' [] some_ clean,paddedRead,same,List.filterMap_map,
      List.map_filterMap]
    refine List.filterMap_congr fun tree mem => ?_
    obtain ⟨leaf,read⟩ := flat tree mem
    rw [Function.comp_apply,(readWritten read).2.1,read]
    rfl

end RustMcp.UseTrees
