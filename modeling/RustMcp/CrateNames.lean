import RustMcp.Registry
import RustMcp.RustdocSync
import RustMcp.Semver
import RustMcp.Splitting

/-! The names of crates in directories, files and payloads. -/
namespace RustMcp.CrateNames
open Str (Text)
open Splitting
open Registry (parseRegistryDirName parseCrateFilename)
open RustdocSync

/-- The points of a line of two parts, where they meet set apart. -/
theorem cutPoints {left right : Nat} (some_ : 0 < left) (more : 0 < right) : List.range' 1 (left + right - 1) =
    List.range' 1 (left - 1) ++ left :: List.range' (left + 1) (right - 1) := by
  rw [← List.range'_succ,Nat.sub_add_cancel more]
  have both : List.range' 1 (left - 1) ++ List.range' (1 + (left - 1)) right = List.range' 1 (left - 1 + right) :=
    List.range'_append_1
  rw [Nat.add_sub_cancel' some_] at both
  rw [both]
  congr 1
  omega

/-- A crate name: letters, digits, hyphens and underscores after a letter. -/
structure CrateName (name : Text) : Prop where
  letter : ∃ c cs, name = c::cs ∧ c.isAlpha = true
  chars : ∀ c ∈ name, c.isAlphanum = true ∨ c = '-' ∨ c = '_'

/-- What is relied on of the texts that `parses` takes for versions. -/
structure VersionGrammar (parses : Text → Bool) : Prop where
  chars : ∀ text, parses text = true → ∀ c ∈ text, Semver.versionChar c = true
  /-- a digit, then digits and dots, up to a hyphen, a plus or the end -/
  core : ∀ text, parses text = true → ∃ (d : Char) (core rest : Text), text = d::core ++ rest ∧ d.isDigit = true ∧ '.' ∈ core ∧
    ∀ c ∈ core, c.isDigit = true ∨ c = '.'

theorem charOther {p : Char → Bool} {c mark : Char} (one : p c = true) (other : p mark = false) : c ≠ mark := by
  rintro rfl
  rw [one] at other
  contradiction

section
variable {parses : Text → Bool} (grammar : VersionGrammar parses) {name version : Text} (named : CrateName name)
  (valid : parses version = true)

include named in
theorem nameLacks (mark : Char) (other : mark.isAlphanum = false) (hyphen : mark ≠ '-') (underscore : mark ≠ '_') : mark ∉ name := by
  intro mem
  rcases named.chars mark mem with letter | rfl | rfl
  · exact charOther letter other rfl
  · exact hyphen rfl
  · exact underscore rfl

include grammar in
/-- The dots of a version come before its first hyphen. -/
theorem dotBefore {before after : Text} (valid : parses (before ++ '-'::after) = true) : '.' ∈ before := by
  obtain ⟨d,core,rest,same,digit,dot,plain⟩ := grammar.core _ valid
  rcases List.append_eq_append_iff.mp same with ⟨middle,start,more⟩ | ⟨middle,rfl,_⟩
  · cases middle with
    | nil =>
      rw [List.append_nil] at start
      exact start ▸ List.mem_cons_of_mem _ dot
    | cons c middle =>
      obtain ⟨rfl,_⟩ := List.cons.inj more
      have mem : '-' ∈ d::core := by rw [start]; simp
      rcases List.mem_cons.mp mem with first | later
      · exact absurd first.symm (charOther (p := Char.isDigit) digit (by decide))
      · rcases plain '-' later with digit' | other
        · exact absurd rfl (charOther (p := Char.isDigit) digit' (by decide))
        · contradiction
  · exact List.mem_append_left _ (List.mem_cons_of_mem _ dot)

include grammar valid in
theorem versionStarts : version.dropWhile (· = 'v') = version ∧ version ≠ [] := by
  obtain ⟨d,core,rest,rfl,digit,_,_⟩ := grammar.core version valid
  have other : d ≠ 'v' := charOther (p := Char.isDigit) digit (by decide)
  exact ⟨by simp [other],List.cons_ne_nil _ _⟩

theorem leadTrimmed (piece more : Text) :
    (piece ++ '-'::more).dropWhile (· = 'v') = piece.dropWhile (· = 'v') ++ '-'::more := by
  rw [List.dropWhile_append]
  split
  · rename_i empty
    rw [List.isEmpty_iff.mp empty]
    rfl
  · rfl

include grammar in
/-- Before a hyphen of a version stands a dot, and so none of the earlier cuts is before a version. -/
theorem cutEarly {piece : Text} (plain : '.' ∉ piece) (more : Text) :
    parses ((piece ++ '-'::more).dropWhile (· = 'v')) = false := by
  rw [leadTrimmed,Bool.eq_false_iff]
  exact fun valid => plain ((List.dropWhile_sublist _).subset (dotBefore grammar valid))

theorem pieceOf {text piece : Text} (mem : piece ∈ Str.split ['-'] text) : ∀ c ∈ piece, c ∈ text := by
  have inside : piece <:+: Str.join ['-'] (Str.split ['-'] text) := Str.infixJoin mem
  rw [joinSplit] at inside
  exact inside.subset

include grammar named valid in
theorem cutDashed : cutAt parses "-".toList (Str.split ['-'] (name ++ '-'::version))
    (fun i => Str.join "-".toList ((Str.split ['-'] (name ++ '-'::version)).drop i)) = some (name,version) := by
  have nameParts : Str.join "-".toList (Str.split ['-'] name) = name := joinSplit '-' [] name
  have versionParts : Str.join "-".toList (Str.split ['-'] version) = version := joinSplit '-' [] version
  have nameSome : name ≠ [] := by
    obtain ⟨c,cs,rfl,_⟩ := named.letter
    exact List.cons_ne_nil c cs
  have leftSome := splitSome ['-'] name
  have rightSome := splitSome ['-'] version
  have plain : ∀ piece ∈ Str.split ['-'] name, '.' ∉ piece := fun piece mem dot =>
    nameLacks named '.' (by decide) (by decide) (by decide) (pieceOf mem '.' dot)
  rw [splitSingle]
  generalize Str.split ['-'] name = left at *
  generalize Str.split ['-'] version = right at *
  have early : (List.range' 1 (left.length - 1)).findSome? (fun i =>
      if parses ((Str.join "-".toList ((left ++ right).drop i)).dropWhile (· = 'v')) then
        if Str.join "-".toList ((left ++ right).take i) = [] then none
        else some (Str.join "-".toList ((left ++ right).take i),Str.join "-".toList ((left ++ right).drop i))
      else none) = none := by
    refine List.findSome?_eq_none_iff.mpr fun i mem => ?_
    obtain ⟨_,below⟩ := List.mem_range'_1.mp mem
    have inside : i < left.length := by omega
    rw [List.drop_append_of_le_length inside.le,List.drop_eq_getElem_cons inside]
    cases rest : left.drop (i + 1) ++ right with
    | nil => exact absurd (List.append_eq_nil_iff.mp rest).2 rightSome
    | cons next more =>
      rw [List.cons_append,rest,Str.joinCons,if_neg]
      have never := cutEarly grammar (plain left[i] (List.getElem_mem inside)) (Str.join "-".toList (next::more))
      exact Bool.eq_false_iff.mp never
  have leftLong := List.length_pos_iff.mpr leftSome
  have rightLong := List.length_pos_iff.mpr rightSome
  rw [cutAt,List.length_append,cutPoints leftLong rightLong,List.findSome?_append,early,Option.none_or,List.findSome?_cons,
    List.drop_left,List.take_left,versionParts,nameParts,(versionStarts grammar valid).1,if_pos valid,if_neg nameSome]

include grammar named valid in
theorem stemSplit : crateFromStem parses (name ++ '-'::version) = (name,some version) := by
  have clean : ∀ c ∈ name ++ '-'::version, Str.isWhiteSpace c = false := by
    intro c mem
    rcases List.mem_append.mp mem with left | right
    · rcases named.chars c left with letter | rfl | rfl
      · exact Semver.versionNotSpace (by simp [Semver.versionChar,letter])
      · decide
      · decide
    · rcases List.mem_cons.mp right with rfl | later
      · decide
      · exact Semver.versionNotSpace (grammar.chars version valid c later)
  have some_ : name ++ '-'::version ≠ [] := by simp
  rw [crateFromStem,Str.trimClean clean,if_neg some_]
  have cut := cutDashed grammar named valid
  have hyphen : "-".toList = ['-'] := rfl
  rw [hyphen] at cut
  simp only [hyphen,cut]

/-- The split point `i` of a directory name, with its hyphen. -/
theorem pointAt {dirName : Text} {i : Nat} (positive : 0 < i) (hyphen : dirName[i - 1]? = some '-') :
    dirName = dirName.take (i - 1) ++ '-'::dirName.drop i := by
  obtain ⟨inside,here⟩ := List.getElem?_eq_some_iff.mp hyphen
  have rest := List.drop_eq_getElem_cons inside
  rw [here,Nat.sub_add_cancel positive] at rest
  rw [← rest,List.take_append_drop]

include grammar named valid in
theorem dirSplit : parseRegistryDirName parses (name ++ '-'::version) = some (name,version) := by
  have versionLong := List.length_pos_iff.mpr (versionStarts grammar valid).2
  have length : (name ++ '-'::version).length - 1 = name.length + 1 + version.length - 1 := by
    rw [List.length_append,List.length_cons]
    omega
  have late : ∀ i ∈ (List.range' (name.length + 1 + 1) (version.length - 1)).reverse,
      (if (name ++ '-'::version)[i - 1]? = some '-' then
        if ((name ++ '-'::version).take (i - 1)).contains '.' || ((name ++ '-'::version).take (i - 1)).contains '+' then none
        else if parses ((name ++ '-'::version).drop i) then
          some ((name ++ '-'::version).take (i - 1),(name ++ '-'::version).drop i)
        else none
      else none) = none := by
    intro i mem
    obtain ⟨above,_⟩ := List.mem_range'_1.mp (List.mem_reverse.mp mem)
    split
    · rename_i hyphen
      obtain ⟨inside,_⟩ := List.getElem?_eq_some_iff.mp hyphen
      have parts := pointAt (by omega) hyphen
      have long : ((name ++ '-'::version).take (i - 1)).length = i - 1 := List.length_take_of_le inside.le
      generalize (name ++ '-'::version).take (i - 1) = potentialName at *
      have dot : '.' ∈ potentialName := by
        rcases List.append_eq_append_iff.mp parts with ⟨middle,rfl,more⟩ | ⟨middle,start,_⟩
        · cases middle with
          | nil =>
            rw [List.append_nil] at long
            omega
          | cons c middle =>
            obtain ⟨_,rest⟩ := List.cons.inj more
            rw [rest] at valid
            exact List.mem_append_right _ (List.mem_cons_of_mem _ (dotBefore grammar valid))
        · have shorter := congrArg List.length start
          rw [List.length_append] at shorter
          omega
      rw [List.contains_iff_mem.mpr dot,Bool.true_or,if_pos rfl]
    · rfl
  have here : (name ++ '-'::version)[name.length + 1 - 1]? = some '-' := by simp
  have before : (name ++ '-'::version).take (name.length + 1 - 1) = name := by simp
  have after : (name ++ '-'::version).drop (name.length + 1) = version := by
    rw [List.drop_append]
    simp
  have lacksDot : name.contains '.' = false := by
    simpa using nameLacks named '.' (by decide) (by decide) (by decide)
  have lacksPlus : name.contains '+' = false := by
    simpa using nameLacks named '+' (by decide) (by decide) (by decide)
  rw [parseRegistryDirName,length,cutPoints (Nat.succ_pos _) versionLong,List.reverse_append,List.reverse_cons,
    List.append_assoc,List.findSome?_append,List.findSome?_eq_none_iff.mpr late,Option.none_or,List.singleton_append,
    List.findSome?_cons,if_pos here]
  simp only [before,after,lacksDot,lacksPlus,valid,Bool.or_self,Bool.false_eq_true,if_false,if_true]

theorem dirParts {parses : Text → Bool} {dirName name version : Text}
    (parsed : parseRegistryDirName parses dirName = some (name,version)) :
    name ++ '-'::version = dirName ∧ parses version = true := by
  obtain ⟨i,mem,found⟩ := List.exists_of_findSome?_eq_some parsed
  obtain ⟨positive,_⟩ := List.mem_range'_1.mp (List.mem_reverse.mp mem)
  split at found <;> try contradiction
  rename_i hyphen
  simp only at found
  split at found <;> try contradiction
  split at found <;> try contradiction
  rename_i valid
  cases Option.some.inj found
  exact ⟨(pointAt (by omega) hyphen).symm,valid⟩

end

theorem namesSplit (parses : Text → Bool) (grammar : VersionGrammar parses) {name version : Text} (named : CrateName name)
    (valid : parses version = true) :
    parseRegistryDirName parses (name ++ '-'::version) = some (name,version) ∧
    parseCrateFilename parses (name ++ '-'::version ++ ".crate".toList) = some (name,version) ∧
    crateFromStem parses (name ++ '-'::version) = (name,some version) ∧
    ∀ dirName name' version', parseRegistryDirName parses dirName = some (name',version') →
      name' ++ '-'::version' = dirName ∧ parses version' = true := by
  refine ⟨dirSplit grammar named valid,?_,stemSplit grammar named valid,fun _ _ _ => dirParts⟩
  rw [parseCrateFilename,Str.stripSuffixAppend,Option.bind_some]
  exact dirSplit grammar named valid

def demoParses (text : Text) : Bool := ["0.7.5+spec-1.1.0".toList,"1.1.0".toList].contains text

theorem demoGrammar : VersionGrammar demoParses where
  chars text valid := by
    have all : ["0.7.5+spec-1.1.0".toList,"1.1.0".toList].all (fun text => text.all Semver.versionChar) = true := by decide
    exact List.all_eq_true.mp (List.all_eq_true.mp all text (List.contains_iff_mem.mp valid))
  core text valid := by
    have mem := List.contains_iff_mem.mp valid
    simp only [List.mem_cons,List.not_mem_nil,or_false] at mem
    have plain {core : Text} (all : core.all (fun c => c.isDigit || c = '.') = true) : ∀ c ∈ core, c.isDigit = true ∨ c = '.' :=
      fun c mem => by simpa using List.all_eq_true.mp all c mem
    rcases mem with rfl | rfl
    · exact ⟨'0',".7.5".toList,"+spec-1.1.0".toList,rfl,by decide,by decide,plain (by decide)⟩
    · exact ⟨'1',".1.0".toList,[],rfl,by decide,by decide,plain (by decide)⟩

theorem namesSplitHyphens :
    parseRegistryDirName demoParses "toml-datetime-0.7.5+spec-1.1.0".toList =
        some ("toml-datetime".toList,"0.7.5+spec-1.1.0".toList) ∧
    crateFromStem demoParses "toml-datetime-0.7.5+spec-1.1.0".toList =
        ("toml-datetime".toList,some "0.7.5+spec-1.1.0".toList) := by
  have all : "toml-datetime".toList.all (fun c => c.isAlphanum || c = '-' || c = '_') = true := by decide
  have named : CrateName "toml-datetime".toList :=
    ⟨⟨_,_,rfl,by decide⟩,fun c mem => by simpa [or_assoc] using List.all_eq_true.mp all c mem⟩
  have valid : demoParses "0.7.5+spec-1.1.0".toList = true := by decide
  have whole := namesSplit demoParses demoGrammar named valid
  exact ⟨whole.1,whole.2.2.1⟩

/-! The check of a payload's root against the crate that it is ingested for. -/

/-- Rust reports a crate by its module name, in which every hyphen is an underscore. -/
def moduleName (name : Text) : Text := name.map fun c => if c = '-' then '_' else c

def hyphenated (name : Text) : Text := name.map fun c => if c = '_' then '-' else c

def rootName (krate : RustdocCrate) : Option Text := ((krate.item krate.root).bind Item.name).map Str.trim

def mismatchLead : Text := "rustdoc JSON crate mismatch for ".toList

def RaisesMismatch (result : Except Text RustdocCrate) : Prop := ∃ message, result = .error message ∧ mismatchLead <+: message

theorem hyphenatedModule (name : Text) : moduleName (hyphenated name) = moduleName name := by
  rw [moduleName,moduleName,hyphenated,List.map_map]
  refine List.map_congr_left fun c _ => ?_
  by_cases low : c = '_'
  · subst low; rfl
  · simp [low]

theorem hyphenatedName (name : Text) : hyphenated (moduleName name) = hyphenated name := by
  rw [hyphenated,hyphenated,moduleName,List.map_map]
  refine List.map_congr_left fun c _ => ?_
  by_cases high : c = '-'
  · subst high; rfl
  · simp [high]

/-- Only the root's name is hyphenated: one with an underscore on the other side is never met. -/
theorem resolvesIff {name crateName : Text} :
    hyphenated name = crateName ↔ '_' ∉ crateName ∧ moduleName name = moduleName crateName := by
  constructor
  · rintro rfl
    refine ⟨fun mem => ?_,(hyphenatedModule name).symm⟩
    obtain ⟨c,_,same⟩ := List.mem_map.mp mem
    split at same
    · contradiction
    · rename_i other
      exact other same
  · rintro ⟨plain,same⟩
    rw [← hyphenatedName name,same,hyphenatedName]
    refine (List.map_congr_left fun c mem => ?_).trans (List.map_id _)
    have other : c ≠ '_' := fun low => plain (low ▸ mem)
    rw [if_neg other]
    rfl

theorem raisesIff {V B : Type} {env : Env V B}
    (stores : ∀ id path message, env.store id path = .error message → "failed to ".toList <+: message)
    (candidate : RustdocSyncCandidateRow) (sourcePath : Text) {content : Text} {krate : RustdocCrate}
    (parsed : env.parseCrate content = .ok krate) {name : Text} (root : rootName krate = some name) (some_ : name ≠ []) :
    RaisesMismatch (ingestRustdocJsonDocument env candidate sourcePath content) ↔ hyphenated name ≠ candidate.crateName := by
  have resolved : resolvedCrateName candidate krate = hyphenated name := by
    rw [rootName] at root
    rw [resolvedCrateName,root,Option.filter_some,if_pos (by simpa using some_)]
    rfl
  unfold ingestRustdocJsonDocument
  rw [parsed]
  simp only [resolved]
  constructor
  · rintro ⟨message,raised,lead⟩ same
    rw [if_neg (not_not.mpr same)] at raised
    cases stored : env.store candidate.crateVersionId sourcePath with
    | ok => rw [stored] at raised; contradiction
    | error failure =>
      rw [stored] at raised
      cases raised
      obtain ⟨rest,rfl⟩ := lead
      obtain ⟨more,clash⟩ := stores _ _ _ stored
      exact absurd (List.cons.inj clash).1 (by decide)
  · intro differ
    rw [if_pos differ]
    refine ⟨_,rfl,?_⟩
    rw [List.append_assoc,List.append_assoc,List.append_assoc,List.append_assoc,List.append_assoc]
    exact List.prefix_append mismatchLead _

theorem mismatchIff {V B : Type} (env : Env V B)
    (stores : ∀ id path message, env.store id path = .error message → "failed to ".toList <+: message)
    (candidate : RustdocSyncCandidateRow) (sourcePath : Text) {content : Text} {krate : RustdocCrate}
    (parsed : env.parseCrate content = .ok krate) {name : Text} (root : rootName krate = some name) (some_ : name ≠ []) :
    (RaisesMismatch (ingestRustdocJsonDocument env candidate sourcePath content) ↔
        moduleName name ≠ moduleName candidate.crateName) ↔
      '_' ∉ candidate.crateName ∨ moduleName name ≠ moduleName candidate.crateName := by
  rw [raisesIff stores candidate sourcePath parsed root some_,Ne,resolvesIff]
  by_cases same : moduleName name = moduleName candidate.crateName
  · simp [same]
  · simp [same]

/-! A name of two words, hyphenated and not. -/

def demoKrate : RustdocCrate := ⟨0,none,[⟨0,some "serde_json".toList,"module".toList⟩]⟩

def demoEnv : Env Unit Unit where
  parseVersion _ := none
  fetchRustdocJson _ _ := .error []
  decodePayload _ := .error []
  parseCrate _ := .ok demoKrate
  localDir := .unset
  store _ _ := .ok ()
  mark _ := true

theorem demoStores (id : Nat) (path message : Text) (failed : demoEnv.store id path = .error message) :
    "failed to ".toList <+: message := by
  contradiction

theorem demoParsed (content : Text) : demoEnv.parseCrate content = .ok demoKrate := rfl

theorem demoRoot : rootName demoKrate = some "serde_json".toList := by decide

theorem mismatchIffHyphen : ¬RaisesMismatch (ingestRustdocJsonDocument demoEnv ⟨"serde-json".toList,"1.0.0".toList,1⟩ [] []) := by
  have meets := (mismatchIff demoEnv demoStores ⟨"serde-json".toList,"1.0.0".toList,1⟩ [] (demoParsed []) demoRoot
    (by decide)).mpr (Or.inl (by decide))
  have same : moduleName "serde_json".toList = moduleName "serde-json".toList := by decide
  exact fun raised => meets.mp raised same

theorem underscoreRefused : ¬∀ (env : Env Unit Unit) (candidate : RustdocSyncCandidateRow) (sourcePath content : Text)
    (krate : RustdocCrate) (name : Text),
    (∀ id path message, env.store id path = .error message → "failed to ".toList <+: message) →
    env.parseCrate content = .ok krate → rootName krate = some name → name ≠ [] →
    (RaisesMismatch (ingestRustdocJsonDocument env candidate sourcePath content) ↔
      moduleName name ≠ moduleName candidate.crateName) := by
  intro all
  have claimed := all demoEnv ⟨"serde_json".toList,"1.0.0".toList,1⟩ [] [] demoKrate "serde_json".toList demoStores
    (demoParsed []) demoRoot (by decide)
  have refused := (raisesIff demoStores ⟨"serde_json".toList,"1.0.0".toList,1⟩ [] (demoParsed []) demoRoot (by decide)).mpr
    (by decide)
  exact claimed.mp refused rfl

end RustMcp.CrateNames
