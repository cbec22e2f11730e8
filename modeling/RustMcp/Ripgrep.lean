import RustMcp.Utils

/-! `rg --json` run in a directory: its arguments, and the matches that are read from the
lines it prints until there are as many as are asked for. -/
namespace RustMcp.Ripgrep
open Str (Text)
open Utils

structure RipgrepMatch where
  path : Text
  lineNumber : Nat
  lineContent : Text

inductive RipgrepMode where
  | fixedString
  | regex

inductive RipgrepError where
  | notFound (error : Text)
  | executionFailed (exitCode : Option Int) (stderr : Text)
  | parseError (message : Text)

def exitCodeText : Option Int → Text
  | none => "None".toList
  | some code => "Some(".toList ++ (toString code).toList ++ ")".toList

def RipgrepError.describe : RipgrepError → Text
  | .notFound error => "ripgrep binary not found: ".toList ++ error
  | .executionFailed exitCode stderr =>
      "ripgrep failed (exit code ".toList ++ exitCodeText exitCode ++ "): ".toList ++ Str.trim stderr
  | .parseError message => "ripgrep output parse error: ".toList ++ message

/-- A number has its value where that is a `u64`. -/
inductive Json where
  | null
  | bool (value : Bool)
  | number (value : Option Nat)
  | text (value : Text)
  | array (entries : List Json)
  | object (fields : List (Text × Json))

def Json.get (key : Text) : Json → Option Json
  | .object fields => (fields.find? fun field => field.1 = key).map Prod.snd
  | _ => none

def Json.asStr : Json → Option Text
  | .text value => some value
  | _ => none

def Json.asU64 : Json → Option Nat
  | .number value => value
  | _ => none

/-! The run. -/

structure Output where
  exitCode : Option Int
  stdout : Text
  stderr : Text

/-- The program, the parser of its lines, and the text of a directory's path. -/
structure Rg (D : Type) where
  output : List Text → D → Except Text Output
  fromStr : Text → Except Text Json
  pathText : D → Text

/-- What stands before the directory. -/
def args (pattern : Text) (mode : RipgrepMode) (pathGlob : Option Text) : List Text :=
  ["--json".toList,"--no-heading".toList] ++
    (match mode with
      | .fixedString => ["-F".toList,"-i".toList]
      | .regex => ["-i".toList]) ++
    (match pathGlob with
      | some glob => ["--glob".toList,glob]
      | none => []) ++
    ["--".toList,pattern]

def relativePath (root rawPath : Text) : Text :=
  Str.trimStartMatches ['\\'] (Str.trimStartMatches ['/'] ((Str.stripPrefix root rawPath).getD rawPath))

/-- The match that a line reports; lines of other types report none. -/
def matchOf (root : Text) (value : Json) : Option RipgrepMatch :=
  if (value.get "type".toList).bind Json.asStr = some "match".toList then
    (value.get "data".toList).map fun data => {
      path := relativePath root ((((data.get "path".toList).bind (Json.get "text".toList)).bind Json.asStr).getD [])
      lineNumber := u32 (((data.get "line_number".toList).bind Json.asU64).getD 0)
      lineContent := Str.trimEndMatches ['\r'] (Str.trimEndMatches ['\n']
        ((((data.get "lines".toList).bind (Json.get "text".toList)).bind Json.asStr).getD []))}
  else none

section
variable {D : Type} (rg : Rg D)

def parseLines (root : Text) (maxResults : Nat) (found : List RipgrepMatch) :
    List Text → Except RipgrepError (List RipgrepMatch)
  | [] => .ok found
  | line::rest =>
    if found.length ≥ maxResults then .ok found
    else match rg.fromStr line with
      | .error message => .error (.parseError message)
      | .ok value => parseLines root maxResults (found ++ (matchOf root value).toList) rest

def parseJsonOutput (stdout root : Text) (maxResults : Nat) : Except RipgrepError (List RipgrepMatch) :=
  parseLines rg root maxResults [] (Str.lines stdout)

def search (dir : D) (pattern : Text) (mode : RipgrepMode) (pathGlob : Option Text) (maxResults : Nat) :
    Except RipgrepError (List RipgrepMatch) :=
  match rg.output (args pattern mode pathGlob) dir with
  | .error error => .error (.notFound error)
  | .ok output =>
      if output.exitCode ≠ some 0 && output.exitCode ≠ some 1 then
        .error (.executionFailed output.exitCode output.stderr)
      else parseJsonOutput rg output.stdout (rg.pathText dir) maxResults

/-! What a search reads, of all that is printed. -/

def lineMatches (root : Text) (lines : List Text) : List RipgrepMatch :=
  lines.filterMap fun line => (rg.fromStr line).toOption.bind (matchOf root)

/-- Each line before which fewer matches than that are printed can be parsed. -/
def Parses (root : Text) (maxResults : Nat) (lines : List Text) : Prop :=
  ∀ before line after, lines = before ++ line::after → (lineMatches rg root before).length < maxResults →
    ∃ value, rg.fromStr line = .ok value

/-- All matches that a run prints. -/
def allMatches (dir : D) (pattern : Text) (mode : RipgrepMode) (pathGlob : Option Text) : List RipgrepMatch :=
  match rg.output (args pattern mode pathGlob) dir with
  | .error _ => []
  | .ok output => lineMatches rg (rg.pathText dir) (Str.lines output.stdout)

/-- The run ends with a match or without one, and prints lines that can be parsed. -/
def Answers (dir : D) (pattern : Text) (mode : RipgrepMode) (pathGlob : Option Text) (maxResults : Nat) : Prop :=
  ∃ output, rg.output (args pattern mode pathGlob) dir = .ok output ∧ (output.exitCode = some 0 ∨ output.exitCode = some 1) ∧
    Parses rg (rg.pathText dir) maxResults (Str.lines output.stdout)

variable {rg} {root : Text}

theorem matchesCons (line : Text) (rest : List Text) : lineMatches rg root (line::rest) =
    ((rg.fromStr line).toOption.bind (matchOf root)).toList ++ lineMatches rg root rest := by
  rw [lineMatches,List.filterMap_cons]
  cases (rg.fromStr line).toOption.bind (matchOf root) <;> rfl

theorem parsesCons {maxResults : Nat} {line : Text} {rest : List Text} {value : Json} (parsed : rg.fromStr line = .ok value) :
    Parses rg root maxResults (line::rest) ↔ Parses rg root (maxResults - (matchOf root value).toList.length) rest := by
  have first : ∀ before, lineMatches rg root (line::before) = (matchOf root value).toList ++ lineMatches rg root before :=
    fun before => by rw [matchesCons,parsed]; rfl
  constructor
  · intro parses before line' after split few
    refine parses (line::before) line' after (by rw [split]; rfl) ?_
    rw [first,List.length_append]
    omega
  · intro parses before line' after split few
    cases before with
    | nil => exact ⟨value,by rw [← (List.cons.inj split).1]; exact parsed⟩
    | cons line'' before =>
      obtain ⟨rfl,later⟩ := List.cons.inj split
      refine parses before line' after later ?_
      rw [first,List.length_append] at few
      omega

theorem parseLinesIff (lines : List Text) {maxResults : Nat} {found out : List RipgrepMatch} :
    parseLines rg root maxResults found lines = .ok out ↔
      Parses rg root (maxResults - found.length) lines ∧
        out = found ++ (lineMatches rg root lines).take (maxResults - found.length) := by
  induction lines generalizing found with
  | nil =>
    have parses : Parses rg root (maxResults - found.length) [] := fun before _ _ split => by simp at split
    simp [parseLines,parses,lineMatches,eq_comm]
  | cons line rest ih =>
    rw [parseLines]
    by_cases full : found.length ≥ maxResults
    · have none_ : maxResults - found.length = 0 := Nat.sub_eq_zero_of_le full
      have parses : Parses rg root 0 (line::rest) := fun _ _ _ _ few => absurd few (Nat.not_lt_zero _)
      simp [full,none_,parses,eq_comm]
    · rw [if_neg full,matchesCons]
      cases parsed : rg.fromStr line with
      | error message =>
        have broken : ¬Parses rg root (maxResults - found.length) (line::rest) := fun parses => by
          obtain ⟨value,ok⟩ := parses [] line rest rfl (by rw [lineMatches,List.filterMap_nil,List.length_nil]; omega)
          rw [parsed] at ok
          contradiction
        simp [broken]
      | ok value =>
        rw [parsesCons parsed]
        simp only [ih,List.length_append,Nat.sub_add_eq,Except.toOption,Option.bind_some,List.take_append]
        have short : (matchOf root value).toList.take (maxResults - found.length) = (matchOf root value).toList := by
          refine List.take_of_length_le ?_
          have one : (matchOf root value).toList.length ≤ 1 := by cases matchOf root value <;> simp
          omega
        rw [short,List.append_assoc]

theorem searchIff {dir : D} {pattern : Text} {mode : RipgrepMode} {pathGlob : Option Text} {maxResults : Nat}
    {out : List RipgrepMatch} : search rg dir pattern mode pathGlob maxResults = .ok out ↔
      Answers rg dir pattern mode pathGlob maxResults ∧ out = (allMatches rg dir pattern mode pathGlob).take maxResults := by
  unfold search Answers allMatches
  cases run : rg.output (args pattern mode pathGlob) dir with
  | error error => simp
  | ok output =>
    have codes : (output.exitCode ≠ some 0 && output.exitCode ≠ some 1) = true ↔
        ¬(output.exitCode = some 0 ∨ output.exitCode = some 1) := by simp
    by_cases ends : output.exitCode = some 0 ∨ output.exitCode = some 1
    · simp only [codes,ends,not_true_eq_false,if_false,parseJsonOutput,parseLinesIff,List.length_nil,Nat.sub_zero,
        List.nil_append,Except.ok.injEq,exists_eq_left',true_and]
    · simp only [codes,ends,not_false_eq_true,if_true,reduceCtorEq,Except.ok.injEq,exists_eq_left',false_and]

end
end RustMcp.Ripgrep
