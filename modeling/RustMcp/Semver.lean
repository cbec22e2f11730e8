import RustMcp.Str

/-! What advisory matching calls from the `semver` and `rustsec` packages. The
order of versions is the package's `Ord`, a linear order on the version type. -/
namespace RustMcp.Semver
open Str (Text stripPrefix)

structure Package (V R : Type) where
  /-- `Version::parse` -/
  parse : Text → Option V
  /-- the version with its build metadata set to `BuildMetadata::EMPTY` -/
  clearBuild : V → V
  /-- `VersionReq::parse` -/
  parseReq : Text → Option R
  /-- `Versions::new(patched, unaffected)`, then `is_vulnerable` -/
  isVulnerable : List R → List R → V → Option Bool

def parseSemverForMatching {V R : Type} (sv : Package V R) (version : Text) : Option V :=
  (sv.parse ((stripPrefix "v".toList version).getD version)).map sv.clearBuild

/-- The characters of version texts. -/
def versionChar (c : Char) : Bool := c.isAlphanum || c = '.' || c = '-' || c = '+'

/-- What is relied on of the text of a version. -/
structure Package.Grammar {V R : Type} (sv : Package V R) : Prop where
  chars : ∀ text v, sv.parse text = some v → ∀ c ∈ text, versionChar c = true
  dotted : ∀ text v, sv.parse text = some v → '.' ∈ text

/-- The texts of versions that differ in their build metadata at most. -/
def SameButBuild {V R : Type} (sv : Package V R) (a b : Text) : Prop :=
  ∃ x y, sv.parse ((stripPrefix "v".toList a).getD a) = some x ∧ sv.parse ((stripPrefix "v".toList b).getD b) = some y ∧
    sv.clearBuild x = sv.clearBuild y

theorem versionNotSpace {c : Char} (version : versionChar c = true) : Str.isWhiteSpace c = false := by
  simp only [versionChar,Bool.or_eq_true,decide_eq_true_eq] at version
  rcases version with ((letter | dot) | hyphen) | plus
  · simp only [Char.isAlphanum,Char.isAlpha,Char.isUpper,Char.isLower,Char.isDigit,Bool.or_eq_true,Bool.and_eq_true,
      decide_eq_true_eq,UInt32.le_iff_toNat_le,ge_iff_le] at letter
    change ((65 ≤ c.toNat ∧ c.toNat ≤ 90) ∨ (97 ≤ c.toNat ∧ c.toNat ≤ 122)) ∨ (48 ≤ c.toNat ∧ c.toNat ≤ 57) at letter
    simp only [Str.isWhiteSpace,Bool.or_eq_false_iff,Bool.and_eq_false_iff,decide_eq_false_iff_not,beq_eq_false_iff_ne]
    omega
  · rw [dot]; decide
  · rw [hyphen]; decide
  · rw [plus]; decide

section
variable {V R : Type} {sv : Package V R} (grammar : sv.Grammar)
include grammar

/-- A leading `v` is such a character too. -/
theorem matchingChars {text : Text} {v : V} (parsed : parseSemverForMatching sv text = some v) :
    ∀ c ∈ text, versionChar c = true := by
  obtain ⟨x,read,_⟩ := Option.map_eq_some_iff.mp parsed
  cases stripped : stripPrefix "v".toList text with
  | none =>
    rw [stripped] at read
    exact grammar.chars text x read
  | some rest =>
    rw [stripped] at read
    rw [Str.stripPrefixIff.mp stripped]
    intro c mem
    rcases List.mem_append.mp mem with lead | inside
    · rw [List.mem_singleton.mp lead]
      decide
    · exact grammar.chars rest x read c inside

end

theorem matchingSame {V R : Type} {sv : Package V R} {a b : Text} (same : SameButBuild sv a b) :
    parseSemverForMatching sv a = parseSemverForMatching sv b ∧ (parseSemverForMatching sv a).isSome = true := by
  obtain ⟨x,y,first,second,cleared⟩ := same
  rw [parseSemverForMatching,parseSemverForMatching,first,second,Option.map_some,Option.map_some,cleared]
  exact ⟨rfl,rfl⟩

/-! Plain `MAJOR.MINOR.PATCH` releases, on which concrete runs are evaluated.
Prereleases, build metadata and requirements are not read. -/

def digit (c : Char) : Option Nat := if c.isDigit then some (c.toNat - 48) else none

/-- A number without leading zeros, as SemVer writes it. -/
def number : Text → Option Nat
  | ['0'] => some 0
  | '0'::_ | [] => none
  | text => text.foldlM (fun n c => (digit c).map (10*n + ·)) 0

abbrev Release := Nat ×ₗ Nat ×ₗ Nat

def release (text : Text) : Option Release :=
  match Str.split ".".toList text with
  | [a,b,c] => do
      let major ← number a
      let minor ← number b
      let patch ← number c
      some (toLex (major,toLex (minor,patch)))
  | _ => none

def releases : Package Release Unit where
  parse := release
  clearBuild := id
  parseReq := fun _ => none
  isVulnerable := fun _ _ _ => none

example : release "1.4.10".toList = some (toLex (1,toLex (4,10))) ∧ release "1.0.0 ".toList = none := by decide

/-! A package that knows four versions. -/

def demoVersions : List (Text × Nat) :=
  [("1.0.0".toList,100),("1.2.0".toList,120),("1.5.0".toList,150),("2.0.0".toList,200)]

def demoPackage : Package Nat Unit where
  parse text := (demoVersions.find? fun entry => entry.1 = text).map Prod.snd
  clearBuild := id
  parseReq _ := none
  isVulnerable _ _ _ := none

theorem demoListed {text : Text} {v : Nat} (parsed : demoPackage.parse text = some v) : (text,v) ∈ demoVersions := by
  obtain ⟨entry,found,rfl⟩ := Option.map_eq_some_iff.mp parsed
  have named : entry.1 = text := by simpa using List.find?_some found
  exact named ▸ List.mem_of_find?_eq_some found

theorem demoGrammar : demoPackage.Grammar where
  chars text v parsed := by
    have all : demoVersions.all (fun entry => entry.1.all versionChar) = true := by decide
    exact List.all_eq_true.mp (List.all_eq_true.mp all _ (demoListed parsed))
  dotted text v parsed := by
    have all : ∀ entry ∈ demoVersions, '.' ∈ entry.1 := by decide
    exact all _ (demoListed parsed)

end RustMcp.Semver
