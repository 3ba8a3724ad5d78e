import Nomo.Lib.Triple
import Nomo.SupplyChain.Release

/-!
# Versions and version constraints

`nomo_manifest/src/version.rs`. The version numbers themselves, their order and the matching of
ranges come from the semver crate: `Semver` lists what is used of it. A bare version is an exact
constraint; everything else is a range, of one of three shapes.
-/

namespace Nomo.Deps

open Nomo.Lib Nomo.Lib.Checked Nomo.SupplyChain

/-- `semver::Op`. -/
inductive Op
  | exact
  | greater
  | greaterEq
  | less
  | lessEq
  | tilde
  | caret
  | wildcard
deriving DecidableEq

/-- The semver crate: `Version` with its text, `VersionReq` with its text, its comparators and what
it matches. -/
structure Semver (V R : Type) where
  parse : String → Except String V
  text : V → String
  parseReq : String → Except String R
  reqText : R → String
  ops : R → List Op
  admits : R → V → Bool

/-- A semver crate for which nothing is a version: enough for projects that use no registry. -/
def Semver.rejecting : Semver ℕ Unit where
  parse _ := .error "unexpected character"
  text _ := ""
  parseReq _ := .error "unexpected character"
  reqText _ := ""
  ops _ := []
  admits _ _ := false

variable {V R : Type} (semver : Semver V R)

/-- `PackageVersion::parse`. -/
def Semver.parseVersion (input : String) : Except String V := do
  let input := trim input
  require (input ≠ "") "package version must not be empty"
  (semver.parse input).mapError fun err => s!"invalid semantic version `{input}`: {err}"

/-- `VersionConstraint`. -/
inductive VersionConstraint (V R : Type)
  | exact (version : V)
  | range (normalized : String) (requirement : R)
deriving DecidableEq

namespace VersionConstraint

/-- `VersionConstraint::is_exact`. -/
def isExact : VersionConstraint V R → Bool
  | exact _ => true
  | range _ _ => false

/-- `VersionConstraint::matches`. -/
def «matches» [DecidableEq V] (version : V) : VersionConstraint V R → Bool
  | exact expected => expected = version
  | range _ requirement => semver.admits requirement version

/-- `VersionConstraint::normalized`, which is also how a constraint is printed. -/
def normalized : VersionConstraint V R → String
  | exact version => semver.text version
  | range normalized _ => normalized

end VersionConstraint

/-! ## Parsing a constraint -/

/-- The pieces between separators: `str::split` with a predicate. -/
def splitWhere (separates : Char → Bool) : List Char → List (List Char)
  | [] => [[]]
  | c :: cs =>
    match separates c, splitWhere separates cs with
    | true, parts => [] :: parts
    | false, [] => [[c]]
    | false, part :: parts => (c :: part) :: parts

/-- `contains_wildcard_x`. -/
def containsWildcardX (input : List Char) : Bool :=
  (splitWhere (fun c => c == '.' || c == ',' || c ∈ [' ', '\t', '\n', '\x0c', '\r']) input).any
    (· == ['x'])

/-- `validate_range_syntax`. -/
def validateRangeSyntax (input : String) : Except String Unit := do
  let unsupported := s!"unsupported semantic version constraint `{input}`: "
  let lowered := input.toList.map Char.toLower
  require ('*' ∉ lowered ∧ containsWildcardX lowered = false)
    (unsupported ++ "wildcards are not allowed")
  require (¬ ['|', '|'] <:+: input.toList) (unsupported ++ "alternatives are not allowed")
  require (input.toList.head? ≠ some '=')
    (unsupported ++ "use a bare version for an exact requirement")
  require (input.toList.head?.any (· ∈ ['^', '~', '>', '<']) = true)
    (unsupported ++ "expected an exact version, caret, tilde, or comparison range")

/-- `validate_range_shape`, of the operators of the range. -/
def validateRangeShape (input : String) (ops : List Op) : Except String Unit :=
  let unsupported := s!"unsupported semantic version constraint `{input}`: "
  let comparisons := require ((ops.any (· ∈ [.greater, .greaterEq]) &&
      ops.any (· ∈ [.less, .lessEq]) &&
      ops.all (· ∈ [.greater, .greaterEq, .less, .lessEq])) = true)
    (unsupported ++ "comparison ranges must include both lower and upper bounds")
  let single op := require (ops = [op])
    (unsupported ++ "caret and tilde constraints must contain exactly one comparator")
  match input.toList.head? with
  | some '^' => single .caret
  | some '~' => single .tilde
  | some '>' => comparisons
  | some '<' => comparisons
  | _ => .error (unsupported ++ "caret and tilde constraints must contain exactly one comparator")

/-- `VersionConstraint::parse`. -/
def Semver.parseConstraint (input : String) : Except String (VersionConstraint V R) := do
  let input := trim input
  require (input ≠ "") "package version constraint must not be empty"
  match semver.parseVersion input with
  | .ok version => return .exact version
  | .error _ =>
    validateRangeSyntax input
    let requirement ← (semver.parseReq input).mapError fun err =>
      s!"invalid semantic version constraint `{input}`: {err}"
    validateRangeShape input (semver.ops requirement)
    return .range (semver.reqText requirement) requirement

end Nomo.Deps
