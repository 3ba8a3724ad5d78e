import Nomo.Resolver.Registry

/-!
# Manifests and resolved dependencies

The data that dependency resolution reads and returns: the conditions on the target
(`nomo_manifest/src/lib.rs:94–217`, `nomo_target/src/lib.rs:179–218`), a manifest's dependencies
(`nomo_manifest/src/lib.rs:226–236, 304–314, 416–439`), and the resolved dependency graph
(`nomo_lockfile/src/lib.rs:12–39`).
-/

namespace Nomo.Deps

open Nomo.Lib Nomo.Lib.Checked Nomo.SupplyChain Nomo.Resolver

/-! ## Targets -/

/-- `TargetTriple`, with its parts as text. -/
structure TargetTriple where
  arch : String
  vendor : String
  os : String
  env : String
deriving DecidableEq

/-- The text of a target. -/
def TargetTriple.text (target : TargetTriple) : String :=
  s!"{target.arch}-{target.vendor}-{target.os}-{target.env}"

/-- `TargetTriple::supported`. -/
def TargetTriple.supported : List TargetTriple :=
  [⟨"x86_64", "unknown", "linux", "gnu"⟩, ⟨"aarch64", "unknown", "linux", "gnu"⟩,
    ⟨"x86_64", "apple", "darwin", "none"⟩, ⟨"aarch64", "apple", "darwin", "none"⟩,
    ⟨"x86_64", "pc", "windows", "msvc"⟩, ⟨"aarch64", "pc", "windows", "msvc"⟩]

/-- `TargetCondition`: an empty field is no condition. -/
structure TargetCondition where
  arch : List String := []
  os : List String := []
  env : List String := []
deriving DecidableEq

/-- `target_component_matches`. -/
def targetComponentMatches (values : List String) (actual : String) : Bool :=
  values.isEmpty || values.contains actual

/-- `intersect_target_values`. -/
def intersectTargetValues (left right : List String) : Option (List String) :=
  if left = [] then some right
  else if right = [] then some left
  else
    let values := left.filter (· ∈ right)
    if values = [] then none else some values

/-- `validate_canonical_target_values`. -/
def validateCanonicalTargetValues (field : String) (values allowed : List String) :
    Except String Unit := do
  match values.find? (· ∉ allowed) with
  | some value => throw s!"target condition field `{field}` has non-canonical value `{value}`"
  | none => pure ()
  require ((values.zip values.tail).all (fun pair => decide (pair.1 < pair.2)) = true)
    s!"target condition field `{field}` values must be sorted and unique"

/-- `push_target_predicate`. -/
def targetPredicate (field : String) : List String → List String
  | [] => []
  | [value] => [s!"target.{field} = {value}"]
  | values => [s!"target.{field} in [" ++ ", ".intercalate values ++ "]"]

namespace TargetCondition

/-- `TargetCondition::is_unconditional`. -/
def isUnconditional (condition : TargetCondition) : Bool :=
  condition.arch.isEmpty && condition.os.isEmpty && condition.env.isEmpty

/-- `TargetCondition::matches`. -/
def «matches» (condition : TargetCondition) (target : TargetTriple) : Bool :=
  targetComponentMatches condition.arch target.arch &&
    targetComponentMatches condition.os target.os &&
    targetComponentMatches condition.env target.env

/-- `TargetCondition::is_satisfiable`. -/
def isSatisfiable (condition : TargetCondition) : Bool :=
  TargetTriple.supported.any condition.matches

/-- `TargetCondition::intersection`. -/
def intersection (condition other : TargetCondition) : Option TargetCondition := do
  let both : TargetCondition :=
    { arch := ← intersectTargetValues condition.arch other.arch
      os := ← intersectTargetValues condition.os other.os
      env := ← intersectTargetValues condition.env other.env }
  if both.isSatisfiable then some both else none

/-- The text of a condition. -/
def text (condition : TargetCondition) : String :=
  let predicates := targetPredicate "arch" condition.arch ++ targetPredicate "os" condition.os ++
    targetPredicate "env" condition.env
  if predicates = [] then "all targets" else " and ".intercalate predicates

/-- `TargetCondition::validate_canonical`. -/
def validateCanonical (condition : TargetCondition) : Except String Unit := do
  validateCanonicalTargetValues "arch" condition.arch ["aarch64", "x86_64"]
  validateCanonicalTargetValues "os" condition.os ["darwin", "linux", "windows"]
  validateCanonicalTargetValues "env" condition.env ["gnu", "msvc", "none"]
  require (condition.isUnconditional = true ∨ condition.isSatisfiable = true)
    s!"target condition `{condition.text}` does not match any supported target"

end TargetCondition

/-! ## Manifests -/

/-- `DependencySource`. -/
inductive DependencySource
  | registry (version : String) (registry : Option String)
  | path (path : String)
  | git (git : String) (branch tag rev : Option String)
deriving DecidableEq

/-- `Dependency`. -/
structure Dependency where
  aliasName : String
  package : String
  source : DependencySource
  target : TargetCondition
deriving DecidableEq

/-- `PackageMetadata`. -/
structure PackageMetadata where
  packageNamespace : String
  name : String
  version : String
  edition : String
deriving DecidableEq

/-- The canonical name of a package: `format!("{}/{}", namespace, name)`. -/
def PackageMetadata.id (package : PackageMetadata) : String :=
  s!"{package.packageNamespace}/{package.name}"

/-- `TransparencyTrustConfig`. -/
structure TransparencyTrustConfig where
  keys : List String
  proofMaxAgeSeconds : Nat
  offlineProofMaxAgeSeconds : Nat
  maxFutureSkewSeconds : Nat
  gossipCheckpoints : List String

/-- `Manifest`, without what only a build reads. -/
structure Manifest where
  package : PackageMetadata
  dependencies : List Dependency
  trust : TrustPolicy
  transparency : TransparencyTrustConfig

/-! ## Resolved graphs -/

/-- `ResolvedDependency`. -/
structure ResolvedDependency where
  aliasName : String
  package : String
  source : DependencySource
  checksum : Option String
  supplyChain : Option VerifiedReleaseEvidence
  target : TargetCondition
  dependencies : List ResolvedDependency

/-- `DependencyGraph`. -/
structure DependencyGraph where
  root : PackageMetadata
  dependencies : List ResolvedDependency

/-! ## Descriptions -/

/-- `git_description`. -/
def gitDescription (git : String) : Option String → Option String → Option String → String
  | some branch, none, some rev => s!"git {git}@{branch}#{rev}"
  | some branch, none, none => s!"git {git}@{branch}"
  | none, some tag, some rev => s!"git {git}@{tag}#{rev}"
  | none, some tag, none => s!"git {git}@{tag}"
  | none, none, some rev => s!"git {git}#{rev}"
  | _, _, _ => s!"git {git}"

/-- `source_description` (`dependency_tree.rs:123–140`). -/
def sourceDescription : DependencySource → String
  | .registry version (some registry) => s!"registry {registry} version {version}"
  | .registry version none => s!"registry version {version}"
  | .path path => s!"path {path}"
  | .git git branch tag rev => gitDescription git branch tag rev

end Nomo.Deps
