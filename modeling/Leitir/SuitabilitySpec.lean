import Mathlib.Data.List.Nodup
import Leitir.LawfulLists

namespace Leitir.Suitability

open List

abbrev Text := List Char

section

def isLower (ch : Char) : Bool := 'a' ≤ ch && ch ≤ 'z'

def isWord (ch : Char) : Bool := isLower ch || '0' ≤ ch && ch ≤ '9'

def isSeparator (ch : Char) : Bool := ch = '.' || ch = '_' || ch = '-'

def isIdentifier (text : Text) : Bool :=
  text.head?.any isLower && (text.splitOnP isSeparator).all fun part => part ≠ [] && part.all isWord

def maxText : Nat := 256

def maxItems : Nat := 128

def isName (text : Text) : Bool := text.length ≤ maxText && isIdentifier text

variable {text : Text}

theorem mem_of_splitOnP {test : Char → Bool} {ch : Char} (h : ch ∈ text) :
    test ch = true ∨ ∃ part ∈ text.splitOnP test, ch ∈ part := by
  induction text with
  | nil => cases h
  | cons head rest ih =>
    rw [splitOnP_cons_eq_if_modifyHead]
    by_cases hhead : test head = true
    · rw [if_pos hhead]
      rcases mem_cons.mp h with rfl | h
      · exact Or.inl hhead
      · rcases ih h with hsep | ⟨part, hpart, hch⟩
        · exact Or.inl hsep
        · exact Or.inr ⟨part, mem_cons_of_mem _ hpart, hch⟩
    · rw [if_neg hhead]
      obtain ⟨first, others, hsplit⟩ := exists_cons_of_ne_nil (splitOnP_ne_nil test rest)
      rw [hsplit, modifyHead_cons]
      rcases mem_cons.mp h with rfl | h
      · exact Or.inr ⟨ch :: first, mem_cons_self, mem_cons_self⟩
      · rcases ih h with hsep | ⟨part, hpart, hch⟩
        · exact Or.inl hsep
        · rw [hsplit] at hpart
          rcases mem_cons.mp hpart with rfl | hpart
          · exact Or.inr ⟨head :: part, mem_cons_self, mem_cons_of_mem _ hch⟩
          · exact Or.inr ⟨part, mem_cons_of_mem _ hpart, hch⟩

theorem chars_of_isName (h : isName text = true) : ∀ ch ∈ text, isSeparator ch = true ∨ isWord ch = true := by
  intro ch hch
  unfold isName isIdentifier at h
  simp only [Bool.and_eq_true, all_eq_true] at h
  rcases mem_of_splitOnP hch with hsep | ⟨part, hpart, hmem⟩
  · exact Or.inl hsep
  · exact Or.inr ((h.2.2 part hpart).2 ch hmem)

theorem at_not_mem_name (h : isName text = true) : '@' ∉ text := by
  intro hat
  have := chars_of_isName h '@' hat
  revert this
  decide

end

inductive ConstraintMode
  | required | preferred
deriving DecidableEq, Repr

/-- A behaviour contract: how it is named, and whose evidence proves it. -/
structure BehaviorContract where
  behaviorId : Text
  contractVersion : Text
  collectorId : Text
  collectorVersion : Text
  contentDigest : Text
deriving DecidableEq

def resolve (contracts : List BehaviorContract) (behaviorId contractVersion : Text) : Option BehaviorContract :=
  contracts.find? fun contract => contract.behaviorId = behaviorId ∧ contract.contractVersion = contractVersion

structure BehaviorRequirement where
  behaviorId : Text
  contractVersion : Text
deriving DecidableEq

structure InterfaceRequirement where
  interfaceId : Text
  mode : ConstraintMode
deriving DecidableEq

structure PerformanceConstraint where
  metricId : Text
  collectorId : Text
  collectorVersion : Text
  unit : Text
  mode : ConstraintMode
deriving DecidableEq

structure LicensePolicy where
  allowedSpdxExpressions : List Text
  prohibitedSpdxExpressions : List Text
deriving DecidableEq

structure SpecFields where
  requiredBehaviors : List BehaviorRequirement
  prohibitedBehaviors : List BehaviorRequirement
  targetLanguage : Text
  targetRuntime : Text
  interfaces : List InterfaceRequirement
  performanceConstraints : List PerformanceConstraint
  licensePolicy : LicensePolicy
  prohibitedDependencies : List Text
  requiredPlatforms : List Text
  behaviorRegistry : List BehaviorContract

def languages : List Text := ["python".toList]

def runtimes : List Text := ["python>=3.11".toList, "cpython>=3.11".toList]

def platforms : List Text := ["any".toList, "linux".toList, "macos".toList, "windows".toList]

def performanceContracts : List (Text × Text × Text × Text) :=
  [("duration".toList, "leitir.perf_counter_ns".toList, "v1".toList, "ns".toList),
    ("peak_memory".toList, "leitir.tracemalloc_peak".toList, "v1".toList, "bytes".toList)]

def spdxExpressions : List Text := ["MIT".toList, "Apache-2.0".toList, "BSD-3-Clause".toList, "Python-2.0".toList]

def requirementsChecked (requirements : List BehaviorRequirement) : Prop :=
  requirements.length ≤ maxItems ∧ (∀ item ∈ requirements, isName item.behaviorId ∧ isName item.contractVersion) ∧
    (requirements.map fun item => (item.behaviorId, item.contractVersion)).Nodup

instance (requirements : List BehaviorRequirement) : Decidable (requirementsChecked requirements) :=
  inferInstanceAs (Decidable (_ ∧ _))

def registryChecked (contracts : List BehaviorContract) : Prop :=
  contracts ≠ [] ∧ contracts.length ≤ maxItems ∧
    (∀ item ∈ contracts, isName item.behaviorId ∧ isName item.contractVersion ∧ isName item.collectorId ∧
      isName item.collectorVersion) ∧
    (contracts.map fun item => (item.behaviorId, item.contractVersion)).Nodup

instance (contracts : List BehaviorContract) : Decidable (registryChecked contracts) := inferInstanceAs (Decidable (_ ∧ _))

def interfacesChecked (interfaces : List InterfaceRequirement) : Prop :=
  interfaces.length ≤ maxItems ∧ (∀ item ∈ interfaces, isName item.interfaceId) ∧
    (interfaces.map InterfaceRequirement.interfaceId).Nodup

instance (interfaces : List InterfaceRequirement) : Decidable (interfacesChecked interfaces) :=
  inferInstanceAs (Decidable (_ ∧ _))

def performanceChecked (constraints : List PerformanceConstraint) : Prop :=
  constraints.length ≤ maxItems ∧
    (∀ item ∈ constraints,
      (item.metricId, item.collectorId, item.collectorVersion, item.unit) ∈ performanceContracts) ∧
    (constraints.map fun item => (item.metricId, item.collectorId, item.collectorVersion)).Nodup

instance (constraints : List PerformanceConstraint) : Decidable (performanceChecked constraints) :=
  inferInstanceAs (Decidable (_ ∧ _))

def LicensePolicy.Checked (policy : LicensePolicy) : Prop :=
  policy.allowedSpdxExpressions ≠ [] ∧ (∀ item ∈ policy.allowedSpdxExpressions, item ∈ spdxExpressions) ∧
    (∀ item ∈ policy.prohibitedSpdxExpressions, item ∈ spdxExpressions) ∧
    (∀ item ∈ policy.allowedSpdxExpressions, item ∉ policy.prohibitedSpdxExpressions) ∧
    policy.allowedSpdxExpressions.Nodup ∧ policy.prohibitedSpdxExpressions.Nodup

instance (policy : LicensePolicy) : Decidable policy.Checked := inferInstanceAs (Decidable (_ ∧ _))

/-- What the constructor of a specification checks. -/
def SpecFields.Accepted (fields : SpecFields) : Prop :=
  fields.targetLanguage ∈ languages ∧ fields.targetRuntime ∈ runtimes ∧
    requirementsChecked fields.requiredBehaviors ∧ requirementsChecked fields.prohibitedBehaviors ∧
    fields.requiredBehaviors ≠ [] ∧
    (∀ item ∈ fields.requiredBehaviors, ∀ other ∈ fields.prohibitedBehaviors,
      (item.behaviorId, item.contractVersion) ≠ (other.behaviorId, other.contractVersion)) ∧
    interfacesChecked fields.interfaces ∧ performanceChecked fields.performanceConstraints ∧
    fields.licensePolicy.Checked ∧
    (fields.prohibitedDependencies.length ≤ maxItems ∧ (∀ item ∈ fields.prohibitedDependencies, isName item) ∧
      fields.prohibitedDependencies.Nodup) ∧
    (fields.requiredPlatforms ≠ [] ∧ (∀ item ∈ fields.requiredPlatforms, item ∈ platforms) ∧
      fields.requiredPlatforms.Nodup ∧ ("any".toList ∈ fields.requiredPlatforms → fields.requiredPlatforms.length = 1)) ∧
    registryChecked fields.behaviorRegistry ∧
    ∀ item ∈ fields.requiredBehaviors ++ fields.prohibitedBehaviors,
      (resolve fields.behaviorRegistry item.behaviorId item.contractVersion).isSome

instance (fields : SpecFields) : Decidable fields.Accepted := inferInstanceAs (Decidable (_ ∧ _))

/-- A specification that its constructor has let pass. -/
structure CapabilitySpec extends SpecFields where
  accepted : toSpecFields.Accepted

end Leitir.Suitability
