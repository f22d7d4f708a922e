import Leitir.BtsJson
import Leitir.LicenseEvidence

namespace Leitir.Rerun

open Json (Value)
open License (Bytes sha isDigest canonicalBytes)
open Bts (RejectReason)

abbrev Text := List Char

/-- A pure POSIX path: its root, which is empty, one slash or exactly two, and its parts. -/
structure PurePath where
  root : Text
  parts : List Text
deriving DecidableEq

def purePosixPath (text : Text) : PurePath where
  root :=
    if "//".toList <+: text ∧ ¬ "///".toList <+: text then "//".toList
    else if "/".toList <+: text then "/".toList
    else []
  parts := (text.splitOn '/').filter fun part => part ≠ [] ∧ part ≠ ['.']

def PurePath.str (path : PurePath) : Text :=
  if path.root = [] ∧ path.parts = [] then ['.'] else path.root ++ List.intercalate ['/'] path.parts

def PurePath.InParents (path other : PurePath) : Prop :=
  path.root = other.root ∧ path.parts <+: other.parts ∧ path.parts ≠ other.parts

instance (path other : PurePath) : Decidable (path.InParents other) := inferInstanceAs (Decidable (_ ∧ _))

def absolutePath (value : Text) : Prop :=
  "/".toList <+: value ∧ value = (purePosixPath value).str ∧ ['.', '.'] ∉ (purePosixPath value).parts

instance (value : Text) : Decidable (absolutePath value) := inferInstanceAs (Decidable (_ ∧ _))

def absoluteCleanPath (value : Text) : Prop := '\x00' ∉ value ∧ absolutePath value

instance (value : Text) : Decidable (absoluteCleanPath value) := inferInstanceAs (Decidable (_ ∧ _))

def pathsOverlap (left right : Text) : Prop :=
  purePosixPath left = purePosixPath right ∨ (purePosixPath left).InParents (purePosixPath right) ∨
    (purePosixPath right).InParents (purePosixPath left)

instance (left right : Text) : Decidable (pathsOverlap left right) := inferInstanceAs (Decidable (_ ∨ _))

def pathIsWithin (path root : Text) : Prop :=
  purePosixPath path = purePosixPath root ∨ (purePosixPath root).InParents (purePosixPath path)

instance (path root : Text) : Decidable (pathIsWithin path root) := inferInstanceAs (Decidable (_ ∨ _))

/-- A rejected operation, with its reason and its detail code, or a value that a constructor does not take. -/
inductive Raised
  | transplant (reason : RejectReason) (message : String) (detailCode : Option Text)
  | value (message : String)
deriving DecidableEq

def threat (message detail : String) : Raised := .transplant .executionThreat message (some detail.toList)

structure ReadOnlyMount where
  destination : Text
  source : Text
  sourceDigest : Text
deriving DecidableEq

structure ContainmentPolicy where
  schemaVersion : Text
  nsjailPath : Text
  nsjailSha256 : Text
  nsjailVersion : Text
  nsjailBuildIdentity : Text
  configSchemaDigest : Text
  architecture : Text
  rootfsDigest : Text
  mountPlanDigest : Text
  readonlyMounts : List ReadOnlyMount
  writableTmpfs : Text
  writableTmpfsBytes : Int
  writableTmpfsInodes : Int
  scratchDir : Text
  cwd : Text
  mode : Text
  keepEnv : Bool
  cloneNewnet : Bool
  cloneNewuser : Bool
  cloneNewns : Bool
  cloneNewpid : Bool
  cloneNewipc : Bool
  cloneNewuts : Bool
  ifaceNoLo : Bool
  cgroupMemMax : Int
  cgroupPidsMax : Int
  cgroupCpuMsPerSec : Int
  wallTimeSeconds : Int
  rlimitAsMb : Int
  rlimitCpuSeconds : Int
  rlimitFsizeMb : Int
  rlimitNofile : Int
  rlimitNproc : Int
  rlimitStackMb : Int
  rlimitCoreMb : Int
  outputLimitBytes : Int
  environment : List Text
  optInSatisfied : Bool

def policySchema : Text := "leitir-containment-policy-v1".toList

def donorExecutionEnv : Text := "LEITIR_ENABLE_DONOR_EXECUTION".toList

def positiveInt (value : Int) : Prop := 0 < value ∧ value ≤ 2 ^ 63 - 1

instance (value : Int) : Decidable (positiveInt value) := inferInstanceAs (Decidable (_ ∧ _))

def mountKey (mount : ReadOnlyMount) : KeyedList.Key :=
  [Bts.Text.code mount.destination, Bts.Text.code mount.source, Bts.Text.code mount.sourceDigest]

def textsKey (text : Text) : KeyedList.Key := [Bts.Text.code text]

/-- The authority of a mount plan: what is seen where, without the host paths behind it. -/
def mountPlanPayload (policy : ContainmentPolicy) : Value :=
  .obj [("readonly_mounts", .arr (policy.readonlyMounts.map fun mount =>
      .obj [("destination", .str mount.destination), ("source_digest", .str mount.sourceDigest)])),
    ("rootfs_digest", .str policy.rootfsDigest), ("writable_tmpfs", .str policy.writableTmpfs),
    ("writable_tmpfs_bytes", .int policy.writableTmpfsBytes), ("writable_tmpfs_inodes", .int policy.writableTmpfsInodes)]

def validateMounts (policy : ContainmentPolicy) : List Text → List ReadOnlyMount → Except Raised Unit
  | _, [] => .ok ()
  | destinations, mount :: rest =>
    if ¬ (absoluteCleanPath mount.source ∧ absoluteCleanPath mount.destination ∧ isDigest mount.sourceDigest) then
      .error (threat "mount entry is malformed" "invalid_mount_entry")
    else if mount.destination ∈ destinations ∨ mount.destination = policy.writableTmpfs then
      .error (threat "mount destinations collide" "duplicate_mount_destination")
    else if pathsOverlap policy.scratchDir mount.source then
      .error (threat "writable scratch source overlaps a read-only mount source" "scratch_source_overlap")
    else validateMounts policy (mount.destination :: destinations) rest

def partitionEntry (entry : Text) : Text × Option Text :=
  (entry.takeWhile (· ≠ '='), (entry.dropWhile (· ≠ '=')).tail?)

def isEnvName (name : Text) : Bool :=
  (name.head?.any fun ch => 'A' ≤ ch && ch ≤ 'Z' || ch = '_') &&
    name.all fun ch => 'A' ≤ ch && ch ≤ 'Z' || '0' ≤ ch && ch ≤ '9' || ch = '_'

def validEnvironmentEntry (entry : Text) : Bool :=
  (partitionEntry entry).2.isSome && isEnvName (partitionEntry entry).1 && (partitionEntry entry).1 ≠ donorExecutionEnv &&
    (Utf8.encodeText entry).length ≤ 4096

def validatePolicy (policy : ContainmentPolicy) : Except Raised Unit := do
  if policy.schemaVersion ≠ policySchema then
    .error (threat "unsupported or malformed containment policy" "invalid_policy_schema")
  else if policy.mode ≠ "ONCE".toList ∨ policy.keepEnv then
    .error (threat "nsjail mode and environment controls are not fully applied" "invalid_nsjail_control")
  else if ¬ (policy.cloneNewnet ∧ policy.cloneNewuser ∧ policy.cloneNewns ∧ policy.cloneNewpid ∧ policy.cloneNewipc ∧
      policy.cloneNewuts ∧ policy.ifaceNoLo) then
    .error (threat "required namespace or network control is not fully applied" "invalid_namespace_control")
  else if ¬ (∀ value ∈ [policy.cgroupMemMax, policy.cgroupPidsMax, policy.cgroupCpuMsPerSec, policy.wallTimeSeconds,
      policy.rlimitAsMb, policy.rlimitCpuSeconds, policy.rlimitFsizeMb, policy.rlimitNofile, policy.rlimitNproc,
      policy.rlimitStackMb, policy.writableTmpfsBytes, policy.writableTmpfsInodes, policy.outputLimitBytes],
      positiveInt value) ∨ policy.rlimitCoreMb ≠ 0 then
    .error (threat "resource limits must be bounded positive integers and core must be zero" "invalid_resource_limit")
  else if ¬ ∀ value ∈ [policy.nsjailSha256, policy.configSchemaDigest, policy.rootfsDigest, policy.mountPlanDigest],
      isDigest value then
    .error (threat "containment integrity digest is missing or malformed" "invalid_integrity_digest")
  else if policy.nsjailVersion = [] ∨ policy.nsjailBuildIdentity = [] ∨ policy.architecture = [] then
    .error (threat "backend identity fields are required" "missing_backend_identity")
  else if ¬ ∀ value ∈ [policy.nsjailPath, policy.writableTmpfs, policy.scratchDir, policy.cwd], absoluteCleanPath value then
    .error (threat "containment paths must be normalized absolute paths" "invalid_containment_path")
  else if ¬ pathIsWithin policy.cwd policy.writableTmpfs then
    .error (threat "working directory must be inside the bounded tmpfs" "cwd_outside_tmpfs")
  else if policy.readonlyMounts = [] then
    .error (threat "mount plan has no read-only authorized inputs" "empty_mount_plan")
  else if KeyedList.sortBy mountKey policy.readonlyMounts ≠ policy.readonlyMounts ∨ ¬ policy.readonlyMounts.Nodup then
    .error (threat "mount plan must be sorted and unique" "noncanonical_mount_plan")
  else
    validateMounts policy [] policy.readonlyMounts
    if ¬ ∃ mount ∈ policy.readonlyMounts, mount.destination = ['/'] then
      .error (threat "mount plan must supply a read-only rootfs" "missing_rootfs_mount")
    else if policy.mountPlanDigest ≠ sha (canonicalBytes (mountPlanPayload policy)) then
      .error (threat "mount plan digest does not match its inputs" "mount_plan_digest_mismatch")
    else if KeyedList.sortBy textsKey policy.environment ≠ policy.environment ∨ ¬ policy.environment.Nodup then
      .error (threat "environment allowlist must be sorted and unique" "noncanonical_environment")
    else if policy.environment.any fun entry => !validEnvironmentEntry entry then
      .error (threat "environment allowlist entry is malformed or forbidden" "invalid_environment")
    else .ok ()

structure RerunExecutionPolicy where
  schemaVersion : Text
  containment : ContainmentPolicy
  runnerArgv : List Text
  runnerClosureDigest : Text
  baselineExecutionPolicyDigest : Text
  donorRoots : List Text
  pythonHashSeed : Text

def rerunPolicySchemaVersion : Text := "leitir-rerun-execution-policy-v1".toList

/-- The environment by its names; an entry without a value and a repeated name are refused. -/
def environmentOf : List (Text × Text) → List Text → Except Raised (List (Text × Text))
  | result, [] => .ok result
  | result, entry :: rest =>
    match partitionEntry entry with
    | (_, none) => .error (.value "containment environment is malformed")
    | (name, some value) =>
      if (result.lookup name).isSome then .error (.value "containment environment is malformed")
      else environmentOf (result ++ [(name, value)]) rest

def utf8Locales : List (Option Text) := [some "C.UTF-8".toList, some "C.utf8".toList]

/-- What the constructor of an execution policy checks. -/
def RerunExecutionPolicy.validate (policy : RerunExecutionPolicy) : Except Raised Unit := do
  if policy.schemaVersion ≠ rerunPolicySchemaVersion then .error (.value "unsupported rerun execution policy")
  else if ¬ isDigest policy.runnerClosureDigest then
    .error (.value "runner_closure_digest must be a lowercase sha256 digest")
  else if ¬ isDigest policy.baselineExecutionPolicyDigest then
    .error (.value "baseline_execution_policy_digest must be a lowercase sha256 digest")
  else if policy.runnerArgv = [] then .error (.value "runner_argv must be a nonempty tuple")
  else if policy.runnerArgv.any fun item => item = [] || item.contains '\x00' then
    .error (.value "runner argv contains an invalid value")
  else if "-I".toList ∈ policy.runnerArgv then
    .error (.value "isolated mode is forbidden because it ignores PYTHONHASHSEED")
  else if policy.pythonHashSeed ≠ ['0'] then .error (.value "v1 fixes PYTHONHASHSEED to numeric zero")
  else if KeyedList.sortBy textsKey policy.donorRoots ≠ policy.donorRoots ∨ ¬ policy.donorRoots.Nodup ∨
      policy.donorRoots = [] then
    .error (.value "donor roots must be a sorted, unique, nonempty tuple")
  else if ¬ ∀ root ∈ policy.donorRoots, absolutePath root then
    .error (.value "donor roots must be normalized absolute paths")
  else
    let environment ← environmentOf [] policy.containment.environment
    if environment.lookup "PYTHONHASHSEED".toList ≠ some policy.pythonHashSeed then
      .error (.value "containment environment must fix PYTHONHASHSEED=0")
    else if environment.lookup "TZ".toList ≠ some "UTC".toList ∨
        environment.lookup "LANG".toList ∉ utf8Locales ∧ environment.lookup "LC_ALL".toList ∉ utf8Locales then
      .error (.value "containment environment must fix UTC and a UTF-8 C locale")
    else .ok ()

def texts (items : List Text) : Value := .arr (items.map .str)

def mountJson (mount : ReadOnlyMount) : Value :=
  .obj [("destination", .str mount.destination), ("source", .str mount.source),
    ("source_digest", .str mount.sourceDigest)]

def containmentJson (policy : ContainmentPolicy) : Value :=
  .obj [("architecture", .str policy.architecture), ("cgroup_cpu_ms_per_sec", .int policy.cgroupCpuMsPerSec),
    ("cgroup_mem_max", .int policy.cgroupMemMax), ("cgroup_pids_max", .int policy.cgroupPidsMax),
    ("clone_newipc", .bool policy.cloneNewipc), ("clone_newnet", .bool policy.cloneNewnet),
    ("clone_newns", .bool policy.cloneNewns), ("clone_newpid", .bool policy.cloneNewpid),
    ("clone_newuser", .bool policy.cloneNewuser), ("clone_newuts", .bool policy.cloneNewuts),
    ("config_schema_digest", .str policy.configSchemaDigest), ("cwd", .str policy.cwd),
    ("environment", texts policy.environment), ("iface_no_lo", .bool policy.ifaceNoLo), ("keep_env", .bool policy.keepEnv),
    ("mode", .str policy.mode), ("mount_plan_digest", .str policy.mountPlanDigest),
    ("nsjail_build_identity", .str policy.nsjailBuildIdentity), ("nsjail_path", .str policy.nsjailPath),
    ("nsjail_sha256", .str policy.nsjailSha256), ("nsjail_version", .str policy.nsjailVersion),
    ("opt_in_satisfied", .bool policy.optInSatisfied), ("output_limit_bytes", .int policy.outputLimitBytes),
    ("readonly_mounts", .arr (policy.readonlyMounts.map mountJson)), ("rlimit_as_mb", .int policy.rlimitAsMb),
    ("rlimit_core_mb", .int policy.rlimitCoreMb), ("rlimit_cpu_seconds", .int policy.rlimitCpuSeconds),
    ("rlimit_fsize_mb", .int policy.rlimitFsizeMb), ("rlimit_nofile", .int policy.rlimitNofile),
    ("rlimit_nproc", .int policy.rlimitNproc), ("rlimit_stack_mb", .int policy.rlimitStackMb),
    ("rootfs_digest", .str policy.rootfsDigest), ("schema_version", .str policy.schemaVersion),
    ("scratch_dir", .str policy.scratchDir), ("wall_time_seconds", .int policy.wallTimeSeconds),
    ("writable_tmpfs", .str policy.writableTmpfs), ("writable_tmpfs_bytes", .int policy.writableTmpfsBytes),
    ("writable_tmpfs_inodes", .int policy.writableTmpfsInodes)]

/-- The policy without the host paths, which are handles and not authority. -/
def ContainmentPolicy.normalized (policy : ContainmentPolicy) : ContainmentPolicy :=
  { policy with
    nsjailPath := "/host-binary/nsjail".toList
    readonlyMounts := policy.readonlyMounts.mapIdx fun index mount =>
      { mount with source := "/host-mount-source/".toList ++ Nat.toDigits 10 index }
    scratchDir := "/host-scratch".toList }

def RerunExecutionPolicy.policyDigest (policy : RerunExecutionPolicy) : Text :=
  sha <| canonicalBytes <| .obj
    [("baseline_execution_policy_digest", .str policy.baselineExecutionPolicyDigest),
      ("containment", containmentJson policy.containment.normalized), ("donor_roots", texts policy.donorRoots),
      ("python_hash_seed", .str policy.pythonHashSeed), ("runner_argv", texts policy.runnerArgv),
      ("runner_closure_digest", .str policy.runnerClosureDigest), ("schema_version", .str policy.schemaVersion)]

end Leitir.Rerun
