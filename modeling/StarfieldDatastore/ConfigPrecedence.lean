import StarfieldDatastore.Config

/-! Which of the builder, the environment and the file a setting comes from: the documented
order, and where `applyFile` keeps to it. -/
namespace StarfieldDatastore

/-- The value of a variable that is set and not blank. A value that cannot be read is an
error. -/
def EnvVar.setting {α : Type} (read : String → Option α) : EnvVar → Except Unit (Option α)
  | .notPresent => .ok none
  | .notUnicode => .error ()
  | .value text =>
    if trimWhitespace text = "" then .ok none
    else match read text with
      | some a => .ok (some a)
      | none => .error ()

/-- The documented order: the environment before what comes after it. -/
def elseThen {α : Type} (first rest : Except Unit (Option α)) : Except Unit (Option α) :=
  match first with
  | .ok none => rest
  | _ => first

/-- A call of the builder comes before everything else. -/
def explicitly {α : Type} (call : Option α) (rest : Except Unit (Option α)) :
    Except Unit (Option α) :=
  match call with
  | some a => .ok (some a)
  | none => rest

/-- `s3://` with a bucket: the mirrors that need a region. -/
def needsRegion (spec : String) : Bool :=
  "s3://".toList.isPrefixOf spec.toList && !((spec.toList.drop 5).takeWhile (· ≠ '/')).isEmpty

namespace Documented
variable (env : Environment) (builder : DatastoreBuilder) (file : DatastoreConfig)

def cacheRoot : Except Unit (Option String) :=
  explicitly builder.cacheRoot
    (elseThen ((env "STARFIELD_CACHE_DIR").setting some) (.ok file.cacheDir))

/-- `STARFIELD_MIRROR_REGION`, else `AWS_REGION`, else the file. -/
def region : Except Unit (Option String) :=
  elseThen ((env "STARFIELD_MIRROR_REGION").setting some)
    (elseThen ((env "AWS_REGION").setting some) (.ok file.mirrorRegion))

/-- Where a mirror lives; only one in S3 asks for the region. -/
def mirrorAt (spec : String) : Except Unit (Option MirrorSpec) := do
  let found ← if needsRegion spec then region env file else .ok none
  match parseMirror env spec found with
  | .ok mirror => .ok (some mirror)
  | .error _ => .error ()

def mirror : Except Unit (Option MirrorSpec) :=
  explicitly builder.mirror do
    match ← elseThen ((env "STARFIELD_MIRROR").setting some) (.ok file.mirror) with
    | some spec => mirrorAt env file spec
    | none => return none

def flag (name : String) (call fromFile : Option Bool) : Except Unit (Option Bool) :=
  explicitly call
    (elseThen ((env name).setting fun raw => (parseBool name raw).toOption) (.ok fromFile))

def maxBytes : Except Unit (Option ℕ) :=
  explicitly builder.maxBytes
    (elseThen ((env "STARFIELD_CACHE_MAX").setting parseU64) (.ok file.cacheMax))

/-- The builder with its settings in the documented order. -/
def applied (credentials : Provider) : Except Unit DatastoreBuilder := do
  let cacheRoot ← cacheRoot env builder file
  let mirror ← mirror env builder file
  let allowUpstream ← flag env "STARFIELD_ALLOW_UPSTREAM" builder.allowUpstream file.allowUpstream
  let offline ← flag env "STARFIELD_OFFLINE" builder.offline file.offline
  let maxBytes ← maxBytes env builder file
  return ⟨cacheRoot,mirror,some credentials,allowUpstream,offline,maxBytes⟩

end Documented

/-- An outcome without the text of its error. -/
def outcome {α : Type} (x : Except DatastoreError α) : Except Unit α := x.mapError fun _ => ()

/-- What the file, or a variable behind it, may hold where an S3 mirror asks for its region: the
file's region is taken before `AWS_REGION`, and a variable that is not Unicode counts as unset. -/
structure RegionKept (env : Environment) (file : DatastoreConfig) : Prop where
  order : envVar env "STARFIELD_MIRROR_REGION" = none → ∀ region, envVar env "AWS_REGION" = some region →
    file.mirrorRegion = none ∨ file.mirrorRegion = some region
  own : env "STARFIELD_MIRROR_REGION" = .notUnicode →
    file.mirrorRegion = none ∧ envVar env "AWS_REGION" = none ∧ envVar env "AWS_DEFAULT_REGION" = none
  shared : envVar env "STARFIELD_MIRROR_REGION" = none → env "AWS_REGION" = .notUnicode →
    file.mirrorRegion = none ∧ envVar env "AWS_DEFAULT_REGION" = none

/-- No mirror can be read from a text: it asks for a region and there is none, or it has no
scheme that is known. -/
def Unusable (env : Environment) (file : DatastoreConfig) (spec : String) : Prop :=
  if needsRegion spec then
    envVar env "STARFIELD_MIRROR_REGION" = none ∧ file.mirrorRegion = none ∧
      envVar env "AWS_REGION" = none ∧ envVar env "AWS_DEFAULT_REGION" = none
  else ¬("http://".toList.isPrefixOf spec.toList || "https://".toList.isPrefixOf spec.toList)

structure MirrorKept (env : Environment) (file : DatastoreConfig) : Prop where
  readable : env "STARFIELD_MIRROR" = .notUnicode → ∃ spec, file.mirror = some spec ∧ Unusable env file spec
  region : env "STARFIELD_MIRROR" ≠ .notUnicode → ∀ spec, (envVar env "STARFIELD_MIRROR").or file.mirror = some spec →
    needsRegion spec → RegionKept env file

section settings
variable {env : Environment} {name : String} {α : Type} {read : String → Option α}
  {builder : DatastoreBuilder} {file : DatastoreConfig}

theorem setting_notUnicode (h : env name = .notUnicode) : (env name).setting read = .error () := by
  simp [EnvVar.setting,h]

theorem envVar_notUnicode (h : env name = .notUnicode) : envVar env name = none := by
  simp [envVar,h]

theorem setting_of_text (h : env name ≠ .notUnicode) : (env name).setting read =
    match envVar env name with
    | none => .ok none
    | some text =>
      match read text with
      | some a => .ok (some a)
      | none => .error () := by
  unfold EnvVar.setting envVar
  cases hv : env name with
  | notPresent => rfl
  | notUnicode => exact absurd hv h
  | value text => by_cases ht : trimWhitespace text = "" <;> simp [ht]

theorem setting_some (h : env name ≠ .notUnicode) : (env name).setting some = .ok (envVar env name) := by
  rw [setting_of_text h]
  cases envVar env name <;> simp

@[simp] theorem elseThen_ok {a b : Option α} : elseThen (.ok a) (.ok b) = .ok (a.or b) := by
  cases a <;> rfl

@[simp] theorem elseThen_error {x : Except Unit (Option α)} : elseThen (.error ()) x = .error () := rfl

theorem cacheRoot_iff :
    .ok (builder.cacheRoot.or ((envVar env "STARFIELD_CACHE_DIR").or file.cacheDir)) =
        Documented.cacheRoot env builder file ↔
      (builder.cacheRoot = none → env "STARFIELD_CACHE_DIR" ≠ .notUnicode) := by
  unfold Documented.cacheRoot explicitly
  cases builder.cacheRoot with
  | some root => simp
  | none =>
    by_cases h : env "STARFIELD_CACHE_DIR" = .notUnicode
    · simp only [setting_notUnicode h]
      simp [h]
    · simp [setting_some h,h]

theorem fillBool_iff {call fromFile : Option Bool} :
    outcome (DatastoreConfig.fillBool env name fromFile call) =
        Documented.flag env name call fromFile ↔ (call = none → env name ≠ .notUnicode) := by
  unfold Documented.flag explicitly DatastoreConfig.fillBool
  cases call with
  | some b => simp [outcome,Except.mapError]
  | none =>
    by_cases h : env name = .notUnicode
    · simp only [setting_notUnicode h,envBool,envVar_notUnicode h]
      simp [h,outcome,Except.map,Except.mapError]
    · rw [setting_of_text h,envBool]
      cases envVar env name with
      | none => simp [h,outcome,Except.map,Except.mapError]
      | some raw =>
        cases hb : parseBool name raw <;>
          simp [h,hb,outcome,Except.map,Except.mapError,Except.toOption]

theorem fillMaxBytes_iff :
    outcome (DatastoreConfig.fillMaxBytes env file builder.maxBytes) =
        Documented.maxBytes env builder file ↔
      (builder.maxBytes = none → env "STARFIELD_CACHE_MAX" ≠ .notUnicode) := by
  unfold Documented.maxBytes explicitly DatastoreConfig.fillMaxBytes
  cases builder.maxBytes with
  | some max => simp [outcome,Except.mapError]
  | none =>
    by_cases h : env "STARFIELD_CACHE_MAX" = .notUnicode
    · simp only [setting_notUnicode h,envVar_notUnicode h]
      simp [h,outcome,Except.mapError]
    · rw [setting_of_text h]
      cases envVar env "STARFIELD_CACHE_MAX" with
      | none => simp [h,outcome,Except.mapError]
      | some raw => cases hn : parseU64 raw <;> simp [h,hn,outcome,Except.mapError]

end settings

section mirror
variable {env : Environment} {file : DatastoreConfig} {spec : String} {region : Option String}

/-- The S3 mirror that a text names, in a region. -/
def s3At (spec : String) : Option String → Except Unit (Option MirrorSpec)
  | none => .error ()
  | some region =>
    let rest := spec.toList.drop 5
    let bucket := rest.takeWhile (· ≠ '/')
    .ok (some (.s3 (String.ofList bucket) (String.ofList (trimMatches '/' (rest.drop (bucket.length+1)))) region false))

theorem s3At_inj {a b : Option String} : s3At spec a = s3At spec b ↔ a = b := by
  cases a <;> cases b <;> simp [s3At]

/-- The variables that are asked when there is no other region. -/
def fallback (env : Environment) : Option String :=
  (envVar env "AWS_REGION").or (envVar env "AWS_DEFAULT_REGION")

theorem parseMirror_s3 (h : needsRegion spec = true) :
    outcome ((parseMirror env spec region).map some) = s3At spec (region.or (fallback env)) := by
  obtain ⟨hs,hbucket⟩ := Bool.and_eq_true_iff.mp h
  have hb : ((spec.toList.drop 5).takeWhile (· ≠ '/')).isEmpty = false := by simpa using hbucket
  unfold parseMirror
  rw [if_pos hs]
  simp only [hb,Bool.false_eq_true,if_false,← Option.or_assoc,fallback]
  cases (region.or (envVar env "AWS_REGION")).or (envVar env "AWS_DEFAULT_REGION") <;>
    simp [s3At,outcome,Except.map,Except.mapError]

theorem s3_not_http (h : "s3://".toList.isPrefixOf spec.toList = true) :
    ("http://".toList.isPrefixOf spec.toList || "https://".toList.isPrefixOf spec.toList) = false := by
  cases hl : spec.toList with
  | nil => simp
  | cons c rest =>
    rw [hl] at h
    obtain ⟨rfl,-⟩ : 's' = c ∧ _ := by simpa using h
    rfl

theorem parseMirror_else (h : needsRegion spec = false) :
    parseMirror env spec region = parseMirror env spec none := by
  unfold parseMirror
  by_cases hs : "s3://".toList.isPrefixOf spec.toList = true
  · have hb : ((spec.toList.drop 5).takeWhile (· ≠ '/')).isEmpty = true := by
      simpa only [needsRegion,hs,Bool.true_and,Bool.not_eq_false'] using h
    rw [if_pos hs,if_pos hs]
    simp only [hb,if_true]
  · rw [if_neg hs,if_neg hs]

/-- The region that the documented order finds, `none` when it is an error. -/
def documentedRegion (env : Environment) (file : DatastoreConfig) : Option String :=
  match Documented.region env file with
  | .ok found => found.or (fallback env)
  | .error _ => none

theorem mirrorAt_s3 (h : needsRegion spec = true) :
    Documented.mirrorAt env file spec = s3At spec (documentedRegion env file) := by
  unfold Documented.mirrorAt documentedRegion
  simp only [h,if_true]
  cases Documented.region env file with
  | error e => rfl
  | ok found =>
    rw [← parseMirror_s3 h]
    simp only [bind,Except.bind]
    cases parseMirror env spec found <;> rfl

theorem mirrorAt_else (h : needsRegion spec = false) :
    Documented.mirrorAt env file spec = outcome ((parseMirror env spec region).map some) := by
  unfold Documented.mirrorAt
  rw [parseMirror_else h]
  simp only [h,Bool.false_eq_true,if_false,bind,Except.bind]
  cases parseMirror env spec none <;> rfl

theorem region_iff : ((envVar env "STARFIELD_MIRROR_REGION").or file.mirrorRegion).or (fallback env) =
    documentedRegion env file ↔ RegionKept env file := by
  unfold documentedRegion Documented.region fallback
  by_cases hown : env "STARFIELD_MIRROR_REGION" = .notUnicode
  · simp only [setting_notUnicode hown,envVar_notUnicode hown,elseThen_error,Option.none_or,
      Option.or_eq_none_iff]
    constructor
    · intro ⟨hfile,haws,hdefault⟩
      exact ⟨fun _ region _ => .inl hfile,fun _ => ⟨hfile,haws,hdefault⟩,fun _ _ => ⟨hfile,hdefault⟩⟩
    · intro h
      exact h.own hown
  by_cases hshared : env "AWS_REGION" = .notUnicode
  · simp only [setting_some hown,setting_notUnicode hshared,envVar_notUnicode hshared]
    cases hm : envVar env "STARFIELD_MIRROR_REGION" with
    | some region =>
      simp only [elseThen,Option.some_or,true_iff]
      exact ⟨by simp [hm],fun h => absurd h hown,by simp [hm]⟩
    | none =>
      simp only [elseThen,Option.none_or,Option.or_eq_none_iff]
      constructor
      · intro ⟨hfile,hdefault⟩
        exact ⟨fun _ region _ => .inl hfile,fun h => absurd h hown,fun _ _ => ⟨hfile,hdefault⟩⟩
      · intro h
        exact h.shared hm hshared
  · simp only [setting_some hown,setting_some hshared,elseThen_ok]
    constructor
    · intro h
      refine ⟨fun hm region haws => ?_,fun h => absurd h hown,fun _ h => absurd h hshared⟩
      cases hf : file.mirrorRegion with
      | none => exact .inl rfl
      | some other => simpa [hm,haws,hf] using h
    · intro h
      cases hm : envVar env "STARFIELD_MIRROR_REGION" with
      | some region => rfl
      | none =>
        cases haws : envVar env "AWS_REGION" with
        | none => simp
        | some region => obtain hf | hf := h.order hm region haws <;> simp [hf]

theorem unusable_iff : outcome ((parseMirror env spec
    ((envVar env "STARFIELD_MIRROR_REGION").or file.mirrorRegion)).map some) = .error () ↔
      Unusable env file spec := by
  unfold Unusable
  cases h : needsRegion spec with
  | true =>
    rw [parseMirror_s3 h,if_pos rfl,← and_assoc]
    simp only [← Option.or_eq_none_iff,fallback]
    cases ((envVar env "STARFIELD_MIRROR_REGION").or file.mirrorRegion).or
      ((envVar env "AWS_REGION").or (envVar env "AWS_DEFAULT_REGION")) <;> simp [s3At]
  | false =>
    rw [if_neg (by simp)]
    unfold parseMirror
    by_cases hs : "s3://".toList.isPrefixOf spec.toList = true
    · have hb : ((spec.toList.drop 5).takeWhile (· ≠ '/')).isEmpty = true := by
        simpa only [needsRegion,hs,Bool.true_and,Bool.not_eq_false'] using h
      rw [if_pos hs]
      simp only [hb,if_true,s3_not_http hs]
      simp [outcome,Except.map,Except.mapError]
    · rw [if_neg hs]
      cases ("http://".toList.isPrefixOf spec.toList || "https://".toList.isPrefixOf spec.toList) <;>
        simp [outcome,Except.map,Except.mapError]

theorem mirror_found_iff : outcome ((parseMirror env spec
    ((envVar env "STARFIELD_MIRROR_REGION").or file.mirrorRegion)).map some) =
      Documented.mirrorAt env file spec ↔ (needsRegion spec → RegionKept env file) := by
  cases h : needsRegion spec with
  | true => simp [parseMirror_s3 h,mirrorAt_s3 h,s3At_inj,region_iff]
  | false => exact iff_of_true (mirrorAt_else h).symm (by simp)

theorem fillMirror_iff {builder : DatastoreBuilder} :
    outcome (DatastoreConfig.fillMirror env file builder.mirror) = Documented.mirror env builder file ↔
      (builder.mirror = none → MirrorKept env file) := by
  unfold Documented.mirror explicitly DatastoreConfig.fillMirror
  cases builder.mirror with
  | some mirror => simp [outcome,Except.mapError]
  | none =>
    by_cases h : env "STARFIELD_MIRROR" = .notUnicode
    · simp only [setting_notUnicode h,envVar_notUnicode h,elseThen_error,Option.none_or,forall_const]
      have hiff : MirrorKept env file ↔ ∃ spec, file.mirror = some spec ∧ Unusable env file spec :=
        ⟨fun hkept => hkept.readable h,fun hspec => ⟨fun _ => hspec,fun hne => absurd h hne⟩⟩
      rw [hiff]
      cases file.mirror with
      | none => simp [outcome,Except.mapError,bind,Except.bind]
      | some spec =>
        simp only [Option.some.injEq,exists_eq_left']
        exact unusable_iff
    · have hiff : MirrorKept env file ↔
          ∀ spec, (envVar env "STARFIELD_MIRROR").or file.mirror = some spec → needsRegion spec → RegionKept env file :=
        ⟨fun hkept => hkept.region h,fun hspec => ⟨fun he => absurd he h,fun _ => hspec⟩⟩
      simp only [setting_some h,elseThen_ok,forall_const,hiff]
      cases (envVar env "STARFIELD_MIRROR").or file.mirror with
      | none => simp [outcome,Except.mapError,bind,Except.bind,pure,Except.pure]
      | some spec =>
        simp only [Option.some.injEq,forall_eq']
        exact mirror_found_iff

end mirror

/-- Every setting comes from the builder, else from the environment, else from the file, and a
variable that cannot be read is an error. -/
structure AsDocumented (env : Environment) (builder : DatastoreBuilder) (file : DatastoreConfig) : Prop where
  cacheRoot : .ok (builder.cacheRoot.or ((envVar env "STARFIELD_CACHE_DIR").or file.cacheDir)) =
    Documented.cacheRoot env builder file
  mirror : outcome (DatastoreConfig.fillMirror env file builder.mirror) = Documented.mirror env builder file
  allowUpstream : outcome (DatastoreConfig.fillBool env "STARFIELD_ALLOW_UPSTREAM" file.allowUpstream builder.allowUpstream) =
    Documented.flag env "STARFIELD_ALLOW_UPSTREAM" builder.allowUpstream file.allowUpstream
  offline : outcome (DatastoreConfig.fillBool env "STARFIELD_OFFLINE" file.offline builder.offline) =
    Documented.flag env "STARFIELD_OFFLINE" builder.offline file.offline
  maxBytes : outcome (DatastoreConfig.fillMaxBytes env file builder.maxBytes) = Documented.maxBytes env builder file

/-- A variable that is asked is Unicode, and where an S3 mirror asks for its region the file does
not stand before `AWS_REGION` with another. -/
structure Kept (env : Environment) (builder : DatastoreBuilder) (file : DatastoreConfig) : Prop where
  cacheRoot : builder.cacheRoot = none → env "STARFIELD_CACHE_DIR" ≠ .notUnicode
  mirror : builder.mirror = none → MirrorKept env file
  allowUpstream : builder.allowUpstream = none → env "STARFIELD_ALLOW_UPSTREAM" ≠ .notUnicode
  offline : builder.offline = none → env "STARFIELD_OFFLINE" ≠ .notUnicode
  maxBytes : builder.maxBytes = none → env "STARFIELD_CACHE_MAX" ≠ .notUnicode

theorem asDocumented_iff {env : Environment} {builder : DatastoreBuilder} {file : DatastoreConfig} :
    AsDocumented env builder file ↔ Kept env builder file := by
  constructor
  · intro ⟨hroot,hmirror,hallow,hoffline,hmax⟩
    exact ⟨cacheRoot_iff.mp hroot,fillMirror_iff.mp hmirror,fillBool_iff.mp hallow,fillBool_iff.mp hoffline,
      fillMaxBytes_iff.mp hmax⟩
  · intro ⟨hroot,hmirror,hallow,hoffline,hmax⟩
    exact ⟨cacheRoot_iff.mpr hroot,fillMirror_iff.mpr hmirror,fillBool_iff.mpr hallow,fillBool_iff.mpr hoffline,
      fillMaxBytes_iff.mpr hmax⟩

theorem outcome_bind {α β : Type} {x : Except DatastoreError α} {f : α → Except DatastoreError β} :
    outcome (x >>= f) = outcome x >>= fun a => outcome (f a) := by
  cases x <;> rfl

theorem applied_of_documented {env : Environment} {builder : DatastoreBuilder} {file : DatastoreConfig} {p : Provider}
    (h : AsDocumented env builder file) (hp : DatastoreConfig.fillCredentials file builder.credentials = .ok p) :
    outcome (DatastoreConfig.applyFile env builder file) = Documented.applied env builder file p := by
  unfold DatastoreConfig.applyFile Documented.applied
  simp only [outcome_bind,h.mirror,h.allowUpstream,h.offline,h.maxBytes,← h.cacheRoot,hp]
  rfl

/-- `applyFile` resolves the settings in the documented order exactly when no variable that it
asks fails to be Unicode and, for an S3 mirror without `STARFIELD_MIRROR_REGION`, the file holds
no other region than `AWS_REGION`. -/
theorem applyFile_order (env : Environment) (builder : DatastoreBuilder) (file : DatastoreConfig) :
    (AsDocumented env builder file ↔ Kept env builder file) ∧
      (Kept env builder file → ∀ p, DatastoreConfig.fillCredentials file builder.credentials = .ok p →
        outcome (DatastoreConfig.applyFile env builder file) = Documented.applied env builder file p) :=
  ⟨asDocumented_iff,fun h _ hp => applied_of_documented (asDocumented_iff.mpr h) hp⟩

def westEnv : Environment := fun name => if name = "AWS_REGION" then .value "eu-west-1" else .notPresent

def eastFile : DatastoreConfig := ⟨none,some "s3://ephemeris/de440",some "us-east-1",none,none,none,[],∅⟩

theorem westEnv_readable (name : String) : westEnv name ≠ .notUnicode := by
  by_cases h : name = "AWS_REGION" <;> simp [westEnv,h]

theorem applyFile_order_west :
    outcome (DatastoreConfig.applyFile westEnv .default { eastFile with mirrorRegion := none }) =
      Documented.applied westEnv .default { eastFile with mirrorRegion := none } (.chain [.config [],defaultCredentials]) := by
  apply (applyFile_order westEnv .default { eastFile with mirrorRegion := none }).2
  · have hregion : RegionKept westEnv { eastFile with mirrorRegion := none } :=
      ⟨fun _ _ _ => .inl rfl,fun h => absurd h (westEnv_readable _),fun _ h => absurd h (westEnv_readable _)⟩
    exact ⟨fun _ => westEnv_readable _,
      fun _ => ⟨fun h => absurd h (westEnv_readable _),fun _ _ _ _ => hregion⟩,
      fun _ => westEnv_readable _,fun _ => westEnv_readable _,fun _ => westEnv_readable _⟩
  · rfl

/-- With `AWS_REGION` set, a mirror that the file puts in S3 is still opened in the file's region. -/
theorem applyFile_region :
    (∃ b, DatastoreConfig.applyFile westEnv .default eastFile = .ok b ∧
      b.mirror = some (.s3 "ephemeris" "de440" "us-east-1" false)) ∧
    Documented.mirror westEnv .default eastFile = .ok (some (.s3 "ephemeris" "de440" "eu-west-1" false)) := by
  refine ⟨⟨_,rfl,?_⟩,?_⟩
  · rfl
  · rfl

end StarfieldDatastore
