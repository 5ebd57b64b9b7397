import StarfieldDatastore.World

/-! Credential providers. -/
namespace StarfieldDatastore

/-- What a provider holds: at most one credential for each host, and a name for it. -/
structure CredentialProvider where
  credentialFor : String → Except DatastoreError (Option Credential)
  identityFor : String → Option String

/-- `std::env::var` on one variable. -/
inductive EnvVar
  | notPresent
  | notUnicode
  | value (text : String)
  deriving DecidableEq, Repr

abbrev Environment := String → EnvVar

namespace EnvProvider

/-- The variable that holds the token of a host. -/
def variableOf (host : String) : String :=
  let shown := host.toList.map fun c => if c.isAlphanum then c.toUpper else '_'
  "STARFIELD_TOKEN_" ++ String.ofList shown

def credentialFor (env : Environment) (host : String) :
    Except DatastoreError (Option Credential) :=
  match env (variableOf host) with
  | .value token => if token ≠ "" then .ok (some (.bearer token none)) else .ok none
  | .notPresent => .ok none
  | .notUnicode => .error (.config "credential environment variable is not UTF-8")

/-- A host name without uppercase letters, as URLs have them. -/
def lowercase (host : String) : Prop := ∀ c ∈ host.toList, c.isUpper = false

instance (host : String) : Decidable (lowercase host) :=
  decidable_of_iff (host.toList.all fun c => !c.isUpper) (by simp [lowercase])

/-- What is left of a host name when its punctuation is made the same. -/
def masked (host : String) : List Char :=
  host.toList.map fun c => if c.isAlphanum then c else '_'

theorem toNat_toUpper (c : Char) :
    c.toUpper.toNat = if 97 ≤ c.toNat ∧ c.toNat ≤ 122 then c.toNat-32 else c.toNat := by
  by_cases h : 97 ≤ c.toNat ∧ c.toNat ≤ 122
  · delta Char.toUpper
    rw [if_pos h,dif_pos (by simpa [UInt32.le_iff_toNat_le] using h)]
    show (c.val+_).toNat = _
    rw [UInt32.toNat_add,Char.toNat_val]
    simp
    omega
  · delta Char.toUpper
    rw [if_neg h,dif_neg (by simpa [UInt32.le_iff_toNat_le] using h)]

theorem isUpper_iff {c : Char} : c.isUpper = true ↔ 65 ≤ c.toNat ∧ c.toNat ≤ 90 := by
  delta Char.isUpper
  simp [UInt32.le_iff_toNat_le]

/-- Uppercasing merges no two characters that are not uppercase already. -/
theorem toUpper_inj {c d : Char} (hc : c.isUpper = false) (hd : d.isUpper = false)
    (h : c.toUpper = d.toUpper) : c = d := by
  rw [← Char.toNat_inj] at h ⊢
  rw [toNat_toUpper,toNat_toUpper] at h
  rw [← Bool.not_eq_true,isUpper_iff] at hc hd
  split at h <;> split at h <;> omega

theorem map_toUpper_inj {l l' : List Char} (hl : ∀ c ∈ l, c.isUpper = false)
    (hl' : ∀ c ∈ l', c.isUpper = false) (h : l.map Char.toUpper = l'.map Char.toUpper) : l = l' := by
  induction l generalizing l' with
  | nil => exact (List.map_eq_nil_iff.mp h.symm).symm
  | cons c l ih =>
    cases l' with
    | nil => cases h
    | cons d l' =>
      obtain ⟨hc,h⟩ := List.cons.inj h
      rw [toUpper_inj (hl c (by simp)) (hl' d (by simp)) hc,
        ih (fun c hc => hl c (by simp [hc])) (fun c hc => hl' c (by simp [hc])) h]

theorem variableOf_eq (host : String) :
    variableOf host = "STARFIELD_TOKEN_" ++ String.ofList ((masked host).map Char.toUpper) := by
  simp only [variableOf,masked,List.map_map]
  congr 2
  refine List.map_congr_left fun c _ => ?_
  simp only [Function.comp_apply]
  split <;> rfl

theorem masked_lowercase {host : String} (h : lowercase host) :
    ∀ c ∈ masked host, c.isUpper = false := by
  intro c hc
  obtain ⟨d,hd,rfl⟩ := List.mem_map.mp hc
  split
  · exact h d hd
  · rfl

/-- Two lowercase hosts share a variable exactly when they differ in punctuation only. -/
theorem variableOf_eq_iff {a b : String} (ha : lowercase a) (hb : lowercase b) :
    variableOf a = variableOf b ↔ masked a = masked b := by
  rw [variableOf_eq,variableOf_eq]
  constructor
  · intro h
    rw [← String.toList_inj,String.toList_append,String.toList_append] at h
    have h' := List.append_cancel_left h
    rw [String.toList_ofList,String.toList_ofList] at h'
    exact map_toUpper_inj (masked_lowercase ha) (masked_lowercase hb) h'
  · intro h
    rw [h]

/-- The token of one host plays no part in the credential of a host with another variable. -/
theorem credentialFor_update {env : Environment} {a b : String} {v : EnvVar}
    (h : variableOf a ≠ variableOf b) :
    credentialFor (Function.update env (variableOf a) v) b = credentialFor env b := by
  simp only [credentialFor,Function.update_of_ne h.symm]

def identityFor (env : Environment) (host : String) : Option String :=
  match credentialFor env host with
  | .ok (some _) => some s!"env:{host}"
  | _ => none

end EnvProvider

def envProvider (env : Environment) : CredentialProvider :=
  ⟨EnvProvider.credentialFor env,EnvProvider.identityFor env⟩

end StarfieldDatastore
