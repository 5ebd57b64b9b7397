import StarfieldDatastore.Provider

/-! `.netrc`: its fields, and whose credential a file yields. -/
namespace StarfieldDatastore.Netrc

/-- One word of the file with the word after it, where it takes one. -/
structure Field where
  word : String
  value : Option String
  deriving DecidableEq

def takesValue (word : String) : Bool :=
  word = "machine" || word = "login" || word = "password" || word = "account"

/-- The fields of a token sequence, read from left to right. -/
def readFields : List String → List Field
  | [] => []
  | word :: rest =>
    if takesValue word then
      match rest with
      | [] => [⟨word,none⟩]
      | value :: rest => ⟨word,some value⟩ :: readFields rest
    else ⟨word,none⟩ :: readFields rest

/-- A field that opens an entry. -/
def Field.header (f : Field) : Bool := f.word = "machine" || f.word = "default"

/-- The machine whose entry the field opens. -/
def Field.opens (f : Field) : Option String := if f.word = "machine" then f.value else none

theorem Field.opens_eq_some {f : Field} {host : String} :
    f.opens = some host ↔ f = ⟨"machine",some host⟩ := by
  obtain ⟨word,value⟩ := f
  simp [Field.opens]

/-- The last value of a field in part of a file. -/
def lastValue (word : String) (body : List Field) : Option String :=
  ((body.filter (·.word = word)).filterMap (·.value)).getLast?

theorem lastValue_cons (word : String) (f : Field) (body : List Field) (x : Option String) :
    (lastValue word (f::body)).or x =
      (lastValue word body).or (if f.word = word then f.value.or x else x) := by
  by_cases hw : f.word = word
  · cases hv : f.value with
    | none => simp [lastValue,hw,hv]
    | some v =>
      simp only [lastValue,List.filter_cons,hw,decide_true,if_true,List.filterMap_cons,hv,
        List.getLast?_cons,Option.some_or]
      cases (List.filterMap (·.value) (List.filter (·.word = word) body)).getLast? <;> simp
  · simp [lastValue,hw]

/-- The field loop as a loop over the fields that have been read. -/
def walk (host : String) (machine user password : Option String) :
    List Field → Except DatastoreError (Option Credential)
  | [] => if machine = some host then netrcCredential user password else .ok none
  | f :: fs =>
    if f.header then
      if machine = some host then netrcCredential user password
      else walk host f.opens none none fs
    else if takesValue f.word then
      match f.value with
      | none => .error (.config "incomplete .netrc entry")
      | some value =>
        walk host machine (if f.word = "login" then some value else user)
          (if f.word = "password" then some value else password) fs
    else .error (.config "unsupported or malformed .netrc field")

theorem fields_eq_walk (host : String) (machine user password : Option String)
    (tokens : List String) : fields host machine user password tokens =
      walk host machine user password (readFields tokens) := by
  induction tokens using readFields.induct generalizing machine user password with
  | case1 => rfl
  | case2 word ht =>
    simp only [takesValue,Bool.or_eq_true,decide_eq_true_eq] at ht
    obtain ((rfl|rfl)|rfl)|rfl := ht <;>
      simp [fields,readFields,takesValue,walk,Field.header,Field.opens]
  | case3 word ht value rest ih =>
    rw [readFields.eq_def]
    simp only [ht,if_true]
    simp only [takesValue,Bool.or_eq_true,decide_eq_true_eq] at ht
    obtain ((rfl|rfl)|rfl)|rfl := ht <;> 
      simp [fields,walk,Field.header,Field.opens,takesValue,ih]
  | case4 word rest ht ih =>
    rw [readFields.eq_def]
    rw [fields.eq_def]
    simp only [ht,Bool.false_eq_true,if_false]
    by_cases hd : word = "default"
    · subst hd
      simp [walk,Field.header,Field.opens,ih]
    · simp only [takesValue,Bool.or_eq_true,decide_eq_true_eq,not_or] at ht
      obtain ⟨⟨⟨hm,hl⟩,hp⟩,ha⟩ := ht
      simp [walk,Field.header,takesValue,hm,hl,hp,ha,hd]

theorem netrcCredential_some {user password : Option String} {c : Credential}
    (h : netrcCredential user password = .ok (some c)) :
    ∃ u s, user = some u ∧ password = some s ∧ c = .basic u s := by
  cases user with
  | none => cases h
  | some u =>
    cases password with
    | none => cases h
    | some s =>
      cases h
      exact ⟨u,s,rfl,rfl,rfl⟩

/-- Once the entry of the host is open, what is returned comes from its own fields. -/
theorem walk_own {host : String} {user password : Option String} {fs : List Field}
    {c : Credential} (h : walk host (some host) user password fs = .ok (some c)) :
    ∃ body rest u s, fs = body++rest ∧ (∀ f ∈ body, f.header = false) ∧
      (∀ f ∈ rest.head?, f.header = true) ∧ c = .basic u s ∧
      (lastValue "login" body).or user = some u ∧
      (lastValue "password" body).or password = some s := by
  induction fs generalizing user password with
  | nil =>
    rw [walk,if_pos rfl] at h
    obtain ⟨u,s,hu,hs,hc⟩ := netrcCredential_some h
    exact ⟨[],[],u,s,rfl,by simp,by simp,hc,hu,hs⟩
  | cons f fs ih =>
    rw [walk,if_pos rfl] at h
    split at h
    next hf =>
      obtain ⟨u,s,hu,hs,hc⟩ := netrcCredential_some h
      exact ⟨[],f::fs,u,s,rfl,by simp,by simpa using hf,hc,hu,hs⟩
    next hf =>
      split at h
      next =>
        split at h
        · cases h
        next value hv =>
          obtain ⟨body,rest,u,s,rfl,hb,hr,hc,hu,hs⟩ := ih h
          refine ⟨f::body,rest,u,s,rfl,?_,hr,hc,?_,?_⟩
          · intro g hg
            obtain rfl|hg := List.mem_cons.mp hg
            · simpa using hf
            · exact hb g hg
          · rw [lastValue_cons,hv,← hu]
            simp only [Option.some_or]
          · rw [lastValue_cons,hv,← hs]
            simp only [Option.some_or]
      · cases h

/-- Nothing is returned before the first header with the host's name. -/
theorem walk_opens {host : String} {machine user password : Option String} {fs : List Field}
    {c : Credential} (hm : machine ≠ some host)
    (h : walk host machine user password fs = .ok (some c)) :
    ∃ before after, fs = before++⟨"machine",some host⟩::after ∧
      (⟨"machine",some host⟩ : Field) ∉ before ∧
      walk host (some host) none none after = .ok (some c) := by
  induction fs generalizing machine user password with
  | nil =>
    rw [walk,if_neg hm] at h
    cases h
  | cons f fs ih =>
    rw [walk,if_neg hm] at h
    have later {m u p : Option String} (hm' : m ≠ some host) (hf : f ≠ ⟨"machine",some host⟩)
        (h' : walk host m u p fs = .ok (some c)) : ∃ before after,
        f::fs = before++⟨"machine",some host⟩::after ∧
        (⟨"machine",some host⟩ : Field) ∉ before ∧
        walk host (some host) none none after = .ok (some c) := by
      obtain ⟨before,after,rfl,hb,hw⟩ := ih hm' h'
      exact ⟨f::before,after,rfl,by simp [hb,Ne.symm hf],hw⟩
    split at h
    next hf =>
      by_cases hv : f.opens = some host
      · rw [hv] at h
        exact ⟨[],fs,by rw [Field.opens_eq_some.mp hv]; rfl,by simp,h⟩
      · exact later hv (fun e => hv (Field.opens_eq_some.mpr e)) h
    next hf =>
      have hne : f ≠ ⟨"machine",some host⟩ := fun e => hf (by rw [e]; rfl)
      split at h
      next =>
        split at h
        · cases h
        next => exact later hm hne h
      · cases h

/-- A credential comes from the first entry of the host alone: both values are the last ones
between its header and the next header. -/
theorem parseNetrc_own {text host : String} {c : Credential}
    (h : parseNetrc text host = .ok (some c)) :
    ∃ tokens before body rest user secret, tokenize text = .ok tokens ∧
      readFields tokens = before++⟨"machine",some host⟩::(body++rest) ∧
      (⟨"machine",some host⟩ : Field) ∉ before ∧ (∀ f ∈ body, f.header = false) ∧
      (∀ f ∈ rest.head?, f.header = true) ∧ c = .basic user secret ∧
      lastValue "login" body = some user ∧ lastValue "password" body = some secret := by
  obtain ⟨tokens,ht,h⟩ := bind_eq_ok.mp h
  rw [fields_eq_walk] at h
  obtain ⟨before,after,hr,hb,hw⟩ := walk_opens (by simp) h
  obtain ⟨body,rest,user,secret,rfl,hbody,hrest,hc,hu,hs⟩ := walk_own hw
  rw [Option.or_none] at hu hs
  exact ⟨tokens,before,body,rest,user,secret,ht,hr,hb,hbody,hrest,hc,hu,hs⟩

/-- A password that reads like a header. -/
theorem parseNetrc_own_keyword :
    ∃ tokens before body rest user secret,
      tokenize "machine a login u password machine" = .ok tokens ∧
      readFields tokens = before++⟨"machine",some "a"⟩::(body++rest) ∧
      (⟨"machine",some "a"⟩ : Field) ∉ before ∧ (∀ f ∈ body, f.header = false) ∧
      (∀ f ∈ rest.head?, f.header = true) ∧
      Credential.basic "u" "machine" = .basic user secret ∧
      lastValue "login" body = some user ∧ lastValue "password" body = some secret := by
  apply parseNetrc_own
  rw [parseNetrc,show tokenize "machine a login u password machine" =
    .ok ["machine","a","login","u","password","machine"]
    from rfl]
  show fields "a" none none none _ = _
  simp [fields,netrcCredential]

end StarfieldDatastore.Netrc
